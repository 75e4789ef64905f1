import NetBerth.Rules
import NetBerth.SqlCursor

/-!
# Loading rules from a database that fails

The loaders of single rules and the bulk loads, with the errors of each of
their queries as an argument. A list whose query or scan fails is handed over
empty, a step to the next row that fails ends a list or a bulk load as if it
were the last, and only an error of the rule's own query or scan is returned.

An empty whitelist admits everyone, so a list that is lost opens the rule. Each
loader is shown to hand over complete rules exactly when no such error strikes
before the end of what is stored.
-/
namespace NetBerth.RuleLoading
open SqlTable SqlCursor Rules

/-- The errors of the reads beside a rule. -/
structure ForwardFaults where
  whitelist : Fault
  blacklist : Fault

structure ProxyFaults where
  domains : Fault
  ipWhitelist : Fault
  ipBlacklist : Fault
  uaWhitelist : Fault
  uaBlacklist : Fault

/-! ## The loaders -/

def loadWireACL (f : Fault) (t : Table ListRow) (ruleID : ID) : List ACLEntry :=
  (readRows f (entriesOf t ruleID)).getD []

def loadWireStrings (f : Fault) (t : Table ListRow) (ruleID : ID) : List String :=
  (readRows f (valuesOf t ruleID)).getD []

def loadWireDomains (f : Fault) (t : Table ListRow) (ruleID : ID) : List String :=
  (readRows f (valuesOf t ruleID)).getD []

def forwardListsOf (F : ForwardFaults) (db : ForwardTables) (id : ID) : ForwardLists :=
  ⟨loadWireACL F.whitelist db.whitelist id, loadWireACL F.blacklist db.blacklist id⟩

def proxyListsOf (F : ProxyFaults) (db : ProxyTables) (id : ID) : ProxyLists :=
  ⟨loadWireDomains F.domains db.domains id, loadWireACL F.ipWhitelist db.ipWhitelist id,
    loadWireACL F.ipBlacklist db.ipBlacklist id, loadWireStrings F.uaWhitelist db.uaWhitelist id,
    loadWireStrings F.uaBlacklist db.uaBlacklist id⟩

def loadForwardRule (f : Fault) (F : ForwardFaults) (db : ForwardTables) (id : ID) :
    Option ForwardRule :=
  (readRow f (db.rules.select id)).map fun row => ⟨row, forwardListsOf F db id⟩

/-- The single load leaves `cert_id` out of its columns. -/
def loadProxyRule (f : Fault) (F : ProxyFaults) (db : ProxyTables) (id : ID) : Option ProxyRule :=
  (readRow f (db.rules.select id)).map fun row => ⟨{ row with certID := "" }, proxyListsOf F db id⟩

/-- `forwardDB.GetRules`; `none` is the error it returns. -/
def forwardGetRules (f : Fault) (F : ID → ForwardFaults) (db : ForwardTables) :
    Option (List ForwardRule) :=
  (readRows f db.rules.rows).map (List.map fun row => ⟨row, forwardListsOf (F row.id) db row.id⟩)

/-- `proxyDB.GetRules`. -/
def proxyGetRules (f : Fault) (F : ID → ProxyFaults) (db : ProxyTables) :
    Option (List ProxyRule) :=
  (readRows f db.rules.rows).map (List.map fun row => ⟨row, proxyListsOf (F row.id) db row.id⟩)

/-! ## When nothing is lost -/

def ForwardFaults.Harmless (F : ForwardFaults) (db : ForwardTables) (id : ID) : Prop :=
  SqlCursor.Harmless F.whitelist (entriesOf db.whitelist id) ∧
    SqlCursor.Harmless F.blacklist (entriesOf db.blacklist id)

def ProxyFaults.Harmless (F : ProxyFaults) (db : ProxyTables) (id : ID) : Prop :=
  SqlCursor.Harmless F.domains (valuesOf db.domains id) ∧
    SqlCursor.Harmless F.ipWhitelist (entriesOf db.ipWhitelist id) ∧
    SqlCursor.Harmless F.ipBlacklist (entriesOf db.ipBlacklist id) ∧
    SqlCursor.Harmless F.uaWhitelist (valuesOf db.uaWhitelist id) ∧
    SqlCursor.Harmless F.uaBlacklist (valuesOf db.uaBlacklist id)

theorem forwardListsOf_eq_iff {F : ForwardFaults} {db : ForwardTables} {id : ID} :
    forwardListsOf F db id = db.lists id ↔ F.Harmless db id := by
  simp only [forwardListsOf, ForwardTables.lists, ForwardLists.mk.injEq, loadWireACL,
    getD_readRows_eq_iff, ForwardFaults.Harmless]

theorem proxyListsOf_eq_iff {F : ProxyFaults} {db : ProxyTables} {id : ID} :
    proxyListsOf F db id = db.lists id ↔ F.Harmless db id := by
  simp only [proxyListsOf, ProxyTables.lists, ProxyLists.mk.injEq, loadWireACL, loadWireStrings,
    loadWireDomains, getD_readRows_eq_iff, ProxyFaults.Harmless]

theorem loadForwardRule_complete_iff (f : Fault) (F : ForwardFaults) (db : ForwardTables) (id : ID) :
    (∀ r, loadForwardRule f F db id = some r → r.toForwardLists = db.lists id) ↔
      ∀ row ∈ db.rules.select id, RowLost f ∨ F.Harmless db id := by
  rw [← forwardListsOf_eq_iff]
  exact map_readRow_iff

theorem loadProxyRule_complete_iff (f : Fault) (F : ProxyFaults) (db : ProxyTables) (id : ID) :
    (∀ r, loadProxyRule f F db id = some r → r.toProxyLists = db.lists id) ↔
      ∀ row ∈ db.rules.select id, RowLost f ∨ F.Harmless db id := by
  rw [← proxyListsOf_eq_iff]
  exact map_readRow_iff

theorem forwardGetRules_complete_iff (f : Fault) (F : ID → ForwardFaults) (db : ForwardTables) :
    (∀ rules, forwardGetRules f F db = some rules → rules = db.rules.rows.map db.rule) ↔
      Reported f db.rules.rows ∨
        Whole f db.rules.rows ∧ ∀ row ∈ db.rules.rows, (F row.id).Harmless db row.id := by
  simp only [forwardGetRules, map_readRows_iff, ForwardTables.rule, ForwardRule.mk.injEq, true_and,
    forwardListsOf_eq_iff]

theorem proxyGetRules_complete_iff (f : Fault) (F : ID → ProxyFaults) (db : ProxyTables) :
    (∀ rules, proxyGetRules f F db = some rules → rules = db.rules.rows.map db.rule) ↔
      Reported f db.rules.rows ∨
        Whole f db.rules.rows ∧ ∀ row ∈ db.rules.rows, (F row.id).Harmless db row.id := by
  simp only [proxyGetRules, map_readRows_iff, ProxyTables.rule, ProxyRule.mk.injEq, true_and,
    proxyListsOf_eq_iff]

/-- For every content of the tables and every pattern of errors: a loaded rule
carries the stored lists, and a bulk load without an error all rows with
theirs, exactly when the rule's own read fails visibly, or no row is cut off
and no error strikes a list before its end. -/
theorem loads_complete_iff (db : ForwardTables) (pdb : ProxyTables) (f : Fault) :
    (∀ F id, (∀ r, loadForwardRule f F db id = some r → r.toForwardLists = db.lists id) ↔
      ∀ row ∈ db.rules.select id, RowLost f ∨ ForwardFaults.Harmless F db id) ∧
    (∀ F id, (∀ r, loadProxyRule f F pdb id = some r → r.toProxyLists = pdb.lists id) ↔
      ∀ row ∈ pdb.rules.select id, RowLost f ∨ ProxyFaults.Harmless F pdb id) ∧
    (∀ F, (∀ rules, forwardGetRules f F db = some rules → rules = db.rules.rows.map db.rule) ↔
      Reported f db.rules.rows ∨
        Whole f db.rules.rows ∧ ∀ row ∈ db.rules.rows, (F row.id).Harmless db row.id) ∧
    (∀ F, (∀ rules, proxyGetRules f F pdb = some rules → rules = pdb.rules.rows.map pdb.rule) ↔
      Reported f pdb.rules.rows ∨
        Whole f pdb.rules.rows ∧ ∀ row ∈ pdb.rules.rows, (F row.id).Harmless pdb row.id) :=
  ⟨fun F id => loadForwardRule_complete_iff f F db id,
    fun F id => loadProxyRule_complete_iff f F pdb id,
    fun F => forwardGetRules_complete_iff f F db, fun F => proxyGetRules_complete_iff f F pdb⟩

/-! ## What a lost list admits -/

/-- What `net/netip` and `net` make of a string. -/
structure Netip (Addr : Type) where
  parseAddr : String → Option Addr
  parsePrefix : String → Option (Addr → Bool)
  splitHostPort : String → Option String

section
variable {Addr : Type} [DecidableEq Addr]

/-- An entry is a network, by what it contains, or a single address. -/
def parseEntry (N : Netip Addr) (raw : String) : Option (Addr → Bool) :=
  match N.parsePrefix raw with
  | some network => some network
  | none => (N.parseAddr raw).map fun single addr => decide (single = addr)

structure Matcher (Addr : Type) where
  whitelist : List (Addr → Bool)
  blacklist : List (Addr → Bool)

def Matcher.load (N : Netip Addr) (whitelist blacklist : List String) : Matcher Addr :=
  ⟨whitelist.filterMap (parseEntry N), blacklist.filterMap (parseEntry N)⟩

def Matcher.isAllowed (N : Netip Addr) (m : Matcher Addr) (ipStr : String) : Bool :=
  match (N.parseAddr ipStr).orElse fun _ => (N.splitHostPort ipStr).bind N.parseAddr with
  | none => false
  | some addr =>
    if m.blacklist.any (· addr) then false
    else if !m.whitelist.isEmpty then m.whitelist.any (· addr)
    else true

/-- The matcher `startRule` builds. -/
def ruleMatcher (N : Netip Addr) (lists : ForwardLists) : Matcher Addr :=
  .load N (lists.whitelist.map ACLEntry.value) (lists.blacklist.map ACLEntry.value)

/-- Without lists every address is admitted. -/
theorem isAllowed_of_no_lists (N : Netip Addr) {ipStr : String} {addr : Addr}
    (h : N.parseAddr ipStr = some addr) : (ruleMatcher N ⟨[], []⟩).isAllowed N ipStr := by
  simp [ruleMatcher, Matcher.load, Matcher.isAllowed, h]

end

/-- Addresses as they are written. -/
def plainNetip : Netip String := ⟨some, fun _ => none, fun _ => none⟩

def ssh : ForwardRow :=
  ⟨"f1", "t", "o", "ssh", "tcp", "", 2222, "10.0.0.2", 22, true, 0, true, "", ""⟩

/-- One rule that admits one address. -/
def oneRule : ForwardTables :=
  ⟨⟨[ssh], by decide⟩, ⟨[⟨"w1", "f1", "10.0.0.1"⟩], by decide⟩, Table.empty⟩

/-- The query for the whitelist fails. -/
def whitelistFails : ForwardFaults := ⟨⟨true, none, fun _ => false⟩, Fault.none⟩

/-- The rule is handed over open to everyone; and a bulk load that is cut off
before its first row returns no rule and no error. -/
theorem lost_whitelist_admits_all :
    (∃ r, loadForwardRule Fault.none whitelistFails oneRule "f1" = some r ∧
      r.toForwardLists ≠ oneRule.lists "f1" ∧
      (ruleMatcher plainNetip (oneRule.lists "f1")).isAllowed plainNetip "6.6.6.6" = false ∧
      (ruleMatcher plainNetip r.toForwardLists).isAllowed plainNetip "6.6.6.6" = true) ∧
    forwardGetRules ⟨false, some 0, fun _ => false⟩ (fun _ => ⟨Fault.none, Fault.none⟩) oneRule =
      some [] ∧ oneRule.rules.rows.map oneRule.rule ≠ [] := by
  have hopen := isAllowed_of_no_lists plainNetip (show plainNetip.parseAddr "6.6.6.6" = _ from rfl)
  exact ⟨⟨⟨ssh, ⟨[], []⟩⟩, rfl, by decide, by decide, hopen⟩, rfl, by decide⟩

end NetBerth.RuleLoading
