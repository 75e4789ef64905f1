import NetBerth.ACLMatcher

/-!
# What the stored rules hold

`Create` checks the ports, the domains, the target and the entries of the lists of a body;
`Update` of either kind of rule checks nothing. The two handlers of forward rules are those
of the engine's model, the ones of proxy rules stand here, and both run side by side.

Where every body of an `Update` meets the checks of `Create`, every rule does that the
tables hold at any time.
-/
namespace NetBerth.StoredRules
open Interleaving SqlTable Rules ForwardEngine ACLMatcher

/-! ## The validators -/

/-- `[a-zA-Z0-9](?:[a-zA-Z0-9\-]{0,61}[a-zA-Z0-9])?` -/
def label (s : List Char) : Bool :=
  s.head?.any Char.isAlphanum && s.getLast?.any Char.isAlphanum && s.length ≤ 63 &&
    s.all fun c => c.isAlphanum || c = '-'

/-- `[a-zA-Z]{2,}` -/
def topLevel (s : List Char) : Bool := 2 ≤ s.length && s.all Char.isAlpha

def domainRegex (d : List Char) : Bool :=
  let labels := List.splitOn '.' (match d with
    | '*' :: '.' :: rest => rest
    | _ => d)
  2 ≤ labels.length && labels.dropLast.all label && labels.getLast?.any topLevel

/-- `validator.Domain`. -/
def validDomain (d : String) : Bool :=
  if d = "" then false
  else if 253 < d.utf8ByteSize then false
  else if ['.', '.'] <:+: d.toList then false
  else domainRegex d.toList

/-- The fields of a `url.URL` that are looked at. -/
structure URL where
  scheme : String
  host : String

/-- `validator.URL`, over what `url.Parse` makes of a string. -/
def validURL (parseURL : String → Option URL) (raw : String) : Bool :=
  if raw = "" then false
  else match parseURL raw with
  | none => false
  | some u =>
    if u.scheme ≠ "http" ∧ u.scheme ≠ "https" then false
    else if u.host = "" then false
    else if 2048 < raw.utf8ByteSize then false
    else true

/-! ## The handlers of proxy rules -/

inductive ListTable where
  | domains
  | ipWhitelist
  | ipBlacklist
  | uaWhitelist
  | uaBlacklist
  deriving DecidableEq, Repr

def ListTable.modify (f : Table ListRow → Table ListRow) (db : ProxyTables) :
    ListTable → ProxyTables
  | .domains => { db with domains := f db.domains }
  | .ipWhitelist => { db with ipWhitelist := f db.ipWhitelist }
  | .ipBlacklist => { db with ipBlacklist := f db.ipBlacklist }
  | .uaWhitelist => { db with uaWhitelist := f db.uaWhitelist }
  | .uaBlacklist => { db with uaBlacklist := f db.uaBlacklist }

def listTables : List ListTable :=
  [.domains, .ipWhitelist, .ipBlacklist, .uaWhitelist, .uaBlacklist]

inductive ProxyRequest where
  | create (body : Option ProxyRule) (uuids : List ID)
  | update (id : ID) (body : Option ProxyRule) (uuids : List ID)
  | delete (id : ID)
  deriving DecidableEq, Repr

inductive ProxyProc where
  | refused (status : ℕ) (message : String)
  | finished
  | createInsert (rule : ProxyRule) (uuids : List ID)
  | updateExec (id : ID) (rule : ProxyRule) (uuids : List ID)
  | clear (id : ID) (tables : List ListTable) (lists : ProxyLists) (uuids : List ID)
  | save (id : ID) (entries : List (ListTable × ACLEntry)) (uuids : List ID)
  | deleteExec (id : ID)
  deriving DecidableEq, Repr

section
variable (parseURL : String → Option URL)

def proxyCreate (body : Option ProxyRule) (uuids : List ID) : ProxyProc :=
  match body with
  | none => .refused 400 "invalid request body"
  | some rule =>
    match rule.domains.find? fun d => !validDomain d with
    | some d => .refused 400 ("invalid domain: " ++ d)
    | none =>
      if !validURL parseURL rule.targetURL then .refused 400 "invalid target URL"
      else
        match rule.ipWhitelist.find? fun e => !accepted e.value with
        | some e => .refused 400 ("invalid whitelist entry: " ++ e.value)
        | none =>
          match rule.ipBlacklist.find? fun e => !accepted e.value with
          | some e => .refused 400 ("invalid blacklist entry: " ++ e.value)
          | none => .createInsert { rule with id := uuids.headD "" } uuids.tail

/-- As for forward rules, nothing but the body is checked. -/
def proxyUpdate (id : ID) (body : Option ProxyRule) (uuids : List ID) : ProxyProc :=
  match body with
  | none => .refused 400 "invalid request body"
  | some rule => .updateExec id rule uuids

def proxyStart : ProxyRequest → ProxyProc
  | .create body uuids => proxyCreate parseURL body uuids
  | .update id body uuids => proxyUpdate id body uuids
  | .delete id => .deleteExec id

end

/-- `UPDATE proxy_rules SET ... WHERE id=?` leaves the tenant and the owner. -/
def updateProxyRow (new row : ProxyRow) : ProxyRow :=
  { new with id := row.id, tenantID := row.tenantID, ownerID := row.ownerID }

theorem id_updateProxyRow (new row : ProxyRow) : (updateProxyRow new row).id = row.id := rfl

def updateProxyRules (new : ProxyRow) (id : ID) (db : ProxyTables) : ProxyTables :=
  { db with
    rules := db.rules.update (fun row => row.id = id) (updateProxyRow new) (id_updateProxyRow new) }

/-- `DELETE FROM ... WHERE rule_id = ?` on one list. -/
def clearList (id : ID) (t : Table ListRow) : Table ListRow := t.delete fun row => row.ruleID = id

def deleteProxyRule (id : ID) (db : ProxyTables) : ProxyTables where
  rules := db.rules.delete fun row => row.id = id
  domains := clearList id db.domains
  ipWhitelist := clearList id db.ipWhitelist
  ipBlacklist := clearList id db.ipBlacklist
  uaWhitelist := clearList id db.uaWhitelist
  uaBlacklist := clearList id db.uaBlacklist

/-- One `INSERT` beside a rule, which the foreign key or a taken id may refuse. -/
def insertValue (id : ID) (table : ListTable) (e : ACLEntry) (db : ProxyTables) : ProxyTables :=
  if (db.rules.select id).isSome then table.modify (·.insertIgnore ⟨e.id, id, e.value⟩) db else db

/-- Domains and user agents have no ids of their own. -/
def unnamed (values : List String) : List ACLEntry := values.map fun v => ⟨"", v⟩

/-- The entries in the order they are inserted in. -/
def entriesToSave (lists : ProxyLists) : List (ListTable × ACLEntry) :=
  (unnamed lists.domains).map (Prod.mk ListTable.domains) ++
  lists.ipWhitelist.map (Prod.mk ListTable.ipWhitelist) ++
  lists.ipBlacklist.map (Prod.mk ListTable.ipBlacklist) ++
  (unnamed lists.uaWhitelist).map (Prod.mk ListTable.uaWhitelist) ++
  (unnamed lists.uaBlacklist).map (Prod.mk ListTable.uaBlacklist)

def writeProxy (a : Choice) (f : ProxyTables → ProxyTables) (db : ProxyTables) : ProxyTables :=
  if a = .fail then db else f db

def proxyStep (a : Choice) (db : ProxyTables) : ProxyProc → Option (ProxyTables × ProxyProc)
  | .refused _ _ | .finished => none
  | .createInsert rule uuids =>
    match if a = .fail then none else db.rules.insert rule.toProxyRow with
    | none => some (db, .refused 500 "create failed")
    | some rules => some ({ db with rules }, .save rule.id (entriesToSave rule.toProxyLists) uuids)
  | .updateExec id rule uuids =>
    if a = .fail then some (db, .refused 500 "update failed") else
      some (updateProxyRules rule.toProxyRow id db, .clear id listTables rule.toProxyLists uuids)
  | .clear id [] lists uuids => some (db, .save id (entriesToSave lists) uuids)
  | .clear id (table :: tables) lists uuids =>
    some (writeProxy a (fun db => table.modify (clearList id) db) db, .clear id tables lists uuids)
  | .save _ [] _ => some (db, .finished)
  | .save id ((table, e) :: es) uuids =>
    let (e, uuids) := nameEntry e uuids
    some (writeProxy a (insertValue id table e) db, .save id es uuids)
  | .deleteExec id => some (writeProxy a (deleteProxyRule id) db, .finished)

def proxyMachine (parseURL : String → Option URL) :
    Machine ProxyTables ProxyProc ProxyRequest Choice :=
  ⟨proxyStart parseURL, proxyStep⟩

/-- Both kinds of rules, beside the forward engine. -/
def system (parseURL : String → Option URL) :
    Machine (Store × ProxyTables) (Proc ⊕ ProxyProc) (Request ⊕ ProxyRequest) Choice :=
  (machine parses).both (proxyMachine parseURL)

/-! ## What is to hold of a rule -/

def CheckedLists (lists : ForwardLists) : Prop :=
  (∀ e ∈ lists.whitelist, accepted e.value = true) ∧ ∀ e ∈ lists.blacklist, accepted e.value = true

def Checked (rule : ForwardRule) : Prop :=
  validPort rule.listenPort = true ∧ validPort rule.targetPort = true ∧
    CheckedLists rule.toForwardLists

def CheckedProxyLists (lists : ProxyLists) : Prop :=
  (∀ d ∈ lists.domains, validDomain d = true) ∧
  (∀ e ∈ lists.ipWhitelist, accepted e.value = true) ∧
  ∀ e ∈ lists.ipBlacklist, accepted e.value = true

def CheckedProxy (parseURL : String → Option URL) (rule : ProxyRule) : Prop :=
  validURL parseURL rule.targetURL = true ∧ CheckedProxyLists rule.toProxyLists

/-- Every rule the tables hold, with its lists. -/
def ForwardValid (db : ForwardTables) : Prop := ∀ row ∈ db.rules.rows, Checked (db.rule row)

def ProxyValid (parseURL : String → Option URL) (db : ProxyTables) : Prop :=
  ∀ row ∈ db.rules.rows, CheckedProxy parseURL (db.rule row)

instance (lists : ForwardLists) : Decidable (CheckedLists lists) := instDecidableAnd

instance (rule : ForwardRule) : Decidable (Checked rule) := instDecidableAnd

instance (lists : ProxyLists) : Decidable (CheckedProxyLists lists) := instDecidableAnd

instance (parseURL : String → Option URL) (rule : ProxyRule) :
    Decidable (CheckedProxy parseURL rule) :=
  instDecidableAnd

/-- The body of an `Update` meets the checks of `Create`. -/
def BodyChecked : Request → Prop
  | .update _ (some rule) _ => Checked rule
  | _ => True

def ProxyBodyChecked (parseURL : String → Option URL) : ProxyRequest → Prop
  | .update _ (some rule) _ => CheckedProxy parseURL rule
  | _ => True

/-! ## List tables whose values all meet a condition -/

def Values (P : String → Prop) (t : Table ListRow) : Prop := ∀ r ∈ t.rows, P r.value

section
variable {P : String → Prop} {t : Table ListRow}

theorem Values.delete (h : Values P t) (p : ListRow → Bool) : Values P (t.delete p) :=
  fun r hr => h r (Table.mem_delete.mp hr).1

theorem Values.insertIgnore (h : Values P t) {r : ListRow} (hr : P r.value) :
    Values P (t.insertIgnore r) := by
  unfold Table.insertIgnore
  cases hins : t.insert r with
  | none => exact h
  | some t' =>
    intro x hx
    rw [Option.getD_some, Table.rows_insert hins] at hx
    rcases List.mem_append.mp hx with hx | hx
    · exact h x hx
    · exact List.mem_singleton.mp hx ▸ hr

theorem Values.entriesOf (h : Values P t) (id : ID) : ∀ e ∈ entriesOf t id, P e.value := by
  intro e he
  obtain ⟨r, hr, rfl⟩ := List.mem_map.mp he
  exact h r (Table.mem_selectWhere.mp hr).1

theorem Values.valuesOf (h : Values P t) (id : ID) : ∀ v ∈ valuesOf t id, P v := by
  intro v hv
  obtain ⟨r, hr, rfl⟩ := List.mem_map.mp hv
  exact h r (Table.mem_selectWhere.mp hr).1

/-- An update of the rows whose new contents meet a condition. -/
theorem forall_update {ρ κ : Type*} [Keyed ρ κ] {t : Table ρ} {Q : ρ → Prop} (f : ρ → ρ)
    (hf : ∀ r, Keyed.key (f r) = Keyed.key r) (h : ∀ r ∈ t.rows, Q r) (hnew : ∀ r, Q (f r))
    (p : ρ → Bool) : ∀ r ∈ (t.update p f hf).rows, Q r := by
  intro r hr
  obtain ⟨s, hs, rfl⟩ := Table.mem_update.mp hr
  split_ifs
  · exact hnew s
  · exact h s hs

theorem forall_insert {ρ κ : Type*} [Keyed ρ κ] [DecidableEq κ] {t t' : Table ρ} {Q : ρ → Prop}
    {r : ρ} (h : ∀ r ∈ t.rows, Q r) (hr : Q r) (hins : t.insert r = some t') :
    ∀ r ∈ t'.rows, Q r := by
  intro x hx
  rw [Table.rows_insert hins] at hx
  rcases List.mem_append.mp hx with hx | hx
  · exact h x hx
  · exact List.mem_singleton.mp hx ▸ hr

end

/-! ## Forward rules -/

/-- The rows and the lists one by one. -/
def ForwardStored (db : ForwardTables) : Prop :=
  (∀ row ∈ db.rules.rows, validPort row.listenPort = true ∧ validPort row.targetPort = true) ∧
  Values (accepted · = true) db.whitelist ∧ Values (accepted · = true) db.blacklist

theorem ForwardStored.valid {db : ForwardTables} (h : ForwardStored db) : ForwardValid db := by
  intro row hrow
  obtain ⟨hlisten, htarget⟩ := h.1 row hrow
  exact ⟨hlisten, htarget, h.2.1.entriesOf row.id, h.2.2.entriesOf row.id⟩

/-- What a process is still to write has been checked. -/
def WritesChecked : Proc → Prop
  | .createInsert rule _ | .updateExec _ rule _ => Checked rule
  | .clearWhitelist _ lists _ | .clearBlacklist _ lists _ | .saveWhitelist _ lists _ =>
    CheckedLists lists
  | .saveBlacklist _ blacklist _ => ∀ e ∈ blacklist, accepted e.value = true
  | _ => True

theorem find?_not_eq_none {α : Type*} {l : List α} {p : α → Bool}
    (h : (l.find? fun x => !p x) = none) : ∀ x ∈ l, p x = true := by
  simpa [List.find?_eq_none] using h

/-- `Create` goes on with bodies that meet the checks. -/
theorem create_checked (body : Option ForwardRule) (uuids : List ID) :
    WritesChecked (create parses body uuids) := by
  cases body with
  | none => trivial
  | some rule =>
    simp only [create]
    split_ifs with hports
    · trivial
    · have hports' : validPort rule.listenPort = true ∧ validPort rule.targetPort = true := by
        simpa using hports
      split
      · trivial
      · next hwl =>
        split
        · trivial
        · next hbl =>
          exact ⟨hports'.1, hports'.2, find?_not_eq_none hwl, find?_not_eq_none hbl⟩

theorem start_checked (r : Request) (h : BodyChecked r) : WritesChecked (start parses r) := by
  cases r with
  | create body uuids => exact create_checked body uuids
  | update id body uuids =>
    cases body with
    | none => trivial
    | some rule => exact h
  | delete id => trivial
  | stop => trivial

theorem nameEntry_value (e : ACLEntry) (uuids : List ID) :
    (nameEntry e uuids).1.value = e.value := by
  unfold nameEntry
  split_ifs <;> rfl

theorem Values.insertEntry {P : String → Prop} {t : Table ListRow} (h : Values P t)
    (rules : Table ForwardRow) (id : ID) {e : ACLEntry} (he : P e.value) :
    Values P (insertEntry rules id e t) := by
  unfold ForwardEngine.insertEntry
  split_ifs
  · exact h.insertIgnore he
  · exact h

theorem write_stored {s : Store} (a : Choice) {f : ForwardTables → ForwardTables}
    (h : ForwardStored s.db) (hf : ForwardStored (f s.db)) : ForwardStored (s.write a f).db := by
  unfold Store.write
  split_ifs
  · exact h
  · exact hf

theorem writesChecked_of_writes {p : Proc} (h : p.writes = false) : WritesChecked p := by
  cases p <;> trivial

theorem forward_step {a : Choice} {s s' : Store} {p q : Proc} (h : ForwardStored s.db)
    (hp : WritesChecked p) (hs : step a s p = some (s', q)) :
    ForwardStored s'.db ∧ WritesChecked q := by
  cases p with
  | createInsert rule uuids =>
    simp only [step] at hs
    split at hs
    · cases hs
      exact ⟨h, trivial⟩
    · next rules hins =>
      cases hs
      split_ifs at hins
      exact ⟨⟨forall_insert h.1 ⟨hp.1, hp.2.1⟩ hins, h.2⟩, hp.2.2⟩
  | updateExec id rule uuids =>
    simp only [step] at hs
    split_ifs at hs
    · cases hs
      exact ⟨h, trivial⟩
    · cases hs
      have hrows := forall_update (updateRow rule.toForwardRow) (id_updateRow _) h.1
        (fun _ => ⟨hp.1, hp.2.1⟩) (fun row => row.id = id)
      exact ⟨⟨hrows, h.2⟩, hp.2.2⟩
  | clearWhitelist id lists uuids =>
    cases hs
    exact ⟨write_stored a h ⟨h.1, h.2.1.delete _, h.2.2⟩, hp⟩
  | clearBlacklist id lists uuids =>
    cases hs
    exact ⟨write_stored a h ⟨h.1, h.2.1, h.2.2.delete _⟩, hp⟩
  | saveWhitelist id lists uuids =>
    obtain ⟨whitelist, blacklist⟩ := lists
    cases whitelist with
    | nil =>
      cases hs
      exact ⟨h, hp.2⟩
    | cons e es =>
      cases hs
      obtain ⟨he, hes⟩ := List.forall_mem_cons.mp hp.1
      have hvalue : accepted (nameEntry e uuids).1.value = true :=
        (nameEntry_value e uuids).symm ▸ he
      exact ⟨write_stored a h ⟨h.1, h.2.1.insertEntry _ _ hvalue, h.2.2⟩, hes, hp.2⟩
  | saveBlacklist id blacklist uuids =>
    cases blacklist with
    | nil =>
      cases hs
      exact ⟨h, trivial⟩
    | cons e es =>
      cases hs
      obtain ⟨he, hes⟩ := List.forall_mem_cons.mp hp
      have hvalue : accepted (nameEntry e uuids).1.value = true :=
        (nameEntry_value e uuids).symm ▸ he
      exact ⟨write_stored a h ⟨h.1, h.2.1, h.2.2.insertEntry _ _ hvalue⟩, hes⟩
  | deleteExec id =>
    cases hs
    exact ⟨write_stored a h ⟨fun row hrow => h.1 row (Table.mem_delete.mp hrow).1, h.2.1.delete _,
      h.2.2.delete _⟩, trivial⟩
  | _ =>
    exact ⟨db_of_step hs rfl ▸ h, writesChecked_of_writes (writes_of_step hs rfl)⟩

theorem forward_kept :
    Kept (machine parses) (fun s => ForwardStored s.db) WritesChecked BodyChecked :=
  ⟨start_checked, fun _ _ _ _ _ h hp hs => forward_step h hp hs⟩

/-! ## Proxy rules -/

section
variable (parseURL : String → Option URL)

def ProxyStored (db : ProxyTables) : Prop :=
  (∀ row ∈ db.rules.rows, validURL parseURL row.targetURL = true) ∧
  Values (validDomain · = true) db.domains ∧
  Values (accepted · = true) db.ipWhitelist ∧ Values (accepted · = true) db.ipBlacklist

/-- What a value in a list is to meet. -/
def EntryChecked : ListTable × ACLEntry → Prop
  | (.domains, e) => validDomain e.value = true
  | (.ipWhitelist, e) | (.ipBlacklist, e) => accepted e.value = true
  | (.uaWhitelist, _) | (.uaBlacklist, _) => True

def ProxyWritesChecked : ProxyProc → Prop
  | .createInsert rule _ | .updateExec _ rule _ => CheckedProxy parseURL rule
  | .clear _ _ lists _ => CheckedProxyLists lists
  | .save _ entries _ => ∀ x ∈ entries, EntryChecked x
  | _ => True

end

variable {parseURL : String → Option URL}

theorem ProxyStored.valid {db : ProxyTables} (h : ProxyStored parseURL db) :
    ProxyValid parseURL db := by
  intro row hrow
  obtain ⟨hrows, hdomains, hwhite, hblack⟩ := h
  exact ⟨hrows row hrow, hdomains.valuesOf row.id, hwhite.entriesOf row.id, hblack.entriesOf row.id⟩

theorem entriesToSave_checked {lists : ProxyLists} (h : CheckedProxyLists lists) :
    ∀ x ∈ entriesToSave lists, EntryChecked x := by
  obtain ⟨hdomains, hwhite, hblack⟩ := h
  simp only [entriesToSave, unnamed, List.forall_mem_append, List.forall_mem_map, EntryChecked]
  exact ⟨⟨⟨⟨hdomains, hwhite⟩, hblack⟩, fun _ _ => trivial⟩, fun _ _ => trivial⟩

theorem proxyCreate_checked (body : Option ProxyRule) (uuids : List ID) :
    ProxyWritesChecked parseURL (proxyCreate parseURL body uuids) := by
  cases body with
  | none => trivial
  | some rule =>
    simp only [proxyCreate]
    split
    · trivial
    · next hdomains =>
      split_ifs with hurl
      · trivial
      · split
        · trivial
        · next hwhite =>
          split
          · trivial
          · next hblack =>
            have hurl' : validURL parseURL rule.targetURL = true := by simpa using hurl
            exact ⟨hurl', find?_not_eq_none hdomains, find?_not_eq_none hwhite,
              find?_not_eq_none hblack⟩

theorem proxyStart_checked (r : ProxyRequest) (h : ProxyBodyChecked parseURL r) :
    ProxyWritesChecked parseURL (proxyStart parseURL r) := by
  cases r with
  | create body uuids => exact proxyCreate_checked body uuids
  | update id body uuids =>
    cases body with
    | none => trivial
    | some rule => exact h
  | delete id => trivial

theorem writeProxy_stored {db : ProxyTables} (a : Choice) {f : ProxyTables → ProxyTables}
    (h : ProxyStored parseURL db) (hf : ProxyStored parseURL (f db)) :
    ProxyStored parseURL (writeProxy a f db) := by
  unfold writeProxy
  split_ifs
  · exact h
  · exact hf

theorem modify_clear_stored {db : ProxyTables} (h : ProxyStored parseURL db) (id : ID)
    (table : ListTable) : ProxyStored parseURL (table.modify (clearList id) db) := by
  obtain ⟨hrows, hdomains, hwhite, hblack⟩ := h
  cases table with
  | domains => exact ⟨hrows, hdomains.delete _, hwhite, hblack⟩
  | ipWhitelist => exact ⟨hrows, hdomains, hwhite.delete _, hblack⟩
  | ipBlacklist => exact ⟨hrows, hdomains, hwhite, hblack.delete _⟩
  | uaWhitelist => exact ⟨hrows, hdomains, hwhite, hblack⟩
  | uaBlacklist => exact ⟨hrows, hdomains, hwhite, hblack⟩

theorem insertValue_stored {db : ProxyTables} (h : ProxyStored parseURL db) (id : ID)
    {table : ListTable} {e : ACLEntry} (he : EntryChecked (table, e)) :
    ProxyStored parseURL (insertValue id table e db) := by
  unfold insertValue
  split_ifs
  · obtain ⟨hrows, hdomains, hwhite, hblack⟩ := h
    cases table with
    | domains => exact ⟨hrows, hdomains.insertIgnore he, hwhite, hblack⟩
    | ipWhitelist => exact ⟨hrows, hdomains, hwhite.insertIgnore he, hblack⟩
    | ipBlacklist => exact ⟨hrows, hdomains, hwhite, hblack.insertIgnore he⟩
    | uaWhitelist => exact ⟨hrows, hdomains, hwhite, hblack⟩
    | uaBlacklist => exact ⟨hrows, hdomains, hwhite, hblack⟩
  · exact h

theorem entryChecked_named {table : ListTable} {e : ACLEntry} (uuids : List ID)
    (h : EntryChecked (table, e)) : EntryChecked (table, (nameEntry e uuids).1) := by
  cases table <;> simp_all only [EntryChecked, nameEntry_value]

theorem proxy_step {a : Choice} {db db' : ProxyTables} {p q : ProxyProc}
    (h : ProxyStored parseURL db) (hp : ProxyWritesChecked parseURL p)
    (hs : proxyStep a db p = some (db', q)) :
    ProxyStored parseURL db' ∧ ProxyWritesChecked parseURL q := by
  cases p with
  | refused status message => cases hs
  | finished => cases hs
  | createInsert rule uuids =>
    simp only [proxyStep] at hs
    split at hs
    · cases hs
      exact ⟨h, trivial⟩
    · next rules hins =>
      cases hs
      split_ifs at hins
      exact ⟨⟨forall_insert h.1 hp.1 hins, h.2⟩, entriesToSave_checked hp.2⟩
  | updateExec id rule uuids =>
    simp only [proxyStep] at hs
    split_ifs at hs
    · cases hs
      exact ⟨h, trivial⟩
    · cases hs
      have hrows := forall_update (updateProxyRow rule.toProxyRow) (id_updateProxyRow _) h.1
        (fun _ => hp.1) (fun row => row.id = id)
      exact ⟨⟨hrows, h.2⟩, hp.2⟩
  | clear id tables lists uuids =>
    cases tables with
    | nil =>
      cases hs
      exact ⟨h, entriesToSave_checked hp⟩
    | cons table tables =>
      cases hs
      exact ⟨writeProxy_stored a h (modify_clear_stored h id table), hp⟩
  | save id entries uuids =>
    cases entries with
    | nil =>
      cases hs
      exact ⟨h, trivial⟩
    | cons x es =>
      obtain ⟨table, e⟩ := x
      cases hs
      obtain ⟨he, hes⟩ := List.forall_mem_cons.mp hp
      exact ⟨writeProxy_stored a h (insertValue_stored h id (entryChecked_named uuids he)), hes⟩
  | deleteExec id =>
    cases hs
    obtain ⟨hrows, hdomains, hwhite, hblack⟩ := h
    exact ⟨writeProxy_stored a ⟨hrows, hdomains, hwhite, hblack⟩
      ⟨fun row hrow => hrows row (Table.mem_delete.mp hrow).1, hdomains.delete _, hwhite.delete _,
        hblack.delete _⟩, trivial⟩

theorem proxy_kept :
    Kept (proxyMachine parseURL) (ProxyStored parseURL) (ProxyWritesChecked parseURL)
      (ProxyBodyChecked parseURL) :=
  ⟨proxyStart_checked, fun _ _ _ _ _ h hp hs => proxy_step h hp hs⟩

/-! ## Both together -/

def noForwardRules : ForwardTables := ⟨Table.empty, Table.empty, Table.empty⟩

def noProxyRules : ProxyTables :=
  ⟨Table.empty, Table.empty, Table.empty, Table.empty, Table.empty, Table.empty⟩

/-- The server on an empty database, with the watchdog. -/
def onEmpty : Config (Store × ProxyTables) (Proc ⊕ ProxyProc) :=
  ⟨(initial noForwardRules, noProxyRules), [.inl .watch]⟩

/-- Where every `Update` comes with a body that meets the checks of `Create`, all rules do
in every state, however the statements of the requests fall and fail. -/
theorem stored_rules_valid (parseURL : String → Option URL)
    (as : List (Act (Request ⊕ ProxyRequest) Choice))
    (has : ∀ r, .spawn r ∈ as → Sum.elim BodyChecked (ProxyBodyChecked parseURL) r) :
    (system parseURL).Throughout
      (fun c => ForwardValid c.shared.1.db ∧ ProxyValid parseURL c.shared.2) onEmpty as := by
  have hkept := forward_kept.both (@proxy_kept parseURL)
  have hforward : ForwardStored noForwardRules :=
    ⟨List.forall_mem_nil _, List.forall_mem_nil _, List.forall_mem_nil _⟩
  have hproxy : ProxyStored parseURL noProxyRules :=
    ⟨List.forall_mem_nil _, List.forall_mem_nil _, List.forall_mem_nil _, List.forall_mem_nil _⟩
  have hstart : Holds
      (fun s : Store × ProxyTables => ForwardStored s.1.db ∧ ProxyStored parseURL s.2)
      (fun _ => Sum.elim WritesChecked (ProxyWritesChecked parseURL)) onEmpty := by
    refine ⟨⟨hforward, hproxy⟩, fun p hp => ?_⟩
    rw [List.mem_singleton.mp hp]
    trivial
  exact (hkept.throughout hstart has).mono fun _ h => ⟨h.1.valid, h.2.valid⟩

/-- The parts of an absolute URL without a user. -/
def plainURL (raw : String) : Option URL :=
  (IPAddress.cut ':' raw.toList).map fun (scheme, rest) =>
    ⟨String.ofList scheme, String.ofList ((rest.drop 2).takeWhile (· ≠ '/'))⟩

def webRow : ProxyRow :=
  ⟨"", "t", "o", "web", "http://10.0.0.2/", false, "", false, false, false, "", "", "", 0, true⟩

def web : ProxyRule := ⟨webRow, ["example.com"], [], [], [], []⟩

def ssh : ForwardRule := ⟨RuleLoading.ssh, [], []⟩

/-- A rule of each kind is created and then updated with the bodies given. -/
def createAndUpdate (rule : ForwardRule) (proxy : ProxyRule) :
    List (Act (Request ⊕ ProxyRequest) Choice) :=
  [.spawn (.inl (.create (some ssh) ["f1"])), .run 1 .go,
    .spawn (.inr (.create (some web) ["p1", "d1"])), .run 2 .go, .run 2 .go,
    .spawn (.inl (.update "f1" (some rule) ["w1"])), .run 3 .go,
    .spawn (.inr (.update "p1" (some proxy) ["d2"])), .run 4 .go]

/-- An update to another port and another target. -/
theorem checked_updates_valid :
    (system plainURL).Throughout
      (fun c => ForwardValid c.shared.1.db ∧ ProxyValid plainURL c.shared.2) onEmpty
      (createAndUpdate { ssh with listenPort := 2022 }
        { web with targetURL := "https://10.0.0.3" }) := by
  refine stored_rules_valid plainURL _ fun r hr => ?_
  simp only [createAndUpdate, List.mem_cons, Act.spawn.injEq, reduceCtorEq, false_or,
    List.not_mem_nil, or_false] at hr
  rcases hr with rfl | rfl | rfl | rfl
  · trivial
  · trivial
  · show Checked _
    decide
  · show CheckedProxy plainURL _
    decide +kernel

/-- An update to the port 0, and one to a target that is no address of a server. -/
def afterUnchecked : Config (Store × ProxyTables) (Proc ⊕ ProxyProc) :=
  (system plainURL).run onEmpty
    (createAndUpdate { ssh with listenPort := 0 } { web with targetURL := "javascript:0" })

theorem unchecked_updates_invalid :
    ¬ForwardValid afterUnchecked.shared.1.db ∧ ¬ProxyValid plainURL afterUnchecked.shared.2 := by
  have hforward : afterUnchecked.shared.1.db.rules.rows =
      [{ RuleLoading.ssh with listenPort := 0 }] := rfl
  have hproxy : afterUnchecked.shared.2.rules.rows =
      [{ webRow with id := "p1", targetURL := "javascript:0" }] := rfl
  constructor
  · intro h
    have hport := (h _ (hforward ▸ List.mem_singleton_self _)).1
    exact absurd hport (by decide)
  · intro h
    have hurl := (h _ (hproxy ▸ List.mem_singleton_self _)).1
    exact absurd hurl (by decide +kernel)

end NetBerth.StoredRules
