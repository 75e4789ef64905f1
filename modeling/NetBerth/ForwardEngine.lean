import NetBerth.Interleaving
import NetBerth.Rules

/-!
# Forward rules between the handlers, the tables and the engine

`Create`, `Update` and `Delete` send their statements one after the other,
answer, and publish an event, whose subscriber runs in the same goroutine: it
loads the rule with three more queries and hands it to the engine, or removes
the rule from it. Beside the requests runs the watchdog, which takes the stored
rules in and then goes through them under the engine's lock, and `Stop`.

A process is a request, a `Stop` or the watchdog, and one step of it is one
statement, one call of the engine, or one rule of the watchdog's loop. A write
may fail, which the handlers report or drop, and so may the watchdog's bulk
load; the loads after an event are without errors here.
-/
namespace NetBerth.ForwardEngine
open Interleaving SqlTable Rules

/-- A `ruleInstance`: its rule, and whether its context is cancelled. -/
structure Instance where
  rule : ForwardRule
  cancelled : Bool
  deriving DecidableEq, Repr

instance : Keyed Instance ID := ⟨fun inst => inst.rule.id⟩

/-- The tables, and the engine: its map, its lock while the watchdog holds it
from one step to the next, and whether `stopCh` is closed. -/
structure Store where
  db : ForwardTables
  instances : Table Instance
  locked : Bool
  stopped : Bool

/-- `none` is a body that does not decode. The `uuids` are what `generateUUID`
will return, in this order. -/
inductive Request where
  | create (body : Option ForwardRule) (uuids : List ID)
  | update (id : ID) (body : Option ForwardRule) (uuids : List ID)
  | delete (id : ID)
  | stop
  deriving DecidableEq, Repr

/-- What a process does next, with its local variables. -/
inductive Proc where
  | refused (status : ℕ) (message : String)
  | finished
  | createInsert (rule : ForwardRule) (uuids : List ID)
  | updateExec (id : ID) (rule : ForwardRule) (uuids : List ID)
  | clearWhitelist (id : ID) (lists : ForwardLists) (uuids : List ID)
  | clearBlacklist (id : ID) (lists : ForwardLists) (uuids : List ID)
  | saveWhitelist (id : ID) (lists : ForwardLists) (uuids : List ID)
  | saveBlacklist (id : ID) (blacklist : List ACLEntry) (uuids : List ID)
  | loadRow (id : ID)
  | loadWhitelist (row : ForwardRow)
  | loadBlacklist (row : ForwardRow) (whitelist : List ACLEntry)
  | reload (rule : ForwardRule)
  | deleteExec (id : ID)
  | remove (id : ID)
  | stopClose
  | stopCancel
  | stopReturned
  | watch
  | watchReturned
  | tickQuery
  | tickWhitelist (done : List ForwardRule) (rows : List ForwardRow)
  | tickBlacklist (done : List ForwardRule) (row : ForwardRow) (whitelist : List ACLEntry)
      (rows : List ForwardRow)
  | tickLock (rules : List ForwardRule)
  | tickLoop (rules : List ForwardRule)
  deriving DecidableEq, Repr

/-- `quit` is the case of `stopCh` in the watchdog's `select`. -/
inductive Choice where
  | go
  | fail
  | quit
  deriving DecidableEq, Repr

abbrev State := Config Store Proc
abbrev Action := Act Request Choice

/-! ## The engine -/

def startRule (s : Store) (rule : ForwardRule) : Store :=
  { s with instances := s.instances.put ⟨rule, false⟩ }

def removeInstance (s : Store) (id : ID) : Store :=
  { s with instances := s.instances.delete fun inst => inst.rule.id = id }

/-- `Reload`, which cancels an instance it replaces or removes. -/
def reload (s : Store) (rule : ForwardRule) : Store :=
  if rule.enabled then startRule s rule else removeInstance s rule.id

def Instance.cancel (inst : Instance) : Instance := { inst with cancelled := true }

theorem Instance.id_cancel (inst : Instance) : inst.cancel.rule.id = inst.rule.id := rfl

/-- `Stop` after the lock: every instance is cancelled and stays in the map. -/
def cancelAll (s : Store) : Store :=
  { s with instances := s.instances.update (fun _ => true) Instance.cancel Instance.id_cancel }

/-- One rule of the watchdog's loop. -/
def tickRule (s : Store) (r : ForwardRule) : Store :=
  match s.instances.select r.id with
  | some _ => if r.enabled then s else removeInstance s r.id
  | none => if r.enabled then startRule s r else s

/-- `Start` up to the watchdog. -/
def startEnabled (s : Store) (rules : List ForwardRule) : Store :=
  rules.foldl (fun s r => if r.enabled then startRule s r else s) s

/-! ## The statements -/

/-- `UPDATE forward_rules SET ... WHERE id=?` leaves the tenant and the owner. -/
def updateRow (new row : ForwardRow) : ForwardRow :=
  { new with id := row.id, tenantID := row.tenantID, ownerID := row.ownerID }

theorem id_updateRow (new row : ForwardRow) : (updateRow new row).id = row.id := rfl

def updateRules (new : ForwardRow) (id : ID) (db : ForwardTables) : ForwardTables :=
  { db with rules := db.rules.update (fun row => row.id = id) (updateRow new) (id_updateRow new) }

/-- `DELETE FROM forward_rules WHERE id = ?`, with the cascade to the lists. -/
def deleteRule (id : ID) (db : ForwardTables) : ForwardTables where
  rules := db.rules.delete fun row => row.id = id
  whitelist := db.whitelist.delete fun row => row.ruleID = id
  blacklist := db.blacklist.delete fun row => row.ruleID = id

def clearWhitelist (id : ID) (db : ForwardTables) : ForwardTables :=
  { db with whitelist := db.whitelist.delete fun row => row.ruleID = id }

def clearBlacklist (id : ID) (db : ForwardTables) : ForwardTables :=
  { db with blacklist := db.blacklist.delete fun row => row.ruleID = id }

/-- An `INSERT` of `saveACLEntries`: nothing is inserted for a rule without a
row, which the foreign key refuses, or under an id that is taken. -/
def insertEntry (rules : Table ForwardRow) (id : ID) (e : ACLEntry) (t : Table ListRow) :
    Table ListRow :=
  if (rules.select id).isSome then t.insertIgnore ⟨e.id, id, e.value⟩ else t

def saveWhitelist (id : ID) (e : ACLEntry) (db : ForwardTables) : ForwardTables :=
  { db with whitelist := insertEntry db.rules id e db.whitelist }

def saveBlacklist (id : ID) (e : ACLEntry) (db : ForwardTables) : ForwardTables :=
  { db with blacklist := insertEntry db.rules id e db.blacklist }

/-- An entry without an id is given a new one. -/
def nameEntry (e : ACLEntry) (uuids : List ID) : ACLEntry × List ID :=
  if e.id = "" then ({ e with id := uuids.headD "" }, uuids.tail) else (e, uuids)

/-- A write whose error nobody looks at. -/
def Store.write (s : Store) (a : Choice) (f : ForwardTables → ForwardTables) : Store :=
  if a = .fail then s else { s with db := f s.db }

/-! ## The handlers up to their first statement -/

/-- `validator.Port`. -/
def validPort (p : Int) : Bool := 0 < p && p ≤ 65535

/-- `validator.IPOrCIDR`, over what `net.ParseCIDR` and `net.ParseIP` accept. -/
def ipOrCIDR (parses : String → Bool) (v : String) : Bool := v ≠ "" && parses v

def create (parses : String → Bool) (body : Option ForwardRule) (uuids : List ID) : Proc :=
  match body with
  | none => .refused 400 "invalid request body"
  | some rule =>
    if !validPort rule.listenPort || !validPort rule.targetPort then
      .refused 400 "port must be 1-65535"
    else
      match rule.whitelist.find? fun e => !ipOrCIDR parses e.value with
      | some e => .refused 400 ("invalid whitelist: " ++ e.value)
      | none =>
        match rule.blacklist.find? fun e => !ipOrCIDR parses e.value with
        | some e => .refused 400 ("invalid blacklist: " ++ e.value)
        | none =>
          .createInsert { rule with id := uuids.headD "" } uuids.tail

/-- `Update` checks nothing but the body. -/
def update (id : ID) (body : Option ForwardRule) (uuids : List ID) : Proc :=
  match body with
  | none => .refused 400 "invalid request body"
  | some rule => .updateExec id rule uuids

def start (parses : String → Bool) : Request → Proc
  | .create body uuids => create parses body uuids
  | .update id body uuids => update id body uuids
  | .delete id => .deleteExec id
  | .stop => .stopClose

/-! ## Steps -/

/-- What needs the engine's lock waits while the watchdog holds it, and a second
`Stop` closes a closed channel, after which nothing is said. -/
def step (a : Choice) (s : Store) : Proc → Option (Store × Proc)
  | .refused _ _ | .finished | .stopReturned | .watchReturned => none
  | .createInsert rule uuids =>
    match if a = .fail then none else s.db.rules.insert rule.toForwardRow with
    | none => some (s, .refused 500 "create failed")
    | some rules =>
      some ({ s with db := { s.db with rules } }, .saveWhitelist rule.id rule.toForwardLists uuids)
  | .updateExec id rule uuids =>
    if a = .fail then some (s, .refused 500 "update failed") else
      some ({ s with db := updateRules rule.toForwardRow id s.db },
        .clearWhitelist id rule.toForwardLists uuids)
  | .clearWhitelist id lists uuids =>
    some (s.write a (clearWhitelist id), .clearBlacklist id lists uuids)
  | .clearBlacklist id lists uuids =>
    some (s.write a (clearBlacklist id), .saveWhitelist id lists uuids)
  | .saveWhitelist id ⟨[], blacklist⟩ uuids => some (s, .saveBlacklist id blacklist uuids)
  | .saveWhitelist id ⟨e :: es, blacklist⟩ uuids =>
    let (e, uuids) := nameEntry e uuids
    some (s.write a (saveWhitelist id e), .saveWhitelist id ⟨es, blacklist⟩ uuids)
  | .saveBlacklist id [] _ => some (s, .loadRow id)
  | .saveBlacklist id (e :: es) uuids =>
    let (e, uuids) := nameEntry e uuids
    some (s.write a (saveBlacklist id e), .saveBlacklist id es uuids)
  | .loadRow id =>
    match s.db.rules.select id with
    | none => some (s, .finished)
    | some row => some (s, .loadWhitelist row)
  | .loadWhitelist row => some (s, .loadBlacklist row (entriesOf s.db.whitelist row.id))
  | .loadBlacklist row whitelist =>
    some (s, .reload ⟨row, whitelist, entriesOf s.db.blacklist row.id⟩)
  | .reload rule => if s.locked then none else some (reload s rule, .finished)
  | .deleteExec id => some (s.write a (deleteRule id), .remove id)
  | .remove id => if s.locked then none else some (removeInstance s id, .finished)
  | .stopClose => if s.stopped then none else some ({ s with stopped := true }, .stopCancel)
  | .stopCancel => if s.locked then none else some (cancelAll s, .stopReturned)
  | .watch =>
    if a = .quit then if s.stopped then some (s, .watchReturned) else none
    else some (s, .tickQuery)
  | .tickQuery => if a = .fail then some (s, .watch) else some (s, .tickWhitelist [] s.db.rules.rows)
  | .tickWhitelist done [] => some (s, .tickLock done)
  | .tickWhitelist done (row :: rows) =>
    if a = .fail then some (s, .watch) else
      some (s, .tickBlacklist done row (entriesOf s.db.whitelist row.id) rows)
  | .tickBlacklist done row whitelist rows =>
    some (s, .tickWhitelist (done ++ [⟨row, whitelist, entriesOf s.db.blacklist row.id⟩]) rows)
  | .tickLock rules => if s.locked then none else some ({ s with locked := true }, .tickLoop rules)
  | .tickLoop [] => some ({ s with locked := false }, .watch)
  | .tickLoop (r :: rules) => some (tickRule s r, .tickLoop rules)

def machine (parses : String → Bool) : Machine Store Proc Request Choice where
  start := start parses
  step := step

def initial (db : ForwardTables) : Store := ⟨db, Table.empty, false, false⟩

/-- The server after `Start`. -/
def boot (db : ForwardTables) : State :=
  ⟨startEnabled (initial db) (db.rules.rows.map db.rule), [.watch]⟩

/-! ## What the tables hold for an id -/

def stored (db : ForwardTables) (id : ID) : Option ForwardRule := (db.rules.select id).map db.rule

/-- The entry of the map for a stored rule: a disabled rule has none. -/
def applied (rule : Option ForwardRule) : Option ForwardRule := rule.filter fun r => r.enabled

section
variable {db : ForwardTables} {id k : ID}

theorem id_of_select {row : ForwardRow} (h : db.rules.select id = some row) : row.id = id :=
  (Table.select_eq_some.mp h).2

theorem id_of_stored {rule : ForwardRule} (h : stored db id = some rule) : rule.id = id := by
  obtain ⟨row, hrow, rfl⟩ := Option.map_eq_some_iff.mp h
  exact id_of_select hrow

theorem stored_eq (db : ForwardTables) (id : ID) :
    stored db id = (db.rules.select id).map fun row => ⟨row, db.lists id⟩ := by
  unfold stored
  cases h : db.rules.select id with
  | none => rfl
  | some row => rw [Option.map_some, Option.map_some, ForwardTables.rule, id_of_select h]

theorem stored_of_select {row : ForwardRow} (h : db.rules.select id = some row) :
    stored db id = some ⟨row, db.lists id⟩ := by
  rw [stored_eq, h, Option.map_some]

theorem stored_isSome : (stored db id).isSome = (db.rules.select id).isSome := by
  rw [stored, Option.isSome_map]

theorem stored_congr {db' : ForwardTables} (hrow : db'.rules.select id = db.rules.select id)
    (hlists : db'.lists id = db.lists id) : stored db' id = stored db id := by
  rw [stored_eq, stored_eq, hrow, hlists]

/-! ### What a write changes -/

theorem entriesOf_delete (t : Table ListRow) (h : k ≠ id) :
    entriesOf (t.delete fun row => row.ruleID = id) k = entriesOf t k := by
  unfold entriesOf Table.selectWhere Table.delete
  rw [List.filter_filter]
  congr 2
  funext row
  by_cases hk : row.ruleID = k
  · simp [hk, h]
  · simp [hk]

theorem entriesOf_insertIgnore (t : Table ListRow) (r : ListRow) (h : k ≠ r.ruleID) :
    entriesOf (t.insertIgnore r) k = entriesOf t k := by
  unfold Table.insertIgnore
  cases hins : t.insert r with
  | none => rfl
  | some t' =>
    unfold entriesOf Table.selectWhere
    rw [Option.getD_some, Table.rows_insert hins, List.filter_append]
    simp [h.symm]

theorem entriesOf_insertEntry (rules : Table ForwardRow) (e : ACLEntry) (t : Table ListRow)
    (h : k ≠ id) : entriesOf (insertEntry rules id e t) k = entriesOf t k := by
  unfold insertEntry
  split_ifs
  · exact entriesOf_insertIgnore t _ h
  · rfl

theorem stored_updateRules (new : ForwardRow) (h : k ≠ id) :
    stored (updateRules new id db) k = stored db k := by
  refine stored_congr ?_ rfl
  rw [updateRules, Table.select_update]
  cases hrow : db.rules.select k with
  | none => rfl
  | some row => simp [id_of_select hrow, h]

theorem stored_deleteRule (h : k ≠ id) : stored (deleteRule id db) k = stored db k := by
  refine stored_congr ?_ ?_
  · rw [deleteRule, Table.select_delete]
    cases hrow : db.rules.select k with
    | none => rfl
    | some row => simp [id_of_select hrow, h]
  · simp only [ForwardTables.lists, deleteRule, entriesOf_delete _ h]

theorem stored_deleteRule_self : stored (deleteRule id db) id = none := by
  rw [stored, deleteRule, Table.select_delete]
  cases hrow : db.rules.select id with
  | none => rfl
  | some row => simp [id_of_select hrow]

theorem stored_clearWhitelist (h : k ≠ id) : stored (clearWhitelist id db) k = stored db k :=
  stored_congr rfl (by simp only [ForwardTables.lists, clearWhitelist, entriesOf_delete _ h])

theorem stored_clearBlacklist (h : k ≠ id) : stored (clearBlacklist id db) k = stored db k :=
  stored_congr rfl (by simp only [ForwardTables.lists, clearBlacklist, entriesOf_delete _ h])

theorem stored_saveWhitelist (e : ACLEntry) (h : k ≠ id) :
    stored (saveWhitelist id e db) k = stored db k :=
  stored_congr rfl (by simp only [ForwardTables.lists, saveWhitelist, entriesOf_insertEntry _ e _ h])

theorem stored_saveBlacklist (e : ACLEntry) (h : k ≠ id) :
    stored (saveBlacklist id e db) k = stored db k :=
  stored_congr rfl (by simp only [ForwardTables.lists, saveBlacklist, entriesOf_insertEntry _ e _ h])

theorem stored_insert {rules : Table ForwardRow} {row : ForwardRow}
    (hins : db.rules.insert row = some rules) (h : k ≠ row.id) :
    stored { db with rules } k = stored db k := by
  refine stored_congr ?_ rfl
  rw [Table.select_insert hins]
  exact if_neg h.symm

theorem stored_insert_self {rules : Table ForwardRow} {row : ForwardRow}
    (hins : db.rules.insert row = some rules) : (stored { db with rules } row.id).isSome := by
  rw [stored_isSome, Table.select_insert hins]
  exact congrArg Option.isSome (if_pos rfl)

theorem isSome_updateRules (new : ForwardRow) (db : ForwardTables) :
    (stored (updateRules new id db) k).isSome = (stored db k).isSome := by
  rw [stored_isSome, stored_isSome, updateRules, Table.select_update, Option.isSome_map]

/-! ### What a write makes of its own rule -/

theorem entriesOf_delete_self (t : Table ListRow) (id : ID) :
    entriesOf (t.delete fun row => row.ruleID = id) id = [] := by
  unfold entriesOf Table.selectWhere Table.delete
  rw [List.filter_filter]
  simp

theorem entriesOf_insertIgnore_self {t : Table ListRow} {r : ListRow}
    (hfree : r.id ∉ t.rows.map ListRow.id) :
    entriesOf (t.insertIgnore r) r.ruleID = entriesOf t r.ruleID ++ [⟨r.id, r.value⟩] := by
  unfold Table.insertIgnore
  cases hins : t.insert r with
  | none => exact absurd (Table.insert_eq_none.mp hins) hfree
  | some t' =>
    unfold entriesOf Table.selectWhere
    rw [Option.getD_some, Table.rows_insert hins, List.filter_append]
    simp

theorem stored_updateRules_self (new : ForwardRow) :
    stored (updateRules new id db) id =
      (stored db id).map fun r => ⟨updateRow new r.toForwardRow, r.toForwardLists⟩ := by
  rw [stored_eq, stored_eq, updateRules, Table.select_update, Option.map_map, Option.map_map]
  cases hrow : db.rules.select id with
  | none => rfl
  | some row => simp [id_of_select hrow, ForwardTables.lists]

theorem stored_clearWhitelist_self :
    stored (clearWhitelist id db) id = (stored db id).map fun r => { r with whitelist := [] } := by
  rw [stored_eq, stored_eq, Option.map_map, clearWhitelist]
  simp only [ForwardTables.lists, entriesOf_delete_self]
  rfl

theorem stored_clearBlacklist_self :
    stored (clearBlacklist id db) id = (stored db id).map fun r => { r with blacklist := [] } := by
  rw [stored_eq, stored_eq, Option.map_map, clearBlacklist]
  simp only [ForwardTables.lists, entriesOf_delete_self]
  rfl

theorem stored_saveWhitelist_self {e : ACLEntry} (hfree : e.id ∉ db.whitelist.rows.map ListRow.id) :
    stored (saveWhitelist id e db) id =
      (stored db id).map fun r => { r with whitelist := r.whitelist ++ [e] } := by
  rw [stored_eq, stored_eq, Option.map_map, saveWhitelist]
  cases hrow : db.rules.select id with
  | none => rfl
  | some row =>
    have hins := entriesOf_insertIgnore_self (r := ⟨e.id, id, e.value⟩) hfree
    simp [ForwardTables.lists, insertEntry, hrow, hins]

theorem stored_saveBlacklist_self {e : ACLEntry} (hfree : e.id ∉ db.blacklist.rows.map ListRow.id) :
    stored (saveBlacklist id e db) id =
      (stored db id).map fun r => { r with blacklist := r.blacklist ++ [e] } := by
  rw [stored_eq, stored_eq, Option.map_map, saveBlacklist]
  cases hrow : db.rules.select id with
  | none => rfl
  | some row =>
    have hins := entriesOf_insertIgnore_self (r := ⟨e.id, id, e.value⟩) hfree
    simp [ForwardTables.lists, insertEntry, hrow, hins]

end

/-! ## Which steps write, apply and lock -/

/-- The next statement is a write. -/
def Proc.writes : Proc → Bool
  | .createInsert _ _ | .updateExec _ _ _ | .clearWhitelist _ _ _ | .clearBlacklist _ _ _
  | .saveWhitelist _ _ _ | .saveBlacklist _ _ _ | .deleteExec _ => true
  | _ => false

/-- The next step is one of the engine's. -/
def Proc.applies : Proc → Bool
  | .reload _ | .remove _ | .stopCancel | .tickLoop _ => true
  | _ => false

/-- The lock is held after the next step, or was before it. -/
def Proc.locks : Proc → Bool
  | .tickLock _ | .tickLoop _ => true
  | _ => false

section
variable {a : Choice} {s s' : Store} {p q : Proc}

@[simp] theorem startRule_db (s : Store) (rule : ForwardRule) : (startRule s rule).db = s.db := rfl

@[simp] theorem removeInstance_db (s : Store) (id : ID) : (removeInstance s id).db = s.db := rfl

@[simp] theorem cancelAll_db (s : Store) : (cancelAll s).db = s.db := rfl

@[simp] theorem reload_db (s : Store) (rule : ForwardRule) : (reload s rule).db = s.db := by
  unfold reload
  split_ifs <;> rfl

@[simp] theorem tickRule_db (s : Store) (r : ForwardRule) : (tickRule s r).db = s.db := by
  unfold tickRule
  split <;> split_ifs <;> rfl

theorem startEnabled_db (s : Store) (rules : List ForwardRule) : (startEnabled s rules).db = s.db := by
  unfold startEnabled
  induction rules generalizing s with
  | nil => rfl
  | cons r rules ih =>
    rw [List.foldl_cons, ih]
    split_ifs <;> rfl

@[simp] theorem startRule_locked (s : Store) (rule : ForwardRule) :
    (startRule s rule).locked = s.locked := rfl

@[simp] theorem removeInstance_locked (s : Store) (id : ID) :
    (removeInstance s id).locked = s.locked := rfl

@[simp] theorem cancelAll_locked (s : Store) : (cancelAll s).locked = s.locked := rfl

@[simp] theorem reload_locked (s : Store) (rule : ForwardRule) :
    (reload s rule).locked = s.locked := by
  unfold reload
  split_ifs <;> rfl

@[simp] theorem write_locked (s : Store) (a : Choice) (f : ForwardTables → ForwardTables) :
    (s.write a f).locked = s.locked := by
  unfold Store.write
  split_ifs <;> rfl

@[simp] theorem write_instances (s : Store) (a : Choice) (f : ForwardTables → ForwardTables) :
    (s.write a f).instances = s.instances := by
  unfold Store.write
  split_ifs <;> rfl

theorem db_of_step (h : step a s p = some (s', q)) (hp : p.writes = false) : s'.db = s.db := by
  unfold step at h
  split at h <;> first | (cases hp; done) | skip
  all_goals
    repeat' split at h
    all_goals cases h <;> simp

/-- Behind its writes a process writes nothing more. -/
theorem writes_of_step (h : step a s p = some (s', q)) (hp : p.writes = false) :
    q.writes = false := by
  unfold step at h
  split at h <;> first | (cases hp; done) | skip
  all_goals
    repeat' split at h
    all_goals cases h <;> rfl

theorem instances_of_step (h : step a s p = some (s', q)) (hp : p.applies = false) :
    s'.instances = s.instances := by
  unfold step at h
  split at h <;> first | (cases hp; done) | skip
  all_goals
    repeat' split at h
    all_goals cases h <;> simp

theorem locked_of_step (h : step a s p = some (s', q)) (hp : p.locks = false) :
    s'.locked = s.locked := by
  unfold step at h
  split at h <;> first | (cases hp; done) | skip
  all_goals
    repeat' split at h
    all_goals cases h <;> simp

end

end NetBerth.ForwardEngine
