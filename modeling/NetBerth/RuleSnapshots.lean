import NetBerth.ForwardEngine
import NetBerth.RuleLoading

/-!
# What a reader of the rules gets to see

A write to a rule is several statements and so is a read, and none of them runs in a
transaction. A reader between two statements of a write sees the row of one version with
the lists of another, or with none.

If no write begins while another or a read of the same rule is under way, and no read
while a write is, and if every statement goes through, then what a reader returns is one
of the versions that were submitted.
-/
namespace NetBerth.RuleSnapshots
open Interleaving SqlTable Rules ForwardEngine

/-! ## Versions -/

/-- The entries of a body as they are stored: an entry without an id has been given one. -/
def Entries (given stored : List ACLEntry) : Prop :=
  List.Forall₂ (fun e e' => e'.value = e.value ∧ (e.id ≠ "" → e'.id = e.id)) given stored

/-- The rule has the fields of the version; its tenant and owner are its own. -/
def RowOf (v r : ForwardRule) : Prop := r.toForwardRow = updateRow v.toForwardRow r.toForwardRow

/-- The rule has the fields and both lists of the version. -/
structure Shows (v r : ForwardRule) : Prop where
  row : RowOf v r
  whitelist : Entries v.whitelist r.whitelist
  blacklist : Entries v.blacklist r.blacklist

/-- What a request submits for a rule. -/
def Request.submits : Request → ID → ForwardRule → Prop
  | .create (some rule) uuids, id, v => id = uuids.headD "" ∧ v = { rule with id := id }
  | .update k (some rule) _, id, v => id = k ∧ v = rule
  | _, _, _ => False

/-- The versions of a rule: the one there was, and those of the requests. -/
def Submitted (db : ForwardTables) (as : List Action) (id : ID) (v : ForwardRule) : Prop :=
  stored db id = some v ∨ ∃ r, .spawn r ∈ as ∧ Request.submits r id v

variable (V : ID → ForwardRule → Prop)

/-- All of the rule is from one version. -/
def Whole (r : ForwardRule) : Prop := ∃ v, V r.id v ∧ Shows v r

/-! ## Readers and writers -/

/-- The rules a process has read with all their lists. -/
def snapshots : Proc → List ForwardRule
  | .reload rule => [rule]
  | .tickWhitelist done _ => done
  | .tickBlacklist done _ _ _ => done
  | .tickLock rules => rules
  | .tickLoop rules => rules
  | _ => []

/-- The rows whose lists a process is still to read, with the whitelist if it has it. -/
def underRead : Proc → List (ForwardRow × Option (List ACLEntry))
  | .loadWhitelist row => [(row, none)]
  | .loadBlacklist row whitelist => [(row, some whitelist)]
  | .tickWhitelist _ rows => rows.map fun row => (row, none)
  | .tickBlacklist _ row whitelist rows => (row, some whitelist) :: rows.map fun row => (row, none)
  | _ => []

def reads (p : Proc) : List ID := (underRead p).map fun x => x.1.id

/-- The rule of which a process has written a part. -/
def writes : Proc → Option ID
  | .clearWhitelist id _ _ => some id
  | .clearBlacklist id _ _ => some id
  | .saveWhitelist id lists _ => if lists = ⟨[], []⟩ then none else some id
  | .saveBlacklist id blacklist _ => if blacklist = [] then none else some id
  | _ => none

/-- The rule a process is about to begin to write. -/
def beginsWrite : Proc → Option ID
  | .createInsert rule _ => some rule.id
  | .updateExec id _ _ => some id
  | .deleteExec id => some id
  | _ => none

/-- The rules a process is about to begin to read. -/
def beginsRead (db : ForwardTables) : Proc → List ID
  | .loadRow id => [id]
  | .tickQuery => db.rules.rows.map ForwardRow.id
  | _ => []

/-- Who begins to write finds no other at the rule, who begins to read finds no writer. -/
def Alone (c : State) (p : Proc) : Prop :=
  (∀ id ∈ beginsWrite p, ∀ q ∈ c.procs, writes q ≠ some id ∧ id ∉ reads q) ∧
  ∀ id ∈ beginsRead c.shared.db p, ∀ q ∈ c.procs, writes q ≠ some id

/-- The statement on a list is not dropped: it runs, and no other entry has the id. -/
def GoesThrough (a : Choice) (db : ForwardTables) : Proc → Prop
  | .clearWhitelist _ _ _ => a ≠ .fail
  | .clearBlacklist _ _ _ => a ≠ .fail
  | .saveWhitelist _ ⟨e :: _, _⟩ uuids =>
    a ≠ .fail ∧ (nameEntry e uuids).1.id ∉ db.whitelist.rows.map ListRow.id
  | .saveBlacklist _ (e :: _) uuids =>
    a ≠ .fail ∧ (nameEntry e uuids).1.id ∉ db.blacklist.rows.map ListRow.id
  | _ => True

def Serial (c : State) : Action → Prop
  | .spawn _ => True
  | .run i a => ∀ p ∈ c.procs[i]?, Alone c p ∧ GoesThrough a c.shared.db p

instance (c : State) (p : Proc) : Decidable (Alone c p) := instDecidableAnd

instance (a : Choice) (db : ForwardTables) (p : Proc) : Decidable (GoesThrough a db p) := by
  apply Proc.casesOn (motive := fun p => Decidable (GoesThrough a db p)) p
  case saveWhitelist =>
    intro id lists uuids
    match lists with
    | ⟨[], _⟩ => exact instDecidableTrue
    | ⟨_ :: _, _⟩ => exact instDecidableAnd
  case saveBlacklist =>
    intro id blacklist uuids
    match blacklist with
    | [] => exact instDecidableTrue
    | _ :: _ => exact instDecidableAnd
  all_goals intros; unfold GoesThrough; infer_instance

instance (c : State) (act : Action) : Decidable (Serial c act) := by
  cases act <;> unfold Serial <;> infer_instance

/-! ## What holds of each process -/

/-- How much of a version a writer has written to the rule as it is stored. -/
def Written (r : ForwardRule) : Proc → Prop
  | .clearWhitelist id lists _ => ∃ v, V id v ∧ RowOf v r ∧ lists = v.toForwardLists
  | .clearBlacklist id lists _ =>
    ∃ v, V id v ∧ RowOf v r ∧ lists = v.toForwardLists ∧ r.whitelist = []
  | .saveWhitelist id lists _ =>
    ∃ v done, V id v ∧ RowOf v r ∧ v.whitelist = done ++ lists.whitelist ∧
      Entries done r.whitelist ∧ v.blacklist = lists.blacklist ∧ r.blacklist = []
  | .saveBlacklist id blacklist _ =>
    ∃ v done, V id v ∧ RowOf v r ∧ Entries v.whitelist r.whitelist ∧
      v.blacklist = done ++ blacklist ∧ Entries done r.blacklist
  | _ => True

/-- What a process is about to submit is a version. -/
def Submits : Proc → Prop
  | .createInsert rule _ => V rule.id rule
  | .updateExec id rule _ => V id rule
  | _ => True

structure Sound (db : ForwardTables) (p : Proc) : Prop where
  submits : Submits V p
  written : ∀ id ∈ writes p, ∀ r ∈ stored db id, Written V r p
  begun : ∀ x ∈ underRead p, ∃ r ∈ stored db x.1.id,
    r.toForwardRow = x.1 ∧ (∀ wl ∈ x.2, r.whitelist = wl) ∧ Whole V r
  returned : ∀ r ∈ snapshots p, Whole V r

/-- What is stored for the rule is a version. -/
def Settled (db : ForwardTables) (id : ID) : Prop := ∀ r ∈ stored db id, Whole V r

/-- Every entry of a list belongs to a rule. -/
def ForeignKeys (db : ForwardTables) : Prop :=
  (∀ e ∈ db.whitelist.rows, (db.rules.select e.ruleID).isSome) ∧
  ∀ e ∈ db.blacklist.rows, (db.rules.select e.ruleID).isSome

instance (db : ForwardTables) : Decidable (ForeignKeys db) := instDecidableAnd

/-- Where the one process is writing, the other neither writes nor reads. -/
def Apart (p q : Proc) : Prop := ∀ id ∈ writes p, writes q ≠ some id ∧ id ∉ reads q

structure Serialized (c : State) : Prop where
  keys : ForeignKeys c.shared.db
  settled : ∀ id, Settled V c.shared.db id ∨ ∃ p ∈ c.procs, writes p = some id
  sound : ∀ p ∈ c.procs, Sound V c.shared.db p
  apart : Pairs Apart c.procs

variable {V : ID → ForwardRule → Prop} {db db' : ForwardTables} {s s' : Store} {p q : Proc}
  {a : Choice} {id : ID}

theorem Entries.refl (l : List ACLEntry) : Entries l l :=
  List.forall₂_same.mpr fun _ _ => ⟨rfl, fun _ => rfl⟩

theorem shows_refl (r : ForwardRule) : Shows r r := ⟨rfl, .refl _, .refl _⟩

theorem Entries.snoc {given stored : List ACLEntry} (h : Entries given stored) (e : ACLEntry)
    (uuids : List ID) : Entries (given ++ [e]) (stored ++ [(nameEntry e uuids).1]) := by
  have hnamed : (nameEntry e uuids).1.value = e.value ∧
      (e.id ≠ "" → (nameEntry e uuids).1.id = e.id) := by
    unfold nameEntry
    split_ifs with hid
    · exact ⟨rfl, absurd hid⟩
    · exact ⟨rfl, fun _ => rfl⟩
  exact List.rel_append h (.cons hnamed .nil)

/-! ## A step and the rules it is not at -/

theorem sound_of_idle (hw : writes p = none) (hr : underRead p = []) (hsn : snapshots p = [])
    (hs : Submits V p) : Sound V db p where
  submits := hs
  written := by
    rw [hw]
    exact fun _ h => nomatch h
  begun := by
    rw [hr]
    exact List.forall_mem_nil _
  returned := by
    rw [hsn]
    exact List.forall_mem_nil _

/-- What holds of a process depends on the rules it is at. -/
theorem Sound.congr (h : Sound V db p)
    (hdb : ∀ id, writes p = some id ∨ id ∈ reads p → stored db' id = stored db id) :
    Sound V db' p where
  submits := h.submits
  written id hid := by
    rw [hdb id (.inl hid)]
    exact h.written id hid
  begun x hx := by
    rw [hdb x.1.id (.inr (List.mem_map_of_mem hx))]
    exact h.begun x hx
  returned := h.returned

theorem stored_write {f : ForwardTables → ForwardTables} (a : Choice)
    (h : stored (f s.db) id = stored s.db id) : stored (s.write a f).db id = stored s.db id := by
  unfold Store.write
  split_ifs
  · rfl
  · exact h

/-- A step leaves the rules alone that it is not at. -/
theorem stored_of_step (hs : step a s p = some (s', q)) (hb : beginsWrite p ≠ some id)
    (hw : writes p ≠ some id) : stored s'.db id = stored s.db id := by
  cases p with
  | createInsert rule uuids =>
    simp only [step] at hs
    split at hs
    · cases hs
      rfl
    · next rules hins =>
      cases hs
      split_ifs at hins
      exact stored_insert hins fun h => hb (congrArg some h.symm)
  | updateExec k rule uuids =>
    simp only [step] at hs
    split_ifs at hs
    · cases hs
      rfl
    · cases hs
      exact stored_updateRules _ fun h => hb (congrArg some h.symm)
  | clearWhitelist k lists uuids =>
    cases hs
    exact stored_write a (stored_clearWhitelist fun h => hw (congrArg some h.symm))
  | clearBlacklist k lists uuids =>
    cases hs
    exact stored_write a (stored_clearBlacklist fun h => hw (congrArg some h.symm))
  | saveWhitelist k lists uuids =>
    obtain ⟨_ | ⟨e, es⟩, blacklist⟩ := lists
    · cases hs
      rfl
    · cases hs
      exact stored_write a (stored_saveWhitelist _ fun h => hw (congrArg some h.symm))
  | saveBlacklist k blacklist uuids =>
    cases blacklist with
    | nil =>
      cases hs
      rfl
    | cons e es =>
      cases hs
      exact stored_write a (stored_saveBlacklist _ fun h => hw (congrArg some h.symm))
  | deleteExec k =>
    cases hs
    exact stored_write a (stored_deleteRule fun h => hb (congrArg some h.symm))
  | _ => rw [db_of_step hs rfl]

theorem writes_eq_none (h : p.writes = false) : writes p = none := by
  cases p <;> first | rfl | cases h

theorem beginsWrite_eq_none (h : p.writes = false) : beginsWrite p = none := by
  cases p <;> first | rfl | cases h

/-- Where a process is after a step it was before, or the step began to be there. -/
theorem writing_of_step (hs : step a s p = some (s', q)) (hq : writes q = some id) :
    writes p = some id ∨ beginsWrite p = some id := by
  cases p with
  | createInsert rule uuids =>
    simp only [step] at hs
    split at hs
    · cases hs
      cases hq
    · cases hs
      simp only [writes] at hq
      split_ifs at hq
      exact .inr hq
  | updateExec k rule uuids =>
    simp only [step] at hs
    split_ifs at hs
    · cases hs
      cases hq
    · cases hs
      exact .inr hq
  | clearWhitelist k lists uuids =>
    cases hs
    exact .inl hq
  | clearBlacklist k lists uuids =>
    cases hs
    simp only [writes] at hq
    split_ifs at hq
    exact .inl hq
  | saveWhitelist k lists uuids =>
    obtain ⟨_ | ⟨e, es⟩, blacklist⟩ := lists
    · cases hs
      left
      simpa [writes] using hq
    · cases hs
      simp only [writes] at hq
      split_ifs at hq
      exact .inl hq
  | saveBlacklist k blacklist uuids =>
    cases blacklist with
    | nil =>
      cases hs
      cases hq
    | cons e es =>
      cases hs
      simp only [writes] at hq
      split_ifs at hq
      exact .inl hq
  | deleteExec k =>
    cases hs
    cases hq
  | _ =>
    rw [writes_eq_none (ForwardEngine.writes_of_step hs rfl)] at hq
    cases hq

/-- The process goes through the rows, or through the rules it has read. -/
def onTheWay : Proc → Bool
  | .loadRow _ | .loadWhitelist _ | .loadBlacklist _ _ | .tickQuery | .tickWhitelist _ _
  | .tickBlacklist _ _ _ _ | .tickLock _ | .tickLoop _ => true
  | _ => false

theorem idle_of_step (hs : step a s p = some (s', q)) (hp : onTheWay p = false) :
    underRead q = [] ∧ snapshots q = [] := by
  unfold step at hs
  split at hs <;> first | (cases hp; done) | skip
  all_goals
    repeat' split at hs
    all_goals cases hs <;> exact ⟨rfl, rfl⟩

theorem reading_of_step (hs : step a s p = some (s', q)) (hq : id ∈ reads q) :
    id ∈ reads p ∨ id ∈ beginsRead s.db p := by
  cases p with
  | loadRow k =>
    simp only [step] at hs
    split at hs
    · cases hs
      cases hq
    · next row hrow =>
      cases hs
      have hid : id = row.id := by simpa [reads, underRead] using hq
      rw [hid, id_of_select hrow]
      exact .inr (List.mem_singleton_self _)
  | loadWhitelist row =>
    cases hs
    exact .inl hq
  | tickQuery =>
    simp only [step] at hs
    split_ifs at hs
    · cases hs
      cases hq
    · cases hs
      right
      simpa [reads, underRead, beginsRead] using hq
  | tickWhitelist done rows =>
    cases rows with
    | nil =>
      cases hs
      cases hq
    | cons row rows =>
      simp only [step] at hs
      split_ifs at hs
      · cases hs
        cases hq
      · cases hs
        left
        simpa [reads, underRead] using hq
  | tickBlacklist done row whitelist rows =>
    cases hs
    left
    simp only [reads, underRead, List.map_cons, List.mem_cons] at hq ⊢
    exact .inr hq
  | loadBlacklist row whitelist =>
    cases hs
    cases hq
  | tickLock rules =>
    simp only [step] at hs
    split_ifs at hs
    cases hs
    cases hq
  | tickLoop rules =>
    cases rules with
    | nil =>
      cases hs
      cases hq
    | cons r rules =>
      cases hs
      cases hq
  | _ =>
    rw [reads, (idle_of_step hs rfl).1] at hq
    cases hq

/-! ## Entries belong to rules -/

theorem entriesOf_missing {t : Table ListRow} (h : ∀ e ∈ t.rows, (db.rules.select e.ruleID).isSome)
    (hid : db.rules.select id = none) : entriesOf t id = [] := by
  unfold entriesOf Table.selectWhere
  rw [List.map_eq_nil_iff, List.filter_eq_nil_iff]
  intro e he heq
  have hsome := h e he
  rw [of_decide_eq_true heq, hid] at hsome
  cases hsome

theorem ForeignKeys.lists_eq (h : ForeignKeys db) (hid : db.rules.select id = none) :
    db.lists id = ⟨[], []⟩ := by
  rw [ForwardTables.lists, entriesOf_missing h.1 hid, entriesOf_missing h.2 hid]

/-- The rules that entries refer to are still there. -/
theorem ForeignKeys.of_select (h : ForeignKeys db) (hw : db'.whitelist = db.whitelist)
    (hb : db'.blacklist = db.blacklist)
    (hsome : ∀ id, (db.rules.select id).isSome → (db'.rules.select id).isSome) :
    ForeignKeys db' := by
  unfold ForeignKeys
  rw [hw, hb]
  exact ⟨fun e he => hsome _ (h.1 e he), fun e he => hsome _ (h.2 e he)⟩

theorem forall_insertEntry {t : Table ListRow} (e : ACLEntry)
    (h : ∀ x ∈ t.rows, (db.rules.select x.ruleID).isSome) :
    ∀ x ∈ (insertEntry db.rules id e t).rows, (db.rules.select x.ruleID).isSome := by
  unfold insertEntry
  split_ifs with hrule
  · unfold Table.insertIgnore
    cases hins : t.insert ⟨e.id, id, e.value⟩ with
    | none => exact h
    | some t' =>
      intro x hx
      rw [Option.getD_some, Table.rows_insert hins] at hx
      rcases List.mem_append.mp hx with hx | hx
      · exact h x hx
      · rw [List.mem_singleton.mp hx]
        exact hrule
  · exact h

theorem ForeignKeys.deleteRule (h : ForeignKeys db) : ForeignKeys (deleteRule id db) := by
  have hsome : ∀ k, k ≠ id → (db.rules.select k).isSome →
      ((ForwardEngine.deleteRule id db).rules.select k).isSome := by
    intro k hk hrule
    obtain ⟨row, hrow⟩ := Option.isSome_iff_exists.mp hrule
    rw [ForwardEngine.deleteRule, Table.select_delete, hrow]
    simp [id_of_select hrow, hk]
  constructor
  · intro e he
    obtain ⟨hmem, hne⟩ := Table.mem_delete.mp he
    exact hsome _ (by simpa using hne) (h.1 e hmem)
  · intro e he
    obtain ⟨hmem, hne⟩ := Table.mem_delete.mp he
    exact hsome _ (by simpa using hne) (h.2 e hmem)

theorem ForeignKeys.write {f : ForwardTables → ForwardTables} (a : Choice) (h : ForeignKeys s.db)
    (hf : ForeignKeys (f s.db)) : ForeignKeys (s.write a f).db := by
  unfold Store.write
  split_ifs
  · exact h
  · exact hf

theorem keys_of_step (hs : step a s p = some (s', q)) (h : ForeignKeys s.db) :
    ForeignKeys s'.db := by
  cases p with
  | createInsert rule uuids =>
    simp only [step] at hs
    split at hs
    · cases hs
      exact h
    · next rules hins =>
      cases hs
      split_ifs at hins
      refine h.of_select rfl rfl fun k hk => ?_
      rw [Table.select_insert hins]
      split_ifs
      · rfl
      · exact hk
  | updateExec k rule uuids =>
    simp only [step] at hs
    split_ifs at hs
    · cases hs
      exact h
    · cases hs
      refine h.of_select rfl rfl fun id hid => ?_
      rw [updateRules, Table.select_update, Option.isSome_map]
      exact hid
  | clearWhitelist k lists uuids =>
    cases hs
    exact h.write a ⟨fun e he => h.1 e (Table.mem_delete.mp he).1, h.2⟩
  | clearBlacklist k lists uuids =>
    cases hs
    exact h.write a ⟨h.1, fun e he => h.2 e (Table.mem_delete.mp he).1⟩
  | saveWhitelist k lists uuids =>
    obtain ⟨_ | ⟨e, es⟩, blacklist⟩ := lists
    · cases hs
      exact h
    · cases hs
      exact h.write a ⟨forall_insertEntry _ h.1, h.2⟩
  | saveBlacklist k blacklist uuids =>
    cases blacklist with
    | nil =>
      cases hs
      exact h
    | cons e es =>
      cases hs
      exact h.write a ⟨h.1, forall_insertEntry _ h.2⟩
  | deleteExec k =>
    cases hs
    exact h.write a h.deleteRule
  | _ => exact db_of_step hs rfl ▸ h

/-! ## What a step of a writer leaves -/

/-- The rule whose lists a process clears and saves. -/
def writerOf : Proc → Option ID
  | .clearWhitelist id _ _ => some id
  | .clearBlacklist id _ _ => some id
  | .saveWhitelist id _ _ => some id
  | .saveBlacklist id _ _ => some id
  | _ => none

theorem writes_of_writerOf (hq : writerOf q = some id) : writes q = some id ∨ writes q = none := by
  cases q with
  | clearWhitelist k lists uuids => exact .inl hq
  | clearBlacklist k lists uuids => exact .inl hq
  | saveWhitelist k lists uuids =>
    simp only [writes]
    split_ifs
    · exact .inr rfl
    · exact .inl hq
  | saveBlacklist k blacklist uuids =>
    simp only [writes]
    split_ifs
    · exact .inr rfl
    · exact .inl hq
  | _ => cases hq

/-- Who has written all of a version has settled the rule. -/
theorem settled_of_written (hq : writerOf q = some id) (hdone : writes q = none)
    (h : ∀ r ∈ stored db id, Written V r q) : Settled V db id := by
  intro r hr
  have hid : r.id = id := id_of_stored hr
  cases q with
  | saveWhitelist k lists uuids =>
    cases hq
    simp only [writes, ite_eq_left_iff, reduceCtorEq, imp_false, not_not] at hdone
    subst hdone
    obtain ⟨v, done, hv, hrow, hwl, hdone, hbl, hempty⟩ := h r hr
    rw [List.append_nil] at hwl
    refine ⟨v, hid ▸ hv, hrow, hwl ▸ hdone, ?_⟩
    rw [hbl, hempty]
    exact .nil
  | saveBlacklist k blacklist uuids =>
    cases hq
    simp only [writes, ite_eq_left_iff, reduceCtorEq, imp_false, not_not] at hdone
    subst hdone
    obtain ⟨v, done, hv, hrow, hwl, hbl, hdone⟩ := h r hr
    rw [List.append_nil] at hbl
    exact ⟨v, hid ▸ hv, hrow, hwl, hbl ▸ hdone⟩
  | clearWhitelist k lists uuids => cases hdone
  | clearBlacklist k lists uuids => cases hdone
  | _ => cases hq

theorem sound_of_written (hq : writerOf q = some id) (h : ∀ r ∈ stored db id, Written V r q) :
    Sound V db q ∧ (Settled V db id ∨ writes q = some id) := by
  have hsubmits : Submits V q := by
    cases q <;> trivial
  have hidle : underRead q = [] ∧ snapshots q = [] := by
    cases q <;> first | exact ⟨rfl, rfl⟩ | cases hq
  rcases writes_of_writerOf hq with hw | hw
  · refine ⟨⟨hsubmits, fun k hk r hr => ?_, ?_, ?_⟩, .inr hw⟩
    · obtain rfl : id = k := Option.some.inj (hw.symm.trans hk)
      exact h r hr
    · rw [hidle.1]
      exact List.forall_mem_nil _
    · rw [hidle.2]
      exact List.forall_mem_nil _
  · exact ⟨sound_of_idle hw hidle.1 hidle.2 hsubmits, .inl (settled_of_written hq hw h)⟩

theorem write_db {f : ForwardTables → ForwardTables} (ha : a ≠ .fail) :
    (s.write a f).db = f s.db := by
  rw [Store.write, if_neg ha]

/-- The one rule the mover is at is settled, or it goes on to write to it. -/
theorem writer_result (hq : writerOf q = some id) (h : ∀ r ∈ stored db id, Written V r q)
    (hat : (beginsWrite p).or (writes p) = some id) :
    Sound V db q ∧
      ∀ k, beginsWrite p = some k ∨ writes p = some k → Settled V db k ∨ writes q = some k := by
  obtain ⟨hsound, hleft⟩ := sound_of_written hq h
  refine ⟨hsound, fun k hk => ?_⟩
  have hone : (beginsWrite p).or (writes p) = some k := by
    rcases hk with hbegin | hwrite
    · rw [hbegin, Option.some_or]
    · have hnone : beginsWrite p = none := by
        cases p <;> first | rfl | cases hwrite
      rw [hnone, Option.none_or, hwrite]
  rw [← Option.some.inj (hat.symm.trans hone)]
  exact hleft

/-- The mover has nothing to write, or no more, and what it was about to write to is settled. -/
theorem writer_stops (hq : writes q = none) (hr : underRead q = []) (hsn : snapshots q = [])
    (hsub : Submits V q) (hp : writes p = none)
    (hsettled : ∀ id, beginsWrite p = some id → Settled V db id) :
    Sound V db q ∧
      ∀ k, beginsWrite p = some k ∨ writes p = some k → Settled V db k ∨ writes q = some k := by
  refine ⟨sound_of_idle hq hr hsn hsub, ?_⟩
  rintro k (hk | hk)
  · exact .inl (hsettled k hk)
  · rw [hp] at hk
    cases hk

/-- The row of a new rule, before its lists. -/
theorem written_createInsert {rule : ForwardRule} {rules : Table ForwardRow} (uuids : List ID)
    (hkeys : ForeignKeys db) (hv : V rule.id rule)
    (hins : db.rules.insert rule.toForwardRow = some rules) :
    ∀ r ∈ stored { db with rules } rule.id,
      Written V r (.saveWhitelist rule.id rule.toForwardLists uuids) := by
  intro r hr
  have hrow : rules.select rule.id = some rule.toForwardRow := by
    rw [Table.select_insert hins]
    exact if_pos rfl
  have hlists : db.lists rule.id = ⟨[], []⟩ := hkeys.lists_eq (Table.select_key_of_insert hins)
  have hstored : stored { db with rules } rule.id = some ⟨rule.toForwardRow, db.lists rule.id⟩ :=
    stored_of_select hrow
  rw [hstored, hlists] at hr
  cases hr
  exact ⟨rule, [], hv, rfl, rfl, .nil, rfl, rfl⟩

theorem written_updateExec {rule : ForwardRule} (db : ForwardTables) (uuids : List ID)
    (hv : V id rule) :
    ∀ r ∈ stored (updateRules rule.toForwardRow id db) id,
      Written V r (.clearWhitelist id rule.toForwardLists uuids) := by
  intro r hr
  rw [stored_updateRules_self] at hr
  obtain ⟨r₀, -, rfl⟩ := Option.map_eq_some_iff.mp hr
  exact ⟨rule, hv, rfl, rfl⟩

theorem written_clearWhitelist {lists : ForwardLists} {uuids : List ID}
    (h : ∀ r ∈ stored db id, Written V r (.clearWhitelist id lists uuids)) :
    ∀ r ∈ stored (clearWhitelist id db) id, Written V r (.clearBlacklist id lists uuids) := by
  intro r hr
  rw [stored_clearWhitelist_self] at hr
  obtain ⟨r₀, h₀, rfl⟩ := Option.map_eq_some_iff.mp hr
  obtain ⟨v, hv, hrow, hlists⟩ := h r₀ h₀
  exact ⟨v, hv, hrow, hlists, rfl⟩

theorem written_clearBlacklist {lists : ForwardLists} {uuids : List ID}
    (h : ∀ r ∈ stored db id, Written V r (.clearBlacklist id lists uuids)) :
    ∀ r ∈ stored (clearBlacklist id db) id, Written V r (.saveWhitelist id lists uuids) := by
  intro r hr
  rw [stored_clearBlacklist_self] at hr
  obtain ⟨r₀, h₀, rfl⟩ := Option.map_eq_some_iff.mp hr
  obtain ⟨v, hv, hrow, hlists, hempty⟩ := h r₀ h₀
  refine ⟨v, [], hv, hrow, ?_, ?_, ?_, rfl⟩
  · rw [hlists, List.nil_append]
  · rw [hempty]
    exact .nil
  · rw [hlists]

theorem written_saveWhitelist {e : ACLEntry} {es blacklist : List ACLEntry} {uuids : List ID}
    (hfree : (nameEntry e uuids).1.id ∉ db.whitelist.rows.map ListRow.id)
    (h : ∀ r ∈ stored db id, Written V r (.saveWhitelist id ⟨e :: es, blacklist⟩ uuids))
    (rest : List ID) : ∀ r ∈ stored (saveWhitelist id (nameEntry e uuids).1 db) id,
      Written V r (.saveWhitelist id ⟨es, blacklist⟩ rest) := by
  intro r hr
  rw [stored_saveWhitelist_self hfree] at hr
  obtain ⟨r₀, h₀, rfl⟩ := Option.map_eq_some_iff.mp hr
  obtain ⟨v, done, hv, hrow, hwl, hdone, hbl, hempty⟩ := h r₀ h₀
  refine ⟨v, done ++ [e], hv, hrow, ?_, hdone.snoc e uuids, hbl, hempty⟩
  rw [hwl, List.append_assoc]
  rfl

theorem written_whitelist {blacklist : List ACLEntry} {uuids : List ID}
    (h : ∀ r ∈ stored db id, Written V r (.saveWhitelist id ⟨[], blacklist⟩ uuids)) :
    ∀ r ∈ stored db id, Written V r (.saveBlacklist id blacklist uuids) := by
  intro r hr
  obtain ⟨v, done, hv, hrow, hwl, hdone, hbl, hempty⟩ := h r hr
  rw [List.append_nil] at hwl
  refine ⟨v, [], hv, hrow, hwl ▸ hdone, hbl, ?_⟩
  rw [hempty]
  exact .nil

theorem written_saveBlacklist {e : ACLEntry} {es : List ACLEntry} {uuids : List ID}
    (hfree : (nameEntry e uuids).1.id ∉ db.blacklist.rows.map ListRow.id)
    (h : ∀ r ∈ stored db id, Written V r (.saveBlacklist id (e :: es) uuids)) (rest : List ID) :
    ∀ r ∈ stored (saveBlacklist id (nameEntry e uuids).1 db) id,
      Written V r (.saveBlacklist id es rest) := by
  intro r hr
  rw [stored_saveBlacklist_self hfree] at hr
  obtain ⟨r₀, h₀, rfl⟩ := Option.map_eq_some_iff.mp hr
  obtain ⟨v, done, hv, hrow, hwl, hbl, hdone⟩ := h r₀ h₀
  refine ⟨v, done ++ [e], hv, hrow, hwl, ?_, hdone.snoc e uuids⟩
  rw [hbl, List.append_assoc]
  rfl

/-- A writer goes on with its version, and where it is through, or has not begun, the rule
is settled. -/
theorem writer_step (hs : step a s p = some (s', q)) (hkeys : ForeignKeys s.db)
    (hp : Sound V s.db p) (hthrough : GoesThrough a s.db p) (hwrites : p.writes = true)
    (hsettled : ∀ id, beginsWrite p = some id → Settled V s.db id) :
    Sound V s'.db q ∧
      ∀ id, beginsWrite p = some id ∨ writes p = some id →
        Settled V s'.db id ∨ writes q = some id := by
  cases p with
  | createInsert rule uuids =>
    simp only [step] at hs
    split at hs
    · cases hs
      exact writer_stops rfl rfl rfl trivial rfl hsettled
    · next rules hins =>
      cases hs
      split_ifs at hins
      exact writer_result rfl (written_createInsert uuids hkeys hp.submits hins) rfl
  | updateExec k rule uuids =>
    simp only [step] at hs
    split_ifs at hs
    · cases hs
      exact writer_stops rfl rfl rfl trivial rfl hsettled
    · cases hs
      exact writer_result rfl (written_updateExec s.db uuids hp.submits) rfl
  | clearWhitelist k lists uuids =>
    cases hs
    rw [write_db hthrough]
    exact writer_result rfl (written_clearWhitelist (hp.written k rfl)) rfl
  | clearBlacklist k lists uuids =>
    cases hs
    rw [write_db hthrough]
    exact writer_result rfl (written_clearBlacklist (hp.written k rfl)) rfl
  | saveWhitelist k lists uuids =>
    obtain ⟨_ | ⟨e, es⟩, blacklist⟩ := lists
    · cases hs
      cases blacklist with
      | nil =>
        exact writer_stops rfl rfl rfl trivial rfl nofun
      | cons e es =>
        exact writer_result rfl (written_whitelist (hp.written k rfl)) rfl
    · cases hs
      rw [write_db hthrough.1]
      have hnext := written_saveWhitelist hthrough.2 (hp.written k rfl) (nameEntry e uuids).2
      exact writer_result rfl hnext rfl
  | saveBlacklist k blacklist uuids =>
    cases blacklist with
    | nil =>
      cases hs
      exact writer_stops rfl rfl rfl trivial rfl nofun
    | cons e es =>
      cases hs
      rw [write_db hthrough.1]
      have hnext := written_saveBlacklist hthrough.2 (hp.written k rfl) (nameEntry e uuids).2
      exact writer_result rfl hnext rfl
  | deleteExec k =>
    cases hs
    refine writer_stops rfl rfl rfl trivial rfl fun id hid => ?_
    cases hid
    unfold Store.write
    split_ifs
    · exact hsettled k rfl
    · intro r hr
      rw [stored_deleteRule_self] at hr
      cases hr
  | _ => cases hwrites

/-! ## What a step of a reader sees -/

theorem lists_of_stored {r : ForwardRule} (hr : stored db id = some r) :
    r.whitelist = entriesOf db.whitelist id ∧ r.blacklist = entriesOf db.blacklist id := by
  rw [stored_eq] at hr
  obtain ⟨row, -, rfl⟩ := Option.map_eq_some_iff.mp hr
  exact ⟨rfl, rfl⟩

theorem sound_of_reads (hw : p.writes = false)
    (hr : ∀ x ∈ underRead p, ∃ r ∈ stored db x.1.id,
      r.toForwardRow = x.1 ∧ (∀ wl ∈ x.2, r.whitelist = wl) ∧ Whole V r)
    (hsn : ∀ r ∈ snapshots p, Whole V r) : Sound V db p where
  submits := by
    cases p <;> trivial
  written id hid := by
    rw [writes_eq_none hw] at hid
    cases hid
  begun := hr
  returned := hsn

/-- The blacklist completes what a reader has of the rule as it is stored. -/
theorem whole_of_blacklist {row : ForwardRow} {whitelist : List ACLEntry}
    (h : ∃ r ∈ stored db row.id,
      r.toForwardRow = row ∧ (∀ wl ∈ some whitelist, r.whitelist = wl) ∧ Whole V r) :
    Whole V ⟨row, whitelist, entriesOf db.blacklist row.id⟩ := by
  obtain ⟨r, hr, rfl, hwl, hwhole⟩ := h
  rw [← (lists_of_stored hr).2, ← hwl whitelist rfl]
  exact hwhole

/-- The whitelist a reader gets is the one of the rule as it is stored. -/
theorem begun_whitelist {row : ForwardRow}
    (h : ∃ r ∈ stored db row.id, r.toForwardRow = row ∧
      (∀ wl ∈ (none : Option (List ACLEntry)), r.whitelist = wl) ∧ Whole V r) :
    ∃ r ∈ stored db row.id, r.toForwardRow = row ∧
      (∀ wl ∈ some (entriesOf db.whitelist row.id), r.whitelist = wl) ∧ Whole V r := by
  obtain ⟨r, hr, hrow, -, hwhole⟩ := h
  refine ⟨r, hr, hrow, fun wl hwl => ?_, hwhole⟩
  rw [(lists_of_stored hr).1]
  exact Option.some.inj hwl

/-- A row that is read from a settled rule. -/
theorem begun_row {row : ForwardRow} (hrow : db.rules.select row.id = some row)
    (h : Settled V db row.id) :
    ∃ r ∈ stored db row.id, r.toForwardRow = row ∧
      (∀ wl ∈ (none : Option (List ACLEntry)), r.whitelist = wl) ∧ Whole V r := by
  have hstored := stored_of_select hrow
  exact ⟨_, hstored, rfl, fun _ hwl => (nomatch hwl), h _ hstored⟩

/-- What a reader has is from one version each. -/
theorem reader_step (hs : step a s p = some (s', q)) (hp : Sound V s.db p)
    (hwrites : p.writes = false) (hsettled : ∀ id ∈ beginsRead s.db p, Settled V s.db id) : Sound V s.db q := by
  have hq : q.writes = false := ForwardEngine.writes_of_step hs hwrites
  cases p with
  | loadRow k =>
    simp only [step] at hs
    split at hs
    · cases hs
      exact sound_of_idle rfl rfl rfl trivial
    · next row hrow =>
      cases hs
      have hk : row.id = k := id_of_select hrow
      rw [← hk] at hrow hsettled
      refine sound_of_reads rfl (List.forall_mem_singleton.mpr ?_) (List.forall_mem_nil _)
      exact begun_row hrow (hsettled row.id (List.mem_singleton_self _))
  | loadWhitelist row =>
    cases hs
    refine sound_of_reads rfl (List.forall_mem_singleton.mpr ?_) (List.forall_mem_nil _)
    exact begun_whitelist (hp.begun _ (List.mem_singleton_self _))
  | loadBlacklist row whitelist =>
    cases hs
    refine sound_of_reads rfl (List.forall_mem_nil _) (List.forall_mem_singleton.mpr ?_)
    exact whole_of_blacklist (hp.begun _ (List.mem_singleton_self _))
  | tickQuery =>
    simp only [step] at hs
    split_ifs at hs
    · cases hs
      exact sound_of_idle rfl rfl rfl trivial
    · cases hs
      refine sound_of_reads rfl (List.forall_mem_map.mpr fun row hrow => ?_) (List.forall_mem_nil _)
      have hsel : s.db.rules.select row.id = some row := Table.select_eq_some.mpr ⟨hrow, rfl⟩
      exact begun_row hsel (hsettled row.id (List.mem_map_of_mem hrow))
  | tickWhitelist done rows =>
    cases rows with
    | nil =>
      cases hs
      exact sound_of_reads rfl (List.forall_mem_nil _) hp.returned
    | cons row rows =>
      simp only [step] at hs
      split_ifs at hs
      · cases hs
        exact sound_of_idle rfl rfl rfl trivial
      · cases hs
        obtain ⟨hrow, hrows⟩ := List.forall_mem_cons.mp hp.begun
        refine sound_of_reads rfl (List.forall_mem_cons.mpr ⟨?_, hrows⟩) hp.returned
        exact begun_whitelist hrow
  | tickBlacklist done row whitelist rows =>
    cases hs
    obtain ⟨hrow, hrows⟩ := List.forall_mem_cons.mp hp.begun
    refine sound_of_reads rfl hrows (List.forall_mem_append.mpr ⟨hp.returned, ?_⟩)
    exact List.forall_mem_singleton.mpr (whole_of_blacklist hrow)
  | tickLock rules =>
    simp only [step] at hs
    split_ifs at hs
    cases hs
    exact sound_of_reads rfl (List.forall_mem_nil _) hp.returned
  | tickLoop rules =>
    cases rules with
    | nil =>
      cases hs
      exact sound_of_idle rfl rfl rfl trivial
    | cons r rules =>
      cases hs
      refine sound_of_reads rfl (List.forall_mem_nil _) fun r' hr' => ?_
      exact hp.returned r' (List.mem_cons_of_mem r hr')
  | _ =>
    obtain ⟨hr, hsn⟩ := idle_of_step hs rfl
    refine sound_of_reads hq ?_ ?_
    · rw [hr]
      exact List.forall_mem_nil _
    · rw [hsn]
      exact List.forall_mem_nil _

/-! ## Every run -/

theorem start_idle (parses : String → Bool) (r : Request) :
    writes (start parses r) = none ∧ underRead (start parses r) = [] ∧
      snapshots (start parses r) = [] := by
  cases r with
  | create body uuids =>
    cases body with
    | none => exact ⟨rfl, rfl, rfl⟩
    | some rule =>
      simp only [start, create]
      split_ifs
      · exact ⟨rfl, rfl, rfl⟩
      · split
        · exact ⟨rfl, rfl, rfl⟩
        · split <;> exact ⟨rfl, rfl, rfl⟩
  | update id body uuids => cases body <;> exact ⟨rfl, rfl, rfl⟩
  | delete id => exact ⟨rfl, rfl, rfl⟩
  | stop => exact ⟨rfl, rfl, rfl⟩

theorem submits_start (parses : String → Bool) (r : Request)
    (h : ∀ id v, Request.submits r id v → V id v) : Submits V (start parses r) := by
  cases r with
  | create body uuids =>
    cases body with
    | none => trivial
    | some rule =>
      simp only [start, create]
      split_ifs
      · trivial
      · split
        · trivial
        · split
          · trivial
          · exact h _ _ ⟨rfl, rfl⟩
  | update id body uuids =>
    cases body with
    | none => trivial
    | some rule => exact h _ _ ⟨rfl, rfl⟩
  | delete id => trivial
  | stop => trivial

theorem apart_of_idle {r : Proc} (hw : writes q = none) (hr : reads q = []) :
    Apart r q ∧ Apart q r := by
  constructor
  · intro id hid
    rw [hw, hr]
    exact ⟨nofun, List.not_mem_nil⟩
  · intro id hid
    rw [hw] at hid
    cases hid

/-- The mover stays apart from the others. -/
theorem apart_of_step {c : State} {i j : ℕ} {r : Proc} (hs : step a c.shared p = some (s', q))
    (hapart : Pairs Apart c.procs) (halone : Alone c p) (hi : c.procs[i]? = some p) (hji : j ≠ i)
    (hj : c.procs[j]? = some r) : Apart q r ∧ Apart r q := by
  have hpr := hapart i j p r hji.symm hi hj
  have hrp := hapart j i r p hji hj hi
  have hr := List.mem_of_getElem? hj
  constructor
  · intro id hid
    rcases writing_of_step hs hid with hp | hbegin
    · exact hpr id hp
    · exact halone.1 id hbegin r hr
  · intro id hid
    constructor
    · intro hq
      rcases writing_of_step hs hq with hp | hbegin
      · exact (hrp id hid).1 hp
      · exact (halone.1 id hbegin r hr).1 hid
    · intro hq
      rcases reading_of_step hs hq with hp | hbegin
      · exact (hrp id hid).2 hp
      · exact halone.2 id hbegin r hr hid

/-- The mover keeps what holds of it, and where it is through its rule is settled. -/
theorem mover_step (hs : step a s p = some (s', q)) (hkeys : ForeignKeys s.db) (hp : Sound V s.db p)
    (hthrough : GoesThrough a s.db p)
    (hwrite : ∀ id, beginsWrite p = some id → Settled V s.db id)
    (hread : ∀ id ∈ beginsRead s.db p, Settled V s.db id) :
    Sound V s'.db q ∧
      ∀ id, beginsWrite p = some id ∨ writes p = some id →
        Settled V s'.db id ∨ writes q = some id := by
  cases hwrites : p.writes with
  | true => exact writer_step hs hkeys hp hthrough hwrites hwrite
  | false =>
    rw [db_of_step hs hwrites]
    refine ⟨reader_step hs hp hwrites hread, ?_⟩
    rintro id (hid | hid)
    · rw [beginsWrite_eq_none hwrites] at hid
      cases hid
    · rw [writes_eq_none hwrites] at hid
      cases hid

/-- The others are at other rules than the mover writes to, which it leaves alone. -/
theorem sound_of_others {c : State} {i j : ℕ} {r : Proc} (hs : step a c.shared p = some (s', q))
    (hapart : Pairs Apart c.procs) (halone : Alone c p) (hi : c.procs[i]? = some p) (hji : j ≠ i)
    (hj : c.procs[j]? = some r) (hr : Sound V c.shared.db r) : Sound V s'.db r := by
  have hpr := hapart i j p r hji.symm hi hj
  refine hr.congr fun id hat => stored_of_step hs ?_ ?_
  · intro hbegin
    obtain ⟨hw, hread⟩ := halone.1 id hbegin r (List.mem_of_getElem? hj)
    exact hat.elim hw hread
  · intro hwrite
    obtain ⟨hw, hread⟩ := hpr id hwrite
    exact hat.elim hw hread

/-- After the step the rule is settled, or some process writes to it. -/
theorem settled_of_step {c : State} {i : ℕ} (hs : step a c.shared p = some (s', q))
    (hi : c.procs[i]? = some p)
    (h : Settled V c.shared.db id ∨ ∃ r ∈ c.procs, writes r = some id)
    (hleft : beginsWrite p = some id ∨ writes p = some id →
      Settled V s'.db id ∨ writes q = some id) :
    Settled V s'.db id ∨ ∃ r ∈ c.procs.set i q, writes r = some id := by
  by_cases hat : beginsWrite p = some id ∨ writes p = some id
  · exact (hleft hat).imp_right fun hq => ⟨q, mem_set_self hi, hq⟩
  · obtain ⟨hb, hw⟩ := not_or.mp hat
    rcases h with hsettled | hwriter
    · left
      unfold Settled
      rw [stored_of_step hs hb hw]
      exact hsettled
    · exact .inr ((exists_set hi hwriter).resolve_left hw)

theorem exec_serialized {parses : String → Bool} (c : State) (act : Action) (h : Serialized V c)
    (hact : Serial c act ∧ ∀ r, act = .spawn r → ∀ id v, Request.submits r id v → V id v) :
    Serialized V ((machine parses).exec c act) := by
  rcases (machine parses).exec_cases c act with ⟨r, hr, he⟩ | ⟨i, a, p, s', q, rfl, hi, hs, he⟩ | he
  · rw [he]
    obtain ⟨hw, hread, hsn⟩ := start_idle parses r
    have hreads : reads (start parses r) = [] := by rw [reads, hread, List.map_nil]
    refine ⟨h.keys, fun id => ?_, fun p hp => ?_, h.apart.spawn fun _ _ => apart_of_idle hw hreads⟩
    · exact (h.settled id).imp_right fun ⟨p, hp, hid⟩ => ⟨p, List.mem_append_left _ hp, hid⟩
    · rcases List.mem_append.mp hp with hp | hp
      · exact h.sound p hp
      · rw [List.mem_singleton.mp hp]
        exact sound_of_idle hw hread hsn (submits_start parses r (hact.2 r hr))
  · rw [he]
    obtain ⟨halone, hthrough⟩ := hact.1 p hi
    have hfree : ∀ id, (∀ r ∈ c.procs, writes r ≠ some id) → Settled V c.shared.db id := by
      intro id hno
      exact (h.settled id).resolve_right fun ⟨r, hr, hid⟩ => hno r hr hid
    obtain ⟨hsound, hleft⟩ := mover_step hs h.keys (h.sound p (List.mem_of_getElem? hi)) hthrough
      (fun id hid => hfree id fun r hr => (halone.1 id hid r hr).1)
      (fun id hid => hfree id (halone.2 id hid))
    refine ⟨keys_of_step hs h.keys, fun id => ?_, fun r hr => ?_, ?_⟩
    · exact settled_of_step hs hi (h.settled id) (hleft id)
    · obtain ⟨j, hj⟩ := List.mem_iff_getElem?.mp hr
      by_cases hji : j = i
      · obtain rfl : q = r := by
          rw [hji, List.getElem?_set_self (List.getElem?_eq_some_iff.mp hi).choose] at hj
          exact Option.some.inj hj
        exact hsound
      · have hj' : c.procs[j]? = some r := by
          rw [← hj, List.getElem?_set_ne (Ne.symm hji)]
        exact sound_of_others hs h.apart halone hi hji hj' (h.sound r (List.mem_of_getElem? hj'))
    · exact h.apart.set fun j r hji hj => apart_of_step hs h.apart halone hi hji hj
  · rw [he]
    exact h

theorem serialized_boot (hkeys : ForeignKeys db) (hV : ∀ id v, stored db id = some v → V id v) :
    Serialized V (boot db) := by
  have hdb : (boot db).shared.db = db := startEnabled_db _ _
  constructor
  · rw [hdb]
    exact hkeys
  · intro id
    left
    rw [hdb]
    intro r hr
    refine ⟨r, hV r.id r ?_, shows_refl r⟩
    rw [id_of_stored hr]
    exact hr
  · intro p hp
    rw [List.mem_singleton.mp hp]
    exact sound_of_idle rfl rfl rfl trivial
  · intro i j p q hij hi hj
    obtain ⟨hi, -⟩ := List.getElem?_eq_some_iff.mp hi
    obtain ⟨hj, -⟩ := List.getElem?_eq_some_iff.mp hj
    have hlen : (boot db).procs.length = 1 := rfl
    omega

/-- In a run whose writes and reads of a rule do not overlap and whose statements go through,
every rule that a reader returns is a version that was submitted, with both of its lists. -/
theorem snapshots_whole (parses : String → Bool) (db : ForwardTables) (hkeys : ForeignKeys db)
    (as : List Action) (has : (machine parses).Along Serial (boot db) as) :
    ∀ p ∈ ((machine parses).run (boot db) as).procs, ∀ r ∈ snapshots p,
      Whole (Submitted db as) r ∧
      ((∀ v, Submitted db as r.id v → v.whitelist ≠ []) → r.whitelist ≠ []) := by
  have hrequests : (machine parses).Along (fun _ act => ∀ r, act = .spawn r →
      ∀ id v, Request.submits r id v → Submitted db as id v) (boot db) as := by
    refine Machine.along_of_forall fun act hact r hr id v hv => .inr ⟨r, ?_, hv⟩
    rw [← hr]
    exact hact
  have hend : Serialized (Submitted db as) ((machine parses).run (boot db) as) :=
    Machine.run_invariant exec_serialized (serialized_boot hkeys fun _ _ => .inl)
      (has.and hrequests)
  intro p hp r hr
  have hwhole := (hend.sound p hp).returned r hr
  refine ⟨hwhole, fun hne => ?_⟩
  obtain ⟨v, hv, hshows⟩ := hwhole
  intro hempty
  have hnil : Entries v.whitelist [] := hempty ▸ hshows.whitelist
  exact hne v hv (List.forall₂_nil_right_iff.mp hnil)

/-! ## One update and the watchdog -/

/-- An update that puts another address on the whitelist. -/
def moved : ForwardRule := ⟨RuleLoading.ssh, [⟨"", "10.0.0.7"⟩], []⟩

/-- The update to the end of its load. -/
def updateAlone : List Action :=
  .spawn (.update "f1" (some moved) ["w2"]) :: List.replicate 9 (.run 1 .go)

theorem update_seen_whole :
    (((machine fun _ => true).run (boot RuleLoading.oneRule) updateAlone).procs.map snapshots =
      [[], [⟨RuleLoading.ssh, [⟨"w2", "10.0.0.7"⟩], []⟩]]) ∧
    ∀ p ∈ ((machine fun _ => true).run (boot RuleLoading.oneRule) updateAlone).procs,
      ∀ r ∈ snapshots p, Whole (Submitted RuleLoading.oneRule updateAlone) r ∧
        ((∀ v, Submitted RuleLoading.oneRule updateAlone r.id v → v.whitelist ≠ []) →
          r.whitelist ≠ []) :=
  ⟨rfl, snapshots_whole _ _ (by decide) _ (by decide)⟩

/-- The watchdog reads all rules between the deletion of the whitelist and its insertion. -/
def readBetween : List Action :=
  [.spawn (.update "f1" (some moved) ["w2"]), .run 1 .go, .run 1 .go, .run 0 .go, .run 0 .go,
    .run 0 .go, .run 0 .go, .run 0 .go]

theorem whitelists_submitted {v : ForwardRule}
    (h : Submitted RuleLoading.oneRule readBetween "f1" v) : v.whitelist ≠ [] := by
  rcases h with hstored | ⟨r, hr, hv⟩
  · obtain rfl : _ = v := Option.some.inj hstored
    decide
  · simp only [readBetween, List.mem_cons, Act.spawn.injEq, reduceCtorEq, List.not_mem_nil,
      or_false] at hr
    subst hr
    obtain ⟨-, rfl⟩ := hv
    decide

/-- It gets the rule with no whitelist, though none of its versions was without. -/
theorem update_seen_open :
    ∃ p ∈ ((machine fun _ => true).run (boot RuleLoading.oneRule) readBetween).procs,
      ∃ r ∈ snapshots p, r.whitelist = [] ∧
        (∀ v, Submitted RuleLoading.oneRule readBetween r.id v → v.whitelist ≠ []) ∧
        ¬Whole (Submitted RuleLoading.oneRule readBetween) r := by
  refine ⟨.tickLock [⟨RuleLoading.ssh, [], []⟩], .head _, ⟨RuleLoading.ssh, [], []⟩, .head _, rfl,
    fun _ => whitelists_submitted, ?_⟩
  rintro ⟨v, hv, hshows⟩
  exact whitelists_submitted hv (List.forall₂_nil_right_iff.mp hshows.whitelist)

end NetBerth.RuleSnapshots
