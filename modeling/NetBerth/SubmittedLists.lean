import NetBerth.StoredRules

/-!
# What of a submitted rule is stored

The handlers delete the entries of a rule's lists and insert the submitted ones one by one, each
under the id that the request gives it or else under a new one, and look at no error of these
statements. An entry is lost where its id is taken, in the table by another rule or in the
request by an earlier entry, where the rule has no row, and where the statement fails; an entry
of old stays where the deletion fails.

So a list is stored exactly as submitted when what is lost of it has the values of what stays.
-/
namespace NetBerth.SubmittedLists
open Interleaving SqlTable Rules ForwardEngine StoredRules

/-- The steps of a process with no other in between, each with its choice. -/
def solo {σ π ρ α : Type*} (M : Machine σ π ρ α) : List α → σ → π → Option (σ × π)
  | [], s, p => some (s, p)
  | a :: as, s, p => (M.step a s p).bind fun t => solo M as t.1 t.2

/-- A process that ends as another one takes a step. -/
theorem solo_ne {σ π ρ α : Type*} {M : Machine σ π ρ α} {as : List α} {s s' : σ} {p q : π}
    (h : solo M as s p = some (s', q)) (hne : p ≠ q) :
    ∃ a rest t r, as = a :: rest ∧ M.step a s p = some (t, r) ∧
      solo M rest t r = some (s', q) := by
  cases as with
  | nil =>
    cases h
    exact (hne rfl).elim
  | cons a rest =>
    obtain ⟨⟨t, r⟩, hstep, hrest⟩ := Option.bind_eq_some_iff.mp h
    exact ⟨a, rest, t, r, rfl, hstep, hrest⟩

/-! ## One list -/

/-- An `INSERT` for a list; the rule may have no row. -/
def insertOne (known : Bool) (id : ID) (t : Table ListRow) : ACLEntry × Choice → Table ListRow
  | (e, a) => if a = .fail then t else if known then t.insertIgnore ⟨e.id, id, e.value⟩ else t

def insertAll (known : Bool) (id : ID) (t : Table ListRow) (es : List (ACLEntry × Choice)) :
    Table ListRow := es.foldl (insertOne known id) t

/-- The entries that are not inserted, when some ids are taken. -/
def refused (known : Bool) : List ID → List (ACLEntry × Choice) → List ACLEntry
  | _, [] => []
  | taken, (e, a) :: es =>
    if a ≠ .fail ∧ known = true ∧ e.id ∉ taken then refused known (taken ++ [e.id]) es
    else e :: refused known taken es

def idsOf (t : Table ListRow) : List ID := t.rows.map ListRow.id

theorem insertOne_cases (known : Bool) (id : ID) (t : Table ListRow) (e : ACLEntry) (a : Choice) :
    (a ≠ .fail ∧ known = true ∧ e.id ∉ idsOf t) ∧
        idsOf (insertOne known id t (e, a)) = idsOf t ++ [e.id] ∧
        valuesOf (insertOne known id t (e, a)) id = valuesOf t id ++ [e.value] ∨
      ¬(a ≠ .fail ∧ known = true ∧ e.id ∉ idsOf t) ∧ insertOne known id t (e, a) = t := by
  rw [insertOne]
  by_cases hfail : a = .fail
  · exact .inr ⟨fun h => h.1 hfail, if_pos hfail⟩
  · rw [if_neg hfail]
    cases known with
    | false => exact .inr ⟨fun h => Bool.false_ne_true h.2.1, rfl⟩
    | true =>
      rw [if_pos rfl, Table.insertIgnore]
      cases hins : t.insert ⟨e.id, id, e.value⟩ with
      | none =>
        have htaken : e.id ∈ idsOf t := Table.insert_eq_none.mp hins
        exact .inr ⟨fun h => h.2.2 htaken, rfl⟩
      | some t' =>
        have hfree : e.id ∉ idsOf t := by
          intro htaken
          have hnone : t.insert ⟨e.id, id, e.value⟩ = none := Table.insert_eq_none.mpr htaken
          rw [hins] at hnone
          contradiction
        refine .inl ⟨⟨hfail, rfl, hfree⟩, ?_, ?_⟩
        · simp [idsOf, Table.rows_insert hins]
        · simp [valuesOf, Table.selectWhere, Table.rows_insert hins]

/-- What is loaded and what is refused are together what there was and what is submitted. -/
theorem valuesOf_insertAll (known : Bool) (id : ID) (t : Table ListRow)
    (es : List (ACLEntry × Choice)) :
    (valuesOf (insertAll known id t es) id ++
        (refused known (idsOf t) es).map ACLEntry.value).Perm
      (valuesOf t id ++ es.map fun x => x.1.value) := by
  induction es generalizing t with
  | nil => simp [insertAll, refused]
  | cons x es ih =>
    obtain ⟨e, a⟩ := x
    have hrest := ih (insertOne known id t (e, a))
    rw [insertAll, List.foldl_cons, ← insertAll, refused]
    obtain ⟨hin, hids, hvalues⟩ | ⟨hout, hsame⟩ := insertOne_cases known id t e a
    · rw [hids, hvalues, List.append_assoc, List.singleton_append] at hrest
      rwa [if_pos hin]
    · rw [hsame] at hrest ⊢
      rw [if_neg hout, List.map_cons, List.map_cons]
      exact (List.perm_middle.trans (hrest.cons e.value)).trans List.perm_middle.symm

/-- The list is as submitted exactly when what is refused has the values of what there was. -/
theorem valuesOf_insertAll_iff (known : Bool) (id : ID) (t : Table ListRow)
    (es : List (ACLEntry × Choice)) :
    (valuesOf (insertAll known id t es) id).Perm (es.map fun x => x.1.value) ↔
      ((refused known (idsOf t) es).map ACLEntry.value).Perm (valuesOf t id) := by
  have hall := (valuesOf_insertAll known id t es).trans List.perm_append_comm
  constructor
  · intro h
    exact (List.perm_append_left_iff _).mp ((h.symm.append_right _).trans hall)
  · intro h
    exact (List.perm_append_right_iff _).mp (hall.trans (h.symm.append_left _))

/-- Nothing is lost of a list exactly when every statement for it goes through, the rule has a
row unless the list is empty, and the ids are distinct and free. -/
theorem refused_eq_nil_iff {known : Bool} {taken : List ID} (htaken : taken.Nodup)
    (es : List (ACLEntry × Choice)) :
    refused known taken es = [] ↔
      (∀ x ∈ es, x.2 ≠ .fail ∧ known = true) ∧ (taken ++ es.map fun x => x.1.id).Nodup := by
  induction es generalizing taken with
  | nil => simpa [refused] using htaken
  | cons x es ih =>
    obtain ⟨e, a⟩ := x
    rw [refused]
    split_ifs with hin
    · have htaken' : (taken ++ [e.id]).Nodup := by
        simpa [List.nodup_append, htaken] using fun id hid => (ne_of_mem_of_not_mem hid hin.2.2)
      rw [ih htaken', List.append_assoc, List.singleton_append]
      simp [hin.1, hin.2.1]
    · refine iff_of_false not_false fun h => hin ?_
      obtain ⟨hfail, hknown⟩ := h.1 (e, a) List.mem_cons_self
      have hfree : e.id ∉ taken := by
        intro hmem
        exact (List.nodup_append.mp h.2).2.2 e.id hmem e.id (by simp) rfl
      exact ⟨hfail, hknown, hfree⟩

/-! ## The statements of a request -/

/-- The `INSERT`s for one of the lists, when the entries of all of them and the choices for them
come one after the other. -/
def insertsFor {τ : Type} [DecidableEq τ] (l : τ) :
    List (τ × ACLEntry) → List ID → List Choice → List (ACLEntry × Choice)
  | [], _, _ => []
  | (l', e) :: es, uuids, as =>
    let rest := insertsFor l es (nameEntry e uuids).2 as.tail
    if l' = l then ((nameEntry e uuids).1, as.headD .go) :: rest else rest

theorem value_nameEntry (e : ACLEntry) (uuids : List ID) :
    (nameEntry e uuids).1.value = e.value := by
  unfold nameEntry
  split_ifs <;> rfl

/-- The values are those of the entries for the list. -/
theorem values_insertsFor {τ : Type} [DecidableEq τ] (l : τ) (es : List (τ × ACLEntry))
    (uuids : List ID) (as : List Choice) :
    (insertsFor l es uuids as).map (fun x => x.1.value) =
      (es.filter fun x => x.1 = l).map fun x => x.2.value := by
  induction es generalizing uuids as with
  | nil => rfl
  | cons x es ih =>
    obtain ⟨l', e⟩ := x
    by_cases hl : l' = l
    · simp [insertsFor, hl, ih, value_nameEntry]
    · simp [insertsFor, hl, ih]

/-- The `DELETE` for a list goes through. -/
def cleared {τ : Type} [DecidableEq τ] (l : τ) (tables : List τ) (as : List Choice) : Bool :=
  (tables.zip as).any fun x => x.1 = l ∧ x.2 ≠ .fail

/-! ## Forward rules -/

inductive ForwardList where
  | whitelist
  | blacklist
  deriving DecidableEq, Repr

def ForwardList.table (db : ForwardTables) : ForwardList → Table ListRow
  | .whitelist => db.whitelist
  | .blacklist => db.blacklist

/-- The entries of a body in the order they are inserted in. -/
def forwardEntries (lists : ForwardLists) : List (ForwardList × ACLEntry) :=
  lists.whitelist.map (Prod.mk ForwardList.whitelist) ++
    lists.blacklist.map (Prod.mk ForwardList.blacklist)

/-- The response is sent; what is left is to load the rule and to hand it to the engine. -/
def Answered : Proc → Prop
  | .loadRow _ | .loadWhitelist _ | .loadBlacklist _ _ | .reload _ | .finished => True
  | _ => False

variable {parses : String → Bool} {as : List Choice} {s s' : Store} {p q : Proc}

theorem step_answered {a : Choice} (hp : Answered p) (h : step a s p = some (s', q)) :
    Answered q ∧ s'.db = s.db := by
  cases p with
  | loadRow id =>
    rw [step] at h
    split at h <;> cases h <;> exact ⟨trivial, rfl⟩
  | loadWhitelist row =>
    cases h
    exact ⟨trivial, rfl⟩
  | loadBlacklist row whitelist =>
    cases h
    exact ⟨trivial, rfl⟩
  | reload rule =>
    rw [step] at h
    split_ifs at h
    cases h
    refine ⟨trivial, ?_⟩
    unfold reload startRule removeInstance
    split_ifs <;> rfl
  | finished => contradiction
  | _ => cases hp

/-- After the response a request writes nothing. -/
theorem solo_answered (hp : Answered p) (h : solo (machine parses) as s p = some (s', q)) :
    s'.db = s.db := by
  induction as generalizing s p with
  | nil =>
    cases h
    rfl
  | cons a as ih =>
    obtain ⟨⟨t, r⟩, hstep, hrest⟩ := Option.bind_eq_some_iff.mp h
    obtain ⟨hr, hdb⟩ := step_answered hp hstep
    exact (ih hr hrest).trans hdb

/-- A process that is not answered yet takes a step. -/
theorem solo_step (h : solo (machine parses) as s p = some (s', q)) (hq : Answered q)
    (hp : ¬Answered p) : ∃ a rest t r, as = a :: rest ∧ step a s p = some (t, r) ∧
      solo (machine parses) rest t r = some (s', q) := by
  have hne : p ≠ q := by
    rintro rfl
    exact hp hq
  exact solo_ne h hne

/-- An `INSERT` of a forward rule is one into its list. -/
theorem table_write (a : Choice) (id : ID) (e : ACLEntry) (s : Store) :
    (s.write a (saveWhitelist id e)).db =
      { s.db with
        whitelist := insertOne (s.db.rules.select id).isSome id s.db.whitelist (e, a) } ∧
    (s.write a (saveBlacklist id e)).db =
      { s.db with
        blacklist := insertOne (s.db.rules.select id).isSome id s.db.blacklist (e, a) } := by
  unfold Store.write insertOne
  by_cases hfail : a = .fail
  · simp [hfail]
  · simp [hfail, saveWhitelist, saveBlacklist, insertEntry]

theorem solo_saveBlacklist {id : ID} {entries : List ACLEntry} {uuids : List ID} (hq : Answered q)
    (h : solo (machine parses) as s (.saveBlacklist id entries uuids) = some (s', q)) :
    ∀ l : ForwardList, l.table s'.db = insertAll (s.db.rules.select id).isSome id (l.table s.db)
      (insertsFor l (entries.map (Prod.mk ForwardList.blacklist)) uuids as) := by
  induction entries generalizing as s uuids with
  | nil =>
    obtain ⟨a, rest, t, r, rfl, hstep, hrest⟩ := solo_step h hq not_false
    cases hstep
    have hload : Answered (.loadRow id) := trivial
    have hdb : s'.db = s.db := solo_answered hload hrest
    intro l
    rw [hdb]
    rfl
  | cons e entries ih =>
    obtain ⟨a, rest, t, r, rfl, hstep, hrest⟩ := solo_step h hq not_false
    cases hstep
    intro l
    rw [ih hrest l, (table_write a id _ s).2]
    cases l <;> rfl

theorem solo_saveWhitelist {id : ID} {lists : ForwardLists} {uuids : List ID} (hq : Answered q)
    (h : solo (machine parses) as s (.saveWhitelist id lists uuids) = some (s', q)) :
    ∀ l : ForwardList, l.table s'.db = insertAll (s.db.rules.select id).isSome id (l.table s.db)
      (insertsFor l (forwardEntries lists) uuids (as.eraseIdx lists.whitelist.length)) := by
  obtain ⟨whitelist, blacklist⟩ := lists
  induction whitelist generalizing as s uuids with
  | nil =>
    obtain ⟨a, rest, t, r, rfl, hstep, hrest⟩ := solo_step h hq not_false
    cases hstep
    exact solo_saveBlacklist hq hrest
  | cons e whitelist ih =>
    obtain ⟨a, rest, t, r, rfl, hstep, hrest⟩ := solo_step h hq not_false
    cases hstep
    intro l
    rw [ih hrest l, (table_write a id _ s).1]
    cases l <;> rfl

/-! ## Proxy rules -/

def proxyTable (db : ProxyTables) : ListTable → Table ListRow
  | .domains => db.domains
  | .ipWhitelist => db.ipWhitelist
  | .ipBlacklist => db.ipBlacklist
  | .uaWhitelist => db.uaWhitelist
  | .uaBlacklist => db.uaBlacklist

section
variable {parseURL : String → Option URL} {db db' : ProxyTables} {r : ProxyProc}

theorem proxyTable_modify (f : Table ListRow → Table ListRow) (db : ProxyTables)
    (l l' : ListTable) :
    proxyTable (l.modify f db) l' = if l = l' then f (proxyTable db l') else proxyTable db l' := by
  cases l <;> cases l' <;> rfl

theorem rules_modify (f : Table ListRow → Table ListRow) (db : ProxyTables) (l : ListTable) :
    (l.modify f db).rules = db.rules := by
  cases l <;> rfl

theorem rules_writeProxy_insertValue (a : Choice) (id : ID) (l : ListTable) (e : ACLEntry)
    (db : ProxyTables) : (writeProxy a (insertValue id l e) db).rules = db.rules := by
  unfold writeProxy insertValue
  split_ifs
  · rfl
  · exact rules_modify _ db l
  · rfl

/-- An `INSERT` of a proxy rule is one into its list. -/
theorem proxyTable_insertValue (a : Choice) (id : ID) (l : ListTable) (e : ACLEntry)
    (db : ProxyTables) (l' : ListTable) :
    proxyTable (writeProxy a (insertValue id l e) db) l' =
      if l = l' then insertOne (db.rules.select id).isSome id (proxyTable db l') (e, a)
      else proxyTable db l' := by
  unfold writeProxy insertValue insertOne
  by_cases hfail : a = .fail
  · simp [hfail]
  · cases hknown : (db.rules.select id).isSome with
    | false => simp [hfail]
    | true => simp [hfail, proxyTable_modify]

theorem solo_save {id : ID} {entries : List (ListTable × ACLEntry)} {uuids : List ID}
    (h : solo (proxyMachine parseURL) as db (.save id entries uuids) = some (db', .finished)) :
    ∀ l : ListTable, proxyTable db' l = insertAll (db.rules.select id).isSome id (proxyTable db l)
      (insertsFor l entries uuids as) := by
  induction entries generalizing as db uuids with
  | nil =>
    obtain ⟨a, rest, t, p, rfl, hstep, hrest⟩ := solo_ne h nofun
    cases hstep
    cases rest with
    | nil =>
      cases hrest
      exact fun _ => rfl
    | cons b rest => cases hrest
  | cons x entries ih =>
    obtain ⟨l', e⟩ := x
    obtain ⟨a, rest, t, p, rfl, hstep, hrest⟩ := solo_ne h nofun
    cases hstep
    have hsave : solo (proxyMachine parseURL) rest
        (writeProxy a (insertValue id l' (nameEntry e uuids).1) db)
        (.save id entries (nameEntry e uuids).2) = some (db', .finished) := hrest
    intro l
    rw [ih hsave l, rules_writeProxy_insertValue, proxyTable_insertValue]
    by_cases hl : l' = l
    · simp [insertsFor, insertAll, hl]
    · simp [insertsFor, hl]

theorem rules_writeProxy_clear (a : Choice) (id : ID) (l : ListTable) (db : ProxyTables) :
    (writeProxy a (fun db => l.modify (clearList id) db) db).rules = db.rules := by
  unfold writeProxy
  split_ifs
  · rfl
  · exact rules_modify _ db l

theorem proxyTable_clear (a : Choice) (id : ID) (l : ListTable) (db : ProxyTables)
    (l' : ListTable) :
    proxyTable (writeProxy a (fun db => l.modify (clearList id) db) db) l' =
      if l = l' ∧ a ≠ .fail then clearList id (proxyTable db l') else proxyTable db l' := by
  unfold writeProxy
  by_cases hfail : a = .fail
  · simp [hfail]
  · simp [hfail, proxyTable_modify]

theorem clearList_clearList (id : ID) (t : Table ListRow) :
    clearList id (clearList id t) = clearList id t := by
  simp [clearList, Table.delete]

theorem solo_clear {id : ID} {tables : List ListTable} {lists : ProxyLists} {uuids : List ID}
    (h : solo (proxyMachine parseURL) as db (.clear id tables lists uuids) = some (db', .finished)) :
    ∀ l : ListTable, proxyTable db' l = insertAll (db.rules.select id).isSome id
      (if cleared l tables as then clearList id (proxyTable db l) else proxyTable db l)
      (insertsFor l (entriesToSave lists) uuids (as.drop (tables.length + 1))) := by
  induction tables generalizing as db with
  | nil =>
    obtain ⟨a, rest, t, p, rfl, hstep, hrest⟩ := solo_ne h nofun
    cases hstep
    exact solo_save hrest
  | cons l' tables ih =>
    obtain ⟨a, rest, t, p, rfl, hstep, hrest⟩ := solo_ne h nofun
    cases hstep
    intro l
    rw [ih hrest l, rules_writeProxy_clear, proxyTable_clear]
    have hcleared : cleared l (l' :: tables) (a :: rest) =
        (decide (l' = l ∧ a ≠ .fail) || cleared l tables rest) := by
      rw [cleared, List.zip_cons_cons, List.any_cons]
      rfl
    rw [hcleared]
    by_cases hl : l' = l ∧ a ≠ .fail
    · simp [hl, clearList_clearList]
    · simp [hl]

end

/-! ## Submissions -/

/-- A `Create`, or an `Update` of a target, with the body and the new ids to come. -/
inductive Submission where
  | forward (target : Option ID) (rule : ForwardRule) (uuids : List ID)
  | proxy (target : Option ID) (rule : ProxyRule) (uuids : List ID)
  deriving DecidableEq, Repr

namespace Submission

def request : Submission → Request ⊕ ProxyRequest
  | .forward none rule uuids => .inl (.create (some rule) uuids)
  | .forward (some id) rule uuids => .inl (.update id (some rule) uuids)
  | .proxy none rule uuids => .inr (.create (some rule) uuids)
  | .proxy (some id) rule uuids => .inr (.update id (some rule) uuids)

def ruleID : Submission → ID
  | .forward target _ uuids | .proxy target _ uuids => target.getD (uuids.headD "")

/-- The lists that are loaded for the rule have the submitted values, in any order. -/
def Stored (s : Store × ProxyTables) : Submission → Prop
  | .forward target rule uuids =>
    let lists := s.1.db.lists (ruleID (.forward target rule uuids))
    (lists.whitelist.map ACLEntry.value).Perm (rule.whitelist.map ACLEntry.value) ∧
      (lists.blacklist.map ACLEntry.value).Perm (rule.blacklist.map ACLEntry.value)
  | .proxy target rule uuids =>
    let lists := s.2.lists (ruleID (.proxy target rule uuids))
    (lists.ipWhitelist.map ACLEntry.value).Perm (rule.ipWhitelist.map ACLEntry.value) ∧
      (lists.ipBlacklist.map ACLEntry.value).Perm (rule.ipBlacklist.map ACLEntry.value) ∧
      lists.uaWhitelist.Perm rule.uaWhitelist ∧ lists.uaBlacklist.Perm rule.uaBlacklist

end Submission

/-- The response is a success. -/
def Succeeded : Proc ⊕ ProxyProc → Prop
  | .inl p => Answered p
  | .inr r => r = .finished

/-- What is refused of a list has the values of what is left of the list before. -/
def Balanced (known : Bool) (id : ID) (t : Table ListRow) (es : List (ACLEntry × Choice)) : Prop :=
  ((refused known (idsOf t) es).map ACLEntry.value).Perm (valuesOf t id)

/-- The rows of a list that the deletion leaves. -/
def leftOver {τ : Type} [DecidableEq τ] (l : τ) (tables : List τ) (as : List Choice) (id : ID)
    (t : Table ListRow) : Table ListRow := if cleared l tables as then clearList id t else t

/-- A `Create` deletes nothing and its rule has a row. The first choice is for the row of the
rule, and in a forward rule one lies between the two lists. -/
def Submission.Kept (s : Store × ProxyTables) (as : List Choice) : Submission → Prop
  | .forward none rule uuids => ∀ l : ForwardList,
      Balanced true (uuids.headD "") (l.table s.1.db)
        (insertsFor l (forwardEntries rule.toForwardLists) uuids.tail
          ((as.drop 1).eraseIdx rule.whitelist.length))
  | .forward (some id) rule uuids => ∀ l : ForwardList,
      Balanced (s.1.db.rules.select id).isSome id
        (leftOver l [.whitelist, .blacklist] (as.drop 1) id (l.table s.1.db))
        (insertsFor l (forwardEntries rule.toForwardLists) uuids
          ((as.drop 3).eraseIdx rule.whitelist.length))
  | .proxy none rule uuids => ∀ l ∈ listTables.tail,
      Balanced true (uuids.headD "") (proxyTable s.2 l)
        (insertsFor l (entriesToSave rule.toProxyLists) uuids.tail (as.drop 1))
  | .proxy (some id) rule uuids => ∀ l ∈ listTables.tail,
      Balanced (s.2.rules.select id).isSome id
        (leftOver l listTables (as.drop 1) id (proxyTable s.2 l))
        (insertsFor l (entriesToSave rule.toProxyLists) uuids (as.drop 7))

theorem valuesOf_eq (t : Table ListRow) (id : ID) :
    (entriesOf t id).map ACLEntry.value = valuesOf t id := by
  simp [entriesOf, valuesOf, Function.comp_def]

/-- An error response is no success. -/
theorem solo_refused {status : ℕ} {message : String} (hq : Answered q)
    (h : solo (machine parses) as s (.refused status message) = some (s', q)) : False := by
  obtain ⟨a, rest, t, r, rfl, hstep, hrest⟩ := solo_step h hq not_false
  cases hstep

theorem solo_createInsert {rule : ForwardRule} {uuids : List ID} (hq : Answered q)
    (h : solo (machine parses) as s (.createInsert rule uuids) = some (s', q)) :
    ∀ l : ForwardList, l.table s'.db = insertAll true rule.id (l.table s.db)
      (insertsFor l (forwardEntries rule.toForwardLists) uuids
        ((as.drop 1).eraseIdx rule.whitelist.length)) := by
  obtain ⟨a, rest, t, r, rfl, hstep, hrest⟩ := solo_step h hq not_false
  rw [step] at hstep
  split at hstep
  · cases hstep
    exact (solo_refused hq hrest).elim
  · rename_i rules hrules
    cases hstep
    have hrow : s.db.rules.insert rule.toForwardRow = some rules := by
      split_ifs at hrules
      exact hrules
    have hknown : (rules.select rule.id).isSome = true := by
      have hkey : Keyed.key rule.toForwardRow = rule.id := rfl
      rw [Table.select_insert hrow, if_pos hkey, Option.isSome_some]
    intro l
    rw [solo_saveWhitelist hq hrest l, hknown]
    cases l <;> rfl

theorem forward_create {uuids : List ID} {rule : ForwardRule} (hq : Answered q)
    (h : solo (machine parses) as s (create parses (some rule) uuids) = some (s', q)) :
    ∀ l : ForwardList, l.table s'.db = insertAll true (uuids.headD "") (l.table s.db)
      (insertsFor l (forwardEntries rule.toForwardLists) uuids.tail
        ((as.drop 1).eraseIdx rule.whitelist.length)) := by
  simp only [create] at h
  split_ifs at h
  · exact (solo_refused hq h).elim
  · split at h
    · exact (solo_refused hq h).elim
    · split at h
      · exact (solo_refused hq h).elim
      · exact solo_createInsert hq h

/-- The two deletions of an update. -/
theorem clear_both (b c : Choice) (id : ID) (s : Store) :
    (((s.write b (clearWhitelist id)).write c (clearBlacklist id)).db.rules = s.db.rules) ∧
      ∀ (as : List Choice) (l : ForwardList),
        l.table ((s.write b (clearWhitelist id)).write c (clearBlacklist id)).db =
          leftOver l [.whitelist, .blacklist] (b :: c :: as) id (l.table s.db) := by
  unfold Store.write
  by_cases hb : b = .fail <;> by_cases hc : c = .fail
  all_goals
    refine ⟨by simp [hb, hc, clearWhitelist, clearBlacklist], fun as l => ?_⟩
    cases l <;> simp [hb, hc, clearWhitelist, clearBlacklist, leftOver, cleared, ForwardList.table,
      clearList]

theorem solo_updateExec {id : ID} {uuids : List ID} {rule : ForwardRule} (hq : Answered q)
    (h : solo (machine parses) as s (.updateExec id rule uuids) = some (s', q)) :
    ∀ l : ForwardList, l.table s'.db = insertAll (s.db.rules.select id).isSome id
      (leftOver l [.whitelist, .blacklist] (as.drop 1) id (l.table s.db))
      (insertsFor l (forwardEntries rule.toForwardLists) uuids
        ((as.drop 3).eraseIdx rule.whitelist.length)) := by
  obtain ⟨a, rest, t, r, rfl, hupdate, hclear⟩ := solo_step h hq not_false
  rw [step] at hupdate
  split_ifs at hupdate with hfail
  · cases hupdate
    exact (solo_refused hq hclear).elim
  · cases hupdate
    obtain ⟨b, rest, t, r, rfl, hwhite, hblack⟩ := solo_step hclear hq not_false
    cases hwhite
    obtain ⟨c, rest, t, r, rfl, hlast, hsave⟩ := solo_step hblack hq not_false
    cases hlast
    intro l
    rw [solo_saveWhitelist hq hsave l, (clear_both b c id _).1, (clear_both b c id _).2 rest l]
    have hknown : ((updateRules rule.toForwardRow id s.db).rules.select id).isSome =
        (s.db.rules.select id).isSome := by
      rw [updateRules, Table.select_update, Option.isSome_map]
    rw [hknown]
    cases l <;> rfl

/-! ### The handlers of proxy rules -/

section
variable {parseURL : String → Option URL} {db db' : ProxyTables}

theorem solo_proxy_refused {status : ℕ} {message : String}
    (h : solo (proxyMachine parseURL) as db (.refused status message) = some (db', .finished)) :
    False := by
  obtain ⟨a, rest, t, r, rfl, hstep, hrest⟩ := solo_ne h nofun
  cases hstep

theorem proxy_createInsert {rule : ProxyRule} {uuids : List ID}
    (h : solo (proxyMachine parseURL) as db (.createInsert rule uuids) = some (db', .finished)) :
    ∀ l : ListTable, proxyTable db' l = insertAll true rule.id (proxyTable db l)
      (insertsFor l (entriesToSave rule.toProxyLists) uuids (as.drop 1)) := by
  obtain ⟨a, rest, t, r, rfl, hstep, hrest⟩ := solo_ne h nofun
  have hinsert : proxyStep a db (.createInsert rule uuids) = some (t, r) := hstep
  rw [proxyStep] at hinsert
  split at hinsert
  · cases hinsert
    exact (solo_proxy_refused hrest).elim
  · rename_i rules hrules
    cases hinsert
    have hrow : db.rules.insert rule.toProxyRow = some rules := by
      split_ifs at hrules
      exact hrules
    have hknown : (rules.select rule.id).isSome = true := by
      have hkey : Keyed.key rule.toProxyRow = rule.id := rfl
      rw [Table.select_insert hrow, if_pos hkey, Option.isSome_some]
    intro l
    rw [solo_save hrest l, hknown]
    cases l <;> rfl

theorem proxy_create {uuids : List ID} {rule : ProxyRule}
    (h : solo (proxyMachine parseURL) as db (proxyCreate parseURL (some rule) uuids) =
      some (db', .finished)) :
    ∀ l : ListTable, proxyTable db' l = insertAll true (uuids.headD "") (proxyTable db l)
      (insertsFor l (entriesToSave rule.toProxyLists) uuids.tail (as.drop 1)) := by
  simp only [proxyCreate] at h
  split at h
  · exact (solo_proxy_refused h).elim
  · split_ifs at h
    · exact (solo_proxy_refused h).elim
    · split at h
      · exact (solo_proxy_refused h).elim
      · split at h
        · exact (solo_proxy_refused h).elim
        · exact proxy_createInsert h

theorem proxy_updateExec {id : ID} {uuids : List ID} {rule : ProxyRule}
    (h : solo (proxyMachine parseURL) as db (.updateExec id rule uuids) = some (db', .finished)) :
    ∀ l : ListTable, proxyTable db' l = insertAll (db.rules.select id).isSome id
      (leftOver l listTables (as.drop 1) id (proxyTable db l))
      (insertsFor l (entriesToSave rule.toProxyLists) uuids (as.drop 7)) := by
  obtain ⟨a, rest, t, r, rfl, hstep, hrest⟩ := solo_ne h nofun
  have hupdate : proxyStep a db (.updateExec id rule uuids) = some (t, r) := hstep
  rw [proxyStep] at hupdate
  split_ifs at hupdate with hfail
  · cases hupdate
    exact (solo_proxy_refused hrest).elim
  · cases hupdate
    have hknown : ((updateProxyRules rule.toProxyRow id db).rules.select id).isSome =
        (db.rules.select id).isSome := by
      rw [updateProxyRules, Table.select_update, Option.isSome_map]
    intro l
    rw [solo_clear hrest l, hknown]
    cases l <;> rfl

end

/-! ## Every submission -/

section
variable {σ π ρ τ κ ξ α : Type*} {M : Machine σ π ρ α} {N : Machine τ κ ξ α} {as : List α}
  {s s' : σ × τ} {r : π ⊕ κ}

theorem solo_inl {p : π} (h : solo (M.both N) as s (.inl p) = some (s', r)) :
    ∃ q, r = .inl q ∧ solo M as s.1 p = some (s'.1, q) := by
  induction as generalizing s p with
  | nil =>
    cases h
    exact ⟨p, rfl, rfl⟩
  | cons a as ih =>
    obtain ⟨t, hstep, hrest⟩ := Option.bind_eq_some_iff.mp h
    obtain ⟨u, hu, rfl⟩ := Option.map_eq_some_iff.mp hstep
    obtain ⟨q, rfl, hq⟩ := ih hrest
    exact ⟨q, rfl, Option.bind_eq_some_iff.mpr ⟨u, hu, hq⟩⟩

theorem solo_inr {p : κ} (h : solo (M.both N) as s (.inr p) = some (s', r)) :
    ∃ q, r = .inr q ∧ solo N as s.2 p = some (s'.2, q) := by
  induction as generalizing s p with
  | nil =>
    cases h
    exact ⟨p, rfl, rfl⟩
  | cons a as ih =>
    obtain ⟨t, hstep, hrest⟩ := Option.bind_eq_some_iff.mp h
    obtain ⟨u, hu, rfl⟩ := Option.map_eq_some_iff.mp hstep
    obtain ⟨q, rfl, hq⟩ := ih hrest
    exact ⟨q, rfl, Option.bind_eq_some_iff.mpr ⟨u, hu, hq⟩⟩

end

/-- A list that was inserted into what the deletion left. -/
theorem perm_iff_balanced {τ : Type} [DecidableEq τ] {known : Bool} {id : ID} {t t' : Table ListRow}
    {l : τ} {entries : List (τ × ACLEntry)} {uuids : List ID} {as : List Choice}
    {submitted : List String}
    (htable : t' = insertAll known id t (insertsFor l entries uuids as))
    (hentries : (entries.filter fun x => x.1 = l).map (fun x => x.2.value) = submitted) :
    (valuesOf t' id).Perm submitted ↔ Balanced known id t (insertsFor l entries uuids as) := by
  rw [htable, ← hentries, ← values_insertsFor, valuesOf_insertAll_iff, Balanced]

theorem filter_forwardEntries (lists : ForwardLists) :
    ((forwardEntries lists).filter fun x => x.1 = .whitelist).map (fun x => x.2.value) =
        lists.whitelist.map ACLEntry.value ∧
      ((forwardEntries lists).filter fun x => x.1 = .blacklist).map (fun x => x.2.value) =
        lists.blacklist.map ACLEntry.value := by
  simp [forwardEntries, List.filter_append, List.filter_map, Function.comp_def]

theorem filter_entriesToSave (lists : ProxyLists) :
    ((entriesToSave lists).filter fun x => x.1 = .ipWhitelist).map (fun x => x.2.value) =
        lists.ipWhitelist.map ACLEntry.value ∧
      ((entriesToSave lists).filter fun x => x.1 = .ipBlacklist).map (fun x => x.2.value) =
        lists.ipBlacklist.map ACLEntry.value ∧
      ((entriesToSave lists).filter fun x => x.1 = .uaWhitelist).map (fun x => x.2.value) =
        lists.uaWhitelist ∧
      ((entriesToSave lists).filter fun x => x.1 = .uaBlacklist).map (fun x => x.2.value) =
        lists.uaBlacklist := by
  simp [entriesToSave, unnamed, List.filter_append, List.filter_map, Function.comp_def]

theorem stored_forward_iff {db : ForwardTables} {id : ID} {known : Bool} {lists : ForwardLists}
    {t : ForwardList → Table ListRow} {uuids : List ID} {as : List Choice}
    (h : ∀ l : ForwardList, l.table db =
      insertAll known id (t l) (insertsFor l (forwardEntries lists) uuids as)) :
    (((db.lists id).whitelist.map ACLEntry.value).Perm (lists.whitelist.map ACLEntry.value) ∧
        ((db.lists id).blacklist.map ACLEntry.value).Perm (lists.blacklist.map ACLEntry.value)) ↔
      ∀ l : ForwardList, Balanced known id (t l) (insertsFor l (forwardEntries lists) uuids as) := by
  obtain ⟨hwhite, hblack⟩ := filter_forwardEntries lists
  simp only [ForwardTables.lists, valuesOf_eq]
  have hwhitelist := perm_iff_balanced (h .whitelist) hwhite
  have hblacklist := perm_iff_balanced (h .blacklist) hblack
  simp only [ForwardList.table] at hwhitelist hblacklist
  rw [hwhitelist, hblacklist]
  constructor
  · rintro ⟨hw, hb⟩ (_ | _)
    · exact hw
    · exact hb
  · exact fun hall => ⟨hall .whitelist, hall .blacklist⟩

theorem stored_proxy_iff {db : ProxyTables} {id : ID} {known : Bool} {lists : ProxyLists}
    {t : ListTable → Table ListRow} {uuids : List ID} {as : List Choice}
    (h : ∀ l : ListTable, proxyTable db l =
      insertAll known id (t l) (insertsFor l (entriesToSave lists) uuids as)) :
    (((db.lists id).ipWhitelist.map ACLEntry.value).Perm (lists.ipWhitelist.map ACLEntry.value) ∧
        ((db.lists id).ipBlacklist.map ACLEntry.value).Perm (lists.ipBlacklist.map ACLEntry.value) ∧
        (db.lists id).uaWhitelist.Perm lists.uaWhitelist ∧
        (db.lists id).uaBlacklist.Perm lists.uaBlacklist) ↔
      ∀ l ∈ listTables.tail, Balanced known id (t l)
        (insertsFor l (entriesToSave lists) uuids as) := by
  obtain ⟨hipw, hipb, huaw, huab⟩ := filter_entriesToSave lists
  simp only [ProxyTables.lists, valuesOf_eq]
  have hipWhitelist := perm_iff_balanced (h .ipWhitelist) hipw
  have hipBlacklist := perm_iff_balanced (h .ipBlacklist) hipb
  have huaWhitelist := perm_iff_balanced (h .uaWhitelist) huaw
  have huaBlacklist := perm_iff_balanced (h .uaBlacklist) huab
  simp only [proxyTable] at hipWhitelist hipBlacklist huaWhitelist huaBlacklist
  rw [hipWhitelist, hipBlacklist, huaWhitelist, huaBlacklist]
  simp [listTables]

/-- For every state of the tables and every `Create` and `Update` of either kind of rule that is
answered with success: the rule has the submitted values exactly when in each list the values
that are refused are those of the entries left of old. -/
theorem submitted_stored_iff (parseURL : String → Option URL) (sub : Submission)
    {as : List Choice} {s s' : Store × ProxyTables} {q : Proc ⊕ ProxyProc}
    (h : solo (system parseURL) as s ((system parseURL).start sub.request) = some (s', q))
    (hq : Succeeded q) : sub.Stored s' ↔ sub.Kept s as := by
  cases sub with
  | forward target rule uuids =>
    cases target with
    | none =>
      obtain ⟨p, rfl, hsolo⟩ := solo_inl h
      exact stored_forward_iff (forward_create hq hsolo)
    | some id =>
      obtain ⟨p, rfl, hsolo⟩ := solo_inl h
      exact stored_forward_iff (solo_updateExec hq hsolo)
  | proxy target rule uuids =>
    cases target with
    | none =>
      obtain ⟨p, rfl, hsolo⟩ := solo_inr h
      obtain rfl : p = .finished := hq
      exact stored_proxy_iff (proxy_create hsolo)
    | some id =>
      obtain ⟨p, rfl, hsolo⟩ := solo_inr h
      obtain rfl : p = .finished := hq
      exact stored_proxy_iff (proxy_updateExec hsolo)

/-- After a deletion that goes through, a list is stored exactly when every statement for it goes
through, the rule has a row unless the list is empty, and the ids are distinct and no other
rule's. -/
theorem balanced_clearList_iff (known : Bool) (id : ID) (t : Table ListRow)
    (es : List (ACLEntry × Choice)) :
    Balanced known id (clearList id t) es ↔ (∀ x ∈ es, x.2 ≠ .fail ∧ known = true) ∧
      (idsOf (clearList id t) ++ es.map fun x => x.1.id).Nodup := by
  have hnone : valuesOf (clearList id t) id = [] := by
    simp [valuesOf, Table.selectWhere, clearList, Table.delete, List.filter_filter]
  rw [Balanced, hnone, List.perm_nil, List.map_eq_nil_iff]
  exact refused_eq_nil_iff (clearList id t).nodup es

/-! ## Two updates -/

/-- A rule with the entries of a whitelist. -/
def allowing (whitelist : List ACLEntry) : ForwardRule :=
  ⟨⟨"r1", "t", "o", "ssh", "tcp", "0.0.0.0", 2222, "10.0.0.2", 22, false, 0, true, "", ""⟩,
    ⟨whitelist, []⟩⟩

/-- Two rules; the second has one entry in its whitelist. -/
def twoRules : Store × ProxyTables :=
  (initial ⟨⟨[(allowing []).toForwardRow, { (allowing []).toForwardRow with id := "r2" }],
      by simp [allowing, Keyed.key]⟩, ⟨[⟨"e1", "r2", "10.9.9.9"⟩], by simp⟩, Table.empty⟩,
    ⟨Table.empty, Table.empty, Table.empty, Table.empty, Table.empty, Table.empty⟩)

def plainURL : String → Option URL := fun _ => none

def updateOf (whitelist : List ACLEntry) : Submission :=
  .forward (some "r1") (allowing whitelist) ["u1"]

def everyStatement (whitelist : List ACLEntry) : List Choice :=
  List.replicate (whitelist.length + 5) .go

/-- The tables after an update every statement of which goes through. -/
def afterUpdate (whitelist : List ACLEntry) : Option ((Store × ProxyTables) × (Proc ⊕ ProxyProc)) :=
  solo (system plainURL) (everyStatement whitelist) twoRules
    ((system plainURL).start (updateOf whitelist).request)

instance : DecidablePred Answered := fun p => by
  apply Proc.casesOn (motive := fun p => Decidable (Answered p)) p <;> intros <;>
    unfold Answered <;> infer_instance

instance : DecidablePred Succeeded := fun r => by
  cases r <;> unfold Succeeded <;> infer_instance

instance (s : Store × ProxyTables) (sub : Submission) : Decidable (sub.Stored s) := by
  cases sub <;> unfold Submission.Stored <;> infer_instance

instance (known : Bool) (id : ID) (t : Table ListRow) (es : List (ACLEntry × Choice)) :
    Decidable (Balanced known id t es) := inferInstanceAs (Decidable (List.Perm _ _))

theorem submitted_stored_distinct :
    ∃ (s' : Store × ProxyTables) (q : Proc ⊕ ProxyProc),
      afterUpdate [⟨"", "10.0.0.1"⟩, ⟨"e2", "10.0.0.0/8"⟩] = some (s', q) ∧ Succeeded q ∧
      (updateOf [⟨"", "10.0.0.1"⟩, ⟨"e2", "10.0.0.0/8"⟩]).Stored s' := by
  have hsome : ((afterUpdate [⟨"", "10.0.0.1"⟩, ⟨"e2", "10.0.0.0/8"⟩]).any
      fun t => decide (Succeeded t.2)) = true := by decide +kernel
  have hkept : (updateOf [⟨"", "10.0.0.1"⟩, ⟨"e2", "10.0.0.0/8"⟩]).Kept twoRules
      (everyStatement [⟨"", "10.0.0.1"⟩, ⟨"e2", "10.0.0.0/8"⟩]) := by
    intro l
    cases l <;> decide +kernel
  cases hrun : afterUpdate [⟨"", "10.0.0.1"⟩, ⟨"e2", "10.0.0.0/8"⟩] with
  | none => simp [hrun] at hsome
  | some t =>
    obtain ⟨s', q⟩ := t
    have hq : Succeeded q := by simpa [hrun] using hsome
    exact ⟨s', q, rfl, hq, (submitted_stored_iff plainURL _ hrun hq).mpr hkept⟩

/-- Two entries under one id, and an entry under an id of another rule: the response is a success
and an entry is lost. -/
theorem entries_lost :
    ((afterUpdate [⟨"x", "10.0.0.1"⟩, ⟨"x", "10.0.0.2"⟩]).any fun t =>
      decide (Succeeded t.2 ∧
        ¬(updateOf [⟨"x", "10.0.0.1"⟩, ⟨"x", "10.0.0.2"⟩]).Stored t.1)) = true ∧
    ((afterUpdate [⟨"e1", "10.0.0.1"⟩]).any fun t =>
      decide (Succeeded t.2 ∧ (t.1.1.db.lists "r1").whitelist = [] ∧
        ¬(updateOf [⟨"e1", "10.0.0.1"⟩]).Stored t.1)) = true := by
  decide +kernel

end NetBerth.SubmittedLists
