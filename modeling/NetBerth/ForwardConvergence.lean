import NetBerth.ForwardEngine

/-!
# The engine against the tables

A request that has written to a rule goes on to load it and to hand it to the
engine, so until then the engine may lag behind. What it may not do is to apply
a load that others have overtaken. A standard says which entries of the map are
right for what is stored. If every `Reload`, `Remove` and watchdog restart sets
an entry that is right at this moment, or leaves the rule to a request that
will still set it right, then every rule is right or has such a request, and
all rules are right once the requests are through.

For the plain standard, an entry for each enabled rule with the stored
configuration, this is convergence. Without the condition it fails: a load is
overtaken by a later update, or by the deletion of the rule.
-/
namespace NetBerth.ForwardConvergence
open Interleaving SqlTable Rules ForwardEngine

/-- What of an instance counts, and when that is right for a stored rule. -/
structure Standard where
  view : Instance → Option ForwardRule
  right : Option ForwardRule → Option ForwardRule → Prop
  view_started : ∀ rule, view ⟨rule, false⟩ = some rule
  right_applied : ∀ rule, right rule (applied rule)
  right_cancelled : ∀ rule inst, right rule (view inst) → right rule (view inst.cancel)

namespace Standard
variable (S : Standard)

def entry (s : Store) (id : ID) : Option ForwardRule := (s.instances.select id).bind S.view

/-- The rule is right in the engine. -/
def Right (s : Store) (id : ID) : Prop := S.right (stored s.db id) (S.entry s id)

/-- Undisturbed, the process will set the entry of the rule right. -/
def Repairs (rule : Option ForwardRule) (id : ID) : Proc → Prop
  | .clearWhitelist k _ _ | .clearBlacklist k _ _ | .saveWhitelist k _ _ | .saveBlacklist k _ _
  | .loadRow k => k = id ∧ rule.isSome
  | .loadWhitelist row => row.id = id ∧ ∃ r ∈ rule, r.toForwardRow = row
  | .loadBlacklist row whitelist =>
    row.id = id ∧ ∃ r ∈ rule, r.toForwardRow = row ∧ r.whitelist = whitelist
  | .reload r => r.id = id ∧ S.right rule (applied (some r))
  | .remove k => k = id ∧ S.right rule none
  | _ => False

end Standard

/-- The entry that a step of the process sets, and to what. -/
def sets (s : Store) : Proc → Option (ID × Option ForwardRule)
  | .reload rule => some (rule.id, applied (some rule))
  | .remove id => some (id, none)
  | .tickLoop (r :: _) =>
    match s.instances.select r.id with
    | some _ => if r.enabled then none else some (r.id, none)
    | none => if r.enabled then some (r.id, some r) else none
  | _ => none

/-- What the process sets is right, or the rule is left to a process that repairs it. -/
def Standard.Current (S : Standard) (c : State) (p : Proc) : Prop :=
  ∀ e ∈ sets c.shared p, S.right (stored c.shared.db e.1) e.2 ∨
    ∃ q ∈ c.procs, S.Repairs (stored c.shared.db e.1) e.1 q

def Standard.AppliesCurrent (S : Standard) : State → Action → Prop := Machine.Moves S.Current

section
variable (S : Standard) [∀ rule e, Decidable (S.right rule e)]

instance (rule : Option ForwardRule) (id : ID) (p : Proc) : Decidable (S.Repairs rule id p) := by
  cases p <;> unfold Standard.Repairs <;> infer_instance

instance (c : State) (p : Proc) : Decidable (S.Current c p) :=
  inferInstanceAs (Decidable (∀ e ∈ sets c.shared p, _ ∨ _))

instance (c : State) (act : Action) : Decidable (S.AppliesCurrent c act) := by
  unfold Standard.AppliesCurrent
  infer_instance

end

/-! ## What a step does to the tables and to the map -/

variable {S : Standard} {a : Choice} {s s' : Store} {p q : Proc} {id : ID}

theorem select_startRule (s : Store) (rule : ForwardRule) (id : ID) :
    (startRule s rule).instances.select id =
      if rule.id = id then some ⟨rule, false⟩ else s.instances.select id :=
  Table.select_put s.instances ⟨rule, false⟩ id

theorem select_removeInstance (s : Store) (k id : ID) :
    (removeInstance s k).instances.select id = if k = id then none else s.instances.select id := by
  rw [removeInstance, Table.select_delete]
  cases h : s.instances.select id with
  | none => simp
  | some inst =>
    have hid : inst.rule.id = id := (Table.select_eq_some.mp h).2
    by_cases hk : k = id
    · simp [hid, hk]
    · simp [hid, hk, Ne.symm hk]

theorem entry_startRule (s : Store) (rule : ForwardRule) (id : ID) :
    S.entry (startRule s rule) id = if rule.id = id then some rule else S.entry s id := by
  unfold Standard.entry
  rw [select_startRule]
  split_ifs
  · exact S.view_started rule
  · rfl

theorem entry_removeInstance (s : Store) (k id : ID) :
    S.entry (removeInstance s k) id = if k = id then none else S.entry s id := by
  unfold Standard.entry
  rw [select_removeInstance]
  split_ifs <;> rfl

theorem entry_reload (s : Store) (rule : ForwardRule) (id : ID) :
    S.entry (reload s rule) id = if rule.id = id then applied (some rule) else S.entry s id := by
  unfold reload applied
  cases hen : rule.enabled with
  | false => simp [entry_removeInstance, Option.filter, hen]
  | true => simp [entry_startRule, Option.filter, hen]

/-- A write to one rule that neither adds nor removes its row. -/
theorem write_stored {f : ForwardTables → ForwardTables} {k : ID}
    (hother : ∀ db, id ≠ k → stored (f db) id = stored db id)
    (hsome : ∀ db, (stored (f db) k).isSome = (stored db k).isSome) :
    stored (s.write a f).db id = stored s.db id ∨ k = id ∧ (stored (s.write a f).db id).isSome := by
  unfold Store.write
  split_ifs with ha
  · exact .inl rfl
  · by_cases hk : id = k
    · subst hk
      cases hold : stored s.db id with
      | none =>
        have hnew : (stored (f s.db) id).isSome = false := by rw [hsome, hold, Option.isSome_none]
        exact .inl (Option.not_isSome_iff_eq_none.mp (by simp [hnew]))
      | some r => exact .inr ⟨rfl, by rw [hsome, hold, Option.isSome_some]⟩
    · exact .inl (hother _ hk)

/-- A write leaves a rule alone, or the request goes on to repair it. -/
theorem step_stored (h : step a s p = some (s', q)) (id : ID) :
    stored s'.db id = stored s.db id ∨ S.Repairs (stored s'.db id) id q := by
  have hkeeps : ∀ {f : ForwardTables → ForwardTables} {k : ID}, (∀ db, (f db).rules = db.rules) →
      ∀ db, (stored (f db) k).isSome = (stored db k).isSome := by
    intro f k hf db
    rw [stored_isSome, stored_isSome, hf]
  cases p with
  | createInsert rule uuids =>
    simp only [step] at h
    split at h
    · cases h
      exact .inl rfl
    · rename_i rules hins
      cases h
      have hins' : s.db.rules.insert rule.toForwardRow = some rules := by
        split_ifs at hins
        exact hins
      by_cases hid : id = rule.id
      · subst hid
        exact .inr ⟨rfl, stored_insert_self hins'⟩
      · exact .inl (stored_insert hins' hid)
  | updateExec k rule uuids =>
    simp only [step] at h
    split_ifs at h with ha
    · cases h
      exact .inl rfl
    · cases h
      exact write_stored (a := .go) (fun _ => stored_updateRules rule.toForwardRow)
        (isSome_updateRules rule.toForwardRow)
  | clearWhitelist k lists uuids =>
    cases h
    exact write_stored (fun _ => stored_clearWhitelist) (hkeeps fun _ => rfl)
  | clearBlacklist k lists uuids =>
    cases h
    exact write_stored (fun _ => stored_clearBlacklist) (hkeeps fun _ => rfl)
  | saveWhitelist k lists uuids =>
    obtain ⟨_ | ⟨e, es⟩, blacklist⟩ := lists <;> cases h
    · exact .inl rfl
    · exact write_stored (fun _ => stored_saveWhitelist _) (hkeeps fun _ => rfl)
  | saveBlacklist k blacklist uuids =>
    cases blacklist <;> cases h
    · exact .inl rfl
    · exact write_stored (fun _ => stored_saveBlacklist _) (hkeeps fun _ => rfl)
  | deleteExec k =>
    cases h
    unfold Store.write
    split_ifs with ha
    · exact .inl rfl
    · by_cases hk : id = k
      · subst hk
        rw [stored_deleteRule_self]
        exact .inr ⟨rfl, S.right_applied none⟩
      · exact .inl (stored_deleteRule hk)
  | _ => exact .inl (by rw [db_of_step h rfl])

theorem entry_tickRule (s : Store) (r : ForwardRule) (rules : List ForwardRule) (id : ID) :
    S.entry (tickRule s r) id = S.entry s id ∨
      sets s (.tickLoop (r :: rules)) = some (id, S.entry (tickRule s r) id) := by
  by_cases hid : r.id = id
  · subst hid
    unfold tickRule
    simp only [sets]
    cases hsel : s.instances.select r.id with
    | none => cases hen : r.enabled <;> simp [entry_startRule]
    | some inst => cases hen : r.enabled <;> simp [entry_removeInstance]
  · left
    unfold tickRule
    split <;> split_ifs <;> simp [entry_startRule, entry_removeInstance, hid]

/-- An entry changes as the step sets it, or because its instance is cancelled. -/
theorem step_entry (h : step a s p = some (s', q)) (id : ID)
    (hright : S.right (stored s.db id) (S.entry s id)) :
    S.right (stored s.db id) (S.entry s' id) ∨ sets s p = some (id, S.entry s' id) := by
  have hsame : s'.instances = s.instances → S.entry s' id = S.entry s id := by
    intro he
    unfold Standard.entry
    rw [he]
  cases p with
  | reload rule =>
    simp only [step] at h
    split_ifs at h
    cases h
    rw [entry_reload]
    split_ifs with hid
    · subst hid
      exact .inr rfl
    · exact .inl hright
  | remove k =>
    simp only [step] at h
    split_ifs at h
    cases h
    rw [entry_removeInstance]
    split_ifs with hid
    · subst hid
      exact .inr rfl
    · exact .inl hright
  | stopCancel =>
    simp only [step] at h
    split_ifs at h
    cases h
    left
    unfold Standard.entry at hright ⊢
    rw [cancelAll, Table.select_update]
    cases hsel : s.instances.select id with
    | none => simpa [hsel] using hright
    | some inst =>
      rw [hsel] at hright
      exact S.right_cancelled _ inst hright
  | tickLoop rules =>
    cases rules with
    | nil =>
      cases h
      exact .inl hright
    | cons r rules =>
      cases h
      rcases entry_tickRule (S := S) s r rules id with he | he
      · exact .inl (he ▸ hright)
      · exact .inr he
  | _ => exact .inl (hsame (instances_of_step h rfl) ▸ hright)

/-- A process that repairs a rule goes on to do so, or has done it. -/
theorem step_repairs (h : step a s p = some (s', q)) (hp : S.Repairs (stored s.db id) id p)
    (hdb : stored s'.db id = stored s.db id) :
    S.Repairs (stored s'.db id) id q ∨ S.right (stored s'.db id) (S.entry s' id) := by
  rw [hdb]
  cases p with
  | clearWhitelist k lists uuids =>
    cases h
    exact .inl hp
  | clearBlacklist k lists uuids =>
    cases h
    exact .inl hp
  | saveWhitelist k lists uuids =>
    obtain ⟨_ | ⟨e, es⟩, blacklist⟩ := lists <;> cases h <;> exact .inl hp
  | saveBlacklist k blacklist uuids => cases blacklist <;> cases h <;> exact .inl hp
  | loadRow k =>
    obtain ⟨rfl, hsome⟩ := hp
    rw [stored_isSome] at hsome
    obtain ⟨row, hrow⟩ := Option.isSome_iff_exists.mp hsome
    simp only [step, hrow] at h
    cases h
    exact .inl ⟨id_of_select hrow, _, stored_of_select hrow, rfl⟩
  | loadWhitelist row =>
    cases h
    obtain ⟨rfl, r, hr, rfl⟩ := hp
    refine .inl ⟨rfl, r, hr, rfl, ?_⟩
    obtain ⟨row, hrow, rfl⟩ := Option.map_eq_some_iff.mp hr
    rfl
  | loadBlacklist row whitelist =>
    cases h
    obtain ⟨rfl, r, hr, rfl, rfl⟩ := hp
    obtain ⟨row, hrow, rfl⟩ := Option.map_eq_some_iff.mp hr
    refine .inl ⟨rfl, ?_⟩
    rw [hr]
    exact S.right_applied (some (s.db.rule row))
  | reload r =>
    simp only [step] at h
    split_ifs at h
    cases h
    obtain ⟨rfl, hr⟩ := hp
    rw [entry_reload, if_pos rfl]
    exact .inr hr
  | remove k =>
    simp only [step] at h
    split_ifs at h
    cases h
    obtain ⟨rfl, hr⟩ := hp
    rw [entry_removeInstance, if_pos rfl]
    exact .inr hr
  | _ => exact hp.elim

/-! ## Every run -/

/-- Each rule is right, or left to a process that repairs it. -/
def Standard.Tended (S : Standard) (c : State) : Prop :=
  ∀ id, S.Right c.shared id ∨ ∃ p ∈ c.procs, S.Repairs (stored c.shared.db id) id p

theorem exec_tended {parses : String → Bool} (c : State) (a : Action) (h : S.Tended c)
    (ha : S.AppliesCurrent c a) : S.Tended ((machine parses).exec c a) := by
  rcases (machine parses).exec_cases c a with ⟨r, -, he⟩ | ⟨i, b, p, s, q, rfl, hp, hs, he⟩ | he
  · rw [he]
    intro id
    exact (h id).imp_right fun ⟨p, hp, hr⟩ => ⟨p, List.mem_append_left _ hp, hr⟩
  · rw [he]
    intro id
    have hq : q ∈ c.procs.set i q := mem_set_self hp
    rcases step_stored (S := S) hs id with hdb | hrep
    · -- nothing new to load: what was left to a process still is, or it has set the entry
      have hleft : (∃ r ∈ c.procs, S.Repairs (stored c.shared.db id) id r) →
          S.Right s id ∨ ∃ r ∈ c.procs.set i q, S.Repairs (stored s.db id) id r := by
        intro hex
        rcases exists_set (q := q) hp hex with hmover | hother
        · rcases step_repairs hs hmover hdb with hrep | hright
          · exact .inr ⟨q, hq, hrep⟩
          · exact .inl hright
        · exact .inr (hdb ▸ hother)
      rcases h id with hright | hex
      · rcases step_entry hs id hright with hright' | hset
        · left
          unfold Standard.Right
          rw [hdb]
          exact hright'
        · rcases ha p hp _ hset with hright' | hex
          · left
            unfold Standard.Right
            rw [hdb]
            exact hright'
          · exact hleft hex
      · exact hleft hex
    · exact .inr ⟨q, hq, hrep⟩
  · rw [he]
    exact h

theorem entry_startEnabled (rules : List ForwardRule) (hnodup : (rules.map fun r => r.id).Nodup)
    (s : Store) (id : ID) : S.entry (startEnabled s rules) id =
      match rules.find? fun r => r.id = id with
      | none => S.entry s id
      | some r => if r.enabled then some r else S.entry s id := by
  unfold startEnabled
  induction rules generalizing s with
  | nil => rfl
  | cons r rules ih =>
    rw [List.map_cons, List.nodup_cons] at hnodup
    rw [List.foldl_cons, ih hnodup.2]
    by_cases hid : r.id = id
    · have hnone : rules.find? (fun r => r.id = id) = none := by
        rw [List.find?_eq_none]
        intro r' hr'
        have hne : r'.id ≠ r.id := fun he => hnodup.1 (List.mem_map.mpr ⟨r', hr', he⟩)
        simp [← hid, hne]
      rw [List.find?_cons_of_pos (by simp [hid]), hnone]
      cases hen : r.enabled <;> simp [entry_startRule, hid, hen]
    · rw [List.find?_cons_of_neg (by simp [hid])]
      cases hen : r.enabled <;> simp [entry_startRule, hid]

@[simp] theorem entry_initial (db : ForwardTables) (id : ID) : S.entry (initial db) id = none := rfl

/-- `Start` sets every rule right. -/
theorem tended_boot (db : ForwardTables) : S.Tended (boot db) := by
  intro id
  left
  have hnodup : ((db.rules.rows.map db.rule).map fun r => r.id).Nodup := by
    rw [List.map_map]
    exact db.rules.nodup
  have hfind : (db.rules.rows.map db.rule).find? (fun r => r.id = id) = stored db id :=
    List.find?_map
  unfold Standard.Right boot
  rw [startEnabled_db, entry_startEnabled _ hnodup, hfind]
  have happ := S.right_applied (stored db id)
  have hdb : (initial db).db = db := rfl
  rw [hdb]
  cases hst : stored db id with
  | none =>
    rw [hst] at happ
    exact happ
  | some r =>
    rw [hst] at happ
    cases hen : r.enabled <;> simpa [applied, Option.filter, hen] using happ

/-- In a run that applies what is current, the rules that no process repairs are right. -/
theorem tended_throughout (parses : String → Bool) (db : ForwardTables) (as : List Action)
    (has : (machine parses).Along S.AppliesCurrent (boot db) as) :
    (machine parses).Throughout S.Tended (boot db) as :=
  Machine.throughout_of_step exec_tended (tended_boot db) has

/-! ## Convergence -/

/-- `Create`, `Update` and `Delete`, up to the end of the event's subscriber. -/
def atWork : Proc → Bool
  | .createInsert _ _ | .updateExec _ _ _ | .clearWhitelist _ _ _ | .clearBlacklist _ _ _
  | .saveWhitelist _ _ _ | .saveBlacklist _ _ _ | .loadRow _ | .loadWhitelist _
  | .loadBlacklist _ _ | .reload _ | .deleteExec _ | .remove _ => true
  | _ => false

theorem atWork_of_repairs {rule : Option ForwardRule} (h : S.Repairs rule id p) : atWork p := by
  cases p with
  | refused status message => exact h.elim
  | tickWhitelist done rows => exact h.elim
  | _ => first | rfl | exact h.elim

theorem right_of_tended {c : State} (h : S.Tended c) (hp : ∀ p ∈ c.procs, atWork p = false)
    (id : ID) : S.Right c.shared id := by
  refine (h id).resolve_right ?_
  rintro ⟨p, hmem, hrep⟩
  have hwork := atWork_of_repairs hrep
  rw [hp p hmem] at hwork
  cases hwork

/-- Every enabled rule is in the map, as it is stored, and no other. -/
def Converged (s : Store) : Prop :=
  ∀ id, (s.instances.select id).map Instance.rule = applied (stored s.db id)

/-- The entry is the stored rule if it is enabled. -/
def plain : Standard where
  view inst := some inst.rule
  right rule e := e = applied rule
  view_started _ := rfl
  right_applied _ := rfl
  right_cancelled _ _ h := h

instance (rule e : Option ForwardRule) : Decidable (plain.right rule e) :=
  inferInstanceAs (Decidable (_ = _))

theorem plain_entry (s : Store) (id : ID) :
    plain.entry s id = (s.instances.select id).map Instance.rule := by
  unfold Standard.entry plain
  rw [Option.map_eq_bind]
  rfl

/-- Any requests, in any interleaving with each other, with the watchdog and
with `Stop`, from any tables: if whatever is applied to the engine is then
stored, or left to a request that repairs it, the engine has converged
whenever all requests are through. -/
theorem converged_when_through (parses : String → Bool) (db : ForwardTables) (as : List Action)
    (has : (machine parses).Along plain.AppliesCurrent (boot db) as) :
    (machine parses).Throughout
      (fun c => (∀ p ∈ c.procs, atWork p = false) → Converged c.shared) (boot db) as := by
  have htended := tended_throughout parses db as has
  rw [Machine.throughout_iff_prefix] at htended ⊢
  intro bs hbs hthrough id
  have hright := right_of_tended (htended bs hbs) hthrough id
  rw [← plain_entry]
  exact hright

/-! ## One rule, two requests -/

def ssh : ForwardRule :=
  ⟨⟨"f1", "t", "o", "ssh", "tcp", "", 2222, "10.0.0.2", 22, true, 0, true, "", ""⟩, [], []⟩

/-- One rule, which is enabled. -/
def oneRule : ForwardTables := ⟨⟨[ssh.toForwardRow], by decide⟩, Table.empty, Table.empty⟩

def moves (i n : ℕ) : List Action := List.replicate n (.run i .go)

def retarget (port : Int) : Action := .spawn (.update "f1" (some { ssh with targetPort := port }) [])

/-- The first update has loaded the rule when the second one writes and applies. -/
def overtakenLoad : List Action :=
  [retarget 23, retarget 24] ++ moves 1 8 ++ moves 2 9 ++ moves 1 1

/-- An update has loaded the rule when it is deleted and removed. -/
def loadBeforeDelete : List Action :=
  [retarget 23, .spawn (.delete "f1")] ++ moves 1 8 ++ moves 2 2 ++ moves 1 1

/-- The engine is left with the older target; and a deleted rule is left running. -/
theorem stale_loads_do_not_converge :
    (let c := (machine fun _ => true).run (boot oneRule) overtakenLoad
     (∀ p ∈ c.procs, atWork p = false) ∧ ¬ Converged c.shared) ∧
    (let c := (machine fun _ => true).run (boot oneRule) loadBeforeDelete
     (∀ p ∈ c.procs, atWork p = false) ∧ ¬ Converged c.shared) := by
  have hfar : ∀ s : Store, (s.instances.select "f1").map Instance.rule ≠
      applied (stored s.db "f1") → ¬ Converged s := fun s hne h => hne (h "f1")
  constructor
  · exact ⟨by decide, hfar _ (by decide)⟩
  · exact ⟨by decide, hfar _ (by decide)⟩

/-- One after the other, the update and the deletion converge. -/
theorem sequential_requests_converge :
    (machine fun _ => true).Throughout
      (fun c => (∀ p ∈ c.procs, atWork p = false) → Converged c.shared) (boot oneRule)
      ([retarget 23, .spawn (.delete "f1")] ++ moves 1 9 ++ moves 2 2) :=
  converged_when_through (fun _ => true) oneRule _ (by decide)

end NetBerth.ForwardConvergence
