import NetBerth.ForwardConvergence

/-!
# What the watchdog repairs, and what `Stop` leaves behind

A tick removes the instances of stored rules that are disabled and starts the
enabled ones that are missing. It does not look at instances whose rule is no
longer stored, nor at the configuration of those whose rule is. So a tick puts
everything right exactly from states in which each running instance has a
stored rule, and its configuration if that is enabled; the rules of a snapshot
that is out of date may themselves lead out of these states. Where everything
that is applied keeps to this standard, or leaves the rule to a request that
will, one tick after the last request is enough.

`Stop` cancels the instances it finds under the lock. Nothing keeps a `Reload`
or a tick from starting another one later.
-/
namespace NetBerth.Watchdog
open Interleaving SqlTable Rules ForwardEngine ForwardConvergence

/-- A running instance has a stored rule, and its configuration if it is enabled. -/
def live : Standard where
  view inst := if inst.cancelled then none else some inst.rule
  right rule e := ∀ x ∈ e, ∃ r ∈ rule, r.enabled → x = r
  view_started _ := rfl
  right_applied rule := by
    intro x hx
    obtain ⟨hr, -⟩ := Option.filter_eq_some_iff.mp hx
    exact ⟨x, hr, fun _ => rfl⟩
  right_cancelled _ _ _ := by
    intro x hx
    cases hx

instance (rule e : Option ForwardRule) : Decidable (live.right rule e) :=
  inferInstanceAs (Decidable (∀ x ∈ e, ∃ r ∈ rule, _))

/-- What runs is enabled and configured as it is stored. -/
def MatchesStored (s : Store) : Prop :=
  ∀ id, ∀ x ∈ live.entry s id, stored s.db id = some x ∧ x.enabled

/-- A request that is through, or a `Stop`. -/
def resting : Proc → Bool
  | .refused _ _ | .finished | .stopClose | .stopCancel | .stopReturned => true
  | _ => false

/-- No request arrives but `Stop`, and the bulk load does not fail. -/
def undisturbed : Action → Bool
  | .spawn .stop => true
  | .spawn _ => false
  | .run _ a => a ≠ .fail

/-! ## A tick -/

/-- What the snapshot of a tick still has to put right. -/
def OnTick (s : Store) : Proc → Prop
  | .watch => MatchesStored s
  | .watchReturned => True
  | .tickQuery => ∀ id, live.Right s id
  | .tickWhitelist done rows => (∀ id, live.Right s id) ∧
      done ++ rows.map s.db.rule = s.db.rules.rows.map s.db.rule
  | .tickBlacklist done row whitelist rows => (∀ id, live.Right s id) ∧
      done ++ (row :: rows).map s.db.rule = s.db.rules.rows.map s.db.rule ∧
      whitelist = entriesOf s.db.whitelist row.id
  | .tickLock rules => (∀ id, live.Right s id) ∧ rules = s.db.rules.rows.map s.db.rule
  | .tickLoop rules => (∀ id, live.Right s id) ∧ (∀ r ∈ rules, stored s.db r.id = some r) ∧
      ∀ id, ∀ x ∈ live.entry s id, (∃ r ∈ rules, r.id = id) ∨ stored s.db id = some x ∧ x.enabled
  | _ => False

variable {a : Choice} {s s' : Store} {p q : Proc} {id : ID}

theorem right_of_matchesStored (h : MatchesStored s) (id : ID) : live.Right s id := by
  intro x hx
  exact ⟨x, (h id x hx).1, fun _ => rfl⟩

theorem stored_of_mem {db : ForwardTables} {r : ForwardRule}
    (h : r ∈ db.rules.rows.map db.rule) : stored db r.id = some r := by
  obtain ⟨row, hrow, rfl⟩ := List.mem_map.mp h
  have hsel : db.rules.select row.id = some row := Table.select_eq_some.mpr ⟨hrow, rfl⟩
  exact stored_of_select hsel

theorem mem_of_stored {db : ForwardTables} {r : ForwardRule} (h : stored db id = some r) :
    r ∈ db.rules.rows.map db.rule := by
  obtain ⟨row, hrow, rfl⟩ := Option.map_eq_some_iff.mp h
  exact List.mem_map_of_mem (Table.select_eq_some.mp hrow).1

/-- Instances that stop running leave less to put right. -/
theorem OnTick.mono (h : OnTick s p) (hdb : s'.db = s.db)
    (hless : ∀ id, ∀ x ∈ live.entry s' id, x ∈ live.entry s id) : OnTick s' p := by
  have hright : (∀ id, live.Right s id) → ∀ id, live.Right s' id := by
    intro hr id x hx
    rw [hdb]
    exact hr id x (hless id x hx)
  cases p with
  | watch =>
    intro id x hx
    rw [hdb]
    exact h id x (hless id x hx)
  | tickQuery => exact hright h
  | tickWhitelist done rows => exact ⟨hright h.1, by rw [hdb]; exact h.2⟩
  | tickBlacklist done row whitelist rows => exact ⟨hright h.1, by rw [hdb]; exact h.2⟩
  | tickLock rules => exact ⟨hright h.1, by rw [hdb]; exact h.2⟩
  | tickLoop rules =>
    refine ⟨hright h.1, by rw [hdb]; exact h.2.1, ?_⟩
    intro id x hx
    rw [hdb]
    exact h.2.2 id x (hless id x hx)
  | _ => exact h

/-- One rule of the loop leaves the stored rule as the only thing that may run. -/
theorem tickRule_entry {r x : ForwardRule} (hr : stored s.db r.id = some r)
    (hright : live.Right s r.id) (hx : x ∈ live.entry (tickRule s r) r.id) :
    x = r ∧ r.enabled := by
  unfold tickRule at hx
  cases hsel : s.instances.select r.id with
  | none =>
    rw [hsel] at hx
    cases hen : r.enabled with
    | true => simpa [hen, entry_startRule, eq_comm] using hx
    | false => simp [hen, Standard.entry, hsel] at hx
  | some inst =>
    rw [hsel] at hx
    cases hen : r.enabled with
    | true =>
      obtain ⟨r', hr', heq⟩ := hright x (by simpa [hen] using hx)
      obtain rfl : r = r' := Option.some.inj (hr.symm.trans hr')
      exact ⟨heq hen, rfl⟩
    | false => simp [hen, entry_removeInstance] at hx

theorem tickRule_entry_ne {r : ForwardRule} (h : r.id ≠ id) :
    live.entry (tickRule s r) id = live.entry s id := by
  unfold tickRule
  split <;> split_ifs <;> simp [entry_startRule, entry_removeInstance, h]

/-- One rule of the loop is put right and the others are left as they are. -/
theorem OnTick.rule {r : ForwardRule} {rules : List ForwardRule}
    (h : OnTick s (.tickLoop (r :: rules))) : OnTick (tickRule s r) (.tickLoop rules) := by
  obtain ⟨hright, hst, hleft⟩ := h
  have hr : stored s.db r.id = some r := hst r (List.mem_cons_self ..)
  refine ⟨?_, ?_, ?_⟩
  · intro id x hx
    rw [tickRule_db]
    by_cases hid : r.id = id
    · subst hid
      exact ⟨r, hr, fun _ => (tickRule_entry hr (hright r.id) hx).1⟩
    · rw [tickRule_entry_ne hid] at hx
      exact hright id x hx
  · intro r' hr'
    rw [tickRule_db]
    exact hst r' (List.mem_cons_of_mem _ hr')
  · intro id x hx
    rw [tickRule_db]
    by_cases hid : r.id = id
    · subst hid
      obtain ⟨rfl, hen⟩ := tickRule_entry hr (hright r.id) hx
      exact .inr ⟨hr, hen⟩
    · rw [tickRule_entry_ne hid] at hx
      rcases hleft id x hx with ⟨r', hr', he⟩ | hdone
      · rcases List.mem_cons.mp hr' with rfl | hr'
        · exact absurd he hid
        · exact .inl ⟨r', hr', he⟩
      · exact .inr hdone

/-- A step of the watchdog keeps what the tick has to put right. -/
theorem onTick_step (h : OnTick s p) (ha : a ≠ .fail) (hs : step a s p = some (s', q)) :
    OnTick s' q := by
  cases p with
  | watch =>
    simp only [step] at hs
    split_ifs at hs <;> cases hs
    · trivial
    · exact right_of_matchesStored h
  | tickQuery =>
    simp only [step, if_neg ha] at hs
    cases hs
    exact ⟨h, rfl⟩
  | tickWhitelist done rows =>
    cases rows with
    | nil =>
      cases hs
      exact ⟨h.1, by simpa using h.2⟩
    | cons row rows =>
      simp only [step, if_neg ha] at hs
      cases hs
      exact ⟨h.1, h.2, rfl⟩
  | tickBlacklist done row whitelist rows =>
    cases hs
    obtain ⟨hright, hall, rfl⟩ := h
    exact ⟨hright, by simpa [ForwardTables.rule, ForwardTables.lists] using hall⟩
  | tickLock rules =>
    simp only [step] at hs
    split_ifs at hs
    cases hs
    obtain ⟨hright, rfl⟩ := h
    refine ⟨hright, fun r hr => stored_of_mem hr, ?_⟩
    intro id x hx
    obtain ⟨r, hr, -⟩ := hright id x hx
    exact .inl ⟨r, mem_of_stored hr, id_of_stored hr⟩
  | tickLoop rules =>
    cases rules with
    | nil =>
      cases hs
      intro id x hx
      simpa using h.2.2 id x hx
    | cons r rules =>
      cases hs
      exact h.rule
  | watchReturned => cases hs
  | _ => exact h.elim

/-! ## Beside the tick only `Stop` may move -/

theorem resting_step (h : step a s p = some (s', q)) (hp : resting p) :
    resting q ∧ s'.db = s.db ∧ ∀ id, ∀ x ∈ live.entry s' id, x ∈ live.entry s id := by
  cases p with
  | stopClose =>
    simp only [step] at h
    split_ifs at h
    cases h
    exact ⟨rfl, rfl, fun _ _ hx => hx⟩
  | stopCancel =>
    simp only [step] at h
    split_ifs at h
    cases h
    refine ⟨rfl, rfl, ?_⟩
    intro id x hx
    unfold Standard.entry at hx
    rw [cancelAll, Table.select_update] at hx
    cases hsel : s.instances.select id with
    | none => simp [hsel] at hx
    | some inst => simp [hsel, live, Instance.cancel] at hx
  | refused status message => cases h
  | finished => cases h
  | stopReturned => cases h
  | _ => cases hp

/-- The watchdog is on a tick and the other processes rest. -/
def Ticking (c : State) : Prop :=
  ∃ p ps, c.procs = p :: ps ∧ OnTick c.shared p ∧ ∀ q ∈ ps, resting q

theorem exec_ticking {parses : String → Bool} (c : State) (act : Action) (h : Ticking c)
    (hact : undisturbed act) : Ticking ((machine parses).exec c act) := by
  obtain ⟨p, ps, hprocs, hp, hps⟩ := h
  rcases (machine parses).exec_cases c act with
    ⟨r, rfl, he⟩ | ⟨i, b, r, s, q, rfl, hr, hs, he⟩ | he
  · rw [he]
    refine ⟨p, ps ++ [start parses r], by rw [hprocs]; rfl, hp, ?_⟩
    intro q hq
    rcases List.mem_append.mp hq with hq | hq
    · exact hps q hq
    · cases r with
      | stop => exact List.mem_singleton.mp hq ▸ rfl
      | _ => cases hact
  · rw [he]
    cases i with
    | zero =>
      obtain rfl : p = r := by simpa [hprocs] using hr
      exact ⟨q, ps, by simp [hprocs], onTick_step hp (by simpa [undisturbed] using hact) hs, hps⟩
    | succ i =>
      have hr' : ps[i]? = some r := by simpa [hprocs] using hr
      obtain ⟨hq, hdb, hless⟩ := resting_step hs (hps r (List.mem_of_getElem? hr'))
      exact ⟨p, ps.set i q, by simp [hprocs], hp.mono hdb hless, forall_set hps hq⟩
  · rw [he]
    exact ⟨p, ps, hprocs, hp, hps⟩

/-! ## A tick comes to its end -/

theorem alone_tickLoop (parses : String → Bool) (rules : List ForwardRule) (s : Store) :
    ∃ n t, (machine parses).alone .go n s (.tickLoop rules) = some (t, .watch) := by
  induction rules generalizing s with
  | nil => exact ⟨1, _, rfl⟩
  | cons r rules ih =>
    obtain ⟨n, t, hn⟩ := ih (tickRule s r)
    exact ⟨n + 1, t, Machine.alone_succ rfl hn⟩

theorem alone_tickWhitelist (parses : String → Bool) (rows : List ForwardRow)
    (done : List ForwardRule) (hfree : s.locked = false) :
    ∃ n t, (machine parses).alone .go n s (.tickWhitelist done rows) = some (t, .watch) := by
  induction rows generalizing done with
  | nil =>
    obtain ⟨n, t, hn⟩ := alone_tickLoop parses done { s with locked := true }
    have hlock : step .go s (.tickLock done) = some ({ s with locked := true }, .tickLoop done) := by
      simp [step, hfree]
    exact ⟨n + 2, t, Machine.alone_succ rfl (Machine.alone_succ hlock hn)⟩
  | cons row rows ih =>
    obtain ⟨n, t, hn⟩ := ih _
    exact ⟨n + 2, t, Machine.alone_succ rfl (Machine.alone_succ rfl hn)⟩

theorem alone_tick (parses : String → Bool) (hfree : s.locked = false) :
    ∃ n t, (machine parses).alone .go (n + 1) s .watch = some (t, .watch) := by
  obtain ⟨n, t, hn⟩ := alone_tickWhitelist parses s.db.rules.rows [] hfree
  exact ⟨n + 1, t, Machine.alone_succ rfl (Machine.alone_succ rfl hn)⟩

/-- The lock is held from one step to the next only within a tick's loop. -/
def looping : Proc → Bool
  | .tickLoop _ => true
  | _ => false

def LockHeld (c : State) : Prop := c.shared.locked → ∃ p ∈ c.procs, looping p

theorem step_looping (h : step a s p = some (s', q)) (hs' : s'.locked) :
    looping q ∨ s.locked ∧ looping p = false := by
  cases p with
  | tickLock rules =>
    simp only [step] at h
    split_ifs at h
    cases h
    exact .inl rfl
  | tickLoop rules =>
    cases rules with
    | nil =>
      cases h
      cases hs'
    | cons r rules =>
      cases h
      exact .inl rfl
  | _ => exact .inr ⟨(locked_of_step h rfl).symm.trans hs', rfl⟩

theorem exec_lockHeld {parses : String → Bool} (c : State) (act : Action) (h : LockHeld c) :
    LockHeld ((machine parses).exec c act) := by
  rcases (machine parses).exec_cases c act with ⟨r, -, he⟩ | ⟨i, b, p, s, q, -, hp, hs, he⟩ | he
  · rw [he]
    intro hlock
    obtain ⟨p, hp, hl⟩ := h hlock
    exact ⟨p, List.mem_append_left _ hp, hl⟩
  · rw [he]
    intro hlock
    rcases step_looping hs hlock with hq | ⟨hold, hl⟩
    · exact ⟨q, mem_set_self hp, hq⟩
    · rcases exists_set (q := q) hp (h hold) with hp' | hother
      · rw [hl] at hp'
        cases hp'
      · exact hother
  · rw [he]
    exact h

theorem startEnabled_locked (s : Store) (rules : List ForwardRule) :
    (startEnabled s rules).locked = s.locked := by
  unfold startEnabled
  induction rules generalizing s with
  | nil => rfl
  | cons r rules ih =>
    rw [List.foldl_cons, ih]
    split_ifs <;> rfl

theorem lockHeld_run (parses : String → Bool) (db : ForwardTables) (as : List Action) :
    LockHeld ((machine parses).run (boot db) as) := by
  refine Machine.run_keeps exec_lockHeld ?_ as
  intro hlock
  rw [boot, startEnabled_locked] at hlock
  cases hlock

/-! ## `Stop` -/

def StopReturned (c : State) : Prop := .stopReturned ∈ c.procs

def AllCancelled (s : Store) : Prop := ∀ inst ∈ s.instances.rows, inst.cancelled

/-- The next step, if it is not held up, starts a rule: an enabled `Reload`, or
a tick at an enabled rule that is missing. -/
def startsNext (s : Store) : Proc → Bool
  | .reload rule => !s.locked && rule.enabled
  | .tickLoop (r :: _) => r.enabled && (s.instances.select r.id).isNone
  | _ => false

def StartsNothing : State → Action → Prop :=
  Machine.Moves fun c p => StopReturned c → startsNext c.shared p = false

instance (c : State) : Decidable (StopReturned c) := inferInstanceAs (Decidable (_ ∈ c.procs))

instance (s : Store) : Decidable (AllCancelled s) :=
  inferInstanceAs (Decidable (∀ inst ∈ s.instances.rows, _))

instance (c : State) (act : Action) : Decidable (StartsNothing c act) := by
  unfold StartsNothing
  infer_instance

theorem not_allCancelled_startRule (s : Store) (rule : ForwardRule) :
    ¬ AllCancelled (startRule s rule) := by
  intro h
  have hmem : (⟨rule, false⟩ : Instance) ∈ (startRule s rule).instances.rows :=
    List.mem_append_right _ (List.mem_singleton_self _)
  cases h _ hmem

theorem allCancelled_removeInstance (h : AllCancelled s) (id : ID) :
    AllCancelled (removeInstance s id) :=
  fun inst hinst => h inst (Table.mem_delete.mp hinst).1

theorem allCancelled_cancelAll (s : Store) : AllCancelled (cancelAll s) := by
  intro inst hinst
  rw [cancelAll, Table.mem_update] at hinst
  obtain ⟨old, -, rfl⟩ := hinst
  rfl

/-- Where all is cancelled, it stays so exactly if the step starts nothing. -/
theorem allCancelled_step (h : step a s p = some (s', q)) (hs : AllCancelled s) :
    AllCancelled s' ↔ startsNext s p = false := by
  have hsame : s'.instances = s.instances → AllCancelled s' := by
    intro he inst hinst
    exact hs inst (he ▸ hinst)
  cases p with
  | reload rule =>
    simp only [step] at h
    split_ifs at h with hlock
    cases h
    unfold reload
    cases hen : rule.enabled with
    | true => simpa [startsNext, hen, hlock] using not_allCancelled_startRule s rule
    | false => simpa [startsNext, hen] using allCancelled_removeInstance hs rule.id
  | remove id =>
    simp only [step] at h
    split_ifs at h
    cases h
    exact iff_of_true (allCancelled_removeInstance hs id) rfl
  | stopCancel =>
    simp only [step] at h
    split_ifs at h
    cases h
    exact iff_of_true (allCancelled_cancelAll s) rfl
  | tickLoop rules =>
    cases rules with
    | nil =>
      cases h
      exact iff_of_true hs rfl
    | cons r rules =>
      cases h
      unfold tickRule
      cases hsel : s.instances.select r.id with
      | none =>
        cases hen : r.enabled with
        | true => simpa [startsNext, hsel, hen] using not_allCancelled_startRule s r
        | false => simpa [startsNext, hen] using hs
      | some inst =>
        cases hen : r.enabled with
        | true => simpa [startsNext, hsel, hen] using hs
        | false => simpa [startsNext, hen] using allCancelled_removeInstance hs r.id
  | _ => exact iff_of_true (hsame (instances_of_step h rfl)) rfl

/-- Only `Stop`, past the lock, has returned. -/
theorem eq_stopCancel_of_step (h : step a s p = some (s', .stopReturned)) : p = .stopCancel := by
  unfold step at h
  split at h <;> first | rfl | skip
  all_goals
    repeat' split at h
    all_goals cases h

theorem step_isSome_of_startsNext (h : startsNext s p) : (step a s p).isSome := by
  cases p with
  | reload rule =>
    have hfree : s.locked = false := by
      simp only [startsNext, Bool.and_eq_true, Bool.not_eq_true'] at h
      exact h.1
    simp [step, hfree]
  | tickLoop rules =>
    cases rules with
    | nil => cases h
    | cons r rules => rfl
  | _ => cases h

theorem not_stopReturned_start (parses : String → Bool) (r : Request) :
    start parses r ≠ .stopReturned := by
  cases r with
  | create body uuids =>
    simp only [start, create]
    repeat' split
    all_goals simp
  | update id body uuids => cases body <;> simp [start, update]
  | delete id => simp [start]
  | stop => simp [start]

theorem exec_stopped_iff {parses : String → Bool} (c : State) (act : Action)
    (h : StopReturned c → AllCancelled c.shared) :
    (StopReturned ((machine parses).exec c act) →
      AllCancelled ((machine parses).exec c act).shared) ↔ StartsNothing c act := by
  cases act with
  | spawn r =>
    refine iff_of_true ?_ trivial
    intro hstop
    rcases List.mem_append.mp hstop with hstop | hstop
    · exact h hstop
    · exact absurd (List.mem_singleton.mp hstop).symm (not_stopReturned_start parses r)
  | run i b =>
    cases hp : c.procs[i]? with
    | none =>
      have he : (machine parses).exec c (.run i b) = c := by simp only [Machine.exec, hp]
      rw [he]
      exact iff_of_true h (by simp [StartsNothing, Machine.Moves, hp])
    | some p =>
      have hok : StartsNothing c (.run i b) ↔ (StopReturned c → startsNext c.shared p = false) := by
        simp [StartsNothing, Machine.Moves, hp]
      rw [hok]
      cases hs : step b c.shared p with
      | none =>
        have he : (machine parses).exec c (.run i b) = c := by simp only [Machine.exec, hp, machine, hs]
        rw [he]
        refine iff_of_true h fun _ => ?_
        by_contra hstart
        have hsome := step_isSome_of_startsNext (a := b) (Bool.not_eq_false _ ▸ hstart)
        rw [hs] at hsome
        cases hsome
      | some t =>
        obtain ⟨s, q⟩ := t
        have he : (machine parses).exec c (.run i b) = ⟨s, c.procs.set i q⟩ := by
          simp only [Machine.exec, hp, machine, hs]
        rw [he]
        by_cases hstop : StopReturned c
        · -- a `Stop` that has returned makes no further step
          have hstill : StopReturned ⟨s, c.procs.set i q⟩ := by
            rcases exists_set (P := fun r => r = .stopReturned) (q := q) hp ⟨_, hstop, rfl⟩ with
              rfl | ⟨r, hr, rfl⟩
            · cases hs
            · exact hr
          have hiff := allCancelled_step hs (h hstop)
          exact ⟨fun hall _ => hiff.mp (hall hstill), fun hnone _ => hiff.mpr (hnone hstop)⟩
        · refine iff_of_true ?_ fun hst => absurd hst hstop
          intro hnow
          rcases List.mem_or_eq_of_mem_set hnow with hold | rfl
          · exact absurd hold hstop
          · obtain rfl := eq_stopCancel_of_step hs
            simp only [step] at hs
            split_ifs at hs
            cases hs
            exact allCancelled_cancelAll c.shared

/-! ## The watchdog's two promises -/

/-- The tick that begins now comes to its end if it is left alone; and at its
end, and at that of any later one, what runs is what is stored. -/
def NextTickRepairs (parses : String → Bool) (c : State) : Prop :=
  (∃ n, ((machine parses).run c (.run 0 .go :: moves 0 n)).procs.head? = some .watch) ∧
    ∀ bs, (∀ b ∈ bs, undisturbed b) →
      ((machine parses).run c (.run 0 .go :: bs)).procs.head? = some .watch →
      MatchesStored ((machine parses).run c (.run 0 .go :: bs)).shared

section
variable (parses : String → Bool) (db : ForwardTables)

/-- From a state in which all requests are through, whatever else happens, the
tick that begins next ends with everything right. -/
theorem matchesStored_after_tick {c : State} (htended : live.Tended c) {ps : List Proc}
    (hprocs : c.procs = .watch :: ps) (hrest : ∀ p ∈ ps, resting p) (bs : List Action)
    (hbs : ∀ b ∈ bs, undisturbed b)
    (hend : ((machine parses).run c (.run 0 .go :: bs)).procs.head? = some .watch) :
    MatchesStored ((machine parses).run c (.run 0 .go :: bs)).shared := by
  have hquiet : ∀ p ∈ c.procs, atWork p = false := by
    intro p hp
    rw [hprocs] at hp
    rcases List.mem_cons.mp hp with rfl | hp
    · rfl
    · have hp := hrest p hp
      cases p <;> first | rfl | cases hp
  have hfirst : (machine parses).exec c (.run 0 .go) = ⟨c.shared, .tickQuery :: ps⟩ := by
    simp [Machine.exec, hprocs, machine, step]
  have hright := right_of_tended htended hquiet
  have hbegin : Ticking ((machine parses).exec c (.run 0 .go)) := by
    rw [hfirst]
    exact ⟨.tickQuery, ps, rfl, hright, hrest⟩
  have hall : (machine parses).Along (fun _ b => undisturbed b = true)
      ((machine parses).exec c (.run 0 .go)) bs := Machine.along_of_forall hbs
  obtain ⟨p, qs, he, hp, -⟩ := Machine.run_invariant exec_ticking hbegin hall
  rw [Machine.run_cons, he] at hend
  obtain rfl : p = .watch := by simpa using hend
  exact hp

/-- And that tick does end, if it is left alone. -/
theorem tick_ends {c : State} (hlock : LockHeld c) {ps : List Proc}
    (hprocs : c.procs = .watch :: ps) (hrest : ∀ p ∈ ps, resting p) :
    ∃ n, ((machine parses).run c (.run 0 .go :: moves 0 n)).procs.head? = some .watch := by
  have hfree : c.shared.locked = false := by
    by_contra hne
    obtain ⟨p, hp, hl⟩ := hlock (Bool.not_eq_false _ ▸ hne)
    rw [hprocs] at hp
    rcases List.mem_cons.mp hp with rfl | hp
    · cases hl
    · have hp := hrest p hp
      cases p <;> first | (cases hl; done) | cases hp
  obtain ⟨n, t, hn⟩ := alone_tick parses hfree
  refine ⟨n, ?_⟩
  rw [moves, ← List.replicate_succ, Machine.run_alone (by rw [hprocs]; rfl) hn, hprocs]
  rfl

/-- Any requests, in any interleaving with each other, with ticks and with
`Stop`, from any tables. Where whatever is applied to the engine keeps to the
standard, or leaves the rule to a request that will, the tick after the last
request ends with only enabled rules running, as they are stored. And after
`Stop` nothing runs exactly if neither an enabled `Reload` nor a tick at a
missing rule comes after it. -/
theorem watchdog_safe :
    (∀ as ps, (machine parses).Along live.AppliesCurrent (boot db) as →
      ((machine parses).run (boot db) as).procs = .watch :: ps → (∀ p ∈ ps, resting p) →
      NextTickRepairs parses ((machine parses).run (boot db) as)) ∧
    ∀ as, (machine parses).Throughout (fun c => StopReturned c → AllCancelled c.shared)
      (boot db) as ↔ (machine parses).Along StartsNothing (boot db) as := by
  constructor
  · intro as ps has hprocs hrest
    have htended := (tended_throughout parses db as has).last
    exact ⟨tick_ends parses (lockHeld_run parses db as) hprocs hrest,
      matchesStored_after_tick parses htended hprocs hrest⟩
  · intro as
    refine Machine.throughout_iff_along exec_stopped_iff as ?_
    intro hstop
    cases List.mem_singleton.mp hstop

end

/-! ## A tick and a deletion, an update and `Stop` -/

def tick (n : ℕ) : List Action := moves 0 n

/-- The tick has taken the rule in when it is deleted. -/
def snapshotBeforeDelete : List Action :=
  tick 5 ++ [.spawn (.delete "f1")] ++ moves 1 2 ++ tick 3

/-- The update has loaded the rule when `Stop` runs. -/
def loadBeforeStop : List Action :=
  [retarget 23, .spawn .stop] ++ moves 1 8 ++ moves 2 2 ++ moves 1 1

/-- The deleted rule is running again, and still after one more tick; and a
rule is running after `Stop` has returned. -/
theorem deleted_and_stopped_rules_run :
    (let c := (machine fun _ => true).run (boot oneRule) snapshotBeforeDelete
     let after := (machine fun _ => true).run c (tick 5)
     c.procs = [.watch, .finished] ∧ after.procs = [.watch, .finished] ∧
       ¬ MatchesStored after.shared) ∧
    (let c := (machine fun _ => true).run (boot oneRule) loadBeforeStop
     StopReturned c ∧ ¬ AllCancelled c.shared) := by
  have hfar : ∀ s : Store, ssh ∈ live.entry s "f1" → stored s.db "f1" = none → ¬ MatchesStored s := by
    intro s hrun hnone h
    have hst := (h "f1" ssh hrun).1
    rw [hnone] at hst
    cases hst
  refine ⟨⟨by decide, by decide, hfar _ (by decide) (by decide)⟩, by decide, by decide⟩

/-- A deletion, then a tick; and a deletion before `Stop`. -/
theorem sequential_deletion_is_safe :
    MatchesStored ((machine fun _ => true).run (boot oneRule)
      ([.spawn (.delete "f1")] ++ moves 1 2 ++ tick 5)).shared ∧
    (machine fun _ => true).Throughout (fun c => StopReturned c → AllCancelled c.shared)
      (boot oneRule) ([.spawn (.delete "f1"), .spawn .stop] ++ moves 1 2 ++ moves 2 2) := by
  have hsafe := watchdog_safe (fun _ => true) oneRule
  have hcurrent : (machine fun _ => true).Along live.AppliesCurrent (boot oneRule)
      ([.spawn (.delete "f1")] ++ moves 1 2) := by decide
  have htick := (hsafe.1 _ [.finished] hcurrent (by decide) (by decide)).2 (tick 4) (by decide)
    (by decide)
  have hnothing : (machine fun _ => true).Along StartsNothing (boot oneRule)
      ([.spawn (.delete "f1"), .spawn .stop] ++ moves 1 2 ++ moves 2 2) := by decide
  exact ⟨htick, (hsafe.2 _).mpr hnothing⟩

end NetBerth.Watchdog
