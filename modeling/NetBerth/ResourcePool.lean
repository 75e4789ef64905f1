import NetBerth.Interleaving

/-!
# Calls that share a pool

A pool hands out a fixed number of units. A call asks for a unit and waits
while none is free, works, and gives units back, in the order its program says.
Programs here ask for a second unit at most while they hold one, and never for
a third.

A call that asks while it holds one can be left holding it. With fewer such
calls than units, some unit is always with a call that will give it back or is
free; with as many, a run exists in which each of them holds one and waits.
-/
namespace ResourcePool
open Interleaving

inductive Op where
  | acquire
  | work
  | release
  deriving DecidableEq, Repr

abbrev Program := List Op

structure Call where
  program : Program
  held : ℕ
  todo : List Op
  deriving DecidableEq, Repr

/-- From `held` units on, the program returns all of them and asks for a unit
only while it holds none or one. -/
def WellFormed : (held : ℕ) → List Op → Prop
  | held, [] => held = 0
  | held, .acquire :: ops => held ≤ 1 ∧ WellFormed (held + 1) ops
  | held, .work :: ops => WellFormed held ops
  | held, .release :: ops => 0 < held ∧ WellFormed (held - 1) ops

/-- Some unit is asked for while another is held. -/
def nests : (held : ℕ) → List Op → Bool
  | _, [] => false
  | held, .acquire :: ops => 0 < held || nests (held + 1) ops
  | held, .work :: ops => nests held ops
  | held, .release :: ops => nests (held - 1) ops

def step (free : ℕ) (p : Call) : Option (ℕ × Call) :=
  match p.todo with
  | [] => none
  | .acquire :: ops =>
    if free = 0 then none else some (free - 1, { p with held := p.held + 1, todo := ops })
  | .work :: ops => some (free, { p with todo := ops })
  | .release :: ops => some (free + 1, { p with held := p.held - 1, todo := ops })

/-- All calls are there from the start; when each sets out is up to the run. -/
def machine : Machine ℕ Call Empty Unit where
  start := nofun
  step _ := step

abbrev State := Config ℕ Call
abbrev Action := Act Empty Unit

def Call.begin (p : Program) : Call := ⟨p, 0, p⟩

def boot (units : ℕ) (ps : List Program) : State := ⟨units, ps.map Call.begin⟩

/-- If some call is unfinished, some call can take a step. -/
def CanMove (c : State) : Prop :=
  (∃ p ∈ c.procs, p.todo ≠ []) → ∃ p ∈ c.procs, (step c.shared p).isSome

/-! ## Enough units -/

/-- What holds of a call between its steps. -/
structure Call.Sound (p : Call) : Prop where
  wellFormed : WellFormed p.held p.todo
  nests : nests p.held p.todo → ResourcePool.nests 0 p.program

/-- All units are free or held. -/
structure Sound (units : ℕ) (ps : List Program) (c : State) : Prop where
  units : c.shared + (c.procs.map Call.held).sum = units
  programs : c.procs.map Call.program = ps
  calls : ∀ p ∈ c.procs, p.Sound

/-- A step moves at most one unit, between the pool and the call. -/
theorem step_sound {free free' : ℕ} {p q : Call} (h : step free p = some (free', q))
    (hp : p.Sound) : free' + q.held = free + p.held ∧ q.program = p.program ∧ q.Sound := by
  obtain ⟨program, held, todo⟩ := p
  cases todo with
  | nil => cases h
  | cons op ops =>
    have hwf := hp.wellFormed
    have hnest := hp.nests
    cases op with
    | acquire =>
      simp only [step] at h
      split_ifs at h with hfree
      cases h
      refine ⟨by dsimp only; omega, rfl, hwf.2, fun hn => hnest ?_⟩
      simp only [ResourcePool.nests, hn, Bool.or_true]
    | work =>
      cases h
      exact ⟨rfl, rfl, hwf, hnest⟩
    | release =>
      cases h
      have hheld : 0 < held := hwf.1
      exact ⟨by dsimp only; omega, rfl, hwf.2, hnest⟩

theorem exec_sound {units : ℕ} {ps : List Program} (c : State) (a : Action)
    (h : Sound units ps c) : Sound units ps (machine.exec c a) := by
  rcases machine.exec_cases c a with ⟨r, -, -⟩ | ⟨i, b, p, s, q, rfl, hp, hs, he⟩ | he
  · exact r.elim
  · obtain ⟨hfree, hprog, hq⟩ := step_sound hs (h.calls p (List.mem_of_getElem? hp))
    rw [he]
    refine ⟨?_, ?_, forall_set h.calls hq⟩
    · have hsum := sum_map_set Call.held (q := q) hp
      have hunits := h.units
      dsimp only
      omega
    · have hi : i < (c.procs.map Call.program).length := by
        simpa using (List.getElem?_eq_some_iff.mp hp).choose
      have hsame : (c.procs.map Call.program)[i] = q.program := by
        obtain ⟨hi', rfl⟩ := List.getElem?_eq_some_iff.mp hp
        rw [List.getElem_map, hprog]
      dsimp only
      rw [List.map_set, ← hsame, List.set_getElem_self, h.programs]
  · rw [he]
    exact h

theorem boot_sound (units : ℕ) {ps : List Program} (hwf : ∀ p ∈ ps, WellFormed 0 p) :
    Sound units ps (boot units ps) where
  units := by
    have hheld : Call.held ∘ Call.begin = fun _ => 0 := rfl
    simp [boot, hheld]
  programs := by
    have hprog : Call.program ∘ Call.begin = id := rfl
    simp [boot, hprog]
  calls := by
    intro p hp
    obtain ⟨program, hmem, rfl⟩ := List.mem_map.mp hp
    exact ⟨hwf program hmem, fun hn => hn⟩

/-- A call that cannot move is finished, or waits for a unit of an empty pool. -/
theorem step_eq_none {free : ℕ} {p : Call} (h : step free p = none) :
    p.todo = [] ∨ free = 0 ∧ ∃ ops, p.todo = .acquire :: ops := by
  obtain ⟨program, held, todo⟩ := p
  cases todo with
  | nil => exact .inl rfl
  | cons op ops =>
    cases op with
    | acquire =>
      simp only [step] at h
      split_ifs at h with hfree
      exact .inr ⟨hfree, ops, rfl⟩
    | work => cases h
    | release => cases h

/-- A call that cannot move holds a unit only if its program nests. -/
theorem held_le_of_stuck {free : ℕ} {p : Call} (hp : p.Sound) (h : step free p = none) :
    p.held ≤ (nests 0 p.program).toNat := by
  have hwf := hp.wellFormed
  rcases step_eq_none h with hdone | ⟨-, ops, hwait⟩
  · rw [hdone] at hwf
    have hzero : p.held = 0 := hwf
    omega
  · rw [hwait] at hwf
    have hle : p.held ≤ 1 := hwf.1
    by_cases hheld : p.held = 0
    · omega
    · have hn : nests 0 p.program = true := by
        apply hp.nests
        rw [hwait, nests]
        simp only [Nat.pos_of_ne_zero hheld, decide_true, Bool.true_or]
      rw [hn, Bool.toNat_true]
      exact hle

theorem canMove_of_sound {units : ℕ} {ps : List Program} {c : State} (h : Sound units ps c)
    (hfew : ps.countP (nests 0) < units) : CanMove c := by
  rintro ⟨p, hp, hne⟩
  by_contra hstuck
  have hnone : ∀ q ∈ c.procs, step c.shared q = none := by
    intro q hq
    by_contra hsome
    exact hstuck ⟨q, hq, Option.ne_none_iff_isSome.mp hsome⟩
  have hfree : c.shared = 0 := by
    rcases step_eq_none (hnone p hp) with hdone | ⟨hfree, -⟩
    · exact absurd hdone hne
    · exact hfree
  -- every unit is held by a call whose program nests
  have hsum : (c.procs.map Call.held).sum ≤ (c.procs.map fun q => (nests 0 q.program).toNat).sum :=
    List.sum_le_sum fun q hq => held_le_of_stuck (h.calls q hq) (hnone q hq)
  have hcount : (c.procs.map fun q => (nests 0 q.program).toNat).sum = ps.countP (nests 0) := by
    rw [sum_map_toNat fun q : Call => nests 0 q.program, ← h.programs, List.countP_map]
    rfl
  have hunits := h.units
  omega

/-! ## Too few units -/

/-- The call holds one unit and waits for another. -/
def Parked (p : Call) : Prop := p.held = 1 ∧ ∃ ops, p.todo = .acquire :: ops

/-- On its own, a call that nests can be run until it holds a unit and asks
for a second one. -/
theorem exists_parked {free : ℕ} (program : Program) {held : ℕ} {ops : List Op}
    (hwf : WellFormed held ops) (hheld : held ≤ 1) (hn : nests held ops) :
    ∃ n q, machine.alone () n (free + 1 - held) ⟨program, held, ops⟩ = some (free, q) ∧
      q.program = program ∧ Parked q := by
  induction ops generalizing held with
  | nil => cases hn
  | cons op ops ih =>
    cases op with
    | acquire =>
      by_cases hzero : held = 0
      · subst hzero
        have hn' : nests 1 ops := by simpa [nests] using hn
        obtain ⟨n, q, hrun, hq⟩ := ih hwf.2 le_rfl hn'
        refine ⟨n + 1, q, ?_, hq⟩
        have hstep : machine.step () (free + 1 - 0) ⟨program, 0, .acquire :: ops⟩ =
            some (free + 1 - 1, ⟨program, 1, ops⟩) := rfl
        rw [Machine.alone, hstep]
        exact hrun
      · obtain rfl : held = 1 := by omega
        exact ⟨0, _, rfl, rfl, rfl, ops, rfl⟩
    | work =>
      obtain ⟨n, q, hrun, hq⟩ := ih hwf hheld hn
      refine ⟨n + 1, q, ?_, hq⟩
      have hstep : machine.step () (free + 1 - held) ⟨program, held, .work :: ops⟩ =
          some (free + 1 - held, ⟨program, held, ops⟩) := rfl
      rw [Machine.alone, hstep]
      exact hrun
    | release =>
      have hpos : 0 < held := hwf.1
      obtain rfl : held = 1 := by omega
      obtain ⟨n, q, hrun, hq⟩ := ih hwf.2 (Nat.zero_le _) hn
      refine ⟨n + 1, q, ?_, hq⟩
      have hstep : machine.step () (free + 1 - 1) ⟨program, 1, .release :: ops⟩ =
          some (free + 1 - 0, ⟨program, 0, ops⟩) := rfl
      rw [Machine.alone, hstep]
      exact hrun

/-- A call that has not set out, and would nest. -/
def waiting (p : Call) : Bool := p = .begin p.program && nests 0 p.program

/-- Every call is parked or has not set out. -/
def Spread (c : State) : Prop := ∀ p ∈ c.procs, Parked p ∨ p = .begin p.program

/-- Parking one more call each time, the pool can be emptied. -/
theorem exists_emptied (free : ℕ) (c : State) (hfree : c.shared = free) (hspread : Spread c)
    (hwf : ∀ p ∈ c.procs, WellFormed 0 p.program) (hmany : free ≤ c.procs.countP waiting) :
    ∃ as, (machine.run c as).shared = 0 ∧ Spread (machine.run c as) := by
  induction free generalizing c with
  | zero => exact ⟨[], hfree, hspread⟩
  | succ free ih =>
    obtain ⟨p, hp, hw⟩ := List.countP_pos_iff.mp (Nat.lt_of_lt_of_le (Nat.succ_pos free) hmany)
    obtain ⟨i, hi⟩ := List.mem_iff_getElem?.mp hp
    have hbegin : p = .begin p.program ∧ nests 0 p.program := by simpa [waiting] using hw
    obtain ⟨n, q, hrun, hprog, hq⟩ :=
      exists_parked p.program (hwf p hp) (Nat.zero_le 1) hbegin.2
    have hrun' : machine.alone () n c.shared p = some (free, q) := by
      rw [hfree, hbegin.1]
      exact hrun
    have hparked := Machine.run_alone hi hrun'
    have hcount := countP_set waiting (q := q) hi
    have hspread' : Spread ⟨free, c.procs.set i q⟩ := forall_set hspread (.inl hq)
    have hwf' : ∀ r ∈ c.procs.set i q, WellFormed 0 r.program :=
      forall_set hwf (hprog ▸ hwf p hp)
    rw [hw, Bool.toNat_true] at hcount
    have hmany' : free ≤ (c.procs.set i q).countP waiting := by omega
    obtain ⟨as, hempty, hfinal⟩ := ih ⟨free, c.procs.set i q⟩ rfl hspread' hwf' hmany'
    refine ⟨List.replicate n (.run i ()) ++ as, ?_, ?_⟩
    · rw [Machine.run_append, hparked]
      exact hempty
    · rw [Machine.run_append, hparked]
      exact hfinal

/-- With the pool empty and every call parked or not set out, nothing moves. -/
theorem not_canMove_of_emptied {units : ℕ} {ps : List Program} {c : State} (hunits : 0 < units)
    (hstart : ∀ p ∈ ps, p.head? = some .acquire) (h : Sound units ps c) (hempty : c.shared = 0)
    (hspread : Spread c) : ¬ CanMove c := by
  intro hmove
  have hwait : ∀ p ∈ c.procs, ∃ ops, p.todo = .acquire :: ops := by
    intro p hp
    rcases hspread p hp with ⟨-, hops⟩ | hbegin
    · exact hops
    · have hmem : p.program ∈ ps := h.programs ▸ List.mem_map_of_mem hp
      obtain ⟨ops, hops⟩ := List.head?_eq_some_iff.mp (hstart p.program hmem)
      refine ⟨ops, ?_⟩
      rw [hbegin]
      exact hops
  -- the units are somewhere, so some call has set out and is parked
  have hsum : (c.procs.map Call.held).sum ≠ 0 := by
    have := h.units
    omega
  obtain ⟨p, hp⟩ := List.exists_mem_of_ne_nil c.procs fun hnil => hsum (by simp [hnil])
  obtain ⟨ops, hops⟩ := hwait p hp
  obtain ⟨q, hq, hsome⟩ := hmove ⟨p, hp, by simp [hops]⟩
  obtain ⟨ops', hops'⟩ := hwait q hq
  simp [step, hops', hempty] at hsome

/-- Calls that each begin by asking for a unit can get stuck exactly when as
many of them nest as there are units. -/
theorem canMove_iff {units : ℕ} (hunits : 0 < units) {ps : List Program}
    (hwf : ∀ p ∈ ps, WellFormed 0 p) (hstart : ∀ p ∈ ps, p.head? = some .acquire) :
    (∀ as, CanMove (machine.run (boot units ps) as)) ↔ ps.countP (nests 0) < units := by
  have hsound : ∀ as, Sound units ps (machine.run (boot units ps) as) :=
    Machine.run_keeps exec_sound (boot_sound units hwf)
  constructor
  · intro hmove
    by_contra hmany
    have hspread : Spread (boot units ps) := by
      intro p hp
      obtain ⟨program, -, rfl⟩ := List.mem_map.mp hp
      exact .inr rfl
    have hwf' : ∀ p ∈ (boot units ps).procs, WellFormed 0 p.program := by
      intro p hp
      obtain ⟨program, hmem, rfl⟩ := List.mem_map.mp hp
      exact hwf program hmem
    have hcount : (boot units ps).procs.countP waiting = ps.countP (nests 0) := by
      have hwaiting : waiting ∘ Call.begin = nests 0 := by
        funext program
        simp [waiting, Call.begin]
      rw [boot, List.countP_map, hwaiting]
    obtain ⟨as, hempty, hfinal⟩ :=
      exists_emptied units (boot units ps) rfl hspread hwf' (by omega)
    exact not_canMove_of_emptied hunits hstart (hsound as) hempty hfinal (hmove as)
  · intro hfew as
    exact canMove_of_sound (hsound as) hfew

end ResourcePool
