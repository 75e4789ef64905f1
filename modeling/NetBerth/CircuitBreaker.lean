import NetBerth.Transitions

/-!
# The circuit breaker

The failures are counted under a lock, and the state is a word that is read without it. `Failure`
opens the breaker while it holds the lock, but `Success` closes it only after it has given the lock
back, and every `Allow` that reads the half-open state goes through. So a breaker can be closed with
as many failures as open it, and more than one call can probe. It is different where no call is let
through while the breaker is half-open, and where nothing has happened between the two steps of a
`Success` that its second step undoes.
-/
namespace NetBerth.CircuitBreaker
open Transitions

/-! ## The breaker -/

structure Breaker where
  threshold : ℕ
  halfOpenWait : ℤ
  one_le : 1 ≤ threshold

inductive Word where
  | closed
  | opened
  | halfOpen
  deriving DecidableEq, Repr

inductive Call where
  | allow
  | success
  | failure
  deriving DecidableEq, Repr

/-- Where a call is: before its first step, in `Allow` before the lock, or in `Success` before the
store; `overtaken` says whether an `Allow` was let through since `Success` gave the lock back. -/
inductive Phase where
  | first (c : Call)
  | waiting
  | store (overtaken : Bool)
  deriving DecidableEq, Repr

def Phase.overtake : Phase → Phase
  | store _ => store true
  | p => p

/-- An outcome that is reported while the breaker is not closed, and an `Allow` that has observed
this and returns true. -/
inductive Observed where
  | outcome
  | passed
  deriving DecidableEq, Repr

/-- What was observed last comes first. -/
structure State where
  word : Word
  failures : ℕ
  lastFail : ℕ
  clock : ℕ
  calls : List Phase
  observed : List Observed
  deriving DecidableEq, Repr

/-- `NewBreaker`. -/
def initial : State := ⟨.closed, 0, 0, 0, [], []⟩

namespace State

def pass (s : State) : State :=
  { s with calls := s.calls.map Phase.overtake, observed := .passed :: s.observed }

def report (s : State) : State :=
  if s.word = .closed then s else { s with observed := .outcome :: s.observed }

end State

/-- The next atomic step of a call, and where it is then; nowhere when it has returned. -/
def atomic (b : Breaker) (s : State) : Phase → State × Option Phase
  | .first .allow =>
    match s.word with
    | .closed => (s, none)
    | .halfOpen => (s.pass, none)
    | .opened => (s, some .waiting)
  | .waiting =>
    if b.halfOpenWait < (s.clock : ℤ) - s.lastFail then ({ s.pass with word := .halfOpen }, none)
    else (s, none)
  | .first .success => ({ s.report with failures := 0 }, some (.store false))
  | .store _ => ({ s with word := .closed }, none)
  | .first .failure =>
    ({ s.report with
      failures := s.failures + 1
      lastFail := s.clock
      word := if b.threshold ≤ s.failures + 1 then .opened else s.word }, none)

def resume (calls : List Phase) (i : ℕ) : Option Phase → List Phase
  | some p => calls.set i p
  | none => calls.eraseIdx i

inductive Event where
  | call (c : Call)
  | step (i : ℕ)
  | tick
  deriving DecidableEq, Repr

def step (b : Breaker) (s : State) : Event → Option State
  | .call c => some { s with calls := s.calls ++ [.first c] }
  | .step i => do
    let p ← s.calls[i]?
    let r := atomic b s p
    return { r.1 with calls := resume r.1.calls i r.2 }
  | .tick => some { s with clock := s.clock + 1 }

/-! ## Consistency -/

/-- Between two outcomes without a third one in between there is at most one pass. -/
def Spaced (observed : List Observed) : Prop :=
  ∀ after between before, observed = after ++ .outcome :: (between ++ .outcome :: before) →
    (∀ o ∈ between, o = .passed) → between.length ≤ 1

structure Consistent (b : Breaker) (s : State) : Prop where
  idle : s.calls = [] → s.word = .closed → s.failures < b.threshold
  spaced : Spaced s.observed

/-! ## Orderly runs -/

/-- No call is let through while the breaker is half-open, and a `Success` closes the breaker only
with fewer failures than open it and, where it is not closed, when no call was let through since
its first step. -/
def Phase.Orderly (b : Breaker) (s : State) : Phase → Prop
  | first .allow => s.word ≠ .halfOpen
  | waiting => b.halfOpenWait < (s.clock : ℤ) - s.lastFail → s.word ≠ .halfOpen
  | store overtaken => s.failures < b.threshold ∧ (overtaken = true → s.word = .closed)
  | first .success => True
  | first .failure => True

def Orderly (b : Breaker) (s : State) : Event → Prop
  | .step i => ∀ p ∈ s.calls[i]?, p.Orderly b s
  | .call _ => True
  | .tick => True

/-! ## What an orderly run keeps -/

/-- The passes since the last outcome. -/
def passes (observed : List Observed) : ℕ := (observed.takeWhile (· = .passed)).length

structure Inv (b : Breaker) (s : State) : Prop where
  closed : s.word = .closed → s.failures < b.threshold
  window : passes s.observed = 0 ∨ passes s.observed = 1 ∧ s.word = .halfOpen
  stores : .store false ∈ s.calls → passes s.observed = 0
  spaced : Spaced s.observed

@[simp] theorem passes_passed (l : List Observed) : passes (.passed :: l) = passes l + 1 := by
  simp [passes]

@[simp] theorem passes_outcome (l : List Observed) : passes (.outcome :: l) = 0 := by
  simp [passes]

theorem spaced_passed {l : List Observed} (h : Spaced l) : Spaced (.passed :: l) := by
  intro after between before heq hbetween
  cases after with
  | nil => cases heq
  | cons o after =>
    obtain ⟨-, hl⟩ := List.cons.inj heq
    exact h after between before hl hbetween

/-- The outcome ends the window that the passes since the last one are in. -/
theorem spaced_outcome {l : List Observed} (h : Spaced l) (hpasses : passes l ≤ 1) :
    Spaced (.outcome :: l) := by
  intro after between before heq hbetween
  cases after with
  | nil =>
    obtain ⟨-, hl⟩ := List.cons.inj heq
    have hwindow : passes l = between.length := by
      rw [hl, passes, List.takeWhile_append_of_pos (by simpa using hbetween)]
      simp
    omega
  | cons o after =>
    obtain ⟨-, hl⟩ := List.cons.inj heq
    exact h after between before hl hbetween

theorem Inv.passes_of_ne {b : Breaker} {s : State} (hs : Inv b s) (h : s.word ≠ .halfOpen) :
    passes s.observed = 0 := hs.window.resolve_right fun hpass => h hpass.2

theorem Inv.passes_le {b : Breaker} {s : State} (hs : Inv b s) : passes s.observed ≤ 1 := by
  obtain h | ⟨h, -⟩ := hs.window
  · omega
  · omega

theorem inv_initial (b : Breaker) : Inv b initial := by
  refine ⟨fun _ => b.one_le, .inl rfl, nofun, ?_⟩
  intro after between before heq
  simp [initial] at heq

/-- After a report no call has passed since the last outcome. -/
theorem passes_report {b : Breaker} {s : State} (hs : Inv b s) :
    passes s.report.observed = 0 ∧ Spaced s.report.observed := by
  rw [State.report]
  split
  · rename_i hclosed
    exact ⟨hs.passes_of_ne (by rw [hclosed]; decide), hs.spaced⟩
  · exact ⟨passes_outcome _, spaced_outcome hs.spaced hs.passes_le⟩

/-- A call that is let through finds no other one that was. -/
theorem Inv.pass {b : Breaker} {s : State} (hs : Inv b s) (h : s.word ≠ .halfOpen) :
    Inv b { s.pass with word := .halfOpen } := by
  refine ⟨nofun, .inr ⟨?_, rfl⟩, ?_, spaced_passed hs.spaced⟩
  · have hzero := hs.passes_of_ne h
    simp [State.pass, hzero]
  · intro hmem
    obtain ⟨p, -, hp⟩ := List.mem_map.mp hmem
    cases p with
    | first c => cases hp
    | waiting => cases hp
    | store overtaken => cases hp

/-- One step keeps the invariant, and no call has passed when a `Success` comes before its store. -/
theorem atomic_keeps {b : Breaker} {s : State} {p : Phase} (hs : Inv b s) (hp : p ∈ s.calls)
    (hok : p.Orderly b s) : Inv b (atomic b s p).1 ∧
      ((atomic b s p).2 = some (.store false) → passes (atomic b s p).1.observed = 0) := by
  cases p with
  | first c =>
    cases c with
    | allow =>
      have hword : s.word ≠ .halfOpen := hok
      rw [atomic]
      split
      · exact ⟨hs, nofun⟩
      · contradiction
      · exact ⟨hs, nofun⟩
    | success =>
      obtain ⟨hpasses, hspaced⟩ := passes_report hs
      refine ⟨⟨fun _ => b.one_le, .inl hpasses, fun _ => hpasses, hspaced⟩, fun _ => hpasses⟩
    | failure =>
      obtain ⟨hpasses, hspaced⟩ := passes_report hs
      refine ⟨⟨fun hclosed => ?_, .inl hpasses, fun _ => hpasses, hspaced⟩, nofun⟩
      by_contra hreached
      have hopened : (atomic b s (.first .failure)).1.word = .opened := if_pos (not_lt.mp hreached)
      rw [hopened] at hclosed
      cases hclosed
  | waiting =>
    rw [atomic]
    split
    · rename_i helapsed
      exact ⟨hs.pass (hok helapsed), nofun⟩
    · exact ⟨hs, nofun⟩
  | store overtaken =>
    obtain ⟨hfailures, hovertaken⟩ := hok
    have hpasses : passes s.observed = 0 := by
      cases overtaken with
      | false => exact hs.stores hp
      | true => exact hs.passes_of_ne (by rw [hovertaken rfl]; decide)
    exact ⟨⟨fun _ => hfailures, .inl hpasses, fun _ => hpasses, hs.spaced⟩, nofun⟩

theorem mem_resume {calls : List Phase} {i : ℕ} {next : Option Phase} {p : Phase}
    (h : p ∈ resume calls i next) : p ∈ calls ∨ next = some p := by
  cases next with
  | none => exact .inl (List.mem_of_mem_eraseIdx h)
  | some q =>
    cases List.mem_or_eq_of_mem_set h with
    | inl hmem => exact .inl hmem
    | inr heq => exact .inr (congrArg some heq.symm)

theorem step_keeps {b : Breaker} {s t : State} {e : Event} (hs : Inv b s) (hok : Orderly b s e)
    (h : step b s e = some t) : Inv b t := by
  cases e with
  | call c =>
    obtain rfl := Option.some.inj h
    refine ⟨hs.closed, hs.window, fun hmem => ?_, hs.spaced⟩
    cases List.mem_append.mp hmem with
    | inl hmem => exact hs.stores hmem
    | inr hmem => cases List.mem_singleton.mp hmem
  | tick =>
    obtain rfl := Option.some.inj h
    exact ⟨hs.closed, hs.window, hs.stores, hs.spaced⟩
  | step i =>
    obtain ⟨p, hp, hmove⟩ := Option.bind_eq_some_iff.mp h
    obtain rfl := Option.some.inj hmove
    obtain ⟨hinv, hnext⟩ := atomic_keeps hs (List.mem_of_getElem? hp) (hok p hp)
    refine ⟨hinv.closed, hinv.window, fun hmem => ?_, hinv.spaced⟩
    cases mem_resume hmem with
    | inl hmem => exact hinv.stores hmem
    | inr heq => exact hnext heq

/-- Whatever the calls and their order, a breaker is consistent as long as the run is orderly. -/
theorem consistent_of_orderly {b : Breaker} {s : State} (h : Run (step b) (Orderly b) initial s) :
    Consistent b s := by
  have hs : Inv b s :=
    h.invariant (fun _ _ _ hs hok hstep => step_keeps hs hok hstep) (inv_initial b)
  exact ⟨fun _ => hs.closed, hs.spaced⟩

instance decidablePhaseOrderly (b : Breaker) (s : State) (p : Phase) : Decidable (p.Orderly b s) := by
  rcases p with (_ | _ | _) | _ | _ <;> unfold Phase.Orderly <;> infer_instance

instance decidableOrderly (b : Breaker) (s : State) (e : Event) : Decidable (Orderly b s e) := by
  cases e <;> unfold Orderly <;> infer_instance

def oneFailure : Breaker := ⟨1, 0, le_rfl⟩

/-- A failure and a success that has been called before it, with an `Allow` between the two steps of
the success; then a failure, an interval, and a probe that fails. -/
def probe : List Event :=
  [.call .success, .call .failure, .step 1, .step 0, .call .allow, .step 1, .step 0, .step 0,
    .call .failure, .step 0, .tick, .call .allow, .call .failure, .step 0, .step 0, .step 0]

theorem probe_consistent :
    Consistent oneFailure ⟨.opened, 2, 1, 1, [], [.outcome, .passed, .outcome]⟩ := by
  have hrun : probe.foldlM (fun s e =>
      if Orderly oneFailure s e then step oneFailure s e else none) initial =
        some ⟨.opened, 2, 1, 1, [], [.outcome, .passed, .outcome]⟩ := by decide
  exact consistent_of_orderly (Run.of_foldlM_guarded hrun)

/-- The failure comes between the two steps of the success. -/
def lateSuccess : List Event := [.call .success, .step 0, .call .failure, .step 1, .step 0]

/-- Two failures, and two calls that are let through before the next outcome. -/
def twoProbes : List Event :=
  [.call .failure, .step 0, .call .failure, .step 0, .tick, .call .allow, .step 0, .step 0,
    .call .allow, .step 0, .call .success, .step 0]

theorem late_success_and_two_probes :
    (¬∀ (b : Breaker) (s : State), Run (step b) Always initial s →
      s.calls = [] → s.word = .closed → s.failures < b.threshold) ∧
    ¬∀ (b : Breaker) (s : State), Run (step b) Always initial s → Spaced s.observed := by
  constructor
  · intro h
    have hrun : lateSuccess.foldlM (step oneFailure) initial = some ⟨.closed, 1, 0, 0, [], []⟩ := by
      decide
    exact absurd (h _ _ (Run.of_foldlM hrun) rfl rfl) (by decide)
  · intro h
    have hrun : twoProbes.foldlM (step oneFailure) initial = some ⟨.halfOpen, 0, 0, 1,
        [.store false], [.outcome, .passed, .passed, .outcome]⟩ := by decide
    have hlength := h _ _ (Run.of_foldlM hrun) [] [.passed, .passed] [] rfl (by decide)
    revert hlength
    decide

end NetBerth.CircuitBreaker
