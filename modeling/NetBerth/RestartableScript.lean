import NetBerth.Interleaving

/-!
# Scripts that can be started again

A script is a list of statements, each of which does nothing once it is done. Whoever executes it
begins with the first one and stops where one fails, and may be stopped at any point. However
many do so at the same time, what they share is what some first part of the script makes of the
beginning: those who are behind change nothing.
-/
namespace RestartableScript
open Interleaving

section
variable {σ ι : Type*} (exec : ι → σ → Option σ)

/-- All statements in their order; `none` where one fails. -/
def runAll : List ι → σ → Option σ
  | [], s => some s
  | i :: is, s => (exec i s).bind (runAll is)

/-- A statement is done after it has been executed, stays done and then does nothing. -/
structure Settling (done : ι → σ → Prop) : Prop where
  settles : ∀ {i s s'}, exec i s = some s' → done i s'
  keeps : ∀ {i j s s'}, exec j s = some s' → done i s → done i s'
  idle : ∀ {i s}, done i s → exec i s = some s

/-- What is left to execute, or how the execution has ended otherwise. -/
inductive Proc (ι : Type*) where
  | todo (rest : List ι)
  | failed
  | killed

/-- A statement is tried, or fails for a reason of its own. -/
inductive Choice where
  | go
  | fail
  | kill
  deriving DecidableEq, Repr

def step (a : Choice) (s : σ) : Proc ι → Option (σ × Proc ι)
  | .todo (i :: rest) =>
    match a with
    | .go =>
      match exec i s with
      | some s' => some (s', .todo rest)
      | none => some (s, .failed)
    | .fail => some (s, .failed)
    | .kill => some (s, .killed)
  | _ => none

/-- Each one that begins has the whole script to execute. -/
def machine (script : List ι) : Machine σ (Proc ι) Unit Choice := ⟨fun _ => .todo script, step exec⟩

variable {exec}

theorem runAll_append (is js : List ι) (s : σ) :
    runAll exec (is ++ js) s = (runAll exec is s).bind (runAll exec js) := by
  induction is generalizing s with
  | nil => rfl
  | cons i is ih =>
    rw [List.cons_append, runAll, runAll, Option.bind_assoc]
    exact congrArg (Option.bind _) (funext ih)

/-- What every statement of a list keeps to, all of them together keep to. -/
theorem runAll_rel {R : σ → σ → Prop} (hrefl : ∀ s, R s s)
    (htrans : ∀ {s t u}, R s t → R t u → R s u) {is : List ι}
    (hexec : ∀ i ∈ is, ∀ {s s'}, exec i s = some s' → R s s') {s s' : σ}
    (hrun : runAll exec is s = some s') : R s s' := by
  induction is generalizing s with
  | nil =>
    cases hrun
    exact hrefl _
  | cons i is ih =>
    obtain ⟨hi, his⟩ := List.forall_mem_cons.mp hexec
    obtain ⟨t, hfirst, hrest⟩ := Option.bind_eq_some_iff.mp hrun
    exact htrans (hi hfirst) (ih his hrest)

/-- Two scripts whose statements correspond, from what corresponds. -/
theorem runAll_related {τ κ : Type*} {exec' : κ → τ → Option τ} {R : σ → τ → Prop}
    {S : ι → κ → Prop}
    (hexec : ∀ {i j s s' t t'}, S i j → R s t → exec i s = some s' → exec' j t = some t' → R s' t')
    {is : List ι} {js : List κ} (hlists : List.Forall₂ S is js) {s s' : σ} {t t' : τ}
    (hst : R s t) (hs : runAll exec is s = some s') (ht : runAll exec' js t = some t') :
    R s' t' := by
  induction hlists generalizing s t with
  | nil =>
    cases hs
    cases ht
    exact hst
  | cons hij _ ih =>
    obtain ⟨u, hi, hrest⟩ := Option.bind_eq_some_iff.mp hs
    obtain ⟨v, hj, hrest'⟩ := Option.bind_eq_some_iff.mp ht
    exact ih (hexec hij hst hi hj) hrest hrest'

variable {done : ι → σ → Prop} {script : List ι} {s₀ s : σ}

theorem Settling.kept (h : Settling exec done) {i : ι} {is : List ι} {s' : σ} (hi : done i s)
    (hrun : runAll exec is s = some s') : done i s' := by
  induction is generalizing s with
  | nil =>
    cases hrun
    exact hi
  | cons j is ih =>
    obtain ⟨t, hj, hrest⟩ := Option.bind_eq_some_iff.mp hrun
    exact ih (h.keeps hj hi) hrest

theorem Settling.all_done (h : Settling exec done) {is : List ι} {s' : σ}
    (hrun : runAll exec is s = some s') : ∀ i ∈ is, done i s' := by
  induction is generalizing s with
  | nil => exact List.forall_mem_nil _
  | cons i is ih =>
    obtain ⟨t, hi, hrest⟩ := Option.bind_eq_some_iff.mp hrun
    exact List.forall_mem_cons.mpr ⟨h.kept (h.settles hi) hrest, ih hrest⟩

/-- What is done can be executed again. -/
theorem Settling.runAll_done (h : Settling exec done) {is : List ι} (hdone : ∀ i ∈ is, done i s) :
    runAll exec is s = some s := by
  induction is with
  | nil => rfl
  | cons i is ih =>
    obtain ⟨hi, hrest⟩ := List.forall_mem_cons.mp hdone
    rw [runAll, h.idle hi, Option.bind_some, ih hrest]

/-- From where a first part of the script has led, the whole script leads where it would have led
from the beginning. -/
theorem Settling.runAll_again (h : Settling exec done) {k : ℕ}
    (hrun : runAll exec (script.take k) s₀ = some s) :
    runAll exec script s = runAll exec script s₀ := by
  have hagain : runAll exec (script.take k) s = some s := h.runAll_done (h.all_done hrun)
  rw [← List.take_append_drop k script, runAll_append, runAll_append, hagain, hrun]

/-- What is shared is a first part of the script, and nobody is ahead of it. -/
def Behind (exec : ι → σ → Option σ) (script : List ι) (s₀ : σ) (c : Config σ (Proc ι)) : Prop :=
  ∃ k ≤ script.length, runAll exec (script.take k) s₀ = some c.shared ∧
    ∀ rest, .todo rest ∈ c.procs → ∃ j ≤ k, rest = script.drop j

theorem Settling.step_behind (h : Settling exec done) {a : Choice} {s' : σ} {p q : Proc ι} {k : ℕ}
    (hk : k ≤ script.length) (hrun : runAll exec (script.take k) s₀ = some s)
    (hp : ∀ rest, p = .todo rest → ∃ j ≤ k, rest = script.drop j)
    (hstep : step exec a s p = some (s', q)) :
    ∃ k' ≤ script.length, k ≤ k' ∧ runAll exec (script.take k') s₀ = some s' ∧
      ∀ rest, q = .todo rest → ∃ j ≤ k', rest = script.drop j := by
  cases p with
  | failed | killed => cases hstep
  | todo rest =>
    cases rest with
    | nil => cases hstep
    | cons i rest =>
      obtain ⟨j, hj, hdrop⟩ := hp _ rfl
      have hlt : j < script.length := by
        by_contra hge
        rw [List.drop_of_length_le (not_lt.mp hge)] at hdrop
        cases hdrop
      rw [List.drop_eq_getElem_cons hlt] at hdrop
      obtain ⟨rfl, rfl⟩ := List.cons.inj hdrop
      cases a with
      | fail | kill =>
        cases hstep
        exact ⟨k, hk, le_rfl, hrun, nofun⟩
      | go =>
        cases hexec : exec script[j] s with
        | none =>
          simp only [step, hexec] at hstep
          cases hstep
          exact ⟨k, hk, le_rfl, hrun, nofun⟩
        | some t =>
          simp only [step, hexec] at hstep
          cases hstep
          rcases hj.lt_or_eq with hbehind | rfl
          · -- others have executed the statement
            have hmem : script[j] ∈ script.take k := by
              rw [List.mem_take_iff_getElem]
              exact ⟨j, lt_min hbehind hlt, rfl⟩
            rw [h.idle (h.all_done hrun _ hmem)] at hexec
            cases hexec
            refine ⟨k, hk, le_rfl, hrun, ?_⟩
            rintro _ ⟨⟩
            exact ⟨j + 1, hbehind, rfl⟩
          · refine ⟨j + 1, hlt, Nat.le_succ j, ?_, ?_⟩
            · rw [List.take_succ_eq_append_getElem hlt, runAll_append, hrun, Option.bind_some,
                runAll, hexec]
              rfl
            · rintro _ ⟨⟩
              exact ⟨j + 1, le_rfl, rfl⟩

theorem Settling.exec_behind (h : Settling exec done) (c : Config σ (Proc ι)) (a : Act Unit Choice)
    (hc : Behind exec script s₀ c) : Behind exec script s₀ ((machine exec script).exec c a) := by
  obtain ⟨k, hk, hrun, hprocs⟩ := hc
  rcases (machine exec script).exec_cases c a with
    ⟨r, -, he⟩ | ⟨i, b, p, s, q, -, hp, hstep, he⟩ | he
  · rw [he]
    refine ⟨k, hk, hrun, fun rest hrest => ?_⟩
    rcases List.mem_append.mp hrest with hrest | hrest
    · exact hprocs rest hrest
    · have hnew : Proc.todo rest = .todo script := List.mem_singleton.mp hrest
      obtain rfl := Proc.todo.inj hnew
      exact ⟨0, Nat.zero_le k, rfl⟩
  · obtain ⟨k', hk', hle, hrun', hq⟩ := h.step_behind hk hrun
      (fun rest hrest => hprocs rest (hrest ▸ List.mem_of_getElem? hp)) hstep
    rw [he]
    refine ⟨k', hk', hrun', fun rest hrest => ?_⟩
    rcases List.mem_or_eq_of_mem_set hrest with hold | hnew
    · obtain ⟨j, hj, hdrop⟩ := hprocs rest hold
      exact ⟨j, hj.trans hle, hdrop⟩
    · exact hq rest hnew.symm
  · rw [he]
    exact ⟨k, hk, hrun, hprocs⟩

/-- Of any number of executions, begun at any time, interleaved, failed and killed: what they
share is a first part of the script, it is the whole once one of them is through, and the next
one that is left alone ends as if it had been the only one. -/
theorem Settling.run_behind (h : Settling exec done) (script : List ι) (s₀ : σ)
    (as : List (Act Unit Choice)) :
    let c := (machine exec script).run ⟨s₀, []⟩ as
    (∃ k, runAll exec (script.take k) s₀ = some c.shared) ∧
      (.todo [] ∈ c.procs → runAll exec script s₀ = some c.shared) ∧
      runAll exec script c.shared = runAll exec script s₀ := by
  have hstart : Behind exec script s₀ (⟨s₀, []⟩ : Config σ (Proc ι)) :=
    ⟨0, Nat.zero_le _, rfl, fun _ hrest => nomatch hrest⟩
  obtain ⟨k, hk, hrun, hprocs⟩ := Machine.run_keeps (fun c a => h.exec_behind c a) hstart as
  refine ⟨⟨k, hrun⟩, fun hthrough => ?_, h.runAll_again hrun⟩
  obtain ⟨j, hj, hdrop⟩ := hprocs [] hthrough
  have hlen : script.length ≤ j := List.drop_eq_nil_iff.mp hdrop.symm
  rwa [List.take_of_length_le (hlen.trans hj)] at hrun

end
end RestartableScript
