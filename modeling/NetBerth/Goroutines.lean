import NetBerth.Interleaving

/-!
# Goroutines that start others

A program says what one atomic step of a goroutine makes of the shared state
and of itself, and which goroutines it starts. A run moves an arbitrary
goroutine in each step; one that cannot move is left as it is. What is counted
over all goroutines changes with the mover and with those it starts, and an
invariant may speak about the shared state and each goroutine on its own.
-/
namespace Goroutines
open Interleaving

/-- A step with the choice `a` gives the shared state, what is left of the
goroutine and the goroutines it starts. -/
structure Program (σ π α : Type*) where
  step : α → σ → π → Option (σ × π × List π)

/-- Goroutine `fst` moves with the choice `snd`. -/
abbrev Move (α : Type*) := ℕ × α

namespace Program
variable {σ π α : Type*} (P : Program σ π α)

def exec (c : Config σ π) (m : Move α) : Config σ π :=
  match c.procs[m.1]? with
  | none => c
  | some p =>
    match P.step m.2 c.shared p with
    | none => c
    | some (s, q, started) => ⟨s, c.procs.set m.1 q ++ started⟩

def run (c : Config σ π) (ms : List (Move α)) : Config σ π := ms.foldl P.exec c

@[simp] theorem run_nil (c : Config σ π) : P.run c [] = c := rfl

@[simp] theorem run_cons (c : Config σ π) (m : Move α) (ms : List (Move α)) :
    P.run c (m :: ms) = P.run (P.exec c m) ms := rfl

/-- Everything a move can do: a step of the goroutine it names, or nothing. -/
theorem exec_cases (c : Config σ π) (m : Move α) :
    (∃ p s q started, c.procs[m.1]? = some p ∧ P.step m.2 c.shared p = some (s, q, started) ∧
      P.exec c m = ⟨s, c.procs.set m.1 q ++ started⟩) ∨ P.exec c m = c := by
  cases hp : c.procs[m.1]? with
  | none => exact .inr (by simp only [exec, hp])
  | some p =>
    cases hs : P.step m.2 c.shared p with
    | none => exact .inr (by simp only [exec, hp, hs])
    | some t => exact .inl ⟨p, t.1, t.2.1, t.2.2, rfl, hs, by simp only [exec, hp, hs]⟩

/-- `ok` is met by every move of the run, in the state the move finds. -/
def Along (ok : Config σ π → Move α → Prop) : Config σ π → List (Move α) → Prop
  | _, [] => True
  | c, m :: ms => ok c m ∧ Along ok (P.exec c m) ms

instance Along.decidable (ok : Config σ π → Move α → Prop) [∀ c m, Decidable (ok c m)] :
    (c : Config σ π) → (ms : List (Move α)) → Decidable (P.Along ok c ms)
  | _, [] => inferInstanceAs (Decidable True)
  | c, m :: ms =>
    have := Along.decidable ok (P.exec c m) ms
    inferInstanceAs (Decidable (ok c m ∧ P.Along ok (P.exec c m) ms))

variable {P} {I : Config σ π → Prop} {ok : Config σ π → Move α → Prop}

theorem run_invariant (hstep : ∀ c m, I c → ok c m → I (P.exec c m)) {c : Config σ π}
    {ms : List (Move α)} (hc : I c) (hms : P.Along ok c ms) : I (P.run c ms) := by
  induction ms generalizing c with
  | nil => exact hc
  | cons m ms ih => exact ih (hstep c m hc hms.1) hms.2

theorem run_keeps (hstep : ∀ c m, I c → I (P.exec c m)) {c : Config σ π} (hc : I c)
    (ms : List (Move α)) : I (P.run c ms) := by
  induction ms generalizing c with
  | nil => exact hc
  | cons m ms ih => exact ih (hstep c m hc)

/-- Two conditions along one run. -/
theorem Along.and {ok' : Config σ π → Move α → Prop} {c : Config σ π} {ms : List (Move α)}
    (h : P.Along ok c ms) (h' : P.Along ok' c ms) : P.Along (fun c m => ok c m ∧ ok' c m) c ms := by
  induction ms generalizing c with
  | nil => trivial
  | cons m ms ih => exact ⟨⟨h.1, h'.1⟩, ih h.2 h'.2⟩

end Program

/-- What is added up over the goroutines changes with the mover and with those it starts. -/
theorem sum_map_move {π : Type*} (f : π → ℕ) {l : List π} {i : ℕ} {p q : π} (started : List π)
    (hp : l[i]? = some p) :
    ((l.set i q ++ started).map f).sum + f p = (l.map f).sum + f q + (started.map f).sum := by
  have hset := sum_map_set (q := q) f hp
  rw [List.map_append, List.sum_append]
  omega

/-- What is counted over the goroutines changes with the mover and with those it starts. -/
theorem countP_move {π : Type*} (P : π → Bool) {l : List π} {i : ℕ} {p q : π} (started : List π)
    (hp : l[i]? = some p) :
    (l.set i q ++ started).countP P + (P p).toNat =
      l.countP P + (P q).toNat + started.countP P := by
  have hset := countP_set (q := q) P hp
  rw [List.countP_append]
  omega

/-- What the mover keeps and those it starts do not have is the same over all goroutines. -/
theorem filterMap_move {π β : Type*} (f : π → Option β) {l : List π} {i : ℕ} {p q : π}
    {started : List π} (hp : l[i]? = some p) (hq : f q = f p) (hstarted : ∀ r ∈ started, f r = none) :
    (l.set i q ++ started).filterMap f = l.filterMap f := by
  have hset : (l.set i q).filterMap f = l.filterMap f := by
    induction l generalizing i with
    | nil => rfl
    | cons r l ih =>
      cases i with
      | zero =>
        obtain rfl : r = p := by simpa using hp
        rw [List.set_cons_zero, List.filterMap_cons, List.filterMap_cons, hq]
      | succ i =>
        have hrest := ih (i := i) (by simpa using hp)
        rw [List.set_cons_succ, List.filterMap_cons, List.filterMap_cons, hrest]
  rw [List.filterMap_append, hset, List.filterMap_eq_nil_iff.mpr hstarted, List.append_nil]

/-- What only the goroutine with a tag adds is what it adds, where no two have the same tag. -/
theorem sum_map_tagged {π β : Type*} (tag : π → Option β) (f : π → ℕ) {l : List π}
    (hnodup : (l.filterMap tag).Nodup) {p : π} {b : β} (hp : p ∈ l) (hb : tag p = some b)
    (hzero : ∀ r ∈ l, tag r ≠ some b → f r = 0) : (l.map f).sum = f p := by
  induction l with
  | nil => cases hp
  | cons r l ih =>
    have hlater : ∀ r ∈ l, tag r ≠ some b → f r = 0 :=
      fun r hr => hzero r (List.mem_cons_of_mem _ hr)
    rw [List.filterMap_cons] at hnodup
    rw [List.map_cons, List.sum_cons]
    obtain rfl | hmem := List.mem_cons.mp hp
    · rw [hb] at hnodup
      have hothers : (l.map f).sum = 0 := by
        rw [List.sum_eq_zero_iff, List.forall_mem_map]
        intro q hq
        refine hlater q hq fun htag => ?_
        exact (List.nodup_cons.mp hnodup).1 (List.mem_filterMap.mpr ⟨q, hq, htag⟩)
      rw [hothers, Nat.add_zero]
    · have hother : tag r ≠ some b := by
        intro htag
        rw [htag] at hnodup
        exact (List.nodup_cons.mp hnodup).1 (List.mem_filterMap.mpr ⟨p, hmem, hb⟩)
      have hrest : (l.filterMap tag).Nodup := by
        cases htag : tag r with
        | none => rwa [htag] at hnodup
        | some c =>
          rw [htag] at hnodup
          exact hnodup.of_cons
      rw [hzero r List.mem_cons_self hother, Nat.zero_add, ih hrest hmem hlater]

/-- The mover keeps its own assertion, starts goroutines that meet theirs and
interferes with nobody else's. -/
theorem Holds.move {σ π α : Type*} {P : Program σ π α} {G : σ → Prop} {L : σ → π → Prop}
    {c : Config σ π} {m : Move α} (h : Holds G L c)
    (hmove : ∀ p s q started, p ∈ c.procs → P.step m.2 c.shared p = some (s, q, started) →
      G s ∧ L s q ∧ (∀ r ∈ started, L s r) ∧ ∀ r ∈ c.procs, L c.shared r → L s r) :
    Holds G L (P.exec c m) := by
  rcases P.exec_cases c m with ⟨p, s, q, started, hp, hs, he⟩ | he
  · rw [he]
    obtain ⟨hG, hq, hstarted, hother⟩ := hmove p s q started (List.mem_of_getElem? hp) hs
    refine ⟨hG, fun r hr => ?_⟩
    rcases List.mem_append.mp hr with hr | hr
    · exact forall_set (fun r hr => hother r hr (h.2 r hr)) hq r hr
    · exact hstarted r hr
  · rw [he]
    exact h

/-! ## One program in the place of another -/

/-- Each step of `P` is seen as a step of `Q`, or not at all. -/
def Program.Refines {σ π α τ κ β : Type*} (P : Program σ π α) (Q : Program τ κ β)
    (shared : σ → τ) (view : π → κ) : Prop :=
  ∀ a s p s' q started, P.step a s p = some (s', q, started) →
    (∃ b, Q.step b (shared s) (view p) = some (shared s', view q, started.map view)) ∨
      shared s' = shared s ∧ view q = view p ∧ started = []

section
variable {σ π α τ κ β : Type*} {P : Program σ π α} {Q : Program τ κ β} {shared : σ → τ}
  {view : π → κ}

def viewed (shared : σ → τ) (view : π → κ) (c : Config σ π) : Config τ κ :=
  ⟨shared c.shared, c.procs.map view⟩

theorem Program.Refines.exec (h : P.Refines Q shared view) (c : Config σ π) (m : Move α) :
    ∃ ns, Q.run (viewed shared view c) ns = viewed shared view (P.exec c m) := by
  rcases P.exec_cases c m with ⟨p, s, q, started, hp, hs, he⟩ | he
  · rw [he]
    have hview : (c.procs.map view)[m.1]? = some (view p) := by
      rw [List.getElem?_map, hp, Option.map_some]
    rcases h _ _ _ _ _ _ hs with ⟨b, hb⟩ | ⟨hshared, hq, rfl⟩
    · refine ⟨[(m.1, b)], ?_⟩
      simp only [Program.run_cons, Program.run_nil, Program.exec, viewed, hview, hb,
        List.map_append, List.map_set]
    · refine ⟨[], ?_⟩
      have hset : (c.procs.map view).set m.1 (view p) = c.procs.map view := by
        obtain ⟨hi, hself⟩ := List.getElem?_eq_some_iff.mp hview
        rw [← hself]
        exact List.set_getElem_self hi
      simp only [Program.run_nil, viewed, hshared, List.append_nil, List.map_set, hq, hset]
  · exact ⟨[], by rw [he, Program.run_nil]⟩

/-- What `P` is seen to do is a run of `Q`. -/
theorem Program.Refines.run (h : P.Refines Q shared view) (c : Config σ π) (ms : List (Move α)) :
    ∃ ns, Q.run (viewed shared view c) ns = viewed shared view (P.run c ms) := by
  induction ms generalizing c with
  | nil => exact ⟨[], rfl⟩
  | cons m ms ih =>
    obtain ⟨first, hfirst⟩ := h.exec c m
    obtain ⟨rest, hrest⟩ := ih (P.exec c m)
    refine ⟨first ++ rest, ?_⟩
    rw [Program.run_cons, ← hrest, ← hfirst]
    exact List.foldl_append

end

end Goroutines
