import Mathlib

/-!
# Processes interleaved over one shared state

A machine starts a process for each request and lets any process take one
atomic step at a time on a state that all of them share. A run is an arbitrary
list of actions: requests arrive at any moment, and a process that cannot move
is left as it is, so no schedule is excluded.

The rules below are the ones a proof about all runs needs. An invariant that
every action keeps holds throughout the run; one that speaks about the shared
state and each process on its own only needs the mover and the noninterference
with the others; and ghost fields may record a history without touching it.
-/
namespace Interleaving

structure Config (σ π : Type*) where
  shared : σ
  procs : List π
  deriving DecidableEq, Repr

/-- A request arrives, or process `i` moves with the choice `a`. -/
inductive Act (ρ α : Type*) where
  | spawn (r : ρ)
  | run (i : ℕ) (a : α)
  deriving DecidableEq, Repr

structure Machine (σ π ρ α : Type*) where
  start : ρ → π
  step : α → σ → π → Option (σ × π)

namespace Machine
variable {σ π ρ α : Type*} (M : Machine σ π ρ α)

def exec (c : Config σ π) : Act ρ α → Config σ π
  | .spawn r => { c with procs := c.procs ++ [M.start r] }
  | .run i a =>
    match c.procs[i]? with
    | none => c
    | some p =>
      match M.step a c.shared p with
      | none => c
      | some (s, q) => ⟨s, c.procs.set i q⟩

def run (c : Config σ π) (as : List (Act ρ α)) : Config σ π := as.foldl M.exec c

@[simp] theorem run_nil (c : Config σ π) : M.run c [] = c := rfl

@[simp] theorem run_cons (c : Config σ π) (a : Act ρ α) (as : List (Act ρ α)) :
    M.run c (a :: as) = M.run (M.exec c a) as := rfl

theorem run_append (c : Config σ π) (as bs : List (Act ρ α)) :
    M.run c (as ++ bs) = M.run (M.run c as) bs := List.foldl_append

/-- Everything one action can do: add a process, move one, or nothing. -/
theorem exec_cases (c : Config σ π) (a : Act ρ α) :
    (∃ r, a = .spawn r ∧ M.exec c a = { c with procs := c.procs ++ [M.start r] }) ∨
    (∃ i b p s q, a = .run i b ∧ c.procs[i]? = some p ∧ M.step b c.shared p = some (s, q) ∧
      M.exec c a = ⟨s, c.procs.set i q⟩) ∨
    M.exec c a = c := by
  cases a with
  | spawn r => exact .inl ⟨r, rfl, rfl⟩
  | run i b =>
    cases hp : c.procs[i]? with
    | none => exact .inr (.inr (by simp only [exec, hp]))
    | some p =>
      cases hs : M.step b c.shared p with
      | none => exact .inr (.inr (by simp only [exec, hp, hs]))
      | some t => exact .inr (.inl ⟨i, b, p, t.1, t.2, rfl, hp, hs, by simp only [exec, hp, hs]⟩)

/-- `ok` is met by every action of the run, in the state the action finds. -/
def Along (ok : Config σ π → Act ρ α → Prop) : Config σ π → List (Act ρ α) → Prop
  | _, [] => True
  | c, a :: as => ok c a ∧ Along ok (M.exec c a) as

/-- `ok` is met by some action of the run, in the state the action finds. -/
def Met (ok : Config σ π → Act ρ α → Prop) : Config σ π → List (Act ρ α) → Prop
  | _, [] => False
  | c, a :: as => ok c a ∨ Met ok (M.exec c a) as

/-- A condition on the process an action moves, in the state it moves from. -/
def Moves (P : Config σ π → π → Prop) (c : Config σ π) : Act ρ α → Prop
  | .spawn _ => True
  | .run i _ => ∀ p ∈ c.procs[i]?, P c p

instance (P : Config σ π → π → Prop) [∀ c p, Decidable (P c p)] (c : Config σ π) :
    (a : Act ρ α) → Decidable (Moves P c a)
  | .spawn _ => inferInstanceAs (Decidable True)
  | .run i _ => inferInstanceAs (Decidable (∀ p ∈ c.procs[i]?, P c p))

instance Along.decidable (ok : Config σ π → Act ρ α → Prop) [∀ c a, Decidable (ok c a)] :
    (c : Config σ π) → (as : List (Act ρ α)) → Decidable (M.Along ok c as)
  | _, [] => inferInstanceAs (Decidable True)
  | c, a :: as =>
    have := Along.decidable ok (M.exec c a) as
    inferInstanceAs (Decidable (ok c a ∧ M.Along ok (M.exec c a) as))

instance Met.decidable (ok : Config σ π → Act ρ α → Prop) [∀ c a, Decidable (ok c a)] :
    (c : Config σ π) → (as : List (Act ρ α)) → Decidable (M.Met ok c as)
  | _, [] => inferInstanceAs (Decidable False)
  | c, a :: as =>
    have := Met.decidable ok (M.exec c a) as
    inferInstanceAs (Decidable (ok c a ∨ M.Met ok (M.exec c a) as))

/-- `I` holds in every state the run passes through, the first and last included. -/
def Throughout (I : Config σ π → Prop) : Config σ π → List (Act ρ α) → Prop
  | c, [] => I c
  | c, a :: as => I c ∧ Throughout I (M.exec c a) as

variable {M} {I : Config σ π → Prop} {ok : Config σ π → Act ρ α → Prop}

theorem Throughout.first {c : Config σ π} {as : List (Act ρ α)} (h : M.Throughout I c as) :
    I c := by
  cases as with
  | nil => exact h
  | cons a as => exact h.1

theorem Throughout.last {c : Config σ π} {as : List (Act ρ α)} (h : M.Throughout I c as) :
    I (M.run c as) := by
  induction as generalizing c with
  | nil => exact h
  | cons a as ih => exact ih h.2

theorem Throughout.mono {J : Config σ π → Prop} (hIJ : ∀ c, I c → J c) {c : Config σ π}
    {as : List (Act ρ α)} (h : M.Throughout I c as) : M.Throughout J c as := by
  induction as generalizing c with
  | nil => exact hIJ c h
  | cons a as ih => exact ⟨hIJ c h.1, ih h.2⟩

/-- A state is reached by a run exactly when some prefix of the run ends in it. -/
theorem throughout_iff_prefix (c : Config σ π) (as : List (Act ρ α)) :
    M.Throughout I c as ↔ ∀ bs, bs <+: as → I (M.run c bs) := by
  induction as generalizing c with
  | nil => simp [Throughout]
  | cons a as ih =>
    simp only [Throughout, ih]
    constructor
    · rintro ⟨hc, ht⟩ bs hbs
      cases bs with
      | nil => exact hc
      | cons b bs =>
        obtain ⟨rfl, hrest⟩ := List.cons_prefix_cons.mp hbs
        exact ht bs hrest
    · intro h
      exact ⟨h [] List.nil_prefix, fun bs hbs => h (a :: bs) (List.cons_prefix_cons.mpr ⟨rfl, hbs⟩)⟩

theorem throughout_of_step (hstep : ∀ c a, I c → ok c a → I (M.exec c a))
    {c : Config σ π} {as : List (Act ρ α)} (hc : I c) (has : M.Along ok c as) :
    M.Throughout I c as := by
  induction as generalizing c with
  | nil => exact hc
  | cons a as ih => exact ⟨hc, ih (hstep c a hc has.1) has.2⟩

theorem run_invariant (hstep : ∀ c a, I c → ok c a → I (M.exec c a))
    {c : Config σ π} {as : List (Act ρ α)} (hc : I c) (has : M.Along ok c as) :
    I (M.run c as) := (throughout_of_step hstep hc has).last

theorem run_keeps (hstep : ∀ c a, I c → I (M.exec c a)) {c : Config σ π} (hc : I c)
    (as : List (Act ρ α)) : I (M.run c as) := by
  induction as generalizing c with
  | nil => exact hc
  | cons a as ih => exact ih (hstep c a hc)

/-- Where `ok` decides exactly whether one action keeps `I`, it decides it for runs. -/
theorem throughout_iff_along (hstep : ∀ c a, I c → (I (M.exec c a) ↔ ok c a))
    {c : Config σ π} (as : List (Act ρ α)) (hc : I c) :
    M.Throughout I c as ↔ M.Along ok c as := by
  induction as generalizing c with
  | nil => exact ⟨fun _ => trivial, fun _ => hc⟩
  | cons a as ih =>
    constructor
    · rintro ⟨_, ht⟩
      exact ⟨(hstep c a hc).mp ht.first, (ih ht.first).mp ht⟩
    · rintro ⟨ha, has⟩
      exact ⟨hc, (ih ((hstep c a hc).mpr ha)).mpr has⟩

/-- What only certain actions bring about, and none undoes, is there at the end
if it was there at the start or one of them was met. -/
theorem run_iff_met (hstep : ∀ c a, I (M.exec c a) ↔ I c ∨ ok c a) (c : Config σ π)
    (as : List (Act ρ α)) : I (M.run c as) ↔ I c ∨ M.Met ok c as := by
  induction as generalizing c with
  | nil => simp [Met]
  | cons a as ih => rw [run_cons, ih, hstep, Met, or_assoc]

/-- A condition on the actions themselves. -/
theorem along_of_forall {ok : Act ρ α → Prop} {c : Config σ π} {as : List (Act ρ α)}
    (h : ∀ a ∈ as, ok a) : M.Along (fun _ a => ok a) c as := by
  induction as generalizing c with
  | nil => trivial
  | cons a as ih =>
    exact ⟨h a (List.mem_cons_self ..), ih fun b hb => h b (List.mem_cons_of_mem _ hb)⟩

theorem Along.and {ok' : Config σ π → Act ρ α → Prop} {c : Config σ π} {as : List (Act ρ α)}
    (h : M.Along ok c as) (h' : M.Along ok' c as) : M.Along (fun c a => ok c a ∧ ok' c a) c as := by
  induction as generalizing c with
  | nil => trivial
  | cons a as ih => exact ⟨⟨h.1, h'.1⟩, ih h.2 h'.2⟩

/-- `n` steps of one process while the others wait. -/
def alone (M : Machine σ π ρ α) (a : α) : ℕ → σ → π → Option (σ × π)
  | 0, s, p => some (s, p)
  | n + 1, s, p => (M.step a s p).bind fun t => alone M a n t.1 t.2

theorem alone_succ {s s' : σ} {p q : π} {a : α} {n : ℕ} {t : σ × π}
    (h : M.step a s p = some (s', q)) (hrest : M.alone a n s' q = some t) :
    M.alone a (n + 1) s p = some t := by
  rw [alone, h]
  exact hrest

theorem run_alone {c : Config σ π} {i n : ℕ} {a : α} {p q : π} {s : σ} (hp : c.procs[i]? = some p)
    (h : M.alone a n c.shared p = some (s, q)) :
    M.run c (List.replicate n (.run i a)) = ⟨s, c.procs.set i q⟩ := by
  induction n generalizing c p with
  | zero =>
    cases h
    obtain ⟨hi, rfl⟩ := List.getElem?_eq_some_iff.mp hp
    simp
  | succ n ih =>
    obtain ⟨⟨s', p'⟩, hstep, hrest⟩ := Option.bind_eq_some_iff.mp h
    have hexec : M.exec c (.run i a) = ⟨s', c.procs.set i p'⟩ := by
      simp only [exec, hp, hstep]
    have hi : i < c.procs.length := (List.getElem?_eq_some_iff.mp hp).choose
    rw [List.replicate_succ, run_cons, hexec, ih (by simp [hi]) hrest, List.set_set]

end Machine

/-! ## The list of processes -/

section
variable {π : Type*} {l : List π} {i : ℕ} {p q : π}

theorem forall_set {P : π → Prop} (h : ∀ r ∈ l, P r) (hq : P q) : ∀ r ∈ l.set i q, P r := by
  intro r hr
  rcases List.mem_or_eq_of_mem_set hr with hr | rfl
  · exact h r hr
  · exact hq

theorem mem_set_self (hp : l[i]? = some p) : q ∈ l.set i q :=
  List.mem_set (List.getElem?_eq_some_iff.mp hp).choose q

/-- Moving one process keeps every other one; a witness is lost only if it moved. -/
theorem exists_set {P : π → Prop} (hp : l[i]? = some p) (h : ∃ r ∈ l, P r) :
    P p ∨ ∃ r ∈ l.set i q, P r := by
  obtain ⟨r, hr, hP⟩ := h
  obtain ⟨j, hj⟩ := List.mem_iff_getElem?.mp hr
  by_cases hij : i = j
  · subst hij
    exact .inl ((Option.some.inj (hp.symm.trans hj)) ▸ hP)
  · refine .inr ⟨r, List.mem_iff_getElem?.mpr ⟨j, ?_⟩, hP⟩
    rw [List.getElem?_set_ne hij]
    exact hj

/-- A relation between any two processes at different places. -/
def Pairs (R : π → π → Prop) (l : List π) : Prop :=
  ∀ (i j : ℕ) (p q : π), i ≠ j → l[i]? = some p → l[j]? = some q → R p q

variable {R : π → π → Prop}

theorem Pairs.spawn (h : Pairs R l) (hq : ∀ p ∈ l, R p q ∧ R q p) : Pairs R (l ++ [q]) := by
  have hplace : ∀ {k : ℕ} {r : π}, (l ++ [q])[k]? = some r →
      l[k]? = some r ∨ k = l.length ∧ r = q := by
    intro k r hk
    rcases lt_or_ge k l.length with hlt | hge
    · rw [List.getElem?_append_left hlt] at hk
      exact .inl hk
    · rw [List.getElem?_append_right hge, List.getElem?_singleton] at hk
      obtain ⟨hzero, hr⟩ := Option.ite_none_right_eq_some.mp hk
      exact .inr ⟨by omega, (Option.some.inj hr).symm⟩
  intro i j x y hij hi hj
  rcases hplace hi with hx | ⟨hilen, rfl⟩
  · rcases hplace hj with hy | ⟨-, rfl⟩
    · exact h i j x y hij hx hy
    · exact (hq x (List.mem_of_getElem? hx)).1
  · rcases hplace hj with hy | ⟨hjlen, -⟩
    · exact (hq y (List.mem_of_getElem? hy)).2
    · exact absurd (hilen.trans hjlen.symm) hij

/-- At each place there is the mover or the process that was there before. -/
theorem getElem?_set_cases {k : ℕ} {r : π} (hk : (l.set i q)[k]? = some r) :
    k = i ∧ r = q ∨ k ≠ i ∧ l[k]? = some r := by
  by_cases hki : k = i
  · rw [hki, List.getElem?_set, if_pos rfl] at hk
    obtain ⟨-, hr⟩ := Option.ite_none_right_eq_some.mp hk
    exact .inl ⟨hki, (Option.some.inj hr).symm⟩
  · rw [List.getElem?_set_ne (Ne.symm hki)] at hk
    exact .inr ⟨hki, hk⟩

/-- The mover is related to the others as before, or anew. -/
theorem Pairs.set (h : Pairs R l)
    (hq : ∀ (j : ℕ) (r : π), j ≠ i → l[j]? = some r → R q r ∧ R r q) : Pairs R (l.set i q) := by
  intro j k x y hjk hj hk
  rcases getElem?_set_cases hj with ⟨rfl, rfl⟩ | ⟨hji, hx⟩
  · rcases getElem?_set_cases hk with ⟨hkj, -⟩ | ⟨hkj, hy⟩
    · exact absurd hkj.symm hjk
    · exact (hq k y hkj hy).1
  · rcases getElem?_set_cases hk with ⟨rfl, rfl⟩ | ⟨hki, hy⟩
    · exact (hq j x hji hx).2
    · exact h j k x y hjk hx hy

theorem sum_map_set (f : π → ℕ) (hp : l[i]? = some p) :
    ((l.set i q).map f).sum + f p = (l.map f).sum + f q := by
  induction l generalizing i with
  | nil => simp at hp
  | cons r l ih =>
    cases i with
    | zero =>
      obtain rfl : r = p := by simpa using hp
      simp only [List.set_cons_zero, List.map_cons, List.sum_cons]
      omega
    | succ i =>
      have := ih (i := i) (by simpa using hp)
      simp only [List.set_cons_succ, List.map_cons, List.sum_cons]
      omega

theorem countP_set (P : π → Bool) (hp : l[i]? = some p) :
    (l.set i q).countP P + (P p).toNat = l.countP P + (P q).toNat := by
  obtain ⟨hi, rfl⟩ := List.getElem?_eq_some_iff.mp hp
  have hle := List.boole_getElem_le_countP (p := P) hi
  rw [List.countP_set hi]
  cases hq : P q <;> cases hl : P l[i] <;>
    simp only [hl, Bool.false_eq_true, if_false, if_true, Bool.toNat_false, Bool.toNat_true]
      at hle ⊢ <;> omega

theorem sum_map_toNat (P : π → Bool) (l : List π) : (l.map fun r => (P r).toNat).sum = l.countP P := by
  induction l with
  | nil => rfl
  | cons r l ih =>
    rw [List.map_cons, List.sum_cons, ih, List.countP_cons]
    cases hr : P r <;> simp [Nat.add_comm]

end

/-! ## A set of which each process owns a part -/

/-- The set has what some process has. -/
def Owned {π β : Type*} (f : π → Option β) (s : Finset β) (l : List π) : Prop :=
  ∀ x, x ∈ s ↔ ∃ p ∈ l, f p = some x

section
variable {π β : Type*} {f : π → Option β} {s : Finset β} {l : List π} {i : ℕ} {p q : π}

/-- After a move there is the mover, and there are those at the other places. -/
theorem exists_mem_set_iff {P : π → Prop} (hp : l[i]? = some p) :
    (∃ r ∈ l.set i q, P r) ↔ P q ∨ ∃ j r, j ≠ i ∧ l[j]? = some r ∧ P r := by
  constructor
  · rintro ⟨r, hr, hP⟩
    obtain ⟨j, hj⟩ := List.mem_iff_getElem?.mp hr
    rcases getElem?_set_cases hj with ⟨-, rfl⟩ | ⟨hji, hr⟩
    · exact .inl hP
    · exact .inr ⟨j, r, hji, hr, hP⟩
  · rintro (hP | ⟨j, r, hji, hr, hP⟩)
    · exact ⟨q, mem_set_self hp, hP⟩
    · refine ⟨r, List.mem_iff_getElem?.mpr ⟨j, ?_⟩, hP⟩
      rw [List.getElem?_set_ne (Ne.symm hji)]
      exact hr

theorem exists_mem_iff {P : π → Prop} (hp : l[i]? = some p) :
    (∃ r ∈ l, P r) ↔ P p ∨ ∃ j r, j ≠ i ∧ l[j]? = some r ∧ P r := by
  obtain ⟨hi, hself⟩ := List.getElem?_eq_some_iff.mp hp
  have hset : l.set i p = l := by
    rw [← hself]
    exact List.set_getElem_self hi
  have h := exists_mem_set_iff (q := p) (P := P) hp
  rwa [hset] at h

theorem Owned.spawn (h : Owned f s l) (hq : f q = none) : Owned f s (l ++ [q]) := by
  intro x
  rw [h x]
  constructor
  · rintro ⟨r, hr, hx⟩
    exact ⟨r, List.mem_append_left _ hr, hx⟩
  · rintro ⟨r, hr, hx⟩
    rcases List.mem_append.mp hr with hr | hr
    · exact ⟨r, hr, hx⟩
    · obtain rfl := List.mem_singleton.mp hr
      rw [hq] at hx
      cases hx

theorem Owned.same (h : Owned f s l) (hp : l[i]? = some p) (hq : f q = f p) :
    Owned f s (l.set i q) := by
  intro x
  rw [h x, exists_mem_set_iff hp, exists_mem_iff hp, hq]

theorem Owned.insert [DecidableEq β] (h : Owned f s l) (hp : l[i]? = some p) {y : β}
    (hpnone : f p = none) (hq : f q = some y) : Owned f (insert y s) (l.set i q) := by
  intro x
  rw [Finset.mem_insert, h x, exists_mem_set_iff hp, exists_mem_iff hp, hpnone, hq]
  simp only [reduceCtorEq, false_or, Option.some.injEq, eq_comm (a := x)]

theorem Owned.erase [DecidableEq β] (h : Owned f s l) (hp : l[i]? = some p) {y : β}
    (hpy : f p = some y) (hq : f q = none)
    (hothers : ∀ j r, j ≠ i → l[j]? = some r → f r ≠ some y) :
    Owned f (s.erase y) (l.set i q) := by
  intro x
  rw [Finset.mem_erase, h x, exists_mem_set_iff hp, exists_mem_iff hp, hpy, hq]
  constructor
  · rintro ⟨hne, hx | hx⟩
    · exact absurd (Option.some.inj hx).symm hne
    · exact .inr hx
  · rintro (hx | ⟨j, r, hji, hr, hx⟩)
    · cases hx
    · refine ⟨?_, .inr ⟨j, r, hji, hr, hx⟩⟩
      rintro rfl
      exact hothers j r hji hr hx

end

/-! ## Invariants of the shared state and of each process -/

/-- What holds of the shared state, and of each process against it. -/
def Holds {σ π : Type*} (G : σ → Prop) (L : σ → π → Prop) (c : Config σ π) : Prop :=
  G c.shared ∧ ∀ p ∈ c.procs, L c.shared p

/-- The mover keeps its own assertion and interferes with nobody else's. -/
theorem Holds.exec {σ π ρ α : Type*} {M : Machine σ π ρ α} {G : σ → Prop} {L : σ → π → Prop}
    {c : Config σ π} {a : Act ρ α} (h : Holds G L c)
    (hstart : ∀ r, L c.shared (M.start r))
    (hmove : ∀ i b p s q, a = .run i b → c.procs[i]? = some p → M.step b c.shared p = some (s, q) →
      G s ∧ L s q ∧ ∀ r ∈ c.procs, L c.shared r → L s r) :
    Holds G L (M.exec c a) := by
  rcases M.exec_cases c a with ⟨r, -, he⟩ | ⟨i, b, p, s, q, ha, hp, hs, he⟩ | he
  · rw [he]
    refine ⟨h.1, ?_⟩
    intro p hp
    rcases List.mem_append.mp hp with hp | hp
    · exact h.2 p hp
    · exact List.mem_singleton.mp hp ▸ hstart r
  · rw [he]
    obtain ⟨hG, hq, hother⟩ := hmove i b p s q ha hp hs
    exact ⟨hG, forall_set (fun r hr => hother r hr (h.2 r hr)) hq⟩
  · rw [he]
    exact h

/-- Assertions about each process alone: a request that meets `R` starts a process that
meets `L`, and such a process keeps `L` and what holds of the shared state. -/
structure Kept {σ π ρ α : Type*} (M : Machine σ π ρ α) (G : σ → Prop) (L : π → Prop)
    (R : ρ → Prop) : Prop where
  start : ∀ r, R r → L (M.start r)
  step : ∀ a s p s' q, G s → L p → M.step a s p = some (s', q) → G s' ∧ L q

theorem Kept.throughout {σ π ρ α : Type*} {M : Machine σ π ρ α} {G : σ → Prop} {L : π → Prop}
    {R : ρ → Prop} (h : Kept M G L R) {c : Config σ π} (hc : Holds G (fun _ => L) c)
    {as : List (Act ρ α)} (has : ∀ r, .spawn r ∈ as → R r) :
    M.Throughout (fun c => G c.shared) c as := by
  have hrun : M.Along (fun _ a => ∀ r, a = .spawn r → R r) c as :=
    Machine.along_of_forall fun a ha r hr => has r (hr ▸ ha)
  have hall : M.Throughout (Holds G fun _ => L) c as := by
    refine Machine.throughout_of_step (fun c a hI ha => ?_) hc hrun
    rcases M.exec_cases c a with ⟨r, hr, he⟩ | ⟨i, b, p, s, q, -, hp, hs, he⟩ | he
    · rw [he]
      refine ⟨hI.1, fun p hp => ?_⟩
      rcases List.mem_append.mp hp with hp | hp
      · exact hI.2 p hp
      · exact List.mem_singleton.mp hp ▸ h.start r (ha r hr)
    · rw [he]
      obtain ⟨hG, hq⟩ := h.step b _ p s q hI.1 (hI.2 p (List.mem_of_getElem? hp)) hs
      exact ⟨hG, forall_set hI.2 hq⟩
    · rw [he]
      exact hI
  exact hall.mono fun _ hI => hI.1

/-- Two machines side by side. -/
def Machine.both {σ π ρ τ κ ξ α : Type*} (M : Machine σ π ρ α) (N : Machine τ κ ξ α) :
    Machine (σ × τ) (π ⊕ κ) (ρ ⊕ ξ) α where
  start := Sum.map M.start N.start
  step a s
    | .inl p => (M.step a s.1 p).map fun t => ((t.1, s.2), .inl t.2)
    | .inr q => (N.step a s.2 q).map fun t => ((s.1, t.1), .inr t.2)

theorem Kept.both {σ π ρ τ κ ξ α : Type*} {M : Machine σ π ρ α} {N : Machine τ κ ξ α}
    {G : σ → Prop} {L : π → Prop} {R : ρ → Prop} {G' : τ → Prop} {L' : κ → Prop} {R' : ξ → Prop}
    (h : Kept M G L R) (h' : Kept N G' L' R') :
    Kept (M.both N) (fun s => G s.1 ∧ G' s.2) (Sum.elim L L') (Sum.elim R R') where
  start
    | .inl r, hr => h.start r hr
    | .inr r, hr => h'.start r hr
  step
    | a, s, .inl p, _, _, hG, hp, hs => by
      obtain ⟨t, ht, he⟩ := Option.map_eq_some_iff.mp hs
      cases he
      obtain ⟨hG₁, hq⟩ := h.step a _ p _ _ hG.1 hp ht
      exact ⟨⟨hG₁, hG.2⟩, hq⟩
    | a, s, .inr p, _, _, hG, hp, hs => by
      obtain ⟨t, ht, he⟩ := Option.map_eq_some_iff.mp hs
      cases he
      obtain ⟨hG₂, hq⟩ := h'.step a _ p _ _ hG.2 hp ht
      exact ⟨⟨hG.1, hG₂⟩, hq⟩

/-! ## Ghost fields -/

/-- Ghost fields beside the shared state and beside each process. They are
written from what a step did and are never read by it. -/
def Machine.withGhost {σ π ρ α μ ν : Type*} (M : Machine σ π ρ α) (init : ν)
    (feed : σ → π → σ → π → μ × ν → μ × ν) : Machine (σ × μ) (π × ν) ρ α where
  start r := (M.start r, init)
  step a s p := (M.step a s.1 p.1).map fun t =>
    let g := feed s.1 p.1 t.1 t.2 (s.2, p.2)
    ((t.1, g.1), (t.2, g.2))

def Config.erase {σ π μ ν : Type*} (c : Config (σ × μ) (π × ν)) : Config σ π :=
  ⟨c.shared.1, c.procs.map Prod.fst⟩

theorem erase_exec {σ π ρ α μ ν : Type*} (M : Machine σ π ρ α) (init : ν)
    (feed : σ → π → σ → π → μ × ν → μ × ν) (c : Config (σ × μ) (π × ν)) (a : Act ρ α) :
    ((M.withGhost init feed).exec c a).erase = M.exec c.erase a := by
  cases a with
  | spawn r => simp [Machine.exec, Machine.withGhost, Config.erase]
  | run i b =>
    cases hp : c.procs[i]? with
    | none => simp [Machine.exec, Config.erase, hp]
    | some p =>
      cases hs : M.step b c.shared.1 p.1 with
      | none => simp [Machine.exec, Machine.withGhost, Config.erase, hp, hs]
      | some t => simp [Machine.exec, Machine.withGhost, Config.erase, hp, hs, List.map_set]

/-- A condition on the run itself may be read off the ghosted run. -/
theorem along_erase {σ π ρ α μ ν : Type*} (M : Machine σ π ρ α) (init : ν)
    (feed : σ → π → σ → π → μ × ν → μ × ν) (ok : Config σ π → Act ρ α → Prop)
    (c : Config (σ × μ) (π × ν)) (as : List (Act ρ α)) :
    (M.withGhost init feed).Along (fun c a => ok c.erase a) c as ↔ M.Along ok c.erase as := by
  induction as generalizing c with
  | nil => rfl
  | cons a as ih => simp only [Machine.Along, ih, erase_exec]

end Interleaving
