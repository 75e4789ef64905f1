import Mathlib.Data.Nat.Basic
import Mathlib.Data.List.Basic
import Mathlib.Tactic

/-!
# Searching through nested blocks

Numbers are cut into blocks, on each of which a field has one value, and the blocks of one field
into those of the next. To find the next number whose fields all have values that are wanted,
each field in turn goes on from block to block until it has one. A field that comes to its first
value again has left the block of the field before it, and then the search starts with the first
field again.

The search passes over no number with the wanted values, and it goes on until it has found one
or is told to stop.
-/
namespace FieldSearch

/-- A field, what is wanted of it, the start of the block of a number, and the step from there to
the next block. -/
structure Field where
  value : ℕ → ℕ
  first : ℕ
  size : ℕ
  wanted : ℕ → Bool
  reset : ℕ → ℕ
  advance : ℕ → ℕ

inductive Outcome where
  | passed (t : ℕ) (added : Bool)
  | wrapped (t : ℕ)
  deriving DecidableEq, Repr

/-- One loop. The number is moved to the start of its block only if nothing was added before. -/
def seek (f : Field) : (fuel : ℕ) → ℕ → Bool → Outcome
  | 0, t, added => .passed t added
  | fuel + 1, t, added =>
    if f.wanted t then .passed t added
    else
      let t := f.advance (if added then t else f.reset t)
      if f.value t = f.first then .wrapped t else seek f fuel t true

/-- The loops one after the other. -/
def seekAll : List Field → ℕ → Bool → Outcome
  | [], t, added => .passed t added
  | f :: fs, t, added =>
    match seek f (f.size + 1) t added with
    | .wrapped t => .wrapped t
    | .passed t added => seekAll fs t added

def search (fs : List Field) (stop : ℕ → Bool) : (fuel : ℕ) → ℕ → Bool → Option ℕ
  | 0, _, _ => none
  | fuel + 1, t, added =>
    if stop t then none
    else
      match seekAll fs t added with
      | .passed t _ => some t
      | .wrapped t => search fs stop fuel t true

/-! ## Fields and their blocks -/

def Field.next (f : Field) (t : ℕ) : ℕ := f.advance (f.reset t)

/-- Up to the next block nothing changes, and the next block begins at its start. -/
structure Field.Lawful (f : Field) : Prop where
  lt_next : ∀ t, t < f.next t
  wanted_eq : ∀ t v, t ≤ v → v < f.next t → f.wanted v = f.wanted t
  next_eq : ∀ t v, t ≤ v → v < f.next t → f.next v = f.next t
  reset_next : ∀ t, f.reset (f.next t) = f.next t

/-- The value goes up by one from block to block, or comes to the first one again. -/
structure Field.Cyclic (f : Field) : Prop where
  first_le : ∀ t, f.first ≤ f.value t
  lt_size : ∀ t, f.value t < f.first + f.size
  value_next : ∀ t, f.value (f.next t) = f.first ∨ f.value (f.next t) = f.value t + 1

/-- The blocks of the second field divide those of the first, and its values begin again with
each of those. -/
structure Refines (h f : Field) : Prop where
  reset : ∀ t, h.reset t = t → f.reset t = t
  next_le : ∀ t, f.next t ≤ h.next t
  value_eq : ∀ t, h.reset t = t → f.value t = f.first

/-- A number that was moved stands at the start of a block if that is not wanted. -/
def Field.Ready (f : Field) (t : ℕ) : Prop := f.wanted t = true ∨ f.reset t = t

def Wanted (fs : List Field) (t : ℕ) : Prop := ∀ f ∈ fs, f.wanted t = true

section
variable {f g h : Field} {t v : ℕ}

theorem Refines.trans (hhg : Refines h g) (hgf : Refines g f) : Refines h f where
  reset t ht := hgf.reset t (hhg.reset t ht)
  next_le t := (hgf.next_le t).trans (hhg.next_le t)
  value_eq t ht := hgf.value_eq t (hhg.reset t ht)

theorem Refines.next_lt (hr : Refines h f) (hh : h.Lawful) (hwrap : f.value (f.next t) ≠ f.first) :
    f.next t < h.next t := by
  refine (hr.next_le t).lt_of_ne fun heq => hwrap ?_
  rw [heq]
  exact hr.value_eq _ (hh.reset_next t)

theorem Field.Lawful.not_wanted (hf : f.Lawful) (hwanted : f.wanted t = false) (htv : t ≤ v)
    (hv : v < f.next t) : f.wanted v = false := by
  rw [hf.wanted_eq t v htv hv, hwanted]

/-- A step of a field that stays within a wanted block, or leads to the start of the next one. -/
theorem Field.Lawful.ready_next (hh : h.Lawful) (hr : Refines h f) (hf : f.Lawful)
    (hwanted : h.wanted t = true) : h.Ready (f.next t) := by
  obtain hlt | heq := (hr.next_le t).lt_or_eq
  · refine .inl ?_
    rw [hh.wanted_eq t _ (hf.lt_next t).le hlt, hwanted]
  · refine .inr ?_
    rw [heq, hh.reset_next]

/-- Blocks of one length. -/
structure Field.Even (f : Field) (length : ℕ) : Prop where
  pos : 0 < length
  reset_eq : ∀ t, f.reset t = t / length * length
  advance_eq : ∀ t, f.advance t = t + length
  wanted_eq : ∀ t v, t / length = v / length → f.wanted t = f.wanted v

theorem Field.Even.next_eq {length : ℕ} (hf : f.Even length) (t : ℕ) :
    f.next t = (t / length + 1) * length := by
  rw [Field.next, hf.advance_eq, hf.reset_eq, Nat.add_mul, Nat.one_mul]

theorem Field.Even.div_eq {length : ℕ} (hf : f.Even length) (htv : t ≤ v) (hv : v < f.next t) :
    v / length = t / length := by
  rw [hf.next_eq] at hv
  exact le_antisymm (Nat.lt_succ_iff.mp ((Nat.div_lt_iff_lt_mul hf.pos).mpr hv))
    (Nat.div_le_div_right htv)

theorem Field.Even.lawful {length : ℕ} (hf : f.Even length) : f.Lawful where
  lt_next t := by
    rw [hf.next_eq]
    exact Nat.lt_mul_of_div_lt (Nat.lt_succ_self _) hf.pos
  wanted_eq t v htv hv := hf.wanted_eq v t (hf.div_eq htv hv)
  next_eq t v htv hv := by
    rw [hf.next_eq, hf.next_eq, hf.div_eq htv hv]
  reset_next t := by
    rw [hf.next_eq, hf.reset_eq, Nat.mul_div_cancel _ hf.pos]

theorem Field.Even.refines {length k : ℕ} (hh : h.Even (k * length)) (hf : f.Even length)
    (hvalue : ∀ n, f.value (n * (k * length)) = f.first) : Refines h f where
  reset t ht := by
    rw [hh.reset_eq] at ht
    rw [hf.reset_eq]
    refine Nat.div_mul_cancel ?_
    rw [← ht, ← Nat.mul_assoc]
    exact Dvd.intro_left _ rfl
  next_le t := by
    rw [hf.next_eq, hh.next_eq, ← Nat.mul_assoc]
    refine Nat.mul_le_mul_right _ (Nat.succ_le_of_lt ?_)
    rw [Nat.div_lt_iff_lt_mul hf.pos, Nat.mul_assoc]
    exact Nat.lt_mul_of_div_lt (Nat.lt_succ_self _) hh.pos
  value_eq t ht := by
    rw [hh.reset_eq] at ht
    rw [← ht]
    exact hvalue _

/-- The step of the loop is the one to the next block. -/
theorem advance_eq {added : Bool} (hready : added = true → f.Ready t)
    (hwanted : f.wanted t = false) : f.advance (if added then t else f.reset t) = f.next t := by
  cases added with
  | false => rfl
  | true =>
    obtain hw | hreset := hready rfl
    · rw [hw] at hwanted
      cases hwanted
    · rw [Field.next, hreset]
      rfl

end

/-! ## One loop -/

/-- The loop of a field, from a number at which the fields before it have wanted values. -/
structure Sought (hs : List Field) (f : Field) (t : ℕ) (added : Bool) (o : Outcome) : Prop where
  passed : ∀ u added', o = .passed u added' → t ≤ u ∧ Wanted hs u ∧ f.wanted u = true ∧
    (∀ v, t ≤ v → v < u → f.wanted v = false) ∧ (u = t ∧ added' = added ∨ f.reset u = u)
  wrapped : ∀ u, o = .wrapped u → t < u ∧ (∀ v, t ≤ v → v < u → f.wanted v = false) ∧
    f.reset u = u ∧ ∀ h ∈ hs, h.Ready u

section
variable {f : Field} {hs : List Field} {t : ℕ} {added : Bool}

theorem wanted_next (hh : ∀ h ∈ hs, h.Lawful ∧ Refines h f) (hf : f.Lawful)
    (hhs : Wanted hs t) (hwrap : f.value (f.next t) ≠ f.first) : Wanted hs (f.next t) := by
  intro h hmem
  rw [(hh h hmem).1.wanted_eq t _ (hf.lt_next t).le ((hh h hmem).2.next_lt (hh h hmem).1 hwrap)]
  exact hhs h hmem

/-- One step before the rest of the loop. -/
theorem Sought.step {o : Outcome} (hf : f.Lawful) (hwanted : f.wanted t = false)
    (hrest : Sought hs f (f.next t) true o) : Sought hs f t added o := by
  have hbefore : ∀ u, (∀ v, f.next t ≤ v → v < u → f.wanted v = false) →
      ∀ v, t ≤ v → v < u → f.wanted v = false := by
    intro u hafter v htv hvu
    by_cases hlt : v < f.next t
    · exact hf.not_wanted hwanted htv hlt
    · exact hafter v (by omega) hvu
  have hlt := hf.lt_next t
  constructor
  · intro u added' ho
    obtain ⟨hle, hhs, hu, hnone, hstart⟩ := hrest.passed u added' ho
    refine ⟨by omega, hhs, hu, hbefore u hnone, .inr ?_⟩
    obtain ⟨rfl, -⟩ | hreset := hstart
    · exact hf.reset_next t
    · exact hreset
  · intro u ho
    obtain ⟨hlt', hnone, hreset, hready⟩ := hrest.wrapped u ho
    exact ⟨by omega, hbefore u hnone, hreset, hready⟩

theorem sought_seek (hh : ∀ h ∈ hs, h.Lawful ∧ Refines h f) (hf : f.Lawful) (hc : f.Cyclic)
    {fuel : ℕ} (hfuel : f.first + f.size < fuel + f.value t) (hhs : Wanted hs t)
    (hready : added = true → f.Ready t) : Sought hs f t added (seek f fuel t added) := by
  induction fuel generalizing t added with
  | zero =>
    have hlt := hc.lt_size t
    omega
  | succ fuel ih =>
    rw [seek]
    cases hwanted : f.wanted t with
    | true =>
      rw [if_pos rfl]
      constructor
      · intro u added' ho
        cases ho
        exact ⟨le_rfl, hhs, hwanted, fun v htv hvt => absurd hvt (not_lt.mpr htv), .inl ⟨rfl, rfl⟩⟩
      · intro u ho
        cases ho
    | false =>
      rw [if_neg Bool.false_ne_true]
      dsimp only
      rw [advance_eq hready hwanted]
      by_cases hwrap : f.value (f.next t) = f.first
      · rw [if_pos hwrap]
        constructor
        · intro u added' ho
          cases ho
        · intro u ho
          cases ho
          exact ⟨hf.lt_next t, fun v => hf.not_wanted hwanted, hf.reset_next t,
            fun h hmem => (hh h hmem).1.ready_next (hh h hmem).2 hf (hhs h hmem)⟩
      · rw [if_neg hwrap]
        refine .step hf hwanted (ih ?_ (wanted_next hh hf hhs hwrap) fun _ => .inr (hf.reset_next t))
        obtain hvalue | hvalue := hc.value_next t
        · exact absurd hvalue hwrap
        · omega

end

/-! ## All loops -/

/-- The fields from the first to the last; those before them are the `hs`. -/
structure Chain (hs fs : List Field) : Prop where
  lawful : ∀ f ∈ hs ++ fs, f.Lawful
  cyclic : ∀ f ∈ fs, f.Cyclic
  refines : (hs ++ fs).Pairwise Refines

structure Found (hs fs : List Field) (t : ℕ) (o : Outcome) : Prop where
  passed : ∀ u added, o = .passed u added → t ≤ u ∧ Wanted hs u ∧ Wanted fs u ∧
    ∀ v, t ≤ v → v < u → ¬Wanted fs v
  wrapped : ∀ u, o = .wrapped u → t < u ∧ (∀ v, t ≤ v → v < u → ¬Wanted fs v) ∧
    ∀ f ∈ hs ++ fs, f.Ready u

section
variable {f : Field} {hs fs : List Field} {t : ℕ} {added : Bool}

theorem Chain.tail (h : Chain hs (f :: fs)) : Chain (hs ++ [f]) fs where
  lawful := by simpa using h.lawful
  cyclic g hg := h.cyclic g (List.mem_cons_of_mem _ hg)
  refines := by simpa using h.refines

theorem Chain.refines_head (h : Chain hs (f :: fs)) : ∀ g ∈ hs, Refines g f := fun g hg =>
  (List.pairwise_append.mp h.refines).2.2 g hg f (List.mem_cons_self ..)

theorem Chain.refined_by_head (h : Chain hs (f :: fs)) : ∀ g ∈ fs, Refines f g := fun g hg =>
  (List.pairwise_cons.mp (List.pairwise_append.mp h.refines).2.1).1 g hg

theorem wanted_concat {u : ℕ} : Wanted (hs ++ [f]) u ↔ Wanted hs u ∧ f.wanted u = true := by
  simp [Wanted, or_imp, forall_and]

theorem wanted_cons {u : ℕ} : Wanted (f :: fs) u ↔ f.wanted u = true ∧ Wanted fs u := by
  simp [Wanted]

theorem found_seekAll (h : Chain hs fs) (hhs : Wanted hs t)
    (hready : added = true → ∀ f ∈ fs, f.Ready t) : Found hs fs t (seekAll fs t added) := by
  induction fs generalizing hs t added with
  | nil =>
    constructor
    · intro u added' ho
      cases ho
      exact ⟨le_rfl, hhs, by simp [Wanted], fun v htv hvt => absurd hvt (not_lt.mpr htv)⟩
    · intro u ho
      cases ho
  | cons f fs ih =>
    have hf : f.Lawful := h.lawful f (by simp)
    have hc : f.Cyclic := h.cyclic f (List.mem_cons_self ..)
    have hsought : Sought hs f t added (seek f (f.size + 1) t added) := by
      refine sought_seek (fun g hg => ⟨h.lawful g (by simp [hg]), h.refines_head g hg⟩) hf hc ?_ hhs
        fun hadded => hready hadded f (List.mem_cons_self ..)
      have hfirst := hc.first_le t
      omega
    have hskip : ∀ u, (∀ v, t ≤ v → v < u → f.wanted v = false) →
        ∀ v, t ≤ v → v < u → ¬Wanted (f :: fs) v := by
      intro u hnone v htv hvu hv
      have hwanted := (wanted_cons.mp hv).1
      rw [hnone v htv hvu] at hwanted
      cases hwanted
    rw [seekAll]
    cases ho : seek f (f.size + 1) t added with
    | wrapped u =>
      obtain ⟨hlt, hnone, hreset, hhsready⟩ := hsought.wrapped u ho
      constructor
      · intro u' added' ho'
        cases ho'
      · intro u' ho'
        cases ho'
        refine ⟨hlt, hskip u hnone, ?_⟩
        simp only [List.mem_append, List.mem_cons]
        rintro g (hg | rfl | hg)
        · exact hhsready g hg
        · exact .inr hreset
        · exact .inr ((h.refined_by_head g hg).reset u hreset)
    | passed u added' =>
      obtain ⟨hle, hhsu, hu, hnone, hstart⟩ := hsought.passed u added' ho
      have hreadyu : added' = true → ∀ g ∈ fs, g.Ready u := by
        intro hadded' g hg
        obtain ⟨rfl, rfl⟩ | hreset := hstart
        · exact hready hadded' g (List.mem_cons_of_mem _ hg)
        · exact .inr ((h.refined_by_head g hg).reset u hreset)
      have hrest := ih h.tail (wanted_concat.mpr ⟨hhsu, hu⟩) hreadyu
      have hbefore : ∀ w, (∀ v, u ≤ v → v < w → ¬Wanted fs v) →
          ∀ v, t ≤ v → v < w → ¬Wanted (f :: fs) v := by
        intro w hafter v htv hvw hv
        by_cases hvu : v < u
        · exact hskip u hnone v htv hvu hv
        · exact hafter v (not_lt.mp hvu) hvw (wanted_cons.mp hv).2
      dsimp only
      constructor
      · intro w addedw ho'
        obtain ⟨huw, hhsw, hfsw, hnonew⟩ := hrest.passed w addedw ho'
        obtain ⟨hhsw, hfw⟩ := wanted_concat.mp hhsw
        exact ⟨hle.trans huw, hhsw, wanted_cons.mpr ⟨hfw, hfsw⟩, hbefore w hnonew⟩
      · intro w ho'
        obtain ⟨huw, hnonew, hreadyw⟩ := hrest.wrapped w ho'
        exact ⟨hle.trans_lt huw, hbefore w hnonew, by simpa using hreadyw⟩

end

/-! ## The search -/

/-- Where the search is told to stop: outside of the block of a field of its own. -/
structure Bounded (year : Field) (stop : ℕ → Bool) (last : ℕ) : Prop where
  wanted_eq : ∀ t, year.wanted t = !stop t
  mono : ∀ t v, t ≤ v → stop t = true → stop v = true
  last : stop last = true

section
variable {year : Field} {fs : List Field} {stop : ℕ → Bool} {last t u : ℕ} {added : Bool}

/-- The first number from `t` on that has the wanted values and comes before the stop. -/
def IsNext (fs : List Field) (stop : ℕ → Bool) (t u : ℕ) : Prop :=
  t ≤ u ∧ stop u = false ∧ Wanted fs u ∧ ∀ v, t ≤ v → v < u → ¬Wanted fs v

theorem IsNext.of_later {w : ℕ} (htw : t ≤ w) (hnone : ∀ v, t ≤ v → v < w → ¬Wanted fs v)
    (h : IsNext fs stop w u) : IsNext fs stop t u := by
  obtain ⟨hwu, hstop, hwanted, hmin⟩ := h
  refine ⟨htw.trans hwu, hstop, hwanted, fun v htv hvu => ?_⟩
  by_cases hvw : v < w
  · exact hnone v htv hvw
  · exact hmin v (not_lt.mp hvw) hvu

theorem search_spec (h : Chain [year] fs) (hb : Bounded year stop last) {fuel : ℕ}
    (hfuel : last < fuel + t) (hpos : 0 < fuel) (hready : added = true → ∀ f ∈ fs, f.Ready t) :
    (∀ u, search fs stop fuel t added = some u → IsNext fs stop t u) ∧
      (search fs stop fuel t added = none → ∀ v, t ≤ v → stop v = false → ¬Wanted fs v) := by
  induction fuel generalizing t added with
  | zero => omega
  | succ fuel ih =>
    rw [search]
    cases hstop : stop t with
    | true =>
      rw [if_pos rfl]
      refine ⟨nofun, fun _ v htv hv => ?_⟩
      rw [hb.mono t v htv hstop] at hv
      cases hv
    | false =>
      rw [if_neg Bool.false_ne_true]
      have hyear : Wanted [year] t := by simp [Wanted, hb.wanted_eq, hstop]
      have hfound := found_seekAll h hyear hready
      cases ho : seekAll fs t added with
      | passed w addedw =>
        obtain ⟨htw, hyearw, hwanted, hmin⟩ := hfound.passed w addedw ho
        refine ⟨?_, nofun⟩
        rintro u ⟨⟩
        have hstopw : stop w = false := by simpa [Wanted, hb.wanted_eq] using hyearw
        exact ⟨htw, hstopw, hwanted, hmin⟩
      | wrapped w =>
        obtain ⟨htw, hnone, hreadyw⟩ := hfound.wrapped w ho
        have hnotlast : t < last := by
          by_contra hle
          rw [hb.mono last t (not_lt.mp hle) hb.last] at hstop
          cases hstop
        have hready' : true = true → ∀ f ∈ fs, f.Ready w := fun _ f hf => hreadyw f (by simp [hf])
        obtain ⟨hsome, hnothing⟩ := ih (t := w) (by omega) (by omega) hready'
        refine ⟨fun u hu => .of_later htw.le hnone (hsome u hu), fun hu v htv hv => ?_⟩
        by_cases hvw : v < w
        · exact hnone v htv hvw
        · exact hnothing hu v (not_lt.mp hvw) hv

/-- The search finds the next number, if there is one before it is told to stop. -/
theorem search_eq_some_iff (h : Chain [year] fs) (hb : Bounded year stop last) {fuel : ℕ}
    (hfuel : last < fuel + t) (hpos : 0 < fuel) :
    search fs stop fuel t false = some u ↔ IsNext fs stop t u := by
  have hready : false = true → ∀ f ∈ fs, f.Ready t := nofun
  obtain ⟨hsome, hnone⟩ := search_spec h hb hfuel hpos hready
  refine ⟨hsome u, ?_⟩
  rintro ⟨htu, hstop, hwanted, hmin⟩
  cases hs : search fs stop fuel t false with
  | none => exact absurd hwanted (hnone hs u htu hstop)
  | some w =>
    obtain ⟨htw, hstopw, hwantedw, hminw⟩ := hsome w hs
    obtain hlt | heq | hgt := lt_trichotomy w u
    · exact absurd hwantedw (hmin w htw hlt)
    · rw [heq]
    · exact absurd hwanted (hminw u htu hgt)

end

end FieldSearch
