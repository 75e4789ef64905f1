import Mathlib

/-!
# Pages of an ordered list

A list is cut into pages of one size. The pages put together are the list, and two lists with the
same pages are the same. The order comes from a value that several elements may share: there is only
one ordered arrangement of the elements exactly when no two of them share it.
-/
namespace ListPages

variable {α τ : Type*}

/-! ## Pages -/

/-- The page with this number, counted from zero. -/
def page (size : ℕ) (l : List α) (k : ℕ) : List α := (l.drop (k * size)).take size

/-- How many pages are not empty. -/
def pageCount (size n : ℕ) : ℕ := n / size + if n % size ≠ 0 then 1 else 0

theorem lt_pageCount_iff {size n k : ℕ} (h : 0 < size) : k < pageCount size n ↔ k * size < n := by
  have hdiv := Nat.div_add_mod n size
  have hmod := Nat.mod_lt n h
  rw [pageCount]
  constructor
  · intro hk
    split at hk
    · have hle : k * size ≤ n / size * size := Nat.mul_le_mul_right size (by omega)
      have hcomm := Nat.mul_comm size (n / size)
      omega
    · have hle : (k + 1) * size ≤ n / size * size := Nat.mul_le_mul_right size (by omega)
      have hcomm := Nat.mul_comm size (n / size)
      rw [Nat.add_mul, one_mul] at hle
      omega
  · intro hk
    by_contra hlarge
    split at hlarge
    · have hle : (n / size + 1) * size ≤ k * size := Nat.mul_le_mul_right size (by omega)
      have hcomm := Nat.mul_comm size (n / size)
      rw [Nat.add_mul, one_mul] at hle
      omega
    · have hle : n / size * size ≤ k * size := Nat.mul_le_mul_right size (by omega)
      have hcomm := Nat.mul_comm size (n / size)
      omega

theorem flatMap_page (size : ℕ) (l : List α) (n : ℕ) :
    (List.range n).flatMap (page size l) = l.take (n * size) := by
  induction n with
  | zero => simp
  | succ n ih =>
    rw [List.range_succ, List.flatMap_append, ih, List.flatMap_singleton, page, Nat.add_mul,
      one_mul, List.take_add]

/-- The pages put together are the list. -/
theorem flatMap_pages {size : ℕ} (h : 0 < size) (l : List α) :
    (List.range (pageCount size l.length)).flatMap (page size l) = l := by
  rw [flatMap_page]
  apply List.take_of_length_le
  by_contra hshort
  exact lt_irrefl _ ((lt_pageCount_iff h).mpr (not_le.mp hshort))

theorem exists_mem_page {size : ℕ} (h : 0 < size) {l : List α} {a : α} (ha : a ∈ l) :
    ∃ k < pageCount size l.length, a ∈ page size l k := by
  rw [← flatMap_pages h l, List.mem_flatMap] at ha
  obtain ⟨k, hk, hmem⟩ := ha
  exact ⟨k, List.mem_range.mp hk, hmem⟩

theorem mem_of_mem_page {size : ℕ} {l : List α} {k : ℕ} {a : α} (h : a ∈ page size l k) : a ∈ l :=
  List.mem_of_mem_drop (List.mem_of_mem_take h)

theorem eq_of_page_eq {size : ℕ} (h : 0 < size) {l l' : List α} (hlength : l.length = l'.length)
    (hpage : ∀ k < pageCount size l.length, page size l k = page size l' k) : l = l' := by
  rw [← flatMap_pages h l, ← flatMap_pages h l', ← hlength]
  apply List.flatMap_congr
  intro k hk
  exact hpage k (List.mem_range.mp hk)

theorem page_eq_nil {size : ℕ} {l : List α} {k : ℕ} (h : l.length ≤ k * size) :
    page size l k = [] := by
  rw [page, List.drop_eq_nil_of_le h, List.take_nil]

/-! ## Order -/

section
variable [LinearOrder τ]

/-- The elements with the greatest value first, in any order where the values are the same. -/
def Ordered (f : α → τ) (rows o : List α) : Prop :=
  o.Perm rows ∧ o.Pairwise fun a b => f b ≤ f a

theorem exists_ordered (f : α → τ) (rows : List α) : ∃ o, Ordered f rows o := by
  refine ⟨rows.mergeSort fun a b => f b ≤ f a, List.mergeSort_perm rows _, ?_⟩
  have hsorted : (rows.mergeSort fun a b => f b ≤ f a).Pairwise
      fun a b => decide (f b ≤ f a) = true := by
    apply List.pairwise_mergeSort
    · intro a b c hab hbc
      exact decide_eq_true ((of_decide_eq_true hbc).trans (of_decide_eq_true hab))
    · intro a b
      simpa using le_total (f b) (f a)
  exact hsorted.imp of_decide_eq_true

theorem Ordered.eq {f : α → τ} {rows o o' : List α} (hf : (rows.map f).Nodup)
    (ho : Ordered f rows o) (ho' : Ordered f rows o') : o = o' := by
  refine List.Perm.eq_of_pairwise ?_ ho.2 ho'.2 (ho.1.trans ho'.1.symm)
  intro a b ha hb hab hba
  exact List.inj_on_of_nodup_map hf (ho.1.mem_iff.mp ha) (ho'.1.mem_iff.mp hb)
    (le_antisymm hba hab)

open Classical in
/-- Two elements with the same value can change places. -/
theorem Ordered.swap {f : α → τ} {rows o : List α} (hrows : rows.Nodup) (ho : Ordered f rows o)
    {x y : α} (hx : x ∈ rows) (hy : y ∈ rows) (hxy : f x = f y) :
    Ordered f rows (o.map (Equiv.swap x y)) := by
  have hcases : ∀ a, a = x ∧ Equiv.swap x y a = y ∨ a = y ∧ Equiv.swap x y a = x ∨
      Equiv.swap x y a = a := by
    intro a
    by_cases hax : a = x
    · exact .inl ⟨hax, hax ▸ Equiv.swap_apply_left x y⟩
    by_cases hay : a = y
    · exact .inr (.inl ⟨hay, hay ▸ Equiv.swap_apply_right x y⟩)
    · exact .inr (.inr (Equiv.swap_apply_of_ne_of_ne hax hay))
  have hvalue : ∀ a, f (Equiv.swap x y a) = f a := by
    intro a
    obtain ⟨rfl, h⟩ | ⟨rfl, h⟩ | h := hcases a
    · rw [h, hxy]
    · rw [h, hxy]
    · rw [h]
  have hkeeps : ∀ a ∈ rows, Equiv.swap x y a ∈ rows := by
    intro a ha
    obtain ⟨-, h⟩ | ⟨-, h⟩ | h := hcases a
    · rwa [h]
    · rwa [h]
    · rwa [h]
  have hnodup : o.Nodup := ho.1.nodup_iff.mpr hrows
  constructor
  · rw [List.perm_ext_iff_of_nodup (hnodup.map (Equiv.injective _)) hrows]
    intro a
    rw [List.mem_map]
    constructor
    · rintro ⟨b, hb, rfl⟩
      exact hkeeps b (ho.1.mem_iff.mp hb)
    · intro ha
      exact ⟨Equiv.swap x y a, ho.1.mem_iff.mpr (hkeeps a ha), Equiv.swap_apply_self x y a⟩
  · rw [List.pairwise_map]
    simpa only [hvalue] using ho.2

/-- There is one arrangement only when the values are different. -/
theorem nodup_of_unique {f : α → τ} {rows : List α} (hrows : rows.Nodup)
    (h : ∀ o o', Ordered f rows o → Ordered f rows o' → o = o') : (rows.map f).Nodup := by
  classical
  rw [List.nodup_map_iff_inj_on hrows]
  intro x hx y hy hxy
  obtain ⟨o, ho⟩ := exists_ordered f rows
  have hsame := h _ o (ho.swap hrows hx hy hxy) ho
  have hfixed : Equiv.swap x y x = x :=
    List.map_inj_left.mp (hsame.trans (List.map_id o).symm) x (ho.1.mem_iff.mpr hx)
  rw [Equiv.swap_apply_left] at hfixed
  exact hfixed.symm

end

end ListPages
