import Mathlib

/-!
# Tables with a primary key

A table is a list of rows whose keys are distinct; the primary key constraint
is carried by the table itself, so every statement below has to keep it and no
later proof has to restate it. The statements are the ones an application
sends: a lookup by key, an insertion that fails on a taken key or skips it,
and an update or a deletion of the rows a condition picks.
-/
namespace SqlTable

class Keyed (ρ : Type*) (κ : outParam (Type*)) where
  key : ρ → κ

open Keyed (key)

/-- Rows in insertion order, at most one for each key. -/
structure Table (ρ : Type*) {κ : Type*} [Keyed ρ κ] where
  rows : List ρ
  nodup : (rows.map key).Nodup

namespace Table
variable {ρ κ : Type*} [Keyed ρ κ]

def empty : Table ρ := ⟨[], List.nodup_nil⟩

def singleton (row : ρ) : Table ρ := ⟨[row], List.nodup_singleton _⟩

def count (t : Table ρ) (p : ρ → Bool) : ℕ := t.rows.countP p

def selectWhere (t : Table ρ) (p : ρ → Bool) : List ρ := t.rows.filter p

/-- `UPDATE ... SET ... WHERE`, for an assignment that leaves the key alone. -/
def update (t : Table ρ) (p : ρ → Bool) (f : ρ → ρ) (hf : ∀ r, key (f r) = key r) : Table ρ where
  rows := t.rows.map fun r => if p r then f r else r
  nodup := by
    rw [List.map_map, show key ∘ (fun r => if p r then f r else r) = (key : ρ → κ) from ?_]
    · exact t.nodup
    · funext r
      by_cases hp : p r <;> simp [hp, hf]

def delete (t : Table ρ) (p : ρ → Bool) : Table ρ where
  rows := t.rows.filter fun r => !p r
  nodup := (List.filter_sublist.map key).nodup t.nodup

theorem eq_of_key {t : Table ρ} {r s : ρ} (hr : r ∈ t.rows) (hs : s ∈ t.rows)
    (h : key r = key s) : r = s := List.inj_on_of_nodup_map t.nodup hr hs h

@[simp] theorem mem_delete {t : Table ρ} {p : ρ → Bool} {r : ρ} :
    r ∈ (t.delete p).rows ↔ r ∈ t.rows ∧ p r = false := by
  simp [delete]

theorem mem_selectWhere {t : Table ρ} {p : ρ → Bool} {r : ρ} :
    r ∈ t.selectWhere p ↔ r ∈ t.rows ∧ p r = true := List.mem_filter

theorem mem_update {t : Table ρ} {p : ρ → Bool} {f : ρ → ρ} {hf : ∀ r, key (f r) = key r} {r : ρ} :
    r ∈ (t.update p f hf).rows ↔ ∃ s ∈ t.rows, (if p s then f s else s) = r := by
  simp [update]

/-! ### Counting -/

/-- A second row that meets the condition has another key. -/
theorem exists_other {t : Table ρ} {p : ρ → Bool} (h : 2 ≤ t.count p) (k : κ) :
    ∃ r ∈ t.rows, p r ∧ key r ≠ k := by
  by_contra hne
  have hkey : ∀ r ∈ t.rows.filter p, key r = k := by
    intro r hr
    by_contra hk
    exact hne ⟨r, (List.mem_filter.mp hr).1, (List.mem_filter.mp hr).2, hk⟩
  have hsub : ((t.rows.filter p).map key).Nodup := (List.filter_sublist.map key).nodup t.nodup
  rw [List.map_congr_left (g := fun _ => k) hkey, List.map_const', List.nodup_replicate] at hsub
  rw [count, List.countP_eq_length_filter] at h
  omega

/-- Where at most one row meets the condition, two such rows are one. -/
theorem eq_of_count_le_one {t : Table ρ} {p : ρ → Bool} (h : t.count p ≤ 1) {r s : ρ}
    (hr : r ∈ t.rows) (hs : s ∈ t.rows) (hpr : p r) (hps : p s) : r = s := by
  rw [count, List.countP_eq_length_filter] at h
  have hr' := List.mem_filter.mpr ⟨hr, hpr⟩
  have hs' := List.mem_filter.mpr ⟨hs, hps⟩
  generalize t.rows.filter p = l at h hr' hs'
  match l, h with
  | [], _ => simp at hr'
  | [x], _ => rw [List.mem_singleton.mp hr', List.mem_singleton.mp hs']

/-! ### Lookup by key -/

section
variable [DecidableEq κ]

def select (t : Table ρ) (k : κ) : Option ρ := t.rows.find? fun r => key r = k

/-- `INSERT`: `none` is the constraint error on a key that is taken. -/
def insert (t : Table ρ) (r : ρ) : Option (Table ρ) :=
  if h : key r ∈ t.rows.map key then none else
    some ⟨t.rows ++ [r], by simpa [List.nodup_append, t.nodup] using fun s hs he => h (by
      rw [← he]
      exact List.mem_map_of_mem hs)⟩

/-- `INSERT ... ON CONFLICT DO NOTHING`. -/
def insertIgnore (t : Table ρ) (r : ρ) : Table ρ := (t.insert r).getD t

/-- `INSERT OR REPLACE`. -/
def put (t : Table ρ) (r : ρ) : Table ρ where
  rows := (t.delete fun s => key s = key r).rows ++ [r]
  nodup := by
    rw [List.map_append, List.map_singleton, List.nodup_append]
    refine ⟨(t.delete _).nodup, List.nodup_singleton _, ?_⟩
    intro a ha b hb
    obtain ⟨s, hs, rfl⟩ := List.mem_map.mp ha
    rw [List.mem_singleton.mp hb]
    simpa using (mem_delete.mp hs).2

theorem select_eq_some {t : Table ρ} {k : κ} {r : ρ} :
    t.select k = some r ↔ r ∈ t.rows ∧ key r = k := by
  constructor
  · intro h
    exact ⟨List.mem_of_find?_eq_some h, by simpa using List.find?_some h⟩
  · rintro ⟨hr, hk⟩
    cases h : t.select k with
    | none => exact absurd hk (by simpa using List.find?_eq_none.mp h r hr)
    | some s =>
      have hs : key s = k := by simpa using List.find?_some h
      rw [eq_of_key (List.mem_of_find?_eq_some h) hr (hs.trans hk.symm)]

theorem select_eq_none {t : Table ρ} {k : κ} : t.select k = none ↔ ∀ r ∈ t.rows, key r ≠ k := by
  simp [select, List.find?_eq_none]

theorem insert_eq_none {t : Table ρ} {r : ρ} : t.insert r = none ↔ key r ∈ t.rows.map key := by
  unfold insert
  split_ifs with h <;> simp [h]

theorem rows_insert {t t' : Table ρ} {r : ρ} (h : t.insert r = some t') :
    t'.rows = t.rows ++ [r] := by
  unfold insert at h
  split_ifs at h
  cases h
  rfl

/-- An insertion succeeds only on a key no row has. -/
theorem select_key_of_insert {t t' : Table ρ} {r : ρ} (h : t.insert r = some t') :
    t.select (key r) = none := by
  rw [select_eq_none]
  intro s hs he
  rw [insert_eq_none.mpr (List.mem_map.mpr ⟨s, hs, he⟩)] at h
  cases h

theorem select_insert {t t' : Table ρ} {r : ρ} (h : t.insert r = some t') (k : κ) :
    t'.select k = if key r = k then some r else t.select k := by
  have hfresh := select_key_of_insert h
  unfold select
  rw [rows_insert h, List.find?_append]
  by_cases hk : key r = k
  · subst hk
    unfold select at hfresh
    simp [hfresh]
  · simp [hk]

theorem select_insertIgnore (t : Table ρ) (r : ρ) (k : κ) :
    (t.insertIgnore r).select k =
      if key r = k ∧ t.select k = none then some r else t.select k := by
  unfold insertIgnore
  cases h : t.insert r with
  | none =>
    obtain ⟨s, hs, he⟩ := List.mem_map.mp (insert_eq_none.mp h)
    rw [Option.getD_none, if_neg]
    rintro ⟨rfl, hn⟩
    exact select_eq_none.mp hn s hs he
  | some t' =>
    rw [Option.getD_some, select_insert h]
    by_cases hk : key r = k
    · have hn : t.select k = none := hk ▸ select_key_of_insert h
      simp [hk, hn]
    · simp [hk]

theorem select_update (t : Table ρ) (p : ρ → Bool) (f : ρ → ρ) (hf : ∀ r, key (f r) = key r)
    (k : κ) : (t.update p f hf).select k = (t.select k).map fun r => if p r then f r else r := by
  unfold select update
  rw [List.find?_map]
  congr 2
  funext r
  by_cases hp : p r <;> simp [hp, hf]

theorem select_delete (t : Table ρ) (p : ρ → Bool) (k : κ) :
    (t.delete p).select k = (t.select k).filter fun r => !p r := by
  ext r
  rw [select_eq_some, Option.filter_eq_some_iff, select_eq_some]
  simp only [mem_delete, Bool.not_eq_true']
  tauto

theorem mem_put {t : Table ρ} {r s : ρ} :
    s ∈ (t.put r).rows ↔ s ∈ t.rows ∧ key s ≠ key r ∨ s = r := by
  simp [put]

theorem select_put (t : Table ρ) (r : ρ) (k : κ) :
    (t.put r).select k = if key r = k then some r else t.select k := by
  split_ifs with hk
  · exact select_eq_some.mpr ⟨by simp [put], hk⟩
  · ext s
    simp only [select_eq_some, put, List.mem_append, mem_delete, List.mem_singleton,
      decide_eq_false_iff_not]
    constructor
    · rintro ⟨⟨hs, -⟩ | rfl, hks⟩
      · exact ⟨hs, hks⟩
      · exact absurd hks hk
    · rintro ⟨hs, hks⟩
      exact ⟨.inl ⟨hs, fun he => hk (he ▸ hks)⟩, hks⟩

end
end Table
end SqlTable
