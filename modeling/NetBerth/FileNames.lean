import Mathlib

/-!
# Files and their names

A file is opened by a name and written through what the opening returns, and a rename gives it
another name whose file is then gone. No two names are of one file, so a write is seen under one
name and a rename exchanges what is seen under the new name at once. The files are numbered in
the order in which they are made.
-/
namespace FileNames

structure Disk (ν κ : Type*) where
  entries : ν → Option ℕ
  contents : ℕ → κ
  made : ℕ
  bound : ∀ n i, entries n = some i → i < made
  single : ∀ n n' i, entries n = some i → entries n' = some i → n = n'

namespace Disk
variable {ν κ : Type*} [DecidableEq ν] (d : Disk ν κ)

def read (n : ν) : Option κ := (d.entries n).map d.contents

/-- `open` with `O_CREATE` and `O_TRUNC`: the file of that name, or a new one, is emptied. -/
def create (n : ν) (empty : κ) : Disk ν κ × ℕ :=
  match h : d.entries n with
  | some i => ({ d with contents := Function.update d.contents i empty }, i)
  | none =>
    ({ entries := Function.update d.entries n (some d.made)
       contents := Function.update d.contents d.made empty
       made := d.made + 1
       bound := by
        intro m i hm
        by_cases hmn : m = n
        · subst hmn
          rw [Function.update_self] at hm
          cases hm
          exact Nat.lt_succ_self _
        · rw [Function.update_of_ne hmn] at hm
          exact Nat.lt_succ_of_lt (d.bound m i hm)
       single := by
        have hfresh : ∀ m, d.entries m ≠ some d.made := fun m hm =>
          Nat.lt_irrefl _ (d.bound m _ hm)
        intro m m' i hm hm'
        by_cases hmn : m = n <;> by_cases hmn' : m' = n
        · exact hmn.trans hmn'.symm
        · rw [hmn, Function.update_self] at hm
          rw [Function.update_of_ne hmn'] at hm'
          exact absurd (hm'.trans hm.symm) (hfresh m')
        · rw [hmn', Function.update_self] at hm'
          rw [Function.update_of_ne hmn] at hm
          exact absurd (hm.trans hm'.symm) (hfresh m)
        · rw [Function.update_of_ne hmn] at hm
          rw [Function.update_of_ne hmn'] at hm'
          exact d.single m m' i hm hm' }, d.made)

/-- A write to an open file. -/
def write (i : ℕ) (x : κ) : Disk ν κ := { d with contents := Function.update d.contents i x }

/-- `none` where there is no file of the old name. -/
def rename (n n' : ν) : Option (Disk ν κ) :=
  match h : d.entries n with
  | none => none
  | some i => some
    { d with
      entries := Function.update (Function.update d.entries n none) n' (some i)
      bound := by
        intro m j hm
        by_cases hmn' : m = n'
        · rw [hmn', Function.update_self] at hm
          cases hm
          exact d.bound n i h
        · rw [Function.update_of_ne hmn'] at hm
          by_cases hmn : m = n
          · rw [hmn, Function.update_self] at hm
            cases hm
          · rw [Function.update_of_ne hmn] at hm
            exact d.bound m j hm
      single := by
        have hold : ∀ m j, m ≠ n' →
            Function.update (Function.update d.entries n none) n' (some i) m = some j →
            d.entries m = some j ∧ j ≠ i := by
          intro m j hmn' hm
          rw [Function.update_of_ne hmn'] at hm
          by_cases hmn : m = n
          · rw [hmn, Function.update_self] at hm
            cases hm
          · rw [Function.update_of_ne hmn] at hm
            exact ⟨hm, fun hji => hmn (d.single m n i (hji ▸ hm) h)⟩
        intro m m' j hm hm'
        by_cases hmn : m = n' <;> by_cases hmn' : m' = n'
        · exact hmn.trans hmn'.symm
        · rw [hmn, Function.update_self] at hm
          exact absurd (Option.some.inj hm).symm (hold m' j hmn' hm').2
        · rw [hmn', Function.update_self] at hm'
          exact absurd (Option.some.inj hm').symm (hold m j hmn hm).2
        · exact d.single m m' j (hold m j hmn hm).1 (hold m' j hmn' hm').1 }

variable {d}

/-- What is opened has the name, and is empty; the rest is as before. -/
theorem create_spec (n : ν) (empty : κ) :
    (d.create n empty).1.entries n = some (d.create n empty).2 ∧
      ∀ m, (d.create n empty).1.read m = if m = n then some empty else d.read m := by
  unfold create
  split
  · rename_i i h
    refine ⟨h, fun m => ?_⟩
    split_ifs with hmn
    · simp [read, hmn, h]
    · unfold read
      cases hm : d.entries m with
      | none => rfl
      | some j =>
        have hne : j ≠ i := fun hji => hmn (d.single m n i (hji ▸ hm) h)
        simp [Function.update_of_ne hne]
  · rename_i h
    refine ⟨Function.update_self _ _ _, fun m => ?_⟩
    split_ifs with hmn
    · simp [read, hmn]
    · unfold read
      dsimp only
      rw [Function.update_of_ne hmn]
      cases hm : d.entries m with
      | none => rfl
      | some j =>
        have hne : j ≠ d.made := (d.bound m j hm).ne
        simp [Function.update_of_ne hne]

theorem read_write {n : ν} {i : ℕ} (h : d.entries n = some i) (x : κ) (m : ν) :
    (d.write i x).read m = if m = n then some x else d.read m := by
  unfold read write
  split_ifs with hmn
  · simp [hmn, h]
  · cases hm : d.entries m with
    | none => rfl
    | some j =>
      have hne : j ≠ i := fun hji => hmn (d.single m n i (hji ▸ hm) h)
      simp [Function.update_of_ne hne]

theorem read_rename {n n' : ν} {d' : Disk ν κ} (h : d.rename n n' = some d') (m : ν) :
    d'.read m = if m = n' then d.read n else if m = n then none else d.read m := by
  unfold rename at h
  split at h
  · cases h
  · rename_i i hi
    cases h
    unfold read
    split_ifs with hmn' hmn
    · simp [hmn', hi]
    · subst hmn
      simp [Function.update_of_ne hmn']
    · simp [Function.update_of_ne hmn', Function.update_of_ne hmn]

theorem exists_rename {n : ν} {x : κ} (h : d.read n = some x) (n' : ν) :
    ∃ d', d.rename n n' = some d' := by
  unfold rename
  split
  · rename_i hnone
    simp [read, hnone] at h
  · exact ⟨_, rfl⟩

end Disk
end FileNames
