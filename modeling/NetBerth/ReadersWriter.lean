import NetBerth.Interleaving

/-!
# A lock for readers and one writer

Any number of processes hold the lock for reading, or one of them holds it for writing. Each
process knows how it holds the lock, and the lock only counts: it is as the processes say as long
as each of them changes its mind by one of the four calls.
-/
namespace ReadersWriter
open Interleaving

/-- How a process holds the lock. -/
inductive Mode where
  | free
  | reading
  | writing
  deriving DecidableEq, Repr

structure Lock where
  readers : ℕ
  writer : Bool
  deriving DecidableEq, Repr

namespace Lock

def rLock (l : Lock) : Option Lock :=
  if l.writer = false then some { l with readers := l.readers + 1 } else none

def rUnlock (l : Lock) : Lock := { l with readers := l.readers - 1 }

def lock (l : Lock) : Option Lock :=
  if l.writer = false ∧ l.readers = 0 then some { l with writer := true } else none

def unlock (l : Lock) : Lock := { l with writer := false }

end Lock

/-- The lock is as the processes hold it. -/
structure Held (l : Lock) (modes : List Mode) : Prop where
  readers : l.readers = modes.countP (· = .reading)
  writer : l.writer.toNat = modes.countP (· = .writing)
  exclusive : l.writer = true → l.readers = 0

section
variable {l l' : Lock} {modes : List Mode} {i : ℕ} {m : Mode}

theorem held_nil : Held ⟨0, false⟩ [] := ⟨rfl, rfl, nofun⟩

theorem Held.spawn (h : Held l modes) : Held l (modes ++ [.free]) := by
  refine ⟨?_, ?_, h.exclusive⟩
  · simpa using h.readers
  · simpa using h.writer

theorem Held.rLock (h : Held l modes) (hi : modes[i]? = some .free) (hl : l.rLock = some l') :
    Held l' (modes.set i .reading) := by
  obtain ⟨hwriter, hl⟩ := Option.ite_none_right_eq_some.mp hl
  cases hl
  have hreading := countP_set (q := Mode.reading) (· = .reading) hi
  have hwriting := countP_set (q := Mode.reading) (· = .writing) hi
  simp only [reduceCtorEq, decide_false, decide_true, Bool.toNat_false, Bool.toNat_true,
    Nat.add_zero] at hreading hwriting
  refine ⟨?_, ?_, ?_⟩
  · rw [hreading, ← h.readers]
  · rw [hwriting, ← h.writer]
  · rw [hwriter]
    exact nofun

theorem Held.rUnlock (h : Held l modes) (hi : modes[i]? = some .reading) :
    Held l.rUnlock (modes.set i .free) := by
  have hreading := countP_set (q := Mode.free) (· = .reading) hi
  have hwriting := countP_set (q := Mode.free) (· = .writing) hi
  simp only [reduceCtorEq, decide_false, decide_true, Bool.toNat_false, Bool.toNat_true,
    Nat.add_zero] at hreading hwriting
  have hreaders := h.readers
  refine ⟨?_, ?_, ?_⟩
  · simp only [Lock.rUnlock]
    omega
  · rw [hwriting, ← h.writer]
    rfl
  · intro hw
    have hzero := h.exclusive hw
    simp only [Lock.rUnlock]
    omega

theorem Held.lock (h : Held l modes) (hi : modes[i]? = some .free) (hl : l.lock = some l') :
    Held l' (modes.set i .writing) := by
  obtain ⟨⟨hwriter, hnone⟩, hl⟩ := Option.ite_none_right_eq_some.mp hl
  cases hl
  have hreading := countP_set (q := Mode.writing) (· = .reading) hi
  have hwriting := countP_set (q := Mode.writing) (· = .writing) hi
  simp only [reduceCtorEq, decide_false, decide_true, Bool.toNat_false, Bool.toNat_true,
    Nat.add_zero] at hreading hwriting
  refine ⟨?_, ?_, fun _ => hnone⟩
  · rw [hreading, ← h.readers]
  · rw [hwriting, ← h.writer, hwriter]
    rfl

theorem Held.unlock (h : Held l modes) (hi : modes[i]? = some .writing) :
    Held l.unlock (modes.set i .free) := by
  have hreading := countP_set (q := Mode.free) (· = .reading) hi
  have hwriting := countP_set (q := Mode.free) (· = .writing) hi
  simp only [reduceCtorEq, decide_false, decide_true, Bool.toNat_false, Bool.toNat_true,
    Nat.add_zero] at hreading hwriting
  have hbool : l.writer.toNat ≤ 1 := Bool.toNat_le _
  have hwriter := h.writer
  refine ⟨?_, ?_, nofun⟩
  · rw [hreading, ← h.readers]
    rfl
  · simp only [Lock.unlock, Bool.toNat_false]
    omega

/-- A process that does not touch the lock stays as it was. -/
theorem Held.same (h : Held l modes) (hi : modes[i]? = some m) : Held l (modes.set i m) := by
  obtain ⟨hlt, hself⟩ := List.getElem?_eq_some_iff.mp hi
  rw [← hself, List.set_getElem_self hlt]
  exact h

/-- While one writes, no one reads. -/
theorem Held.not_both (h : Held l modes) (hr : .reading ∈ modes) (hw : .writing ∈ modes) :
    False := by
  have hreaders : 0 < modes.countP (· = .reading) :=
    List.countP_pos_iff.mpr ⟨.reading, hr, by simp⟩
  have hwriters : 0 < modes.countP (· = .writing) :=
    List.countP_pos_iff.mpr ⟨.writing, hw, by simp⟩
  rw [← h.readers] at hreaders
  rw [← h.writer] at hwriters
  have hwriter : l.writer = true := by
    cases hcase : l.writer with
    | true => rfl
    | false => simp [hcase] at hwriters
  have hzero := h.exclusive hwriter
  omega

end
end ReadersWriter
