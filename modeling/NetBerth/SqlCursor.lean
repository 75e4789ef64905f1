import Mathlib

/-!
# Query results that can fail

A result set is read row by row, and an error can strike in three places: the
query itself, a row that does not scan, and the step to the next row. A loop
that asks only whether there is a next row sees the third one as the end of
the rows. The lemmas say when what such a loop collects is all there is.
-/
namespace SqlCursor
variable {α β : Type*}

/-- The errors of one query: `stop` is the number of rows after which the step
to the next one fails, `scan` says which rows do not scan. -/
structure Fault where
  query : Bool
  stop : Option ℕ
  scan : ℕ → Bool

def Fault.none : Fault := ⟨false, .none, fun _ => false⟩

/-- The rows before the step that fails. -/
def visible (f : Fault) (stored : List α) : List α :=
  match f.stop with
  | .none => stored
  | some k => stored.take k

/-- The loop over the rows, which gives up at one that does not scan. -/
def scanRows (scan : ℕ → Bool) : ℕ → List α → Option (List α)
  | _, [] => some []
  | i, a :: rows => if scan i then .none else (scanRows scan (i + 1) rows).map (a :: ·)

/-- `Query` and the loop over its rows; `none` is an error the caller sees. -/
def readRows (f : Fault) (stored : List α) : Option (List α) :=
  if f.query then .none else scanRows f.scan 0 (visible f stored)

/-- `QueryRow` and its `Scan`: no row is an error too. -/
def readRow (f : Fault) (stored : Option α) : Option α :=
  if f.query then .none
  else
    match visible f stored.toList with
    | [] => .none
    | a :: _ => if f.scan 0 then .none else some a

/-- The caller is told: the query fails, or a row the loop reaches. -/
def Reported (f : Fault) (stored : List α) : Prop :=
  f.query ∨ ∃ i < (visible f stored).length, f.scan i

/-- No row is behind a step that fails. -/
def Whole (f : Fault) (stored : List α) : Prop := ∀ k ∈ f.stop, stored.length ≤ k

theorem visible_eq_iff {f : Fault} {stored : List α} : visible f stored = stored ↔ Whole f stored := by
  cases hstop : f.stop with
  | none => simp [visible, Whole, hstop]
  | some k => simp [visible, Whole, hstop, List.take_eq_self_iff]

theorem scanRows_eq_some {scan : ℕ → Bool} {i : ℕ} {rows l : List α} :
    scanRows scan i rows = some l ↔ (∀ j < rows.length, scan (i + j) = false) ∧ l = rows := by
  induction rows generalizing i l with
  | nil =>
    simp only [scanRows, List.length_nil, Nat.not_lt_zero, false_implies, implies_true, true_and,
      Option.some.injEq]
    exact eq_comm
  | cons a rows ih =>
    rw [scanRows]
    by_cases hscan : scan i
    · simp only [hscan, if_true, reduceCtorEq, false_iff, not_and]
      intro hall
      have hfirst := hall 0 (Nat.succ_pos _)
      rw [Nat.add_zero, hscan] at hfirst
      cases hfirst
    · simp only [hscan, Bool.false_eq_true, if_false, Option.map_eq_some_iff, ih]
      constructor
      · rintro ⟨_, ⟨hall, rfl⟩, rfl⟩
        refine ⟨fun j hj => ?_, rfl⟩
        cases j with
        | zero => simpa using hscan
        | succ j =>
          have hj' := hall j (Nat.lt_of_succ_lt_succ hj)
          rwa [Nat.add_right_comm] at hj'
      · rintro ⟨hall, rfl⟩
        refine ⟨rows, ⟨fun j hj => ?_, rfl⟩, rfl⟩
        have hj' := hall (j + 1) (Nat.succ_lt_succ hj)
        rwa [← Nat.add_assoc, Nat.add_right_comm] at hj'

theorem readRows_eq_some {f : Fault} {stored l : List α} :
    readRows f stored = some l ↔ ¬ Reported f stored ∧ l = visible f stored := by
  rw [readRows]
  by_cases hquery : f.query
  · simp [hquery, Reported]
  · simp only [hquery, Bool.false_eq_true, if_false, scanRows_eq_some, Reported, false_or, not_exists,
      not_and, Bool.not_eq_true, Nat.zero_add]

theorem readRows_of_not_reported {f : Fault} {stored : List α} (h : ¬ Reported f stored) :
    readRows f stored = some (visible f stored) := readRows_eq_some.mpr ⟨h, rfl⟩

theorem readRows_of_reported {f : Fault} {stored : List α} (h : Reported f stored) :
    readRows f stored = .none := by
  cases hread : readRows f stored with
  | none => rfl
  | some l => exact absurd h (readRows_eq_some.mp hread).1

theorem readRows_without_fault (stored : List α) : readRows Fault.none stored = some stored :=
  readRows_eq_some.mpr ⟨by simp [Reported, Fault.none], rfl⟩

theorem whole_nil (f : Fault) : Whole f ([] : List α) := fun _ _ => Nat.zero_le _

/-- Nothing is lost: there is nothing to lose, or no error strikes before the end. -/
def Harmless (f : Fault) (stored : List α) : Prop :=
  stored = [] ∨ ¬ Reported f stored ∧ Whole f stored

/-- A list that falls back to empty on an error is the stored one exactly when
nothing is lost. -/
theorem getD_readRows_eq_iff {f : Fault} {stored : List α} :
    (readRows f stored).getD [] = stored ↔ Harmless f stored := by
  by_cases hr : Reported f stored
  · simp [readRows_of_reported hr, Harmless, hr, eq_comm]
  · rw [readRows_of_not_reported hr, Option.getD_some, visible_eq_iff, Harmless]
    constructor
    · exact fun hw => .inr ⟨hr, hw⟩
    · rintro (rfl | ⟨-, hw⟩)
      · exact whole_nil f
      · exact hw

/-- A bulk read is an error or complete exactly when an error is reported, or
the rows are whole and what is made of each row is right. -/
theorem map_readRows_iff {f : Fault} {stored : List α} {make full : α → β} :
    (∀ l, (readRows f stored).map (List.map make) = some l → l = stored.map full) ↔
      Reported f stored ∨ Whole f stored ∧ ∀ a ∈ stored, make a = full a := by
  by_cases hr : Reported f stored
  · simp [readRows_of_reported hr, hr]
  · simp only [readRows_of_not_reported hr, Option.map_some, Option.some.injEq, forall_eq', hr,
      false_or]
    constructor
    · intro h
      have hlen : (visible f stored).length = stored.length := by
        simpa using congrArg List.length h
      have hall : visible f stored = stored := by
        cases hstop : f.stop with
        | none => simp only [visible, hstop]
        | some k =>
          simp only [visible, hstop, List.length_take] at hlen ⊢
          exact List.take_of_length_le (by omega)
      rw [hall] at h
      exact ⟨visible_eq_iff.mp hall, List.map_inj_left.mp h⟩
    · rintro ⟨hw, hmake⟩
      rw [visible_eq_iff.mpr hw]
      exact List.map_inj_left.mpr hmake

/-- The row is not delivered. -/
def RowLost (f : Fault) : Prop := f.query ∨ f.stop = some 0 ∨ f.scan 0

theorem visible_nil (f : Fault) : visible f ([] : List α) = [] :=
  visible_eq_iff.mpr (whole_nil f)

theorem readRow_none (f : Fault) : readRow f (.none : Option α) = .none := by
  simp [readRow, visible_nil]

theorem readRow_of_lost {f : Fault} (h : RowLost f) (a : α) : readRow f (some a) = .none := by
  rcases h with hquery | hstop | hscan
  · simp [readRow, hquery]
  · simp [readRow, visible, hstop]
  · simp only [readRow, hscan, if_true]
    split_ifs
    · rfl
    · split <;> rfl

theorem readRow_of_not_lost {f : Fault} (h : ¬ RowLost f) (a : α) : readRow f (some a) = some a := by
  simp only [RowLost, not_or, Bool.not_eq_true] at h
  obtain ⟨hquery, hstop, hscan⟩ := h
  have hvisible : visible f [a] = [a] := by
    refine visible_eq_iff.mpr fun k hk => ?_
    cases k with
    | zero => exact absurd hk hstop
    | succ k => simp
  simp [readRow, hquery, hscan, hvisible]

theorem readRow_without_fault (stored : Option α) : readRow Fault.none stored = stored := by
  cases stored with
  | none => exact readRow_none _
  | some a => exact readRow_of_not_lost (by simp [RowLost, Fault.none]) a

/-- What is made of a row read by itself is right exactly when the row is lost
or what is made of it is right. -/
theorem map_readRow_iff {f : Fault} {stored : Option α} {make : α → β} {right : β → Prop} :
    (∀ b, (readRow f stored).map make = some b → right b) ↔
      ∀ a ∈ stored, RowLost f ∨ right (make a) := by
  cases stored with
  | none => simp [readRow_none]
  | some a =>
    by_cases hlost : RowLost f
    · simp [readRow_of_lost hlost, hlost]
    · simp [readRow_of_not_lost hlost, hlost]

end SqlCursor
