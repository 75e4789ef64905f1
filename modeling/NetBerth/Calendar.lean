import Mathlib

/-!
# The calendar

Days are counted from the first of January of the year 1, a Monday, and seconds from its
midnight. A date is found by going on from day to day, so the rule for the lengths of the
months and the step to the next day are all there is to the calendar; within a month the day
goes up with the count.
-/
namespace Calendar

/-! ## Dates -/

structure Date where
  year : ℕ
  month : ℕ
  day : ℕ
  deriving DecidableEq, Repr

def isLeap (year : ℕ) : Bool := year % 4 = 0 && (year % 100 ≠ 0 || year % 400 = 0)

def daysIn (year month : ℕ) : ℕ :=
  if month = 2 then (if isLeap year then 29 else 28)
  else if month ∈ [4, 6, 9, 11] then 30
  else 31

theorem daysIn_pos (year month : ℕ) : 0 < daysIn year month := by
  unfold daysIn
  split_ifs <;> omega

theorem daysIn_le (year month : ℕ) : daysIn year month ≤ 31 := by
  unfold daysIn
  split_ifs <;> omega

namespace Date

/-- The month and the day of the month are those of the year. -/
structure Valid (d : Date) : Prop where
  one_le_month : 1 ≤ d.month
  month_le : d.month ≤ 12
  one_le_day : 1 ≤ d.day
  day_le : d.day ≤ daysIn d.year d.month

def next (d : Date) : Date :=
  if d.day < daysIn d.year d.month then { d with day := d.day + 1 }
  else if d.month < 12 then ⟨d.year, d.month + 1, 1⟩
  else ⟨d.year + 1, 1, 1⟩

theorem Valid.next {d : Date} (h : d.Valid) : d.next.Valid := by
  obtain ⟨hmonth, hmonth', hday, hday'⟩ := h
  unfold Date.next
  split_ifs with hin hyear
  · exact ⟨hmonth, hmonth', Nat.le_add_left _ _, hin⟩
  · exact ⟨Nat.le_add_left _ _, hyear, le_rfl, daysIn_pos _ _⟩
  · exact ⟨le_rfl, Nat.le_add_left 1 11, le_rfl, daysIn_pos _ _⟩

end Date

/-- The date of a day. -/
def dateOf : ℕ → Date
  | 0 => ⟨1, 1, 1⟩
  | n + 1 => (dateOf n).next

theorem valid_dateOf (n : ℕ) : (dateOf n).Valid := by
  induction n with
  | zero => exact ⟨le_rfl, by decide, le_rfl, by decide⟩
  | succ n ih => exact ih.next

/-- The days of the month that are left, the day itself included. -/
def daysLeft (n : ℕ) : ℕ := daysIn (dateOf n).year (dateOf n).month + 1 - (dateOf n).day

theorem daysLeft_pos (n : ℕ) : 0 < daysLeft n := by
  have hvalid := valid_dateOf n
  have hle := hvalid.day_le
  unfold daysLeft
  omega

/-- Later in the same month. -/
theorem dateOf_add {n k : ℕ} (hk : k < daysLeft n) :
    dateOf (n + k) = { dateOf n with day := (dateOf n).day + k } := by
  induction k with
  | zero => rfl
  | succ k ih =>
    have hbefore := ih (by omega)
    rw [← Nat.add_assoc, dateOf, hbefore, Date.next, if_pos]
    · rfl
    · unfold daysLeft at hk
      dsimp only
      omega

/-- The first day of the next month. -/
theorem dateOf_add_daysLeft (n : ℕ) : dateOf (n + daysLeft n) =
    if (dateOf n).month < 12 then ⟨(dateOf n).year, (dateOf n).month + 1, 1⟩
    else ⟨(dateOf n).year + 1, 1, 1⟩ := by
  have hpos := daysLeft_pos n
  have hlast := dateOf_add (n := n) (k := daysLeft n - 1) (by omega)
  have hday : (dateOf n).day + (daysLeft n - 1) = daysIn (dateOf n).year (dateOf n).month := by
    have hle := (valid_dateOf n).day_le
    unfold daysLeft
    omega
  obtain ⟨k, hk⟩ : ∃ k, daysLeft n = k + 1 := ⟨daysLeft n - 1, by omega⟩
  rw [hk, Nat.add_sub_cancel] at hlast
  rw [hk, ← Nat.add_assoc, dateOf, hlast, Date.next, if_neg]
  dsimp only
  rw [hk, Nat.add_sub_cancel] at hday
  omega

/-- Back to the first day of the month. -/
theorem dateOf_sub (n : ℕ) : (dateOf n).day ≤ n + 1 ∧
    dateOf (n + 1 - (dateOf n).day) = { dateOf n with day := 1 } := by
  induction n with
  | zero => exact ⟨le_rfl, rfl⟩
  | succ n ih =>
    obtain ⟨hle, hfirst⟩ := ih
    have hpos := (valid_dateOf n).one_le_day
    rw [dateOf, Date.next]
    split_ifs with hin hyear
    · refine ⟨Nat.succ_le_succ hle, ?_⟩
      rw [Nat.add_sub_add_right]
      exact hfirst
    · refine ⟨Nat.le_add_left _ _, ?_⟩
      rw [Nat.add_sub_cancel, dateOf, Date.next, if_neg hin, if_pos hyear]
    · refine ⟨Nat.le_add_left _ _, ?_⟩
      rw [Nat.add_sub_cancel, dateOf, Date.next, if_neg hin, if_neg hyear]

/-! ## Months and years -/

/-- The months are counted through. -/
def monthIndex (n : ℕ) : ℕ := 12 * (dateOf n).year + (dateOf n).month - 1

theorem year_eq (n : ℕ) : (dateOf n).year = monthIndex n / 12 := by
  obtain ⟨hone, hle, -, -⟩ := valid_dateOf n
  unfold monthIndex
  omega

theorem monthIndex_add_daysLeft (n : ℕ) : monthIndex (n + daysLeft n) = monthIndex n + 1 := by
  obtain ⟨hone, hle, -, -⟩ := valid_dateOf n
  unfold monthIndex
  rw [dateOf_add_daysLeft]
  split_ifs <;> dsimp only <;> omega

theorem monthIndex_add {n k : ℕ} (hk : k < daysLeft n) : monthIndex (n + k) = monthIndex n := by
  unfold monthIndex
  rw [dateOf_add hk]

theorem monthIndex_mono : Monotone monthIndex := by
  refine monotone_nat_of_le_succ fun n => ?_
  by_cases hone : 1 < daysLeft n
  · exact (monthIndex_add hone).ge
  · have hleft : daysLeft n = 1 := by
      have hpos := daysLeft_pos n
      omega
    have hnext := monthIndex_add_daysLeft n
    rw [hleft] at hnext
    omega

theorem year_mono : Monotone fun n => (dateOf n).year := by
  intro m n h
  simp only [year_eq]
  exact Nat.div_le_div_right (monthIndex_mono h)

/-- No month is longer than 31 days. -/
theorem add_le_monthIndex (n k : ℕ) : monthIndex n + k ≤ monthIndex (n + 31 * k) := by
  induction k with
  | zero => rfl
  | succ k ih =>
    have hmonth := monthIndex_add_daysLeft (n + 31 * k)
    have hle : daysLeft (n + 31 * k) ≤ 31 := by
      have hin := daysIn_le (dateOf (n + 31 * k)).year (dateOf (n + 31 * k)).month
      have hpos := (valid_dateOf (n + 31 * k)).one_le_day
      unfold daysLeft
      omega
    have hmono : monthIndex (n + 31 * k + daysLeft (n + 31 * k)) ≤ monthIndex (n + 31 * (k + 1)) :=
      monthIndex_mono (by omega)
    omega

/-- So twelve times as many days lead into a later year. -/
theorem add_le_year (n k : ℕ) : (dateOf n).year + k ≤ (dateOf (n + 372 * k)).year := by
  have hle := add_le_monthIndex n (12 * k)
  have hdays : 31 * (12 * k) = 372 * k := by omega
  rw [hdays] at hle
  rw [year_eq, year_eq]
  omega

/-- The first of January, if the year is another one than the day before. -/
theorem dateOf_of_year_lt {n : ℕ} (h : (dateOf n).year < (dateOf (n + 1)).year) :
    dateOf (n + 1) = ⟨(dateOf n).year + 1, 1, 1⟩ := by
  rw [dateOf, Date.next] at h ⊢
  split_ifs at h ⊢
  · exact absurd h (lt_irrefl _)
  · exact absurd h (lt_irrefl _)
  · rfl

theorem exists_later_year (n : ℕ) : ∃ m, (dateOf n).year < (dateOf m).year :=
  ⟨n + 372 * 1, add_le_year n 1⟩

/-- The first day of the next year. -/
def nextYear (n : ℕ) : ℕ := Nat.find (exists_later_year n)

theorem year_lt_nextYear (n : ℕ) : (dateOf n).year < (dateOf (nextYear n)).year :=
  Nat.find_spec (exists_later_year n)

theorem lt_nextYear (n : ℕ) : n < nextYear n := by
  by_contra hle
  exact absurd (year_lt_nextYear n) (not_lt.mpr (year_mono (not_lt.mp hle)))

theorem year_of_lt_nextYear {n m : ℕ} (hnm : n ≤ m) (hm : m < nextYear n) :
    (dateOf m).year = (dateOf n).year :=
  le_antisymm (not_lt.mp (Nat.find_min (exists_later_year n) hm)) (year_mono hnm)

theorem nextYear_of_lt {n m : ℕ} (hnm : n ≤ m) (hm : m < nextYear n) : nextYear m = nextYear n := by
  have hyear := year_of_lt_nextYear hnm hm
  simp only [nextYear, hyear]

/-- A month ends with the year or before it. -/
theorem add_daysLeft_le_nextYear (n : ℕ) : n + daysLeft n ≤ nextYear n := by
  by_contra hlt
  have hafter := lt_nextYear n
  have hyear := year_lt_nextYear n
  have hin := dateOf_add (n := n) (k := nextYear n - n) (by omega)
  rw [Nat.add_sub_cancel' hafter.le] at hin
  rw [hin] at hyear
  exact lt_irrefl _ hyear

theorem exists_year (n : ℕ) : ∃ m, (dateOf n).year ≤ (dateOf m).year := ⟨n, le_rfl⟩

/-- The first day of the year. -/
def yearStart (n : ℕ) : ℕ := Nat.find (exists_year n)

theorem year_yearStart (n : ℕ) : (dateOf (yearStart n)).year = (dateOf n).year :=
  le_antisymm (year_mono (Nat.find_min' _ le_rfl)) (Nat.find_spec (exists_year n))

theorem yearStart_nextYear (n : ℕ) : yearStart (nextYear n) = nextYear n := by
  refine le_antisymm (Nat.find_min' _ le_rfl) (not_lt.mp fun hlt => ?_)
  refine Nat.find_min (exists_later_year n) hlt ?_
  rw [year_yearStart]
  exact year_lt_nextYear n

/-- The first of January. -/
theorem month_day_yearStart (n : ℕ) :
    (dateOf (yearStart n)).month = 1 ∧ (dateOf (yearStart n)).day = 1 := by
  cases hm : yearStart n with
  | zero => exact ⟨rfl, rfl⟩
  | succ k =>
    have hk : (dateOf k).year < (dateOf n).year :=
      not_le.mp (Nat.find_min (exists_year n) (by rw [← yearStart, hm]; exact Nat.lt_succ_self k))
    rw [← year_yearStart n, hm] at hk
    rw [dateOf_of_year_lt hk]
    exact ⟨rfl, rfl⟩

theorem nextYear_yearStart (n : ℕ) : nextYear (yearStart n) = nextYear n := by
  simp only [nextYear, year_yearStart]

/-- The first of January of the year 1 is a Monday; Sundays are day 0 of the week. -/
def weekday (n : ℕ) : ℕ := (n + 1) % 7

end Calendar
