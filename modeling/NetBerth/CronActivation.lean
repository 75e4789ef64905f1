import NetBerth.Calendar
import NetBerth.CronParser
import NetBerth.FieldSearch

/-!
# When a schedule is next activated

A schedule has a set of values for each field of the time. The next activation is searched for
field by field, from the month to the second, and the search begins again where a field comes to
its first value. It gives up after five years.

What it finds is the first second after the given time that has all its fields in the sets of the
schedule. Times are those of a clock with one offset from UTC, a whole number of minutes, and are
counted from its midnight before the first of January of the year 1. A `Location` whose offset
changes is left out, and with it what the search does about days that do not begin at midnight.
-/
namespace NetBerth.CronActivation
open Calendar CronParser FieldSearch

/-! ## The fields of a second -/

def dayNumber (t : ℕ) : ℕ := t / 86400

def dateAt (t : ℕ) : Date := dateOf (dayNumber t)

def hour (t : ℕ) : ℕ := t / 3600 % 24

def minute (t : ℕ) : ℕ := t / 60 % 60

def second (t : ℕ) : ℕ := t % 60

/-- `1<<i&bits`. -/
def has (bits : Bits) (i : ℕ) : Bool := 1 <<< i &&& bits ≠ 0

/-- Both the day of the month and the day of the week are asked for if one of them is a star,
otherwise one of the two. -/
def dayMatches (s : SpecSchedule) (t : ℕ) : Bool :=
  let domMatch := has s.dom (dateAt t).day
  let dowMatch := has s.dow (weekday (dayNumber t))
  if starBit &&& s.dom ≠ 0 ∨ starBit &&& s.dow ≠ 0 then domMatch && dowMatch
  else domMatch || dowMatch

/-! ## The loops -/

def monthField (s : SpecSchedule) : Field where
  value t := (dateAt t).month
  first := 1
  size := 12
  wanted t := has s.month (dateAt t).month
  reset t := (dayNumber t + 1 - (dateAt t).day) * 86400
  advance t := t + daysIn (dateAt t).year (dateAt t).month * 86400

def dayField (s : SpecSchedule) : Field where
  value t := (dateAt t).day
  first := 1
  size := 31
  wanted := dayMatches s
  reset t := t / 86400 * 86400
  advance t := t + 86400

def hourField (s : SpecSchedule) : Field where
  value := hour
  first := 0
  size := 24
  wanted t := has s.hour (hour t)
  reset t := t / 3600 * 3600
  advance t := t + 3600

def minuteField (s : SpecSchedule) : Field where
  value := minute
  first := 0
  size := 60
  wanted t := has s.minute (minute t)
  reset t := t / 60 * 60
  advance t := t + 60

def secondField (s : SpecSchedule) : Field where
  value := second
  first := 0
  size := 60
  wanted t := has s.second (second t)
  reset t := t / 1 * 1
  advance t := t + 1

def fields (s : SpecSchedule) : List Field :=
  [monthField s, dayField s, hourField s, minuteField s, secondField s]

/-- In six years the search comes to its end. -/
def enough : ℕ := 372 * 6 * 86400 + 1

/-- From the upcoming second on, up to the end of the fifth year after. Times are in
nanoseconds; `none` is the zero time. -/
def next (s : SpecSchedule) (now : ℕ) : Option ℕ :=
  let t := now / 10 ^ 9 + 1
  let yearLimit := (dateAt t).year + 5
  (search (fields s) (fun t => (dateAt t).year > yearLimit) enough t false).map (· * 10 ^ 9)

/-! ## What an activation is -/

/-- The second is in the sets of the schedule. -/
structure Matches (s : SpecSchedule) (t : ℕ) : Prop where
  month : has s.month (dateAt t).month = true
  day : dayMatches s t = true
  hour : has s.hour (hour t) = true
  minute : has s.minute (minute t) = true
  second : has s.second (second t) = true

/-- The last year that is searched. -/
def yearLimit (now : ℕ) : ℕ := (dateAt (now / 10 ^ 9 + 1)).year + 5

def activations (s : SpecSchedule) (now : ℕ) : Set ℕ :=
  {u | now < u ∧ ∃ t, u = t * 10 ^ 9 ∧ (dateAt t).year ≤ yearLimit now ∧ Matches s t}

/-! ## The blocks of the fields -/

section
variable (s : SpecSchedule)

theorem dateAt_eq {t v : ℕ} (h : t / 86400 = v / 86400) : dateAt t = dateAt v := by
  rw [dateAt, dayNumber, h]
  rfl

theorem dayNumber_mul (n : ℕ) : dayNumber (n * 86400) = n := Nat.mul_div_cancel _ (by norm_num)

theorem dateAt_mul (n : ℕ) : dateAt (n * 86400) = dateOf n := congrArg dateOf (dayNumber_mul n)

theorem day_even : (dayField s).Even 86400 where
  pos := by norm_num
  reset_eq _ := rfl
  advance_eq _ := rfl
  wanted_eq t v h := by
    simp only [dayField, dayMatches, dateAt_eq h, dayNumber, h]

theorem hour_even : (hourField s).Even 3600 where
  pos := by norm_num
  reset_eq _ := rfl
  advance_eq _ := rfl
  wanted_eq t v h := by simp only [hourField, hour, h]

theorem minute_even : (minuteField s).Even 60 where
  pos := by norm_num
  reset_eq _ := rfl
  advance_eq _ := rfl
  wanted_eq t v h := by simp only [minuteField, minute, h]

theorem second_even : (secondField s).Even 1 where
  pos := Nat.one_pos
  reset_eq _ := rfl
  advance_eq _ := rfl
  wanted_eq t v h := by
    rw [Nat.div_one, Nat.div_one] at h
    rw [h]

theorem month_reset (t : ℕ) :
    (monthField s).reset t = (dayNumber t + 1 - (dateAt t).day) * 86400 := rfl

theorem month_advance (t : ℕ) :
    (monthField s).advance t = t + daysIn (dateAt t).year (dateAt t).month * 86400 := rfl

theorem month_value (t : ℕ) : (monthField s).value t = (dateAt t).month := rfl

theorem day_value (t : ℕ) : (dayField s).value t = (dateAt t).day := rfl

/-- The first second of the next month. -/
theorem month_next (t : ℕ) :
    (monthField s).next t = (dayNumber t + daysLeft (dayNumber t)) * 86400 := by
  obtain ⟨hle, hfirst⟩ := dateOf_sub (dayNumber t)
  have hreset : dateAt ((dayNumber t + 1 - (dateAt t).day) * 86400) = { dateAt t with day := 1 } := by
    rw [dateAt_mul]
    exact hfirst
  have hday : (dateAt t).day ≤ daysIn (dateAt t).year (dateAt t).month := (valid_dateOf _).day_le
  have hdays : dayNumber t + 1 - (dateAt t).day + daysIn (dateAt t).year (dateAt t).month =
      dayNumber t + daysLeft (dayNumber t) := by
    change (dateAt t).day ≤ dayNumber t + 1 at hle
    change _ = dayNumber t + (daysIn (dateAt t).year (dateAt t).month + 1 - (dateAt t).day)
    omega
  rw [Field.next, month_reset, month_advance, hreset, ← Nat.add_mul, hdays]

/-- Later in the same month. -/
theorem date_of_lt_month {t v : ℕ} (htv : t ≤ v) (hv : v < (monthField s).next t) :
    ∃ k < daysLeft (dayNumber t), dayNumber v = dayNumber t + k ∧
      dateAt v = { dateAt t with day := (dateAt t).day + k } := by
  rw [month_next] at hv
  have hle : dayNumber t ≤ dayNumber v := Nat.div_le_div_right htv
  have hlt : dayNumber v < dayNumber t + daysLeft (dayNumber t) :=
    (Nat.div_lt_iff_lt_mul (by norm_num)).mpr hv
  refine ⟨dayNumber v - dayNumber t, by omega, by omega, ?_⟩
  have hdate := dateOf_add (n := dayNumber t) (k := dayNumber v - dayNumber t) (by omega)
  rwa [Nat.add_sub_cancel' hle] at hdate

theorem daysLeft_add {n k : ℕ} (hk : k < daysLeft n) : daysLeft (n + k) = daysLeft n - k := by
  have hle := (valid_dateOf n).day_le
  unfold daysLeft at hk ⊢
  rw [dateOf_add hk]
  dsimp only
  omega

theorem month_lawful : (monthField s).Lawful where
  lt_next t := by
    have hpos := daysLeft_pos (dayNumber t)
    rw [month_next]
    exact Nat.lt_mul_of_div_lt (Nat.lt_add_of_pos_right hpos) (by norm_num)
  wanted_eq t v htv hv := by
    obtain ⟨k, -, -, hdate⟩ := date_of_lt_month s htv hv
    simp only [monthField, hdate]
  next_eq t v htv hv := by
    obtain ⟨k, hk, hday, -⟩ := date_of_lt_month s htv hv
    rw [month_next, month_next, hday, daysLeft_add hk]
    congr 1
    omega
  reset_next t := by
    rw [month_next]
    have hfirst : (dateAt ((dayNumber t + daysLeft (dayNumber t)) * 86400)).day = 1 := by
      rw [dateAt_mul, dateOf_add_daysLeft]
      split_ifs <;> rfl
    rw [month_reset, hfirst, dayNumber_mul, Nat.add_sub_cancel]

/-! ## The values go round -/

theorem month_cyclic : (monthField s).Cyclic where
  first_le t := (valid_dateOf _).one_le_month
  lt_size t := Nat.lt_succ_of_le (valid_dateOf _).month_le
  value_next t := by
    rw [month_next]
    have hnext : dateAt ((dayNumber t + daysLeft (dayNumber t)) * 86400) =
        if (dateAt t).month < 12 then ⟨(dateAt t).year, (dateAt t).month + 1, 1⟩
        else ⟨(dateAt t).year + 1, 1, 1⟩ := by
      rw [dateAt_mul]
      exact dateOf_add_daysLeft _
    rw [month_value, month_value, hnext]
    split_ifs
    · exact .inr rfl
    · exact .inl rfl

theorem day_cyclic : (dayField s).Cyclic where
  first_le t := (valid_dateOf _).one_le_day
  lt_size t := Nat.lt_succ_of_le ((valid_dateOf _).day_le.trans (daysIn_le _ _))
  value_next t := by
    rw [(day_even s).next_eq]
    have hnext : dateAt ((t / 86400 + 1) * 86400) = (dateAt t).next := by
      rw [dateAt_mul]
      rfl
    rw [day_value, day_value, hnext, Date.next]
    split_ifs
    · exact .inr rfl
    · exact .inl rfl
    · exact .inl rfl

theorem hour_cyclic : (hourField s).Cyclic where
  first_le _ := Nat.zero_le _
  lt_size t := by simpa [hourField, hour] using Nat.mod_lt (t / 3600) (by norm_num : 24 > 0)
  value_next t := by
    rw [(hour_even s).next_eq]
    simp only [hourField, hour, Nat.mul_div_cancel _ (by norm_num : 0 < 3600)]
    omega

theorem minute_cyclic : (minuteField s).Cyclic where
  first_le _ := Nat.zero_le _
  lt_size t := by simpa [minuteField, minute] using Nat.mod_lt (t / 60) (by norm_num : 60 > 0)
  value_next t := by
    rw [(minute_even s).next_eq]
    simp only [minuteField, minute, Nat.mul_div_cancel _ (by norm_num : 0 < 60)]
    omega

theorem second_cyclic : (secondField s).Cyclic where
  first_le _ := Nat.zero_le _
  lt_size t := by simpa [secondField, second] using Nat.mod_lt t (by norm_num : 60 > 0)
  value_next t := by
    rw [(second_even s).next_eq]
    simp only [secondField, second, Nat.div_one, Nat.mul_one]
    omega

end

/-! ## The blocks divide each other -/

/-- The years, of which the search looks at the first few only. -/
def yearField (limit : ℕ) : Field where
  value t := (dateAt t).year
  first := 0
  size := limit
  wanted t := (dateAt t).year ≤ limit
  reset t := yearStart (dayNumber t) * 86400
  advance t := nextYear (dayNumber t) * 86400

theorem year_reset (limit t : ℕ) :
    (yearField limit).reset t = yearStart (dayNumber t) * 86400 := rfl

theorem year_advance (limit t : ℕ) :
    (yearField limit).advance t = nextYear (dayNumber t) * 86400 := rfl

theorem year_next (limit t : ℕ) :
    (yearField limit).next t = nextYear (dayNumber t) * 86400 := by
  rw [Field.next, year_reset, year_advance, dayNumber_mul, nextYear_yearStart]

theorem dayNumber_lt_nextYear {limit t v : ℕ} (hv : v < (yearField limit).next t) :
    dayNumber v < nextYear (dayNumber t) := by
  rw [year_next] at hv
  exact (Nat.div_lt_iff_lt_mul (by norm_num)).mpr hv

theorem year_lawful (limit : ℕ) : (yearField limit).Lawful where
  lt_next t := by
    rw [year_next]
    exact Nat.lt_mul_of_div_lt (lt_nextYear (dayNumber t)) (by norm_num)
  wanted_eq t v htv hv := by
    have hyear : (dateAt v).year = (dateAt t).year :=
      year_of_lt_nextYear (Nat.div_le_div_right htv) (dayNumber_lt_nextYear hv)
    simp only [yearField, hyear]
  next_eq t v htv hv := by
    rw [year_next, year_next]
    congr 1
    exact nextYear_of_lt (Nat.div_le_div_right htv) (dayNumber_lt_nextYear hv)
  reset_next t := by
    rw [year_next, year_reset, dayNumber_mul, yearStart_nextYear]

section
variable (s : SpecSchedule)

theorem year_refines (limit : ℕ) : Refines (yearField limit) (monthField s) where
  reset t ht := by
    have hday : (dateAt t).day = 1 := by
      rw [← ht, year_reset, dateAt_mul]
      exact (month_day_yearStart _).2
    rw [month_reset, hday, Nat.add_sub_cancel, ← ht, year_reset, dayNumber_mul]
  next_le t := by
    rw [year_next, month_next]
    exact Nat.mul_le_mul_right _ (add_daysLeft_le_nextYear _)
  value_eq t ht := by
    rw [← ht, year_reset, month_value, dateAt_mul]
    exact (month_day_yearStart _).1

theorem month_refines : Refines (monthField s) (dayField s) where
  reset t ht := Nat.div_mul_cancel (Dvd.intro_left _ ht)
  next_le t := by
    rw [month_next, (day_even s).next_eq]
    exact Nat.mul_le_mul_right _ (Nat.add_le_add_left (daysLeft_pos _) _)
  value_eq t ht := by
    rw [← ht, month_reset, day_value, dateAt_mul]
    exact congrArg Date.day (dateOf_sub (dayNumber t)).2

theorem day_refines : Refines (dayField s) (hourField s) := by
  refine (day_even s).refines (k := 24) (hour_even s) fun n => ?_
  simp only [hourField, hour]
  omega

theorem hour_refines : Refines (hourField s) (minuteField s) := by
  refine (hour_even s).refines (k := 60) (minute_even s) fun n => ?_
  simp only [minuteField, minute]
  omega

theorem minute_refines : Refines (minuteField s) (secondField s) := by
  refine (minute_even s).refines (k := 60) (second_even s) fun n => ?_
  simp only [secondField, second]
  omega

end

/-! ## The next activation -/

theorem fields_chain (s : SpecSchedule) (limit : ℕ) : Chain [yearField limit] (fields s) where
  lawful := by
    simp only [fields, List.singleton_append, List.forall_mem_cons]
    exact ⟨year_lawful limit, month_lawful s, (day_even s).lawful, (hour_even s).lawful,
      (minute_even s).lawful, (second_even s).lawful, nofun⟩
  cyclic := by
    simp only [fields, List.forall_mem_cons]
    exact ⟨month_cyclic s, day_cyclic s, hour_cyclic s, minute_cyclic s, second_cyclic s, nofun⟩
  refines := by
    have htrans : IsTrans Field Refines := ⟨fun _ _ _ => Refines.trans⟩
    rw [← List.isChain_iff_pairwise]
    simp only [fields, List.singleton_append, List.isChain_cons_cons]
    exact ⟨year_refines s limit, month_refines s, day_refines s, hour_refines s, minute_refines s,
      .singleton _⟩

theorem year_bounded {t limit : ℕ} (hlimit : limit = (dateAt t).year + 5) :
    Bounded (yearField limit) (fun t => (dateAt t).year > limit)
      ((dayNumber t + 372 * 6) * 86400) where
  wanted_eq v := by
    rw [← decide_not]
    simp only [yearField, gt_iff_lt, not_lt]
  mono v w hvw hv := by
    have hyear : (dateAt v).year ≤ (dateAt w).year := year_mono (Nat.div_le_div_right hvw)
    simp only [gt_iff_lt, decide_eq_true_eq] at hv ⊢
    omega
  last := by
    have hyear := add_le_year (dayNumber t) 6
    change (dateAt t).year + 6 ≤ _ at hyear
    simp only [dateAt_mul, gt_iff_lt, decide_eq_true_eq]
    exact lt_of_lt_of_le (by omega) hyear

theorem wanted_fields {s : SpecSchedule} {t : ℕ} : Wanted (fields s) t ↔ Matches s t := by
  simp only [Wanted, fields, List.forall_mem_cons]
  refine ⟨?_, ?_⟩
  · rintro ⟨hmonth, hday, hhour, hminute, hsecond, -⟩
    exact ⟨hmonth, hday, hhour, hminute, hsecond⟩
  · intro h
    exact ⟨h.month, h.day, h.hour, h.minute, h.second, List.forall_mem_nil _⟩

/-- The second of an instant that is a whole one comes after `now` if it is the next one or later. -/
theorem lt_mul_iff {now t : ℕ} : now < t * 10 ^ 9 ↔ now / 10 ^ 9 + 1 ≤ t := by
  rw [Nat.succ_le_iff, Nat.div_lt_iff_lt_mul (by norm_num)]

theorem mem_activations {s : SpecSchedule} {now t : ℕ} : t * 10 ^ 9 ∈ activations s now ↔
    now / 10 ^ 9 + 1 ≤ t ∧ (dateAt t).year ≤ yearLimit now ∧ Matches s t := by
  refine ⟨?_, ?_⟩
  · intro ⟨hnow, v, hv, hyear, hmatches⟩
    obtain rfl : t = v := Nat.eq_of_mul_eq_mul_right (by norm_num) hv
    exact ⟨lt_mul_iff.mp hnow, hyear, hmatches⟩
  · intro ⟨hnow, hyear, hmatches⟩
    exact ⟨lt_mul_iff.mpr hnow, t, rfl, hyear, hmatches⟩

theorem isNext_iff {s : SpecSchedule} {now t : ℕ} :
    IsNext (fields s) (fun t => (dateAt t).year > yearLimit now) (now / 10 ^ 9 + 1) t ↔
      IsLeast (activations s now) (t * 10 ^ 9) := by
  simp only [IsNext, wanted_fields, decide_eq_false_iff_not, gt_iff_lt, not_lt]
  refine ⟨?_, ?_⟩
  · intro ⟨hnow, hyear, hmatches, hmin⟩
    refine ⟨mem_activations.mpr ⟨hnow, hyear, hmatches⟩, ?_⟩
    intro u ⟨hu, v, hv, _, hmatchesv⟩
    rw [hv] at hu ⊢
    refine Nat.mul_le_mul_right _ (not_lt.mp fun hlt => ?_)
    exact hmin v (lt_mul_iff.mp hu) hlt hmatchesv
  · intro ⟨hmem, hmin⟩
    obtain ⟨hnow, hyear, hmatches⟩ := mem_activations.mp hmem
    refine ⟨hnow, hyear, hmatches, fun v hv hlt hmatchesv => ?_⟩
    have hyearv : (dateAt v).year ≤ (dateAt t).year := year_mono (Nat.div_le_div_right hlt.le)
    have hle := hmin (mem_activations.mpr ⟨hv, hyearv.trans hyear, hmatchesv⟩)
    have hlt' : v * 10 ^ 9 < t * 10 ^ 9 := Nat.mul_lt_mul_of_pos_right hlt (by norm_num)
    omega

theorem search_eq_some_iff_isLeast (s : SpecSchedule) (now t : ℕ) :
    search (fields s) (fun t => (dateAt t).year > yearLimit now) enough (now / 10 ^ 9 + 1) false =
      some t ↔ IsLeast (activations s now) (t * 10 ^ 9) := by
  rw [← isNext_iff]
  refine search_eq_some_iff (fields_chain s _) (year_bounded rfl) ?_ (Nat.succ_pos _)
  have hle := Nat.div_mul_le_self (now / 10 ^ 9 + 1) 86400
  unfold enough dayNumber
  omega

/-- What `Next` answers is the first activation after the given instant, up to the end of the
fifth year after. -/
theorem next_eq_some_iff (s : SpecSchedule) (now u : ℕ) :
    next s now = some u ↔ IsLeast (activations s now) u := by
  unfold next
  simp only [Option.map_eq_some_iff]
  refine ⟨?_, ?_⟩
  · rintro ⟨t, ht, rfl⟩
    exact (search_eq_some_iff_isLeast s now t).mp ht
  · intro h
    obtain ⟨t, rfl, -⟩ := h.1.2
    exact ⟨t, (search_eq_some_iff_isLeast s now t).mpr h, rfl⟩

/-- It is the zero time only if there is none. -/
theorem next_eq_none_iff (s : SpecSchedule) (now : ℕ) : next s now = none ↔ activations s now = ∅ := by
  refine ⟨fun h => ?_, fun h => ?_⟩
  · by_contra hne
    obtain ⟨u, hu⟩ := Set.nonempty_iff_ne_empty.mpr hne
    classical
    have hex : ∃ u, u ∈ activations s now := ⟨u, hu⟩
    have hleast : IsLeast (activations s now) (Nat.find hex) :=
      ⟨Nat.find_spec hex, fun v hv => Nat.find_min' hex hv⟩
    rw [(next_eq_some_iff s now _).mpr hleast] at h
    cases h
  · cases hn : next s now with
    | none => rfl
    | some u =>
      have hmem := ((next_eq_some_iff s now u).mp hn).1
      rw [h] at hmem
      exact hmem.elim

end NetBerth.CronActivation
