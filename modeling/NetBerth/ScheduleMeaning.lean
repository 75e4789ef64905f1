import NetBerth.CronActivation
import NetBerth.CronSchedules

/-!
# What a schedule asks for

A field of a schedule is parsed into a set of bits, and the search for the next activation looks
at the bits only. A range covers every number from where it starts to where it ends that its step
comes to, and the field covers what one of its ranges covers. A bit is set if the field covers
its number, and the top one if one of the ranges is a star.

So a schedule that the validator lets through, and the parser as well, is activated at the seconds
its text asks for, read on a clock with one offset from UTC.
-/
namespace NetBerth.ScheduleMeaning
open Accounts (isSpace)
open TextFields (fieldsFunc)
open CronParser CronActivation CronSchedules Calendar

/-! ## Bits -/

theorem cast_shift (i : ℕ) : ((1 <<< i : ℕ) : Bits) = BitVec.twoPow 64 i := by
  refine BitVec.eq_of_toNat_eq ?_
  rw [BitVec.toNat_twoPow, Nat.one_shiftLeft]
  exact BitVec.toNat_ofNat _ _

theorem has_iff {bits : Bits} {i : ℕ} : has bits i = true ↔ bits.getLsbD i = true := by
  rw [has, cast_shift, BitVec.and_comm, BitVec.and_twoPow, decide_eq_true_iff]
  split_ifs with hbit
  · refine iff_of_true (fun hzero => ?_) hbit
    have hlt : i < 64 := BitVec.lt_of_getLsbD hbit
    have hself := congrArg (fun b : Bits => b.getLsbD i) hzero
    simp [hlt] at hself
  · exact iff_of_false (fun hne => hne rfl) hbit

theorem has_or {a b : Bits} {i : ℕ} : has (a ||| b) i = true ↔ has a i = true ∨ has b i = true := by
  rw [has_iff, has_iff, has_iff, BitVec.getLsbD_or, Bool.or_eq_true]

theorem has_zero (i : ℕ) : has 0 i = false := by
  rw [Bool.eq_false_iff, ne_eq, has_iff]
  simp

theorem has_shift {i j : ℕ} (hj : j < 64) : has (1 <<< j : ℕ) i = true ↔ i = j := by
  rw [has_iff, cast_shift, BitVec.getLsbD_twoPow, Bool.and_eq_true, decide_eq_true_iff,
    decide_eq_true_iff]
  omega

theorem has_setBits {max step fuel i j : ℕ} {bits : Bits} (hstep : 0 < step) (hmax : max < 64)
    (hfuel : max < fuel + i) : has (setBits max step fuel i bits) j = true ↔
      has bits j = true ∨ i ≤ j ∧ j ≤ max ∧ step ∣ j - i := by
  induction fuel generalizing i bits with
  | zero =>
    rw [setBits]
    exact ⟨.inl, fun h => h.resolve_right (by omega)⟩
  | succ fuel ih =>
    rw [setBits]
    split_ifs with hle
    · rw [ih (by omega), has_or, has_shift (by omega), or_assoc]
      refine or_congr_right ⟨?_, ?_⟩
      · rintro (rfl | ⟨hij, hj, hdvd⟩)
        · exact ⟨le_rfl, hle, by simp⟩
        · refine ⟨by omega, hj, ?_⟩
          have hadd := Nat.dvd_add hdvd (dvd_refl step)
          rwa [show j - (i + step) + step = j - i by omega] at hadd
      · rintro ⟨hij, hj, hdvd⟩
        by_cases heq : j = i
        · exact .inl heq
        · have hge := Nat.le_of_dvd (by omega) hdvd
          refine .inr ⟨by omega, hj, ?_⟩
          rw [show j - (i + step) = j - i - step by omega]
          exact Nat.dvd_sub hdvd (dvd_refl step)
    · exact ⟨.inl, fun h => h.resolve_right (by omega)⟩

/-- The bits from the first number to the last that the step comes to. -/
theorem has_getBits {min max step i : ℕ} (hstep : 0 < step) (hmax : max < 63) :
    has (getBits min max step) i = true ↔ min ≤ i ∧ i ≤ max ∧ step ∣ i - min := by
  rw [getBits]
  split_ifs with hone
  · subst hone
    rw [has_iff, BitVec.getLsbD_and, BitVec.getLsbD_not, BitVec.getLsbD_shiftLeft,
      BitVec.getLsbD_shiftLeft]
    simp only [BitVec.getLsbD_allOnes, Bool.and_eq_true, Bool.not_eq_true', decide_eq_true_iff,
      Bool.and_eq_false_iff, decide_eq_false_iff_not, Bool.not_eq_false', one_dvd, and_true]
    omega
  · rw [has_setBits hstep (by omega) (by omega), has_zero]
    simp

/-! ## What is covered -/

/-- The number a range starts with. -/
def start (r : Bounds) (item : Item) : ℕ := (item.base.startEnd r).1

/-- A single number with a step goes to the end of the bounds. -/
def stop (r : Bounds) (item : Item) : ℕ :=
  if item.step.isSome ∧ item.base.singleDigit then r.max else (item.base.startEnd r).2.1

def every (item : Item) : ℕ := item.step.elim 1 Number.value

def Covers (r : Bounds) (item : Item) (i : ℕ) : Prop :=
  start r item ≤ i ∧ i ≤ stop r item ∧ every item ∣ i - start r item

/-- A star, unless it has a step of more than one. -/
def isStar (item : Item) : Bool :=
  match item.base with
  | .star => every item = 1
  | _ => false

def FieldCovers (r : Bounds) (field : List Char) (i : ℕ) : Prop :=
  ∃ expr ∈ fieldsFunc (fun c => c = ',') field, ∃ item : Item, expr = item.text ∧ Covers r item i

def FieldHasStar (field : List Char) : Prop :=
  ∃ expr ∈ fieldsFunc (fun c => c = ',') field, ∃ item : Item, expr = item.text ∧ isStar item = true

/-! ## Ranges -/

section
variable {r : Bounds} {i : ℕ}

/-- The bits of a range that is in its bounds. -/
def itemBits (r : Bounds) (item : Item) : Bits :=
  getBits (start r item) (stop r item) (every item) ||| if isStar item then starBit else 0

theorem getRange_item (hr : r ∈ [seconds, minutes, hours, dom, months, dow]) (item : Item) :
    getRange item.text r = checkRange r (start r item, stop r item, every item,
      if every item > 1 then 0 else (item.base.startEnd r).2.2) := by
  obtain ⟨base, step⟩ := item
  obtain ⟨hstart, hsingle⟩ := getStartEnd_base hr base
  cases step with
  | none =>
    have hsplit : (Item.text ⟨base, none⟩).splitOn '/' = [base.text] := by
      rw [Item.text, Option.elim_none, List.append_nil, List.splitOn_eq_singleton (splitOn_base base)]
    rw [getRange, hsplit]
    change ((getStartEnd (base.text.splitOn '-') r).bind (withStep [] _ r)).bind _ = _
    rw [hstart]
    rfl
  | some n =>
    have hsplit : (Item.text ⟨base, some n⟩).splitOn '/' = [base.text, n.digits] := by
      rw [Item.text, Option.elim_some,
        List.splitOn_append_cons_self_of_not_mem (splitOn_base base),
        List.splitOn_eq_singleton (not_mem_digits n (by decide))]
    rw [getRange, hsplit]
    change ((getStartEnd (base.text.splitOn '-') r).bind (withStep [n.digits]
      (decide ((base.text.splitOn '-').length = 1)) r)).bind _ = _
    rw [hstart, hsingle, Option.bind_some, withStep, mustParseInt_digits, Option.map_some,
      Option.bind_some]
    congr 3
    simp only [stop, Option.isSome_some, true_and]

theorem getRange_eq_itemBits (hr : r ∈ [seconds, minutes, hours, dom, months, dow]) {item : Item}
    {bits : Bits} (h : getRange item.text r = some bits) :
    bits = itemBits r item ∧ 0 < every item ∧ stop r item < 63 := by
  have hmax : r.max < 63 := by
    have hall : ∀ r ∈ [seconds, minutes, hours, dom, months, dow], r.max < 63 := by
      simp [seconds, minutes, hours, dom, months, dow]
    exact hall r hr
  rw [getRange_item hr] at h
  obtain ⟨hlow, horder, hhigh, hstep⟩ := checkRange_isSome.mp (Option.isSome_of_eq_some h)
  rw [checkRange, if_neg (by omega), if_neg (by omega), if_neg (by omega), if_neg hstep] at h
  refine ⟨?_, by omega, by omega⟩
  obtain rfl := Option.some.inj h
  unfold itemBits isStar
  congr 1
  cases hbase : item.base with
  | star =>
    have hone : (every item > 1) ↔ ¬every item = 1 := by omega
    simp only [hone, ite_not, decide_eq_true_iff]
    rfl
  | one low => simp [Base.startEnd]
  | range low high => simp [Base.startEnd]

theorem has_itemBits {item : Item} (hevery : 0 < every item) (hstop : stop r item < 63)
    (hi : i < 63) : has (itemBits r item) i = true ↔ Covers r item i := by
  have hstar : has (if isStar item then starBit else 0) i = false := by
    split_ifs
    · rw [Bool.eq_false_iff, ne_eq, starBit, has_shift (by norm_num)]
      omega
    · exact has_zero i
  rw [itemBits, has_or, hstar, has_getBits hevery hstop, Covers]
  simp

theorem star_itemBits {item : Item} (hevery : 0 < every item) (hstop : stop r item < 63) :
    has (itemBits r item) 63 = true ↔ isStar item = true := by
  rw [itemBits, has_or, has_getBits hevery hstop]
  split_ifs with hstar
  · refine iff_of_true (.inr ?_) hstar
    exact (has_shift (by norm_num)).mpr rfl
  · refine iff_of_false ?_ hstar
    rintro (hbit | hbit)
    · omega
    · rw [has_zero] at hbit
      cases hbit

/-! ## Fields -/

theorem has_foldlM {f : List Char → Option Bits} {exprs : List (List Char)} {bits bits' : Bits}
    (h : exprs.foldlM (fun bits expr => (f expr).map fun bit => bits ||| bit) bits = some bits') :
    has bits' i = true ↔
      has bits i = true ∨ ∃ expr ∈ exprs, ∃ bit, f expr = some bit ∧ has bit i = true := by
  induction exprs generalizing bits with
  | nil =>
    obtain rfl := Option.some.inj h
    simp
  | cons expr exprs ih =>
    rw [List.foldlM_cons] at h
    obtain ⟨next, hnext, hrest⟩ := Option.bind_eq_some_iff.mp h
    obtain ⟨bit, hbit, rfl⟩ := Option.map_eq_some_iff.mp hnext
    rw [ih hrest, has_or, or_assoc, List.exists_mem_cons_iff]
    simp only [hbit, Option.some.injEq, exists_eq_left']

theorem has_getField {field : List Char} {bits : Bits} (h : getField field r = some bits) :
    has bits i = true ↔ ∃ expr ∈ fieldsFunc (fun c => c = ',') field,
      ∃ bit, getRange expr r = some bit ∧ has bit i = true := by
  rw [has_foldlM h, has_zero]
  simp

/-- A field that was accepted has bits for what it covers, and the top bit for a star. -/
structure FieldMeans (r : Bounds) (field : List Char) (bits : Bits) : Prop where
  covers : ∀ i < 63, has bits i = true ↔ FieldCovers r field i
  star : has bits 63 = true ↔ FieldHasStar field

theorem field_means (hr : r ∈ [seconds, minutes, hours, dom, months, dow]) {field : List Char}
    (hfield : IsFieldText field) {bits : Bits} (h : getField field r = some bits) :
    FieldMeans r field bits := by
  have hsome : ∀ expr ∈ fieldsFunc (fun c => c = ',') field, ∀ item : Item, expr = item.text →
      getRange expr r = some (itemBits r item) ∧ 0 < every item ∧ stop r item < 63 := by
    intro expr hexpr item hitem
    have hin := (isSome_foldlM _ _).mp (Option.isSome_of_eq_some h) expr hexpr
    obtain ⟨bit, hbit⟩ := Option.isSome_iff_exists.mp hin
    subst hitem
    obtain ⟨rfl, hevery, hstop⟩ := getRange_eq_itemBits hr hbit
    exact ⟨hbit, hevery, hstop⟩
  have hmeans : ∀ i, ∀ P : Item → Prop, (∀ item, 0 < every item → stop r item < 63 →
      (has (itemBits r item) i = true ↔ P item)) → (has bits i = true ↔
        ∃ expr ∈ fieldsFunc (fun c => c = ',') field, ∃ item : Item, expr = item.text ∧ P item) := by
    intro i P hP
    rw [has_getField h]
    refine exists_congr fun expr => and_congr_right fun hexpr => ?_
    constructor
    · rintro ⟨bit, hbit, hhas⟩
      obtain ⟨item, hitem⟩ := item_of_getRange hr (hfield expr hexpr) (Option.isSome_of_eq_some hbit)
      obtain ⟨hitemBits, hevery, hstop⟩ := hsome expr hexpr item hitem.symm
      rw [hitemBits] at hbit
      rw [← Option.some.inj hbit] at hhas
      exact ⟨item, hitem.symm, (hP item hevery hstop).mp hhas⟩
    · rintro ⟨item, hitem, hP'⟩
      obtain ⟨hitemBits, hevery, hstop⟩ := hsome expr hexpr item hitem
      exact ⟨_, hitemBits, (hP item hevery hstop).mpr hP'⟩
  constructor
  · exact fun i hi => hmeans i _ fun item hevery hstop => has_itemBits hevery hstop hi
  · exact hmeans 63 _ fun item hevery hstop => star_itemBits hevery hstop

end

/-! ## Schedules -/

/-- Both days are asked for if there is a star for one of them, otherwise one of the two. -/
def DayAsked (domField dowField : List Char) (t : ℕ) : Prop :=
  let dayAsked := FieldCovers dom domField (dateAt t).day
  let weekdayAsked := FieldCovers dow dowField (weekday (dayNumber t))
  dayAsked ∧ weekdayAsked ∨
    ¬(FieldHasStar domField ∨ FieldHasStar dowField) ∧ (dayAsked ∨ weekdayAsked)

/-- The second is one that the text asks for. -/
def Asks (spec : List Char) (t : ℕ) : Prop :=
  match fieldsFunc isSpace spec with
  | [second, minute, hour, dayOfMonth, month, dayOfWeek] =>
    FieldCovers seconds second (CronActivation.second t) ∧
      FieldCovers minutes minute (CronActivation.minute t) ∧
      FieldCovers hours hour (CronActivation.hour t) ∧
      FieldCovers months month (dateAt t).month ∧ DayAsked dayOfMonth dayOfWeek t
  | _ => False

theorem starBit_and_ne_zero {bits : Bits} : starBit &&& bits ≠ 0 ↔ has bits 63 = true :=
  decide_eq_true_iff.symm

theorem dayMatches_iff {s : SpecSchedule} {domField dowField : List Char}
    (hdom : FieldMeans dom domField s.dom) (hdow : FieldMeans dow dowField s.dow) (t : ℕ) :
    dayMatches s t = true ↔ DayAsked domField dowField t := by
  have hday : (dateAt t).day < 63 := by
    have hle := (valid_dateOf (dayNumber t)).day_le.trans (daysIn_le _ _)
    exact lt_of_le_of_lt hle (by norm_num)
  have hweekday : weekday (dayNumber t) < 63 :=
    lt_of_lt_of_le (Nat.mod_lt _ (by norm_num)) (by norm_num)
  have hdayAsked := hdom.covers (dateAt t).day hday
  have hweekdayAsked := hdow.covers _ hweekday
  have hstars : (starBit &&& s.dom ≠ 0 ∨ starBit &&& s.dow ≠ 0) ↔
      (FieldHasStar domField ∨ FieldHasStar dowField) := by
    rw [starBit_and_ne_zero, starBit_and_ne_zero, hdom.star, hdow.star]
  unfold dayMatches DayAsked
  dsimp only
  by_cases hstar : FieldHasStar domField ∨ FieldHasStar dowField
  · rw [if_pos (hstars.mpr hstar), Bool.and_eq_true, hdayAsked, hweekdayAsked]
    exact ⟨.inl, fun h => h.resolve_right fun hno => hno.1 hstar⟩
  · rw [if_neg (mt hstars.mp hstar), Bool.or_eq_true, hdayAsked, hweekdayAsked]
    refine ⟨fun h => .inr ⟨hstar, h⟩, fun h => ?_⟩
    rcases h with ⟨h, -⟩ | ⟨-, h⟩
    · exact .inl h
    · exact h

/-- What is parsed are the six fields of a text. -/
theorem fields_of_parseFields {spec : List Char} {s : SpecSchedule}
    (h : parseFields spec = some s) :
    ∃ second minute hour dayOfMonth month dayOfWeek,
      fieldsFunc isSpace spec = [second, minute, hour, dayOfMonth, month, dayOfWeek] ∧
        getField second seconds = some s.second ∧ getField minute minutes = some s.minute ∧
        getField hour hours = some s.hour ∧ getField dayOfMonth dom = some s.dom ∧
        getField month months = some s.month ∧ getField dayOfWeek dow = some s.dow := by
  unfold parseFields at h
  split at h
  · rename_i second minute hour dayOfMonth month dayOfWeek hfields
    simp only [Option.pure_def, Option.bind_eq_bind, Option.bind_eq_some_iff,
      Option.some.injEq] at h
    obtain ⟨_, hsecond, _, hminute, _, hhour, _, hdom, _, hmonth, _, hdow, rfl⟩ := h
    exact ⟨second, minute, hour, dayOfMonth, month, dayOfWeek, hfields, hsecond, hminute, hhour,
      hdom, hmonth, hdow⟩
  · cases h

/-- A schedule matches the seconds its text asks for. -/
theorem matches_iff {spec : List Char} {s : SpecSchedule}
    (hspec : ∀ field ∈ fieldsFunc isSpace spec, IsFieldText field)
    (h : parseFields spec = some s) (t : ℕ) : Matches s t ↔ Asks spec t := by
  obtain ⟨second, minute, hour, dayOfMonth, month, dayOfWeek, hfields, hseconds', hminutes',
    hhours', hdom', hmonths', hdow'⟩ := fields_of_parseFields h
  rw [hfields] at hspec
  rw [Asks, hfields]
  simp only [List.forall_mem_cons] at hspec
  obtain ⟨hsecond, hminute, hhour, hdom, hmonth, hdow, -⟩ := hspec
  have hdayMatches := dayMatches_iff (s := s)
    (field_means (by simp) hdom hdom') (field_means (by simp) hdow hdow') t
  have hmonthLt : (dateAt t).month < 63 :=
    lt_of_le_of_lt (valid_dateOf (dayNumber t)).month_le (by norm_num)
  have hhourLt : CronActivation.hour t < 63 :=
    lt_of_lt_of_le (Nat.mod_lt _ (by norm_num)) (by norm_num)
  have hminuteLt : CronActivation.minute t < 63 :=
    lt_of_lt_of_le (Nat.mod_lt _ (by norm_num)) (by norm_num)
  have hsecondLt : CronActivation.second t < 63 :=
    lt_of_lt_of_le (Nat.mod_lt _ (by norm_num)) (by norm_num)
  dsimp only
  rw [← (field_means (by simp) hsecond hseconds').covers _ hsecondLt,
    ← (field_means (by simp) hminute hminutes').covers _ hminuteLt,
    ← (field_means (by simp) hhour hhours').covers _ hhourLt,
    ← (field_means (by simp) hmonth hmonths').covers _ hmonthLt, ← hdayMatches]
  exact ⟨fun hm => ⟨hm.second, hm.minute, hm.hour, hm.month, hm.day⟩,
    fun ⟨hs, hm, hh, hmo, hd⟩ => ⟨hmo, hd, hh, hm, hs⟩⟩

/-- The instants after `now` that the text asks for, up to the end of the fifth year after. -/
def asked (spec : List Char) (now : ℕ) : Set ℕ :=
  {u | now < u ∧ ∃ t, u = t * 10 ^ 9 ∧ (dateAt t).year ≤ yearLimit now ∧ Asks spec t}

/-- A schedule that is let through and is in its bounds is parsed into one that is activated at the
first instant its text asks for, and at none if there is no such instant. -/
theorem activated_as_asked (named : Named) {spec : String} (hvalid : cronSchedule spec = true)
    (hrange : InRange spec.toList) :
    ∃ s, parse named spec.toList = .ok (.spec s) ∧
      ∀ now, (∀ u, next s now = some u ↔ IsLeast (asked spec.toList now) u) ∧
        (next s now = none ↔ asked spec.toList now = ∅) := by
  have hfields : ∀ field ∈ fieldsFunc isSpace spec.toList, IsFieldText field := fun field hmem =>
    (fields_of_cronSchedule hvalid field hmem).isFieldText
  obtain ⟨s, hs⟩ := Option.isSome_iff_exists.mp ((parseFields_isSome_iff hfields).mpr hrange)
  refine ⟨s, ?_, fun now => ?_⟩
  · rw [parse_of_cronSchedule named hvalid, hs]
  · have hasked : asked spec.toList now = activations s now := by
      simp only [asked, activations, matches_iff hfields hs]
    rw [hasked]
    exact ⟨next_eq_some_iff s now, next_eq_none_iff s now⟩

theorem activated_as_asked_everyFive : ∃ s, parse noNames "*/5 * * * * *".toList = .ok (.spec s) ∧
    ∀ now, (∀ u, next s now = some u ↔ IsLeast (asked "*/5 * * * * *".toList now) u) ∧
      (next s now = none ↔ asked "*/5 * * * * *".toList now = ∅) :=
  activated_as_asked noNames cronSchedule_everyFive.2
    ((parses_iff noNames cronSchedule_everyFive.2).mp parses_everyFive.2)

end NetBerth.ScheduleMeaning
