import NetBerth.Accounts
import NetBerth.IPAddress
import NetBerth.TextFields

/-!
# The parser of schedules

The scheduler parses a schedule of exactly six fields, from the second to the day of the week. A
field is a list of ranges, and a range is a number, two numbers or a star, with or without a step.
Each number has to be in the bounds of its field.

A time zone before the fields, and the names after an `@`, are parsed elsewhere.
-/
namespace NetBerth.CronParser
open Accounts (isSpace)
open TextFields (fieldsFunc)

abbrev Bits := BitVec 64

structure Bounds where
  min : ℕ
  max : ℕ
  names : List (String × ℕ)

def seconds : Bounds := ⟨0, 59, []⟩

def minutes : Bounds := ⟨0, 59, []⟩

def hours : Bounds := ⟨0, 23, []⟩

def dom : Bounds := ⟨1, 31, []⟩

def months : Bounds :=
  ⟨1, 12, [("jan", 1), ("feb", 2), ("mar", 3), ("apr", 4), ("may", 5), ("jun", 6), ("jul", 7),
    ("aug", 8), ("sep", 9), ("oct", 10), ("nov", 11), ("dec", 12)]⟩

def dow : Bounds :=
  ⟨0, 6, [("sun", 0), ("mon", 1), ("tue", 2), ("wed", 3), ("thu", 4), ("fri", 5), ("sat", 6)]⟩

/-- The top bit, if there is a star in the expression. -/
def starBit : Bits := 1 <<< 63

/-! ## Numbers -/

/-- `strconv.Atoi`. -/
def atoi (expr : List Char) : Option ℤ :=
  match expr with
  | '-' :: digits => (IPAddress.atoi digits).bind fun n => if n ≤ 2 ^ 63 then some (-n) else none
  | '+' :: digits => (IPAddress.atoi digits).bind fun n => if n < 2 ^ 63 then some n else none
  | digits => (IPAddress.atoi digits).bind fun n => if n < 2 ^ 63 then some n else none

def mustParseInt (expr : List Char) : Option ℕ :=
  (atoi expr).bind fun num => if num < 0 then none else some num.toNat

def parseIntOrName (expr : List Char) (names : List (String × ℕ)) : Option ℕ :=
  match names.lookup (String.ofList (expr.map Char.toLower)) with
  | some namedInt => some namedInt
  | none => mustParseInt expr

/-! ## Ranges -/

/-- The loop of `getBits`. -/
def setBits (max step : ℕ) : (fuel : ℕ) → (i : ℕ) → Bits → Bits
  | 0, _, bits => bits
  | fuel + 1, i, bits =>
    if i ≤ max then setBits max step fuel (i + step) (bits ||| 1 <<< i) else bits

def getBits (min max step : ℕ) : Bits :=
  if step = 1 then ~~~(BitVec.allOnes 64 <<< (max + 1)) &&& (BitVec.allOnes 64 <<< min)
  else setBits max step (max + 1) min 0

/-- Where a range starts and ends, with the bit for a star. -/
def getStartEnd (lowAndHigh : List (List Char)) (r : Bounds) : Option (ℕ × ℕ × Bits) :=
  match lowAndHigh with
  | [] => none
  | low :: rest =>
    if low = ['*'] ∨ low = ['?'] then some (r.min, r.max, starBit)
    else do
      let start ← parseIntOrName low r.names
      match rest with
      | [] => some (start, start, 0)
      | [high] => (parseIntOrName high r.names).map fun stop => (start, stop, 0)
      | _ => none

/-- The step after the slash; a single number goes with it to the maximum. -/
def withStep (steps : List (List Char)) (singleDigit : Bool) (r : Bounds) :
    ℕ × ℕ × Bits → Option (ℕ × ℕ × ℕ × Bits)
  | (start, stop, extra) =>
    match steps with
    | [] => some (start, stop, 1, extra)
    | [expr] => (mustParseInt expr).map fun step =>
      (start, if singleDigit then r.max else stop, step, if step > 1 then 0 else extra)
    | _ => none

/-- In the bounds, in their order, and with a step. -/
def checkRange (r : Bounds) : ℕ × ℕ × ℕ × Bits → Option Bits
  | (start, stop, step, extra) =>
    if start < r.min then none
    else if stop > r.max then none
    else if start > stop then none
    else if step = 0 then none
    else some (getBits start stop step ||| extra)

def getRange (expr : List Char) (r : Bounds) : Option Bits :=
  let rangeAndStep := expr.splitOn '/'
  let lowAndHigh := (rangeAndStep.headD []).splitOn '-'
  ((getStartEnd lowAndHigh r).bind (withStep rangeAndStep.tail (lowAndHigh.length = 1) r)).bind
    (checkRange r)

def getField (field : List Char) (r : Bounds) : Option Bits :=
  (fieldsFunc (fun c => c = ',') field).foldlM (fun bits expr =>
    (getRange expr r).map fun bit => bits ||| bit) 0

/-! ## Schedules -/

structure SpecSchedule where
  second : Bits
  minute : Bits
  hour : Bits
  dom : Bits
  month : Bits
  dow : Bits
  deriving DecidableEq, Repr

/-- A schedule, or a delay between two runs. -/
inductive Schedule where
  | spec (s : SpecSchedule)
  | constantDelay (delay : ℤ)
  deriving DecidableEq, Repr

inductive Refusal where
  | err
  | panic
  deriving DecidableEq, Repr

/-- What is not parsed here: the names of time zones, and what comes after an `@`. -/
structure Named where
  loadLocation : List Char → Bool
  parseDescriptor : List Char → Option Schedule

/-- All six fields are needed. -/
def parseFields (spec : List Char) : Option SpecSchedule :=
  match fieldsFunc isSpace spec with
  | [second, minute, hour, dayOfMonth, month, dayOfWeek] => do
    return ⟨← getField second seconds, ← getField minute minutes, ← getField hour hours,
      ← getField dayOfMonth dom, ← getField month months, ← getField dayOfWeek dow⟩
  | _ => none

section
variable (named : Named)

def parseSpec (spec : List Char) : Except Refusal Schedule :=
  if ['@'] <+: spec then
    match named.parseDescriptor spec with
    | none => .error .err
    | some schedule => .ok schedule
  else
    match parseFields spec with
    | none => .error .err
    | some schedule => .ok (.spec schedule)

def parse (spec : List Char) : Except Refusal Schedule :=
  if spec = [] then .error .err
  else if ['T', 'Z', '='] <+: spec ∨ ['C', 'R', 'O', 'N', '_', 'T', 'Z', '='] <+: spec then
    match IPAddress.cut ' ' spec with
    | none => .error .panic
    | some (zone, rest) =>
      if named.loadLocation ((zone.dropWhile (· ≠ '=')).drop 1) then
        parseSpec named (Accounts.trimSpace (String.ofList rest)).toList
      else .error .err
  else parseSpec named spec

end

/-! ## What a range is -/

/-- The signs of a range without names. -/
def isRangeChar (c : Char) : Bool := c.isDigit || c = '-' || c = '/'

/-- A number in digits that fits. -/
structure Number where
  digits : List Char
  nonempty : digits ≠ []
  isDigit : ∀ c ∈ digits, c.isDigit = true
  lt : IPAddress.value 10 (digits.map fun c => c.toNat - 48) < 2 ^ 63

def Number.value (n : Number) : ℕ := IPAddress.value 10 (n.digits.map fun c => c.toNat - 48)

inductive Base where
  | star
  | one (low : Number)
  | range (low high : Number)

def Base.text : Base → List Char
  | star => ['*']
  | one low => low.digits
  | range low high => low.digits ++ '-' :: high.digits

/-- A range as it is written. -/
structure Item where
  base : Base
  step : Option Number

def Item.text (item : Item) : List Char :=
  item.base.text ++ item.step.elim [] fun n => '/' :: n.digits

def Base.InRange (r : Bounds) : Base → Prop
  | star => True
  | one low => r.min ≤ low.value ∧ low.value ≤ r.max
  | range low high => r.min ≤ low.value ∧ low.value ≤ high.value ∧ high.value ≤ r.max

/-- In the bounds, and with a step that is not zero. -/
def Item.InRange (r : Bounds) (item : Item) : Prop :=
  item.base.InRange r ∧ ∀ n ∈ item.step, n.value ≠ 0

/-- Every range of a field is one that is in its bounds. -/
def FieldInRange (r : Bounds) (field : List Char) : Prop :=
  ∀ expr ∈ fieldsFunc (fun c => c = ',') field, ∃ item : Item, expr = item.text ∧ item.InRange r

/-! ## Numbers are read as numbers -/

theorem atoi_digits {expr : List Char} (hexpr : ∀ c ∈ expr, c.isDigit = true) :
    atoi expr = (IPAddress.atoi expr).bind fun n => if n < 2 ^ 63 then some (n : ℤ) else none := by
  unfold atoi
  split
  · exact absurd (hexpr '-' List.mem_cons_self) (by decide)
  · exact absurd (hexpr '+' List.mem_cons_self) (by decide)
  · rfl

theorem atoi_eq_some {expr : List Char} {n : ℕ} :
    IPAddress.atoi expr = some n ↔ expr ≠ [] ∧ (∀ c ∈ expr, c.isDigit = true) ∧
      IPAddress.value 10 (expr.map fun c => c.toNat - 48) = n := by
  unfold IPAddress.atoi
  rw [Option.ite_none_right_eq_some, Bool.and_eq_true, Bool.not_eq_true', List.isEmpty_eq_false_iff,
    List.all_eq_true, Option.some.injEq, and_assoc]

theorem mustParseInt_digits (n : Number) : mustParseInt n.digits = some n.value := by
  have hvalue : IPAddress.atoi n.digits = some n.value :=
    atoi_eq_some.mpr ⟨n.nonempty, n.isDigit, rfl⟩
  have hlt : n.value < 2 ^ 63 := n.lt
  rw [mustParseInt, atoi_digits n.isDigit, hvalue, Option.bind_some, if_pos hlt, Option.bind_some,
    if_neg (by omega), Int.toNat_natCast]

/-- A number that was read is one in digits, or it has a sign before it and is zero. -/
theorem number_of_mustParseInt {expr : List Char} {v : ℕ} (h : mustParseInt expr = some v)
    (hchars : ∀ c ∈ expr, c.isDigit = true ∨ c = '-') (hpos : v ≠ 0 ∨ '-' ∉ expr) :
    ∃ n : Number, n.digits = expr ∧ n.value = v := by
  obtain ⟨num, hnum, hv⟩ := Option.bind_eq_some_iff.mp h
  obtain ⟨hsign, hv⟩ := Option.ite_none_left_eq_some.mp hv
  obtain rfl := Option.some.inj hv
  unfold atoi at hnum
  split at hnum
  · obtain ⟨n, -, hn⟩ := Option.bind_eq_some_iff.mp hnum
    obtain ⟨-, hn⟩ := Option.ite_none_right_eq_some.mp hn
    obtain rfl := Option.some.inj hn
    rcases hpos with hpos | hpos
    · omega
    · exact absurd List.mem_cons_self hpos
  · rcases hchars '+' List.mem_cons_self with hplus | hplus <;> cases hplus
  · obtain ⟨n, hn, hsome⟩ := Option.bind_eq_some_iff.mp hnum
    obtain ⟨hlt, heq⟩ := Option.ite_none_right_eq_some.mp hsome
    obtain rfl := Option.some.inj heq
    obtain ⟨hne, hdigit, hvalue⟩ := atoi_eq_some.mp hn
    refine ⟨⟨expr, hne, hdigit, ?_⟩, rfl, ?_⟩
    · rw [hvalue]
      exact hlt
    · exact hvalue

/-- Digits are no name. -/
theorem parseIntOrName_digits {r : Bounds} (hr : r ∈ [seconds, minutes, hours, dom, months, dow])
    {expr : List Char} (hexpr : ∀ c ∈ expr, c.isDigit = true) :
    parseIntOrName expr r.names = mustParseInt expr := by
  have hnames : ∀ e ∈ r.names, (e.1.toList.headD '0').isDigit = false := by
    have hall : ∀ r ∈ [seconds, minutes, hours, dom, months, dow], ∀ e ∈ r.names,
        (e.1.toList.headD '0').isDigit = false := by decide
    exact hall r hr
  have hlower : ∀ c : Char, c.isDigit = true → c.toLower.isDigit = true := by
    intro c hc
    have hhigh : c.toNat ≤ 57 := (Char.isDigit_iff_toNat.mp hc).2
    unfold Char.toLower
    rw [dif_neg]
    · exact hc
    · rintro ⟨hle, -⟩
      have hlow : 65 ≤ c.toNat := hle
      omega
  have hnone : r.names.lookup (String.ofList (expr.map Char.toLower)) = none := by
    rw [List.lookup_eq_none_iff]
    intro e he
    rw [bne_iff_ne]
    rintro heq
    have hletter := hnames e he
    rw [← heq, String.toList_ofList] at hletter
    cases expr with
    | nil => cases hletter
    | cons c expr =>
      rw [List.map_cons, List.headD_cons, hlower c (hexpr c List.mem_cons_self)] at hletter
      cases hletter
  rw [parseIntOrName, hnone]

/-! ## Ranges are read as ranges -/

variable {r : Bounds}

theorem not_mem_digits (n : Number) {c : Char} (hc : c.isDigit = false) : c ∉ n.digits :=
  fun hmem => Bool.false_ne_true (hc.symm.trans (n.isDigit c hmem))

theorem splitOn_base (base : Base) : '/' ∉ base.text := by
  cases base with
  | star => decide
  | one low => exact not_mem_digits low (by decide)
  | range low high =>
    rw [Base.text, List.mem_append, List.mem_cons, not_or, not_or]
    exact ⟨not_mem_digits low (by decide), by decide, not_mem_digits high (by decide)⟩

theorem parseIntOrName_number (hr : r ∈ [seconds, minutes, hours, dom, months, dow]) (n : Number) :
    parseIntOrName n.digits r.names = some n.value := by
  rw [parseIntOrName_digits hr n.isDigit, mustParseInt_digits]

theorem digits_ne_star (n : Number) : ¬(n.digits = ['*'] ∨ n.digits = ['?']) := by
  rintro (h | h)
  · exact not_mem_digits n (c := '*') (by decide) (h ▸ List.mem_cons_self)
  · exact not_mem_digits n (c := '?') (by decide) (h ▸ List.mem_cons_self)

/-- Where a base starts and ends. -/
def Base.startEnd (r : Bounds) : Base → ℕ × ℕ × Bits
  | star => (r.min, r.max, starBit)
  | one low => (low.value, low.value, 0)
  | range low high => (low.value, high.value, 0)

def Base.singleDigit : Base → Bool
  | range _ _ => false
  | _ => true

theorem getStartEnd_base (hr : r ∈ [seconds, minutes, hours, dom, months, dow]) (base : Base) :
    getStartEnd (base.text.splitOn '-') r = some (base.startEnd r) ∧
      decide ((base.text.splitOn '-').length = 1) = base.singleDigit := by
  cases base with
  | star => exact ⟨rfl, rfl⟩
  | one low =>
    have hsplit : low.digits.splitOn '-' = [low.digits] :=
      List.splitOn_eq_singleton (not_mem_digits low (by decide))
    rw [Base.text, hsplit]
    refine ⟨?_, rfl⟩
    rw [getStartEnd, if_neg (digits_ne_star low), parseIntOrName_number hr]
    rfl
  | range low high =>
    have hsplit : (low.digits ++ '-' :: high.digits).splitOn '-' = [low.digits, high.digits] := by
      rw [List.splitOn_append_cons_self_of_not_mem (not_mem_digits low (by decide)),
        List.splitOn_eq_singleton (not_mem_digits high (by decide))]
    rw [Base.text, hsplit]
    refine ⟨?_, rfl⟩
    rw [getStartEnd, if_neg (digits_ne_star low), parseIntOrName_number hr]
    change (parseIntOrName high.digits r.names).map _ = _
    rw [parseIntOrName_number hr]
    rfl

theorem checkRange_isSome {start stop step : ℕ} {extra : Bits} :
    (checkRange r (start, stop, step, extra)).isSome = true ↔
      r.min ≤ start ∧ start ≤ stop ∧ stop ≤ r.max ∧ step ≠ 0 := by
  rw [checkRange]
  split_ifs with hlow hhigh horder hstep
  · exact iff_of_false (by simp) fun h => absurd h.1 (by omega)
  · exact iff_of_false (by simp) fun h => absurd h.2.2.1 (by omega)
  · exact iff_of_false (by simp) fun h => absurd h.2.1 (by omega)
  · exact iff_of_false (by simp) fun h => h.2.2.2 hstep
  · exact iff_of_true rfl ⟨by omega, by omega, by omega, hstep⟩

theorem min_le_max (hr : r ∈ [seconds, minutes, hours, dom, months, dow]) : r.min ≤ r.max := by
  have hall : ∀ r ∈ [seconds, minutes, hours, dom, months, dow], r.min ≤ r.max := by
    simp [seconds, minutes, hours, dom, months, dow]
  exact hall r hr

/-- A range that is written as one is accepted if it is in the bounds. -/
theorem getRange_text (hr : r ∈ [seconds, minutes, hours, dom, months, dow]) (item : Item) :
    (getRange item.text r).isSome = true ↔ item.InRange r := by
  obtain ⟨base, step⟩ := item
  obtain ⟨hstart, hsingle⟩ := getStartEnd_base hr base
  have hle := min_le_max hr
  cases step with
  | none =>
    have hsplit : (Item.text ⟨base, none⟩).splitOn '/' = [base.text] := by
      rw [Item.text, Option.elim_none, List.append_nil, List.splitOn_eq_singleton (splitOn_base base)]
    rw [getRange, hsplit]
    change (((getStartEnd (base.text.splitOn '-') r).bind (withStep [] _ r)).bind
      (checkRange r)).isSome = true ↔ _
    rw [hstart, Option.bind_some, withStep, Option.bind_some, checkRange_isSome]
    simp only [Item.InRange, Option.mem_def, reduceCtorEq, false_imp_iff, implies_true, and_true]
    cases base with
    | star => exact iff_of_true ⟨le_rfl, hle, le_rfl, one_ne_zero⟩ trivial
    | one low =>
      change r.min ≤ low.value ∧ low.value ≤ low.value ∧ low.value ≤ r.max ∧ 1 ≠ 0 ↔
        r.min ≤ low.value ∧ low.value ≤ r.max
      omega
    | range low high =>
      change r.min ≤ low.value ∧ low.value ≤ high.value ∧ high.value ≤ r.max ∧ 1 ≠ 0 ↔
        r.min ≤ low.value ∧ low.value ≤ high.value ∧ high.value ≤ r.max
      omega
  | some n =>
    have hsplit : (Item.text ⟨base, some n⟩).splitOn '/' = [base.text, n.digits] := by
      rw [Item.text, Option.elim_some,
        List.splitOn_append_cons_self_of_not_mem (splitOn_base base),
        List.splitOn_eq_singleton (not_mem_digits n (by decide))]
    rw [getRange, hsplit]
    change (((getStartEnd (base.text.splitOn '-') r).bind (withStep [n.digits]
      (decide ((base.text.splitOn '-').length = 1)) r)).bind (checkRange r)).isSome = true ↔ _
    rw [hstart, hsingle, Option.bind_some, withStep, mustParseInt_digits, Option.map_some,
      Option.bind_some, checkRange_isSome]
    simp only [Item.InRange, Option.mem_some, forall_eq']
    cases base with
    | star =>
      exact ⟨fun h => ⟨trivial, h.2.2.2⟩, fun h => ⟨le_rfl, hle, le_rfl, h.2⟩⟩
    | one low =>
      change r.min ≤ low.value ∧ low.value ≤ r.max ∧ r.max ≤ r.max ∧ n.value ≠ 0 ↔
        (r.min ≤ low.value ∧ low.value ≤ r.max) ∧ n.value ≠ 0
      omega
    | range low high =>
      change r.min ≤ low.value ∧ low.value ≤ high.value ∧ high.value ≤ r.max ∧ n.value ≠ 0 ↔
        (r.min ≤ low.value ∧ low.value ≤ high.value ∧ high.value ≤ r.max) ∧ n.value ≠ 0
      omega

/-- What is read as a base is one. -/
theorem base_of_getStartEnd (hr : r ∈ [seconds, minutes, hours, dom, months, dow])
    {text : List Char} (htext : text = ['*'] ∨ ∀ c ∈ text, c.isDigit = true ∨ c = '-')
    (h : (getStartEnd (text.splitOn '-') r).isSome = true) : ∃ base : Base, base.text = text := by
  rcases htext with rfl | htext
  · exact ⟨.star, rfl⟩
  have hparts : ∀ part ∈ text.splitOn '-', ∀ c ∈ part, c.isDigit = true := by
    intro part hpart c hc
    rw [List.splitOn_eq_splitOnP] at hpart
    obtain ⟨hmem, hne⟩ := TextFields.mem_of_mem_splitOnP hpart c hc
    exact (htext c hmem).resolve_right (by simpa using hne)
  have hnumber {part : List Char} (hpart : part ∈ text.splitOn '-')
      (hsome : (parseIntOrName part r.names).isSome = true) : ∃ n : Number, n.digits = part := by
    obtain ⟨v, hv⟩ := Option.isSome_iff_exists.mp hsome
    rw [parseIntOrName_digits hr (hparts part hpart)] at hv
    obtain ⟨n, hn, -⟩ := number_of_mustParseInt hv (fun c hc => .inl (hparts part hpart c hc))
      (.inr fun hmem => by simpa using hparts part hpart '-' hmem)
    exact ⟨n, hn⟩
  have hjoin : ['-'].intercalate (text.splitOn '-') = text := List.intercalate_splitOn '-'
  have hstar {part : List Char} (hpart : part ∈ text.splitOn '-') : ¬(part = ['*'] ∨ part = ['?']) := by
    rintro (rfl | rfl)
    · exact absurd (hparts _ hpart '*' List.mem_cons_self) (by decide)
    · exact absurd (hparts _ hpart '?' List.mem_cons_self) (by decide)
  generalize text.splitOn '-' = parts at *
  unfold getStartEnd at h
  split at h
  · cases h
  · rename_i low rest
    rw [if_neg (hstar List.mem_cons_self)] at h
    cases hlow : parseIntOrName low r.names with
    | none => simp [hlow] at h
    | some start =>
      obtain ⟨n, hn⟩ := hnumber List.mem_cons_self (by rw [hlow]; rfl)
      simp only [hlow, Option.bind_eq_bind, Option.bind_some] at h
      split at h
      · refine ⟨.one n, ?_⟩
        rw [Base.text, hn, ← hjoin, List.intercalate_singleton]
      · rename_i high
        rw [Option.isSome_map] at h
        obtain ⟨m, hm⟩ := hnumber (List.mem_cons_of_mem _ List.mem_cons_self) h
        refine ⟨.range n m, ?_⟩
        rw [Base.text, hn, hm, ← hjoin, List.intercalate_cons_cons, List.intercalate_singleton]
        simp
      · cases h

/-- A text of a range that the validator lets through. -/
def IsRangeText (expr : List Char) : Prop :=
  (∀ c ∈ expr, isRangeChar c = true) ∨
    ∃ step : Option (List Char), (∀ digits ∈ step, ∀ c ∈ digits, c.isDigit = true) ∧
      expr = '*' :: step.elim [] fun digits => '/' :: digits

theorem parts_of_isRangeText {expr : List Char} (h : IsRangeText expr) :
    ∀ part ∈ expr.splitOn '/', part = ['*'] ∨ ∀ c ∈ part, c.isDigit = true ∨ c = '-' := by
  rcases h with hchars | ⟨step, hstep, rfl⟩
  · intro part hpart
    right
    intro c hc
    rw [List.splitOn_eq_splitOnP] at hpart
    obtain ⟨hmem, hne⟩ := TextFields.mem_of_mem_splitOnP hpart c hc
    have hchar := hchars c hmem
    simp only [isRangeChar, Bool.or_eq_true, decide_eq_true_iff] at hchar
    exact hchar.resolve_right (by simpa using hne)
  · cases step with
    | none => exact fun part hpart => .inl (List.mem_singleton.mp hpart)
    | some digits =>
      have hslash : '/' ∉ digits := fun hmem => absurd (hstep digits rfl '/' hmem) (by decide)
      have hsplit : ('*' :: '/' :: digits).splitOn '/' = [['*'], digits] := by
        have hcut : (['*'] ++ '/' :: digits).splitOn '/' = ['*'] :: digits.splitOn '/' :=
          List.splitOn_append_cons_self_of_not_mem (by decide) digits
        rw [List.splitOn_eq_singleton hslash] at hcut
        exact hcut
      rw [Option.elim_some, hsplit]
      intro part hpart
      rcases List.mem_cons.mp hpart with rfl | hpart
      · exact .inl rfl
      · rw [List.mem_singleton.mp hpart]
        exact .inr fun c hc => .inl (hstep digits rfl c hc)

/-- What is read as a range is one. -/
theorem item_of_getRange (hr : r ∈ [seconds, minutes, hours, dom, months, dow])
    {expr : List Char} (hexpr : IsRangeText expr) (h : (getRange expr r).isSome = true) :
    ∃ item : Item, item.text = expr := by
  obtain ⟨bits, hbits⟩ := Option.isSome_iff_exists.mp h
  obtain ⟨⟨start, stop, step, extra⟩, hstep, hcheck⟩ := Option.bind_eq_some_iff.mp hbits
  obtain ⟨base, hbase, hstep⟩ := Option.bind_eq_some_iff.mp hstep
  have hstep0 : step ≠ 0 := (checkRange_isSome.mp (by rw [hcheck]; rfl)).2.2.2
  have hjoin : ['/'].intercalate (expr.splitOn '/') = expr := List.intercalate_splitOn '/'
  have hparts := parts_of_isRangeText hexpr
  obtain ⟨text, steps, hsplit⟩ := List.exists_cons_of_ne_nil (List.splitOn_ne_nil '/' expr)
  rw [hsplit] at hjoin hparts hbase hstep
  obtain ⟨b, hb⟩ := base_of_getStartEnd hr (hparts text List.mem_cons_self)
    (Option.isSome_iff_exists.mpr ⟨base, hbase⟩)
  obtain ⟨low, stop', extra'⟩ := base
  rw [List.tail_cons] at hstep
  cases steps with
  | nil =>
    refine ⟨⟨b, none⟩, ?_⟩
    rw [Item.text, hb, ← hjoin, List.intercalate_singleton]
    exact List.append_nil text
  | cons digits rest =>
    cases rest with
    | nil =>
      obtain ⟨v, hv, heq⟩ := Option.map_eq_some_iff.mp hstep
      obtain rfl : v = step := congrArg (fun t => t.2.2.1) heq
      have hdigits : ∀ c ∈ digits, c.isDigit = true ∨ c = '-' := by
        rcases hparts digits (List.mem_cons_of_mem _ List.mem_cons_self) with rfl | hdigits
        · cases hv
        · exact hdigits
      obtain ⟨n, rfl, -⟩ := number_of_mustParseInt hv hdigits (.inl hstep0)
      refine ⟨⟨b, some n⟩, ?_⟩
      rw [Item.text, hb, ← hjoin, List.intercalate_cons_cons, List.intercalate_singleton]
      simp
    | cons _ _ => cases hstep

theorem getRange_isSome_iff (hr : r ∈ [seconds, minutes, hours, dom, months, dow])
    {expr : List Char} (hexpr : IsRangeText expr) :
    (getRange expr r).isSome = true ↔ ∃ item : Item, expr = item.text ∧ item.InRange r := by
  constructor
  · intro h
    obtain ⟨item, rfl⟩ := item_of_getRange hr hexpr h
    exact ⟨item, rfl, (getRange_text hr item).mp h⟩
  · rintro ⟨item, rfl, hrange⟩
    exact (getRange_text hr item).mpr hrange

/-! ## Fields and schedules -/

theorem isSome_foldlM {f : List Char → Option Bits} (exprs : List (List Char)) (bits : Bits) :
    (exprs.foldlM (fun bits expr => (f expr).map fun bit => bits ||| bit) bits).isSome = true ↔
      ∀ expr ∈ exprs, (f expr).isSome = true := by
  induction exprs generalizing bits with
  | nil => simp
  | cons expr exprs ih =>
    rw [List.foldlM_cons, List.forall_mem_cons]
    cases hexpr : f expr with
    | none => simp
    | some bit =>
      rw [Option.map_some]
      exact (ih (bits ||| bit)).trans (and_iff_right rfl).symm

/-- A text of a field that the validator lets through. -/
def IsFieldText (field : List Char) : Prop :=
  ∀ expr ∈ fieldsFunc (fun c => c = ',') field, IsRangeText expr

theorem getField_isSome_iff (hr : r ∈ [seconds, minutes, hours, dom, months, dow])
    {field : List Char} (hfield : IsFieldText field) :
    (getField field r).isSome = true ↔ FieldInRange r field := by
  rw [getField, isSome_foldlM]
  exact forall₂_congr fun expr hexpr => getRange_isSome_iff hr (hfield expr hexpr)

/-- Six fields, each of them in its bounds. -/
def InRange (spec : List Char) : Prop :=
  List.Forall₂ FieldInRange [seconds, minutes, hours, dom, months, dow] (fieldsFunc isSpace spec)

theorem parseFields_isSome_iff {spec : List Char}
    (hspec : ∀ field ∈ fieldsFunc isSpace spec, IsFieldText field) :
    (parseFields spec).isSome = true ↔ InRange spec := by
  unfold parseFields InRange
  split
  · rename_i second minute hour dayOfMonth month dayOfWeek hfields
    rw [hfields] at hspec
    simp only [List.forall_mem_cons] at hspec
    obtain ⟨hsecond, hminute, hhour, hdom, hmonth, hdow, -⟩ := hspec
    rw [hfields, List.forall₂_cons, List.forall₂_cons, List.forall₂_cons, List.forall₂_cons,
      List.forall₂_cons, List.forall₂_cons, ← getField_isSome_iff (by simp) hsecond,
      ← getField_isSome_iff (by simp) hminute, ← getField_isSome_iff (by simp) hhour,
      ← getField_isSome_iff (by simp) hdom, ← getField_isSome_iff (by simp) hmonth,
      ← getField_isSome_iff (by simp) hdow]
    simp [Option.isSome_iff_exists, Option.bind_eq_some_iff]
  · rename_i hcount
    refine iff_of_false (by simp) fun hforall => ?_
    generalize fieldsFunc isSpace spec = fields at hforall hcount
    obtain _ | ⟨_, _ | ⟨_, _ | ⟨_, _ | ⟨_, _ | ⟨_, _ | ⟨_, _ | _⟩⟩⟩⟩⟩⟩ := hforall
    exact hcount _ _ _ _ _ _ rfl

end NetBerth.CronParser
