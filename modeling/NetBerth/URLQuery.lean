import Mathlib

/-!
# The query of a URL

A query is written from a list of keys with their values. What is not a letter, a digit or one
of four marks is escaped, a space as a plus sign and everything else by its two digits, so that
neither a key nor a value has one of the signs that separate them. What was written is read
back, and a key can be taken out of the text.
-/
namespace URLQuery

abbrev Bytes := List UInt8

/-! ## Escapes -/

def unreserved (b : UInt8) : Bool :=
  (0x61 ≤ b && b ≤ 0x7a) || (0x41 ≤ b && b ≤ 0x5a) || (0x30 ≤ b && b ≤ 0x39) ||
    [0x2d, 0x5f, 0x2e, 0x7e].contains b

def hexDigit (n : ℕ) : UInt8 := UInt8.ofNat (if n < 10 then 0x30 + n else 0x37 + n)

def hexValue (b : UInt8) : Option ℕ :=
  if 0x30 ≤ b ∧ b ≤ 0x39 then some (b.toNat - 0x30)
  else if 0x41 ≤ b ∧ b ≤ 0x46 then some (b.toNat - 0x37)
  else if 0x61 ≤ b ∧ b ≤ 0x66 then some (b.toNat - 0x57)
  else none

def escapeByte (b : UInt8) : Bytes :=
  if b = 0x20 then [0x2b]
  else if unreserved b then [b]
  else [0x25, hexDigit (b.toNat / 16), hexDigit (b.toNat % 16)]

/-- `url.QueryEscape`. -/
def queryEscape (s : Bytes) : Bytes := s.flatMap escapeByte

/-- `url.QueryUnescape`. -/
def queryUnescape : Bytes → Option Bytes
  | [] => some []
  | b :: rest =>
    if b = 0x25 then
      match rest with
      | hi :: lo :: rest => do
        let h ← hexValue hi
        let l ← hexValue lo
        return UInt8.ofNat (16 * h + l) :: (← queryUnescape rest)
      | _ => none
    else (queryUnescape rest).map ((if b = 0x2b then 0x20 else b) :: ·)

theorem hexValue_hexDigit {n : ℕ} (h : n < 16) : hexValue (hexDigit n) = some n := by
  have hall : ∀ m : Fin 16, hexValue (hexDigit m) = some m.val := by decide
  exact hall ⟨n, h⟩

theorem hexDigit_ne {n : ℕ} (h : n < 16) : hexDigit n ≠ 0x26 ∧ hexDigit n ≠ 0x3d := by
  have hall : ∀ m : Fin 16, hexDigit m ≠ 0x26 ∧ hexDigit m ≠ 0x3d := by decide
  exact hall ⟨n, h⟩

theorem queryUnescape_plain {b : UInt8} (h : b ≠ 0x25) (rest : Bytes) :
    queryUnescape (b :: rest) =
      (queryUnescape rest).map ((if b = 0x2b then 0x20 else b) :: ·) := by
  conv_lhs => unfold queryUnescape
  rw [if_neg h]

theorem queryUnescape_digits {hi lo : UInt8} {h l : ℕ} (hhi : hexValue hi = some h)
    (hlo : hexValue lo = some l) (rest : Bytes) :
    queryUnescape (0x25 :: hi :: lo :: rest) =
      (queryUnescape rest).map (UInt8.ofNat (16 * h + l) :: ·) := by
  rw [queryUnescape, if_pos rfl, hhi, hlo]
  cases queryUnescape rest <;> rfl

theorem queryUnescape_escapeByte (b : UInt8) (rest : Bytes) :
    queryUnescape (escapeByte b ++ rest) = (queryUnescape rest).map (b :: ·) := by
  have hlt := b.toNat_lt
  unfold escapeByte
  split_ifs with hspace hplain
  · subst hspace
    exact queryUnescape_plain (by decide) rest
  · have hpercent : b ≠ 0x25 := by
      rintro rfl
      cases hplain
    have hplus : b ≠ 0x2b := by
      rintro rfl
      cases hplain
    rw [List.singleton_append, queryUnescape_plain hpercent, if_neg hplus]
  · have hbyte : UInt8.ofNat (16 * (b.toNat / 16) + b.toNat % 16) = b := by
      rw [Nat.div_add_mod, UInt8.ofNat_toNat]
    have hhi := hexValue_hexDigit (by omega : b.toNat / 16 < 16)
    have hlo := hexValue_hexDigit (by omega : b.toNat % 16 < 16)
    have hread := queryUnescape_digits hhi hlo rest
    rwa [hbyte] at hread

theorem queryUnescape_queryEscape (s : Bytes) : queryUnescape (queryEscape s) = some s := by
  induction s with
  | nil => rfl
  | cons b s ih =>
    rw [queryEscape, List.flatMap_cons, queryUnescape_escapeByte]
    rw [queryEscape] at ih
    rw [ih, Option.map_some]

/-- An escaped text has neither of the two separators. -/
theorem not_mem_queryEscape (s : Bytes) : 0x26 ∉ queryEscape s ∧ 0x3d ∉ queryEscape s := by
  have hbyte (b : UInt8) : 0x26 ∉ escapeByte b ∧ 0x3d ∉ escapeByte b := by
    have hlt := b.toNat_lt
    have hhigh := hexDigit_ne (by omega : b.toNat / 16 < 16)
    have hlow := hexDigit_ne (by omega : b.toNat % 16 < 16)
    unfold escapeByte
    split_ifs with hspace hplain
    · decide
    · constructor
      · intro hmem
        rw [← List.mem_singleton.mp hmem] at hplain
        cases hplain
      · intro hmem
        rw [← List.mem_singleton.mp hmem] at hplain
        cases hplain
    · simp [hhigh.1.symm, hhigh.2.symm, hlow.1.symm, hlow.2.symm]
  simp only [queryEscape, List.mem_flatMap, not_exists, not_and]
  exact ⟨fun b _ => (hbyte b).1, fun b _ => (hbyte b).2⟩

/-! ## Queries -/

def encodePart (e : Bytes × Bytes) : Bytes := queryEscape e.1 ++ 0x3d :: queryEscape e.2

def encodeQuery (entries : List (Bytes × Bytes)) : Bytes :=
  [0x26].intercalate (entries.map encodePart)

def parsePart (part : Bytes) : Option (Bytes × Bytes) := do
  let key ← queryUnescape (part.takeWhile (· ≠ 0x3d))
  let value ← queryUnescape ((part.dropWhile (· ≠ 0x3d)).drop 1)
  return (key, value)

def parts (query : Bytes) : List Bytes := (query.splitOn 0x26).filter (· ≠ [])

/-- `url.ParseQuery`, with the entries in their order. -/
def parseQuery (query : Bytes) : Option (List (Bytes × Bytes)) := (parts query).mapM parsePart

theorem parsePart_encodePart (e : Bytes × Bytes) : parsePart (encodePart e) = some e := by
  have hkey : ∀ b ∈ queryEscape e.1, (b ≠ 0x3d : Bool) = true := by
    intro b hb
    rw [decide_eq_true_iff]
    rintro rfl
    exact (not_mem_queryEscape e.1).2 hb
  rw [parsePart, encodePart, List.takeWhile_append_of_pos hkey, List.dropWhile_append_of_pos hkey]
  simp [queryUnescape_queryEscape]

theorem parts_encodeQuery (entries : List (Bytes × Bytes)) :
    parts (encodeQuery entries) = entries.map encodePart := by
  have hfull : (entries.map encodePart).filter (· ≠ []) = entries.map encodePart := by
    rw [List.filter_eq_self]
    intro part hpart
    obtain ⟨e, -, rfl⟩ := List.mem_map.mp hpart
    simp [encodePart]
  rw [parts, encodeQuery]
  by_cases hempty : entries = []
  · rw [hempty]
    rfl
  · rw [List.splitOn_intercalate, hfull]
    · intro part hpart
      obtain ⟨e, -, rfl⟩ := List.mem_map.mp hpart
      simp [encodePart, (not_mem_queryEscape e.1).1, (not_mem_queryEscape e.2).1]
    · simpa using hempty

/-- What was written is read back. -/
theorem parseQuery_encodeQuery (entries : List (Bytes × Bytes)) :
    parseQuery (encodeQuery entries) = some entries := by
  rw [parseQuery, parts_encodeQuery]
  induction entries with
  | nil => rfl
  | cons e entries ih => simp [parsePart_encodePart, ih]

end URLQuery
