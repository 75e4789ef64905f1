import Mathlib.Data.List.Basic

/-!
# Base64 without padding

Three bytes are four symbols of six bits, and one or two bytes at the end are two or three
symbols. The decoder skips line breaks and does not look at the bits that the last symbol has to
spare; it reads back what the encoder writes.
-/
namespace Base64

/-! ## The alphabet -/

def symbol (n : ℕ) : Char :=
  Char.ofNat (if n < 26 then n + 65 else if n < 52 then n + 71 else if n < 62 then n - 4
    else if n = 62 then 43 else 47)

def symbolValue (c : Char) : Option ℕ :=
  if 'A' ≤ c ∧ c ≤ 'Z' then some (c.toNat - 65)
  else if 'a' ≤ c ∧ c ≤ 'z' then some (c.toNat - 71)
  else if '0' ≤ c ∧ c ≤ '9' then some (c.toNat + 4)
  else if c = '+' then some 62
  else if c = '/' then some 63
  else none

theorem symbolValue_symbol {n : ℕ} (h : n < 64) : symbolValue (symbol n) = some n := by
  have hall : ∀ m : Fin 64, symbolValue (symbol m) = some m.val := by decide
  exact hall ⟨n, h⟩

theorem mapM_symbol {ns : List ℕ} (h : ∀ n ∈ ns, n < 64) :
    (ns.map symbol).mapM symbolValue = some ns := by
  induction ns with
  | nil => rfl
  | cons n ns ih =>
    have hns := ih fun m hm => h m (List.mem_cons_of_mem n hm)
    simp [symbolValue_symbol (h n List.mem_cons_self), hns]

/-! ## Groups -/

/-- The symbols of a text, as numbers. -/
def sextets : List UInt8 → List ℕ
  | a :: b :: c :: rest =>
    a.toNat / 4 :: (a.toNat % 4 * 16 + b.toNat / 16) :: (b.toNat % 16 * 4 + c.toNat / 64) ::
      c.toNat % 64 :: sextets rest
  | [a, b] => [a.toNat / 4, a.toNat % 4 * 16 + b.toNat / 16, b.toNat % 16 * 4]
  | [a] => [a.toNat / 4, a.toNat % 4 * 16]
  | [] => []

/-- One symbol alone is no group. -/
def octets : List ℕ → Option (List UInt8)
  | a :: b :: c :: d :: rest => (octets rest).map fun bytes =>
      .ofNat (a * 4 + b / 16) :: .ofNat (b % 16 * 16 + c / 4) :: .ofNat (c % 4 * 64 + d) :: bytes
  | [a, b, c] => some [.ofNat (a * 4 + b / 16), .ofNat (b % 16 * 16 + c / 4)]
  | [a, b] => some [.ofNat (a * 4 + b / 16)]
  | [_] => none
  | [] => some []

theorem lt_of_mem_sextets {bytes : List UInt8} {n : ℕ} (h : n ∈ sextets bytes) : n < 64 := by
  fun_induction sextets bytes with
  | case1 a b c rest ih =>
    have ha := a.toNat_lt
    have hb := b.toNat_lt
    have hc := c.toNat_lt
    simp only [List.mem_cons] at h
    obtain rfl | rfl | rfl | rfl | h := h
    · omega
    · omega
    · omega
    · omega
    · exact ih h
  | case2 a b =>
    have ha := a.toNat_lt
    have hb := b.toNat_lt
    simp only [List.mem_cons, List.not_mem_nil, or_false] at h
    omega
  | case3 a =>
    have ha := a.toNat_lt
    simp only [List.mem_cons, List.not_mem_nil, or_false] at h
    omega
  | case4 => cases h

theorem octets_sextets (bytes : List UInt8) : octets (sextets bytes) = some bytes := by
  have hbyte : ∀ (a : UInt8) (n : ℕ), n = a.toNat → UInt8.ofNat n = a := by
    rintro a n rfl
    exact UInt8.ofNat_toNat
  fun_induction sextets bytes with
  | case1 a b c rest ih =>
    have ha := a.toNat_lt
    have hb := b.toNat_lt
    have hc := c.toNat_lt
    rw [octets, ih, Option.map_some, hbyte a _ (by omega), hbyte b _ (by omega),
      hbyte c _ (by omega)]
  | case2 a b =>
    have ha := a.toNat_lt
    have hb := b.toNat_lt
    rw [octets, hbyte a _ (by omega), hbyte b _ (by omega)]
  | case3 a =>
    have ha := a.toNat_lt
    rw [octets, hbyte a _ (by omega)]
  | case4 => rfl

/-! ## Texts -/

def encodeToString (bytes : List UInt8) : String := String.ofList ((sextets bytes).map symbol)

def decodeString (s : String) : Option (List UInt8) :=
  ((s.toList.filter fun c => c ≠ '\r' ∧ c ≠ '\n').mapM symbolValue).bind octets

/-- A symbol is a letter, a digit, a plus sign or a slash. -/
theorem symbolValue_of_mem {bytes : List UInt8} {c : Char}
    (h : c ∈ (encodeToString bytes).toList) : (symbolValue c).isSome = true := by
  rw [encodeToString, String.toList_ofList] at h
  obtain ⟨n, hn, rfl⟩ := List.mem_map.mp h
  rw [symbolValue_symbol (lt_of_mem_sextets hn), Option.isSome_some]

theorem not_mem_encodeToString {c : Char} (h : symbolValue c = none) (bytes : List UInt8) :
    c ∉ (encodeToString bytes).toList := by
  intro hmem
  have hsome := symbolValue_of_mem hmem
  simp [h] at hsome

/-- What the encoder writes is read back. -/
theorem decodeString_encodeToString (bytes : List UInt8) :
    decodeString (encodeToString bytes) = some bytes := by
  have hkept : (encodeToString bytes).toList.filter (fun c => c ≠ '\r' ∧ c ≠ '\n') =
      (sextets bytes).map symbol := by
    rw [List.filter_eq_self.mpr]
    · rw [encodeToString, String.toList_ofList]
    · intro c hc
      have hcr := not_mem_encodeToString (by decide : symbolValue '\r' = none) bytes
      have hlf := not_mem_encodeToString (by decide : symbolValue '\n' = none) bytes
      simpa using ⟨fun h : c = '\r' => hcr (h ▸ hc), fun h : c = '\n' => hlf (h ▸ hc)⟩
  rw [decodeString, hkept, mapM_symbol fun n hn => lt_of_mem_sextets hn, Option.bind_some, octets_sextets]

example : encodeToString [0x4d, 0x61, 0x6e, 0x4d] = "TWFuTQ" := by decide +kernel

end Base64
