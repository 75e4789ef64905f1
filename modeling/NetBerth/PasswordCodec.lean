import NetBerth.PasswordHash

/-!
# Which texts are password hashes

`decodeArgon2Hash` takes a text that matches its format, blanks before the numbers included, and
`VerifyPassword` gives the numbers it read to `argon2.IDKey`, which panics without rounds or
threads. The scan is compared with the format written out as a grammar. Texts are sequences of
runes: a byte that is no part of one is read as U+FFFD, which no number and no key has.
-/
namespace NetBerth.PasswordHash
open Base64

/-! ## The grammar -/

/-- Blanks of one line. -/
def Blanks (s : List Char) : Prop := ∀ c ∈ s, c ≠ '\n' ∧ isSpace c = true

def Digits (s : List Char) : Prop := s ≠ [] ∧ ∀ c ∈ s, c.isDigit = true

/-- Blanks and the digits of `n`, which fits into `bits`. -/
def UintText (bits : ℕ) (s : List Char) (n : ℕ) : Prop :=
  ∃ blanks digits, s = blanks ++ digits ∧ Blanks blanks ∧ Digits digits ∧ number digits = n ∧
    n < 2 ^ bits

/-- Blanks, a sign or none, and the digits of a number of 64 bits. -/
def IntText (s : List Char) : Prop :=
  ∃ blanks sign digits, s = blanks ++ (sign ++ digits) ∧ Blanks blanks ∧
    (sign = [] ∨ sign = ['-'] ∨ sign = ['+']) ∧ Digits digits ∧
    number digits ≤ if sign = ['-'] then 2 ^ 63 else 2 ^ 63 - 1

/-- A text with the parameters, and what follows their last dollar sign. -/
def ParamsText (s : List Char) (memory time threads : ℕ) (rest : List Char) : Prop :=
  ∃ v m t p, s = "$argon2id$v=".toList ++ (v ++ ("$m=".toList ++ (m ++ (",t=".toList ++ (t ++
      (",p=".toList ++ (p ++ ('$' :: rest)))))))) ∧
    IntText v ∧ UintText 32 m memory ∧ UintText 32 t time ∧ UintText 8 p threads

/-! ## The scan takes the grammar -/

theorem literal_eq_some_iff {cs s rest : List Char} :
    literal cs s = some rest ↔ s = cs ++ rest := by
  constructor
  · intro h
    fun_induction literal cs s with
    | case1 s => exact Option.some.inj h
    | case2 c cs s ih => rw [ih h, List.cons_append]
    | case3 => cases h
    | case4 => cases h
  · rintro rfl
    exact literal_append cs rest

theorem skipSpace_append {blanks rest : List Char} (hblanks : Blanks blanks) :
    skipSpace (blanks ++ rest) = skipSpace rest := by
  induction blanks with
  | nil => rfl
  | cons c blanks ih =>
    obtain ⟨hline, hspace⟩ := hblanks c List.mem_cons_self
    rw [List.cons_append, skipSpace, if_neg hline, if_pos hspace]
    exact ih fun d hd => hblanks d (List.mem_cons_of_mem c hd)

theorem eq_append_of_skipSpace {s rest : List Char} (h : skipSpace s = some rest) :
    ∃ blanks, s = blanks ++ rest ∧ Blanks blanks := by
  fun_induction skipSpace s with
  | case1 =>
    refine ⟨[], ?_, by simp [Blanks]⟩
    exact Option.some.inj h
  | case2 => cases h
  | case3 c s hline hspace ih =>
    obtain ⟨blanks, rfl, hblanks⟩ := ih h
    refine ⟨c :: blanks, rfl, ?_⟩
    intro d hd
    cases List.mem_cons.mp hd with
    | inl hc => exact hc ▸ ⟨hline, hspace⟩
    | inr hd => exact hblanks d hd
  | case4 c s hline hspace =>
    refine ⟨[], ?_, by simp [Blanks]⟩
    exact Option.some.inj h

/-- The digits that are scanned are the digits in front. -/
theorem digits_takeWhile {s : List Char} (h : s.takeWhile Char.isDigit ≠ []) :
    Digits (s.takeWhile Char.isDigit) :=
  ⟨h, fun _ hc => List.all_eq_true.mp List.all_takeWhile _ hc⟩

theorem uintText_of_scanUint {bits n : ℕ} {s rest : List Char}
    (h : scanUint bits s = some (n, rest)) :
    ∃ text, s = text ++ rest ∧ UintText bits text n := by
  obtain ⟨r, hskip, hscan⟩ := Option.bind_eq_some_iff.mp h
  obtain ⟨blanks, rfl, hblanks⟩ := eq_append_of_skipSpace hskip
  dsimp only at hscan
  split at hscan
  · cases hscan
  · rename_i hfits
    push Not at hfits
    obtain ⟨rfl, rfl⟩ := Prod.mk.inj (Option.some.inj hscan)
    refine ⟨blanks ++ r.takeWhile Char.isDigit, ?_, blanks, _, rfl, hblanks,
      digits_takeWhile hfits.1, rfl, hfits.2⟩
    rw [List.append_assoc, List.takeWhile_append_dropWhile]

theorem scanUint_of_uintText {bits n : ℕ} {text rest : List Char} (h : UintText bits text n)
    (hrest : ∀ c ∈ rest.head?, c.isDigit = false) :
    scanUint bits (text ++ rest) = some (n, rest) := by
  obtain ⟨blanks, digits, rfl, hblanks, ⟨hne, hdigits⟩, rfl, hfits⟩ := h
  obtain ⟨d, ds, rfl⟩ := List.exists_cons_of_ne_nil hne
  rw [List.append_assoc, scanUint, skipSpace_append hblanks]
  exact scanUint_append hdigits hrest hfits

theorem intText_of_scanInt {s rest : List Char} (h : scanInt s = some rest) :
    ∃ text, s = text ++ rest ∧ IntText text := by
  obtain ⟨r, hskip, hscan⟩ := Option.bind_eq_some_iff.mp h
  obtain ⟨blanks, rfl, hblanks⟩ := eq_append_of_skipSpace hskip
  -- The sign is the first character when it is one.
  obtain ⟨sign, tail, rfl, hsign, htail, hnegative⟩ : ∃ sign tail, r = sign ++ tail ∧
      (sign = [] ∨ sign = ['-'] ∨ sign = ['+']) ∧
      (if r.head? = some '-' ∨ r.head? = some '+' then r.tail else r) = tail ∧
      (r.head? = some '-' ↔ sign = ['-']) := by
    by_cases hminus : r.head? = some '-'
    · obtain ⟨tail, rfl⟩ := List.head?_eq_some_iff.mp hminus
      exact ⟨['-'], tail, rfl, by simp, by simp, by simp⟩
    by_cases hplus : r.head? = some '+'
    · obtain ⟨tail, rfl⟩ := List.head?_eq_some_iff.mp hplus
      exact ⟨['+'], tail, rfl, by simp, by simp, by simp⟩
    · exact ⟨[], r, rfl, by simp, by simp [hminus, hplus], by simp [hminus]⟩
  dsimp only at hscan
  simp only [htail] at hscan
  simp only [hnegative] at hscan
  generalize hlimit : (if sign = ['-'] then 2 ^ 63 else 2 ^ 63 - 1) = limit at hscan
  split at hscan
  · cases hscan
  · rename_i hfits
    push Not at hfits
    obtain rfl := Option.some.inj hscan
    refine ⟨blanks ++ (sign ++ tail.takeWhile Char.isDigit), ?_, blanks, sign, _, rfl, hblanks,
      hsign, digits_takeWhile hfits.1, ?_⟩
    · rw [List.append_assoc, List.append_assoc, List.takeWhile_append_dropWhile]
    · exact hlimit ▸ hfits.2

theorem scanInt_of_intText {text rest : List Char} (h : IntText text)
    (hrest : ∀ c ∈ rest.head?, c.isDigit = false) : scanInt (text ++ rest) = some rest := by
  obtain ⟨blanks, sign, digits, rfl, hblanks, hsign, ⟨hne, hdigits⟩, hfits⟩ := h
  obtain ⟨d, ds, rfl⟩ := List.exists_cons_of_ne_nil hne
  rw [List.append_assoc, scanInt, skipSpace_append hblanks]
  obtain ⟨htake, hdrop⟩ := span_digits hdigits hrest
  obtain rfl | rfl | rfl := hsign
  · exact scanInt_append hdigits hrest (by simp at hfits; omega)
  · have hskip : skipSpace (['-'] ++ (d :: ds) ++ rest) = some ('-' :: (d :: ds ++ rest)) := rfl
    rw [hskip, Option.bind_some]
    simp only [List.head?_cons, true_or, if_true, List.tail_cons, htake, hdrop]
    rw [if_neg (by simpa using hfits)]
  · have hskip : skipSpace (['+'] ++ (d :: ds) ++ rest) = some ('+' :: (d :: ds ++ rest)) := rfl
    rw [hskip, Option.bind_some]
    simp only [List.head?_cons, or_true, if_true, List.tail_cons, htake, hdrop]
    rw [if_neg (by simpa using hfits)]

theorem scanParams_eq_some_iff {s : List Char} {params : Argon2Params} :
    scanParams s = some params ↔ params.keyLen = 32 ∧ params.saltLen = 0 ∧
      ∃ rest, ParamsText s params.memory params.time params.threads rest := by
  constructor
  · intro h
    simp only [scanParams, Option.bind_eq_bind, Option.bind_eq_some_iff, Prod.exists] at h
    obtain ⟨s₁, h₁, s₂, hv, s₃, h₃, memory, s₄, hm, s₅, h₅, time, s₆, ht, s₇, h₇, threads, s₈, hp,
      rest, h₉, hparams⟩ := h
    rw [literal_eq_some_iff] at h₁ h₃ h₅ h₇ h₉
    obtain ⟨v, hv, hversion⟩ := intText_of_scanInt hv
    obtain ⟨m, hm, hmemory⟩ := uintText_of_scanUint hm
    obtain ⟨t, ht, htime⟩ := uintText_of_scanUint ht
    obtain ⟨p, hp, hthreads⟩ := uintText_of_scanUint hp
    obtain rfl := Option.some.inj hparams
    refine ⟨rfl, rfl, rest, v, m, t, p, ?_, hversion, hmemory, htime, hthreads⟩
    rw [h₁, hv, h₃, hm, h₅, ht, h₇, hp, h₉]
    rfl
  · rintro ⟨hkey, hsalt, rest, v, m, t, p, rfl, hversion, hmemory, htime, hthreads⟩
    have hv : ∀ s, scanInt (v ++ ("$m=".toList ++ s)) = some ("$m=".toList ++ s) :=
      fun s => scanInt_of_intText hversion (by simp)
    have hm : ∀ s, scanUint 32 (m ++ (",t=".toList ++ s)) =
        some (params.memory, ",t=".toList ++ s) :=
      fun s => scanUint_of_uintText hmemory (by simp)
    have ht : ∀ s, scanUint 32 (t ++ (",p=".toList ++ s)) =
        some (params.time, ",p=".toList ++ s) :=
      fun s => scanUint_of_uintText htime (by simp)
    have hp : scanUint 8 (p ++ ("$".toList ++ rest)) = some (params.threads, "$".toList ++ rest) :=
      scanUint_of_uintText hthreads (by simp)
    have hlast : ('$' :: rest) = "$".toList ++ rest := rfl
    rw [hlast, scanParams]
    simp only [literal_append, hv, hm, ht, hp, Option.bind_eq_bind, Option.bind_some,
      Option.pure_def]
    rw [← hkey, ← hsalt]

/-! ## The fields -/

theorem Blanks.not_mem {s : List Char} (h : Blanks s) : '$' ∉ s := fun hmem => by
  have hspace := (h _ hmem).2
  revert hspace
  decide

theorem Digits.not_mem {s : List Char} (h : Digits s) : '$' ∉ s := fun hmem => by
  have hdigit := h.2 _ hmem
  revert hdigit
  decide

theorem UintText.not_mem {bits n : ℕ} {s : List Char} (h : UintText bits s n) : '$' ∉ s := by
  obtain ⟨blanks, digits, rfl, hblanks, hdigits, -⟩ := h
  simp [hblanks.not_mem, hdigits.not_mem]

theorem IntText.not_mem {s : List Char} (h : IntText s) : '$' ∉ s := by
  obtain ⟨blanks, sign, digits, rfl, hblanks, hsign, hdigits, -⟩ := h
  have hnone : '$' ∉ sign := by
    obtain rfl | rfl | rfl := hsign
    · simp
    · simp
    · simp
  simp [hblanks.not_mem, hnone, hdigits.not_mem]

/-- The fourth and the fifth field are the first two of the text that follows the parameters. -/
theorem extractField_eq {s : String} {memory time threads : ℕ} {rest : List Char}
    (h : ParamsText s.toList memory time threads rest) :
    extractField s 4 = String.ofList ((rest.splitOn '$').headD []) ∧
      extractField s 5 = String.ofList (((rest.splitOn '$').drop 1).headD []) := by
  obtain ⟨v, m, t, p, hs, hversion, hmemory, htime, hthreads⟩ := h
  have hfields : s.toList.splitOn '$' = "".toList :: "argon2id".toList :: ("v=".toList ++ v) ::
      ("m=".toList ++ (m ++ (",t=".toList ++ (t ++ (",p=".toList ++ p))))) ::
        rest.splitOn '$' := by
    have hsplit : s.toList = [] ++ '$' :: ("argon2id".toList ++ '$' :: (("v=".toList ++ v) ++ '$' ::
        (("m=".toList ++ (m ++ (",t=".toList ++ (t ++ (",p=".toList ++ p))))) ++ '$' :: rest))) := by
      rw [hs]
      simp
    rw [hsplit, List.splitOn_append_cons_self, List.splitOn_append_cons_self,
      List.splitOn_append_cons_self, List.splitOn_append_cons_self, List.splitOn_eq_singleton,
      List.splitOn_eq_singleton, List.splitOn_eq_singleton, List.splitOn_eq_singleton]
    · rfl
    · simp [hmemory.not_mem, htime.not_mem, hthreads.not_mem]
    · simp [hversion.not_mem]
    · decide
    · simp
  rw [extractField, extractField, hfields]
  exact ⟨rfl, rfl⟩

/-! ## What verification does -/

/-- The key, or a panic. -/
def deriveKey (idKey : IDKey) (password salt : List UInt8) (time memory threads keyLen : ℕ) :
    Option (List UInt8) :=
  if time < 1 then none
  else if threads < 1 then none
  else some (idKey password salt time memory threads keyLen)

inductive Verification where
  | failed
  | verified (ok : Bool)
  | panicked
  deriving DecidableEq, Repr

/-- `VerifyPassword`, with the panics of the key derivation. -/
def verify (idKey : IDKey) (password encoded : String) : Verification :=
  match decodeArgon2Hash encoded with
  | none => .failed
  | some (params, salt, hash) =>
    match deriveKey idKey (bytes password) salt params.time params.memory params.threads
      params.keyLen with
    | none => .panicked
    | some computed => .verified (hash == computed)

/-- The parameters of a hash that no key can be derived from. -/
def Underivable (s : List Char) : Prop :=
  ∃ memory time threads rest, ParamsText s memory time threads rest ∧ (time = 0 ∨ threads = 0) ∧
    decodeString (String.ofList ((rest.splitOn '$').headD [])) ≠ none ∧
    decodeString (String.ofList (((rest.splitOn '$').drop 1).headD [])) ≠ none

theorem deriveKey_eq_none_iff {idKey : IDKey} {password salt : List UInt8}
    {time memory threads keyLen : ℕ} :
    deriveKey idKey password salt time memory threads keyLen = none ↔ time = 0 ∨ threads = 0 := by
  rw [deriveKey]
  split
  · simp
    omega
  · split
    · simp
      omega
    · simp
      omega

theorem verify_of_decode {idKey : IDKey} {password encoded : String} {params : Argon2Params}
    {salt hash : List UInt8} (h : decodeArgon2Hash encoded = some (params, salt, hash)) :
    verify idKey password encoded = ((deriveKey idKey (bytes password) salt params.time params.memory
      params.threads params.keyLen).map fun computed => .verified (hash == computed)).getD
        .panicked := by
  rw [verify, h]
  dsimp only
  cases deriveKey idKey (bytes password) salt params.time params.memory params.threads
    params.keyLen with
  | none => rfl
  | some computed => rfl

/-- It panics exactly on what is decoded without rounds or threads. -/
theorem verify_eq_panicked_iff_decode {idKey : IDKey} {password encoded : String} :
    verify idKey password encoded = .panicked ↔ ∃ params salt hash,
      decodeArgon2Hash encoded = some (params, salt, hash) ∧
        (params.time = 0 ∨ params.threads = 0) := by
  cases hdecode : decodeArgon2Hash encoded with
  | none => simp [verify, hdecode]
  | some decoded =>
    obtain ⟨params, salt, hash⟩ := decoded
    simp only [Option.some.injEq, Prod.mk.injEq, ↓existsAndEq, true_and]
    rw [verify_of_decode hdecode, ← deriveKey_eq_none_iff]
    cases deriveKey idKey (bytes password) salt params.time params.memory params.threads
      params.keyLen with
    | none => simp
    | some computed => simp

theorem verify_eq_panicked_iff {idKey : IDKey} {password encoded : String} :
    verify idKey password encoded = .panicked ↔ Underivable encoded.toList := by
  rw [verify_eq_panicked_iff_decode]
  simp only [decodeArgon2Hash, Option.bind_eq_bind, Option.bind_eq_some_iff, Option.pure_def,
    Option.some.injEq, Prod.mk.injEq, scanParams_eq_some_iff]
  constructor
  · rintro ⟨_, _, _, ⟨params, ⟨-, -, rest, htext⟩, salt, hsalt, hash, hhash, rfl, -⟩, hzero⟩
    obtain ⟨hfour, hfive⟩ := extractField_eq htext
    rw [hfour] at hsalt
    rw [hfive] at hhash
    exact ⟨params.memory, params.time, params.threads, rest, htext, hzero,
      Option.ne_none_iff_exists'.mpr ⟨salt, hsalt⟩, Option.ne_none_iff_exists'.mpr ⟨hash, hhash⟩⟩
  · rintro ⟨memory, time, threads, rest, htext, hzero, hsalt, hhash⟩
    obtain ⟨salt, hsalt⟩ := Option.ne_none_iff_exists'.mp hsalt
    obtain ⟨hash, hhash⟩ := Option.ne_none_iff_exists'.mp hhash
    obtain ⟨hfour, hfive⟩ := extractField_eq htext
    exact ⟨⟨time, memory, threads, 32, 0⟩, salt, hash, ⟨⟨time, memory, threads, 32, 0⟩,
      ⟨rfl, rfl, rest, htext⟩, salt, hfour ▸ hsalt, hash, hfive ▸ hhash, rfl, rfl, rfl⟩, hzero⟩

/-- Without a panic it is the answer of `verifyPassword`. -/
theorem verify_of_ne_panicked {idKey : IDKey} {password encoded : String}
    (h : verify idKey password encoded ≠ .panicked) :
    verify idKey password encoded =
      ((verifyPassword idKey password encoded).map Verification.verified).getD .failed := by
  cases hdecode : decodeArgon2Hash encoded with
  | none => simp [verify, verifyPassword, hdecode]
  | some decoded =>
    obtain ⟨params, salt, hash⟩ := decoded
    have hnonzero : ¬(params.time = 0 ∨ params.threads = 0) := fun hzero =>
      h (verify_eq_panicked_iff_decode.mpr ⟨params, salt, hash, hdecode, hzero⟩)
    push Not at hnonzero
    rw [verify_of_decode hdecode, verifyPassword, hdecode, deriveKey,
      if_neg (by omega), if_neg (by omega)]
    rfl

theorem verify_hashPassword (idKey : IDKey) (salt : List UInt8) (password : String) :
    verify idKey password (hashPassword idKey salt password) = .verified true := by
  have hpanic : verify idKey password (hashPassword idKey salt password) ≠ .panicked := by
    rw [ne_eq, verify_eq_panicked_iff_decode, decodeArgon2Hash_hashPassword]
    simp
  rw [verify_of_ne_panicked hpanic,
    (verifyPassword_hashPassword idKey salt password password).mpr rfl]
  rfl

/-- What is hashed is read back, and the check panics exactly on a text with a zero parameter. -/
theorem codec_exact_iff (idKey : IDKey) :
    (∀ salt password, decodeArgon2Hash (hashPassword idKey salt password) =
        some (⟨3, 65536, 4, 32, 0⟩, salt, idKey (bytes password) salt 3 65536 4 32) ∧
      verify idKey password (hashPassword idKey salt password) = .verified true) ∧
    ∀ password encoded : String,
      verify idKey password encoded ≠ .panicked ↔ ¬Underivable encoded.toList :=
  ⟨fun salt password => ⟨decodeArgon2Hash_hashPassword idKey salt password,
    verify_hashPassword idKey salt password⟩,
    fun _ _ => not_congr verify_eq_panicked_iff⟩

/-- No rounds, and an empty salt and key. -/
theorem no_rounds_panics :
    ¬∀ (idKey : IDKey) (password encoded : String), verify idKey password encoded ≠ .panicked := by
  intro h
  apply h (fun _ _ _ _ _ _ => []) "" "$argon2id$v=19$m=65536,t=0,p=4$$"
  decide

end NetBerth.PasswordHash
