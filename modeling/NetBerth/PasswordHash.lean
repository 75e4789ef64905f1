import Mathlib
import NetBerth.Base64

/-!
# Password hashes as text

`HashPassword` writes the parameters, the salt and the Argon2id key of a password into one text,
and `VerifyPassword` reads them back and derives the key of another password with the same salt.
The parameters are read with `fmt.Sscanf`, the salt and the key are the fourth and the fifth
field between dollar signs.
-/
namespace NetBerth.PasswordHash
open Base64

structure Argon2Params where
  time : ℕ
  memory : ℕ
  threads : ℕ
  keyLen : ℕ
  saltLen : ℕ
  deriving DecidableEq, Repr

def defaultArgon2Params : Argon2Params := ⟨3, 64 * 1024, 4, 32, 16⟩

/-- `argon2.IDKey`: a key from a password, a salt, time, memory, threads and the key's length. -/
abbrev IDKey := List UInt8 → List UInt8 → ℕ → ℕ → ℕ → ℕ → List UInt8

/-- `[]byte(s)`. -/
def bytes (s : String) : List UInt8 := s.toUTF8.data.toList

/-- The salt is what `rand.Read` gives. -/
def hashPassword (idKey : IDKey) (salt : List UInt8) (password : String) : String :=
  let p := defaultArgon2Params
  let hash := idKey (bytes password) salt p.time p.memory p.threads p.keyLen
  "$argon2id$v=19$m=" ++ toString p.memory ++ ",t=" ++ toString p.time ++ ",p=" ++
    toString p.threads ++ "$" ++ encodeToString salt ++ "$" ++ encodeToString hash

/-! ## Sscanf -/

/-- The blanks of package `fmt`. -/
def isSpace (c : Char) : Bool :=
  [(0x09, 0x0d), (0x20, 0x20), (0x85, 0x85), (0xa0, 0xa0), (0x1680, 0x1680), (0x2000, 0x200a),
    (0x2028, 0x2029), (0x202f, 0x202f), (0x205f, 0x205f), (0x3000, 0x3000)].any fun (lo, hi) =>
      lo ≤ c.toNat ∧ c.toNat ≤ hi

/-- Blanks before a number; a line break is an error. -/
def skipSpace : List Char → Option (List Char)
  | [] => some []
  | c :: rest => if c = '\n' then none else if isSpace c then skipSpace rest else some (c :: rest)

/-- The text of the format, character by character. -/
def literal : List Char → List Char → Option (List Char)
  | [], s => some s
  | c :: cs, d :: s => if c = d then literal cs s else none
  | _ :: _, [] => none

def number (ds : List Char) : ℕ := ds.foldl (fun n c => n * 10 + (c.toNat - 48)) 0

/-- `%d` for an unsigned integer of a width. -/
def scanUint (bits : ℕ) (s : List Char) : Option (ℕ × List Char) :=
  (skipSpace s).bind fun s =>
    let digits := s.takeWhile Char.isDigit
    if digits = [] ∨ 2 ^ bits ≤ number digits then none
    else some (number digits, s.dropWhile Char.isDigit)

/-- `%d` for a signed integer of 64 bits; the value is not used. -/
def scanInt (s : List Char) : Option (List Char) :=
  (skipSpace s).bind fun s =>
    let negative := s.head? = some '-'
    let s := if s.head? = some '-' ∨ s.head? = some '+' then s.tail else s
    let digits := s.takeWhile Char.isDigit
    if digits = [] ∨ (if negative then 2 ^ 63 else 2 ^ 63 - 1) < number digits then none
    else some (s.dropWhile Char.isDigit)

/-- `fmt.Sscanf(s, "$argon2id$v=%d$m=%d,t=%d,p=%d$", ...)`. -/
def scanParams (s : List Char) : Option Argon2Params := do
  let s ← literal "$argon2id$v=".toList s
  let s ← scanInt s
  let s ← literal "$m=".toList s
  let (memory, s) ← scanUint 32 s
  let s ← literal ",t=".toList s
  let (time, s) ← scanUint 32 s
  let s ← literal ",p=".toList s
  let (threads, s) ← scanUint 8 s
  let _ ← literal "$".toList s
  return ⟨time, memory, threads, 32, 0⟩

/-- The text after the `n`-th dollar sign, up to the next one. -/
def extractField (s : String) (n : ℕ) : String :=
  String.ofList (((s.toList.splitOn '$').drop n).headD [])

def decodeArgon2Hash (encoded : String) : Option (Argon2Params × List UInt8 × List UInt8) := do
  let params ← scanParams encoded.toList
  let salt ← decodeString (extractField encoded 4)
  let hash ← decodeString (extractField encoded 5)
  return (params, salt, hash)

/-- No answer is the error of `decodeArgon2Hash`. -/
def verifyPassword (idKey : IDKey) (password encoded : String) : Option Bool :=
  (decodeArgon2Hash encoded).map fun (params, salt, hash) =>
    hash == idKey (bytes password) salt params.time params.memory params.threads params.keyLen

/-! ## What is read back -/

theorem literal_append (cs rest : List Char) : literal cs (cs ++ rest) = some rest := by
  induction cs with
  | nil => rfl
  | cons c cs ih => rw [List.cons_append, literal, if_pos rfl, ih]

/-- Digits up to a character that is none. -/
theorem span_digits {ds rest : List Char} (hds : ∀ c ∈ ds, c.isDigit = true)
    (hrest : ∀ c ∈ rest.head?, c.isDigit = false) :
    (ds ++ rest).takeWhile Char.isDigit = ds ∧ (ds ++ rest).dropWhile Char.isDigit = rest := by
  have hstop : rest.takeWhile Char.isDigit = [] ∧ rest.dropWhile Char.isDigit = rest := by
    cases rest with
    | nil => simp
    | cons c rest => simp [hrest c rfl]
  rw [List.takeWhile_append_of_pos hds, List.dropWhile_append_of_pos hds, hstop.1, hstop.2]
  simp

theorem skipSpace_digits {d : Char} (hd : d.isDigit = true) (s : List Char) :
    skipSpace (d :: s) = some (d :: s) := by
  have hrange : 48 ≤ d.toNat ∧ d.toNat ≤ 57 := Char.isDigit_iff_toNat.mp hd
  have hline : d ≠ '\n' := by
    rintro rfl
    contradiction
  have hblank : isSpace d = false := by
    simp only [isSpace, List.any_cons, List.any_nil, Bool.or_false, Bool.or_eq_false_iff,
      decide_eq_false_iff_not]
    omega
  rw [skipSpace, if_neg hline, hblank]
  rfl

theorem scanUint_append {bits : ℕ} {d : Char} {ds rest : List Char}
    (hds : ∀ c ∈ d :: ds, c.isDigit = true) (hrest : ∀ c ∈ rest.head?, c.isDigit = false)
    (hbits : number (d :: ds) < 2 ^ bits) :
    scanUint bits (d :: ds ++ rest) = some (number (d :: ds), rest) := by
  obtain ⟨htake, hdrop⟩ := span_digits hds hrest
  have hskip := skipSpace_digits (hds d List.mem_cons_self) (ds ++ rest)
  rw [scanUint, List.cons_append, hskip, Option.bind_some]
  rw [List.cons_append] at htake hdrop
  simp only [htake, hdrop]
  rw [if_neg (by simpa using hbits)]

theorem scanInt_append {d : Char} {ds rest : List Char}
    (hds : ∀ c ∈ d :: ds, c.isDigit = true) (hrest : ∀ c ∈ rest.head?, c.isDigit = false)
    (hbits : number (d :: ds) < 2 ^ 63) : scanInt (d :: ds ++ rest) = some rest := by
  obtain ⟨htake, hdrop⟩ := span_digits hds hrest
  have hskip := skipSpace_digits (hds d List.mem_cons_self) (ds ++ rest)
  have hsign : d ≠ '-' ∧ d ≠ '+' := by
    constructor <;> rintro rfl <;> exact absurd (hds _ List.mem_cons_self) (by decide)
  rw [scanInt, List.cons_append, hskip, Option.bind_some]
  rw [List.cons_append] at htake hdrop
  simp only [List.head?_cons, Option.some.injEq, hsign.1, hsign.2, or_self, if_false, htake, hdrop]
  rw [if_neg (by simp; omega)]

theorem scanParams_append (rest : List Char) :
    scanParams ("$argon2id$v=19$m=65536,t=3,p=4$".toList ++ rest) =
      some ⟨3, 65536, 4, 32, 0⟩ := by
  have htext : "$argon2id$v=19$m=65536,t=3,p=4$".toList ++ rest = "$argon2id$v=".toList ++
      ("19".toList ++ ("$m=".toList ++ ("65536".toList ++ (",t=".toList ++ ("3".toList ++
        (",p=".toList ++ ("4".toList ++ ("$".toList ++ rest)))))))) := by simp
  have hversion : ∀ s, scanInt ("19".toList ++ ("$m=".toList ++ s)) = some ("$m=".toList ++ s) := by
    intro s
    exact scanInt_append (List.all_eq_true.mp (by decide)) (by simp) (by decide)
  have hmemory : ∀ s, scanUint 32 ("65536".toList ++ (",t=".toList ++ s)) =
      some (65536, ",t=".toList ++ s) := by
    intro s
    exact scanUint_append (List.all_eq_true.mp (by decide)) (by simp) (by decide)
  have htime : ∀ s, scanUint 32 ("3".toList ++ (",p=".toList ++ s)) =
      some (3, ",p=".toList ++ s) := by
    intro s
    exact scanUint_append (List.all_eq_true.mp (by decide)) (by simp) (by decide)
  have hthreads : ∀ s, scanUint 8 ("4".toList ++ ("$".toList ++ s)) =
      some (4, "$".toList ++ s) := by
    intro s
    exact scanUint_append (List.all_eq_true.mp (by decide)) (by simp) (by decide)
  rw [htext, scanParams]
  simp only [literal_append, hversion, hmemory, htime, hthreads, Option.bind_eq_bind,
    Option.bind_some, Option.pure_def]

theorem toList_hashPassword (idKey : IDKey) (salt : List UInt8) (password : String) :
    (hashPassword idKey salt password).toList =
      "$argon2id$v=19$m=65536,t=3,p=4$".toList ++ ((encodeToString salt).toList ++
        '$' :: (encodeToString (idKey (bytes password) salt 3 65536 4 32)).toList) := by
  have hhead : "$argon2id$v=19$m=" ++ toString (64 * 1024) ++ ",t=" ++ toString 3 ++ ",p=" ++
      toString 4 ++ "$" = "$argon2id$v=19$m=65536,t=3,p=4$" := by decide +kernel
  have htext : hashPassword idKey salt password = "$argon2id$v=19$m=65536,t=3,p=4$" ++
      encodeToString salt ++ "$" ++ encodeToString (idKey (bytes password) salt 3 65536 4 32) :=
    congrArg (· ++ encodeToString salt ++ "$" ++
      encodeToString (idKey (bytes password) salt 3 65536 4 32)) hhead
  rw [htext]
  simp only [String.toList_append, List.append_assoc]
  rfl

/-- No symbol is a dollar sign. -/
theorem extractField_hash {salt key : List UInt8} {s : String}
    (hs : s.toList = "$argon2id$v=19$m=65536,t=3,p=4$".toList ++
      ((encodeToString salt).toList ++ '$' :: (encodeToString key).toList)) :
    extractField s 4 = encodeToString salt ∧ extractField s 5 = encodeToString key := by
  have hdollar : ∀ bytes, '$' ∉ (encodeToString bytes).toList :=
    not_mem_encodeToString (by decide)
  have hfields : s.toList.splitOn '$' = ["".toList, "argon2id".toList, "v=19".toList,
      "m=65536,t=3,p=4".toList, (encodeToString salt).toList, (encodeToString key).toList] := by
    have hhead : "$argon2id$v=19$m=65536,t=3,p=4$".toList = "$argon2id$v=19$m=65536,t=3,p=4".toList ++
        ['$'] := by decide
    have hsplit : "$argon2id$v=19$m=65536,t=3,p=4".toList.splitOn '$' =
        ["".toList, "argon2id".toList, "v=19".toList, "m=65536,t=3,p=4".toList] := by decide
    rw [hs, hhead, List.append_assoc, List.singleton_append, List.splitOn_append_cons_self, hsplit,
      List.splitOn_append_cons_self, List.splitOn_eq_singleton (hdollar salt),
      List.splitOn_eq_singleton (hdollar key)]
    rfl
  rw [extractField, extractField, hfields]
  simp

theorem decodeArgon2Hash_hashPassword (idKey : IDKey) (salt : List UInt8) (password : String) :
    decodeArgon2Hash (hashPassword idKey salt password) =
      some (⟨3, 65536, 4, 32, 0⟩, salt, idKey (bytes password) salt 3 65536 4 32) := by
  have htext := toList_hashPassword idKey salt password
  obtain ⟨hsalt, hkey⟩ := extractField_hash htext
  rw [decodeArgon2Hash, hsalt, hkey, htext, scanParams_append, decodeString_encodeToString,
    decodeString_encodeToString]
  rfl

/-- A password is verified exactly when it has the key of the one that was hashed. -/
theorem verifyPassword_hashPassword (idKey : IDKey) (salt : List UInt8) (password q : String) :
    verifyPassword idKey q (hashPassword idKey salt password) = some true ↔
      idKey (bytes q) salt 3 65536 4 32 = idKey (bytes password) salt 3 65536 4 32 := by
  rw [verifyPassword, decodeArgon2Hash_hashPassword, Option.map_some, Option.some.injEq,
    beq_iff_eq]
  exact eq_comm

end NetBerth.PasswordHash
