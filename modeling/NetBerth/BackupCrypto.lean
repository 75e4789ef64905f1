import NetBerth.ByteStream

/-!
# Encrypted backups

The NBBK2 envelope: a header with the salt, one record for each chunk of the
plaintext, sealed together with its index, and a footer that seals the number
of chunks. The cipher and the key derivation are parameters. Keys have the
length the cipher asks for, so building the cipher cannot fail; the random
source does not fail, and its nonces have the length it is asked for.

Every `Seal` call of an encryption is noted beside the output, in the order of
the calls. The note is never read except for its length, which is the number
of nonces drawn so far.
-/
namespace NetBerth.BackupCrypto
open ByteStream

abbrev Bytes := List UInt8
abbrev Source := StreamReader String UInt8
abbrev Dest := StreamWriter String UInt8

/-- "NBBK". -/
def magic : Bytes := [0x4e, 0x42, 0x42, 0x4b]
def version : UInt8 := 0x02
def saltSize : ℕ := 16
def nonceSize : ℕ := 12
def maxChunkSize : ℕ := 2 ^ 20
def keySize : ℕ := 32
def footerIndex : UInt64 := ~~~0
def headerSize : ℕ := magic.length + 1 + saltSize

inductive Error where
  | emptyPassphrase
  | invalidFormat
  | unsupportedVersion
  | wrapped (context cause : String)
  deriving DecidableEq, Repr

def Error.message : Error → String
  | .emptyPassphrase => "backupcrypto: empty passphrase"
  | .invalidFormat => "backupcrypto: invalid encrypted backup"
  | .unsupportedVersion => "backupcrypto: unsupported backup version"
  | .wrapped context cause => "backupcrypto: " ++ context ++ ": " ++ cause

theorem maxChunkSize_pos : 0 < maxChunkSize := Nat.two_pow_pos 20

/-! ## The cipher and the random source -/

abbrev Key := {key : Bytes // key.length = keySize}

/-- `cipher.AEAD`: `Seal` and `Open` with nonce, text and additional data. -/
structure AEAD where
  overhead : ℕ
  sealText : (nonce plain aad : Bytes) → Bytes
  openText : (nonce sealed aad : Bytes) → Option Bytes

/-- What a reader of a sealed text relies on. -/
structure AEAD.Lawful (A : AEAD) : Prop where
  openText_sealText (nonce plain aad : Bytes) :
    A.openText nonce (A.sealText nonce plain aad) aad = some plain
  length_sealText (nonce plain aad : Bytes) :
    (A.sealText nonce plain aad).length = plain.length + A.overhead

/-- `argon2.IDKey` with this package's parameters, and AES-GCM for a key. -/
structure Primitives where
  idKey : (passphrase salt : Bytes) → Key
  newGCM : Key → AEAD

def newAEAD (P : Primitives) (passphrase salt : Bytes) : AEAD := P.newGCM (P.idKey passphrase salt)

/-- What `rand.Read` returns during one encryption. -/
structure Entropy where
  salt : Bytes
  nonce : ℕ → Bytes
  length_salt : salt.length = saltSize
  length_nonce : ∀ i, (nonce i).length = nonceSize

/-! ## Numbers -/

def putUint32 (n : UInt32) : Bytes := putBE 4 n.toNat
def putUint64 (n : UInt64) : Bytes := putBE 8 n.toNat
def uint32 (bytes : Bytes) : UInt32 := UInt32.ofNat (getBE (bytes.take 4))
def uint64 (bytes : Bytes) : UInt64 := UInt64.ofNat (getBE (bytes.take 8))

@[simp] theorem length_putUint32 (n : UInt32) : (putUint32 n).length = 4 := length_putBE 4 _

@[simp] theorem length_putUint64 (n : UInt64) : (putUint64 n).length = 8 := length_putBE 8 _

@[simp] theorem uint32_putUint32 (n : UInt32) : uint32 (putUint32 n) = n := by
  rw [uint32, List.take_of_length_le (length_putUint32 n).le, putUint32, getBE_putBE,
    Nat.mod_eq_of_lt (n.toNat_lt.trans_eq (by norm_num)), UInt32.ofNat_toNat]

@[simp] theorem uint64_putUint64 (n : UInt64) : uint64 (putUint64 n) = n := by
  rw [uint64, List.take_of_length_le (length_putUint64 n).le, putUint64, getBE_putBE,
    Nat.mod_eq_of_lt (n.toNat_lt.trans_eq (by norm_num)), UInt64.ofNat_toNat]

theorem putUint64_injective {m n : UInt64} (h : putUint64 m = putUint64 n) : m = n := by
  rw [← uint64_putUint64 m, h, uint64_putUint64]

def chunkAAD (index : UInt64) : Bytes := magic ++ [version] ++ putUint64 index
def footerAAD : Bytes := chunkAAD footerIndex

theorem chunkAAD_injective {m n : UInt64} (h : chunkAAD m = chunkAAD n) : m = n :=
  putUint64_injective (List.append_cancel_left h)

/-! ## Encryption -/

structure SealCall where
  nonce : Bytes
  plain : Bytes
  aad : Bytes
  sealed : Bytes
  deriving DecidableEq, Repr

structure Sink where
  dst : Dest
  seals : List SealCall

/-- Writes one after the other, each with the words its error is wrapped in. -/
def writeAll (sink : Sink) : List (String × Bytes) → Sink × Option Error
  | [] => (sink, none)
  | (context, bytes) :: parts =>
    match sink.dst.write bytes with
    | (dst, some e) => ({ sink with dst := dst }, some (.wrapped context e))
    | (dst, none) => writeAll { sink with dst := dst } parts

def Entropy.sealNext (E : Entropy) (A : AEAD) (sink : Sink) (plain aad : Bytes) : SealCall :=
  let nonce := E.nonce sink.seals.length
  ⟨nonce, plain, aad, A.sealText nonce plain aad⟩

def writeChunk (A : AEAD) (E : Entropy) (sink : Sink) (plain : Bytes) (index : UInt64) :
    Sink × Option Error :=
  let call := E.sealNext A sink plain (chunkAAD index)
  writeAll { sink with seals := sink.seals ++ [call] }
    [("chunk length", putUint32 (UInt32.ofNat plain.length)), ("chunk nonce", call.nonce),
      ("chunk data", call.sealed)]

def writeFooter (A : AEAD) (E : Entropy) (sink : Sink) (chunkCount : UInt64) :
    Sink × Option Error :=
  let call := E.sealNext A sink (putUint64 chunkCount) footerAAD
  writeAll { sink with seals := sink.seals ++ [call] }
    [("footer marker", putUint32 0), ("footer nonce write", call.nonce),
      ("footer data", call.sealed)]

def encryptLoop (A : AEAD) (E : Entropy) (sink : Sink) (src : Source) (index : UInt64) :
    Sink × Option Error :=
  let t := src.readFull maxChunkSize
  let wrote := if t.bytes.isEmpty then (sink, none) else writeChunk A E sink t.bytes index
  let next := if t.bytes.isEmpty then index else index + 1
  match wrote.2 with
  | some e => (wrote.1, some e)
  | none =>
    match _h : t.err with
    | some .eof | some .unexpectedEOF => writeFooter A E wrote.1 next
    | some (.failed e) => (wrote.1, some (.wrapped "read" e))
    | none => encryptLoop A E wrote.1 t.rest next
termination_by src.contents.length
decreasing_by
  rw [StreamReader.readFull_err] at _h
  split_ifs at _h with hle
  have hpos := maxChunkSize_pos
  rw [StreamReader.readFull_rest, List.length_drop]
  omega

def header (salt : Bytes) : Bytes := magic ++ [version] ++ salt

def encryptStream (P : Primitives) (E : Entropy) (dst : Dest) (src : Source)
    (passphrase : Bytes) : Sink × Option Error :=
  if passphrase = [] then (⟨dst, []⟩, some .emptyPassphrase)
  else
    match writeAll ⟨dst, []⟩ [("header", header E.salt)] with
    | (sink, some e) => (sink, some e)
    | (sink, none) => encryptLoop (newAEAD P passphrase E.salt) E sink src 0

/-! ## Decryption -/

/-- A `ReadFull` whose errors are all answered alike. -/
def readExact (src : Source) (n : ℕ) : Option (Bytes × Source) :=
  let t := src.readFull n
  if t.err.isSome then none else some (t.bytes, t.rest)

theorem readExact_eq_some {src rest : Source} {n : ℕ} {bytes : Bytes}
    (h : readExact src n = some (bytes, rest)) :
    n ≤ src.contents.length ∧ bytes = src.contents.take n ∧ rest.contents = src.contents.drop n := by
  simp only [readExact, StreamReader.readFull_err] at h
  by_cases hle : n ≤ src.contents.length
  · simp only [if_pos hle, Option.isSome_none, Bool.false_eq_true, if_false, Option.some.injEq,
      Prod.mk.injEq] at h
    obtain ⟨rfl, rfl⟩ := h
    exact ⟨hle, StreamReader.readFull_bytes src n, StreamReader.readFull_rest src n⟩
  · simp [if_neg hle] at h

theorem readExact_of_append {src : Source} {bytes tail : Bytes} (h : src.contents = bytes ++ tail) :
    ∃ rest, readExact src bytes.length = some (bytes, rest) ∧ rest.contents = tail := by
  refine ⟨(src.readFull bytes.length).rest, ?_, by simp [h]⟩
  simp [readExact, StreamReader.readFull_err, h]

def readFooter (A : AEAD) (src : Source) (chunkCount : UInt64) : Option Error :=
  match readExact src nonceSize with
  | none => some .invalidFormat
  | some (nonce, src) =>
    match readExact src (8 + A.overhead) with
    | none => some .invalidFormat
    | some (sealed, _) =>
      match A.openText nonce sealed footerAAD with
      | none => some .invalidFormat
      | some plain => if uint64 plain = chunkCount then none else some .invalidFormat

/-- What one round of the loop finds: the end, or the text of a record. -/
inductive Round where
  | stop (err : Option Error)
  | chunk (plain : Bytes) (rest : Source)

def readRecord (A : AEAD) (src : Source) (index : UInt64) : Round :=
  match readExact src 4 with
  | none => .stop (some .invalidFormat)
  | some (lenBuf, src) =>
    let plainLen := uint32 lenBuf
    if plainLen = 0 then .stop (readFooter A src index)
    else if maxChunkSize < plainLen.toNat then .stop (some .invalidFormat)
    else
      match readExact src nonceSize with
      | none => .stop (some .invalidFormat)
      | some (nonce, src) =>
        match readExact src (plainLen.toNat + A.overhead) with
        | none => .stop (some .invalidFormat)
        | some (sealed, src) =>
          match A.openText nonce sealed (chunkAAD index) with
          | none => .stop (some .invalidFormat)
          | some plain => .chunk plain src

/-- A text comes out of a record only through `Open` under its index. -/
theorem readRecord_eq_chunk {A : AEAD} {src rest : Source} {index : UInt64} {plain : Bytes}
    (h : readRecord A src index = .chunk plain rest) :
    rest.contents.length < src.contents.length ∧
      ∃ nonce sealed, A.openText nonce sealed (chunkAAD index) = some plain := by
  unfold readRecord at h
  split at h
  · cases h
  next lenBuf src₁ h₁ =>
    dsimp only at h
    split_ifs at h
    split at h
    · cases h
    next nonce src₂ h₂ =>
      split at h
      · cases h
      next sealed src₃ h₃ =>
        split at h
        · cases h
        next text hopen =>
          cases h
          obtain ⟨hle, -, hrest₁⟩ := readExact_eq_some h₁
          obtain ⟨-, -, hrest₂⟩ := readExact_eq_some h₂
          obtain ⟨-, -, hrest₃⟩ := readExact_eq_some h₃
          refine ⟨?_, nonce, sealed, hopen⟩
          rw [hrest₃, hrest₂, hrest₁]
          simp only [List.length_drop]
          omega

def decryptLoop (A : AEAD) (dst : Dest) (src : Source) (index : UInt64) : Dest × Option Error :=
  match _h : readRecord A src index with
  | .stop err => (dst, err)
  | .chunk plain rest =>
    match dst.write plain with
    | (dst, some e) => (dst, some (.wrapped "write" e))
    | (dst, none) => decryptLoop A dst rest (index + 1)
termination_by src.contents.length
decreasing_by exact (readRecord_eq_chunk _h).1

theorem decryptLoop_stop {A : AEAD} {dst : Dest} {src : Source} {index : UInt64}
    {err : Option Error} (h : readRecord A src index = .stop err) :
    decryptLoop A dst src index = (dst, err) := by
  rw [decryptLoop]
  split
  · rename_i h'
    rw [h] at h'
    cases h'
    rfl
  · rename_i h'
    rw [h] at h'
    cases h'

theorem decryptLoop_chunk {A : AEAD} {dst : Dest} {src rest : Source} {index : UInt64}
    {plain : Bytes} (h : readRecord A src index = .chunk plain rest) :
    decryptLoop A dst src index =
      match dst.write plain with
      | (dst, some e) => (dst, some (.wrapped "write" e))
      | (dst, none) => decryptLoop A dst rest (index + 1) := by
  rw [decryptLoop]
  split
  · rename_i h'
    rw [h] at h'
    cases h'
  · rename_i h'
    rw [h] at h'
    cases h'
    rfl

def decryptStream (P : Primitives) (dst : Dest) (src : Source) (passphrase : Bytes) :
    Dest × Option Error :=
  if passphrase = [] then (dst, some .emptyPassphrase)
  else
    match readExact src headerSize with
    | none => (dst, some .invalidFormat)
    | some (header, src) =>
      if header.take magic.length ≠ magic then (dst, some .invalidFormat)
      else if header[magic.length]? ≠ some version then (dst, some .unsupportedVersion)
      else decryptLoop (newAEAD P passphrase (header.drop (magic.length + 1))) dst src 0

/-- The in-memory wrappers. -/
def encrypt (P : Primitives) (E : Entropy) (plain passphrase : Bytes) : Except Error Bytes :=
  match encryptStream P E StreamWriter.buffer (StreamReader.ofList plain) passphrase with
  | (_, some e) => .error e
  | (sink, none) => .ok sink.dst.written

def decrypt (P : Primitives) (envelope passphrase : Bytes) : Except Error Bytes :=
  match decryptStream P StreamWriter.buffer (StreamReader.ofList envelope) passphrase with
  | (_, some e) => .error e
  | (dst, none) => .ok dst.written

end NetBerth.BackupCrypto
