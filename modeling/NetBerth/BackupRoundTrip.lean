import NetBerth.BackupCrypto

/-!
# What an encryption writes, and that it can be read back

The output of `EncryptStream` is described piece by piece: the plaintext cut
into chunks, the `Seal` call for each chunk, and the record that carries it.
The encoder's loop is shown to write exactly these pieces however its source
cuts the bytes, and the decoder's loop to take them apart again, one record at
a time, until the footer.
-/
namespace NetBerth.BackupCrypto
open ByteStream

def chunks (plain : Bytes) : List Bytes := chunksOf (maxChunkSize - 1) plain

theorem chunks_of_ne_nil {plain : Bytes} (h : plain ≠ []) :
    chunks plain = plain.take maxChunkSize :: chunks (plain.drop maxChunkSize) := by
  rw [chunks, chunksOf_of_ne_nil _ h, Nat.sub_add_cancel maxChunkSize_pos]
  rfl

theorem chunks_of_short {plain : Bytes} (hne : plain ≠ []) (hle : plain.length ≤ maxChunkSize) :
    chunks plain = [plain] := by
  rw [chunks_of_ne_nil hne, List.take_of_length_le hle, List.drop_of_length_le hle, chunks,
    chunksOf_nil]

theorem length_of_mem_chunks {plain c : Bytes} (h : c ∈ chunks plain) :
    c ≠ [] ∧ c.length ≤ maxChunkSize := by
  have hc := length_of_mem_chunksOf h
  rwa [Nat.sub_add_cancel maxChunkSize_pos] at hc

theorem length_chunks (plain : Bytes) :
    (chunks plain).length = (plain.length + (maxChunkSize - 1)) / maxChunkSize := by
  rw [chunks, length_chunksOf, Nat.sub_add_cancel maxChunkSize_pos]

theorem flatten_take_chunks (plain : Bytes) (i : ℕ) :
    ((chunks plain).take i).flatten = plain.take (i * maxChunkSize) := by
  rw [chunks, flatten_take_chunksOf, Nat.sub_add_cancel maxChunkSize_pos]

section
variable (A : AEAD) (E : Entropy)

/-- The call that seals the chunk with index `i`, and the call for the footer. -/
def dataSeal (i : ℕ) (plain : Bytes) : SealCall :=
  let aad := chunkAAD (UInt64.ofNat i)
  ⟨E.nonce i, plain, aad, A.sealText (E.nonce i) plain aad⟩

def footerSeal (count : ℕ) : SealCall :=
  let plain := putUint64 (UInt64.ofNat count)
  ⟨E.nonce count, plain, footerAAD, A.sealText (E.nonce count) plain footerAAD⟩

def dataSeals : ℕ → List Bytes → List SealCall
  | _, [] => []
  | i, c :: cs => dataSeal A E i c :: dataSeals (i + 1) cs

end

def dataRecord (call : SealCall) : Bytes :=
  putUint32 (UInt32.ofNat call.plain.length) ++ call.nonce ++ call.sealed

def footerRecord (call : SealCall) : Bytes := putUint32 0 ++ call.nonce ++ call.sealed

/-- The records of all chunks from index `i` on, and the footer. -/
def body (A : AEAD) (E : Entropy) (i : ℕ) (cs : List Bytes) : Bytes :=
  ((dataSeals A E i cs).map dataRecord).flatten ++ footerRecord (footerSeal A E (i + cs.length))

@[simp] theorem length_dataSeals (A : AEAD) (E : Entropy) (i : ℕ) (cs : List Bytes) :
    (dataSeals A E i cs).length = cs.length := by
  induction cs generalizing i with
  | nil => rfl
  | cons c cs ih => rw [dataSeals, List.length_cons, List.length_cons, ih]

theorem getElem_dataSeals (A : AEAD) (E : Entropy) (i : ℕ) (cs : List Bytes) (k : ℕ)
    (hs : k < (dataSeals A E i cs).length) (hk : k < cs.length) :
    (dataSeals A E i cs)[k] = dataSeal A E (i + k) cs[k] := by
  induction cs generalizing i k with
  | nil => cases hk
  | cons c cs ih =>
    cases k with
    | zero => rfl
    | succ k =>
      have hk' : k < cs.length := Nat.lt_of_succ_lt_succ hk
      have hindex : i + (k + 1) = i + 1 + k := by omega
      have hs' : k < (dataSeals A E (i + 1) cs).length := by rwa [length_dataSeals]
      simpa only [dataSeals, List.getElem_cons_succ, hindex] using ih (i + 1) k hs' hk'

theorem body_nil (A : AEAD) (E : Entropy) (i : ℕ) :
    body A E i [] = footerRecord (footerSeal A E i) := rfl

theorem body_cons (A : AEAD) (E : Entropy) (i : ℕ) (c : Bytes) (cs : List Bytes) :
    body A E i (c :: cs) = dataRecord (dataSeal A E i c) ++ body A E (i + 1) cs := by
  have hcount : i + (c :: cs).length = i + 1 + cs.length := by
    rw [List.length_cons]
    omega
  simp only [body, dataSeals, List.map_cons, List.flatten_cons, List.append_assoc, hcount]

/-! ## Encoding -/

/-- A sink that takes everything. -/
def Sink.of (written : Bytes) (seals : List SealCall) : Sink := ⟨⟨written, none⟩, seals⟩

theorem writeAll_of (written : Bytes) (seals : List SealCall) (parts : List (String × Bytes)) :
    writeAll (.of written seals) parts =
      (.of (written ++ (parts.map Prod.snd).flatten) seals, none) := by
  induction parts generalizing written with
  | nil => simp [writeAll]
  | cons part parts ih =>
    have hstep : writeAll (.of written seals) (part :: parts) =
        writeAll (.of (written ++ part.2) seals) parts := rfl
    rw [hstep, ih, List.map_cons, List.flatten_cons, List.append_assoc]

theorem writeChunk_of (A : AEAD) (E : Entropy) (written : Bytes) (seals : List SealCall)
    (plain : Bytes) :
    writeChunk A E (.of written seals) plain (UInt64.ofNat seals.length) =
      (.of (written ++ dataRecord (dataSeal A E seals.length plain))
        (seals ++ [dataSeal A E seals.length plain]), none) := by
  let call := dataSeal A E seals.length plain
  calc writeChunk A E (.of written seals) plain (UInt64.ofNat seals.length)
      = writeAll (.of written (seals ++ [call]))
          [("chunk length", putUint32 (UInt32.ofNat plain.length)), ("chunk nonce", call.nonce),
            ("chunk data", call.sealed)] := rfl
    _ = (.of (written ++ dataRecord call) (seals ++ [call]), none) := by
      rw [writeAll_of]
      simp [dataRecord, call, dataSeal]

theorem writeFooter_of (A : AEAD) (E : Entropy) (written : Bytes) (seals : List SealCall) :
    writeFooter A E (.of written seals) (UInt64.ofNat seals.length) =
      (.of (written ++ footerRecord (footerSeal A E seals.length))
        (seals ++ [footerSeal A E seals.length]), none) := by
  let call := footerSeal A E seals.length
  calc writeFooter A E (.of written seals) (UInt64.ofNat seals.length)
      = writeAll (.of written (seals ++ [call]))
          [("footer marker", putUint32 0), ("footer nonce write", call.nonce),
            ("footer data", call.sealed)] := rfl
    _ = (.of (written ++ footerRecord call) (seals ++ [call]), none) := by
      rw [writeAll_of]
      simp [footerRecord]

/-- The loop on a source that still holds a full chunk. -/
theorem encryptLoop_full {A : AEAD} {E : Entropy} {sink sink' : Sink} {src : Source}
    {index : UInt64} (hlen : maxChunkSize ≤ src.contents.length)
    (hwrite : writeChunk A E sink (src.contents.take maxChunkSize) index = (sink', none)) :
    encryptLoop A E sink src index =
      encryptLoop A E sink' (src.readFull maxChunkSize).rest (index + 1) := by
  have herr : (src.readFull maxChunkSize).err = none := by
    rw [StreamReader.readFull_err, if_pos hlen]
  have hne : (src.contents.take maxChunkSize).isEmpty = false := by
    have hpos := maxChunkSize_pos
    simp only [List.isEmpty_eq_false_iff, ne_eq, List.take_eq_nil_iff, not_or]
    exact ⟨by omega, List.ne_nil_of_length_pos (by omega)⟩
  rw [encryptLoop]
  simp only [StreamReader.readFull_bytes, hne, Bool.false_eq_true, if_false, hwrite]
  split
  · rename_i h
    rw [herr] at h
    cases h
  · rename_i h
    rw [herr] at h
    cases h
  · rename_i h
    rw [herr] at h
    cases h
  · rfl

/-- The loop on a source that ends before a full chunk. -/
theorem encryptLoop_short {A : AEAD} {E : Entropy} {sink sink' : Sink} {src : Source}
    {index index' : UInt64} (hlen : src.contents.length < maxChunkSize) (hfault : src.fault = none)
    (hwrite : (if src.contents.isEmpty then (sink, none)
      else writeChunk A E sink src.contents index) = (sink', none))
    (hindex : (if src.contents.isEmpty then index else index + 1) = index') :
    encryptLoop A E sink src index = writeFooter A E sink' index' := by
  have hall : src.contents.take maxChunkSize = src.contents := List.take_of_length_le hlen.le
  have herr : (src.readFull maxChunkSize).err =
      some (if src.contents.isEmpty then .eof else .unexpectedEOF) := by
    rw [StreamReader.readFull_err, if_neg (by omega), StreamReader.shortfall, hfault]
  rw [encryptLoop]
  simp only [StreamReader.readFull_bytes, hall, hwrite, hindex]
  split
  · rfl
  · rfl
  · rename_i h
    rw [herr] at h
    split_ifs at h <;> cases h
  · rename_i h
    rw [herr] at h
    cases h

/-- Whatever the source's bursts, the loop writes the records of its contents. -/
theorem encryptLoop_of (A : AEAD) (E : Entropy) (written : Bytes) (seals : List SealCall)
    (src : Source) (hfault : src.fault = none) :
    encryptLoop A E (.of written seals) src (UInt64.ofNat seals.length) =
      (.of (written ++ body A E seals.length (chunks src.contents))
        (seals ++ dataSeals A E seals.length (chunks src.contents) ++
          [footerSeal A E (seals.length + (chunks src.contents).length)]), none) := by
  induction hn : src.contents.length using Nat.strong_induction_on generalizing src written seals with
  | _ n ih =>
    subst hn
    by_cases hempty : src.contents = []
    · have hlen : src.contents.length < maxChunkSize := by
        rw [hempty]
        exact maxChunkSize_pos
      have hstep : encryptLoop A E (.of written seals) src (UInt64.ofNat seals.length) =
          writeFooter A E (.of written seals) (UInt64.ofNat seals.length) :=
        encryptLoop_short hlen hfault (by simp [hempty]) (by simp [hempty])
      rw [hstep, writeFooter_of, hempty]
      simp [chunks, dataSeals, body_nil]
    · let call := dataSeal A E seals.length (src.contents.take maxChunkSize)
      let seals' := seals ++ [call]
      let written' := written ++ dataRecord call
      have hlength : seals'.length = seals.length + 1 := by simp [seals']
      have hindex : UInt64.ofNat seals.length + 1 = UInt64.ofNat seals'.length := by simp [hlength]
      have hwrite : writeChunk A E (.of written seals) (src.contents.take maxChunkSize)
          (UInt64.ofNat seals.length) = (.of written' seals', none) := writeChunk_of ..
      rw [chunks_of_ne_nil hempty, body_cons]
      by_cases hlen : src.contents.length < maxChunkSize
      · have hall : src.contents.take maxChunkSize = src.contents := List.take_of_length_le hlen.le
        have hdrop : src.contents.drop maxChunkSize = [] := List.drop_of_length_le hlen.le
        rw [hall] at hwrite
        have hstep : encryptLoop A E (.of written seals) src (UInt64.ofNat seals.length) =
            writeFooter A E (.of written' seals') (UInt64.ofNat seals'.length) :=
          encryptLoop_short hlen hfault (by simpa [hempty] using hwrite) (by simpa [hempty] using hindex)
        rw [hstep, writeFooter_of, hlength, hdrop]
        simp [chunks, dataSeals, body_nil, written', seals', call]
      · let rest := (src.readFull maxChunkSize).rest
        have hrest : rest.contents = src.contents.drop maxChunkSize := by simp [rest]
        have hdecr : rest.contents.length < src.contents.length := by
          have hpos := maxChunkSize_pos
          rw [hrest, List.length_drop]
          omega
        have hrec := ih _ hdecr written' seals' rest (by simp [rest, hfault]) rfl
        rw [encryptLoop_full (not_lt.mp hlen) hwrite, hindex, hrec, hrest, hlength]
        simp [dataSeals, written', seals', call, Nat.add_assoc, Nat.add_comm 1]

/-! ## Decoding -/

section
variable {A : AEAD} {E : Entropy}

/-- A footer that opens to the number of records ends the loop, whatever follows it. -/
theorem readRecord_stop_of_open {src : Source} {index : UInt64} {nonce sealed plain tail : Bytes}
    (hnonce : nonce.length = nonceSize) (hsealed : sealed.length = 8 + A.overhead)
    (hopen : A.openText nonce sealed footerAAD = some plain) (hcount : uint64 plain = index)
    (h : src.contents = putUint32 0 ++ (nonce ++ (sealed ++ tail))) :
    readRecord A src index = .stop none := by
  obtain ⟨rest₁, hread₁, hrest₁⟩ := readExact_of_append h
  obtain ⟨rest₂, hread₂, hrest₂⟩ := readExact_of_append hrest₁
  obtain ⟨rest₃, hread₃, -⟩ := readExact_of_append hrest₂
  rw [length_putUint32] at hread₁
  rw [hnonce] at hread₂
  rw [hsealed] at hread₃
  have hfooter : readFooter A rest₁ index = none := by
    simp only [readFooter, hread₂, hread₃, hopen, hcount, if_true]
  simp only [readRecord, hread₁, uint32_putUint32, if_true, hfooter]

/-- A record that opens under its index is one round. -/
theorem readRecord_chunk_of_open {src : Source} {index : UInt64} {len : UInt32}
    {nonce sealed plain tail : Bytes} (hzero : len ≠ 0) (hlarge : len.toNat ≤ maxChunkSize)
    (hnonce : nonce.length = nonceSize) (hsealed : sealed.length = len.toNat + A.overhead)
    (hopen : A.openText nonce sealed (chunkAAD index) = some plain)
    (h : src.contents = putUint32 len ++ (nonce ++ (sealed ++ tail))) :
    ∃ rest, readRecord A src index = .chunk plain rest ∧ rest.contents = tail := by
  obtain ⟨rest₁, hread₁, hrest₁⟩ := readExact_of_append h
  obtain ⟨rest₂, hread₂, hrest₂⟩ := readExact_of_append hrest₁
  obtain ⟨rest₃, hread₃, hrest₃⟩ := readExact_of_append hrest₂
  rw [length_putUint32] at hread₁
  rw [hnonce] at hread₂
  rw [hsealed] at hread₃
  refine ⟨rest₃, ?_, hrest₃⟩
  simp only [readRecord, hread₁, uint32_putUint32, if_neg hzero, if_neg (not_lt.mpr hlarge), hread₂,
    hread₃, hopen]

theorem readRecord_footer (hA : A.Lawful) (count : ℕ) {src : Source}
    (h : src.contents = footerRecord (footerSeal A E count)) :
    readRecord A src (UInt64.ofNat count) = .stop none := by
  have hsealed : (footerSeal A E count).sealed.length = 8 + A.overhead := by
    rw [footerSeal, hA.length_sealText, length_putUint64]
  apply readRecord_stop_of_open (E.length_nonce count) hsealed (hA.openText_sealText _ _ _)
    (uint64_putUint64 _) (h.trans _)
  · exact []
  · rw [List.append_nil, footerRecord, List.append_assoc]
    rfl

theorem toNat_length {c : Bytes} (hle : c.length ≤ maxChunkSize) :
    (UInt32.ofNat c.length).toNat = c.length := by
  have hsmall : maxChunkSize < 2 ^ 32 := Nat.pow_lt_pow_right (by omega) (by omega)
  rw [UInt32.toNat_ofNat', Nat.mod_eq_of_lt (by omega)]

/-- A record's length field is not the footer's marker. -/
theorem length_field_ne_zero {c : Bytes} (hne : c ≠ []) (hle : c.length ≤ maxChunkSize) :
    UInt32.ofNat c.length ≠ 0 := by
  intro h
  have hzero := congrArg UInt32.toNat h
  rw [toNat_length hle] at hzero
  exact hne (List.length_eq_zero_iff.mp hzero)

theorem readRecord_data (hA : A.Lawful) (i : ℕ) {c : Bytes} (hne : c ≠ [])
    (hle : c.length ≤ maxChunkSize) {src : Source} {tail : Bytes}
    (h : src.contents = dataRecord (dataSeal A E i c) ++ tail) :
    ∃ rest, readRecord A src (UInt64.ofNat i) = .chunk c rest ∧ rest.contents = tail := by
  have hlen : (UInt32.ofNat c.length).toNat = c.length := toNat_length hle
  have hsealed : (dataSeal A E i c).sealed.length = (UInt32.ofNat c.length).toNat + A.overhead := by
    rw [hlen]
    exact hA.length_sealText _ _ _
  rw [dataRecord, List.append_assoc, List.append_assoc] at h
  exact readRecord_chunk_of_open (length_field_ne_zero hne hle) (hlen.trans_le hle)
    (E.length_nonce i) hsealed (hA.openText_sealText _ _ _) h

/-- Record by record, the loop writes the chunks and stops at the footer. -/
theorem decryptLoop_of (hA : A.Lawful) (written : Bytes) (i : ℕ) (cs : List Bytes)
    (hcs : ∀ c ∈ cs, c ≠ [] ∧ c.length ≤ maxChunkSize) (src : Source)
    (h : src.contents = body A E i cs) :
    decryptLoop A ⟨written, none⟩ src (UInt64.ofNat i) = (⟨written ++ cs.flatten, none⟩, none) := by
  induction cs generalizing written i src with
  | nil =>
    rw [body_nil] at h
    rw [decryptLoop_stop (readRecord_footer hA i h), List.flatten_nil, List.append_nil]
  | cons c cs ih =>
    obtain ⟨hne, hle⟩ := hcs c List.mem_cons_self
    rw [body_cons] at h
    obtain ⟨rest, hread, hrest⟩ := readRecord_data hA i hne hle h
    have hindex : UInt64.ofNat i + 1 = UInt64.ofNat (i + 1) := by simp
    rw [decryptLoop_chunk hread, StreamWriter.write_of_none rfl]
    simp only [hindex, ih _ _ (fun d hd => hcs d (List.mem_cons_of_mem _ hd)) rest hrest,
      List.flatten_cons, List.append_assoc]

end

/-! ## The whole stream -/

theorem encryptStream_of (P : Primitives) (E : Entropy) (src : Source) (hfault : src.fault = none)
    {passphrase : Bytes} (hpass : passphrase ≠ []) :
    let A := newAEAD P passphrase E.salt
    let cs := chunks src.contents
    encryptStream P E StreamWriter.buffer src passphrase =
      (.of (header E.salt ++ body A E 0 cs) (dataSeals A E 0 cs ++ [footerSeal A E cs.length]),
        none) := by
  intro A cs
  have hheader : writeAll ⟨StreamWriter.buffer, []⟩ [("header", header E.salt)] =
      (.of (header E.salt) [], none) := by
    have h := writeAll_of [] [] [("header", header E.salt)]
    simpa [Sink.of, StreamWriter.buffer] using h
  have hloop := encryptLoop_of A E (header E.salt) [] src hfault
  simp only [encryptStream, if_neg hpass, hheader]
  simpa using hloop

/-- A stream that begins with the header is decrypted from there on. -/
theorem decryptStream_of (P : Primitives) (dst : Dest) {src : Source} {salt tail : Bytes}
    (hsalt : salt.length = saltSize) (h : src.contents = header salt ++ tail) {passphrase : Bytes}
    (hpass : passphrase ≠ []) :
    ∃ rest : Source, rest.contents = tail ∧
      decryptStream P dst src passphrase = decryptLoop (newAEAD P passphrase salt) dst rest 0 := by
  have hlen : (header salt).length = headerSize := by
    simp [header, headerSize, hsalt, Nat.add_assoc, Nat.add_comm saltSize]
  obtain ⟨rest, hread, hrest⟩ := readExact_of_append h
  rw [hlen] at hread
  refine ⟨rest, hrest, ?_⟩
  have hmagic : (header salt).take magic.length = magic := by simp [header]
  have hversion : (header salt)[magic.length]? = some version := by simp [header]
  have hdrop : (header salt).drop (magic.length + 1) = salt := by simp [header, magic]
  simp only [decryptStream, if_neg hpass, hread, hmagic, hversion, hdrop, ne_eq, not_true_eq_false,
    if_false]

/-- What was encrypted is decrypted, whatever sources the bytes come from. -/
theorem decryptStream_of_written (P : Primitives) (E : Entropy) {passphrase : Bytes}
    (hpass : passphrase ≠ []) (hA : (newAEAD P passphrase E.salt).Lawful) {src : Source}
    (hsrc : src.fault = none) {env : Source} (henv : env.contents =
      (encryptStream P E StreamWriter.buffer src passphrase).1.dst.written) :
    decryptStream P StreamWriter.buffer env passphrase = (⟨src.contents, none⟩, none) := by
  rw [encryptStream_of P E src hsrc hpass] at henv
  have hcontents : env.contents =
      header E.salt ++ body (newAEAD P passphrase E.salt) E 0 (chunks src.contents) := henv
  obtain ⟨rest, hrest, hdec⟩ := decryptStream_of P StreamWriter.buffer E.length_salt hcontents hpass
  have hloop := decryptLoop_of hA [] 0 (chunks src.contents) (fun c hc => length_of_mem_chunks hc)
    rest hrest
  rw [hdec]
  simpa [StreamWriter.buffer, chunks, flatten_chunksOf] using hloop

theorem getElem_chunks (plain : Bytes) (i : ℕ) (h : i < (chunks plain).length) :
    (chunks plain)[i] = (plain.drop (i * maxChunkSize)).take maxChunkSize := by
  have hget := getElem_chunksOf (maxChunkSize - 1) plain i h
  rwa [Nat.sub_add_cancel maxChunkSize_pos] at hget

/-- For any plaintext, nonempty passphrase, salt and nonces, and however the two
sources cut their bytes: the encryption succeeds, its output decrypts to the
plaintext, and it is the header, one record for each chunk, numbered from 0,
with a length field other than 0, and the footer with the number of chunks. -/
theorem decryptStream_encryptStream (P : Primitives) (E : Entropy) {passphrase : Bytes}
    (hpass : passphrase ≠ []) (hA : (newAEAD P passphrase E.salt).Lawful) (src : Source)
    (hsrc : src.fault = none) (env : Source)
    (henv : env.contents =
      (encryptStream P E StreamWriter.buffer src passphrase).1.dst.written) :
    let A := newAEAD P passphrase E.salt
    let plain := src.contents
    let count := (plain.length + (maxChunkSize - 1)) / maxChunkSize
    (encryptStream P E StreamWriter.buffer src passphrase).2 = none ∧
    decryptStream P StreamWriter.buffer env passphrase = (⟨plain, none⟩, none) ∧
    ∃ records : List Bytes, records.length = count ∧
      env.contents = header E.salt ++ records.flatten ++ (putUint32 0 ++ E.nonce count ++
        A.sealText (E.nonce count) (putUint64 (UInt64.ofNat count)) footerAAD) ∧
      ∀ i (h : i < records.length),
        let chunk := (plain.drop (i * maxChunkSize)).take maxChunkSize
        UInt32.ofNat chunk.length ≠ 0 ∧
        records[i] = putUint32 (UInt32.ofNat chunk.length) ++ E.nonce i ++
          A.sealText (E.nonce i) chunk (chunkAAD (UInt64.ofNat i)) := by
  intro A plain count
  have hdec := decryptStream_of_written P E hpass hA hsrc henv
  have henc := encryptStream_of P E src hsrc hpass
  have hcount : (chunks plain).length = count := length_chunks plain
  rw [henc] at henv ⊢
  have hcontents : env.contents = header E.salt ++ body A E 0 (chunks plain) := henv
  refine ⟨rfl, hdec, (dataSeals A E 0 (chunks plain)).map dataRecord, ?_, ?_, ?_⟩
  · rw [List.length_map, length_dataSeals, hcount]
  · rw [hcontents, body, Nat.zero_add, hcount, List.append_assoc]
    rfl
  · intro i hi chunk
    have hi' : i < (chunks plain).length := by simpa using hi
    have hchunk : (chunks plain)[i] = chunk := getElem_chunks plain i hi'
    obtain ⟨hne, hle⟩ := length_of_mem_chunks (List.getElem_mem hi')
    rw [hchunk] at hne hle
    refine ⟨length_field_ne_zero hne hle, ?_⟩
    rw [List.getElem_map, getElem_dataSeals A E 0 _ i _ hi', Nat.zero_add, hchunk]
    rfl

/-! ## A cipher with a checksum -/

/-- The text in the clear and sixteen copies of a checksum of all three inputs. -/
def checksumTag (nonce plain aad : Bytes) : Bytes :=
  List.replicate 16 ((nonce ++ plain ++ aad).foldl (fun sum b => sum * 31 + b) 7)

def checksumCipher : AEAD where
  overhead := 16
  sealText nonce plain aad := plain ++ checksumTag nonce plain aad
  openText nonce sealed aad :=
    let plain := sealed.take (sealed.length - 16)
    if sealed = plain ++ checksumTag nonce plain aad then some plain else none

theorem checksumCipher_lawful : checksumCipher.Lawful where
  openText_sealText nonce plain aad := by
    have htake : (plain ++ checksumTag nonce plain aad).take
        ((plain ++ checksumTag nonce plain aad).length - 16) = plain := by
      simp [checksumTag]
    simp only [checksumCipher, htake, if_true]
  length_sealText nonce plain aad := by simp [checksumCipher, checksumTag]

def checksumPrimitives : Primitives where
  idKey passphrase salt := ⟨((passphrase ++ salt).takeD keySize 0), List.takeD_length _ _ _⟩
  newGCM _ := checksumCipher

def zeroEntropy : Entropy where
  salt := List.replicate saltSize 0
  nonce i := List.replicate nonceSize (UInt8.ofNat i)
  length_salt := List.length_replicate
  length_nonce _ := List.length_replicate

/-- Three bytes that arrive in four reads. -/
def slowSource : Source := ⟨[[1], [], [2], [3]], true, none⟩

/-- The envelope is read back however it arrives; here in one burst. -/
theorem slowSource_round_trip :
    decryptStream checksumPrimitives StreamWriter.buffer
      (StreamReader.ofList (encryptStream checksumPrimitives zeroEntropy StreamWriter.buffer
        slowSource [0x70]).1.dst.written) [0x70] = (⟨[1, 2, 3], none⟩, none) :=
  (decryptStream_encryptStream checksumPrimitives zeroEntropy (by decide) checksumCipher_lawful
    slowSource rfl _ (StreamReader.contents_ofList _)).2.1

end NetBerth.BackupCrypto
