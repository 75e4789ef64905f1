import NetBerth.BackupIntegrity

/-!
# What the decoder accepts

An envelope is a header, records that open one after the other under their
indices, and a footer that opens to their number. The decoder is content with an
envelope and with whatever follows one: it returns at the footer and does not look
whether the stream ends there.

Under an ideal cipher the one envelope under a passphrase is the one that was
written, so the inputs that are accepted are this one and its extensions.
-/
namespace NetBerth.BackupCrypto
open ByteStream

/-- What follows a header, from the record with some index on, and the text in it. -/
inductive Records (A : AEAD) : UInt64 → Bytes → Bytes → Prop
  | footer {index : UInt64} {nonce sealed plain : Bytes} : nonce.length = nonceSize →
      sealed.length = 8 + A.overhead → A.openText nonce sealed footerAAD = some plain →
      uint64 plain = index → Records A index (putUint32 0 ++ (nonce ++ sealed)) []
  | data {index : UInt64} {len : UInt32} {nonce sealed plain rest text : Bytes} : len ≠ 0 →
      len.toNat ≤ maxChunkSize → nonce.length = nonceSize →
      sealed.length = len.toNat + A.overhead →
      A.openText nonce sealed (chunkAAD index) = some plain → Records A (index + 1) rest text →
      Records A index (putUint32 len ++ (nonce ++ (sealed ++ rest))) (plain ++ text)

/-- One header, its records and one footer, and nothing else. -/
def Envelope (P : Primitives) (passphrase e text : Bytes) : Prop :=
  ∃ salt records, salt.length = saltSize ∧ e = header salt ++ records ∧
    Records (newAEAD P passphrase salt) 0 records text

/-! ## The decoder and the envelopes -/

theorem putUint32_uint32 {bytes : Bytes} (h : bytes.length = 4) : putUint32 (uint32 bytes) = bytes := by
  have hlt := getBE_lt bytes
  rw [h] at hlt
  rw [uint32, List.take_of_length_le h.le, putUint32, UInt32.toNat_ofNat',
    Nat.mod_eq_of_lt (hlt.trans_eq (by norm_num)), ← h, putBE_getBE]

/-- The bytes an exact read takes are the next of the stream. -/
theorem readExact_split {src rest : Source} {n : ℕ} {bytes : Bytes}
    (h : readExact src n = some (bytes, rest)) :
    src.contents = bytes ++ rest.contents ∧ bytes.length = n := by
  obtain ⟨hle, rfl, hrest⟩ := readExact_eq_some h
  rw [hrest, List.take_append_drop]
  exact ⟨rfl, List.length_take_of_le hle⟩

section
variable {A : AEAD} {src rest : Source} {index : UInt64} {plain : Bytes}

theorem readFooter_split (h : readFooter A src index = none) : ∃ nonce sealed plain extra,
    src.contents = nonce ++ (sealed ++ extra) ∧ nonce.length = nonceSize ∧
      sealed.length = 8 + A.overhead ∧ A.openText nonce sealed footerAAD = some plain ∧
      uint64 plain = index := by
  unfold readFooter at h
  split at h
  · cases h
  next nonce src₁ h₁ =>
    split at h
    · cases h
    next sealed src₂ h₂ =>
      split at h
      · cases h
      next plain hopen =>
        split_ifs at h with hcount
        obtain ⟨hsrc, hnonce⟩ := readExact_split h₁
        obtain ⟨hsrc₁, hsealed⟩ := readExact_split h₂
        exact ⟨nonce, sealed, plain, src₂.contents, by rw [hsrc, hsrc₁], hnonce, hsealed, hopen,
          hcount⟩

/-- A round that goes on has taken one record. -/
theorem readRecord_split (h : readRecord A src index = .chunk plain rest) :
    ∃ len nonce sealed,
      src.contents = putUint32 len ++ (nonce ++ (sealed ++ rest.contents)) ∧ len ≠ 0 ∧
        len.toNat ≤ maxChunkSize ∧ nonce.length = nonceSize ∧
        sealed.length = len.toNat + A.overhead ∧
        A.openText nonce sealed (chunkAAD index) = some plain := by
  unfold readRecord at h
  split at h
  · cases h
  next lenBuf src₁ h₁ =>
    dsimp only at h
    split_ifs at h with hzero hlarge
    split at h
    · cases h
    next nonce src₂ h₂ =>
      split at h
      · cases h
      next sealed src₃ h₃ =>
        split at h
        · cases h
        next text hopen =>
          cases h
          obtain ⟨hsrc, hlen⟩ := readExact_split h₁
          obtain ⟨hsrc₁, hnonce⟩ := readExact_split h₂
          obtain ⟨hsrc₂, hsealed⟩ := readExact_split h₃
          refine ⟨uint32 lenBuf, nonce, sealed, ?_, hzero, not_lt.mp hlarge, hnonce, hsealed, hopen⟩
          rw [putUint32_uint32 hlen, hsrc, hsrc₁, hsrc₂]

/-- A round that ends without an error has found the footer. -/
theorem readRecord_stop_split (h : readRecord A src index = .stop none) :
    ∃ extra records, src.contents = records ++ extra ∧ Records A index records [] := by
  unfold readRecord at h
  split at h
  · cases h
  next lenBuf src₁ h₁ =>
    dsimp only at h
    split_ifs at h with hzero hlarge
    · obtain ⟨nonce, sealed, plain, extra, hsrc₁, hnonce, hsealed, hopen, hcount⟩ :=
        readFooter_split (Round.stop.inj h)
      obtain ⟨hsrc, hlen⟩ := readExact_split h₁
      refine ⟨extra, _, ?_, .footer hnonce hsealed hopen hcount⟩
      rw [hsrc, hsrc₁, ← hzero, putUint32_uint32 hlen, List.append_assoc, List.append_assoc]
    · cases h
    · split at h
      · cases h
      · split at h
        · cases h
        · split at h <;> cases h

/-- The loop is content only with records and a footer, and has then written their text. -/
theorem records_of_decryptLoop (dst : Dest) (h : (decryptLoop A dst src index).2 = none) :
    ∃ extra records text, src.contents = records ++ extra ∧ Records A index records text ∧
      (decryptLoop A dst src index).1.written = dst.written ++ text := by
  induction hn : src.contents.length using Nat.strong_induction_on
    generalizing dst src index with
  | _ n ih =>
    subst hn
    cases hread : readRecord A src index with
    | stop err =>
      rw [decryptLoop_stop hread] at h ⊢
      obtain rfl : err = none := h
      obtain ⟨extra, records, hsrc, hrecords⟩ := readRecord_stop_split hread
      exact ⟨extra, records, [], hsrc, hrecords, (List.append_nil _).symm⟩
    | chunk plain rest =>
      obtain ⟨hdecr, -⟩ := readRecord_eq_chunk hread
      obtain ⟨len, nonce, sealed, hsrc, hzero, hlarge, hnonce, hsealed, hopen⟩ :=
        readRecord_split hread
      have hwritten := dst.write_cases plain
      rw [decryptLoop_chunk hread] at h ⊢
      rcases hwrite : dst.write plain with ⟨dst', _ | e⟩
      · rw [hwrite] at h hwritten
        obtain ⟨-, hdst'⟩ | ⟨e, he, -⟩ := hwritten
        · obtain ⟨extra, records, text, hrest, hrecords, hout⟩ := ih _ hdecr dst' h rfl
          refine ⟨extra, _, _, ?_, .data hzero hlarge hnonce hsealed hopen hrecords, ?_⟩
          · rw [hsrc, hrest]
            simp only [List.append_assoc]
          · rw [hout, hdst', List.append_assoc]
        · cases he
      · rw [hwrite] at h
        cases h

/-- Records and a footer are decoded, whatever follows them. -/
theorem decryptLoop_of_records {records text : Bytes} (h : Records A index records text)
    (dst : Dest) (hdst : dst.room = none) {extra : Bytes} (hsrc : src.contents = records ++ extra) :
    decryptLoop A dst src index = (⟨dst.written ++ text, none⟩, none) := by
  induction h generalizing dst src with
  | @footer index nonce sealed plain hnonce hsealed hopen hcount =>
    rw [List.append_assoc, List.append_assoc] at hsrc
    rw [decryptLoop_stop (readRecord_stop_of_open hnonce hsealed hopen hcount hsrc), List.append_nil,
      ← hdst]
  | @data index len nonce sealed plain rest text hzero hlarge hnonce hsealed hopen _ ih =>
    simp only [List.append_assoc] at hsrc
    obtain ⟨rest', hchunk, hrest'⟩ :=
      readRecord_chunk_of_open hzero hlarge hnonce hsealed hopen hsrc
    rw [decryptLoop_chunk hchunk, StreamWriter.write_of_none hdst]
    dsimp only
    rw [ih { dst with written := dst.written ++ plain } hdst hrest', List.append_assoc]

end

/-- No row of records and footer is a proper prefix of another. -/
theorem Records.prefix_free {A : AEAD} {index : UInt64} {records records' text text' x y : Bytes}
    (h : Records A index records text) (h' : Records A index records' text')
    (heq : records ++ x = records' ++ y) : records = records' := by
  have hnumber {m n : UInt32} {u v : Bytes} (h : putUint32 m ++ u = putUint32 n ++ v) :
      m = n ∧ u = v := by
    obtain ⟨hm, hrest⟩ := List.append_inj h (by rw [length_putUint32, length_putUint32])
    exact ⟨by rw [← uint32_putUint32 m, hm, uint32_putUint32], hrest⟩
  induction h generalizing records' text' with
  | footer hnonce hsealed hopen hcount =>
    cases h' with
    | footer hnonce' hsealed' hopen' hcount' =>
      simp only [List.append_assoc] at heq
      obtain ⟨-, htail⟩ := hnumber heq
      obtain ⟨hsame, htail'⟩ := List.append_inj htail (by rw [hnonce, hnonce'])
      obtain ⟨hsame', -⟩ := List.append_inj htail' (by rw [hsealed, hsealed'])
      rw [hsame, hsame']
    | data hzero' =>
      rw [List.append_assoc, List.append_assoc] at heq
      exact absurd (hnumber heq).1.symm hzero'
  | data hzero hlarge hnonce hsealed hopen hrest ih =>
    cases h' with
    | footer =>
      rw [List.append_assoc, List.append_assoc] at heq
      exact absurd (hnumber heq).1 hzero
    | data hzero' hlarge' hnonce' hsealed' hopen' hrest' =>
      simp only [List.append_assoc] at heq
      obtain ⟨rfl, htail⟩ := hnumber heq
      obtain ⟨hsame, htail'⟩ := List.append_inj htail (by rw [hnonce, hnonce'])
      obtain ⟨hsame', htail''⟩ := List.append_inj htail' (by rw [hsealed, hsealed'])
      rw [hsame, hsame', ih hrest' htail'']

section
variable {P : Primitives} {passphrase : Bytes}

theorem length_header {salt : Bytes} (h : salt.length = saltSize) :
    (header salt).length = headerSize := by
  simp [header, headerSize, h, Nat.add_assoc, Nat.add_comm saltSize]

theorem Envelope.eq_of_append {e e' text text' x y : Bytes} (h : Envelope P passphrase e text)
    (h' : Envelope P passphrase e' text') (heq : e ++ x = e' ++ y) : e = e' := by
  obtain ⟨salt, records, hsalt, rfl, hrecords⟩ := h
  obtain ⟨salt', records', hsalt', rfl, hrecords'⟩ := h'
  rw [List.append_assoc, List.append_assoc] at heq
  obtain ⟨hheader, htail⟩ :=
    List.append_inj heq (by rw [length_header hsalt, length_header hsalt'])
  obtain rfl : salt = salt' := List.append_cancel_left hheader
  rw [hrecords.prefix_free hrecords' htail]

/-- The decoder is content only with an envelope and what follows it, and has then written
the text of the envelope. -/
theorem envelope_of_decryptStream {dst : Dest} {src : Source}
    (h : (decryptStream P dst src passphrase).2 = none) :
    passphrase ≠ [] ∧ ∃ env extra text, src.contents = env ++ extra ∧
      Envelope P passphrase env text ∧
      (decryptStream P dst src passphrase).1.written = dst.written ++ text := by
  unfold decryptStream at h ⊢
  split_ifs at h ⊢ with hpass
  refine ⟨hpass, ?_⟩
  split at h
  · cases h
  next head rest hread =>
    obtain ⟨hsrc, hlen⟩ := readExact_split hread
    split_ifs at h ⊢ with hmagic hversion
    obtain ⟨extra, records, text, hrest, hrecords, hout⟩ := records_of_decryptLoop dst h
    refine ⟨head ++ records, extra, text, ?_,
      ⟨head.drop (magic.length + 1), records, ?_, ?_, hrecords⟩, hout⟩
    · rw [hsrc, hrest, List.append_assoc]
    · rw [List.length_drop, hlen]
      rfl
    · have hhead : head = magic ++ version :: head.drop (magic.length + 1) := by
        have hget := not_not.mp hversion
        have hlt : magic.length < head.length := by
          rw [hlen]
          decide
        rw [List.getElem?_eq_getElem hlt] at hget
        rw [← Option.some.inj hget, ← List.drop_eq_getElem_cons hlt]
        nth_rewrite 1 [← not_not.mp hmagic]
        exact (List.take_append_drop _ _).symm
      nth_rewrite 1 [hhead]
      simp [header]

theorem decryptStream_of_envelope {env extra text : Bytes} (h : Envelope P passphrase env text)
    (hpass : passphrase ≠ []) {dst : Dest} (hdst : dst.room = none) {src : Source}
    (hsrc : src.contents = env ++ extra) :
    decryptStream P dst src passphrase = (⟨dst.written ++ text, none⟩, none) := by
  obtain ⟨salt, records, hsalt, rfl, hrecords⟩ := h
  rw [List.append_assoc] at hsrc
  obtain ⟨rest, hrest, hdec⟩ := decryptStream_of P dst hsalt hsrc hpass
  rw [hdec]
  exact decryptLoop_of_records hrecords dst hdst hrest

/-- What was decrypted without an error from part of an input is what all of it decrypts to. -/
theorem decrypt_of_decryptStream {dst : Dest} (hdst : dst.written = []) {src : Source}
    (h : (decryptStream P dst src passphrase).2 = none) {e : Bytes} (hbegins : src.contents <+: e) :
    decrypt P e passphrase = .ok (decryptStream P dst src passphrase).1.written := by
  obtain ⟨hpass, env, extra, text, hsplit, henv, hout⟩ := envelope_of_decryptStream h
  obtain ⟨rest, rfl⟩ := hbegins
  have hall : (StreamReader.ofList (src.contents ++ rest) : Source).contents =
      env ++ (extra ++ rest) := by
    rw [StreamReader.contents_ofList, hsplit, List.append_assoc]
  rw [decrypt, decryptStream_of_envelope henv hpass rfl hall, hout, hdst]
  rfl

end

/-! ## The envelope that was written -/

/-- The cipher is ideal with respect to one encryption: its key opens the calls of the
encryption and nothing else, and the key of any other salt opens nothing. -/
structure IdealEncryption (P : Primitives) (E : Entropy) (passphrase : Bytes) (src : Source) :
    Prop where
  passphrase_ne : passphrase ≠ []
  fault : src.fault = none
  ideal : (newAEAD P passphrase E.salt).Ideal
    (encryptStream P E StreamWriter.buffer src passphrase).1.seals
  length_sealText (nonce plain aad : Bytes) : ((newAEAD P passphrase E.salt).sealText nonce plain
    aad).length = plain.length + (newAEAD P passphrase E.salt).overhead
  other (salt : Bytes) : salt.length = saltSize → salt ≠ E.salt → ∀ nonce sealed aad,
    (newAEAD P passphrase salt).openText nonce sealed aad = none
  count : (src.contents.length + (maxChunkSize - 1)) / maxChunkSize < 2 ^ 64 - 1

section
variable {A : AEAD} {E : Entropy} {cs : List Bytes}

theorem dataRecord_append (i : ℕ) (c tail : Bytes) : dataRecord (dataSeal A E i c) ++ tail =
    putUint32 (UInt32.ofNat c.length) ++ ((dataSeal A E i c).nonce ++
      ((dataSeal A E i c).sealed ++ tail)) := by
  rw [dataRecord, List.append_assoc, List.append_assoc]
  rfl

variable (hA : A.Ideal (envelopeCalls A E cs))
  (hlength : ∀ nonce plain aad, (A.sealText nonce plain aad).length = plain.length + A.overhead)
include hA hlength

/-- What was written is accepted. -/
theorem records_body (hcs : ∀ c ∈ cs, c ≠ [] ∧ c.length ≤ maxChunkSize) {i : ℕ}
    (hi : i ≤ cs.length) :
    Records A (UInt64.ofNat i) (body A E i (cs.drop i)) (cs.drop i).flatten := by
  induction hk : cs.length - i generalizing i with
  | zero =>
    obtain rfl : i = cs.length := by omega
    rw [List.drop_length, body_nil, footerRecord, List.append_assoc]
    refine .footer (E.length_nonce _) ?_ (hA.correct _ footerSeal_mem) (uint64_putUint64 _)
    rw [footerSeal, hlength, length_putUint64]
  | succ k ih =>
    have hlt : i < cs.length := by omega
    have hindex : UInt64.ofNat i + 1 = UInt64.ofNat (i + 1) := by simp
    obtain ⟨hne, hle⟩ := hcs cs[i] (List.getElem_mem hlt)
    rw [List.drop_eq_getElem_cons hlt, body_cons, dataRecord_append]
    refine .data (length_field_ne_zero hne hle) ((toNat_length hle).trans_le hle)
      (E.length_nonce _) ?_ (hA.correct _ (dataSeal_mem hlt)) ?_
    · rw [toNat_length hle]
      exact hlength _ _ _
    · rw [hindex]
      exact ih hlt (by omega)

/-- Nothing is accepted but what was written. -/
theorem body_of_records (hcount : cs.length < 2 ^ 64 - 1) {index : UInt64} {records text : Bytes}
    (h : Records A index records text) {i : ℕ} (hi : i ≤ cs.length) (hindex : index = UInt64.ofNat i) :
    records = body A E i (cs.drop i) := by
  induction h generalizing i with
  | @footer index nonce sealed plain hnonce hsealed hopen hnumber =>
    have hplain := open_footer hA hcount hopen
    obtain ⟨rfl, rfl⟩ := call_of_footer hA hcount hopen
    rw [hplain, uint64_putUint64, hindex] at hnumber
    obtain rfl : cs.length = i := ofNat_injective (by omega) (by omega) hnumber
    rw [List.drop_length, body_nil, footerRecord, List.append_assoc]
  | @data index len nonce sealed plain rest text hzero hlarge hnonce hsealed hopen hrest ih =>
    subst hindex
    obtain ⟨hlt, rfl, rfl⟩ := call_of_chunk hA hcount hi hopen
    have hnext : UInt64.ofNat i + 1 = UInt64.ofNat (i + 1) := by simp
    have hlen : len.toNat = (cs[i]).length := by
      have hwritten : (dataSeal A E i cs[i]).sealed.length = (cs[i]).length + A.overhead :=
        hlength _ _ _
      omega
    have hfield : len = UInt32.ofNat (cs[i]).length := by rw [← hlen, UInt32.ofNat_toNat]
    rw [List.drop_eq_getElem_cons hlt, body_cons, dataRecord_append, ih hlt hnext, ← hfield]

end

section
variable {P : Primitives} {E : Entropy} {passphrase : Bytes} {src : Source}

/-- Under an ideal cipher the one envelope is the one that was written. -/
theorem IdealEncryption.envelope_iff (h : IdealEncryption P E passphrase src) (env : Bytes) :
    (∃ text, Envelope P passphrase env text) ↔
      env = (encryptStream P E StreamWriter.buffer src passphrase).1.dst.written := by
  have hA := h.ideal
  have hcount := h.count
  rw [encryptStream_of P E src h.fault h.passphrase_ne] at hA ⊢
  rw [← length_chunks] at hcount
  constructor
  · rintro ⟨text, salt, records, hsalt, rfl, hrecords⟩
    by_cases hsame : salt = E.salt
    · subst hsame
      rw [body_of_records hA h.length_sealText hcount hrecords (Nat.zero_le _) rfl, List.drop_zero]
      rfl
    · have hnothing := h.other salt hsalt hsame
      cases hrecords with
      | footer _ _ hopen =>
        rw [hnothing] at hopen
        cases hopen
      | data _ _ _ _ hopen =>
        rw [hnothing] at hopen
        cases hopen
  · rintro rfl
    have hrecords := records_body hA h.length_sealText (fun c hc => length_of_mem_chunks hc)
      (Nat.zero_le _)
    rw [List.drop_zero] at hrecords
    exact ⟨_, E.salt, _, E.length_salt, rfl, hrecords⟩

end

/-- For any bytes: that nothing but an envelope is accepted holds unless the bytes are an
envelope with something behind it; and if the cipher is ideal, an input that differs from
the envelope that was written is refused unless it extends that envelope. -/
theorem decryptStream_canonical_iff (P : Primitives) (passphrase e : Bytes) :
    ((∀ dst src, src.contents = e → (decryptStream P dst src passphrase).2 = none →
        ∃ text, Envelope P passphrase e text) ↔
      (passphrase ≠ [] → ∀ env extra text, e = env ++ extra → Envelope P passphrase env text →
        extra = [])) ∧
    ∀ E src, IdealEncryption P E passphrase src →
      let written := (encryptStream P E StreamWriter.buffer src passphrase).1.dst.written
      e ≠ written →
        ((∀ dst src, src.contents = e → (decryptStream P dst src passphrase).2 ≠ none) ↔
          ¬written <+: e) := by
  constructor
  · constructor
    · intro hcanonical hpass env extra text he henv
      have hdec : decryptStream P StreamWriter.buffer (StreamReader.ofList e) passphrase = _ :=
        decryptStream_of_envelope henv hpass rfl ((StreamReader.contents_ofList e).trans he)
      obtain ⟨text', hall⟩ :=
        hcanonical _ _ (StreamReader.contents_ofList e) (congrArg Prod.snd hdec)
      have hsame : env = e := henv.eq_of_append hall (he.symm.trans (List.append_nil e).symm)
      rw [← hsame] at he
      exact List.self_eq_append_right.mp he
    · intro hnone dst src hsrc hdec
      obtain ⟨hpass, env, extra, text, hsplit, henv, -⟩ := envelope_of_decryptStream hdec
      obtain rfl := hnone hpass env extra text (hsrc.symm.trans hsplit) henv
      rw [List.append_nil] at hsplit
      exact ⟨text, (hsplit.symm.trans hsrc) ▸ henv⟩
  · intro E src hideal written hne
    obtain ⟨text, hwritten⟩ : ∃ text, Envelope P passphrase written text :=
      (hideal.envelope_iff written).mpr rfl
    constructor
    · rintro hrefused ⟨extra, he⟩
      have hdec : decryptStream P StreamWriter.buffer (StreamReader.ofList e) passphrase = _ :=
        decryptStream_of_envelope hwritten hideal.passphrase_ne rfl
          ((StreamReader.contents_ofList e).trans he.symm)
      exact hrefused StreamWriter.buffer (StreamReader.ofList e) (StreamReader.contents_ofList e)
        (congrArg Prod.snd hdec)
    · intro hbegins dst src' hsrc hdec
      obtain ⟨-, env, extra, text, hsplit, henv, -⟩ := envelope_of_decryptStream hdec
      refine hbegins ⟨extra, ?_⟩
      rw [← hsrc, hsplit, (hideal.envelope_iff env).mp ⟨text, henv⟩]

/-- The key of one salt opens the calls that seal the bytes 1, 2, 3; all others nothing. -/
def saltedPrimitives : Primitives where
  idKey _ salt := ⟨List.replicate keySize (if salt = zeroEntropy.salt then 0 else 1), by simp⟩
  newGCM key := vaultCipher (if key.val.head? = some 0 then vaultCalls else [])

theorem saltedPrimitives_ideal :
    IdealEncryption saltedPrimitives zeroEntropy [0x70] slowSource where
  passphrase_ne := by decide
  fault := rfl
  ideal := by
    have hchunks : chunks slowSource.contents = [[1, 2, 3]] :=
      chunks_of_short (by decide) (by norm_num [slowSource, StreamReader.contents, maxChunkSize])
    rw [encryptStream_of saltedPrimitives zeroEntropy slowSource rfl (by decide), hchunks]
    exact vaultCipher_ideal
  length_sealText nonce plain aad := by simp [newAEAD, saltedPrimitives, vaultCipher, checksumTag]
  other salt _ hsalt nonce sealed aad := by
    have hkey : (saltedPrimitives.idKey [0x70] salt).val.head? = some 1 := by
      simp [saltedPrimitives, if_neg hsalt, keySize]
    have hcipher : newAEAD saltedPrimitives [0x70] salt = vaultCipher [] :=
      congrArg vaultCipher (if_neg (by rw [hkey]; decide))
    rw [hcipher]
    rfl
  count := by norm_num [slowSource, StreamReader.contents, maxChunkSize]

/-- A byte behind the footer is accepted. -/
theorem trailing_byte_accepted :
    let written := (encryptStream saltedPrimitives zeroEntropy StreamWriter.buffer slowSource
      [0x70]).1.dst.written
    (decryptStream saltedPrimitives StreamWriter.buffer (StreamReader.ofList (written ++ [0]))
        [0x70]).2 = none ∧
      ¬∃ text, Envelope saltedPrimitives [0x70] (written ++ [0]) text := by
  intro written
  obtain ⟨text, henv⟩ : ∃ text, Envelope saltedPrimitives [0x70] written text :=
    (saltedPrimitives_ideal.envelope_iff written).mpr rfl
  have hdec : decryptStream saltedPrimitives StreamWriter.buffer
      (StreamReader.ofList (written ++ [0])) [0x70] = _ :=
    decryptStream_of_envelope henv (by decide) rfl (StreamReader.contents_ofList _)
  refine ⟨congrArg Prod.snd hdec, fun hall => ?_⟩
  have hsame : written ++ [0] = written := (saltedPrimitives_ideal.envelope_iff _).mp hall
  have hlen := congrArg List.length hsame
  rw [List.length_append] at hlen
  exact absurd hlen (Nat.succ_ne_self _)

end NetBerth.BackupCrypto
