import NetBerth.BackupRoundTrip

/-!
# What survives tampering

Under an ideal cipher nothing opens but what one encryption has sealed. The
additional data name the index of a chunk, and the footer's is no chunk's, so
the record that opens in round `i` holds chunk `i` and the footer only opens as
the footer. Whatever bytes follow the header, the decoder has then written the
chunks up to its index at any time, and it is content only with the count the
footer was sealed with.
-/
namespace NetBerth.BackupCrypto
open ByteStream

/-- Nothing opens but the calls in the list, and these give their text. -/
structure AEAD.Ideal (A : AEAD) (calls : List SealCall) : Prop where
  authentic (nonce sealed aad : Bytes) : (A.openText nonce sealed aad).isSome →
    ∃ call ∈ calls, call.nonce = nonce ∧ call.sealed = sealed ∧ call.aad = aad
  correct (call : SealCall) : call ∈ calls →
    A.openText call.nonce call.sealed call.aad = some call.plain

/-- The calls of one encryption. -/
def envelopeCalls (A : AEAD) (E : Entropy) (cs : List Bytes) : List SealCall :=
  dataSeals A E 0 cs ++ [footerSeal A E cs.length]

theorem mem_envelopeCalls {A : AEAD} {E : Entropy} {cs : List Bytes} {call : SealCall}
    (h : call ∈ envelopeCalls A E cs) :
    (∃ k, ∃ hk : k < cs.length, call = dataSeal A E k cs[k]) ∨ call = footerSeal A E cs.length := by
  rcases List.mem_append.mp h with h | h
  · obtain ⟨k, hk, rfl⟩ := List.mem_iff_getElem.mp h
    have hk' : k < cs.length := by simpa using hk
    refine .inl ⟨k, hk', ?_⟩
    rw [getElem_dataSeals A E 0 cs k hk hk', Nat.zero_add]
  · exact .inr (List.mem_singleton.mp h)

theorem dataSeal_mem {A : AEAD} {E : Entropy} {cs : List Bytes} {i : ℕ} (h : i < cs.length) :
    dataSeal A E i cs[i] ∈ envelopeCalls A E cs := by
  have hget := getElem_dataSeals A E 0 cs i (by rwa [length_dataSeals]) h
  rw [Nat.zero_add] at hget
  rw [← hget]
  exact List.mem_append_left _ (List.getElem_mem _)

theorem footerSeal_mem {A : AEAD} {E : Entropy} {cs : List Bytes} :
    footerSeal A E cs.length ∈ envelopeCalls A E cs :=
  List.mem_append_right _ List.mem_cons_self

/-! ## Indices -/

theorem ofNat_injective {m n : ℕ} (hm : m < 2 ^ 64) (hn : n < 2 ^ 64)
    (h : UInt64.ofNat m = UInt64.ofNat n) : m = n := by
  have hnat := congrArg UInt64.toNat h
  rwa [UInt64.toNat_ofNat', UInt64.toNat_ofNat', Nat.mod_eq_of_lt hm, Nat.mod_eq_of_lt hn] at hnat

/-- The footer's additional data are those of no chunk. -/
theorem chunkAAD_ne_footerAAD {i : ℕ} (hi : i < 2 ^ 64 - 1) :
    chunkAAD (UInt64.ofNat i) ≠ footerAAD := by
  intro h
  have hindex : UInt64.ofNat i = UInt64.ofNat (2 ^ 64 - 1) := chunkAAD_injective h
  have heq := ofNat_injective (by omega) (by omega) hindex
  omega

section
variable {A : AEAD} {E : Entropy} {cs : List Bytes} (hA : A.Ideal (envelopeCalls A E cs))
  (hcount : cs.length < 2 ^ 64 - 1)
include hA hcount

/-- What opens under the index `i` is the call that sealed chunk `i`. -/
theorem call_of_chunk {i : ℕ} (hi : i ≤ cs.length) {nonce sealed plain : Bytes}
    (h : A.openText nonce sealed (chunkAAD (UInt64.ofNat i)) = some plain) :
    ∃ hi : i < cs.length, (dataSeal A E i cs[i]).nonce = nonce ∧
      (dataSeal A E i cs[i]).sealed = sealed := by
  obtain ⟨call, hcall, hnonce, hsealed, haad⟩ := hA.authentic nonce sealed _ (by rw [h]; rfl)
  rcases mem_envelopeCalls hcall with ⟨k, hk, rfl⟩ | rfl
  · have hindex : UInt64.ofNat k = UInt64.ofNat i := chunkAAD_injective haad
    obtain rfl : k = i := ofNat_injective (by omega) (by omega) hindex
    exact ⟨hk, hnonce, hsealed⟩
  · exact absurd haad.symm (chunkAAD_ne_footerAAD (by omega))

/-- What opens as the footer is the call that sealed it. -/
theorem call_of_footer {nonce sealed plain : Bytes}
    (h : A.openText nonce sealed footerAAD = some plain) :
    (footerSeal A E cs.length).nonce = nonce ∧ (footerSeal A E cs.length).sealed = sealed := by
  obtain ⟨call, hcall, hnonce, hsealed, haad⟩ := hA.authentic nonce sealed _ (by rw [h]; rfl)
  rcases mem_envelopeCalls hcall with ⟨k, hk, rfl⟩ | rfl
  · exact absurd haad (chunkAAD_ne_footerAAD (by omega))
  · exact ⟨hnonce, hsealed⟩

/-- A text that opens under the index `i` is chunk `i`. -/
theorem open_chunk {i : ℕ} (hi : i ≤ cs.length) {nonce sealed plain : Bytes}
    (h : A.openText nonce sealed (chunkAAD (UInt64.ofNat i)) = some plain) :
    ∃ hi : i < cs.length, plain = cs[i] := by
  obtain ⟨hlt, rfl, rfl⟩ := call_of_chunk hA hcount hi h
  have hcorrect := hA.correct _ (dataSeal_mem hlt)
  exact ⟨hlt, Option.some.inj (h.symm.trans hcorrect)⟩

/-- A text that opens as the footer holds the number of chunks. -/
theorem open_footer {nonce sealed plain : Bytes}
    (h : A.openText nonce sealed footerAAD = some plain) :
    plain = putUint64 (UInt64.ofNat cs.length) := by
  obtain ⟨rfl, rfl⟩ := call_of_footer hA hcount h
  exact Option.some.inj (h.symm.trans (hA.correct _ footerSeal_mem))

end

/-! ## Arbitrary input -/

theorem readFooter_eq_none {A : AEAD} {src : Source} {index : UInt64}
    (h : readFooter A src index = none) :
    ∃ nonce sealed plain, A.openText nonce sealed footerAAD = some plain ∧ uint64 plain = index := by
  unfold readFooter at h
  split at h
  · cases h
  · split at h
    · cases h
    · split at h
      · cases h
      next plain hopen =>
        split_ifs at h with hcount
        exact ⟨_, _, plain, hopen, hcount⟩

/-- The loop is content only with a footer that opens to its count. -/
theorem readRecord_eq_stop_none {A : AEAD} {src : Source} {index : UInt64}
    (h : readRecord A src index = .stop none) :
    ∃ nonce sealed plain, A.openText nonce sealed footerAAD = some plain ∧ uint64 plain = index := by
  unfold readRecord at h
  split at h
  · cases h
  · dsimp only at h
    split_ifs at h with hzero hlarge
    · exact readFooter_eq_none (Round.stop.inj h)
    · cases h
    · split at h
      · cases h
      · split at h
        · cases h
        · split at h <;> cases h

/-- From any bytes, with the first `i` chunks written: the loop ends with some
number of chunks written, and without an error only with all of them. -/
theorem decryptLoop_prefix {A : AEAD} {E : Entropy} {cs : List Bytes}
    (hA : A.Ideal (envelopeCalls A E cs)) (hcount : cs.length < 2 ^ 64 - 1) (dst : Dest)
    (src : Source) (i : ℕ) (hi : i ≤ cs.length) (hdst : dst.written = (cs.take i).flatten) :
    ∃ j ≤ cs.length,
      (decryptLoop A dst src (UInt64.ofNat i)).1.written = (cs.take j).flatten ∧
      ((decryptLoop A dst src (UInt64.ofNat i)).2 = none → j = cs.length) := by
  induction hn : src.contents.length using Nat.strong_induction_on generalizing dst src i with
  | _ n ih =>
    subst hn
    cases hread : readRecord A src (UInt64.ofNat i) with
    | stop err =>
      rw [decryptLoop_stop hread]
      refine ⟨i, hi, hdst, ?_⟩
      rintro rfl
      obtain ⟨nonce, sealed, plain, hopen, hindex⟩ := readRecord_eq_stop_none hread
      rw [open_footer hA hcount hopen, uint64_putUint64] at hindex
      exact (ofNat_injective (by omega) (by omega) hindex).symm
    | chunk plain rest =>
      obtain ⟨hdecr, nonce, sealed, hopen⟩ := readRecord_eq_chunk hread
      obtain ⟨hlt, rfl⟩ := open_chunk hA hcount hi hopen
      rw [decryptLoop_chunk hread]
      rcases hwrite : dst.write cs[i] with ⟨dst', _ | e⟩
      · have hcases := dst.write_cases cs[i]
        have hindex : UInt64.ofNat i + 1 = UInt64.ofNat (i + 1) := by simp
        rw [hwrite] at hcases
        have hdst' : dst'.written = (cs.take (i + 1)).flatten := by
          rcases hcases with ⟨-, hw⟩ | ⟨e, he, -⟩
          · rw [List.take_succ_eq_append_getElem hlt, List.flatten_append, ← hdst]
            simpa using hw
          · cases he
        rw [hindex]
        exact ih _ hdecr dst' rest (i + 1) hlt hdst' rfl
      · have hcases := dst.write_cases cs[i]
        rw [hwrite] at hcases
        refine ⟨i, hi, ?_, fun h => by cases h⟩
        rcases hcases with ⟨he, -⟩ | ⟨e', -, hw⟩
        · cases he
        · exact hw.trans hdst

/-- Whatever follows a header with the encryption's salt, from any source and
into any writer: what the decoder has written when it stops is a prefix of
whole chunks of the plaintext, and all of it if it returns no error. -/
theorem decryptStream_prefix (P : Primitives) (E : Entropy) (passphrase : Bytes) (src : Source)
    (hsrc : src.fault = none)
    (hA : (newAEAD P passphrase E.salt).Ideal
      (encryptStream P E StreamWriter.buffer src passphrase).1.seals)
    (hcount : (src.contents.length + (maxChunkSize - 1)) / maxChunkSize < 2 ^ 64 - 1)
    (dst : Dest) (hdst : dst.written = []) (input : Source)
    (hsalt : headerSize ≤ input.contents.length →
      (input.contents.drop (magic.length + 1)).take saltSize = E.salt) :
    ∃ j ≤ (src.contents.length + (maxChunkSize - 1)) / maxChunkSize,
      (decryptStream P dst input passphrase).1.written = src.contents.take (j * maxChunkSize) ∧
      ((decryptStream P dst input passphrase).2 = none →
        (decryptStream P dst input passphrase).1.written = src.contents) := by
  have hrefused : ∀ e, decryptStream P dst input passphrase = (dst, some e) →
      ∃ j ≤ (src.contents.length + (maxChunkSize - 1)) / maxChunkSize,
        (decryptStream P dst input passphrase).1.written = src.contents.take (j * maxChunkSize) ∧
        ((decryptStream P dst input passphrase).2 = none →
          (decryptStream P dst input passphrase).1.written = src.contents) := by
    intro e he
    rw [he]
    exact ⟨0, Nat.zero_le _, by simp [hdst], fun h => by cases h⟩
  by_cases hpass : passphrase = []
  · exact hrefused .emptyPassphrase (by simp only [decryptStream, if_pos hpass])
  cases hread : readExact input headerSize with
  | none => exact hrefused .invalidFormat (by simp only [decryptStream, if_neg hpass, hread])
  | some t =>
    obtain ⟨head, rest⟩ := t
    by_cases hmagic : head.take magic.length = magic
    case neg => exact hrefused .invalidFormat (by simp [decryptStream, hpass, hread, hmagic])
    by_cases hversion : head[magic.length]? = some version
    case neg =>
      exact hrefused .unsupportedVersion (by simp [decryptStream, hpass, hread, hmagic, hversion])
    obtain ⟨hle, hhead, -⟩ := readExact_eq_some hread
    have hkey : head.drop (magic.length + 1) = E.salt := by
      rw [hhead, List.drop_take, ← hsalt hle]
      rfl
    have hdec : decryptStream P dst input passphrase =
        decryptLoop (newAEAD P passphrase E.salt) dst rest (UInt64.ofNat 0) := by
      simp [decryptStream, hpass, hread, hmagic, hversion, hkey]
    rw [encryptStream_of P E src hsrc hpass] at hA
    rw [← length_chunks] at hcount ⊢
    obtain ⟨j, hj, hwritten, hdone⟩ :=
      decryptLoop_prefix hA hcount dst rest 0 (Nat.zero_le _) (by simp [hdst])
    rw [hdec]
    refine ⟨j, hj, by rw [hwritten, flatten_take_chunks], fun h => ?_⟩
    rw [hwritten, hdone h, List.take_length, chunks, flatten_chunksOf]

/-! ## A cipher that opens one list of calls -/

def vaultCipher (calls : List SealCall) : AEAD where
  overhead := 16
  sealText nonce plain aad := plain ++ checksumTag nonce plain aad
  openText nonce sealed aad :=
    (calls.find? fun c => c.nonce = nonce ∧ c.sealed = sealed ∧ c.aad = aad).map SealCall.plain

/-- The calls that seal the bytes 1, 2, 3. -/
def vaultCalls : List SealCall := envelopeCalls checksumCipher zeroEntropy [[1, 2, 3]]

def vaultPrimitives : Primitives where
  idKey := checksumPrimitives.idKey
  newGCM _ := vaultCipher vaultCalls

theorem vaultCipher_ideal : (vaultCipher vaultCalls).Ideal vaultCalls where
  authentic nonce sealed aad h := by
    simp only [vaultCipher, Option.isSome_map] at h
    obtain ⟨call, hcall⟩ := Option.isSome_iff_exists.mp h
    exact ⟨call, List.mem_of_find?_eq_some hcall, by simpa using List.find?_some hcall⟩
  correct := by decide +kernel

theorem seals_slowSource :
    (encryptStream vaultPrimitives zeroEntropy StreamWriter.buffer slowSource [0x70]).1.seals =
      vaultCalls := by
  have hchunks : chunks slowSource.contents = [[1, 2, 3]] :=
    chunks_of_short (by decide) (by norm_num [slowSource, StreamReader.contents, maxChunkSize])
  rw [encryptStream_of vaultPrimitives zeroEntropy slowSource rfl (by decide), hchunks]
  rfl

/-- An input that ends after the data record: three bytes are out, and the
missing footer is an error. -/
theorem truncated_prefix :
    let out := decryptStream vaultPrimitives StreamWriter.buffer (StreamReader.ofList
      (header zeroEntropy.salt ++ dataRecord (dataSeal checksumCipher zeroEntropy 0 [1, 2, 3])))
      [0x70]
    ∃ j ≤ (3 + (maxChunkSize - 1)) / maxChunkSize,
      out.1.written = [1, 2, 3].take (j * maxChunkSize) ∧
        (out.2 = none → out.1.written = [1, 2, 3]) :=
  decryptStream_prefix vaultPrimitives zeroEntropy [0x70] slowSource rfl
    (seals_slowSource ▸ vaultCipher_ideal)
    (by norm_num [slowSource, StreamReader.contents, maxChunkSize]) StreamWriter.buffer rfl _ (fun _ => by
      rw [StreamReader.contents_ofList]
      rfl)

end NetBerth.BackupCrypto
