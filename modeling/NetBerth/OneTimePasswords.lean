import NetBerth.TwoFactor

/-!
# One-time passwords

The secret is shown in Base32 and stored as it is shown, so each check decodes it again. What is
decoded are the bytes that were drawn, and the codes that are accepted are those of three time
steps. An authenticator whose clock is off by no more than the length of a time step is in one of
them.
-/
namespace NetBerth.OneTimePasswords
open TwoFactor ByteStream

/-! ## Digits of a number

The digits of a number to any base, the first one first, read back.
-/

theorem foldl_digits (b n k : ℕ) :
    ((List.range k).map fun i => n / b ^ (k - 1 - i) % b).foldl (fun n d => n * b + d) 0 =
      n % b ^ k := by
  induction k generalizing n with
  | zero => simp [Nat.mod_one]
  | succ k ih =>
    have hshift : (List.range k).map (fun i => n / b ^ (k + 1 - 1 - i) % b) =
        (List.range k).map fun i => n / b / b ^ (k - 1 - i) % b := by
      refine List.map_congr_left fun i hi => ?_
      have hi := List.mem_range.mp hi
      have hexp : k + 1 - 1 - i = k - 1 - i + 1 := by omega
      rw [hexp, pow_succ', Nat.div_div_eq_div_mul]
    have hlast : n / b ^ (k + 1 - 1 - k) % b = n % b := by simp
    rw [List.range_succ, List.map_append, List.foldl_append, hshift, ih]
    simp only [List.map_singleton, List.foldl_cons, List.foldl_nil, hlast]
    rw [pow_succ', Nat.mod_mul]
    ring

/-! ## Base32 -/

theorem base32Value_base32Char {n : ℕ} (h : n < 32) : base32Value (base32Char n) = some n := by
  have hall : ∀ m : Fin 32, base32Value (base32Char m) = some m.val := by decide
  exact hall ⟨n, h⟩

/-- A symbol is no line break, and it is written in upper case. -/
theorem base32Char_plain {n : ℕ} (h : n < 32) : base32Char n ≠ '\r' ∧ base32Char n ≠ '\n' ∧
    (base32Char n).toUpper = base32Char n := by
  have hall : ∀ m : Fin 32, base32Char m ≠ '\r' ∧ base32Char m ≠ '\n' ∧
    (base32Char m).toUpper = base32Char m := by decide
  exact hall ⟨n, h⟩

/-- The symbols of a group, as numbers. -/
def symbols (group : List UInt8) : List ℕ :=
  (List.range 8).map fun i => getBE group / 32 ^ (7 - i) % 32

theorem symbols_lt {group : List UInt8} {n : ℕ} (h : n ∈ symbols group) : n < 32 := by
  obtain ⟨i, -, rfl⟩ := List.mem_map.mp h
  exact Nat.mod_lt _ (by norm_num)

theorem base32Quantum_symbols {group : List UInt8} (h : group.length = 5) :
    base32Quantum (symbols group) = group := by
  have hlen : (symbols group).length = 8 := by simp [symbols]
  have hlt : getBE group < 32 ^ 8 := by
    have hbytes := getBE_lt group
    rw [h] at hbytes
    exact hbytes
  have hnumber : (symbols group).foldl (fun n d => n * 32 + d) 0 = getBE group := by
    rw [symbols, foldl_digits 32 (getBE group) 8, Nat.mod_eq_of_lt hlt]
  have hput : putBE 5 (getBE group) = group := by
    rw [← h]
    exact putBE_getBE group
  rw [base32Quantum, hlen, Nat.sub_self, List.replicate_zero, List.append_nil, hnumber, hput]
  exact List.take_of_length_le h.le

theorem mapM_base32Value {ns : List ℕ} (h : ∀ n ∈ ns, n < 32) :
    (ns.map base32Char).mapM base32Value = some ns := by
  induction ns with
  | nil => rfl
  | cons n ns ih =>
    have hns := ih fun m hm => h m (List.mem_cons_of_mem n hm)
    simp [base32Value_base32Char (h n List.mem_cons_self), hns]

theorem toList_base32Encode (bytes : List UInt8) : (base32Encode bytes).toList =
    ((chunksOf 4 bytes).flatMap symbols).map base32Char := by
  rw [base32Encode, String.toList_ofList, toChunks_eq_chunksOf, List.map_flatMap]
  simp [symbols, Function.comp_def]

/-- A text of whole groups is read back as it was written, in whichever case. -/
theorem base32Decode_base32Encode {bytes : List UInt8} (h : 5 ∣ bytes.length) :
    base32Decode (toUpper (base32Encode bytes)) = some bytes := by
  have hlt : ∀ n ∈ (chunksOf 4 bytes).flatMap symbols, n < 32 := by
    intro n hn
    obtain ⟨group, -, hn⟩ := List.mem_flatMap.mp hn
    exact symbols_lt hn
  have hupper : (toUpper (base32Encode bytes)).toList =
      ((chunksOf 4 bytes).flatMap symbols).map base32Char := by
    rw [toUpper, String.toList_ofList, toList_base32Encode, List.map_map]
    exact List.map_congr_left fun n hn => (base32Char_plain (hlt n hn)).2.2
  have hkept : (((chunksOf 4 bytes).flatMap symbols).map base32Char).filter
      (fun c => c ≠ '\r' ∧ c ≠ '\n') = ((chunksOf 4 bytes).flatMap symbols).map base32Char := by
    refine List.filter_eq_self.mpr fun c hc => ?_
    obtain ⟨n, hn, rfl⟩ := List.mem_map.mp hc
    have hplain := base32Char_plain (hlt n hn)
    exact decide_eq_true ⟨hplain.1, hplain.2.1⟩
  have hgroups : ∀ c ∈ (chunksOf 4 bytes).map symbols, c.length = 7 + 1 := by
    intro c hc
    obtain ⟨group, -, rfl⟩ := List.mem_map.mp hc
    simp [symbols]
  have hpieces : ((chunksOf 4 bytes).flatMap symbols).toChunks 8 =
      (chunksOf 4 bytes).map symbols := by
    rw [toChunks_eq_chunksOf 7, List.flatMap_def, chunksOf_flatten hgroups]
  have hquanta : (chunksOf 4 bytes).map (base32Quantum ∘ symbols) = chunksOf 4 bytes :=
    calc (chunksOf 4 bytes).map (base32Quantum ∘ symbols)
        = (chunksOf 4 bytes).map id := List.map_congr_left fun group hgroup =>
          base32Quantum_symbols (length_of_dvd h group hgroup)
      _ = chunksOf 4 bytes := List.map_id _
  calc base32Decode (toUpper (base32Encode bytes))
      = some (((chunksOf 4 bytes).map symbols).flatMap base32Quantum) := by
        rw [base32Decode, hupper, hkept, mapM_base32Value hlt, Option.map_some, hpieces]
    _ = some (chunksOf 4 bytes).flatten := by
        rw [List.flatMap_def, List.map_map, hquanta]
    _ = some bytes := by rw [flatten_chunksOf]

/-! ## Codes -/

section
variable {hmac : List UInt8 → List UInt8 → List UInt8}

/-- Six digits, whatever the HMAC is. -/
theorem totpCode_digits (hmac : List UInt8 → List UInt8 → List UInt8) (key : List UInt8)
    (counter : ℤ) : (totpCode hmac key counter).toList.length = 6 ∧
      ∀ c ∈ (totpCode hmac key counter).toList, c.isDigit = true := by
  unfold totpCode
  dsimp only
  generalize getBE _ % 2 ^ 31 = binary
  have hlen : (Nat.toDigits 10 (binary % 1000000)).length ≤ 6 :=
    (Nat.length_toDigits_le_iff (by norm_num) (by norm_num)).mpr (Nat.mod_lt _ (by norm_num))
  rw [String.toList_ofList]
  constructor
  · rw [List.length_append, List.length_replicate]
    omega
  · intro c hc
    rcases List.mem_append.mp hc with hc | hc
    · rw [List.eq_of_mem_replicate hc]
      rfl
    · exact Nat.isDigit_of_mem_toDigits (by norm_num) (by norm_num) hc

/-- Two clocks that are at most a time step apart show time steps that are at most one apart. -/
theorem step_near {t now : ℤ} (h : |t - now| ≤ 30) :
    ∃ offset ∈ ([-1, 0, 1] : List ℤ), t.tdiv 30 = now.tdiv 30 + offset := by
  have hdiv : ∀ x : ℤ, 0 ≤ x ∧ x.tdiv 30 = x / 30 ∨ x < 0 ∧ x.tdiv 30 = -(-x / 30) := by
    intro x
    rcases le_or_gt 0 x with hx | hx
    · exact .inl ⟨hx, Int.tdiv_eq_ediv_of_nonneg hx⟩
    · have hneg : (-x).tdiv 30 = -x / 30 := Int.tdiv_eq_ediv_of_nonneg (by omega)
      rw [Int.neg_tdiv] at hneg
      exact .inr ⟨hx, by omega⟩
  obtain ⟨hlow, hhigh⟩ := abs_le.mp h
  refine ⟨t.tdiv 30 - now.tdiv 30, ?_, by omega⟩
  simp only [List.mem_cons, List.not_mem_nil, or_false]
  rcases hdiv t with ⟨ht, ht'⟩ | ⟨ht, ht'⟩ <;> rcases hdiv now with ⟨hn, hn'⟩ | ⟨hn, hn'⟩ <;> omega

theorem validateTOTP_iff {random : List UInt8} (hlen : random.length = 20) (code : String)
    (now : ℤ) : validateTOTP hmac (base32Encode random) code now = true ↔
      ∃ offset ∈ ([-1, 0, 1] : List ℤ), code = totpCode hmac random (now.tdiv 30 + offset) := by
  have hdecode : base32Decode (toUpper (base32Encode random)) = some random :=
    base32Decode_base32Encode ⟨4, hlen⟩
  have hne : random ≠ [] := by
    rintro rfl
    cases hlen
  simp only [validateTOTP, hdecode, hne, ne_eq, not_false_eq_true, decide_true, Bool.true_and]
  rw [List.any_eq_true]
  refine exists_congr fun offset => and_congr_right fun _ => ?_
  rw [decide_eq_true_eq, eq_comm]

end

/-- The codes that are accepted for a secret that `GenerateOTPSecret` has made are those of the
present time step and its neighbours, computed from the bytes that were drawn. Each of them has
six digits, and whoever computes one with a clock that is off by half a minute at most is
accepted. -/
theorem authenticator_accepted (hmac : List UInt8 → List UInt8 → List UInt8)
    (random : List UInt8) (hlen : random.length = 20) (now : ℤ) :
    (∀ code, validateTOTP hmac (base32Encode random) code now = true ↔
      ∃ offset ∈ ([-1, 0, 1] : List ℤ), code = totpCode hmac random (now.tdiv 30 + offset)) ∧
    (∀ code, validateTOTP hmac (base32Encode random) code now = true →
      code.toList.length = 6 ∧ ∀ c ∈ code.toList, c.isDigit = true) ∧
    ∀ t, |t - now| ≤ 30 →
      validateTOTP hmac (base32Encode random) (totpCode hmac random (t.tdiv 30)) now = true := by
  refine ⟨fun code => validateTOTP_iff hlen code now, fun code haccepted => ?_, fun t hclock => ?_⟩
  · obtain ⟨offset, -, rfl⟩ := (validateTOTP_iff hlen code now).mp haccepted
    exact totpCode_digits hmac random _
  · obtain ⟨offset, hoffset, hstep⟩ := step_near hclock
    exact (validateTOTP_iff hlen _ now).mpr ⟨offset, hoffset, by rw [hstep]⟩

/-- With twenty zero bytes and an HMAC of zeros. -/
theorem authenticator_accepted_zero :
    validateTOTP zeroHMAC (base32Encode (List.replicate 20 0)) (totpCode zeroHMAC
      (List.replicate 20 0) ((1700000020 : ℤ).tdiv 30)) 1700000000 = true :=
  (authenticator_accepted zeroHMAC (List.replicate 20 0) rfl 1700000000).2.2 1700000020
    (by norm_num)

end NetBerth.OneTimePasswords
