import NetBerth.StunMessage

/-!
# Attributes there and back

A body that was written attribute by attribute is decoded into the last address,
the last error and the last alternate server that its attributes carry. What an
attribute carries is said through how an address or an error is written, whatever
follows it in the value.
-/
namespace NetBerth.StunCodec
open ByteStream (getBE putBE getBE_putBE putBE_getBE length_putBE getBE_lt)
open IPAddress StunMessage TaggedRecords

/-! ## Writing addresses -/

/-- What a port is combined with: the first half of the cookie, or nothing. -/
def portMask (xor : Bool) : ℕ := if xor then 0x2112 else 0

/-- What an address is combined with: the cookie and the transaction ID, or nothing. -/
def addressKey (xor : Bool) (tid : TransID) : List UInt8 :=
  if xor then [0x21, 0x12, 0xA4, 0x42] ++ tid.val else List.replicate 16 0

def familyOf (ip : IPBytes) : UInt8 := if ip.length = 4 then 0x01 else 0x02

/-- The value of an attribute with an address. The first byte is ignored. -/
def encodeAddress (reserved : UInt8) (xor : Bool) (tid : TransID) (ip : IPBytes) (port : ℕ) :
    List UInt8 :=
  [reserved, familyOf ip] ++ putBE 2 (port ^^^ portMask xor) ++
    ip.zipWith (· ^^^ ·) (addressKey xor tid)

/-- The value starts with an address of either family. -/
def Carries (xor : Bool) (tid : TransID) (value : List UInt8) (addr : UDPAddr) : Prop :=
  ∃ reserved rest, (addr.ip.length = 4 ∨ addr.ip.length = 16) ∧ addr.port < 2 ^ 16 ∧
    addr.zone = "" ∧ value = encodeAddress reserved xor tid addr.ip addr.port ++ rest

/-- How long the addresses of a family are. -/
def familySize (family : UInt8) : Option ℕ :=
  if family = 0x01 then some 4 else if family = 0x02 then some 16 else none

/-- The address of some length in a value that is long enough. -/
def addressAt (size : ℕ) (xor : Bool) (tid : TransID) (value : List UInt8) : UDPAddr :=
  ⟨((value.drop 4).take size).zipWith (· ^^^ ·) (addressKey xor tid),
    getBE ((value.drop 2).take 2) ^^^ portMask xor, ""⟩

theorem take_four {value : List UInt8} (h : 8 ≤ value.length) :
    (value.drop 4).take 4 = [value[4], value[5], value[6], value[7]] := by
  rw [List.drop_eq_getElem_cons (by omega), List.drop_eq_getElem_cons (by omega),
    List.drop_eq_getElem_cons (by omega), List.drop_eq_getElem_cons (by omega)]
  rfl

theorem zipWith_zero (bytes : List UInt8) (n : ℕ) (h : bytes.length ≤ n) :
    bytes.zipWith (· ^^^ ·) (List.replicate n 0) = bytes := by
  induction bytes generalizing n with
  | nil => rfl
  | cons b bytes ih =>
    cases n with
    | zero => exact absurd h (Nat.not_succ_le_zero _)
    | succ n =>
      rw [List.replicate_succ, List.zipWith_cons_cons, ih n (Nat.le_of_succ_le_succ h)]
      simp

theorem xor_key (bytes key : List UInt8) (h : bytes.length ≤ key.length) :
    (bytes.zipWith (· ^^^ ·) key).zipWith (· ^^^ ·) key = bytes := by
  induction bytes generalizing key with
  | nil => rfl
  | cons b bytes ih =>
    cases key with
    | nil => exact absurd h (Nat.not_succ_le_zero _)
    | cons k key =>
      rw [List.zipWith_cons_cons, List.zipWith_cons_cons, ih key (Nat.le_of_succ_le_succ h),
        UInt8.xor_assoc, UInt8.xor_self, UInt8.xor_zero]

theorem familySize_familyOf {ip : IPBytes} (h : ip.length = 4 ∨ ip.length = 16) :
    familySize (familyOf ip) = some ip.length := by
  rcases h with h | h
  · rw [familyOf, if_pos h, h]
    rfl
  · rw [familyOf, if_neg (by omega), h]
    rfl

theorem familyOf_of_size {family : UInt8} {size : ℕ} (h : familySize family = some size)
    {ip : IPBytes} (hip : ip.length = size) : (size = 4 ∨ size = 16) ∧ familyOf ip = family := by
  rw [familySize] at h
  split_ifs at h with h4 h6
  · obtain rfl := Option.some.inj h
    exact ⟨.inl rfl, (if_pos hip).trans h4.symm⟩
  · obtain rfl := Option.some.inj h
    exact ⟨.inr rfl, (if_neg (by omega)).trans h6.symm⟩

section
variable (xor : Bool) (tid : TransID)

theorem length_addressKey : (addressKey xor tid).length = 16 := by
  cases xor with
  | false => rfl
  | true =>
    rw [addressKey, if_pos rfl, List.length_append, tid.property]
    rfl

theorem parseAddressValue_eq (value : List UInt8) : parseAddressValue value xor tid =
    some (value[1]?.bind fun family => (familySize family).bind fun size =>
      if 4 + size ≤ value.length then some (addressAt size xor tid value) else none) := by
  unfold parseAddressValue
  by_cases hlen : value.length < 4
  · rw [if_pos hlen, Option.some.injEq, eq_comm, Option.bind_eq_none_iff]
    intro family _
    rw [Option.bind_eq_none_iff]
    intro size _
    exact if_neg (by omega)
  have hfamily : value[1]? = some value[1] := List.getElem?_eq_getElem (by omega)
  have hport : (slice value 2 4).bind (uint 2) = _ := uint_slice rfl (by omega)
  rw [if_neg hlen, hfamily, hport]
  simp only [Option.bind_eq_bind, Option.bind_some, familySize]
  by_cases h4 : value[1] = 1
  · rw [if_pos h4, if_pos h4, Option.bind_some]
    by_cases hshort : value.length < 8
    · rw [if_pos hshort, if_neg (by omega)]
    · have ha : value[4]? = some value[4] := List.getElem?_eq_getElem (by omega)
      have hb : value[5]? = some value[5] := List.getElem?_eq_getElem (by omega)
      have hc : value[6]? = some value[6] := List.getElem?_eq_getElem (by omega)
      have hd : value[7]? = some value[7] := List.getElem?_eq_getElem (by omega)
      have hfour := take_four (not_lt.mp hshort)
      rw [if_neg hshort, if_pos (by omega), ha, hb, hc, hd, addressAt, hfour]
      cases xor with
      | false =>
        rw [addressKey, if_neg Bool.false_ne_true, zipWith_zero _ 16 (by simp), portMask,
          if_neg Bool.false_ne_true, Nat.xor_zero]
        rfl
      | true => rfl
  · rw [if_neg h4, if_neg h4]
    by_cases h6 : value[1] = 2
    · rw [if_pos h6, if_pos h6, Option.bind_some]
      by_cases hshort : value.length < 20
      · rw [if_pos hshort, if_neg (by omega)]
      · have haddr : slice value 4 20 = _ := slice_of_le (by decide) (by omega)
        rw [if_neg hshort, if_pos (by omega), haddr]
        cases xor with
        | false =>
          rw [addressAt, addressKey, if_neg Bool.false_ne_true, zipWith_zero _ 16 (by simp),
            portMask, if_neg Bool.false_ne_true, Nat.xor_zero]
          rfl
        | true => rfl
    · rw [if_neg h6, if_neg h6]
      rfl

theorem portMask_lt : portMask xor < 2 ^ 16 := by
  cases xor <;> decide

/-- What was written is read back, for both families, as it is and combined with the key. -/
theorem parse_encodeAddress {addr : UDPAddr} {value : List UInt8}
    (h : Carries xor tid value addr) : parseAddressValue value xor tid = some (some addr) := by
  obtain ⟨reserved, rest, hip, hport, hzone, rfl⟩ := h
  have hkey := length_addressKey xor tid
  have hbytes : (addr.ip.zipWith (· ^^^ ·) (addressKey xor tid)).length = addr.ip.length := by
    rw [List.length_zipWith, hkey]
    omega
  have hmasked : getBE (putBE 2 (addr.port ^^^ portMask xor)) = addr.port ^^^ portMask xor :=
    (getBE_putBE 2 _).trans (Nat.mod_eq_of_lt (Nat.xor_lt_two_pow hport (portMask_lt xor)))
  have htail : (encodeAddress reserved xor tid addr.ip addr.port ++ rest).drop 2 =
      putBE 2 (addr.port ^^^ portMask xor) ++
        (addr.ip.zipWith (· ^^^ ·) (addressKey xor tid) ++ rest) := by
    rw [encodeAddress, List.append_assoc, List.append_assoc]
    rfl
  have hsize : 4 + addr.ip.length ≤
      (encodeAddress reserved xor tid addr.ip addr.port ++ rest).length := by
    simp only [encodeAddress, List.length_append, hbytes, length_putBE, List.length_cons,
      List.length_nil]
    omega
  have hfamily : (encodeAddress reserved xor tid addr.ip addr.port ++ rest)[1]? =
      some (familyOf addr.ip) := rfl
  rw [parseAddressValue_eq, hfamily, Option.bind_some, familySize_familyOf hip, Option.bind_some,
    if_pos hsize, addressAt, show 4 = 2 + 2 from rfl, ← List.drop_drop, htail,
    List.take_left' (length_putBE 2 _), List.drop_left' (length_putBE 2 _), List.take_left' hbytes,
    xor_key _ _ (by omega), hmasked, Nat.xor_xor_cancel_right, ← hzone]

/-- An address that is read is one that the value starts with. -/
theorem carries_of_parse {addr : UDPAddr} {value : List UInt8}
    (h : parseAddressValue value xor tid = some (some addr)) : Carries xor tid value addr := by
  rw [parseAddressValue_eq, Option.some.injEq] at h
  obtain ⟨family, hfamily, h⟩ := Option.bind_eq_some_iff.mp h
  obtain ⟨size, hsize, h⟩ := Option.bind_eq_some_iff.mp h
  split_ifs at h with hlen
  obtain rfl := Option.some.inj h
  have hkey := length_addressKey xor tid
  have hbytes : ((value.drop 4).take size).length = size := by
    rw [List.length_take, List.length_drop]
    omega
  have hip : (addressAt size xor tid value).ip.length = size := by
    have hle : size ≤ 16 := by
      rcases (familyOf_of_size hsize hbytes).1 with rfl | rfl <;> decide
    rw [addressAt, List.length_zipWith, hbytes, hkey]
    exact min_eq_left hle
  obtain ⟨hsizes, hfam⟩ := familyOf_of_size hsize hip
  have htwo : ((value.drop 2).take 2).length = 2 := by
    rw [List.length_take, List.length_drop]
    omega
  have hport := getBE_lt ((value.drop 2).take 2)
  have hread := putBE_getBE ((value.drop 2).take 2)
  rw [htwo] at hport hread
  have hhead : value = value[0] :: family :: value.drop 2 := by
    rw [List.getElem?_eq_getElem (by omega)] at hfamily
    rw [← Option.some.inj hfamily, ← List.drop_eq_getElem_cons (by omega),
      ← List.drop_eq_getElem_cons (by omega), List.drop_zero]
  have htail : value.drop 2 = (value.drop 2).take 2 ++ (value.drop 4).take size ++
      value.drop (4 + size) := by
    rw [List.append_assoc, ← List.drop_drop, List.take_append_drop, show 4 = 2 + 2 from rfl, ← List.drop_drop,
      List.take_append_drop]
  refine ⟨value[0], value.drop (4 + size), hip.symm ▸ hsizes,
    Nat.xor_lt_two_pow hport (portMask_lt xor), rfl, ?_⟩
  have hxor := xor_key ((value.drop 4).take size) (addressKey xor tid)
    (by rw [hbytes, hkey]; omega)
  rw [encodeAddress, hfam, addressAt]
  dsimp only
  rw [hxor, Nat.xor_xor_cancel_right, hread]
  exact hhead.trans (congrArg (value[0] :: family :: ·) htail)

/-- A value that carries no address is passed over. -/
theorem parse_of_not_carries {value : List UInt8} (h : ∀ addr, ¬Carries xor tid value addr) :
    parseAddressValue value xor tid = some none := by
  obtain ⟨o, ho⟩ := Option.isSome_iff_exists.mp (parseAddressValue_isSome value xor tid)
  cases o with
  | none => exact ho
  | some addr => exact absurd (carries_of_parse xor tid ho) (h addr)

end

/-! ## The last of a kind -/

/-- What is left of a row of writes over an old value: that of the last entry that writes,
or the old value if none does. -/
def LastOf {ε α : Type*} (writes : ε → α → Prop) (entries : List ε) (old new : Option α) : Prop :=
  (∃ before e after a, entries = before ++ e :: after ∧ writes e a ∧ new = some a ∧
      ∀ e' ∈ after, ∀ a', ¬writes e' a') ∨
    (∀ e ∈ entries, ∀ a, ¬writes e a) ∧ new = old

section
variable {ε α : Type*} {writes : ε → α → Prop} {e : ε} {entries : List ε} {old mid new : Option α}

theorem LastOf.nil : LastOf writes [] old old := .inr ⟨by simp, rfl⟩

theorem LastOf.one {a : α} (h : writes e a) : LastOf writes [e] old (some a) :=
  .inl ⟨[], e, [], a, rfl, h, rfl, by simp⟩

theorem LastOf.skip (h : ∀ a, ¬writes e a) : LastOf writes [e] old old :=
  .inr ⟨by simpa using h, rfl⟩

/-- The last of two rows is that of the second, or else that of the first. -/
theorem LastOf.cons (hone : LastOf writes [e] old mid) (hrest : LastOf writes entries mid new) :
    LastOf writes (e :: entries) old new := by
  rcases hrest with ⟨before, e', after, a, rfl, hwrites, hnew, hafter⟩ | ⟨hnone, rfl⟩
  · exact .inl ⟨e :: before, e', after, a, rfl, hwrites, hnew, hafter⟩
  · rcases hone with ⟨before, e', after, a, hsplit, hwrites, hmid, -⟩ | ⟨hskip, rfl⟩
    · obtain ⟨rfl, ⟨rfl, rfl⟩ | hnil⟩ : before = [] ∧ (e = e' ∧ [] = after ∨ False) := by
        cases before with
        | nil => exact ⟨rfl, .inl (List.cons_eq_cons.mp hsplit)⟩
        | cons b before => cases before <;> cases hsplit
      · exact .inl ⟨[], e, entries, a, rfl, hwrites, hmid, hnone⟩
      · cases hnil
    · exact .inr ⟨List.forall_mem_cons.mpr ⟨hskip e List.mem_cons_self, hnone⟩, rfl⟩

end

/-! ## Reading what was written -/

section
variable (tid : TransID) (f : Field)

/-- The attribute maps to an address, in either encoding. -/
def MapsTo (addr : UDPAddr) : Prop :=
  f.kind = attrMappedAddress ∧ Carries false tid f.value addr ∨
    f.kind = attrXorMappedAddress ∧ Carries true tid f.value addr

/-- The attribute is an error: two ignored bytes, the class, the number and the reason. -/
def Reports (err : STUNError) : Prop :=
  f.kind = attrErrorCode ∧ ∃ a b classByte number reason,
    f.value = a :: b :: classByte :: number :: reason ∧
      err = ⟨(classByte.toNat % 8) * 100 + number.toNat, reason⟩

/-- The attribute names another server, never combined with a key. -/
def Redirects (alt : AlternateServer) : Prop :=
  f.kind = attrAlternateServer ∧ ∃ addr, Carries false tid f.value addr ∧ alt = ⟨addr.ip, addr.port⟩

variable {tid f}

theorem not_mapsTo (hmapped : f.kind ≠ attrMappedAddress) (hxor : f.kind ≠ attrXorMappedAddress)
    (addr : UDPAddr) : ¬MapsTo tid f addr := by
  rintro (⟨h, -⟩ | ⟨h, -⟩)
  · exact hmapped h
  · exact hxor h

theorem not_reports (h : f.kind ≠ attrErrorCode) (err : STUNError) : ¬Reports f err :=
  fun hreports => h hreports.1

theorem not_redirects (h : f.kind ≠ attrAlternateServer) (alt : AlternateServer) :
    ¬Redirects tid f alt := fun hredirects => h hredirects.1

theorem parse_cases (xor : Bool) (tid : TransID) (value : List UInt8) :
    (∃ addr, Carries xor tid value addr ∧ parseAddressValue value xor tid = some (some addr)) ∨
      (∀ addr, ¬Carries xor tid value addr) ∧ parseAddressValue value xor tid = some none := by
  by_cases h : ∃ addr, Carries xor tid value addr
  · obtain ⟨addr, haddr⟩ := h
    exact .inl ⟨addr, haddr, parse_encodeAddress xor tid haddr⟩
  · have hno := not_exists.mp h
    exact .inr ⟨hno, parse_of_not_carries xor tid hno⟩

theorem visit_error {value : List UInt8} (out : Attributes) (a b classByte number : UInt8)
    (reason : List UInt8) (hvalue : value = a :: b :: classByte :: number :: reason) :
    visit tid out attrErrorCode value.length value =
      some { out with errCode := some ⟨(classByte.toNat % 8) * 100 + number.toNat, reason⟩ } := by
  have hclass : (classByte &&& 0x07).toNat = classByte.toNat % 8 := by
    rw [UInt8.toNat_and]
    exact Nat.and_two_pow_sub_one_eq_mod _ 3
  have hreason : (if 4 < value.length then slice value 4 value.length else some []) =
      some reason := by
    rw [slice_from (by simp [hvalue]), hvalue]
    cases reason <;> rfl
  have hlen : 4 ≤ value.length := by simp [hvalue]
  have hat : value[2]? = some classByte := by rw [hvalue]; rfl
  have hat' : value[3]? = some number := by rw [hvalue]; rfl
  rw [visit, if_neg (by decide), if_neg (by decide), if_pos rfl, if_pos hlen, hat, hat', hreason]
  simp only [Option.bind_eq_bind, Option.bind_some, hclass]
  rfl

/-- The effect of some attributes on each field of the result. -/
def Overwrites (tid : TransID) (fields : List Field) (out out' : Attributes) : Prop :=
  LastOf (MapsTo tid) fields out.mapped out'.mapped ∧
    LastOf Reports fields out.errCode out'.errCode ∧
    LastOf (Redirects tid) fields out.altServer out'.altServer

/-- An attribute for the mapped address, with or without the key. -/
theorem visit_mapped {xor : Bool} (out : Attributes) (herr : f.kind ≠ attrErrorCode)
    (halt : f.kind ≠ attrAlternateServer)
    (hmaps : ∀ addr, MapsTo tid f addr ↔ Carries xor tid f.value addr)
    (hvisit : visit tid out f.kind f.value.length f.value =
      (parseAddressValue f.value xor tid).map fun found =>
        found.elim out fun addr => { out with mapped := some addr }) :
    ∃ out', visit tid out f.kind f.value.length f.value = some out' ∧ Overwrites tid [f] out out' := by
  rw [hvisit]
  rcases parse_cases xor tid f.value with ⟨addr, haddr, hparse⟩ | ⟨hno, hparse⟩
  · rw [hparse]
    exact ⟨_, rfl, .one ((hmaps addr).mpr haddr), .skip (not_reports herr),
      .skip (not_redirects halt)⟩
  · rw [hparse]
    exact ⟨out, rfl, .skip fun addr h => hno addr ((hmaps addr).mp h), .skip (not_reports herr),
      .skip (not_redirects halt)⟩

theorem visit_errorCode (out : Attributes) (herr : f.kind = attrErrorCode) :
    ∃ out', visit tid out f.kind f.value.length f.value = some out' ∧ Overwrites tid [f] out out' := by
  obtain ⟨hmapped, hxor, halt⟩ : f.kind ≠ attrMappedAddress ∧ f.kind ≠ attrXorMappedAddress ∧
    f.kind ≠ attrAlternateServer := by rw [herr]; decide
  have hnomap : ∀ addr, ¬MapsTo tid f addr := not_mapsTo hmapped hxor
  by_cases hlen : 4 ≤ f.value.length
  · obtain ⟨a, b, classByte, number, reason, hvalue⟩ :
        ∃ a b classByte number reason, f.value = a :: b :: classByte :: number :: reason := by
      match f.value, hlen with
      | a :: b :: classByte :: number :: reason, _ => exact ⟨a, b, classByte, number, reason, rfl⟩
    have hvisit := @visit_error tid f.value out a b classByte number reason hvalue
    rw [← herr] at hvisit
    exact ⟨_, hvisit, .skip hnomap, .one ⟨herr, a, b, classByte, number, reason, hvalue, rfl⟩,
      .skip (not_redirects halt)⟩
  · refine ⟨out, ?_, .skip hnomap, .skip ?_, .skip (not_redirects halt)⟩
    · rw [visit, if_neg hmapped, if_neg hxor, if_pos herr, if_neg hlen]
    · rintro err ⟨-, a, b, classByte, number, reason, hvalue, -⟩
      rw [hvalue] at hlen
      exact hlen (by simp)

theorem visit_alternateServer (out : Attributes) (halt : f.kind = attrAlternateServer) :
    ∃ out', visit tid out f.kind f.value.length f.value = some out' ∧ Overwrites tid [f] out out' := by
  obtain ⟨hmapped, hxor, herr⟩ : f.kind ≠ attrMappedAddress ∧ f.kind ≠ attrXorMappedAddress ∧
    f.kind ≠ attrErrorCode := by rw [halt]; decide
  have hnomap : ∀ addr, ¬MapsTo tid f addr := not_mapsTo hmapped hxor
  rw [visit, if_neg hmapped, if_neg hxor, if_neg herr, if_pos halt]
  rcases parse_cases false tid f.value with ⟨addr, haddr, hparse⟩ | ⟨hno, hparse⟩
  · rw [hparse]
    exact ⟨{ out with altServer := some ⟨addr.ip, addr.port⟩ }, rfl, .skip hnomap,
      .skip (not_reports herr), .one ⟨halt, addr, haddr, rfl⟩⟩
  · rw [hparse]
    refine ⟨out, rfl, .skip hnomap, .skip (not_reports herr), .skip ?_⟩
    rintro alt ⟨-, addr, haddr, -⟩
    exact hno addr haddr

variable (tid f)

/-- One attribute overwrites what it carries and nothing else. -/
theorem visit_spec (out : Attributes) :
    ∃ out', visit tid out f.kind f.value.length f.value = some out' ∧ Overwrites tid [f] out out' := by
  by_cases hmapped : f.kind = attrMappedAddress
  · apply @visit_mapped tid f false out (by rw [hmapped]; decide) (by rw [hmapped]; decide)
    · intro addr
      simp [MapsTo, hmapped, attrMappedAddress, attrXorMappedAddress]
    · rw [visit, if_pos hmapped]
      rcases parseAddressValue f.value false tid with _ | _ | addr <;> rfl
  by_cases hxor : f.kind = attrXorMappedAddress
  · apply @visit_mapped tid f true out (by rw [hxor]; decide) (by rw [hxor]; decide)
    · intro addr
      simp [MapsTo, hxor, attrMappedAddress, attrXorMappedAddress]
    · rw [visit, if_neg hmapped, if_pos hxor]
      rcases parseAddressValue f.value true tid with _ | _ | addr <;> rfl
  by_cases herr : f.kind = attrErrorCode
  · exact visit_errorCode out herr
  by_cases halt : f.kind = attrAlternateServer
  · exact visit_alternateServer out halt
  · refine ⟨out, ?_, .skip (not_mapsTo hmapped hxor), .skip (not_reports herr),
      .skip (not_redirects halt)⟩
    rw [visit, if_neg hmapped, if_neg hxor, if_neg herr, if_neg halt]

/-- The later attributes overwrite what the earlier ones carried. -/
theorem foldlM_visit_spec (fields : List Field) (out : Attributes) : ∃ out',
    fields.foldlM (fun out f => visit tid out f.kind f.value.length f.value) out = some out' ∧
      Overwrites tid fields out out' := by
  induction fields generalizing out with
  | nil => exact ⟨out, rfl, .nil, .nil, .nil⟩
  | cons f fields ih =>
    obtain ⟨mid, hvisit, hmapped, herr, halt⟩ := visit_spec tid f out
    obtain ⟨out', hrest, hmapped', herr', halt'⟩ := ih mid
    refine ⟨out', ?_, hmapped.cons hmapped', herr.cons herr', halt.cons halt'⟩
    rw [List.foldlM_cons, hvisit]
    exact hrest

/-- The walk over a body that was written visits its attributes in order. -/
theorem parseAttributes_eq_foldlM (fields : List Field) : parseAttributes (encode fields) tid =
    fields.foldlM (fun out f => visit tid out f.kind f.value.length f.value) {} := by
  let step (out : Attributes) (entry : ℕ × List UInt8) : Option Attributes :=
    visit tid out entry.1 entry.2.length entry.2
  have hwalk : (records (encode fields) 0).map (fun r => (r.kind, r.value)) =
      fields.map fun f => (f.kind, f.value) := @records_encode fields [] rfl
  calc parseAttributes (encode fields) tid
      = ((records (encode fields) 0).map fun r => (r.kind, r.value)).foldlM step {} := by
        rw [parseAttributes_eq, List.foldlM_map]
    _ = (fields.map fun f => (f.kind, f.value)).foldlM step {} := by rw [hwalk]
    _ = fields.foldlM (fun out f => visit tid out f.kind f.value.length f.value) {} :=
        List.foldlM_map

end

/-- An address is read exactly where one was written, in both encodings; and a body that
was written is decoded into the last address, the last error and the last alternate
server that its attributes carry. -/
theorem parseAttributes_encode (tid : TransID) (fields : List Field) :
    (∀ xor value addr,
      parseAddressValue value xor tid = some (some addr) ↔ Carries xor tid value addr) ∧
    ∃ out, parseAttributes (encode fields) tid = some out ∧
      LastOf (MapsTo tid) fields none out.mapped ∧ LastOf Reports fields none out.errCode ∧
      LastOf (Redirects tid) fields none out.altServer := by
  constructor
  · intro xor value addr
    exact ⟨carries_of_parse xor tid, parse_encodeAddress xor tid⟩
  · rw [parseAttributes_eq_foldlM]
    exact foldlM_visit_spec tid fields {}

end NetBerth.StunCodec
