import NetBerth.TaggedRecords
import NetBerth.UDPAddress

/-!
# STUN messages

A message is a header of twenty bytes and a body of attributes. Two loops walk
the body: one decodes the addresses and the error of a response, the other looks
for the fingerprint. Each visits the records of the body in order, and no read of
either is out of range, whatever the bytes are.

A function that reads bytes has no result when one of its reads is out of range;
a nil pointer is a result.
-/
namespace NetBerth.StunMessage
open ByteStream (getBE putBE)
open IPAddress TaggedRecords

def stunMagicCookie : ℕ := 0x2112A442
def bindingRequest : ℕ := 0x0001
def bindingResponse : ℕ := 0x0101
def bindingError : ℕ := 0x0111

def attrMappedAddress : ℕ := 0x0001
def attrErrorCode : ℕ := 0x0009
def attrXorMappedAddress : ℕ := 0x0020
def attrAlternateServer : ℕ := 0x8023
def attrFingerprint : ℕ := 0x8028

/-! ## Headers -/

abbrev TransID := {tid : List UInt8 // tid.length = 12}

/-- `copy` into an array of twelve zeros. -/
def copyTransID (bytes : List UInt8) : TransID :=
  ⟨(bytes ++ List.replicate 12 0).take 12, by simp⟩

theorem copyTransID_of_length {bytes : List UInt8} (h : bytes.length = 12) :
    copyTransID bytes = ⟨bytes, h⟩ := Subtype.ext (List.take_left' h)

structure StunHeader where
  type : ℕ
  length : ℕ
  magicCookie : ℕ
  transID : TransID
  deriving DecidableEq, Repr

def parseHeader (data : List UInt8) : Option (Option StunHeader) :=
  if data.length < 20 then some none
  else do
    let type ← (slice data 0 2).bind (uint 2)
    let length ← (slice data 2 4).bind (uint 2)
    let magicCookie ← (slice data 4 8).bind (uint 4)
    let transID ← slice data 8 20
    return some ⟨type, length, magicCookie, copyTransID transID⟩

/-- The transaction ID is random. -/
def buildBindingRequest (random : TransID) : List UInt8 :=
  putBE 2 bindingRequest ++ putBE 2 0 ++ putBE 4 stunMagicCookie ++ random.val

def reqTID (req : List UInt8) : Option TransID := (slice req 8 20).map copyTransID

@[simp] theorem reqTID_buildBindingRequest (random : TransID) :
    reqTID (buildBindingRequest random) = some random := by
  obtain ⟨tid, htid⟩ := random
  have hhead : (putBE 2 bindingRequest ++ putBE 2 0 ++ putBE 4 stunMagicCookie).length = 8 := by
    simp
  have hall : (buildBindingRequest ⟨tid, htid⟩).length = 20 := by
    simp [buildBindingRequest, htid]
  rw [reqTID, slice_of_le (by decide) hall.ge, buildBindingRequest, List.drop_left' hhead,
    Option.map_some, List.take_of_length_le htid.le, copyTransID_of_length htid]

/-- The fields of a header of full length. -/
def headerOf (data : List UInt8) : StunHeader :=
  ⟨getBE (data.take 2), getBE ((data.drop 2).take 2), getBE ((data.drop 4).take 4),
    copyTransID ((data.drop 8).take 12)⟩

theorem parseHeader_eq (data : List UInt8) :
    parseHeader data = some (if data.length < 20 then none else some (headerOf data)) := by
  unfold parseHeader
  split_ifs with hlen
  · rfl
  · have htype : (slice data 0 2).bind (uint 2) = _ := uint_slice rfl (by omega)
    have hlength : (slice data 2 4).bind (uint 2) = _ := uint_slice rfl (by omega)
    have hcookie : (slice data 4 8).bind (uint 4) = _ := uint_slice rfl (by omega)
    have htid : slice data 8 20 = _ := slice_of_le (by decide) (by omega)
    rw [htype, hlength, hcookie, htid]
    rfl

/-- Only the first twenty bytes are looked at. -/
theorem headerOf_take {n : ℕ} (h : 20 ≤ n) (data : List UInt8) :
    headerOf (data.take n) = headerOf data := by
  have hpart {lo width : ℕ} (hle : lo + width ≤ n) :
      ((data.take n).drop lo).take width = (data.drop lo).take width := by
    rw [List.drop_take, List.take_take, min_eq_left (by omega)]
  rw [headerOf, List.take_take, min_eq_left (by omega), hpart (by omega), hpart (by omega),
    hpart (by omega), headerOf]

/-! ## Attributes -/

/-- The reason is kept in the bytes that came. -/
structure STUNError where
  code : ℕ
  reason : List UInt8
  deriving DecidableEq, Repr

structure AlternateServer where
  ip : IPBytes
  port : ℕ
  deriving DecidableEq, Repr

structure Attributes where
  mapped : Option UDPAddr := none
  errCode : Option STUNError := none
  altServer : Option AlternateServer := none
  deriving DecidableEq, Repr

def cookieByte (shift : ℕ) : UInt8 := UInt8.ofNat (stunMagicCookie >>> shift)

def parseAddressValue (value : List UInt8) (xor : Bool) (tid : TransID) :
    Option (Option UDPAddr) :=
  if value.length < 4 then some none
  else do
    let family ← value[1]?
    let port ← (slice value 2 4).bind (uint 2)
    if family = 0x01 then
      if value.length < 8 then some none
      else do
        let a ← value[4]?
        let b ← value[5]?
        let c ← value[6]?
        let d ← value[7]?
        if xor then
          let port := port ^^^ ((stunMagicCookie >>> 16) &&& 0xFFFF)
          let ip := IPBytes.ipv4 (a ^^^ cookieByte 24) (b ^^^ cookieByte 16) (c ^^^ cookieByte 8)
            (d ^^^ cookieByte 0)
          return some ⟨ip.to4, port, ""⟩
        else return some ⟨(IPBytes.ipv4 a b c d).to4, port, ""⟩
    else if family = 0x02 then
      if value.length < 20 then some none
      else do
        let addr ← slice value 4 20
        if xor then
          let port := port ^^^ ((stunMagicCookie >>> 16) &&& 0xFFFF)
          let key := putBE 4 stunMagicCookie ++ tid.val
          return some ⟨addr.zipWith (· ^^^ ·) key, port, ""⟩
        else return some ⟨addr, port, ""⟩
    else some none

/-- The switch over one attribute. -/
def visit (tid : TransID) (out : Attributes) (attrType attrLen : ℕ) (value : List UInt8) :
    Option Attributes :=
  if attrType = attrMappedAddress then do
    match ← parseAddressValue value false tid with
    | some addr => return { out with mapped := some addr }
    | none => return out
  else if attrType = attrXorMappedAddress then do
    match ← parseAddressValue value true tid with
    | some addr => return { out with mapped := some addr }
    | none => return out
  else if attrType = attrErrorCode then
    if 4 ≤ attrLen then do
      let classByte ← value[2]?
      let number ← value[3]?
      let reason ← (if 4 < attrLen then slice value 4 value.length else some [])
      let code := (classByte &&& 0x07).toNat * 100 + number.toNat
      return { out with errCode := some ⟨code, reason⟩ }
    else some out
  else if attrType = attrAlternateServer then do
    match ← parseAddressValue value false tid with
    | some addr => return { out with altServer := some ⟨addr.ip, addr.port⟩ }
    | none => return out
  else some out

theorem parseAddressValue_isSome (value : List UInt8) (xor : Bool) (tid : TransID) :
    (parseAddressValue value xor tid).isSome := by
  unfold parseAddressValue
  by_cases hlen : value.length < 4
  · rw [if_pos hlen]
    rfl
  have hfamily : value[1]? = some value[1] := List.getElem?_eq_getElem (by omega)
  have hport : (slice value 2 4).bind (uint 2) = _ := uint_slice rfl (by omega)
  rw [if_neg hlen, hfamily, hport]
  simp only [Option.bind_eq_bind, Option.bind_some]
  by_cases h4 : value[1] = 1
  · rw [if_pos h4]
    by_cases hshort : value.length < 8
    · rw [if_pos hshort]
      rfl
    · have ha : value[4]? = some value[4] := List.getElem?_eq_getElem (by omega)
      have hb : value[5]? = some value[5] := List.getElem?_eq_getElem (by omega)
      have hc : value[6]? = some value[6] := List.getElem?_eq_getElem (by omega)
      have hd : value[7]? = some value[7] := List.getElem?_eq_getElem (by omega)
      rw [if_neg hshort, ha, hb, hc, hd]
      cases xor <;> rfl
  · rw [if_neg h4]
    by_cases h6 : value[1] = 2
    · rw [if_pos h6]
      by_cases hshort : value.length < 20
      · rw [if_pos hshort]
        rfl
      · have haddr : slice value 4 20 = _ := slice_of_le (by decide) (by omega)
        rw [if_neg hshort, haddr]
        cases xor <;> rfl
    · rw [if_neg h6]
      rfl

theorem visit_isSome (tid : TransID) (out : Attributes) (r : Record) :
    (visit tid out r.kind r.value.length r.value).isSome := by
  have haddress (xor : Bool) (f : Option UDPAddr → Option Attributes)
      (hf : ∀ addr, (f addr).isSome) : ((parseAddressValue r.value xor tid).bind f).isSome := by
    obtain ⟨addr, haddr⟩ := Option.isSome_iff_exists.mp (parseAddressValue_isSome r.value xor tid)
    rw [haddr]
    exact hf addr
  unfold visit
  by_cases hmapped : r.kind = attrMappedAddress
  · rw [if_pos hmapped]
    apply haddress
    intro addr
    cases addr <;> rfl
  rw [if_neg hmapped]
  by_cases hxor : r.kind = attrXorMappedAddress
  · rw [if_pos hxor]
    apply haddress
    intro addr
    cases addr <;> rfl
  rw [if_neg hxor]
  by_cases herr : r.kind = attrErrorCode
  · rw [if_pos herr]
    by_cases hlen : 4 ≤ r.value.length
    · have hclass : r.value[2]? = some r.value[2] := List.getElem?_eq_getElem (by omega)
      have hnumber : r.value[3]? = some r.value[3] := List.getElem?_eq_getElem (by omega)
      rw [if_pos hlen, hclass, hnumber, slice_from hlen]
      by_cases hreason : 4 < r.value.length <;> simp [hreason]
    · rw [if_neg hlen]
      rfl
  rw [if_neg herr]
  by_cases halt : r.kind = attrAlternateServer
  · rw [if_pos halt]
    apply haddress
    intro addr
    cases addr <;> rfl
  · rw [if_neg halt]
    rfl

section
variable (data : List UInt8) (tid : TransID)

def attributeLoop (pos : ℕ) (out : Attributes) : Option Attributes :=
  if _h : pos + 4 ≤ data.length then do
    let attrType ← (slice data pos data.length).bind (uint 2)
    let attrLen ← (slice data (pos + 2) data.length).bind (uint 2)
    let valuePos := pos + 4
    if attrLen > data.length - valuePos then return out
    else
      let value ← slice data valuePos (valuePos + attrLen)
      let out ← visit tid out attrType attrLen value
      attributeLoop (align (valuePos + attrLen)) out
  else some out
termination_by data.length - pos
decreasing_by
  have hnext := le_align (pos + 4 + attrLen)
  omega

def parseAttributes : Option Attributes := attributeLoop data tid 0 {}

variable {data}

theorem attributeLoop_of_none {pos : ℕ} (h : recordAt data pos = none) (out : Attributes) :
    attributeLoop data tid pos out = some out := by
  rw [attributeLoop]
  split_ifs with hpos
  · rw [uint_from (by omega), uint_from (by omega)]
    exact if_pos (cut_of_recordAt h hpos)
  · rfl

theorem attributeLoop_of_some {pos : ℕ} {r : Record} (h : recordAt data pos = some r)
    (out : Attributes) :
    attributeLoop data tid pos out =
      (visit tid out r.kind r.value.length r.value).bind (attributeLoop data tid r.next) := by
  obtain ⟨hpos, hfit, hoffset, hkind, hsize, hvalue⟩ := recordAt_spec h
  rw [attributeLoop, dif_pos hpos, uint_from (by omega), uint_from (by omega), ← sizeAt, hsize,
    ← hkind]
  simp only [Option.bind_eq_bind, Option.bind_some, Record.next, Record.finish, hoffset]
  rw [if_neg (not_lt.mpr hfit), hvalue]
  rfl

/-- The attributes are decoded in the order of the walk, the later over the earlier. -/
theorem parseAttributes_eq : parseAttributes data tid =
    (records data 0).foldlM (fun out r => visit tid out r.kind r.value.length r.value) {} :=
  loop_eq_foldlM (fun _ out h => attributeLoop_of_none tid h out)
    (fun _ out _ h => attributeLoop_of_some tid h out) 0 {}

variable (data) in
theorem parseAttributes_isSome : (parseAttributes data tid).isSome := by
  rw [parseAttributes_eq]
  exact foldlM_isSome (visit_isSome tid) _ _

end

/-! ## Fingerprints -/

section
variable (body : List UInt8)

def fingerprintLoop (pos : ℕ) : Option (Option ℕ) :=
  if _h : pos + 4 ≤ body.length then do
    let attrType ← (slice body pos body.length).bind (uint 2)
    let attrLen ← (slice body (pos + 2) body.length).bind (uint 2)
    let valuePos := pos + 4
    if attrLen > body.length - valuePos then return none
    else if attrType = attrFingerprint then return some (20 + pos)
    else fingerprintLoop (align (valuePos + attrLen))
  else some none
termination_by body.length - pos
decreasing_by
  have hnext := le_align (pos + 4 + attrLen)
  omega

variable {body}

theorem fingerprintLoop_of_none {pos : ℕ} (h : recordAt body pos = none) :
    fingerprintLoop body pos = some none := by
  rw [fingerprintLoop]
  split_ifs with hpos
  · rw [uint_from (by omega), uint_from (by omega)]
    exact if_pos (cut_of_recordAt h hpos)
  · rfl

theorem fingerprintLoop_of_some {pos : ℕ} {r : Record} (h : recordAt body pos = some r) :
    fingerprintLoop body pos =
      if r.kind = attrFingerprint then some (some (20 + r.offset))
      else fingerprintLoop body r.next := by
  obtain ⟨hpos, hfit, hoffset, hkind, hsize, -⟩ := recordAt_spec h
  rw [fingerprintLoop, dif_pos hpos, uint_from (by omega), uint_from (by omega), ← sizeAt, hsize,
    ← hkind]
  simp only [Option.bind_eq_bind, Option.bind_some, Record.next, Record.finish, hoffset]
  rw [if_neg (not_lt.mpr hfit)]
  rfl

/-- What is looked for is the first fingerprint that the walk visits. -/
theorem fingerprintLoop_eq (pos : ℕ) : fingerprintLoop body pos =
    some (((records body pos).find? (·.kind = attrFingerprint)).map (20 + ·.offset)) := by
  apply loop_eq_find
  · intro pos h
    exact fingerprintLoop_of_none h
  · intro pos r h
    rw [fingerprintLoop_of_some h]
    simp only [decide_eq_true_eq]

end

/-- No offset stands for the -1 of the source. -/
def fingerprintOffset (pkt : List UInt8) : Option (Option ℕ) :=
  if pkt.length < 24 then some none
  else (slice pkt 20 pkt.length).bind fun body => fingerprintLoop body 0

def crcShift (c : BitVec 32) : BitVec 32 :=
  if c.getLsbD 0 then (c >>> 1) ^^^ 0xEDB88320#32 else c >>> 1

/-- `crc32.ChecksumIEEE`, bit by bit. -/
def checksumIEEE (data : List UInt8) : BitVec 32 :=
  ~~~data.foldl (fun c b => crcShift^[8] (c ^^^ b.toBitVec.zeroExtend 32)) (BitVec.allOnes 32)

example : checksumIEEE [49, 50, 51, 52, 53, 54, 55, 56, 57] = 0xCBF43926#32 := by decide +kernel

def validFingerprint (pkt : List UInt8) : Option Bool := do
  match ← fingerprintOffset pkt with
  | none => return true
  | some off =>
    if off + 8 ≠ pkt.length then return false
    else
      let want := checksumIEEE (← slice pkt 0 off) ^^^ 0x5354554e#32
      let got ← (slice pkt (off + 4) (off + 8)).bind (uint 4)
      return want.toNat = got

theorem fingerprintOffset_isSome (pkt : List UInt8) : (fingerprintOffset pkt).isSome := by
  unfold fingerprintOffset
  split_ifs with hlen
  · rfl
  · rw [slice_from (by omega), Option.bind_some, fingerprintLoop_eq]
    rfl

theorem validFingerprint_isSome (pkt : List UInt8) : (validFingerprint pkt).isSome := by
  obtain ⟨off, hoff⟩ := Option.isSome_iff_exists.mp (fingerprintOffset_isSome pkt)
  rw [validFingerprint, hoff]
  simp only [Option.bind_eq_bind, Option.bind_some]
  cases off with
  | none => rfl
  | some off =>
    by_cases hend : off + 8 = pkt.length
    · have hwant : slice pkt 0 off = _ := slice_zero (by omega)
      have hgot : (slice pkt (off + 4) (off + 8)).bind (uint 4) = _ := uint_slice rfl hend.le
      simp only [hwant, hgot, Option.bind_some, if_neg (not_not.mpr hend)]
      rfl
    · simp only [if_pos hend]
      rfl

end NetBerth.StunMessage
