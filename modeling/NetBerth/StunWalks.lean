import NetBerth.StunMessage

/-!
# Two walks over one body

The loop that decodes a response and the loop that looks for the fingerprint read one attribute
header after another. With each of them the headers it reads are kept, also the last one where the
rest of the message is unusable. Both read the same headers at the same offsets, up to the first
fingerprint, and no read of either is out of range.
-/
namespace NetBerth.StunWalks
open ByteStream (getBE)
open StunMessage TaggedRecords

/-- The four bytes before a value. -/
structure Header where
  offset : ℕ
  attrType : ℕ
  attrLen : ℕ
  deriving DecidableEq, Repr

/-! ## The loops, with the headers they read -/

section
variable (data : List UInt8) (tid : TransID)

def attributeWalk (pos : ℕ) (out : Attributes) : Option (List Header × Attributes) :=
  if _h : pos + 4 ≤ data.length then do
    let attrType ← (slice data pos data.length).bind (uint 2)
    let attrLen ← (slice data (pos + 2) data.length).bind (uint 2)
    let header := ⟨pos, attrType, attrLen⟩
    let valuePos := pos + 4
    if attrLen > data.length - valuePos then return ([header], out)
    else
      let value ← slice data valuePos (valuePos + attrLen)
      let out ← visit tid out attrType attrLen value
      let (headers, out) ← attributeWalk (align (valuePos + attrLen)) out
      return (header :: headers, out)
  else some ([], out)
termination_by data.length - pos
decreasing_by
  have hnext := le_align (pos + 4 + attrLen)
  omega

def fingerprintWalk (pos : ℕ) : Option (List Header × Option ℕ) :=
  if _h : pos + 4 ≤ data.length then do
    let attrType ← (slice data pos data.length).bind (uint 2)
    let attrLen ← (slice data (pos + 2) data.length).bind (uint 2)
    let header := ⟨pos, attrType, attrLen⟩
    let valuePos := pos + 4
    if attrLen > data.length - valuePos then return ([header], none)
    else if attrType = attrFingerprint then return ([header], some (20 + pos))
    else
      let (headers, off) ← fingerprintWalk (align (valuePos + attrLen))
      return (header :: headers, off)
  else some ([], none)
termination_by data.length - pos
decreasing_by
  have hnext := le_align (pos + 4 + attrLen)
  omega

end

/-! ## What they read -/

section
variable {data : List UInt8} {tid : TransID}

def headerAt (data : List UInt8) (pos : ℕ) : Header :=
  ⟨pos, getBE ((data.drop pos).take 2), sizeAt data pos⟩

theorem attributeWalk_of_short {pos : ℕ} (h : ¬pos + 4 ≤ data.length) (out : Attributes) :
    attributeWalk data tid pos out = some ([], out) := by
  rw [attributeWalk, dif_neg h]

theorem attributeWalk_of_none {pos : ℕ} (hpos : pos + 4 ≤ data.length)
    (h : recordAt data pos = none) (out : Attributes) :
    attributeWalk data tid pos out = some ([headerAt data pos], out) := by
  rw [attributeWalk, dif_pos hpos, uint_from (by omega), uint_from (by omega)]
  exact if_pos (cut_of_recordAt h hpos)

theorem attributeWalk_of_some {pos : ℕ} {r : Record} (h : recordAt data pos = some r)
    (out : Attributes) :
    attributeWalk data tid pos out =
      (visit tid out r.kind r.value.length r.value).bind fun out =>
        (attributeWalk data tid r.next out).map fun w => (headerAt data pos :: w.1, w.2) := by
  obtain ⟨hpos, hfit, hoffset, hkind, hsize, hvalue⟩ := recordAt_spec h
  rw [attributeWalk, dif_pos hpos, uint_from (by omega), uint_from (by omega), headerAt, ← sizeAt,
    hsize, ← hkind]
  simp only [Option.bind_eq_bind, Option.bind_some, Record.next, Record.finish, hoffset]
  rw [if_neg (not_lt.mpr hfit), hvalue, Option.bind_some]
  refine Option.bind_congr fun out _ => ?_
  rw [Option.map_eq_bind]
  rfl

theorem fingerprintWalk_of_short {pos : ℕ} (h : ¬pos + 4 ≤ data.length) :
    fingerprintWalk data pos = some ([], none) := by
  rw [fingerprintWalk, dif_neg h]

theorem fingerprintWalk_of_none {pos : ℕ} (hpos : pos + 4 ≤ data.length)
    (h : recordAt data pos = none) :
    fingerprintWalk data pos = some ([headerAt data pos], none) := by
  rw [fingerprintWalk, dif_pos hpos, uint_from (by omega), uint_from (by omega)]
  exact if_pos (cut_of_recordAt h hpos)

theorem fingerprintWalk_of_some {pos : ℕ} {r : Record} (h : recordAt data pos = some r) :
    fingerprintWalk data pos =
      if r.kind = attrFingerprint then some ([headerAt data pos], some (20 + r.offset))
      else (fingerprintWalk data r.next).map fun w => (headerAt data pos :: w.1, w.2) := by
  obtain ⟨hpos, hfit, hoffset, hkind, hsize, -⟩ := recordAt_spec h
  rw [fingerprintWalk, dif_pos hpos, uint_from (by omega), uint_from (by omega), headerAt, ← sizeAt,
    hsize, ← hkind]
  simp only [Option.bind_eq_bind, Option.bind_some, Record.next, Record.finish, hoffset]
  rw [if_neg (not_lt.mpr hfit), Option.map_eq_bind]
  rfl

/-- The walk is the loop. -/
theorem attributeWalk_snd (pos : ℕ) (out : Attributes) :
    (attributeWalk data tid pos out).map Prod.snd = attributeLoop data tid pos out := by
  fun_induction records data pos generalizing out with
  | case1 pos hr =>
    rw [attributeLoop_of_none tid hr]
    by_cases hpos : pos + 4 ≤ data.length
    · rw [attributeWalk_of_none hpos hr]
      rfl
    · rw [attributeWalk_of_short hpos]
      rfl
  | case2 pos r hr ih =>
    rw [attributeLoop_of_some tid hr, attributeWalk_of_some hr, Option.map_bind]
    refine Option.bind_congr fun out _ => ?_
    rw [← ih, Function.comp_apply, Option.map_map]
    rfl

theorem fingerprintWalk_snd (pos : ℕ) :
    (fingerprintWalk data pos).map Prod.snd = fingerprintLoop data pos := by
  fun_induction records data pos with
  | case1 pos hr =>
    rw [fingerprintLoop_of_none hr]
    by_cases hpos : pos + 4 ≤ data.length
    · rw [fingerprintWalk_of_none hpos hr]
      rfl
    · rw [fingerprintWalk_of_short hpos]
      rfl
  | case2 pos r hr ih =>
    rw [fingerprintLoop_of_some hr, fingerprintWalk_of_some hr, ← ih]
    split_ifs
    · rfl
    · rw [Option.map_map]
      rfl

end

/-! ## They agree -/

def Header.isFingerprint (h : Header) : Bool := h.attrType = attrFingerprint

def upToFingerprint : List Header → List Header
  | [] => []
  | h :: headers => if h.isFingerprint then [h] else h :: upToFingerprint headers

theorem walks_eq (data : List UInt8) (tid : TransID) (pos : ℕ) (out : Attributes) :
    ∃ parsed out' off, attributeWalk data tid pos out = some (parsed, out') ∧
      fingerprintWalk data pos = some (upToFingerprint parsed, off) := by
  fun_induction records data pos generalizing out with
  | case1 pos hr =>
    by_cases hpos : pos + 4 ≤ data.length
    · refine ⟨[headerAt data pos], out, none, attributeWalk_of_none hpos hr out, ?_⟩
      rw [fingerprintWalk_of_none hpos hr, upToFingerprint]
      split_ifs <;> rfl
    · exact ⟨[], out, none, attributeWalk_of_short hpos out, fingerprintWalk_of_short hpos⟩
  | case2 pos r hr ih =>
    obtain ⟨out', hvisit⟩ := Option.isSome_iff_exists.mp (visit_isSome tid out r)
    obtain ⟨parsed, last, off, hparsed, hsearched⟩ := ih out'
    have hkind : (headerAt data pos).isFingerprint = decide (r.kind = attrFingerprint) := by
      rw [(recordAt_spec hr).2.2.2.1]
      rfl
    have hwalk : attributeWalk data tid pos out = some (headerAt data pos :: parsed, last) := by
      rw [attributeWalk_of_some hr, hvisit, Option.bind_some, hparsed, Option.map_some]
    by_cases hfirst : r.kind = attrFingerprint
    · refine ⟨headerAt data pos :: parsed, last, some (20 + r.offset), hwalk, ?_⟩
      rw [fingerprintWalk_of_some hr, if_pos hfirst, upToFingerprint, hkind, decide_eq_true hfirst]
      rfl
    · refine ⟨headerAt data pos :: parsed, last, off, hwalk, ?_⟩
      rw [fingerprintWalk_of_some hr, if_neg hfirst, hsearched, Option.map_some, upToFingerprint,
        hkind, decide_eq_false hfirst]
      rfl

/-- One walk reads the first headers of the other, and ends with the first fingerprint that there
is. -/
structure Agree (searched parsed : List Header) : Prop where
  begins : searched <+: parsed
  first : ∀ h, parsed.find? Header.isFingerprint = some h → searched.getLast? = some h
  all : (∀ h ∈ parsed, h.isFingerprint = false) → searched = parsed

theorem agree_upToFingerprint (parsed : List Header) : Agree (upToFingerprint parsed) parsed := by
  induction parsed with
  | nil => exact ⟨List.nil_prefix, by simp, fun _ => rfl⟩
  | cons h parsed ih =>
    obtain ⟨hbegins, hfirst, hall⟩ := ih
    cases hkind : h.isFingerprint with
    | true =>
      rw [upToFingerprint, hkind, if_pos rfl]
      refine ⟨List.prefix_append [h] parsed, fun first hfind => ?_, fun hnone => ?_⟩
      · rw [List.find?_cons_of_pos hkind] at hfind
        exact hfind
      · exact absurd (hnone h List.mem_cons_self) (by simp [hkind])
    | false =>
      rw [upToFingerprint, hkind, if_neg Bool.false_ne_true]
      refine ⟨List.cons_prefix_cons.mpr ⟨rfl, hbegins⟩, fun first hfind => ?_, fun hnone => ?_⟩
      · rw [List.find?_cons_of_neg (by simp [hkind])] at hfind
        rw [List.getLast?_cons, hfirst first hfind]
        rfl
      · rw [hall fun other hother => hnone other (List.mem_cons_of_mem h hother)]

/-- No read is out of range, and the walks over the body of a message agree. -/
theorem walks_total_and_agree :
    (∀ data, (parseHeader data).isSome ∧ (∀ tid, (parseAttributes data tid).isSome) ∧
      (∀ xor tid, (parseAddressValue data xor tid).isSome) ∧ (fingerprintOffset data).isSome ∧
        (validFingerprint data).isSome) ∧
    ∀ pkt tid, 24 ≤ pkt.length → ∃ body parsed out searched off,
      slice pkt 20 pkt.length = some body ∧
        (attributeWalk body tid 0 {} = some (parsed, out) ∧ parseAttributes body tid = some out) ∧
        (fingerprintWalk body 0 = some (searched, off) ∧ fingerprintOffset pkt = some off) ∧
          Agree searched parsed := by
  constructor
  · intro data
    refine ⟨?_, parseAttributes_isSome data, parseAddressValue_isSome data,
      fingerprintOffset_isSome data, validFingerprint_isSome data⟩
    rw [parseHeader_eq]
    rfl
  · intro pkt tid hlen
    obtain ⟨parsed, out, off, hparsed, hsearched⟩ := walks_eq (pkt.drop 20) tid 0 {}
    refine ⟨pkt.drop 20, parsed, out, upToFingerprint parsed, off, slice_from (by omega),
      ⟨hparsed, ?_⟩, ⟨hsearched, ?_⟩, agree_upToFingerprint parsed⟩
    · rw [parseAttributes, ← attributeWalk_snd, hparsed]
      rfl
    · rw [fingerprintOffset, if_neg (not_lt.mpr hlen), slice_from (by omega), Option.bind_some,
        ← fingerprintWalk_snd, hsearched]
      rfl

/-- A message of a header and one fingerprint. -/
def sealedMessage : List UInt8 :=
  [0x01, 0x01, 0x00, 0x08, 0x21, 0x12, 0xa4, 0x42] ++ List.replicate 12 0 ++
    [0x80, 0x28, 0x00, 0x04, 0x00, 0x00, 0x00, 0x00]

theorem walks_agree_sealed : ∃ body parsed out searched off,
    slice sealedMessage 20 sealedMessage.length = some body ∧
      (attributeWalk body (copyTransID []) 0 {} = some (parsed, out) ∧
        parseAttributes body (copyTransID []) = some out) ∧
      (fingerprintWalk body 0 = some (searched, off) ∧ fingerprintOffset sealedMessage = some off) ∧
        Agree searched parsed :=
  walks_total_and_agree.2 sealedMessage (copyTransID []) (by decide)

end NetBerth.StunWalks
