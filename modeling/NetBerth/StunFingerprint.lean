import NetBerth.StunMessage

/-!
# Fingerprints

A fingerprint is the last attribute of its message, has four bytes, and holds the
checksum of what is before it. The check computes where a value of four bytes would
be and does not look at the length in the attribute's own header: a message whose
fingerprint claims fewer bytes passes if the checksum stands in the last four.
-/
namespace NetBerth.StunFingerprint
open ByteStream (getBE putBE)
open StunMessage TaggedRecords

section
variable (pkt : List UInt8)

/-- The attributes of a message, as the walk visits them. -/
def visited : List Record := records (pkt.drop 20) 0

def firstFingerprint : Option Record := (visited pkt).find? (·.kind = attrFingerprint)

/-- What a fingerprint at an offset has to hold. -/
def expected (off : ℕ) : ℕ := (checksumIEEE (pkt.take off) ^^^ 0x5354554e#32).toNat

/-- Nothing of the message is after the attribute, whose four bytes are the checksum of
what is before it. -/
structure Sealed (r : Record) : Prop where
  last : pkt.length ≤ 20 + r.next
  length : r.value.length = 4
  value : getBE r.value = expected pkt (20 + r.offset)

/-- There is no fingerprint, or the first is a proper one. -/
def Intact : Prop :=
  (∀ r ∈ visited pkt, r.kind ≠ attrFingerprint) ∨
    ∃ r, firstFingerprint pkt = some r ∧ Sealed pkt r

/-- The fingerprint is too short, and the checksum stands in the last four bytes. -/
def Misread (r : Record) : Prop :=
  r.value.length < 4 ∧ 20 + r.offset + 8 = pkt.length ∧
    getBE (pkt.drop (20 + r.offset + 4)) = expected pkt (20 + r.offset)

theorem visited_of_short (h : pkt.length < 24) : visited pkt = [] := by
  rw [visited, records, recordAt, if_neg]
  rw [List.length_drop]
  omega

theorem fingerprintOffset_eq :
    fingerprintOffset pkt = some ((firstFingerprint pkt).map (20 + ·.offset)) := by
  unfold fingerprintOffset
  split_ifs with hlen
  · rw [firstFingerprint, visited_of_short pkt hlen]
    rfl
  · rw [slice_from (by omega), Option.bind_some, fingerprintLoop_eq]
    rfl

variable {pkt}

theorem validFingerprint_of_none (h : firstFingerprint pkt = none) :
    validFingerprint pkt = some true := by
  rw [validFingerprint, fingerprintOffset_eq, h]
  rfl

/-- The value is read from the end of the message. -/
theorem validFingerprint_of_some {r : Record} (h : firstFingerprint pkt = some r) :
    validFingerprint pkt = some true ↔ 20 + r.offset + 8 = pkt.length ∧
      getBE (pkt.drop (20 + r.offset + 4)) = expected pkt (20 + r.offset) := by
  rw [validFingerprint, fingerprintOffset_eq, h, Option.map_some]
  simp only [Option.bind_eq_bind, Option.bind_some]
  by_cases hend : 20 + r.offset + 8 = pkt.length
  · have hwant : slice pkt 0 (20 + r.offset) = _ := slice_zero (by omega)
    have hgot : (slice pkt (20 + r.offset + 4) (20 + r.offset + 8)).bind (uint 4) = _ :=
      uint_slice rfl hend.le
    have htail : (pkt.drop (20 + r.offset + 4)).take 4 = pkt.drop (20 + r.offset + 4) := by
      rw [List.take_of_length_le]
      rw [List.length_drop]
      omega
    simp only [hwant, hgot, Option.bind_some, if_neg (not_not.mpr hend), htail]
    simp [hend, expected, eq_comm]
  · simp [hend]

/-- The attribute that is found fits into the message. -/
theorem firstFingerprint_spec {r : Record} (h : firstFingerprint pkt = some r) :
    20 + r.finish ≤ pkt.length ∧ r.offset % 4 = 0 ∧
      r.value = (pkt.drop (20 + r.offset + 4)).take r.value.length := by
  obtain ⟨hat, hoffset⟩ := recordAt_of_mem (Nat.zero_mod _) (List.mem_of_find?_eq_some h)
  obtain ⟨hpos, hfit, -, -, -, hvalue⟩ := recordAt_spec hat
  rw [List.length_drop] at hpos hfit
  refine ⟨by simp only [Record.finish]; omega, hoffset, ?_⟩
  rw [slice_of_le (Nat.le_add_right _ _) (by rw [List.length_drop]; omega),
    Nat.add_sub_cancel_left, List.drop_drop, ← Nat.add_assoc] at hvalue
  exact (Option.some.inj hvalue).symm

theorem sealed_iff {r : Record} (h : firstFingerprint pkt = some r) (hlen : r.value.length = 4) :
    Sealed pkt r ↔ 20 + r.offset + 8 = pkt.length ∧
      getBE (pkt.drop (20 + r.offset + 4)) = expected pkt (20 + r.offset) := by
  obtain ⟨hfit, hoffset, hvalue⟩ := firstFingerprint_spec h
  have hfinish : r.finish = r.offset + 8 := by rw [Record.finish, hlen]
  have hnext : r.next = r.offset + 8 := by
    rw [Record.next, hfinish]
    exact align_of_mod (by omega)
  have hread (hend : 20 + r.offset + 8 = pkt.length) :
      pkt.drop (20 + r.offset + 4) = r.value := by
    rw [hvalue, hlen, List.take_of_length_le]
    rw [List.length_drop]
    omega
  constructor
  · intro hsealed
    have hlast := hsealed.last
    have hend : 20 + r.offset + 8 = pkt.length := by omega
    exact ⟨hend, (congrArg getBE (hread hend)).trans hsealed.value⟩
  · rintro ⟨hend, hvalue⟩
    exact ⟨by omega, hlen, (congrArg getBE (hread hend)).symm.trans hvalue⟩

theorem intact_of_none (h : firstFingerprint pkt = none) : Intact pkt := by
  refine .inl fun r hr hkind => ?_
  have hno := List.find?_eq_none.mp h r hr
  exact hno (decide_eq_true hkind)

theorem intact_iff_sealed {r : Record} (h : firstFingerprint pkt = some r) :
    Intact pkt ↔ Sealed pkt r := by
  constructor
  · rintro (hnone | ⟨r', hr', hsealed⟩)
    · have hkind := List.find?_some h
      exact absurd (of_decide_eq_true hkind) (hnone r (List.mem_of_find?_eq_some h))
    · rw [h] at hr'
      exact Option.some.inj hr' ▸ hsealed
  · intro hsealed
    exact .inr ⟨r, h, hsealed⟩

end

/-- The check is right about a message unless its first fingerprint is misread. -/
theorem validFingerprint_exact_iff (pkt : List UInt8) :
    (validFingerprint pkt = some true ↔ Intact pkt) ↔
      ∀ r, firstFingerprint pkt = some r → ¬Misread pkt r := by
  cases hfirst : firstFingerprint pkt with
  | none =>
    have hvalid := validFingerprint_of_none hfirst
    have hintact := intact_of_none hfirst
    exact iff_of_true (iff_of_true hvalid hintact) (fun r hr => nomatch hr)
  | some r =>
    rw [validFingerprint_of_some hfirst, intact_iff_sealed hfirst]
    by_cases hlen : r.value.length = 4
    · refine iff_of_true (sealed_iff hfirst hlen).symm ?_
      intro r' hr' hmisread
      cases hr'
      exact absurd hlen hmisread.1.ne
    · have hno : ¬Sealed pkt r := fun hsealed => hlen hsealed.length
      obtain ⟨hfit, -⟩ := firstFingerprint_spec hfirst
      rw [Record.finish] at hfit
      rw [iff_false_right hno]
      constructor
      · intro hrejected r' hr' hmisread
        cases hr'
        exact hrejected hmisread.2
      · intro hnot hmatch
        exact hnot r rfl ⟨by omega, hmatch⟩

/-- A fingerprint of one byte, with the checksum in the last four. -/
theorem short_fingerprint_accepted :
    let header : List UInt8 := [1, 1, 0, 8, 33, 18, 164, 66] ++ List.replicate 12 0
    let pkt := header ++ [128, 40, 0, 1, 215, 205, 194, 176]
    validFingerprint pkt = some true ∧ visited pkt = [⟨0, attrFingerprint, [215]⟩] ∧
      ¬Intact pkt := by
  intro header pkt
  have hvisited : visited pkt = [⟨0, attrFingerprint, [215]⟩] := by decide +kernel
  have hfirst : firstFingerprint pkt = some ⟨0, attrFingerprint, [215]⟩ := by
    rw [firstFingerprint, hvisited]
    rfl
  refine ⟨by decide +kernel, hvisited, ?_⟩
  rw [intact_iff_sealed hfirst]
  intro hsealed
  cases hsealed.length

end NetBerth.StunFingerprint
