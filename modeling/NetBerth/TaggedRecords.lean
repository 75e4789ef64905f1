import NetBerth.ByteStream

/-!
# Tagged records

A body is a row of records: a kind and a length of two bytes each, and a value
of this length, padded to a multiple of four. A walk visits the records from an
offset on and stops at the first that is cut off, or where no four bytes are
left.

Reads are checked: one that is out of range has no result. A loop over the
records is a fold over what the walk visits, and has a result when its body has
one for every record.
-/
namespace TaggedRecords
open ByteStream (getBE putBE getBE_putBE length_putBE)

/-! ## Checked reads -/

/-- `data[lo:hi]`. -/
def slice {α : Type*} (data : List α) (lo hi : ℕ) : Option (List α) :=
  if lo ≤ hi ∧ hi ≤ data.length then some ((data.drop lo).take (hi - lo)) else none

/-- The number in the first `width` bytes. -/
def uint (width : ℕ) (data : List UInt8) : Option ℕ :=
  if width ≤ data.length then some (getBE (data.take width)) else none

section
variable {α : Type*} {data : List α} {lo hi : ℕ}

theorem slice_of_le (hlo : lo ≤ hi) (hhi : hi ≤ data.length) :
    slice data lo hi = some ((data.drop lo).take (hi - lo)) := if_pos ⟨hlo, hhi⟩

theorem slice_from (h : lo ≤ data.length) : slice data lo data.length = some (data.drop lo) := by
  rw [slice_of_le h le_rfl, List.take_of_length_le (by simp)]

theorem slice_zero (h : hi ≤ data.length) : slice data 0 hi = some (data.take hi) := by
  rw [slice_of_le (Nat.zero_le _) h, List.drop_zero, Nat.sub_zero]

end

theorem uint_of_le {width : ℕ} {data : List UInt8} (h : width ≤ data.length) :
    uint width data = some (getBE (data.take width)) := if_pos h

theorem uint_slice {width lo hi : ℕ} {data : List UInt8} (hwidth : lo + width = hi)
    (hhi : hi ≤ data.length) :
    (slice data lo hi).bind (uint width) = some (getBE ((data.drop lo).take width)) := by
  subst hwidth
  rw [slice_of_le (Nat.le_add_right _ _) hhi, Option.bind_some, Nat.add_sub_cancel_left,
    uint_of_le, List.take_take, min_self]
  rw [List.length_take, List.length_drop]
  omega

theorem uint_from {width lo : ℕ} {data : List UInt8} (h : lo + width ≤ data.length) :
    (slice data lo data.length).bind (uint width) = some (getBE ((data.drop lo).take width)) := by
  rw [slice_from (by omega), Option.bind_some, uint_of_le]
  rw [List.length_drop]
  omega

/-! ## The walk -/

/-- The next multiple of four. -/
def align (pos : ℕ) : ℕ := if pos % 4 ≠ 0 then pos + (4 - pos % 4) else pos

theorem le_align (pos : ℕ) : pos ≤ align pos := by
  unfold align
  split_ifs <;> omega

theorem align_mod (pos : ℕ) : align pos % 4 = 0 := by
  unfold align
  split_ifs <;> omega

theorem align_of_mod {pos : ℕ} (h : pos % 4 = 0) : align pos = pos := if_neg (not_not.mpr h)

structure Record where
  offset : ℕ
  kind : ℕ
  value : List UInt8
  deriving DecidableEq, Repr

namespace Record

def finish (r : Record) : ℕ := r.offset + 4 + r.value.length

def next (r : Record) : ℕ := align r.finish

theorem lt_next (r : Record) : r.offset + 4 ≤ r.next :=
  (Nat.le_add_right _ _).trans (le_align _)

end Record

section
variable (data : List UInt8)

/-- The length in the header at an offset. -/
def sizeAt (pos : ℕ) : ℕ := getBE ((data.drop (pos + 2)).take 2)

def recordAt (pos : ℕ) : Option Record :=
  if pos + 4 ≤ data.length ∧ sizeAt data pos ≤ data.length - (pos + 4) then
    some ⟨pos, getBE ((data.drop pos).take 2), (data.drop (pos + 4)).take (sizeAt data pos)⟩
  else none

variable {data} {pos : ℕ} {r : Record}

theorem recordAt_spec (h : recordAt data pos = some r) :
    pos + 4 ≤ data.length ∧ r.value.length ≤ data.length - (pos + 4) ∧ r.offset = pos ∧
      r.kind = getBE ((data.drop pos).take 2) ∧ sizeAt data pos = r.value.length ∧
      slice data (pos + 4) (pos + 4 + r.value.length) = some r.value := by
  rw [recordAt] at h
  split_ifs at h with hfit
  obtain ⟨hpos, hsize⟩ := hfit
  have hlen : ((data.drop (pos + 4)).take (sizeAt data pos)).length = sizeAt data pos := by
    rw [List.length_take_of_le]
    rw [List.length_drop]
    exact hsize
  rw [← Option.some.inj h]
  simp only [hlen]
  refine ⟨hpos, hsize, trivial, trivial, trivial, ?_⟩
  rw [slice_of_le (Nat.le_add_right _ _) (by omega), Nat.add_sub_cancel_left]

theorem cut_of_recordAt (h : recordAt data pos = none) (hpos : pos + 4 ≤ data.length) :
    data.length - (pos + 4) < sizeAt data pos := by
  by_contra hfit
  rw [recordAt, if_pos ⟨hpos, not_lt.mp hfit⟩] at h
  cases h

theorem walk_decreases (h : recordAt data pos = some r) :
    data.length - r.next < data.length - pos := by
  obtain ⟨hpos, -, hoffset, -⟩ := recordAt_spec h
  have hnext := r.lt_next
  omega

variable (data) in
/-- The records visited from an offset on. -/
def records (pos : ℕ) : List Record :=
  match _h : recordAt data pos with
  | none => []
  | some r => r :: records r.next
termination_by data.length - pos
decreasing_by exact walk_decreases _h

theorem records_of_none (h : recordAt data pos = none) : records data pos = [] := by
  rw [records, h]

theorem records_of_some (h : recordAt data pos = some r) :
    records data pos = r :: records data r.next := by
  rw [records, h]

/-- What is visited is where the walk says it is, at a multiple of four. -/
theorem recordAt_of_mem (hpos : pos % 4 = 0) (h : r ∈ records data pos) :
    recordAt data r.offset = some r ∧ r.offset % 4 = 0 := by
  fun_induction records data pos with
  | case1 pos hr => exact absurd h List.not_mem_nil
  | case2 pos first hr ih =>
    rcases List.mem_cons.mp h with rfl | hrest
    · obtain ⟨-, -, hoffset, -⟩ := recordAt_spec hr
      rw [hoffset]
      exact ⟨hr, hpos⟩
    · exact ih (align_mod _) hrest

end

/-! ## Writing records -/

/-- A record to be written. What the padding holds is free. -/
structure Field where
  kind : ℕ
  value : List UInt8
  pad : List UInt8
  kind_lt : kind < 2 ^ 16
  length_lt : value.length < 2 ^ 16
  pad_length : pad.length = (4 - value.length % 4) % 4
  deriving DecidableEq

namespace Field
variable (f : Field)

def encode : List UInt8 := putBE 2 f.kind ++ (putBE 2 f.value.length ++ (f.value ++ f.pad))

theorem length_encode : f.encode.length = 4 + f.value.length + f.pad.length := by
  simp only [encode, List.length_append, length_putBE]
  omega

theorem length_encode_mod : f.encode.length % 4 = 0 := by
  have hpad := f.pad_length
  rw [length_encode]
  omega

end Field

def encode (fields : List Field) : List UInt8 := fields.flatMap Field.encode

section
variable {before : List UInt8} (f : Field) (after : List UInt8)

/-- A record is read where it was written. -/
theorem recordAt_encode : recordAt (before ++ (f.encode ++ after)) before.length =
    some ⟨before.length, f.kind, f.value⟩ := by
  have hlen := f.length_encode
  have hat : (before ++ (f.encode ++ after)).drop before.length = f.encode ++ after :=
    List.drop_left' rfl
  have hkind : (f.encode ++ after).take 2 = putBE 2 f.kind := by
    rw [Field.encode, List.append_assoc, List.take_left' (length_putBE 2 _)]
  have hrest : (f.encode ++ after).drop 2 =
      putBE 2 f.value.length ++ (f.value ++ f.pad ++ after) := by
    rw [Field.encode, List.append_assoc, List.drop_left' (length_putBE 2 _), List.append_assoc]
  have hsize : sizeAt (before ++ (f.encode ++ after)) before.length = f.value.length := by
    rw [sizeAt, ← List.drop_drop, hat, hrest, List.take_left' (length_putBE 2 _), getBE_putBE]
    exact Nat.mod_eq_of_lt f.length_lt
  have hvalue : ((f.encode ++ after).drop 4).take f.value.length = f.value := by
    rw [show 4 = 2 + 2 from rfl, ← List.drop_drop, hrest, List.drop_left' (length_putBE 2 _),
      List.append_assoc, List.take_left' rfl]
  have hexact : getBE (putBE 2 f.kind) = f.kind :=
    (getBE_putBE 2 _).trans (Nat.mod_eq_of_lt f.kind_lt)
  rw [recordAt, hsize, if_pos, ← List.drop_drop, hat, hkind, hvalue, hexact]
  rw [List.length_append, List.length_append]
  omega

theorem next_encode (hbefore : before.length % 4 = 0) :
    (⟨before.length, f.kind, f.value⟩ : Record).next = (before ++ f.encode).length := by
  have hmod := f.length_encode_mod
  have hpad := f.pad_length
  rw [f.length_encode] at hmod
  rw [List.length_append, f.length_encode, Record.next, Record.finish, align]
  dsimp only
  split_ifs <;> omega

end

/-- The walk visits what was written, in this order. -/
theorem records_encode (fields : List Field) {before : List UInt8}
    (hbefore : before.length % 4 = 0) :
    (records (before ++ encode fields) before.length).map (fun r => (r.kind, r.value)) =
      fields.map fun f => (f.kind, f.value) := by
  induction fields generalizing before with
  | nil =>
    have hend : recordAt (before ++ encode []) before.length = none := by
      rw [recordAt, if_neg]
      simp [encode]
    rw [records_of_none hend]
    rfl
  | cons f fields ih =>
    have hall : before ++ encode (f :: fields) = before ++ (f.encode ++ encode fields) := by
      rw [encode, List.flatMap_cons, encode]
    have hmod : (before ++ f.encode).length % 4 = 0 := by
      have hencode := f.length_encode_mod
      rw [List.length_append]
      omega
    rw [hall, records_of_some (recordAt_encode f _), next_encode f hbefore, ← List.append_assoc]
    exact congrArg _ (ih hmod)

/-! ## Loops over the walk -/

section
variable {σ : Type*} {data : List UInt8}

/-- A loop with an accumulator folds its body over the records. -/
theorem loop_eq_foldlM {f : σ → Record → Option σ} {loop : ℕ → σ → Option σ}
    (hstop : ∀ pos s, recordAt data pos = none → loop pos s = some s)
    (hstep : ∀ pos s r, recordAt data pos = some r → loop pos s = (f s r).bind (loop r.next))
    (pos : ℕ) (s : σ) : loop pos s = (records data pos).foldlM f s := by
  fun_induction records data pos generalizing s with
  | case1 pos hr => exact hstop pos s hr
  | case2 pos r hr ih =>
    rw [hstep pos s r hr, List.foldlM_cons]
    exact congrArg _ (funext ih)

/-- A loop that returns at the first record of some sort finds it among the records. -/
theorem loop_eq_find {β : Type*} {p : Record → Bool} {f : Record → β} {loop : ℕ → Option (Option β)}
    (hstop : ∀ pos, recordAt data pos = none → loop pos = some none)
    (hstep : ∀ pos r, recordAt data pos = some r →
      loop pos = if p r then some (some (f r)) else loop r.next)
    (pos : ℕ) : loop pos = some (((records data pos).find? p).map f) := by
  fun_induction records data pos with
  | case1 pos hr => exact hstop pos hr
  | case2 pos r hr ih =>
    rw [hstep pos r hr, List.find?_cons]
    cases p r with
    | true => rfl
    | false => exact ih

theorem foldlM_isSome {f : σ → Record → Option σ} (hf : ∀ s r, (f s r).isSome)
    (rs : List Record) (s : σ) : (rs.foldlM f s).isSome := by
  induction rs generalizing s with
  | nil => rfl
  | cons r rs ih =>
    obtain ⟨t, ht⟩ := Option.isSome_iff_exists.mp (hf s r)
    rw [List.foldlM_cons, ht]
    exact ih t

end
end TaggedRecords
