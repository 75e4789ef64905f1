import NetBerth.Transitions

/-!
# Copying a stream that is still being sent

A copy reads what its source has sent, some at a time, and writes it to its destination, which
takes it some at a time too. It returns when the source has ended and everything is written, or
when a read or a write fails. The source goes on in the meantime.

At any time the destination has a first part of what has been sent, in its order, and the copy
has counted what the destination has. A copy that has not failed has left nothing behind.
-/
namespace StreamCopy
open Transitions

inductive Phase (α : Type*) where
  | reading
  | writing (chunk : List α) (taken : ℕ)
  | returned (failed : Bool)
  deriving DecidableEq, Repr

/-- A source, the copy, and its destination. -/
structure Copy (α : Type*) where
  sent : List α
  ended : Bool
  read : ℕ
  received : List α
  written : ℕ
  phase : Phase α
  deriving DecidableEq, Repr

/-- What the source does, and what the copy does. -/
inductive Event (α : Type*) where
  | send (xs : List α)
  | finish
  | read (k : ℕ)
  | eof
  | write (k : ℕ)
  | wrote
  | fail
  deriving DecidableEq, Repr

/-- The steps of a copy whose destination takes what is written, and that does not fail. -/
def Event.unhindered {α : Type*} : Event α → Prop
  | .read _ | .eof | .write _ | .wrote => True
  | _ => False

section
variable {α : Type*} {c c' : Copy α} {e : Event α}

namespace Copy

def start : Copy α := ⟨[], false, 0, [], 0, .reading⟩

def step (c : Copy α) : Event α → Option (Copy α)
  | .send xs => if c.ended = false then some { c with sent := c.sent ++ xs } else none
  | .finish => if c.ended = false then some { c with ended := true } else none
  | .read k =>
    match c.phase with
    | .reading =>
      if 0 < k ∧ c.read + k ≤ c.sent.length then
        some { c with read := c.read + k, phase := .writing ((c.sent.drop c.read).take k) 0 }
      else none
    | _ => none
  | .eof =>
    match c.phase with
    | .reading =>
      if c.ended = true ∧ c.read = c.sent.length then some { c with phase := .returned false }
      else none
    | _ => none
  | .write k =>
    match c.phase with
    | .writing chunk taken =>
      if 0 < k ∧ taken + k ≤ chunk.length then
        some { c with
          received := c.received ++ (chunk.drop taken).take k, phase := .writing chunk (taken + k) }
      else none
    | _ => none
  | .wrote =>
    match c.phase with
    | .writing chunk taken =>
      if taken = chunk.length then
        some { c with written := c.written + taken, phase := .reading }
      else none
    | _ => none
  | .fail =>
    match c.phase with
    | .reading => some { c with phase := .returned true }
    | .writing _ taken =>
      some { c with written := c.written + taken, phase := .returned true }
    | .returned _ => none

/-- What the destination has taken of the chunk that is being written. -/
def inFlight (c : Copy α) : ℕ :=
  match c.phase with
  | .writing _ taken => taken
  | _ => 0

/-- How the counters and the chunk stand to each other. -/
def Aligned (c : Copy α) : Prop :=
  match c.phase with
  | .reading => c.written = c.read
  | .writing chunk taken =>
    c.written + chunk.length = c.read ∧ taken ≤ chunk.length ∧
      chunk = (c.sent.drop c.written).take chunk.length
  | .returned failed =>
    c.written ≤ c.read ∧ (failed = false → c.ended = true ∧ c.written = c.sent.length)

/-- The destination has the beginning of what has been sent. -/
structure Faithful (c : Copy α) : Prop where
  read_le : c.read ≤ c.sent.length
  aligned : c.Aligned
  received : c.received = c.sent.take (c.written + c.inFlight)

/-- The most steps that the copy can take before it returns, if nothing more is sent. -/
def work (c : Copy α) : ℕ :=
  match c.phase with
  | .reading => 3 * (c.sent.length - c.read) + 1
  | .writing chunk taken => 3 * (c.sent.length - c.read) + (chunk.length - taken) + 2
  | .returned _ => 0

/-! ## What a step does -/

theorem of_read {k : ℕ} (h : c.step (.read k) = some c') :
    c.phase = .reading ∧ 0 < k ∧ c.read + k ≤ c.sent.length ∧
      c' = { c with read := c.read + k, phase := .writing ((c.sent.drop c.read).take k) 0 } := by
  simp only [step] at h
  split at h
  · rename_i hphase
    obtain ⟨⟨hk, hbound⟩, rfl⟩ := of_guard h
    exact ⟨hphase, hk, hbound, rfl⟩
  · cases h

theorem of_eof (h : c.step .eof = some c') :
    c.phase = .reading ∧ c.ended = true ∧ c.read = c.sent.length ∧
      c' = { c with phase := .returned false } := by
  simp only [step] at h
  split at h
  · rename_i hphase
    obtain ⟨⟨hended, hall⟩, rfl⟩ := of_guard h
    exact ⟨hphase, hended, hall, rfl⟩
  · cases h

theorem of_write {k : ℕ} (h : c.step (.write k) = some c') :
    ∃ chunk taken, c.phase = .writing chunk taken ∧ 0 < k ∧ taken + k ≤ chunk.length ∧
      c' = { c with
        received := c.received ++ (chunk.drop taken).take k, phase := .writing chunk (taken + k) } := by
  simp only [step] at h
  split at h
  · rename_i chunk taken hphase
    obtain ⟨⟨hk, hbound⟩, rfl⟩ := of_guard h
    exact ⟨chunk, taken, hphase, hk, hbound, rfl⟩
  · cases h

theorem of_wrote (h : c.step .wrote = some c') :
    ∃ chunk, c.phase = .writing chunk chunk.length ∧
      c' = { c with written := c.written + chunk.length, phase := .reading } := by
  simp only [step] at h
  split at h
  · rename_i chunk taken hphase
    obtain ⟨rfl, rfl⟩ := of_guard h
    exact ⟨chunk, hphase, rfl⟩
  · cases h

theorem of_fail (h : c.step .fail = some c') :
    (∀ failed, c.phase ≠ .returned failed) ∧
      c' = { c with written := c.written + c.inFlight, phase := .returned true } := by
  simp only [step] at h
  split at h <;> cases h
  · rename_i hphase
    simp [hphase, inFlight]
  · rename_i chunk taken hphase
    simp [hphase, inFlight]

/-! ## What the destination has -/

theorem start_faithful : (start : Copy α).Faithful := ⟨le_rfl, rfl, rfl⟩

theorem Faithful.le (h : c.Faithful) : c.written + c.inFlight ≤ c.read := by
  have haligned := h.aligned
  unfold Aligned inFlight at *
  cases hphase : c.phase with
  | reading => simp only [hphase] at haligned ⊢; omega
  | writing chunk taken => simp only [hphase] at haligned ⊢; omega
  | returned failed => simp only [hphase] at haligned ⊢; omega

theorem Faithful.send (h : c.Faithful) (hended : c.ended = false) (xs : List α) :
    Faithful { c with sent := c.sent ++ xs } := by
  have hle := h.le
  have hread := h.read_le
  have haligned := h.aligned
  refine ⟨?_, ?_, ?_⟩
  · simp only [List.length_append]
    omega
  · unfold Aligned at haligned ⊢
    cases hphase : c.phase with
    | reading =>
      simp only [hphase] at haligned ⊢
      exact haligned
    | writing chunk taken =>
      simp only [hphase] at haligned ⊢
      obtain ⟨hsum, htaken, hchunk⟩ := haligned
      refine ⟨hsum, htaken, ?_⟩
      rw [List.drop_append_of_le_length (by omega), List.take_append_of_le_length, ← hchunk]
      rw [List.length_drop]
      omega
    | returned failed =>
      simp only [hphase] at haligned ⊢
      refine ⟨haligned.1, fun hfailed => ?_⟩
      rw [(haligned.2 hfailed).1] at hended
      cases hended
  · have hsame : c.received = (c.sent ++ xs).take (c.written + c.inFlight) := by
      rw [List.take_append_of_le_length (by omega)]
      exact h.received
    exact hsame

theorem Faithful.step (h : c.Faithful) (hstep : c.step e = some c') : c'.Faithful := by
  have hread := h.read_le
  have haligned := h.aligned
  have hreceived := h.received
  cases e with
  | send xs =>
    obtain ⟨hended, rfl⟩ := of_guard hstep
    exact h.send hended xs
  | finish =>
    obtain ⟨hended, rfl⟩ := of_guard hstep
    refine ⟨hread, ?_, hreceived⟩
    unfold Aligned at haligned ⊢
    cases hphase : c.phase with
    | returned failed =>
      simp only [hphase] at haligned ⊢
      exact ⟨haligned.1, fun hfailed => ⟨trivial, (haligned.2 hfailed).2⟩⟩
    | _ => simpa only [hphase] using haligned
  | read k =>
    obtain ⟨hphase, hk, hbound, rfl⟩ := of_read hstep
    simp only [Aligned, inFlight, hphase] at haligned hreceived
    have hlength : ((c.sent.drop c.read).take k).length = k := by
      rw [List.length_take, List.length_drop]
      omega
    refine ⟨hbound, ?_, hreceived⟩
    simp only [Aligned, hlength, haligned]
    exact ⟨trivial, Nat.zero_le _, trivial⟩
  | eof =>
    obtain ⟨hphase, hended, hall, rfl⟩ := of_eof hstep
    simp only [Aligned, inFlight, hphase] at haligned hreceived
    exact ⟨hread, ⟨haligned.le, fun _ => ⟨hended, haligned.trans hall⟩⟩, hreceived⟩
  | write k =>
    obtain ⟨chunk, taken, hphase, hk, hbound, rfl⟩ := of_write hstep
    simp only [Aligned, inFlight, hphase] at haligned hreceived
    obtain ⟨hsum, htaken, hchunk⟩ := haligned
    refine ⟨hread, ⟨hsum, hbound, hchunk⟩, ?_⟩
    -- what is taken of the chunk continues what has been received
    have hpart : (chunk.drop taken).take k = (c.sent.drop (c.written + taken)).take k := by
      rw [hchunk, List.drop_take, List.drop_drop, List.take_take]
      congr 1
      omega
    have hnext : c.received ++ (chunk.drop taken).take k =
        c.sent.take (c.written + (taken + k)) := by
      rw [hreceived, hpart, ← List.take_add, Nat.add_assoc]
    exact hnext
  | wrote =>
    obtain ⟨chunk, hphase, rfl⟩ := of_wrote hstep
    simp only [Aligned, inFlight, hphase] at haligned hreceived
    exact ⟨hread, haligned.1, hreceived⟩
  | fail =>
    obtain ⟨-, rfl⟩ := of_fail hstep
    exact ⟨hread, ⟨h.le, nofun⟩, hreceived⟩

theorem Faithful.isPrefix (h : c.Faithful) : c.received <+: c.sent := by
  rw [h.received]
  exact List.take_prefix _ _

theorem Faithful.length_received (h : c.Faithful) :
    c.received.length = c.written + c.inFlight := by
  have hle := h.le
  have hread := h.read_le
  rw [h.received, List.length_take]
  omega

/-- A copy that has returned has counted what the destination has. -/
theorem Faithful.written (h : c.Faithful) {failed : Bool} (hphase : c.phase = .returned failed) :
    c.written = c.received.length := by
  rw [h.length_received, inFlight, hphase]
  rfl

/-- A copy that has returned without a failure has left nothing behind. -/
theorem Faithful.whole (h : c.Faithful) (hphase : c.phase = .returned false) :
    c.ended = true ∧ c.received = c.sent := by
  have haligned := h.aligned
  simp only [Aligned, hphase] at haligned
  obtain ⟨-, hwhole⟩ := haligned
  obtain ⟨hended, hall⟩ := hwhole trivial
  refine ⟨hended, ?_⟩
  rw [h.received, inFlight, hphase, hall]
  exact List.take_length

/-- Once the copy has returned, only its source goes on. -/
theorem step_of_returned {failed : Bool} (hphase : c.phase = .returned failed)
    (hstep : c.step e = some c') : c'.phase = .returned failed ∧ c'.written = c.written := by
  cases e with
  | send xs =>
    obtain ⟨-, rfl⟩ := of_guard hstep
    exact ⟨hphase, rfl⟩
  | finish =>
    obtain ⟨-, rfl⟩ := of_guard hstep
    exact ⟨hphase, rfl⟩
  | read k | eof | write k | wrote | fail =>
    simp only [step, hphase] at hstep
    cases hstep

/-! ## Progress -/

/-- A step that nothing hinders brings the copy nearer to its end. -/
theorem work_lt (hfree : e.unhindered) (hstep : c.step e = some c') : c'.work < c.work := by
  cases e with
  | send | finish | fail => exact hfree.elim
  | read k =>
    obtain ⟨hphase, hk, hbound, rfl⟩ := of_read hstep
    simp only [work, hphase, List.length_take, List.length_drop]
    omega
  | eof =>
    obtain ⟨hphase, -, -, rfl⟩ := of_eof hstep
    simp only [work, hphase]
    omega
  | write k =>
    obtain ⟨chunk, taken, hphase, hk, hbound, rfl⟩ := of_write hstep
    simp only [work, hphase]
    omega
  | wrote =>
    obtain ⟨chunk, hphase, rfl⟩ := of_wrote hstep
    simp only [work, hphase]
    omega

/-- A copy whose source has ended can go on until it returns, as long as the destination takes what
is written. -/
theorem Faithful.exists_step (h : c.Faithful) (hended : c.ended = true)
    (hphase : ∀ failed, c.phase ≠ .returned failed) :
    ∃ e : Event α, e.unhindered ∧ (c.step e).isSome := by
  have hread := h.read_le
  have haligned := h.aligned
  cases hcase : c.phase with
  | reading =>
    by_cases hall : c.read = c.sent.length
    · refine ⟨.eof, trivial, ?_⟩
      simp only [Copy.step, hcase]
      rw [if_pos ⟨hended, hall⟩]
      rfl
    · refine ⟨.read 1, trivial, ?_⟩
      simp only [Copy.step, hcase]
      rw [if_pos (by omega)]
      rfl
  | writing chunk taken =>
    simp only [Aligned, hcase] at haligned
    by_cases hall : taken = chunk.length
    · refine ⟨.wrote, trivial, ?_⟩
      simp only [Copy.step, hcase]
      rw [if_pos hall]
      rfl
    · refine ⟨.write 1, trivial, ?_⟩
      simp only [Copy.step, hcase]
      rw [if_pos (by omega)]
      rfl
  | returned failed => exact absurd hcase (hphase failed)

theorem unhindered_keeps (hfree : e.unhindered) (hstep : c.step e = some c') :
    c'.sent = c.sent ∧ c'.ended = c.ended ∧ c'.phase ≠ .returned true := by
  cases e with
  | send | finish | fail => exact hfree.elim
  | read k =>
    obtain ⟨-, -, -, rfl⟩ := of_read hstep
    exact ⟨rfl, rfl, nofun⟩
  | eof =>
    obtain ⟨-, -, -, rfl⟩ := of_eof hstep
    exact ⟨rfl, rfl, nofun⟩
  | write k =>
    obtain ⟨chunk, taken, -, -, -, rfl⟩ := of_write hstep
    exact ⟨rfl, rfl, nofun⟩
  | wrote =>
    obtain ⟨chunk, -, rfl⟩ := of_wrote hstep
    exact ⟨rfl, rfl, nofun⟩

/-- What has been sent by a source that has ended is delivered to a destination that takes it. -/
theorem Faithful.finishes (h : c.Faithful) (hended : c.ended = true)
    (hphase : c.phase ≠ .returned true) :
    ∃ c', Run Copy.step (fun _ e => e.unhindered) c c' ∧ c'.phase = .returned false ∧
      c'.received = c.sent := by
  induction hwork : c.work using Nat.strongRecOn generalizing c with
  | ind n ih =>
    by_cases hreturned : c.phase = .returned false
    · exact ⟨c, .refl, hreturned, (h.whole hreturned).2⟩
    · have hactive : ∀ failed, c.phase ≠ .returned failed := by
        intro failed
        cases failed with
        | false => exact hreturned
        | true => exact hphase
      obtain ⟨e, hfree, hsome⟩ := h.exists_step hended hactive
      obtain ⟨d, hd⟩ := Option.isSome_iff_exists.mp hsome
      obtain ⟨hsent, hended', hphase'⟩ := unhindered_keeps hfree hd
      have hless : d.work < n := hwork ▸ work_lt hfree hd
      obtain ⟨c', hrun, hover, hall⟩ := ih d.work hless (h.step hd) (hended'.trans hended) hphase' rfl
      exact ⟨c', .head ⟨e, hfree, hd⟩ hrun, hover, hall.trans hsent⟩

end Copy
end
end StreamCopy
