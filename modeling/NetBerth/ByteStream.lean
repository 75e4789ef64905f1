import Mathlib

/-!
# Byte streams that arrive in short reads

A reader holds what it will still deliver, cut into the bursts in which it
arrives; a burst may be empty, and the error that ends the stream comes with
the last bytes or in a read of its own. `readFull` repeats the read until the
buffer is full or an error is met. How the bytes are cut never shows in its
result: it is a prefix of the contents, or all of them and an error.

A writer takes all of what it is given or nothing. Numbers are laid out most
significant byte first.
-/
namespace ByteStream

inductive ReadError (ε : Type*) where
  | eof
  | unexpectedEOF
  | failed (e : ε)
  deriving DecidableEq, Repr

/-- `fault` is the error after the last burst, or the end of file; an `eager`
reader reports it together with the last burst. -/
structure StreamReader (ε α : Type*) where
  bursts : List (List α)
  eager : Bool
  fault : Option ε
  deriving DecidableEq, Repr

structure ReadResult (ε α : Type*) where
  bytes : List α
  err : Option (ReadError ε)
  rest : StreamReader ε α
  deriving DecidableEq, Repr

namespace StreamReader
variable {ε α : Type*}

/-- All bytes in one burst. -/
def ofList (bytes : List α) : StreamReader ε α := ⟨[bytes], false, none⟩

def contents (r : StreamReader ε α) : List α := r.bursts.flatten

def ending (r : StreamReader ε α) : ReadError ε := r.fault.elim .eof .failed

/-- One `Read` into a buffer of `n` bytes. -/
def read (r : StreamReader ε α) (n : ℕ) : ReadResult ε α :=
  match r.bursts with
  | [] => ⟨[], some r.ending, r⟩
  | b :: bs =>
    if n < b.length then ⟨b.take n, none, { r with bursts := b.drop n :: bs }⟩
    else ⟨b, if r.eager && bs.isEmpty then some r.ending else none, { r with bursts := bs }⟩

/-- One read delivers the next bytes, and reports the end only with the last. -/
theorem read_spec (r : StreamReader ε α) (n : ℕ) :
    r.contents = (r.read n).bytes ++ (r.read n).rest.contents ∧ (r.read n).bytes.length ≤ n ∧
      (r.read n).rest.fault = r.fault ∧
      ((r.read n).err = none ∨ (r.read n).err = some r.ending ∧ (r.read n).rest.contents = []) := by
  obtain ⟨bursts, eager, fault⟩ := r
  cases bursts with
  | nil => simp [read, contents]
  | cons b bs =>
    simp only [read]
    split_ifs with hlen hlast
    · refine ⟨?_, by simp, rfl, .inl rfl⟩
      simp [contents, ← List.append_assoc]
    · have hbs : bs = [] := by simpa using (Bool.and_eq_true_iff.mp hlast).2
      exact ⟨by simp [contents], not_lt.mp hlen, rfl, .inr ⟨rfl, by simp [contents, hbs]⟩⟩
    · exact ⟨by simp [contents], not_lt.mp hlen, rfl, .inl rfl⟩

/-- A read without an error uses a burst up or fills the buffer. -/
theorem read_progress (r : StreamReader ε α) {n : ℕ} (hn : n ≠ 0) (h : (r.read n).err = none) :
    Prod.Lex (· < ·) (· < ·) ((r.read n).rest.bursts.length, n - (r.read n).bytes.length)
      (r.bursts.length, n) := by
  obtain ⟨bursts, eager, fault⟩ := r
  cases bursts with
  | nil => simp [read] at h
  | cons b bs =>
    rw [Prod.lex_def]
    simp only [read]
    split_ifs with hlen
    · refine .inr ⟨rfl, ?_⟩
      rw [List.length_take_of_le hlen.le]
      omega
    · exact .inl (Nat.lt_succ_self _)
    · exact .inl (Nat.lt_succ_self _)

/-- The loop of `ReadAtLeast`, with `n` bytes of the buffer still free. -/
def readLoop (r : StreamReader ε α) (n : ℕ) (buf : List α) : ReadResult ε α :=
  if _hn : n = 0 then ⟨buf, none, r⟩
  else if _h : (r.read n).err = none then
    readLoop (r.read n).rest (n - (r.read n).bytes.length) (buf ++ (r.read n).bytes)
  else { r.read n with bytes := buf ++ (r.read n).bytes }
termination_by (r.bursts.length, n)
decreasing_by exact read_progress r _hn _h

/-- `io.ReadFull`: an error only when the buffer could not be filled, and the
end of file in the middle of it is unexpected. -/
def readFull (r : StreamReader ε α) (n : ℕ) : ReadResult ε α :=
  let t := r.readLoop n []
  let err :=
    if n ≤ t.bytes.length then none
    else
      match t.err with
      | some .eof => if t.bytes.isEmpty then some .eof else some .unexpectedEOF
      | err => err
  { t with err := err }

theorem readLoop_spec (r : StreamReader ε α) (n : ℕ) (buf : List α) :
    (r.readLoop n buf).bytes = buf ++ r.contents.take n ∧
      (r.readLoop n buf).rest.contents = r.contents.drop n ∧
      (r.readLoop n buf).rest.fault = r.fault ∧
      (r.contents.length < n → (r.readLoop n buf).err = some r.ending) := by
  fun_induction readLoop r n buf with
  | case1 r buf => simp
  | case2 r n buf hn h ih =>
    obtain ⟨hbytes, hrest, hfault, herr⟩ := ih
    obtain ⟨hsplit, hlen, hkeep, -⟩ := read_spec r n
    have hending : (r.read n).rest.ending = r.ending := by rw [ending, ending, hkeep]
    refine ⟨?_, ?_, hfault.trans hkeep, fun hshort => ?_⟩
    · rw [hbytes, hsplit, List.take_append, List.take_of_length_le hlen, List.append_assoc]
    · rw [hrest, hsplit, List.drop_append, List.drop_of_length_le hlen, List.nil_append]
    · rw [hsplit, List.length_append] at hshort
      rw [herr (by omega), hending]
  | case3 r n buf hn h =>
    obtain ⟨hsplit, hlen, hkeep, hnone | ⟨herr, hempty⟩⟩ := read_spec r n
    · exact absurd hnone h
    · rw [hempty, List.append_nil] at hsplit
      refine ⟨?_, ?_, hkeep, fun _ => herr⟩
      · rw [hsplit, List.take_of_length_le hlen]
      · rw [hempty, hsplit, List.drop_of_length_le hlen]

/-- The error of a read that finds fewer bytes than it wants. -/
def shortfall (r : StreamReader ε α) : ReadError ε :=
  match r.fault with
  | some e => .failed e
  | none => if r.contents.isEmpty then .eof else .unexpectedEOF

section
variable (r : StreamReader ε α) (n : ℕ)

@[simp] theorem readFull_bytes : (r.readFull n).bytes = r.contents.take n :=
  (readLoop_spec r n []).1

@[simp] theorem readFull_rest : (r.readFull n).rest.contents = r.contents.drop n :=
  (readLoop_spec r n []).2.1

@[simp] theorem readFull_fault : (r.readFull n).rest.fault = r.fault :=
  (readLoop_spec r n []).2.2.1

theorem readFull_err :
    (r.readFull n).err = if n ≤ r.contents.length then none else some r.shortfall := by
  obtain ⟨hbytes, -, -, herr⟩ := readLoop_spec r n []
  rw [List.nil_append] at hbytes
  by_cases hle : n ≤ r.contents.length
  · simp [readFull, hbytes, hle]
  · have hall : r.contents.take n = r.contents := List.take_of_length_le (by omega)
    rw [if_neg hle]
    simp only [readFull, hbytes, hall, if_neg hle, herr (not_le.mp hle), ending, shortfall]
    cases r.fault with
    | none => exact (apply_ite some _ _ _).symm
    | some e => rfl

end

theorem contents_ofList (bytes : List α) : (ofList bytes : StreamReader ε α).contents = bytes := by
  simp [ofList, contents]

end StreamReader

/-! ## StreamWriters -/

/-- `room` is how many writes still succeed and the error after them; without
it every write succeeds. -/
structure StreamWriter (ε α : Type*) where
  written : List α
  room : Option (ℕ × ε)
  deriving DecidableEq, Repr

namespace StreamWriter
variable {ε α : Type*}

/-- An empty `bytes.Buffer`. -/
def buffer : StreamWriter ε α := ⟨[], none⟩

def write (w : StreamWriter ε α) (bytes : List α) : StreamWriter ε α × Option ε :=
  match w.room with
  | none => ({ w with written := w.written ++ bytes }, none)
  | some (0, e) => (w, some e)
  | some (n + 1, e) => (⟨w.written ++ bytes, some (n, e)⟩, none)

theorem write_of_none {w : StreamWriter ε α} (h : w.room = none) (bytes : List α) :
    w.write bytes = ({ w with written := w.written ++ bytes }, none) := by
  simp only [write, h]

/-- A write takes all or nothing. -/
theorem write_cases (w : StreamWriter ε α) (bytes : List α) :
    ((w.write bytes).2 = none ∧ (w.write bytes).1.written = w.written ++ bytes) ∨
      ∃ e, (w.write bytes).2 = some e ∧ (w.write bytes).1.written = w.written := by
  obtain ⟨written, room⟩ := w
  match room with
  | none => exact .inl ⟨rfl, rfl⟩
  | some (0, e) => exact .inr ⟨e, rfl, rfl⟩
  | some (n + 1, e) => exact .inl ⟨rfl, rfl⟩

end StreamWriter

/-! ## Big-endian numbers -/

/-- The last `width` base 256 digits of a number. -/
def putBE : ℕ → ℕ → List UInt8
  | 0, _ => []
  | width + 1, n => UInt8.ofNat (n / 256 ^ width) :: putBE width n

def getBE (bytes : List UInt8) : ℕ := bytes.foldl (fun n b => n * 256 + b.toNat) 0

@[simp] theorem length_putBE (width n : ℕ) : (putBE width n).length = width := by
  induction width with
  | zero => rfl
  | succ width ih => rw [putBE, List.length_cons, ih]

theorem foldl_putBE (width n acc : ℕ) :
    (putBE width n).foldl (fun n b => n * 256 + b.toNat) acc =
      acc * 256 ^ width + n % 256 ^ width := by
  induction width generalizing acc with
  | zero => simp [putBE, Nat.mod_one]
  | succ width ih =>
    have hdigit : (UInt8.ofNat (n / 256 ^ width)).toNat = n / 256 ^ width % 256 := by simp
    have hsplit : n % 256 ^ (width + 1) =
        n % 256 ^ width + 256 ^ width * (n / 256 ^ width % 256) := Nat.mod_pow_succ
    rw [putBE, List.foldl_cons, ih, hdigit, hsplit, pow_succ]
    ring

theorem getBE_putBE (width n : ℕ) : getBE (putBE width n) = n % 256 ^ width := by
  rw [getBE, foldl_putBE, Nat.zero_mul, Nat.zero_add]

theorem foldl_getBE (bytes : List UInt8) (acc : ℕ) :
    bytes.foldl (fun n b => n * 256 + b.toNat) acc = acc * 256 ^ bytes.length + getBE bytes := by
  induction bytes generalizing acc with
  | nil => simp [getBE]
  | cons b bytes ih =>
    rw [getBE, List.foldl_cons, List.foldl_cons, ih, ih, List.length_cons, pow_succ]
    ring

theorem getBE_append (a b : List UInt8) : getBE (a ++ b) = getBE a * 256 ^ b.length + getBE b := by
  rw [getBE, List.foldl_append, foldl_getBE]
  rfl

theorem getBE_cons (b : UInt8) (bytes : List UInt8) :
    getBE (b :: bytes) = b.toNat * 256 ^ bytes.length + getBE bytes := by
  rw [← List.singleton_append, getBE_append]
  simp [getBE]

theorem getBE_lt (bytes : List UInt8) : getBE bytes < 256 ^ bytes.length := by
  induction bytes with
  | nil => simp [getBE]
  | cons b bytes ih =>
    have hb : b.toNat + 1 ≤ 256 := b.toNat_lt
    calc getBE (b :: bytes) = b.toNat * 256 ^ bytes.length + getBE bytes := getBE_cons b bytes
      _ < b.toNat * 256 ^ bytes.length + 256 ^ bytes.length := by omega
      _ = (b.toNat + 1) * 256 ^ bytes.length := by ring
      _ ≤ 256 * 256 ^ bytes.length := Nat.mul_le_mul_right _ hb
      _ = 256 ^ (bytes.length + 1) := by ring

/-- Only the lowest digits are laid out. -/
theorem putBE_add_mul (width k n : ℕ) : putBE width (k * 256 ^ width + n) = putBE width n := by
  induction width generalizing k with
  | zero => rfl
  | succ width ih =>
    have hshift : k * 256 ^ (width + 1) + n = k * 256 * 256 ^ width + n := by ring
    have hdigit : (k * 256 * 256 ^ width + n) / 256 ^ width = 256 * k + n / 256 ^ width := by
      rw [Nat.add_comm, Nat.add_mul_div_right _ _ (by positivity)]
      ring
    rw [putBE, putBE, hshift, ih, hdigit]
    congr 1
    rw [← UInt8.toNat_inj]
    simp

theorem putBE_getBE (bytes : List UInt8) : putBE bytes.length (getBE bytes) = bytes := by
  induction bytes with
  | nil => rfl
  | cons b bytes ih =>
    have hdigit : (b.toNat * 256 ^ bytes.length + getBE bytes) / 256 ^ bytes.length = b.toNat := by
      rw [Nat.add_comm, Nat.add_mul_div_right _ _ (by positivity),
        Nat.div_eq_of_lt (getBE_lt bytes), Nat.zero_add]
    rw [getBE_cons, List.length_cons, putBE, putBE_add_mul, ih, hdigit, UInt8.ofNat_toNat]

theorem getBE_injective {a b : List UInt8} (hlen : a.length = b.length)
    (h : getBE a = getBE b) : a = b := by
  rw [← putBE_getBE a, ← putBE_getBE b, hlen, h]

/-! ## Cutting a list into pieces -/

section
variable {α : Type*}

/-- Pieces of `n + 1` elements, the last one possibly shorter. -/
def chunksOf (n : ℕ) (l : List α) : List (List α) :=
  match l with
  | [] => []
  | a :: l => (a :: l).take (n + 1) :: chunksOf n ((a :: l).drop (n + 1))
termination_by l.length

@[simp] theorem chunksOf_nil (n : ℕ) : chunksOf n ([] : List α) = [] := by rw [chunksOf]

theorem chunksOf_of_ne_nil (n : ℕ) {l : List α} (h : l ≠ []) :
    chunksOf n l = l.take (n + 1) :: chunksOf n (l.drop (n + 1)) := by
  cases l with
  | nil => exact absurd rfl h
  | cons a l => rw [chunksOf]

theorem flatten_chunksOf (n : ℕ) (l : List α) : (chunksOf n l).flatten = l := by
  fun_induction chunksOf n l with
  | case1 => rfl
  | case2 a l ih => rw [List.flatten_cons, ih, List.take_append_drop]

/-- As many pieces as it takes. -/
theorem length_chunksOf (n : ℕ) (l : List α) :
    (chunksOf n l).length = (l.length + n) / (n + 1) := by
  fun_induction chunksOf n l with
  | case1 => simp [Nat.div_eq_of_lt]
  | case2 a l ih =>
    rw [List.length_cons, ih, List.length_drop]
    by_cases hlen : n + 1 ≤ (a :: l).length
    · have hsplit : (a :: l).length + n = (a :: l).length - (n + 1) + n + (n + 1) := by omega
      rw [hsplit, Nat.add_div_right _ (Nat.succ_pos n)]
    · have hzero : (a :: l).length - (n + 1) + n = n := by omega
      have hlow : n + 1 ≤ (a :: l).length + n := by simp
      rw [hzero, Nat.div_eq_of_lt (Nat.lt_succ_self n)]
      exact (Nat.div_eq_of_lt_le (by omega) (by omega)).symm

theorem length_of_mem_chunksOf {n : ℕ} {l c : List α} (h : c ∈ chunksOf n l) :
    c ≠ [] ∧ c.length ≤ n + 1 := by
  fun_induction chunksOf n l with
  | case1 => cases h
  | case2 a l ih =>
    rcases List.mem_cons.mp h with rfl | h
    · exact ⟨by simp, List.length_take_le _ _⟩
    · exact ih h

theorem getElem_chunksOf (n : ℕ) (l : List α) (i : ℕ) (h : i < (chunksOf n l).length) :
    (chunksOf n l)[i] = (l.drop (i * (n + 1))).take (n + 1) := by
  induction i generalizing l with
  | zero =>
    have hne : l ≠ [] := by
      rintro rfl
      simp at h
    simp only [chunksOf_of_ne_nil n hne, List.getElem_cons_zero, Nat.zero_mul, List.drop_zero]
  | succ i ih =>
    have hne : l ≠ [] := by
      rintro rfl
      simp at h
    have hshift : (i + 1) * (n + 1) = n + 1 + i * (n + 1) := by ring
    simp only [chunksOf_of_ne_nil n hne, List.length_cons, Nat.add_lt_add_iff_right] at h
    simp only [chunksOf_of_ne_nil n hne, List.getElem_cons_succ, ih _ h, List.drop_drop, hshift]

/-- The first pieces are a prefix of the list. -/
theorem flatten_take_chunksOf (n : ℕ) (l : List α) (i : ℕ) :
    ((chunksOf n l).take i).flatten = l.take (i * (n + 1)) := by
  induction i generalizing l with
  | zero => simp
  | succ i ih =>
    by_cases hl : l = []
    · simp [hl]
    · have hsplit : (i + 1) * (n + 1) = n + 1 + i * (n + 1) := by ring
      rw [chunksOf_of_ne_nil n hl, List.take_succ_cons, List.flatten_cons, ih, hsplit]
      exact List.take_add.symm

/-- The pieces of what has been put together from pieces of one length. -/
theorem chunksOf_flatten {n : ℕ} {cs : List (List α)} (h : ∀ c ∈ cs, c.length = n + 1) :
    chunksOf n cs.flatten = cs := by
  induction cs with
  | nil => exact chunksOf_nil n
  | cons c cs ih =>
    have hc : c.length = n + 1 := h c List.mem_cons_self
    have hne : c ++ cs.flatten ≠ [] := by
      rintro hnil
      rw [(List.append_eq_nil_iff.mp hnil).1] at hc
      cases hc
    rw [List.flatten_cons, chunksOf_of_ne_nil n hne, List.take_left' hc, List.drop_left' hc,
      ih fun c' hc' => h c' (List.mem_cons_of_mem c hc')]

/-- Where the length is a multiple, no piece is shorter. -/
theorem length_of_dvd {n : ℕ} {l : List α} (h : n + 1 ∣ l.length) :
    ∀ c ∈ chunksOf n l, c.length = n + 1 := by
  fun_induction chunksOf n l with
  | case1 => exact List.forall_mem_nil _
  | case2 a l ih =>
    have hle : n + 1 ≤ (a :: l).length := Nat.le_of_dvd (Nat.succ_pos _) h
    have hrest : n + 1 ∣ ((a :: l).drop (n + 1)).length := by
      rw [List.length_drop]
      exact Nat.dvd_sub h (dvd_refl (n + 1))
    exact List.forall_mem_cons.mpr ⟨List.length_take_of_le hle, ih hrest⟩

/-- The loop of `toChunks`, with a piece that has been begun. -/
theorem toChunks_go (n : ℕ) (l : List α) (acc₁ : Array α) (acc₂ : Array (List α))
    (hpos : 0 < acc₁.size) (hle : acc₁.size ≤ n + 1) :
    List.toChunks.go (n + 1) l acc₁ acc₂ = acc₂.toList ++ chunksOf n (acc₁.toList ++ l) := by
  have hne : ∀ l' : List α, acc₁.toList ++ l' ≠ [] := by
    intro l' hnil
    rw [← Array.length_toList, (List.append_eq_nil_iff.mp hnil).1] at hpos
    exact absurd hpos (Nat.lt_irrefl 0)
  induction l generalizing acc₁ acc₂ with
  | nil =>
    rw [List.append_nil, chunksOf_of_ne_nil n (by simpa using hne []), List.take_of_length_le hle,
      List.drop_of_length_le hle, chunksOf_nil, List.toChunks.go, Array.toList_push]
  | cons a l ih =>
    rw [List.toChunks.go]
    split_ifs with hfull
    · have hlen : acc₁.toList.length = n + 1 := by simpa using hfull
      rw [ih _ _ (by simp) (by simp) (by simp), chunksOf_of_ne_nil n (hne (a :: l)),
        List.take_left' hlen, List.drop_left' hlen]
      simp
    · have hlt : acc₁.size + 1 ≤ n + 1 := lt_of_le_of_ne hle (by simpa using hfull)
      rw [ih _ _ (by simp) (by simpa using hlt) (by simp)]
      simp

theorem toChunks_eq_chunksOf (n : ℕ) (l : List α) : l.toChunks (n + 1) = chunksOf n l := by
  cases l with
  | nil => rw [chunksOf_nil, List.toChunks]
  | cons a l => rw [List.toChunks, toChunks_go n l _ _ (by simp) (by simp)] <;> simp

end
end ByteStream
