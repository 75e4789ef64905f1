import Mathlib

/-!
# Internet addresses as text

An IPv4 address is written as four octets in decimal; an IPv6 address as eight
groups in hexadecimal, where one run of zero groups may be left out, the last
two groups may be written as an IPv4 address, and a zone may follow. The
parser reads a string from left to right, one field at a time. Printing leaves
out the first of the longest runs of at least two zero groups.

What is printed is read back as the same address, and what is read as an
address consists of address characters only, up to its zone.
-/
namespace IPAddress

/-- An address; the zone of an IPv6 address is empty where there is none. -/
inductive Addr where
  | v4 (a : BitVec 32)
  | v6 (a : BitVec 128) (zone : String)
  deriving DecidableEq, Repr

/-! ## Numerals -/

/-- The `w` digits of `n` in base `b`, the most significant first. -/
def digits (b : ℕ) : ℕ → ℕ → List ℕ
  | 0, _ => []
  | w + 1, n => digits b w (n / b) ++ [n % b]

def value (b : ℕ) (ds : List ℕ) : ℕ := ds.foldl (fun v d => v * b + d) 0

@[simp] theorem length_digits (b w n : ℕ) : (digits b w n).length = w := by
  induction w generalizing n with
  | zero => rfl
  | succ w ih => simp [digits, ih]

theorem lt_of_mem_digits {b w n d : ℕ} (hb : 0 < b) (h : d ∈ digits b w n) : d < b := by
  induction w generalizing n with
  | zero => simp [digits] at h
  | succ w ih =>
    rw [digits, List.mem_append, List.mem_singleton] at h
    cases h with
    | inl h => exact ih h
    | inr h => exact h ▸ Nat.mod_lt n hb

theorem value_digits (b w n : ℕ) : value b (digits b w n) = n % b ^ w := by
  induction w generalizing n with
  | zero => simp [digits, value, Nat.mod_one]
  | succ w ih =>
    have hlast : value b (digits b (w + 1) n) = value b (digits b w (n / b)) * b + n % b := by
      simp [digits, value]
    rw [hlast, ih, pow_succ', Nat.mod_mul]
    ring

/-! ## Text around a separator -/

/-- The text before and after the first `sep`. -/
def cut (sep : Char) : List Char → Option (List Char × List Char)
  | [] => none
  | c :: s => if c = sep then some ([], s) else (cut sep s).map fun p => (c :: p.1, p.2)

/-- The text before and after the last `sep`. -/
def cutLast (sep : Char) (s : List Char) : Option (List Char × List Char) :=
  (cut sep s.reverse).map fun p => (p.2.reverse, p.1.reverse)

theorem cut_append {sep : Char} {a : List Char} (ha : sep ∉ a) (b : List Char) :
    cut sep (a ++ sep :: b) = some (a, b) := by
  induction a with
  | nil => simp [cut]
  | cons c a ih =>
    rw [List.mem_cons, not_or] at ha
    simp [cut, ih ha.2, Ne.symm ha.1]

theorem cut_eq_none {sep : Char} {s : List Char} (h : sep ∉ s) : cut sep s = none := by
  induction s with
  | nil => rfl
  | cons c s ih =>
    rw [List.mem_cons, not_or] at h
    simp [cut, ih h.2, Ne.symm h.1]

theorem cut_eq_some {sep : Char} {s a b : List Char} (h : cut sep s = some (a, b)) :
    s = a ++ sep :: b ∧ sep ∉ a := by
  by_cases hs : sep ∈ s
  · obtain ⟨a', b', rfl, ha'⟩ := List.eq_append_cons_of_mem hs
    rw [cut_append ha', Option.some.injEq, Prod.mk.injEq] at h
    exact ⟨by rw [h.1, h.2], h.1 ▸ ha'⟩
  · rw [cut_eq_none hs] at h
    contradiction

theorem cutLast_append {sep : Char} {b : List Char} (hb : sep ∉ b) (a : List Char) :
    cutLast sep (a ++ sep :: b) = some (a, b) := by
  have hrev : (a ++ sep :: b).reverse = b.reverse ++ sep :: a.reverse := by simp
  rw [cutLast, hrev, cut_append (by simpa using hb)]
  simp

theorem cutLast_eq_some {sep : Char} {s a b : List Char} (h : cutLast sep s = some (a, b)) :
    s = a ++ sep :: b ∧ sep ∉ b := by
  obtain ⟨⟨b', a'⟩, hcut, hab⟩ := Option.map_eq_some_iff.mp h
  obtain ⟨hs, hb⟩ := cut_eq_some hcut
  obtain ⟨rfl, rfl⟩ := Prod.mk.inj hab
  rw [List.reverse_eq_iff] at hs
  exact ⟨by simpa using hs, by simpa using hb⟩

theorem cutLast_eq_none {sep : Char} {s : List Char} (h : sep ∉ s) : cutLast sep s = none := by
  rw [cutLast, cut_eq_none (by simpa using h), Option.map_none]

theorem mem_intercalate {sep c : Char} {ls : List (List Char)} (h : c ∈ [sep].intercalate ls) :
    c = sep ∨ ∃ l ∈ ls, c ∈ l := by
  induction ls with
  | nil => simp at h
  | cons l ls ih =>
    cases ls with
    | nil => simpa using Or.inr h
    | cons l' ls =>
      rw [List.intercalate_cons_cons, List.mem_append, List.mem_append, List.mem_singleton] at h
      obtain (h | h) | h := h
      · exact .inr ⟨l, by simp, h⟩
      · exact .inl h
      · obtain h | ⟨l', hl', hc⟩ := ih h
        · exact .inl h
        · exact .inr ⟨l', List.mem_cons_of_mem l hl', hc⟩

theorem intercalate_ne_nil {sep l : List Char} {ls : List (List Char)} (h : l ≠ []) :
    sep.intercalate (l :: ls) ≠ [] := by
  cases ls <;> simp [h]

/-! ## Fields -/

/-- The value of a hexadecimal digit. -/
def hexVal (c : Char) : Option ℕ :=
  if '0' ≤ c ∧ c ≤ '9' then some (c.toNat - 48)
  else if 'a' ≤ c ∧ c ≤ 'f' then some (c.toNat - 97 + 10)
  else if 'A' ≤ c ∧ c ≤ 'F' then some (c.toNat - 65 + 10)
  else none

def isHex (c : Char) : Bool := (hexVal c).isSome

def hexNumber (ds : List Char) : ℕ := value 16 (ds.map fun c => (hexVal c).getD 0)

/-- `strconv.Atoi` on a string that does not start with a sign. -/
def atoi (ds : List Char) : Option ℕ :=
  if !ds.isEmpty && ds.all Char.isDigit then some (value 10 (ds.map fun c => c.toNat - 48))
  else none

/-- `appendDecimal`. -/
def decimal (x : ℕ) : List Char :=
  (if 100 ≤ x then [Nat.digitChar (x / 100)] else []) ++
    (if 10 ≤ x then [Nat.digitChar (x / 10 % 10)] else []) ++ [Nat.digitChar (x % 10)]

/-- `appendHex`. -/
def hex (x : ℕ) : List Char :=
  (if 0x1000 ≤ x then [Nat.digitChar (x / 0x1000)] else []) ++
    (if 0x100 ≤ x then [Nat.digitChar (x / 0x100 % 16)] else []) ++
    (if 0x10 ≤ x then [Nat.digitChar (x / 0x10 % 16)] else []) ++ [Nat.digitChar (x % 16)]

theorem hexVal_digitChar {d : ℕ} (h : d < 16) : hexVal d.digitChar = some d := by
  have hall : ∀ e : Fin 16, hexVal (Nat.digitChar e) = some e.val := by decide
  exact hall ⟨d, h⟩

/-- The digits of a group are one to four hexadecimal digits with its value. -/
theorem hex_spec {x : ℕ} (h : x < 65536) :
    (∀ c ∈ hex x, isHex c = true) ∧ hex x ≠ [] ∧ (hex x).length ≤ 4 ∧ hexNumber (hex x) = x := by
  have hd : ∀ d < 16, isHex d.digitChar = true := by
    intro d hd
    rw [isHex, hexVal_digitChar hd, Option.isSome_some]
  unfold hex hexNumber value
  split_ifs <;>
    simp [hexVal_digitChar, hd, Nat.mod_lt, show x / 4096 < 16 by omega] <;> omega

/-! ## IPv4 -/

/-- `parseIPv4Fields`: `val` and `digLen` are the field under way. -/
def ipv4Fields (val digLen : ℕ) (fields : List ℕ) : List Char → Option (List ℕ)
  | [] => if fields.length < 3 then none else some (fields ++ [val])
  | c :: s =>
    if c.isDigit then
      if digLen = 1 ∧ val = 0 then none
      else if 255 < val * 10 + (c.toNat - 48) then none
      else ipv4Fields (val * 10 + (c.toNat - 48)) (digLen + 1) fields s
    else if c = '.' then
      if digLen = 0 ∨ s = [] then none
      else if fields.length = 3 then none
      else ipv4Fields 0 0 (fields ++ [val]) s
    else none

theorem ipv4Fields_digit {d v n : ℕ} (hd : d < 10) (hlead : n ≠ 1 ∨ v ≠ 0) (hv : v * 10 + d < 256)
    (fields : List ℕ) (s : List Char) :
    ipv4Fields v n fields (d.digitChar :: s) = ipv4Fields (v * 10 + d) (n + 1) fields s := by
  have hlead' : ¬(n = 1 ∧ v = 0) := by omega
  rw [ipv4Fields, Nat.toNat_digitChar_sub_48_of_lt_ten hd, if_pos (by simp [hd]), if_neg hlead',
    if_neg (by omega)]

/-- A printed octet is read as one field. -/
theorem ipv4Fields_decimal {x : ℕ} (h : x < 256) (fields : List ℕ) (s : List Char) :
    ∃ n, n ≠ 0 ∧ ipv4Fields 0 0 fields (decimal x ++ s) = ipv4Fields x n fields s := by
  unfold decimal
  split_ifs with h100 h10
  · refine ⟨3, by decide, ?_⟩
    simp only [List.cons_append, List.nil_append]
    rw [ipv4Fields_digit (by omega) (by omega) (by omega),
      ipv4Fields_digit (by omega) (by omega) (by omega),
      ipv4Fields_digit (by omega) (by omega) (by omega)]
    congr 1
    omega
  · omega
  · refine ⟨2, by decide, ?_⟩
    simp only [List.cons_append, List.nil_append]
    rw [ipv4Fields_digit (by omega) (by omega) (by omega),
      ipv4Fields_digit (by omega) (by omega) (by omega)]
    congr 1
    omega
  · refine ⟨1, by decide, ?_⟩
    simp only [List.cons_append, List.nil_append]
    rw [ipv4Fields_digit (by omega) (by omega) (by omega)]
    congr 1
    omega

/-- Octets with dots between them are read as these octets. -/
theorem ipv4Fields_dotted (xs fields : List ℕ) (hx : ∀ x ∈ xs, x < 256) (hne : xs ≠ [])
    (hlen : fields.length + xs.length = 4) :
    ipv4Fields 0 0 fields (['.'].intercalate (xs.map decimal)) = some (fields ++ xs) := by
  induction xs generalizing fields with
  | nil => contradiction
  | cons x xs ih =>
    rw [List.forall_mem_cons] at hx
    rw [List.length_cons] at hlen
    cases xs with
    | nil =>
      obtain ⟨n, -, hn⟩ := ipv4Fields_decimal hx.1 fields []
      rw [List.append_nil] at hn
      simp only [List.map_cons, List.map_nil, List.intercalate_singleton, hn, ipv4Fields]
      rw [if_neg (by simp at hlen; omega)]
    | cons y ys =>
      obtain ⟨n, hn0, hn⟩ := ipv4Fields_decimal hx.1 fields
        ('.' :: ['.'].intercalate ((y :: ys).map decimal))
      have hrest : ['.'].intercalate ((y :: ys).map decimal) ≠ [] := by
        exact intercalate_ne_nil (by simp [decimal])
      have hstep := ih (fields ++ [x]) hx.2 (by simp) (by simp at hlen ⊢; omega)
      simp only [List.map_cons, List.intercalate_cons_cons, List.append_assoc, List.cons_append,
        List.nil_append] at hn hstep hrest ⊢
      rw [hn, ipv4Fields, if_neg (by decide), if_pos rfl, if_neg (by simp [hn0, hrest]),
        if_neg (by simp at hlen; omega), hstep]

/-! ## IPv6 -/

/-- The loop of `parseIPv6` with `room` groups to go; the ellipsis is the number
of groups before it. The result has what is left of the string. -/
def groupLoop : (room : ℕ) → List ℕ → Option ℕ → List Char →
    Option (List ℕ × Option ℕ × List Char)
  | 0, groups, ellipsis, s => some (groups, ellipsis, s)
  | room + 1, groups, ellipsis, s =>
    let ds := s.takeWhile isHex
    if ds = [] ∨ 4 < ds.length then none
    else
      match s.dropWhile isHex with
      | [] => some (groups ++ [hexNumber ds], ellipsis, [])
      | '.' :: _ =>
        -- the whole field is read again as an IPv4 address in place of two groups
        if ellipsis = none ∧ groups.length ≠ 6 ∨ room = 0 then none
        else (ipv4Fields 0 0 [] s).map fun fs =>
          (groups ++ [value 256 (fs.take 2), value 256 (fs.drop 2)], ellipsis, [])
      | [':'] => none
      | ':' :: ':' :: s =>
        if ellipsis.isSome then none
        else if s = [] then some (groups ++ [hexNumber ds], some (groups.length + 1), [])
        else groupLoop room (groups ++ [hexNumber ds]) (some (groups.length + 1)) s
      | ':' :: s => groupLoop room (groups ++ [hexNumber ds]) ellipsis s
      | _ => none

/-- The ellipsis stands for at least one group. -/
def expand (groups : List ℕ) : Option ℕ → List Char → Option (List ℕ)
  | _, _ :: _ => none
  | none, [] => if groups.length < 8 then none else some groups
  | some k, [] =>
    if groups.length < 8 then
      some (groups.take k ++ List.replicate (8 - groups.length) 0 ++ groups.drop k)
    else none

def ipv6Groups : List Char → Option (List ℕ)
  | [':', ':'] => some (List.replicate 8 0)
  | ':' :: ':' :: s => (groupLoop 8 [] (some 0) s).bind fun r => expand r.1 r.2.1 r.2.2
  | s => (groupLoop 8 [] none s).bind fun r => expand r.1 r.2.1 r.2.2

/-- The longest run of zero groups, the first of them; by its start and length. -/
def zeroRun (groups : List ℕ) : ℕ × ℕ :=
  (List.range groups.length).foldl
    (fun best i =>
      let l := ((groups.drop i).takeWhile (· = 0)).length
      if 2 ≤ l ∧ best.2 < l then (i, l) else best)
    (0, 0)

/-- `appendTo6`. -/
def ipv6Text (groups : List ℕ) : List Char :=
  let run := zeroRun groups
  if run.2 = 0 then [':'].intercalate (groups.map hex)
  else [':'].intercalate ((groups.take run.1).map hex) ++ ':' :: ':' ::
    [':'].intercalate ((groups.drop (run.1 + run.2)).map hex)

/-- What follows a group and cannot be taken for a part of it. -/
def Ends (s : List Char) : Prop := ∀ c ∈ s.head?, isHex c = false

theorem span_hex {x : ℕ} (h : x < 65536) {s : List Char} (hs : Ends s) :
    (hex x ++ s).takeWhile isHex = hex x ∧ (hex x ++ s).dropWhile isHex = s := by
  have hhex := (hex_spec h).1
  rw [List.takeWhile_append_of_pos hhex, List.dropWhile_append_of_pos hhex]
  cases s with
  | nil => simp
  | cons c s =>
    have hc : isHex c = false := hs c (by simp)
    simp [hc]

theorem groupLoop_end {x : ℕ} (hx : x < 65536) (room : ℕ) (groups : List ℕ)
    (ellipsis : Option ℕ) :
    groupLoop (room + 1) groups ellipsis (hex x) = some (groups ++ [x], ellipsis, []) := by
  obtain ⟨htake, hdrop⟩ := span_hex hx (s := []) (by simp [Ends])
  obtain ⟨-, hne, hlen, hval⟩ := hex_spec hx
  rw [List.append_nil] at htake hdrop
  simp only [groupLoop, htake, hdrop, hval]
  rw [if_neg (by simp [hne]; omega)]

theorem groupLoop_colon {x : ℕ} (hx : x < 65536) (room : ℕ) (groups : List ℕ)
    (ellipsis : Option ℕ) {s : List Char} (hs : s ≠ []) (hcolon : s.head? ≠ some ':') :
    groupLoop (room + 1) groups ellipsis (hex x ++ ':' :: s) =
      groupLoop room (groups ++ [x]) ellipsis s := by
  obtain ⟨htake, hdrop⟩ := span_hex hx (s := ':' :: s) (by simp [Ends, isHex, hexVal])
  obtain ⟨-, hne, hlen, hval⟩ := hex_spec hx
  simp only [groupLoop, htake, hdrop, hval]
  rw [if_neg (by simp [hne]; omega)]
  cases s with
  | nil => contradiction
  | cons c s =>
    have hc : c ≠ ':' := by simpa using hcolon
    split <;> simp_all

theorem groupLoop_ellipsis {x : ℕ} (hx : x < 65536) (room : ℕ) (groups : List ℕ)
    (s : List Char) :
    groupLoop (room + 1) groups none (hex x ++ ':' :: ':' :: s) =
      if s = [] then some (groups ++ [x], some (groups.length + 1), [])
      else groupLoop room (groups ++ [x]) (some (groups.length + 1)) s := by
  obtain ⟨htake, hdrop⟩ := span_hex hx (s := ':' :: ':' :: s) (by simp [Ends, isHex, hexVal])
  obtain ⟨-, hne, hlen, hval⟩ := hex_spec hx
  simp only [groupLoop, htake, hdrop, hval]
  rw [if_neg (by simp [hne]; omega)]
  rfl

/-- The text of a group starts with a digit. -/
theorem head?_joined {x : ℕ} (hx : x < 65536) (xs : List ℕ) (s : List Char) :
    [':'].intercalate ((x :: xs).map hex) ++ s ≠ [] ∧
      ([':'].intercalate ((x :: xs).map hex) ++ s).head? ≠ some ':' := by
  obtain ⟨hhex, hne, -, -⟩ := hex_spec hx
  obtain ⟨c, cs, hc⟩ := List.exists_cons_of_ne_nil hne
  have hcolon : c ≠ ':' := by
    intro h
    have hdigit := hhex c (by simp [hc])
    rw [h] at hdigit
    contradiction
  cases xs <;> simp [hc, hcolon]

/-- Groups with colons between them are read as these groups. -/
theorem groupLoop_joined (xs groups : List ℕ) (ellipsis : Option ℕ) (room : ℕ)
    (hx : ∀ x ∈ xs, x < 65536) (hne : xs ≠ []) (hlen : xs.length ≤ room) :
    groupLoop room groups ellipsis ([':'].intercalate (xs.map hex)) =
      some (groups ++ xs, ellipsis, []) := by
  induction xs generalizing groups room with
  | nil => contradiction
  | cons x xs ih =>
    rw [List.forall_mem_cons] at hx
    obtain ⟨r, rfl⟩ := Nat.exists_eq_add_one.mpr (show 0 < room by simp at hlen; omega)
    cases xs with
    | nil =>
      rw [List.map_singleton, List.intercalate_singleton, groupLoop_end hx.1]
    | cons y ys =>
      obtain ⟨hne', hcolon⟩ := head?_joined (hx.2 y (by simp)) ys []
      rw [List.append_nil] at hne' hcolon
      have hstep := ih (groups ++ [x]) r hx.2 (by simp) (by simpa using hlen)
      rw [List.append_assoc, List.singleton_append] at hstep
      rw [← hstep, ← groupLoop_colon hx.1 r groups ellipsis hne' hcolon]
      simp

/-- Groups before an ellipsis and groups after it. -/
theorem groupLoop_run (xs ys groups : List ℕ) (room : ℕ) (hx : ∀ x ∈ xs, x < 65536)
    (hy : ∀ y ∈ ys, y < 65536) (hne : xs ≠ []) (hlen : xs.length + ys.length ≤ room) :
    groupLoop room groups none ([':'].intercalate (xs.map hex) ++
        ':' :: ':' :: [':'].intercalate (ys.map hex)) =
      some (groups ++ xs ++ ys, some (groups ++ xs).length, []) := by
  induction xs generalizing groups room with
  | nil => contradiction
  | cons x xs ih =>
    rw [List.forall_mem_cons] at hx
    obtain ⟨r, rfl⟩ := Nat.exists_eq_add_one.mpr (show 0 < room by simp at hlen; omega)
    cases xs with
    | nil =>
      rw [List.map_singleton, List.intercalate_singleton, groupLoop_ellipsis hx.1]
      cases ys with
      | nil => simp
      | cons y ys =>
        obtain ⟨hne', -⟩ := head?_joined (hy y (by simp)) ys []
        rw [List.append_nil] at hne'
        rw [if_neg hne', groupLoop_joined (y :: ys) _ _ r hy (by simp) (by simp at hlen ⊢; omega)]
        simp
    | cons z zs =>
      obtain ⟨hne', hcolon⟩ := head?_joined (hx.2 z (by simp)) zs
        (':' :: ':' :: [':'].intercalate (ys.map hex))
      have hstep := ih (groups ++ [x]) r hx.2 (by simp) (by simp at hlen ⊢; omega)
      rw [List.append_assoc groups [x], List.singleton_append] at hstep
      rw [← hstep, ← groupLoop_colon hx.1 r groups none hne' hcolon]
      simp

theorem drop_length_takeWhile {α : Type*} (p : α → Bool) (l : List α) :
    l.drop (l.takeWhile p).length = l.dropWhile p := by
  have h : (l.takeWhile p ++ l.dropWhile p).drop (l.takeWhile p).length = l.dropWhile p :=
    List.drop_left
  rwa [List.takeWhile_append_dropWhile] at h

/-- The chosen run is made of at least two zero groups. -/
theorem zeroRun_spec (groups : List ℕ) :
    (zeroRun groups).2 = 0 ∨ 2 ≤ (zeroRun groups).2 ∧
      groups = groups.take (zeroRun groups).1 ++ List.replicate (zeroRun groups).2 0 ++
        groups.drop ((zeroRun groups).1 + (zeroRun groups).2) := by
  have hrun : ∀ i, groups = groups.take i ++
      List.replicate ((groups.drop i).takeWhile (· = 0)).length 0 ++
        groups.drop (i + ((groups.drop i).takeWhile (· = 0)).length) := by
    intro i
    have hzero : (groups.drop i).takeWhile (· = 0) =
        List.replicate ((groups.drop i).takeWhile (· = 0)).length 0 := by
      rw [List.eq_replicate_iff]
      exact ⟨rfl, fun b hb => by simpa using List.mem_takeWhile_imp hb⟩
    have hrest : (groups.drop i).dropWhile (· = 0) =
        groups.drop (i + ((groups.drop i).takeWhile (· = 0)).length) := by
      rw [← List.drop_drop, drop_length_takeWhile]
    rw [← hzero, ← hrest, List.append_assoc, List.takeWhile_append_dropWhile,
      List.take_append_drop]
  unfold zeroRun
  apply List.foldlRecOn (motive := fun best : ℕ × ℕ => best.2 = 0 ∨ 2 ≤ best.2 ∧
    groups = groups.take best.1 ++ List.replicate best.2 0 ++ groups.drop (best.1 + best.2))
  · exact .inl rfl
  · intro best hbest i _
    dsimp only
    split_ifs with h
    · exact .inr ⟨h.1, hrun i⟩
    · exact hbest

theorem ipv6Groups_of_head {s : List Char} (h : s.head? ≠ some ':') :
    ipv6Groups s = (groupLoop 8 [] none s).bind fun r => expand r.1 r.2.1 r.2.2 := by
  unfold ipv6Groups
  split <;> simp_all

/-- Eight groups are read back from their text. -/
theorem ipv6Groups_text {groups : List ℕ} (hlen : groups.length = 8)
    (hlt : ∀ g ∈ groups, g < 65536) : ipv6Groups (ipv6Text groups) = some groups := by
  unfold ipv6Text
  obtain hrun | ⟨hlong, hsplit⟩ := zeroRun_spec groups
  · rw [if_pos hrun]
    have hloop := groupLoop_joined groups [] none 8 hlt (by rintro rfl; contradiction) hlen.le
    obtain ⟨g, gs, rfl⟩ := List.exists_cons_of_length_eq_add_one hlen
    have hhead := (head?_joined (hlt g (by simp)) gs []).2
    rw [List.append_nil] at hhead
    rw [ipv6Groups_of_head hhead, hloop]
    simp [expand, hlen]
  · rw [if_neg (by omega)]
    generalize zeroRun groups = run at hlong hsplit ⊢
    generalize hA : groups.take run.1 = A at hsplit ⊢
    generalize hB : groups.drop (run.1 + run.2) = B at hsplit ⊢
    have hcount : A.length + run.2 + B.length = 8 := by
      have h := congrArg List.length hsplit
      simp at h
      omega
    have hAlt : ∀ g ∈ A, g < 65536 := fun g hg => hlt g (hsplit ▸ by simp [hg])
    have hBlt : ∀ g ∈ B, g < 65536 := fun g hg => hlt g (hsplit ▸ by simp [hg])
    have hexpand : expand (A ++ B) (some A.length) [] = some groups := by
      rw [expand, List.length_append, if_pos (by omega), List.take_left, List.drop_left]
      rw [hsplit, show 8 - (A.length + B.length) = run.2 by omega]
    cases A with
    | nil =>
      cases B with
      | nil =>
        have hall : run.2 = 8 := by simpa using hcount
        rw [hsplit, hall]
        rfl
      | cons b bs =>
        obtain ⟨hne, -⟩ := head?_joined (hBlt b (by simp)) bs []
        rw [List.append_nil] at hne
        have hloop := groupLoop_joined (b :: bs) [] (some 0) 8 hBlt (by simp) (by omega)
        have hgroups : ipv6Groups (':' :: ':' :: [':'].intercalate ((b :: bs).map hex)) =
            (groupLoop 8 [] (some 0) ([':'].intercalate ((b :: bs).map hex))).bind
              fun r => expand r.1 r.2.1 r.2.2 := by
          obtain ⟨c, cs, hc⟩ := List.exists_cons_of_ne_nil hne
          rw [hc]
          rfl
        rw [List.map_nil, List.intercalate_nil, List.nil_append, hgroups, hloop]
        exact hexpand
    | cons a as =>
      have hhead := (head?_joined (hAlt a (by simp)) as
        (':' :: ':' :: [':'].intercalate (B.map hex))).2
      rw [ipv6Groups_of_head hhead, groupLoop_run (a :: as) B [] 8 hAlt hBlt (by simp) (by omega)]
      exact hexpand

/-! ## Addresses -/

def ofOctets (fs : List ℕ) : BitVec 32 := BitVec.ofNat 32 (value 256 fs)

def octets (a : BitVec 32) : List ℕ := digits 256 4 a.toNat

def ofGroups (gs : List ℕ) : BitVec 128 := BitVec.ofNat 128 (value 65536 gs)

def groups (a : BitVec 128) : List ℕ := digits 65536 8 a.toNat

@[simp] theorem ofOctets_octets (a : BitVec 32) : ofOctets (octets a) = a := by
  rw [ofOctets, octets, value_digits, Nat.mod_eq_of_lt (show a.toNat < 256 ^ 4 from a.isLt),
    BitVec.ofNat_toNat, BitVec.setWidth_eq]

@[simp] theorem ofGroups_groups (a : BitVec 128) : ofGroups (groups a) = a := by
  rw [ofGroups, groups, value_digits, Nat.mod_eq_of_lt (show a.toNat < 65536 ^ 8 from a.isLt),
    BitVec.ofNat_toNat, BitVec.setWidth_eq]

def parseIPv4 (s : List Char) : Option Addr := (ipv4Fields 0 0 [] s).map fun fs => .v4 (ofOctets fs)

/-- The zone is what follows the first percent sign, and is not empty. -/
def parseIPv6 (s : List Char) : Option Addr :=
  match cut '%' s with
  | none => (ipv6Groups s).map fun gs => .v6 (ofGroups gs) ""
  | some (_, []) => none
  | some (body, zone) => (ipv6Groups body).map fun gs => .v6 (ofGroups gs) (String.ofList zone)

def isMark (c : Char) : Bool := c = '.' ∨ c = ':' ∨ c = '%'

/-- The first of the three marks tells the version. -/
def parseAddr (s : String) : Option Addr :=
  match s.toList.find? isMark with
  | some '.' => parseIPv4 s.toList
  | some ':' => parseIPv6 s.toList
  | _ => none

def ipv4String (a : BitVec 32) : String :=
  String.ofList (['.'].intercalate ((octets a).map decimal))

def ipv6String (a : BitVec 128) : String := String.ofList (ipv6Text (groups a))

theorem find?_isMark {s : List Char} {c : Char} (hc : c ∈ s) (hmark : isMark c = true)
    (honly : ∀ d ∈ s, isMark d = true → d = c) : s.find? isMark = some c := by
  cases h : s.find? isMark with
  | none => exact absurd hmark (List.find?_eq_none.mp h c hc)
  | some d => rw [honly d (List.mem_of_find?_eq_some h) (List.find?_some h)]

theorem not_isMark_of_isHex {c : Char} (h : isHex c = true) : ¬isMark c = true := by
  intro hm
  rw [isMark, decide_eq_true_iff] at hm
  obtain rfl | rfl | rfl := hm <;> contradiction

theorem isHex_of_isDigit {c : Char} (h : c.isDigit = true) : isHex c = true := by
  have hdigit : '0' ≤ c ∧ c ≤ '9' := by simpa [Char.isDigit, Char.le_def] using h
  rw [isHex, hexVal, if_pos hdigit, Option.isSome_some]

theorem isDigit_of_mem_decimal {x : ℕ} (hx : x < 256) {c : Char} (h : c ∈ decimal x) :
    c.isDigit = true := by
  have hd : ∀ d < 10, d.digitChar.isDigit = true := by decide
  rw [decimal, List.mem_append, List.mem_append, List.mem_singleton] at h
  obtain (h | h) | rfl := h
  · split_ifs at h with hhundreds
    · rw [List.mem_singleton.mp h]
      exact hd _ (by omega)
    · cases h
  · split_ifs at h with htens
    · rw [List.mem_singleton.mp h]
      exact hd _ (Nat.mod_lt _ (by decide))
    · cases h
  · exact hd _ (Nat.mod_lt _ (by decide))

theorem parseAddr_ipv4String (a : BitVec 32) : parseAddr (ipv4String a) = some (.v4 a) := by
  have hlen : (octets a).length = 4 := length_digits 256 4 a.toNat
  have hlt : ∀ x ∈ octets a, x < 256 := fun x hx => lt_of_mem_digits (by decide) hx
  have hdot : '.' ∈ ['.'].intercalate ((octets a).map decimal) := by
    generalize octets a = xs at hlen ⊢
    obtain ⟨x, xs, rfl⟩ := List.exists_cons_of_length_eq_add_one hlen
    obtain ⟨y, ys, rfl⟩ := List.exists_cons_of_length_eq_add_one (Nat.succ.inj hlen)
    simp
  have hfind : (['.'].intercalate ((octets a).map decimal)).find? isMark = some '.' := by
    apply find?_isMark hdot (by decide)
    intro d hd hmark
    obtain hd | ⟨l, hl, hd⟩ := mem_intercalate hd
    · exact hd
    · obtain ⟨x, hx, rfl⟩ := List.mem_map.mp hl
      exact absurd hmark (not_isMark_of_isHex (isHex_of_isDigit (isDigit_of_mem_decimal (hlt x hx) hd)))
  have hfields := ipv4Fields_dotted (octets a) [] hlt (by rintro h; simp [h] at hlen) (by simpa using hlen)
  rw [parseAddr, ipv4String, String.toList_ofList, hfind]
  simp only [parseIPv4, hfields, List.nil_append, Option.map_some, ofOctets_octets]

theorem mem_ipv6Text {gs : List ℕ} (hlt : ∀ g ∈ gs, g < 65536) {c : Char} (h : c ∈ ipv6Text gs) :
    isHex c = true ∨ c = ':' := by
  have hjoined : ∀ xs ⊆ gs, c ∈ [':'].intercalate (xs.map hex) → isHex c = true ∨ c = ':' := by
    intro xs hxs hc
    obtain hc | ⟨l, hl, hc⟩ := mem_intercalate hc
    · exact .inr hc
    · obtain ⟨x, hx, rfl⟩ := List.mem_map.mp hl
      exact .inl ((hex_spec (hlt x (hxs hx))).1 c hc)
  simp only [ipv6Text] at h
  split_ifs at h with hrun
  · exact hjoined gs (List.Subset.refl gs) h
  · rw [List.mem_append, List.mem_cons, List.mem_cons] at h
    obtain h | h | h | h := h
    · exact hjoined _ (List.take_subset _ _) h
    · exact .inr h
    · exact .inr h
    · exact hjoined _ (List.drop_subset _ _) h

theorem colon_mem_ipv6Text {gs : List ℕ} (hlen : gs.length = 8) : ':' ∈ ipv6Text gs := by
  simp only [ipv6Text]
  split_ifs
  · obtain ⟨x, xs, rfl⟩ := List.exists_cons_of_length_eq_add_one hlen
    obtain ⟨y, ys, rfl⟩ := List.exists_cons_of_length_eq_add_one (Nat.succ.inj hlen)
    simp
  · simp

theorem parseAddr_ipv6String (a : BitVec 128) : parseAddr (ipv6String a) = some (.v6 a "") := by
  have hlen : (groups a).length = 8 := length_digits 65536 8 a.toNat
  have hlt : ∀ g ∈ groups a, g < 65536 := fun g hg => lt_of_mem_digits (by decide) hg
  have hfind : (ipv6Text (groups a)).find? isMark = some ':' := by
    apply find?_isMark (colon_mem_ipv6Text hlen) (by decide)
    intro d hd hmark
    obtain hhex | hcolon := mem_ipv6Text hlt hd
    · exact absurd hmark (not_isMark_of_isHex hhex)
    · exact hcolon
  have hzone : '%' ∉ ipv6Text (groups a) := by
    intro h
    obtain hhex | hcolon := mem_ipv6Text hlt h
    · exact absurd (by decide) (not_isMark_of_isHex hhex)
    · exact absurd hcolon (by decide)
  rw [parseAddr, ipv6String, String.toList_ofList, hfind]
  simp only [parseIPv6, cut_eq_none hzone, ipv6Groups_text hlen hlt, Option.map_some,
    ofGroups_groups]

/-! ## What an address is made of -/

def isAddrChar (c : Char) : Bool := isHex c || c = '.' || c = ':'

/-- The characters of an address lie between the dot and the letter f. -/
theorem toNat_of_isAddrChar {c : Char} (h : isAddrChar c = true) :
    46 ≤ c.toNat ∧ c.toNat ≤ 102 := by
  have hrange : ∀ a b : Char, a ≤ c → c ≤ b → a.toNat ≤ c.toNat ∧ c.toNat ≤ b.toNat :=
    fun _ _ ha hb => ⟨ha, hb⟩
  simp only [isAddrChar, isHex, hexVal, Bool.or_eq_true, decide_eq_true_eq] at h
  obtain (h | rfl) | rfl := h
  · split_ifs at h with h1 h2 h3
    · have hc := hrange _ _ h1.1 h1.2
      simp at hc
      omega
    · have hc := hrange _ _ h2.1 h2.2
      simp at hc
      omega
    · have hc := hrange _ _ h3.1 h3.2
      simp at hc
      omega
    · contradiction
  · decide
  · decide

theorem ipv4Fields_chars {v n : ℕ} {fields r : List ℕ} {s : List Char}
    (h : ipv4Fields v n fields s = some r) : ∀ c ∈ s, isAddrChar c = true := by
  induction s generalizing v n fields with
  | nil => simp
  | cons d s ih =>
    rw [ipv4Fields] at h
    rw [List.forall_mem_cons]
    split_ifs at h with hdigit _ _ hdot
    · exact ⟨by simp [isAddrChar, isHex_of_isDigit hdigit], ih h⟩
    · exact ⟨by simp [isAddrChar, hdot], ih h⟩

/-- The loop goes over address characters up to what it leaves. -/
theorem groupLoop_chars {room : ℕ} {gs gs' : List ℕ} {e e' : Option ℕ} {s rest : List Char}
    (h : groupLoop room gs e s = some (gs', e', rest)) :
    ∀ c ∈ s, isAddrChar c = true ∨ c ∈ rest := by
  induction room generalizing gs e s with
  | zero =>
    cases h
    exact fun c hc => .inr hc
  | succ room ih =>
    have hfield : ∀ c ∈ s.takeWhile isHex, isAddrChar c = true := by
      intro c hc
      simp [isAddrChar, List.mem_takeWhile_imp hc]
    have hcolon : isAddrChar ':' = true := by decide
    intro c hc
    have hparts : c ∈ s.takeWhile isHex ∨ c ∈ s.dropWhile isHex := by
      rwa [← List.mem_append, List.takeWhile_append_dropWhile]
    simp only [groupLoop] at h
    by_cases hcount : s.takeWhile isHex = [] ∨ 4 < (s.takeWhile isHex).length
    · rw [if_pos hcount] at h
      contradiction
    rw [if_neg hcount] at h
    cases hparts with
    | inl hc => exact .inl (hfield c hc)
    | inr hdrop =>
      split at h <;> rename_i heq
      · simp [heq] at hdrop
      · split_ifs at h
        obtain ⟨fs, hfs, -⟩ := Option.map_eq_some_iff.mp h
        exact .inl (ipv4Fields_chars hfs c hc)
      · contradiction
      · rename_i t
        split_ifs at h with _ hend
        · have hc : c = ':' := by simpa [heq, hend] using hdrop
          exact .inl (hc ▸ hcolon)
        · rw [heq, List.mem_cons, List.mem_cons] at hdrop
          obtain hdrop | hdrop | hdrop := hdrop
          · exact .inl (hdrop ▸ hcolon)
          · exact .inl (hdrop ▸ hcolon)
          · exact ih h c hdrop
      · rw [heq, List.mem_cons] at hdrop
        obtain hdrop | hdrop := hdrop
        · exact .inl (hdrop ▸ hcolon)
        · exact ih h c hdrop
      · contradiction

theorem expand_rest {gs r : List ℕ} {e : Option ℕ} {rest : List Char}
    (h : expand gs e rest = some r) : rest = [] := by
  cases rest with
  | nil => rfl
  | cons c rest => simp [expand] at h

theorem ipv6Groups_chars {s : List Char} {r : List ℕ} (h : ipv6Groups s = some r) :
    ∀ c ∈ s, isAddrChar c = true := by
  have hloop : ∀ e t, ((groupLoop 8 [] e t).bind fun r => expand r.1 r.2.1 r.2.2) = some r →
      ∀ c ∈ t, isAddrChar c = true := by
    intro e t ht c hc
    obtain ⟨⟨gs, e', rest⟩, hgs, hexpand⟩ := Option.bind_eq_some_iff.mp ht
    obtain hc | hc := groupLoop_chars hgs c hc
    · exact hc
    · have hrest : rest = [] := expand_rest hexpand
      simp [hrest] at hc
  have hcolon : isAddrChar ':' = true := by decide
  unfold ipv6Groups at h
  split at h
  · simpa using hcolon
  · rw [List.forall_mem_cons, List.forall_mem_cons]
    exact ⟨hcolon, hcolon, hloop _ _ h⟩
  · exact hloop _ _ h

/-- Three digits a field, which has no leading zeros, and a dot after all but the last. -/
theorem length_le_of_ipv4Fields {val digLen : ℕ} {fields r : List ℕ} {s : List Char}
    (h : ipv4Fields val digLen fields s = some r) (hval : val ≤ 255)
    (hdigits : digLen ≤ 1 ∨ digLen = 2 ∧ 10 ≤ val ∨ digLen = 3 ∧ 100 ≤ val)
    (hfields : fields.length ≤ 3) :
    s.length + digLen + 4 * fields.length ≤ 15 := by
  induction s generalizing val digLen fields with
  | nil =>
    rw [List.length_nil]
    omega
  | cons c s ih =>
    rw [ipv4Fields] at h
    split_ifs at h with hdigit hlead hbig hdot hbad hfull
    · have hd : c.toNat - 48 ≤ 9 := by
        have hle : c.toNat ≤ 57 := (Char.isDigit_iff_toNat.mp hdigit).2
        omega
      have hrest := ih h (by omega) (by omega) hfields
      rw [List.length_cons]
      omega
    · have hrest := ih h (by omega) (by omega) (by simp; omega)
      rw [List.length_append, List.length_singleton] at hrest
      rw [List.length_cons]
      omega

/-- Five characters a group, one more for the ellipsis, and an IPv4 address at the end. -/
theorem length_le_of_groupLoop {room : ℕ} {gs gs' : List ℕ} {e e' : Option ℕ} {s : List Char}
    (h : groupLoop room gs e s = some (gs', e', [])) :
    s.length ≤ 5 * room + (if e = none then 1 else 0) + 15 := by
  induction room generalizing gs e s with
  | zero =>
    cases h
    exact Nat.zero_le _
  | succ room ih =>
    simp only [groupLoop] at h
    have hparts : s.length = (s.takeWhile isHex).length + (s.dropWhile isHex).length := by
      rw [← List.length_append, List.takeWhile_append_dropWhile]
    by_cases hcount : s.takeWhile isHex = [] ∨ 4 < (s.takeWhile isHex).length
    · rw [if_pos hcount] at h
      contradiction
    rw [if_neg hcount] at h
    rw [not_or, not_lt] at hcount
    split at h <;> rename_i heq
    · simp [heq] at hparts
      omega
    · split_ifs at h
      obtain ⟨fs, hfs, -⟩ := Option.map_eq_some_iff.mp h
      have hv4 := length_le_of_ipv4Fields hfs (by omega) (by omega) (by simp)
      simp at hv4
      omega
    · contradiction
    · split_ifs at h with hsome hend
      · simp [heq, hend] at hparts
        omega
      · have hrest := ih h
        simp [heq] at hparts hrest hsome
        simp [hsome]
        omega
    · have hrest := ih h
      simp [heq] at hparts
      omega
    · contradiction

theorem length_lt_of_ipv6Groups {s : List Char} {r : List ℕ} (h : ipv6Groups s = some r) :
    s.length < 64 := by
  have hloop : ∀ e t, ((groupLoop 8 [] e t).bind fun r => expand r.1 r.2.1 r.2.2) = some r →
      t.length ≤ 56 := by
    intro e t ht
    obtain ⟨⟨gs, e', rest⟩, hgs, hexpand⟩ := Option.bind_eq_some_iff.mp ht
    have hrest : rest = [] := expand_rest hexpand
    subst hrest
    have hle := length_le_of_groupLoop hgs
    split_ifs at hle <;> omega
  unfold ipv6Groups at h
  split at h
  · simp
  · have hle := hloop _ _ h
    simp
    omega
  · have hle := hloop _ _ h
    omega

/-- Without a zone there are only address characters. -/
theorem parseAddr_chars {s : String} {a : Addr} (h : parseAddr s = some a)
    (hzone : '%' ∉ s.toList) : ∀ c ∈ s.toList, isAddrChar c = true := by
  unfold parseAddr at h
  split at h
  · obtain ⟨fs, hfs, -⟩ := Option.map_eq_some_iff.mp h
    exact ipv4Fields_chars hfs
  · rw [parseIPv6, cut_eq_none hzone] at h
    obtain ⟨gs, hgs, -⟩ := Option.map_eq_some_iff.mp h
    exact ipv6Groups_chars hgs
  · contradiction

example : ipv6String 0x20010db8000000000000000000000001 = "2001:db8::1" := by decide +kernel

example : parseAddr "::ffff:10.0.0.1" = some (.v6 0xffff0a000001 "") := by decide +kernel

example : parseAddr "fe80::1%eth0" = some (.v6 0xfe800000000000000000000000000001 "eth0") := by
  decide +kernel

example : parseAddr "10.0.0.01" = none := by decide +kernel

end IPAddress
