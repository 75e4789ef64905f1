import NetBerth.IPAddress

/-!
# Networks of internet addresses

A network is an address and the number of its leading bits that count. There
are two representations. A prefix keeps the version of its address and contains
addresses of this version only. A network with a mask has every address in the
long form, where an IPv4 address is the same as the IPv6 address it is mapped
to, and compares as IPv4 whatever has an IPv4 form.

The two read the same text. They contain the same addresses unless the text is
an IPv4-mapped IPv6 address with a mask that leaves it in the mapped range.
-/
namespace IPAddress

/-! ## Leading bits -/

section
variable {w : ℕ}

/-- The leading `n` bits are the same. -/
def agree (n : ℕ) (a b : BitVec w) : Bool := a >>> (w - n) = b >>> (w - n)

/-- The leading `n` bits, and zeros. -/
def masked (n : ℕ) (a : BitVec w) : BitVec w := (a >>> (w - n)) <<< (w - n)

theorem agree_iff {n : ℕ} {a b : BitVec w} :
    agree n a b = true ↔ a.toNat / 2 ^ (w - n) = b.toNat / 2 ^ (w - n) := by
  rw [agree, decide_eq_true_iff, ← BitVec.toNat_inj]
  simp only [BitVec.toNat_ushiftRight, Nat.shiftRight_eq_div_pow]

@[simp] theorem agree_self (n : ℕ) (a : BitVec w) : agree n a a = true := agree_iff.mpr rfl

theorem agree_of_le {n : ℕ} (h : w ≤ n) {a b : BitVec w} : agree n a b = true ↔ a = b := by
  rw [agree_iff, Nat.sub_eq_zero_of_le h, pow_zero, Nat.div_one, Nat.div_one, BitVec.toNat_inj]

theorem toNat_masked (n : ℕ) (a : BitVec w) :
    (masked n a).toNat = a.toNat / 2 ^ (w - n) * 2 ^ (w - n) := by
  have hlt : a.toNat / 2 ^ (w - n) * 2 ^ (w - n) < 2 ^ w :=
    (Nat.div_mul_le_self _ _).trans_lt a.isLt
  rw [masked, BitVec.toNat_shiftLeft, BitVec.toNat_ushiftRight, Nat.shiftRight_eq_div_pow,
    Nat.shiftLeft_eq, Nat.mod_eq_of_lt hlt]

@[simp] theorem agree_masked (n : ℕ) (a b : BitVec w) : agree n (masked n a) b = agree n a b := by
  rw [Bool.eq_iff_iff, agree_iff, agree_iff, toNat_masked, Nat.mul_div_cancel _ (by positivity)]

end

/-! ## The long form -/

/-- An address in sixteen bytes. -/
abbrev IP := BitVec 128

/-- An IPv4 address as an IPv6 address. -/
def mapped (a : BitVec 32) : IP := BitVec.ofNat 128 (0xffff * 2 ^ 32 + a.toNat)

def to4 (x : IP) : Option (BitVec 32) :=
  if x.toNat / 2 ^ 32 = 0xffff then some (BitVec.ofNat 32 x.toNat) else none

theorem toNat_mapped (a : BitVec 32) : (mapped a).toNat = 0xffff * 2 ^ 32 + a.toNat := by
  have h := a.isLt
  rw [mapped, BitVec.toNat_ofNat, Nat.mod_eq_of_lt (by omega)]

@[simp] theorem to4_mapped (a : BitVec 32) : to4 (mapped a) = some a := by
  have h := a.isLt
  rw [to4, toNat_mapped, if_pos (by omega), Option.some.injEq, ← BitVec.toNat_inj,
    BitVec.toNat_ofNat]
  omega

theorem to4_eq_some {x : IP} {a : BitVec 32} (h : to4 x = some a) : x = mapped a := by
  rw [to4] at h
  split_ifs at h with hx
  rw [← BitVec.toNat_inj, toNat_mapped, ← Option.some.inj h, BitVec.toNat_ofNat]
  omega

namespace Addr

def zone : Addr → String
  | .v4 _ => ""
  | .v6 _ zone => zone

def bitLen : Addr → ℕ
  | .v4 _ => 32
  | .v6 _ _ => 128

def as16 : Addr → IP
  | .v4 a => mapped a
  | .v6 a _ => a

/-- An IPv6 address in the range of the IPv4 addresses. -/
def isMapped : Addr → Bool
  | .v4 _ => false
  | .v6 a _ => (to4 a).isSome

/-- The address a long form is printed as. -/
def ofIP (x : IP) : Addr :=
  match to4 x with
  | some a => .v4 a
  | none => .v6 x ""

@[simp] theorem zone_ofIP (x : IP) : (ofIP x).zone = "" := by
  unfold ofIP
  split <;> rfl

@[simp] theorem as16_ofIP (x : IP) : (ofIP x).as16 = x := by
  unfold ofIP
  split
  · rename_i h
    exact (to4_eq_some h).symm
  · rfl

theorem ofIP_as16_iff {a : Addr} (hzone : a.zone = "") :
    ofIP a.as16 = a ↔ a.isMapped = false := by
  cases a with
  | v4 a => simp [ofIP, as16, isMapped]
  | v6 a zone =>
    have hempty : "" = zone := hzone.symm
    cases h : to4 a <;> simp [ofIP, as16, isMapped, h, hempty]

end Addr

/-- `net.IP.String`. -/
def ipString (x : IP) : String :=
  match to4 x with
  | some a => ipv4String a
  | none => ipv6String x

/-- `net.ParseIP`. -/
def parseIP (s : String) : Option IP :=
  (parseAddr s).bind fun a => if a.zone = "" then some a.as16 else none

@[simp] theorem parseAddr_ipString (x : IP) : parseAddr (ipString x) = some (.ofIP x) := by
  unfold ipString Addr.ofIP
  split
  · exact parseAddr_ipv4String _
  · exact parseAddr_ipv6String x

@[simp] theorem parseIP_ipString (x : IP) : parseIP (ipString x) = some x := by
  simp [parseIP]

theorem ipString_injective : Function.Injective ipString := by
  intro x y h
  have hparse := congrArg parseIP h
  simpa using hparse

/-! ## Prefixes -/

structure Prefix where
  addr : Addr
  bits : ℕ
  deriving DecidableEq, Repr

/-- `netip.Prefix.Contains`; no prefix that is read has a zone. -/
def Prefix.contains (p : Prefix) (b : Addr) : Bool :=
  match p.addr, b with
  | .v4 a, .v4 b => agree p.bits a b
  | .v6 a _, .v6 b zone => zone = "" && agree p.bits a b
  | _, _ => false

/-- A number with a sign or a leading zero is not the length of a prefix. -/
def plainBits (bits : List Char) : Bool :=
  bits.length ≤ 1 || bits.head?.all fun c => '1' ≤ c && c ≤ '9'

/-- `netip.ParsePrefix`. -/
def parsePrefix (s : String) : Option Prefix := do
  let (addr, bits) ← cutLast '/' s.toList
  let ip ← parseAddr (String.ofList addr)
  guard (ip.zone = "")
  guard (plainBits bits)
  let n ← atoi bits
  guard (n ≤ ip.bitLen)
  return ⟨ip, n⟩

/-! ## Networks with a mask -/

/-- The address is in the long form; the mask has `bits` bits, the first `ones` of
them set. -/
structure IPNet where
  ip : IP
  ones : ℕ
  bits : ℕ
  deriving DecidableEq, Repr

/-- `net.IPNet.Contains`: of a long mask the last four bytes go with an IPv4
address, and a short mask goes with nothing else. -/
def IPNet.contains (n : IPNet) (x : IP) : Bool :=
  match to4 n.ip, to4 x with
  | some a, some b => agree (if n.bits = 32 then n.ones else n.ones - 96) a b
  | none, none => n.bits = 128 && agree n.ones n.ip x
  | _, _ => false

/-- `net.IP.Mask` with a mask for the version. -/
def Addr.network (n : ℕ) : Addr → IPNet
  | .v4 a => ⟨mapped (masked n a), n, 32⟩
  | .v6 a _ => ⟨masked n a, n, 128⟩

/-- The network of `net.ParseCIDR`. -/
def parseCIDR (s : String) : Option IPNet := do
  let (addr, mask) ← cut '/' s.toList
  let ip ← parseAddr (String.ofList addr)
  guard (ip.zone = "")
  let n ← atoi mask
  guard (n ≤ ip.bitLen)
  return ip.network n

theorem to4_eq_none_iff {x : IP} : to4 x = none ↔ x.toNat / 2 ^ 32 ≠ 0xffff := by
  simp only [to4, ite_eq_right_iff, reduceCtorEq, imp_false, ne_eq]

/-- A network stays in the mapped range only under a mask of at least 96 bits. -/
theorem to4_masked {n : ℕ} {a : IP} (h : to4 a = none ∨ n < 96) : to4 (masked n a) = none := by
  rw [to4_eq_none_iff, toNat_masked]
  by_cases hn : n < 96
  · -- the last of the sixteen bits is cleared
    have hpow : 2 ^ (128 - n) = 2 ^ (95 - n) * 2 * 2 ^ 32 := by
      rw [← pow_succ, ← pow_add]
      congr 1
      omega
    rw [hpow, ← mul_assoc, Nat.mul_div_cancel _ (by positivity), ← mul_assoc]
    omega
  · have ha := to4_eq_none_iff.mp (h.resolve_right hn)
    have hpow : 2 ^ 32 = 2 ^ (128 - n) * 2 ^ (32 - (128 - n)) := by
      rw [← pow_add]
      congr 1
      omega
    rwa [hpow, ← Nat.div_div_eq_div_mul, Nat.mul_div_cancel _ (by positivity),
      Nat.div_div_eq_div_mul, ← hpow]

/-- The two representations of what is read agree outside the mapped range. -/
theorem network_contains {ip : Addr} {n : ℕ} (h : ip.isMapped = false ∨ n < 96) (x : IP) :
    (ip.network n).contains x = (⟨ip, n⟩ : Prefix).contains (.ofIP x) := by
  cases ip with
  | v4 a =>
    cases hx : to4 x <;> simp [Addr.network, IPNet.contains, Prefix.contains, Addr.ofIP, hx]
  | v6 a zone =>
    have hmask : to4 (masked n a) = none := to4_masked (by simpa [Addr.isMapped] using h)
    cases hx : to4 x <;>
      simp [Addr.network, IPNet.contains, Prefix.contains, Addr.ofIP, hx, hmask]

theorem masked_mapped {n : ℕ} (hn : 96 ≤ n) (b : BitVec 32) :
    masked n (mapped b) = mapped (masked (n - 96) b) := by
  rw [← BitVec.toNat_inj, toNat_mapped, toNat_masked, toNat_masked, toNat_mapped,
    show 32 - (n - 96) = 128 - n by omega]
  have hpow : 2 ^ 32 = 2 ^ (32 - (128 - n)) * 2 ^ (128 - n) := by
    rw [← pow_add]
    congr 1
    omega
  rw [hpow, ← mul_assoc, Nat.add_comm, Nat.add_mul_div_right _ _ (by positivity), Nat.add_mul,
    Nat.add_comm]

/-- Inside the mapped range the address itself is in the network and not in the prefix. -/
theorem network_contains_mapped {ip : Addr} (h : ip.isMapped = true) {n : ℕ} (hn : 96 ≤ n) :
    (ip.network n).contains ip.as16 = true ∧
      (⟨ip, n⟩ : Prefix).contains (.ofIP ip.as16) = false := by
  cases ip with
  | v4 a => simp [Addr.isMapped] at h
  | v6 a zone =>
    obtain ⟨b, hb⟩ := Option.isSome_iff_exists.mp h
    obtain rfl := to4_eq_some hb
    constructor
    · simp [Addr.network, Addr.as16, IPNet.contains, masked_mapped hn]
    · simp [Prefix.contains, Addr.as16, Addr.ofIP]

/-! ## What the text tells -/

theorem not_mem_of_zone {s : String} {a : Addr} (h : parseAddr s = some a) (hzone : a.zone = "") :
    '%' ∉ s.toList ∧ '/' ∉ s.toList := by
  have hpercent : '%' ∉ s.toList := by
    intro hmem
    unfold parseAddr at h
    split at h
    · obtain ⟨fs, hfs, -⟩ := Option.map_eq_some_iff.mp h
      exact absurd (ipv4Fields_chars hfs _ hmem) (by decide)
    · obtain ⟨body, zone, hs, hbody⟩ := List.eq_append_cons_of_mem hmem
      rw [parseIPv6, hs, cut_append hbody] at h
      cases zone with
      | nil => contradiction
      | cons c zone =>
        obtain ⟨gs, -, rfl⟩ := Option.map_eq_some_iff.mp h
        simp [Addr.zone] at hzone
    · contradiction
  refine ⟨hpercent, fun hmem => ?_⟩
  exact absurd (parseAddr_chars h hpercent _ hmem) (by decide)

theorem isDigit_of_atoi {s : List Char} {n : ℕ} (h : atoi s = some n) : ∀ c ∈ s, c.isDigit = true := by
  unfold atoi at h
  split_ifs at h with hs
  exact List.all_eq_true.mp (Bool.and_eq_true_iff.mp hs).2

/-- Text with a mask is no address. -/
theorem parseAddr_of_mask {s : String} {addr mask : List Char} {ip : Addr} {n : ℕ}
    (hs : s.toList = addr ++ '/' :: mask) (hip : parseAddr (String.ofList addr) = some ip)
    (hzone : ip.zone = "") (hn : atoi mask = some n) : parseAddr s = none := by
  have hpercent : '%' ∉ s.toList := by
    rw [hs, List.mem_append, List.mem_cons]
    rintro (hmem | hmem | hmem)
    · exact (not_mem_of_zone hip hzone).1 (by simpa using hmem)
    · contradiction
    · exact absurd (isDigit_of_atoi hn _ hmem) (by decide)
  by_contra hsome
  obtain ⟨a, ha⟩ := Option.ne_none_iff_exists'.mp hsome
  exact absurd (parseAddr_chars ha hpercent '/' (by rw [hs]; simp)) (by decide)

theorem parsePrefix_spec {s : String} {p : Prefix} (h : parsePrefix s = some p) :
    parseAddr s = none ∧ p.addr.zone = "" := by
  simp only [parsePrefix, Option.bind_eq_bind, Option.bind_eq_some_iff, Option.pure_def,
    Option.guard_eq_some', Option.some.injEq] at h
  obtain ⟨⟨addr, mask⟩, hcut, ip, hip, -, hzone, -, hplain, n, hn, -, hle, rfl⟩ := h
  exact ⟨parseAddr_of_mask (cutLast_eq_some hcut).1 hip hzone hn, hzone⟩

/-- Text with a mask is read by both as the same address and length, except that
a prefix takes plain numbers only; and it is no address. -/
theorem parsePrefix_of_parseCIDR {s : String} {net : IPNet} (h : parseCIDR s = some net) :
    ∃ addr mask ip n, cut '/' s.toList = some (addr, mask) ∧
      parseAddr (String.ofList addr) = some ip ∧ ip.zone = "" ∧ atoi mask = some n ∧
      net = ip.network n ∧ parsePrefix s = (if plainBits mask then some ⟨ip, n⟩ else none) ∧
      parseAddr s = none := by
  simp only [parseCIDR, Option.bind_eq_bind, Option.bind_eq_some_iff, Option.pure_def,
    Option.guard_eq_some', Option.some.injEq] at h
  obtain ⟨⟨addr, mask⟩, hcut, ip, hip, -, hzone, n, hn, -, hle, rfl⟩ := h
  have hs := (cut_eq_some hcut).1
  have hslash : '/' ∉ mask := fun hmem => absurd (isDigit_of_atoi hn _ hmem) (by decide)
  refine ⟨addr, mask, ip, n, hcut, hip, hzone, hn, rfl, ?_, parseAddr_of_mask hs hip hzone hn⟩
  cases hplain : plainBits mask <;>
    simp [parsePrefix, hs, cutLast_append hslash, hip, hzone, hn, hle, hplain]

/-- Text without a mask is no prefix. -/
theorem parsePrefix_of_parseIP {s : String} {x : IP} (h : parseIP s = some x) :
    ∃ a, parseAddr s = some a ∧ a.zone = "" ∧ x = a.as16 ∧ cut '/' s.toList = none ∧
      parsePrefix s = none ∧ parseCIDR s = none := by
  obtain ⟨a, ha, hx⟩ := Option.bind_eq_some_iff.mp h
  split_ifs at hx with hzone
  have hslash := (not_mem_of_zone ha hzone).2
  refine ⟨a, ha, hzone, (Option.some.inj hx).symm, cut_eq_none hslash, ?_, ?_⟩
  · simp [parsePrefix, cutLast_eq_none hslash]
  · simp [parseCIDR, cut_eq_none hslash]

/-- The set of addresses that `net` reads in a text. -/
def netContains (v : String) (x : IP) : Bool :=
  match parseCIDR v with
  | some network => network.contains x
  | none => parseIP v = some x

/-! ## Host and port -/

/-- `net.SplitHostPort`. A host in brackets ends just before the last colon. -/
def splitHostPort (s : String) : Option (String × String) :=
  match cutLast ':' s.toList with
  | none => none
  | some (before, port) =>
    match s.toList with
    | '[' :: rest =>
      let host := rest.takeWhile (· ≠ ']')
      if before = '[' :: host ++ [']'] ∧ '[' ∉ rest ∧ ']' ∉ port then
        some (String.ofList host, String.ofList port)
      else none
    | cs =>
      if ':' ∈ before ∨ '[' ∈ cs ∨ ']' ∈ cs then none
      else some (String.ofList before, String.ofList port)

end IPAddress
