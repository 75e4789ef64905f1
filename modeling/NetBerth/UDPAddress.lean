import NetBerth.ByteStream
import NetBerth.IPNetwork

/-!
# Addresses of datagrams

The address of a socket is kept as four or as sixteen bytes; four bytes mean the
IPv4-mapped address of the long form. Two addresses are equal when they mean the
same. Bytes of another length are no address and equal nothing but themselves.
-/
namespace IPAddress
open ByteStream (getBE)

/-- `net.IP`: four or sixteen bytes. -/
abbrev IPBytes := List UInt8

namespace IPBytes

def v4InV6Prefix : List UInt8 := List.replicate 10 0 ++ [0xff, 0xff]

/-- `net.IPv4`, in sixteen bytes. -/
def ipv4 (a b c d : UInt8) : IPBytes := v4InV6Prefix ++ [a, b, c, d]

/-- `net.IP.To4`; no bytes when there is no such form. -/
def to4 (ip : IPBytes) : IPBytes :=
  if ip.length = 4 then ip
  else if ip.length = 16 ∧ ip.take 12 = v4InV6Prefix then ip.drop 12 else []

/-- `net.IP.Equal`. -/
def equal (ip x : IPBytes) : Bool :=
  if ip.length = x.length then ip = x
  else if ip.length = 4 ∧ x.length = 16 then x.take 12 = v4InV6Prefix && ip = x.drop 12
  else if ip.length = 16 ∧ x.length = 4 then ip.take 12 = v4InV6Prefix && ip.drop 12 = x
  else false

/-- The address that is meant, in the long form. -/
def longForm (ip : IPBytes) : Option IP :=
  if ip.length = 4 then some (mapped (BitVec.ofNat 32 (getBE ip)))
  else if ip.length = 16 then some (BitVec.ofNat 128 (getBE ip)) else none

section
variable {ip x : IPBytes} {a : IP}

theorem longForm_toNat (h : longForm ip = some a) :
    ip.length = 4 ∧ a.toNat = 0xffff * 2 ^ 32 + getBE ip ∨ ip.length = 16 ∧ a.toNat = getBE ip := by
  have hlt := ByteStream.getBE_lt ip
  rw [longForm] at h
  split_ifs at h with h4 h16
  · rw [h4, show 256 ^ 4 = 2 ^ 32 by norm_num] at hlt
    rw [← Option.some.inj h, toNat_mapped, BitVec.toNat_ofNat, Nat.mod_eq_of_lt hlt]
    exact .inl ⟨h4, rfl⟩
  · rw [h16, show 256 ^ 16 = 2 ^ 128 by norm_num] at hlt
    rw [← Option.some.inj h, BitVec.toNat_ofNat, Nat.mod_eq_of_lt hlt]
    exact .inr ⟨h16, rfl⟩

theorem longForm_injective (hlen : ip.length = x.length) (hip : longForm ip = some a)
    (hx : longForm x = some a) : ip = x := by
  apply ByteStream.getBE_injective hlen
  rcases longForm_toNat hip with ⟨_, hip⟩ | ⟨_, hip⟩ <;>
    rcases longForm_toNat hx with ⟨_, hx⟩ | ⟨_, hx⟩ <;> omega

theorem longForm_append (h : ip.length = 4) : longForm (v4InV6Prefix ++ ip) = longForm ip := by
  have hlt := ByteStream.getBE_lt ip
  have hprefix : getBE v4InV6Prefix = 0xffff := by decide
  have hlen : (v4InV6Prefix ++ ip).length = 16 := by simp [v4InV6Prefix, h]
  rw [h] at hlt
  rw [longForm, longForm, if_neg (by omega), if_pos hlen, if_pos h, Option.some.injEq,
    ← BitVec.toNat_inj, toNat_mapped, BitVec.toNat_ofNat, BitVec.toNat_ofNat,
    ByteStream.getBE_append, hprefix, h]
  omega

theorem eq_prefix_append_iff (h : ip.length = 4) (hx : x.length = 16) :
    x = v4InV6Prefix ++ ip ↔ ∃ a, longForm ip = some a ∧ longForm x = some a := by
  constructor
  · rintro rfl
    exact ⟨_, if_pos h, (longForm_append h).trans (if_pos h)⟩
  · rintro ⟨a, hip, hxa⟩
    rw [← longForm_append h] at hip
    apply longForm_injective _ hxa hip
    simp [v4InV6Prefix, h, hx]

theorem take_drop_iff : x.take 12 = v4InV6Prefix ∧ ip = x.drop 12 ↔ x = v4InV6Prefix ++ ip := by
  constructor
  · rintro ⟨htake, rfl⟩
    rw [← htake, List.take_append_drop]
  · rintro rfl
    have hlen : v4InV6Prefix.length = 12 := rfl
    exact ⟨List.take_left' hlen, (List.drop_left' hlen).symm⟩

/-- Equal addresses mean the same. -/
theorem equal_iff :
    equal ip x = true ↔ ip = x ∨ ∃ a, longForm ip = some a ∧ longForm x = some a := by
  unfold equal
  split_ifs with hlen h4 h16
  · rw [decide_eq_true_iff]
    constructor
    · exact .inl
    · rintro (h | ⟨a, hip, hx⟩)
      · exact h
      · exact longForm_injective hlen hip hx
  · have hne : ip ≠ x := fun h => hlen (congrArg _ h)
    rw [Bool.and_eq_true, decide_eq_true_iff, decide_eq_true_iff, take_drop_iff,
      eq_prefix_append_iff h4.1 h4.2]
    exact (or_iff_right hne).symm
  · have hne : ip ≠ x := fun h => hlen (congrArg _ h)
    rw [Bool.and_eq_true, decide_eq_true_iff, decide_eq_true_iff, eq_comm (b := x), take_drop_iff,
      eq_prefix_append_iff h16.2 h16.1]
    simp only [or_iff_right hne, and_comm]
  · apply iff_of_false not_false
    rintro (rfl | ⟨a, hip, hx⟩)
    · exact hlen rfl
    · rcases longForm_toNat hip with ⟨_, _⟩ | ⟨_, _⟩ <;>
        rcases longForm_toNat hx with ⟨_, _⟩ | ⟨_, _⟩ <;> omega

end

/-- `net.IP.String`. -/
def string (ip : IPBytes) : String :=
  if ip = [] then "<nil>"
  else
    match longForm ip with
    | some a => ipString a
    | none => "?" ++ String.ofList (ip.flatMap fun b => (digits 16 2 b.toNat).map Nat.digitChar)

end IPBytes

structure UDPAddr where
  ip : IPBytes
  port : ℕ
  zone : String
  deriving DecidableEq, Repr

/-- `net.JoinHostPort`. -/
def joinHostPort (host port : String) : String :=
  if host.contains ':' then "[" ++ host ++ "]:" ++ port else host ++ ":" ++ port

/-- `net.UDPAddr.String`. -/
def UDPAddr.string (a : UDPAddr) : String :=
  let ip := if a.ip = [] then "" else a.ip.string
  joinHostPort (if a.zone = "" then ip else ip ++ "%" ++ a.zone) (toString a.port)

end IPAddress
