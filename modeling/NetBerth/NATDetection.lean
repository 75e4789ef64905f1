import NetBerth.StunConsensus

/-!
# What the detection of a NAT can tell

`DetectNAT` asks one server twice from one socket and compares the ports it is told, compares the
address it is told with the one of the socket, and waits for an echo from a second socket. A NAT
gives a socket an address in front of it for each destination, the same or another one.

The two requests have the same destination, so the answers agree whatever the NAT does with other
destinations. Both sockets are opened without an address and are bound to no particular one, so
neither comparison of an address with theirs can succeed. What is left is whether something else
arrives while the detection waits.
-/
namespace NetBerth.NATDetection
open IPAddress StunBind StunMessage StunConsensus

/-- The address of a socket that is bound to no particular one. -/
def Unspecified (ip : IPBytes) : Prop := ip = List.replicate 4 0 ∨ ip = List.replicate 16 0

/-- The address of a host. -/
def Specified (ip : IPBytes) : Prop :=
  ip.equal (List.replicate 4 0) = false ∧ ip.equal (List.replicate 16 0) = false

instance (ip : IPBytes) : Decidable (Specified ip) := inferInstanceAs (Decidable (_ ∧ _))

/-- The socket of a probe is behind a NAT, or behind none: `mapping` is the address from which
its datagrams reach a destination. -/
structure Behind (mapping : UDPAddr → UDPAddr) (w : Network) : Prop where
  localAddr : ∀ conn addr, w.listenUDP = .ok (conn, addr) → Unspecified addr.ip
  altAddr : ∀ addr, w.listenAlt = .ok addr → Unspecified addr.ip
  senders : ∀ conn addr, w.listenUDP = .ok (conn, addr) →
    ∀ d, .ok d ∈ conn.deliveries → Specified d.remote.ip
  mapped : ∀ server, Specified (mapping server).ip
  answers : ∀ conn addr, w.listenUDP = .ok (conn, addr) → ∀ d, .ok d ∈ conn.deliveries →
    ∀ server tid observed, Authentic server tid d observed → observed = mapping server

section
variable {conn conn' : UDPConn} {server addr : UDPAddr} {random : TransID}

end

section
variable {mapping : UDPAddr → UDPAddr} {w : Network}

end

def transID : TransID := ⟨[48, 49, 50, 51, 52, 53, 54, 55, 56, 57, 97, 98], rfl⟩

/-- What the server answers. -/
def response : Datagram where
  payload := [1, 1, 0, 12, 33, 18, 164, 66] ++ transID.val ++
    [0, 32, 0, 8, 0, 1, 37, 192, 225, 18, 166, 72]
  remote := ⟨[203, 0, 113, 5], 3478, ""⟩

def inside : Network where
  resolveUDPAddr _ := .ok ⟨[203, 0, 113, 5], 3478, ""⟩
  listenUDP := .ok ({ deliveries := [.ok response, .ok response] }, ⟨List.replicate 16 0, 40000, ""⟩)
  listenAlt := .ok ⟨List.replicate 16 0, 40001, ""⟩
  random := transID
  random2 := transID

end NetBerth.NATDetection
