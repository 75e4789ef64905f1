import NetBerth.IPNetwork
import NetBerth.Rules

/-!
# The addresses a forward rule listens on and dials

The forward engine writes host and port with a colon between them, and the net package splits
the text at its last colon. An IPv6 host has colons of its own, which the net package takes only
in brackets; the Wake-on-LAN engine of the same program puts them there.
-/
namespace NetBerth.ForwardAddress
open IPAddress Rules

/-! ## Host and port in one text -/

/-- `fmt.Sprintf("%s:%d", host, port)`. -/
def hostColonPort (host : String) (port : Int) : String := host ++ ":" ++ toString port

/-- `net.JoinHostPort`, which `SendMagicPacket` calls. -/
def joinHostPort (host port : String) : String :=
  if ':' ∈ host.toList then "[" ++ host ++ "]:" ++ port else host ++ ":" ++ port

theorem mem_toString {port : Int} {c : Char} (h : c ∈ (toString port).toList) :
    c = '-' ∨ c.isDigit = true := by
  have hrepr : ∀ n : ℕ, ∀ c ∈ n.repr.toList, c.isDigit = true := by
    intro n c hc
    apply Nat.isDigit_of_mem_toDigits (b := 10) (n := n) (by decide) (by decide)
    simpa [Nat.repr] using hc
  cases port with
  | ofNat n => exact .inr (hrepr n c h)
  | negSucc n =>
    have hminus : (toString (Int.negSucc n)).toList = '-' :: (n + 1).repr.toList := by
      show ("-" ++ (n + 1).repr).toList = _
      simp
    rw [hminus, List.mem_cons] at h
    exact h.imp_right (hrepr (n + 1) c)

/-- A port is text without the marks that `net.SplitHostPort` looks for. -/
theorem mark_not_mem_toString (port : Int) :
    ':' ∉ (toString port).toList ∧ ']' ∉ (toString port).toList ∧ '[' ∉ (toString port).toList := by
  refine ⟨?_, ?_, ?_⟩ <;> intro h <;> exact absurd (mem_toString h) (by decide)

theorem toList_hostColonPort (host : String) (port : Int) :
    (hostColonPort host port).toList = host.toList ++ ':' :: (toString port).toList := by
  simp [hostColonPort]

/-- A host comes back when it has no colon and no bracket. -/
theorem splitHostPort_hostColonPort {host : String}
    (h : ∀ c ∈ host.toList, c ≠ ':' ∧ c ≠ '[' ∧ c ≠ ']') (port : Int) :
    splitHostPort (hostColonPort host port) = some (host, toString port) := by
  obtain ⟨hcolon, hclose, hopen⟩ := mark_not_mem_toString port
  have hno : ∀ c, c = ':' ∨ c = '[' ∨ c = ']' → c ∉ host.toList := by
    intro c hc hmem
    have := h c hmem
    tauto
  have hsplit : cutLast ':' (hostColonPort host port).toList =
      some (host.toList, (toString port).toList) := by
    rw [toList_hostColonPort, cutLast_append hcolon]
  have hbefore : ':' ∉ host.toList := hno _ (.inl rfl)
  have hmarks : '[' ∉ (hostColonPort host port).toList ∧ ']' ∉ (hostColonPort host port).toList := by
    rw [toList_hostColonPort]
    constructor
    · simpa [hno '[' (.inr (.inl rfl))] using hopen
    · simpa [hno ']' (.inr (.inr rfl))] using hclose
  rw [splitHostPort, hsplit]
  dsimp only
  split
  · rename_i rest heq
    simp [heq] at hmarks
  · rw [if_neg (by tauto)]
    simp

/-- A colon in a host that is not in brackets is one too many. -/
theorem splitHostPort_of_colon {host : String} (hcolon : ':' ∈ host.toList)
    (hbracket : '[' ∉ host.toList) (port : Int) :
    splitHostPort (hostColonPort host port) = none := by
  have hsplit : cutLast ':' (hostColonPort host port).toList =
      some (host.toList, (toString port).toList) := by
    rw [toList_hostColonPort, cutLast_append (mark_not_mem_toString port).1]
  rw [splitHostPort, hsplit]
  dsimp only
  split
  · rename_i rest heq
    have hhead : '[' ∈ host.toList ∨ host.toList = [] := by
      rw [toList_hostColonPort] at heq
      cases hl : host.toList with
      | nil => exact .inr rfl
      | cons c l =>
        rw [hl, List.cons_append, List.cons.injEq] at heq
        exact .inl (heq.1 ▸ List.mem_cons_self)
    obtain hmem | hnil := hhead
    · contradiction
    · simp [hnil] at hcolon
  · rw [if_pos (.inl hcolon)]

/-! ## Address literals -/

theorem mem_ipv4String {a : BitVec 32} {c : Char} (h : c ∈ (ipv4String a).toList) :
    c = '.' ∨ c.isDigit = true := by
  rw [ipv4String, String.toList_ofList] at h
  obtain h | ⟨l, hl, h⟩ := mem_intercalate h
  · exact .inl h
  · obtain ⟨x, hx, rfl⟩ := List.mem_map.mp hl
    exact .inr (isDigit_of_mem_decimal (lt_of_mem_digits (by decide) hx) h)

theorem mem_ipv6String {x : IP} {c : Char} (h : c ∈ (ipv6String x).toList) :
    isHex c = true ∨ c = ':' := by
  rw [ipv6String, String.toList_ofList] at h
  exact mem_ipv6Text (fun g hg => lt_of_mem_digits (by decide) hg) h

/-- The text of an address has no bracket, and a colon only when it is no IPv4 address. -/
theorem mem_ipString (x : IP) :
    (':' ∈ (ipString x).toList ↔ to4 x = none) ∧
      '[' ∉ (ipString x).toList ∧ ']' ∉ (ipString x).toList := by
  unfold ipString
  cases hx : to4 x with
  | some a =>
    have hno : ∀ c, c ≠ '.' → c.isDigit = false → c ∉ (ipv4String a).toList := by
      intro c hdot hdigit hc
      obtain h | h := mem_ipv4String hc
      · exact hdot h
      · simp [hdigit] at h
    refine ⟨?_, hno _ (by decide) (by decide), hno _ (by decide) (by decide)⟩
    simpa using hno ':' (by decide) (by decide)
  | none =>
    have hno : ∀ c, isHex c = false → c ≠ ':' → c ∉ (ipv6String x).toList := by
      intro c hhex hcolon hc
      obtain h | h := mem_ipv6String hc
      · simp [hhex] at h
      · exact hcolon h
    have hcolon : ':' ∈ (ipv6String x).toList := by
      rw [ipv6String, String.toList_ofList]
      exact colon_mem_ipv6Text (length_digits _ _ _)
    exact ⟨by simpa using hcolon, hno _ (by decide) (by decide), hno _ (by decide) (by decide)⟩

theorem splitHostPort_ipString (x : IP) (port : Int) :
    splitHostPort (hostColonPort (ipString x) port) = some (ipString x, toString port) ↔
      (to4 x).isSome = true := by
  obtain ⟨hcolon, hopen, hclose⟩ := mem_ipString x
  cases hx : to4 x with
  | none =>
    rw [splitHostPort_of_colon (hcolon.mpr hx) hopen]
    simp
  | some a =>
    have hmarks : ∀ c ∈ (ipString x).toList, c ≠ ':' ∧ c ≠ '[' ∧ c ≠ ']' := by
      intro c hc
      refine ⟨?_, ?_, ?_⟩ <;> rintro rfl
      · rw [hcolon.mp hc] at hx
        contradiction
      · exact hopen hc
      · exact hclose hc
    simp [splitHostPort_hostColonPort hmarks]

/-- With brackets around the colons every address comes back. -/
theorem splitHostPort_joinHostPort (x : IP) (port : Int) :
    splitHostPort (joinHostPort (ipString x) (toString port)) =
      some (ipString x, toString port) := by
  obtain ⟨hcolon, hopen, hclose⟩ := mem_ipString x
  obtain ⟨pcolon, pclose, popen⟩ := mark_not_mem_toString port
  cases hx : to4 x with
  | some a =>
    have hplain : ':' ∉ (ipString x).toList := by simp [hcolon, hx]
    rw [joinHostPort, if_neg hplain]
    exact (splitHostPort_ipString x port).mpr (by simp [hx])
  | none =>
    have htext : (joinHostPort (ipString x) (toString port)).toList =
        ('[' :: (ipString x).toList ++ [']']) ++ ':' :: (toString port).toList := by
      simp [joinHostPort, hcolon.mpr hx]
    have hhost : ((ipString x).toList ++ ']' :: ':' :: (toString port).toList).takeWhile (· ≠ ']') =
        (ipString x).toList := by
      rw [List.takeWhile_append_of_pos]
      · simp
      · intro c hc
        simpa using fun h : c = ']' => hclose (h ▸ hc)
    rw [splitHostPort, htext, cutLast_append pcolon]
    simp only [List.cons_append, List.append_assoc, List.nil_append, hhost, true_and]
    rw [if_pos ⟨by simpa [hopen] using popen, pclose⟩]
    simp

/-! ## The addresses of a rule -/

/-- The address that `listen` gives to `Listen` or, for a UDP network, to `ListenPacket`. -/
def listen (rule : ForwardRule) : String := hostColonPort rule.listenAddr rule.listenPort

/-- The target that `handleTCP` dials. -/
def handleTCP (rule : ForwardRule) : String := hostColonPort rule.targetAddr rule.targetPort

/-- The target that `startRule` resolves for datagrams. -/
def startRule (rule : ForwardRule) : String := hostColonPort rule.targetAddr rule.targetPort

/-- The rule listens on and forwards to the endpoints that it names. -/
def Survives (rule : ForwardRule) : Prop :=
  splitHostPort (listen rule) = some (rule.listenAddr, toString rule.listenPort) ∧
  splitHostPort (handleTCP rule) = some (rule.targetAddr, toString rule.targetPort) ∧
  splitHostPort (startRule rule) = some (rule.targetAddr, toString rule.targetPort)

instance (rule : ForwardRule) : Decidable (Survives rule) := inferInstanceAs (Decidable (_ ∧ _ ∧ _))

/-- The endpoints survive exactly when both addresses are IPv4 addresses. -/
theorem survives_iff {rule : ForwardRule} {l t : IP} (hl : rule.listenAddr = ipString l)
    (ht : rule.targetAddr = ipString t) :
    Survives rule ↔ (to4 l).isSome = true ∧ (to4 t).isSome = true := by
  unfold Survives listen handleTCP startRule
  rw [hl, ht, splitHostPort_ipString, splitHostPort_ipString, and_self]

/-- A rule between two endpoints. -/
def between (l t : IP) : ForwardRule :=
  ⟨⟨"r", "t", "o", "web", "both", ipString l, 8080, ipString t, 80, true, 0, true, "", ""⟩, ⟨[], []⟩⟩

theorem survives_between : Survives (between (mapped 0) (mapped 0x0a000002)) :=
  (survives_iff (l := mapped 0) (t := mapped 0x0a000002) rfl rfl).mpr ⟨by decide, by decide⟩

/-- The IPv6 loopback address with port 8080 is no address to listen on. -/
theorem loopback6_split_nowhere :
    (between 1 (mapped 0x0a000002)).listenAddr = "::1" ∧
      listen (between 1 (mapped 0x0a000002)) = "::1:8080" ∧
      splitHostPort "::1:8080" = none ∧ ¬Survives (between 1 (mapped 0x0a000002)) := by
  decide +kernel

end NetBerth.ForwardAddress
