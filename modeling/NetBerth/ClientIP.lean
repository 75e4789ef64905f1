import NetBerth.Accounts
import NetBerth.HTTPRequest
import NetBerth.IPNetwork

/-!
# The address of the client behind trusted proxies

The resolver believes the headers of a request only if its peer is a trusted
proxy. It takes the first of `True-Client-IP` and `X-Real-IP` that holds an
address, and then goes through the first line of `X-Forwarded-For` from the
right to an address that is not trusted.

What stands before such an address never matters. But a proxy that appends the
client's address only vouches for the end of the last line.
-/
namespace NetBerth.ClientIP
open IPAddress HTTPRequest
open Accounts (isSpace trimSpace)

structure Resolver where
  trusted : List IPNet
  deriving DecidableEq, Repr

inductive ResolverError where
  | invalidCIDR (s : String)
  | invalidIP (s : String)
  deriving DecidableEq, Repr

/-- One round of the loop over the configured entries. -/
def addTrusted (r : Resolver) (entry : String) : Except ResolverError Resolver :=
  let s := trimSpace entry
  if s = "" then .ok r
  else if '/' ∈ s.toList then
    match parseCIDR s with
    | none => .error (.invalidCIDR s)
    | some ipNet => .ok ⟨r.trusted ++ [ipNet]⟩
  else
    match parseIP s with
    | none => .error (.invalidIP s)
    | some ip =>
      let bits := if to4 ip = none then 128 else 32
      .ok ⟨r.trusted ++ [⟨ip, bits, bits⟩]⟩

def newClientIPResolver (trusted : List String) : Except ResolverError Resolver :=
  trusted.foldlM addTrusted ⟨[]⟩

def isTrusted (r : Resolver) (ip : String) : Bool :=
  match parseIP ip with
  | none => false
  | some parsed => r.trusted.any (·.contains parsed)

def hostOnly (remoteAddr : String) : String :=
  match splitHostPort remoteAddr with
  | none => trimSpace remoteAddr
  | some (host, _) => host

def firstValidIP (v : String) : String :=
  match parseIP (trimSpace v) with
  | none => ""
  | some ip => ipString ip

/-- An element of the chain that is an address and not trusted. -/
def untrustedElement (r : Resolver) (part : String) : Option String :=
  (parseIP (trimSpace part)).bind fun ip =>
    if !isTrusted r (ipString ip) then some (ipString ip) else none

/-- From the right to the first untrusted address; if there is none, from the
left to the first address. -/
def clientFromXFF (r : Resolver) (xff : String) : String :=
  let parts := split ',' xff
  match parts.reverse.findSome? (untrustedElement r) with
  | some ip => ip
  | none =>
    match parts.findSome? fun p => (parseIP (trimSpace p)).map ipString with
    | some ip => ip
    | none => ""

def clientIP (r : Resolver) (req : Request) : String :=
  let peer := hostOnly req.remoteAddr
  if peer = "" then "unknown"
  else if !isTrusted r peer then peer
  else if firstValidIP (req.get "True-Client-IP") ≠ "" then firstValidIP (req.get "True-Client-IP")
  else if firstValidIP (req.get "X-Real-IP") ≠ "" then firstValidIP (req.get "X-Real-IP")
  else if clientFromXFF r (req.get "X-Forwarded-For") ≠ "" then
    clientFromXFF r (req.get "X-Forwarded-For")
  else peer

/-! ## Who is trusted -/

/-- A configured entry denotes the address. -/
def Trusts (trusted : List String) (ip : IP) : Prop :=
  ∃ v ∈ trusted, netContains (trimSpace v) ip = true

instance (trusted : List String) (ip : IP) : Decidable (Trusts trusted ip) :=
  inferInstanceAs (Decidable (∃ v ∈ trusted, _))

/-- A single address is a network of its own. -/
theorem contains_single {ip x : IP} {bits : ℕ} (hbits : bits = if to4 ip = none then 128 else 32) :
    (⟨ip, bits, bits⟩ : IPNet).contains x = true ↔ ip = x := by
  subst hbits
  cases hip : to4 ip with
  | some a =>
    obtain rfl := to4_eq_some hip
    cases hx : to4 x with
    | some b =>
      obtain rfl := to4_eq_some hx
      have hinj : mapped a = mapped b ↔ a = b := by
        refine ⟨fun h => ?_, congrArg mapped⟩
        simpa using congrArg to4 h
      simp [IPNet.contains, hinj, agree_of_le]
    | none =>
      have hne : mapped a ≠ x := by
        rintro rfl
        simp at hx
      simp [IPNet.contains, hx, hne]
  | none =>
    cases hx : to4 x with
    | some b =>
      have hne : ip ≠ x := by
        rintro rfl
        rw [hip] at hx
        cases hx
      simp [IPNet.contains, hip, hx, hne]
    | none => simp [IPNet.contains, hip, hx, agree_of_le]

theorem parseIP_empty : parseIP "" = none := by decide

theorem addTrusted_spec {r r' : Resolver} {entry : String} (h : addTrusted r entry = .ok r')
    (x : IP) : r'.trusted.any (·.contains x) = true ↔
      r.trusted.any (·.contains x) = true ∨ netContains (trimSpace entry) x = true := by
  unfold addTrusted at h
  generalize trimSpace entry = s at h ⊢
  dsimp only at h
  split_ifs at h with hempty hslash
  · have hnothing : netContains "" x = false := by
      have hparse : parseCIDR "" = none := by decide
      simp [netContains, hparse, parseIP_empty]
    cases h
    simp [hempty, hnothing]
  · split at h
    · cases h
    · rename_i ipNet hcidr
      cases h
      simp [netContains, hcidr]
  · split at h
    · cases h
    · rename_i ip hip
      have hcidr : parseCIDR s = none := by simp [parseCIDR, cut_eq_none hslash]
      cases h
      simp [netContains, hcidr, hip, contains_single rfl]

theorem foldlM_addTrusted {trusted : List String} {r r' : Resolver}
    (h : trusted.foldlM addTrusted r = .ok r') (x : IP) :
    r'.trusted.any (·.contains x) = true ↔
      r.trusted.any (·.contains x) = true ∨ Trusts trusted x := by
  induction trusted generalizing r with
  | nil =>
    cases h
    simp [Trusts]
  | cons entry entries ih =>
    rw [List.foldlM_cons] at h
    cases hadd : addTrusted r entry with
    | error e => simp [hadd, bind, Except.bind] at h
    | ok r₁ =>
      rw [hadd] at h
      rw [ih h, addTrusted_spec hadd, Trusts, Trusts, List.exists_mem_cons_iff, or_assoc]

/-- The networks of the resolver are the entries it was made from. -/
theorem isTrusted_iff {trusted : List String} {r : Resolver}
    (h : newClientIPResolver trusted = .ok r) {s : String} {ip : IP} (hs : parseIP s = some ip) :
    isTrusted r s = true ↔ Trusts trusted ip := by
  rw [isTrusted, hs]
  simpa using foldlM_addTrusted h ip

/-! ## Whose headers count -/

/-- The peer of a request is an address that is trusted. -/
def PeerTrusted (trusted : List String) (req : Request) : Prop :=
  ∃ ip, parseIP (hostOnly req.remoteAddr) = some ip ∧ Trusts trusted ip

/-- An element of a chain is an address that is not trusted. -/
def Untrusted (trusted : List String) (part : String) (ip : IP) : Prop :=
  parseIP (trimSpace part) = some ip ∧ ¬Trusts trusted ip

section
variable {trusted : List String} {r : Resolver}

theorem isTrusted_peer_iff (h : newClientIPResolver trusted = .ok r) (req : Request) :
    isTrusted r (hostOnly req.remoteAddr) = true ↔ PeerTrusted trusted req := by
  unfold PeerTrusted
  cases hip : parseIP (hostOnly req.remoteAddr) with
  | none => simp [isTrusted, hip]
  | some ip => simp [isTrusted_iff h hip]

theorem untrustedElement_eq_some (h : newClientIPResolver trusted = .ok r) {part ip : String} :
    untrustedElement r part = some ip ↔ ∃ x, Untrusted trusted part x ∧ ipString x = ip := by
  have htrusts : ∀ x, isTrusted r (ipString x) = true ↔ Trusts trusted x :=
    fun x => isTrusted_iff h (parseIP_ipString x)
  cases hx : parseIP (trimSpace part) with
  | none => simp [untrustedElement, Untrusted, hx]
  | some x =>
    by_cases ht : Trusts trusted x
    · simp [untrustedElement, Untrusted, hx, (htrusts x).mpr ht, ht]
    · have hf : isTrusted r (ipString x) = false := Bool.eq_false_iff.mpr (mt (htrusts x).mp ht)
      simp [untrustedElement, Untrusted, hx, hf, ht]

/-- The address is the last in a chain that is not trusted. -/
def LastUntrusted (trusted : List String) (xff : String) (ip : IP) : Prop :=
  ∃ before part after, split ',' xff = before ++ part :: after ∧ Untrusted trusted part ip ∧
    ∀ p ∈ after, ∀ x, ¬Untrusted trusted p x

/-- The walk from the right ends there. -/
theorem clientFromXFF_of_last (h : newClientIPResolver trusted = .ok r) {xff : String} {ip : IP}
    (hlast : LastUntrusted trusted xff ip) : clientFromXFF r xff = ipString ip := by
  obtain ⟨before, part, after, hsplit, hpart, hafter⟩ := hlast
  have hnone : after.reverse.findSome? (untrustedElement r) = none := by
    rw [List.findSome?_eq_none_iff]
    intro p hp
    by_contra hsome
    obtain ⟨s, hs⟩ := Option.ne_none_iff_exists'.mp hsome
    obtain ⟨x, hx, -⟩ := (untrustedElement_eq_some h).mp hs
    exact hafter p (by simpa using hp) x hx
  have hfound : untrustedElement r part = some (ipString ip) :=
    (untrustedElement_eq_some h).mpr ⟨ip, hpart, rfl⟩
  simp [clientFromXFF, hsplit, List.findSome?_append, hnone, hfound]

/-- In a chain with an untrusted address there is a last one. -/
theorem exists_last {xff : String} (h : ∃ p ∈ split ',' xff, ∃ x, Untrusted trusted p x) :
    ∃ ip, LastUntrusted trusted xff ip := by
  unfold LastUntrusted
  generalize split ',' xff = parts at h ⊢
  induction parts with
  | nil => simp at h
  | cons p ps ih =>
    by_cases hps : ∃ q ∈ ps, ∃ x, Untrusted trusted q x
    · obtain ⟨ip, before, part, after, rfl, hpart, hafter⟩ := ih hps
      exact ⟨ip, p :: before, part, after, rfl, hpart, hafter⟩
    · push Not at hps
      obtain ⟨q, hq, x, hx⟩ := h
      obtain rfl | hq := List.mem_cons.mp hq
      · exact ⟨x, [], q, ps, rfl, hx, hps⟩
      · exact absurd hx (hps q hq x)

theorem LastUntrusted.append {s : String} {ip : IP} (h : LastUntrusted trusted s ip) (p : String) :
    LastUntrusted trusted (p ++ "," ++ s) ip := by
  obtain ⟨before, part, after, hsplit, hlast⟩ := h
  refine ⟨split ',' p ++ before, part, after, ?_, hlast⟩
  rw [split_comma_append, hsplit, List.append_assoc]

/-- For every accepted list of trusted proxies: the headers of a request from any
other peer make no difference, and what stands in a chain before an untrusted
address makes none either. -/
theorem clientIP_noninterference (h : newClientIPResolver trusted = .ok r) :
    (∀ req req' : Request, req.remoteAddr = req'.remoteAddr → ¬PeerTrusted trusted req →
      clientIP r req = clientIP r req') ∧
    ∀ p s : String, (∃ part ∈ split ',' s, ∃ ip, Untrusted trusted part ip) →
      clientFromXFF r (p ++ "," ++ s) = clientFromXFF r s := by
  constructor
  · intro req req' haddr hpeer
    have hf : isTrusted r (hostOnly req.remoteAddr) = false :=
      Bool.eq_false_iff.mpr (mt (isTrusted_peer_iff h req).mp hpeer)
    simp [clientIP, ← haddr, hf]
  · intro p s hs
    obtain ⟨ip, hlast⟩ := exists_last hs
    rw [clientFromXFF_of_last h hlast, clientFromXFF_of_last h (hlast.append p)]

end

/-- The networks of one trusted range. -/
def internal : Resolver := ⟨[⟨mapped 0x0a000000, 8, 32⟩]⟩

theorem newClientIPResolver_internal : newClientIPResolver ["10.0.0.0/8"] = .ok internal := by rfl

/-- A claim in front of the client's address makes no difference. -/
theorem chain_prefix_ignored :
    clientFromXFF internal ("1.2.3.4" ++ "," ++ "203.0.113.9, 10.0.0.1") =
      clientFromXFF internal "203.0.113.9, 10.0.0.1" := by
  apply (clientIP_noninterference newClientIPResolver_internal).2
  exact ⟨"203.0.113.9", by decide, mapped 0xcb007109, by decide +kernel, by decide +kernel⟩

section
variable {trusted : List String} {r : Resolver}

/-! ## What a proxy vouches for -/

inductive AppendStyle where
  | element
  | line
  deriving DecidableEq, Repr

/-- What the server gets of a client's request from a proxy that adds the
client's address to the chain and passes on all else. -/
def viaProxy (style : AppendStyle) (proxyAddr : String) (client : IP) (req : Request) : Request where
  host := req.host
  remoteAddr := proxyAddr
  header key :=
    if key = "X-Forwarded-For" then
      match style with
      | .element => [", ".intercalate (req.header key ++ [ipString client])]
      | .line => req.header key ++ [ipString client]
    else req.header key

/-- The address a header claims. -/
def claimed (req : Request) (key : String) : Option IP := parseIP (trimSpace (req.get key))

theorem ipString_ne_empty (x : IP) : ipString x ≠ "" := by
  intro he
  have hempty := parseIP_empty
  rw [← he, parseIP_ipString] at hempty
  cases hempty

/-- Only an untrusted address that is the last is taken for an untrusted client. -/
theorem clientFromXFF_eq_iff (h : newClientIPResolver trusted = .ok r) {xff : String} {client : IP}
    (hclient : ¬Trusts trusted client) :
    clientFromXFF r xff = ipString client ↔ LastUntrusted trusted xff client := by
  refine ⟨fun heq => ?_, clientFromXFF_of_last h⟩
  by_cases hsome : ∃ p ∈ split ',' xff, ∃ x, Untrusted trusted p x
  · obtain ⟨ip, hlast⟩ := exists_last hsome
    rw [clientFromXFF_of_last h hlast] at heq
    exact ipString_injective heq ▸ hlast
  · unfold clientFromXFF at heq
    dsimp only at heq
    split at heq
    · rename_i ip hfind
      obtain ⟨part, hpart, hfound⟩ := List.exists_of_findSome?_eq_some hfind
      obtain ⟨x, hx, -⟩ := (untrustedElement_eq_some h).mp hfound
      exact absurd ⟨part, by simpa using hpart, x, hx⟩ hsome
    · split at heq
      · rename_i ip hfind
        obtain ⟨part, hpart, hfound⟩ := List.exists_of_findSome?_eq_some hfind
        obtain ⟨x, hx, rfl⟩ := Option.map_eq_some_iff.mp hfound
        obtain rfl := ipString_injective heq
        exact absurd ⟨part, hpart, x, hx, hclient⟩ hsome
      · exact absurd heq.symm (ipString_ne_empty client)

theorem dropWhile_isSpace {cs : List Char} (h : ∀ c ∈ cs, isSpace c = false) :
    cs.dropWhile isSpace = cs := by
  cases cs with
  | nil => rfl
  | cons c cs => simp [h c]

theorem chars_ipString (x : IP) : ∀ c ∈ (ipString x).toList, isSpace c = false ∧ c ≠ ',' := by
  have hparse := parseAddr_ipString x
  intro c hc
  have hrange := toNat_of_isAddrChar
    (parseAddr_chars hparse (not_mem_of_zone hparse (Addr.zone_ofIP x)).1 c hc)
  constructor
  · simp [isSpace]
    omega
  · rintro rfl
    simp at hrange

/-- An address that is appended is read back, after a space too. -/
theorem untrusted_appended {client : IP} (hclient : ¬Trusts trusted client) :
    LastUntrusted trusted (ipString client) client ∧
      LastUntrusted trusted (" " ++ ipString client) client := by
  have hspace : ∀ c ∈ (ipString client).toList, isSpace c = false :=
    fun c hc => (chars_ipString client c hc).1
  have hcomma : ',' ∉ (ipString client).toList := fun hc => (chars_ipString client _ hc).2 rfl
  have hrev : ((ipString client).toList.reverse.dropWhile isSpace).reverse =
      (ipString client).toList := by
    rw [dropWhile_isSpace fun c hc => hspace c (by simpa using hc), List.reverse_reverse]
  have hplain : trimSpace (ipString client) = ipString client := by
    rw [trimSpace, dropWhile_isSpace hspace, hrev, String.ofList_toList]
  have hpadded : trimSpace (" " ++ ipString client) = ipString client := by
    have hdrop : (" " ++ ipString client).toList.dropWhile isSpace = (ipString client).toList := by
      rw [String.toList_append, show " ".toList = [' '] from rfl, List.singleton_append,
        List.dropWhile_cons_of_pos (by decide), dropWhile_isSpace hspace]
    rw [trimSpace, hdrop, hrev, String.ofList_toList]
  refine ⟨⟨[], _, [], ?_, ⟨by rw [hplain, parseIP_ipString], hclient⟩, by simp⟩,
    [], _, [], ?_, ⟨by rw [hpadded, parseIP_ipString], hclient⟩, by simp⟩
  · simp [split, List.splitOn_eq_singleton hcomma]
  · simp [split, List.splitOn_eq_singleton (show ',' ∉ ' ' :: (ipString client).toList by simpa using hcomma)]

theorem last_element {client : IP} (hclient : ¬Trusts trusted client) (lines : List String) :
    LastUntrusted trusted (", ".intercalate (lines ++ [ipString client])) client := by
  by_cases hlines : lines = []
  · rw [hlines, List.nil_append, String.intercalate_singleton]
    exact (untrusted_appended hclient).1
  · rw [String.intercalate_append_of_ne_nil hlines (by simp), String.intercalate_singleton]
    have happ := (untrusted_appended hclient).2.append (", ".intercalate lines)
    rw [show ", ".intercalate lines ++ ", " = ", ".intercalate lines ++ ("," ++ " ") from rfl]
    simpa only [String.append_assoc] using happ

theorem firstValidIP_eq {v : String} {x : IP} (h : parseIP (trimSpace v) = some x) :
    firstValidIP v = ipString x := by
  rw [firstValidIP, h]

theorem firstValidIP_eq_empty {v : String} (h : parseIP (trimSpace v) = none) :
    firstValidIP v = "" := by
  rw [firstValidIP, h]

/-- What the proxy makes of the chain ends in the client's address, unless the
server reads a line that the client sent. -/
theorem last_viaProxy_iff {client : IP} (hclient : ¬Trusts trusted client) (style : AppendStyle)
    (proxyAddr : String) (req : Request) :
    LastUntrusted trusted ((viaProxy style proxyAddr client req).get "X-Forwarded-For") client ↔
      (style = .line →
        ∀ line ∈ (req.header "X-Forwarded-For").head?, LastUntrusted trusted line client) := by
  cases style with
  | element => simp [Request.get, viaProxy, last_element hclient]
  | line =>
    cases hlines : req.header "X-Forwarded-For" with
    | nil => simp [Request.get, viaProxy, hlines, (untrusted_appended hclient).1]
    | cons line lines => simp [Request.get, viaProxy, hlines]

/-- For every accepted list of trusted proxies, every request a client sends
through one of them, and both ways to append: the result is the client's address
exactly when the client claims no other address in `True-Client-IP`, none in
`X-Real-IP` if the first holds no address, and, if neither does and the proxy
appends a line, its own first line ends in its address. -/
theorem clientIP_viaProxy_iff (h : newClientIPResolver trusted = .ok r) (style : AppendStyle)
    (proxyAddr : String) (client : IP) (req : Request)
    (hproxy : PeerTrusted trusted (viaProxy style proxyAddr client req))
    (hclient : ¬Trusts trusted client) :
    clientIP r (viaProxy style proxyAddr client req) = ipString client ↔
      (∀ ip ∈ claimed req "True-Client-IP", ip = client) ∧
      (claimed req "True-Client-IP" = none →
        (∀ ip ∈ claimed req "X-Real-IP", ip = client) ∧
        (claimed req "X-Real-IP" = none → style = .line →
          ∀ line ∈ (req.header "X-Forwarded-For").head?, LastUntrusted trusted line client)) := by
  obtain ⟨peer, hpeer, htrusts⟩ := hproxy
  have hsame : ∀ key, key ≠ "X-Forwarded-For" →
      (viaProxy style proxyAddr client req).get key = req.get key := by
    intro key hkey
    simp [Request.get, viaProxy, hkey]
  have htci := hsame "True-Client-IP" (by decide)
  have hxri := hsame "X-Real-IP" (by decide)
  rw [← last_viaProxy_iff hclient style proxyAddr]
  generalize viaProxy style proxyAddr client req = req' at hpeer htci hxri ⊢
  have htrusted : isTrusted r (hostOnly req'.remoteAddr) = true := (isTrusted_iff h hpeer).mpr htrusts
  have hempty : hostOnly req'.remoteAddr ≠ "" := by
    intro he
    rw [he, parseIP_empty] at hpeer
    cases hpeer
  have hother : hostOnly req'.remoteAddr ≠ ipString client := by
    intro he
    rw [he, parseIP_ipString, Option.some.injEq] at hpeer
    exact hclient (hpeer ▸ htrusts)
  simp only [clientIP, htci, hxri, if_neg hempty, htrusted, Bool.not_true, Bool.false_eq_true,
    if_false]
  cases hclaim : claimed req "True-Client-IP" with
  | some x =>
    rw [firstValidIP_eq hclaim, if_pos (ipString_ne_empty x)]
    simp [ipString_injective.eq_iff]
  | none =>
    rw [firstValidIP_eq_empty hclaim, if_neg (by simp)]
    cases hreal : claimed req "X-Real-IP" with
    | some x =>
      rw [firstValidIP_eq hreal, if_pos (ipString_ne_empty x)]
      simp [ipString_injective.eq_iff]
    | none =>
      rw [firstValidIP_eq_empty hreal, if_neg (by simp), ← clientFromXFF_eq_iff h hclient]
      by_cases hxff : clientFromXFF r (req'.get "X-Forwarded-For") = ""
      · simp [hxff, hother, (ipString_ne_empty client).symm]
      · simp [hxff]

end

/-- A request with these headers, one line each. -/
def requestWith (headers : List (String × String)) : Request :=
  ⟨"app.example", "203.0.113.9:5000", fun key => (headers.filter (·.1 = key)).map Prod.snd⟩

/-- A client that claims nothing but a chain in front of an element. -/
theorem appended_client_found :
    clientIP internal (viaProxy .element "10.0.0.1:443" (mapped 0xcb007109)
      (requestWith [("X-Forwarded-For", "1.2.3.4")])) = ipString (mapped 0xcb007109) := by
  have hproxy : PeerTrusted ["10.0.0.0/8"] (viaProxy .element "10.0.0.1:443" (mapped 0xcb007109)
      (requestWith [("X-Forwarded-For", "1.2.3.4")])) :=
    ⟨mapped 0x0a000001, by decide, by decide +kernel⟩
  have hclaims : claimed (requestWith [("X-Forwarded-For", "1.2.3.4")]) "True-Client-IP" = none ∧
      claimed (requestWith [("X-Forwarded-For", "1.2.3.4")]) "X-Real-IP" = none := by decide
  apply (clientIP_viaProxy_iff newClientIPResolver_internal .element "10.0.0.1:443" _ _ hproxy
    (by decide)).mpr
  simp [hclaims]

/-- A header of its own, or a line before the proxy's, is taken for the client's. -/
theorem claims_believed :
    (newClientIPResolver ["10.0.0.0/8"] = .ok internal ∧
      isTrusted internal (hostOnly "10.0.0.1:443") = true ∧
      ¬Trusts ["10.0.0.0/8"] (mapped 0xcb007109)) ∧
    clientIP internal (viaProxy .element "10.0.0.1:443" (mapped 0xcb007109)
        (requestWith [("True-Client-IP", "1.2.3.4")])) = "1.2.3.4" ∧
      clientIP internal (viaProxy .line "10.0.0.1:443" (mapped 0xcb007109)
        (requestWith [("X-Forwarded-For", "1.2.3.4")])) = "1.2.3.4" ∧
      ipString (mapped 0xcb007109) ≠ "1.2.3.4" :=
  ⟨⟨by rfl, by decide, by decide +kernel⟩, by decide +kernel⟩

end NetBerth.ClientIP
