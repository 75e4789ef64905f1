import NetBerth.ACLMatcher
import NetBerth.Accounts
import NetBerth.HTTPRequest
import NetBerth.ProxyRoutes

/-!
# Requests to the reverse proxy

A request goes to the entry of its host, or to one with a wildcard for it, and
the handler built for the rule answers or hands it to the upstream. The handler
of a websocket rule checks nothing; the other one compares the client's address
with the entries of the IP lists as strings, and then the credentials. The
client's address is what the request says it is.
-/
namespace NetBerth.ProxyHandler
open SqlTable Rules RuleLoading IPAddress ACLMatcher HTTPRequest ProxyRoutes
open Accounts (trimSpace)

/-- What `net/url` and `net/http` make of a target and of an `Authorization` header. -/
structure NetHTTP where
  parseURL : String → Bool
  parseBasicAuth : String → Option (String × String)

def basicAuth (H : NetHTTP) (r : Request) : Option (String × String) :=
  if r.get "Authorization" = "" then none else H.parseBasicAuth (r.get "Authorization")

inductive Response where
  | error (message : String) (status : ℕ) (headers : List (String × String))
  | forwarded (target : String)
  deriving DecidableEq, Repr

def clientIP (r : Request) : String :=
  if r.get "X-Forwarded-For" ≠ "" then trimSpace ((split ',' (r.get "X-Forwarded-For")).headD "")
  else if r.get "X-Real-IP" ≠ "" then r.get "X-Real-IP"
  else
    match splitHostPort r.remoteAddr with
    | none => r.remoteAddr
    | some (host, _) => host

inductive Handler where
  | invalidUpstream
  | wsProxy (target : String)
  | aclHandler (target : String) (ipWhitelist ipBlacklist : List String)
      (basicUser basicPass : String)
  deriving DecidableEq, Repr

def buildHandler (H : NetHTTP) (rule : ProxyRule) : Handler :=
  if !H.parseURL rule.targetURL then .invalidUpstream
  else if rule.websocket then .wsProxy rule.targetURL
  else .aclHandler rule.targetURL (rule.ipWhitelist.map ACLEntry.value)
    (rule.ipBlacklist.map ACLEntry.value) rule.basicAuthUser rule.basicAuthHash

/-- The two loops over the IP lists, with the same answer. -/
def ipAllowed (ipWhitelist ipBlacklist : List String) (ip : String) : Bool :=
  !ipBlacklist.contains ip && (ipWhitelist.isEmpty || ipWhitelist.contains ip)

def Handler.serveHTTP (H : NetHTTP) : Handler → Request → Response
  | .invalidUpstream, _ => .error "Invalid upstream URL" 500 []
  | .wsProxy target, _ => .forwarded target
  | .aclHandler target ipWhitelist ipBlacklist basicUser basicPass, r =>
    if !ipAllowed ipWhitelist ipBlacklist (clientIP r) then .error "Forbidden" 403 []
    else if basicUser ≠ "" ∧ basicAuth H r ≠ some (basicUser, basicPass) then
      .error "Unauthorized" 401 [("WWW-Authenticate", "Basic realm=\"NetBerth\"")]
    else .forwarded target

/-- A domain such as `*.example.com` is for every host with this ending. -/
def isWildcardFor (host : String) (e : Route) : Bool :=
  ['*', '.'].isPrefixOf e.domain.toList && (e.domain.toList.drop 1).isSuffixOf host.toList

/-- The entry for a host; among the wildcards the choice is the one met first. -/
def findRoute (routes : Table Route) (choice : ℕ) (host : String) : Option Route :=
  (routes.select host).orElse fun _ =>
    let wildcards := routes.selectWhere (isWildcardFor host)
    wildcards[choice % wildcards.length]?

/-- `r.Host` up to the first colon. -/
def hostOf (r : Request) : String := (split ':' r.host).headD ""

def serveHTTP (H : NetHTTP) (routes : Table Route) (choice : ℕ) (r : Request) : Response :=
  match findRoute routes choice (hostOf r) with
  | none => .error "502 Bad Gateway — no upstream configured for this host" 502 []
  | some e => (buildHandler H e.rule).serveHTTP H r

/-! ## What a rule permits -/

def IPPasses (rule : ProxyRule) (ip : String) : Prop :=
  ipAllowed (rule.ipWhitelist.map ACLEntry.value) (rule.ipBlacklist.map ACLEntry.value) ip = true

/-- The lists of the rule, for any way to compare an entry with the header. -/
def UAPasses (uaMatches : String → String → Bool) (rule : ProxyRule) (ua : String) : Prop :=
  (∀ v ∈ rule.uaBlacklist, uaMatches v ua = false) ∧
    (rule.uaWhitelist = [] ∨ ∃ v ∈ rule.uaWhitelist, uaMatches v ua = true)

def Credentialed (H : NetHTTP) (rule : ProxyRule) (r : Request) : Prop :=
  rule.basicAuthUser ≠ "" → basicAuth H r = some (rule.basicAuthUser, rule.basicAuthHash)

def Permits (H : NetHTTP) (uaMatches : String → String → Bool) (rule : ProxyRule) (r : Request) :
    Prop :=
  IPPasses rule (clientIP r) ∧ UAPasses uaMatches rule (r.get "User-Agent") ∧ Credentialed H rule r

/-- All that the handler of a rule can answer, and when. -/
theorem handler_cases (H : NetHTTP) (rule : ProxyRule) (r : Request) :
    let response := (buildHandler H rule).serveHTTP H r
    H.parseURL rule.targetURL = false ∧ response = .error "Invalid upstream URL" 500 [] ∨
      H.parseURL rule.targetURL = true ∧
        (rule.websocket = true ∧ response = .forwarded rule.targetURL ∨
          rule.websocket = false ∧
            (¬IPPasses rule (clientIP r) ∧ response = .error "Forbidden" 403 [] ∨
              IPPasses rule (clientIP r) ∧
                (¬Credentialed H rule r ∧ response = .error "Unauthorized" 401
                    [("WWW-Authenticate", "Basic realm=\"NetBerth\"")] ∨
                  Credentialed H rule r ∧ response = .forwarded rule.targetURL))) := by
  unfold buildHandler
  split_ifs with hurl hws
  · exact .inl ⟨by simpa using hurl, rfl⟩
  · exact .inr ⟨by simpa using hurl, .inl ⟨hws, rfl⟩⟩
  · refine .inr ⟨by simpa using hurl, .inr ⟨by simpa using hws, ?_⟩⟩
    simp only [Handler.serveHTTP, IPPasses, Credentialed]
    split_ifs with hip hauth
    · exact .inl ⟨by simpa using hip, rfl⟩
    · exact .inr ⟨by simpa using hip, .inl ⟨fun h => hauth.2 (h hauth.1), rfl⟩⟩
    · refine .inr ⟨by simpa using hip, .inr ⟨fun huser => ?_, rfl⟩⟩
      by_contra hother
      exact hauth ⟨huser, hother⟩

/-- A handler hands over what its own checks let through. -/
theorem forwarded_iff (H : NetHTTP) (rule : ProxyRule) (r : Request) :
    (buildHandler H rule).serveHTTP H r = .forwarded rule.targetURL ↔
      H.parseURL rule.targetURL = true ∧
        (rule.websocket = true ∨ IPPasses rule (clientIP r) ∧ Credentialed H rule r) := by
  rcases handler_cases H rule r with ⟨hurl, h⟩ | ⟨hurl, ⟨hws, h⟩ | ⟨hws, ⟨hip, h⟩ |
    ⟨hip, ⟨hauth, h⟩ | ⟨hauth, h⟩⟩⟩⟩ <;> rw [h] <;> simp [*]

/-- For every rule and request, and whatever else the table holds: what reaches
the upstream is permitted, exactly when the target is no URL, or the rule is a
websocket rule and the request permitted, or it is not and the header passes the
`User-Agent` lists or the address or the credentials are refused. -/
theorem forwarded_permitted_iff (H : NetHTTP) (uaMatches : String → String → Bool)
    (routes : Table Route) (choice : ℕ) (r : Request) :
    (∀ e ∈ findRoute routes choice (hostOf r),
      serveHTTP H routes choice r = .forwarded e.rule.targetURL → Permits H uaMatches e.rule r) ↔
    ∀ e ∈ findRoute routes choice (hostOf r),
      H.parseURL e.rule.targetURL = false ∨
      if e.rule.websocket then Permits H uaMatches e.rule r
      else UAPasses uaMatches e.rule (r.get "User-Agent") ∨
        ¬IPPasses e.rule (clientIP r) ∨ ¬Credentialed H e.rule r := by
  unfold serveHTTP
  cases findRoute routes choice (hostOf r) with
  | none => simp
  | some e =>
    simp only [Option.mem_some_iff, forall_eq', forwarded_iff, Permits]
    cases H.parseURL e.rule.targetURL <;> cases e.rule.websocket <;> simp
    tauto

/-- Every target is a URL and no header carries credentials. -/
def plainHTTP : NetHTTP := ⟨fun _ => true, fun _ => none⟩

/-- A rule with one address on its IP blacklist and one agent on the other. -/
def guarded (websocket : Bool) (basicAuthUser : String) : ProxyRule :=
  ⟨⟨"p1", "t", "o", "app", "http://10.0.0.2:8080", false, "", false, true, websocket, "",
    basicAuthUser, "secret", 0, true⟩, ⟨["app.example"], [], [⟨"b1", "6.6.6.6"⟩], [], ["curl"]⟩⟩

def tableOf (rule : ProxyRule) : Table Route := ⟨[⟨"app.example", rule⟩], by simp⟩

def curl (remoteAddr : String) : Request :=
  ⟨"app.example", remoteAddr, fun key => if key = "User-Agent" then ["curl"] else []⟩

/-- The websocket rule takes a request that fails every check, and without a
websocket a blacklisted agent gets through. -/
theorem checks_left_out :
    (serveHTTP plainHTTP (tableOf (guarded true "admin")) 0 (curl "6.6.6.6:4000") =
        .forwarded "http://10.0.0.2:8080" ∧
      ¬IPPasses (guarded true "admin") (clientIP (curl "6.6.6.6:4000")) ∧
      ¬Credentialed plainHTTP (guarded true "admin") (curl "6.6.6.6:4000") ∧
      ¬Permits plainHTTP (· == ·) (guarded true "admin") (curl "6.6.6.6:4000")) ∧
    serveHTTP plainHTTP (tableOf (guarded false "")) 0 (curl "10.0.0.9:4000") =
        .forwarded "http://10.0.0.2:8080" ∧
      ¬Permits plainHTTP (· == ·) (guarded false "") (curl "10.0.0.9:4000") := by
  have hip : ¬IPPasses (guarded true "admin") (clientIP (curl "6.6.6.6:4000")) := by
    unfold IPPasses
    decide
  have hauth : ¬Credentialed plainHTTP (guarded true "admin") (curl "6.6.6.6:4000") := by
    unfold Credentialed
    decide
  have hua : ¬UAPasses (· == ·) (guarded false "") ((curl "10.0.0.9:4000").get "User-Agent") := by
    unfold UAPasses
    decide
  exact ⟨⟨by decide, hip, hauth, fun h => hip h.1⟩, by decide +kernel, fun h => hua h.2.1⟩

/-! ## The lists as strings and as addresses -/

/-- For all lists and every spelling of a client's address: the handler and the
matcher decide alike exactly when a client the whitelist does not stop is on the
blacklist in its own spelling as soon as an entry contains it, and a client that
the whitelist lacks in this spelling is in none of its entries, unless the
blacklist contains it. -/
theorem acl_agrees_iff (ipWhitelist ipBlacklist : List String) (ip : String) (a : Addr)
    (h : parseAddr ip = some a) :
    ipAllowed ipWhitelist ipBlacklist ip =
        (Matcher.load netip ipWhitelist ipBlacklist).isAllowed netip ip ↔
      (ipWhitelist = [] ∨ ip ∈ ipWhitelist → (∃ v ∈ ipBlacklist, a ∈ denotes v) →
        ip ∈ ipBlacklist) ∧
      (ipWhitelist ≠ [] → ip ∉ ipWhitelist → (∀ v ∈ ipBlacklist, a ∉ denotes v) →
        (∃ v ∈ ipWhitelist, (denotes v).Nonempty) ∧ ∀ v ∈ ipWhitelist, a ∉ denotes v) := by
  have hclient : clientAddr ip = some a := by simp [clientAddr, netip, h]
  have hself : a ∈ denotes ip := .inr h
  have hproxy : ipAllowed ipWhitelist ipBlacklist ip = true ↔
      ip ∉ ipBlacklist ∧ (ipWhitelist = [] ∨ ip ∈ ipWhitelist) := by
    simp [ipAllowed]
  have hnone : ∀ l : List String, (∀ v ∈ l, a ∉ denotes v) ↔ ¬∃ v ∈ l, a ∈ denotes v := by simp
  have hblack : ip ∈ ipBlacklist → ∃ v ∈ ipBlacklist, a ∈ denotes v := fun hv => ⟨ip, hv, hself⟩
  have hwhite : ip ∈ ipWhitelist → ∃ v ∈ ipWhitelist, a ∈ denotes v := fun hv => ⟨ip, hv, hself⟩
  have hread : (∃ v ∈ ipWhitelist, a ∈ denotes v) → ∃ v ∈ ipWhitelist, (denotes v).Nonempty := by
    rintro ⟨v, hv, ha⟩
    exact ⟨v, hv, a, ha⟩
  have hempty : ipWhitelist = [] → ¬∃ v ∈ ipWhitelist, (denotes v).Nonempty := by
    rintro rfl
    simp
  rw [Bool.eq_iff_iff, hproxy, isAllowed_load_iff hclient, hnone, hnone]
  clear hproxy hnone
  generalize (∃ v ∈ ipBlacklist, a ∈ denotes v) = black at *
  generalize (∃ v ∈ ipWhitelist, a ∈ denotes v) = white at *
  generalize (∃ v ∈ ipWhitelist, (denotes v).Nonempty) = readable at *
  grind

/-- A client on a whitelist and on no blacklist. -/
theorem acl_agrees_listed :
    ipAllowed ["10.0.0.1"] ["6.6.6.0/24"] "10.0.0.1" =
      (Matcher.load netip ["10.0.0.1"] ["6.6.6.0/24"]).isAllowed netip "10.0.0.1" := by
  have hblack : ¬∃ v ∈ ["6.6.6.0/24"], Addr.v4 0x0a000001 ∈ denotes v := by decide
  exact (acl_agrees_iff ["10.0.0.1"] ["6.6.6.0/24"] "10.0.0.1" (.v4 0x0a000001) (by decide)).mpr
    ⟨fun _ h => absurd h hblack, fun _ h => absurd (by simp) h⟩

/-- A network on the blacklist stops nobody at the handler, and a client in
another spelling than the whitelist's is stopped there only. -/
theorem lists_decided_apart :
    (accepted "10.0.0.0/8" = true ∧ ipAllowed [] ["10.0.0.0/8"] "10.0.0.1" = true ∧
      (Matcher.load netip [] ["10.0.0.0/8"]).isAllowed netip "10.0.0.1" = false) ∧
    accepted "2001:DB8::1" = true ∧ ipAllowed ["2001:DB8::1"] [] "2001:db8::1" = false ∧
      (Matcher.load netip ["2001:DB8::1"] []).isAllowed netip "2001:db8::1" = true := by
  decide

/-! ## Requests from one peer -/

/-- The requests differ in the two headers only. -/
def SamePeer (r r' : Request) : Prop :=
  r.host = r'.host ∧ r.remoteAddr = r'.remoteAddr ∧
    ∀ key, key ≠ "X-Forwarded-For" → key ≠ "X-Real-IP" → r.header key = r'.header key

def RefusesIP (H : NetHTTP) (rule : ProxyRule) (r : Request) : Prop :=
  (buildHandler H rule).serveHTTP H r = .error "Forbidden" 403 []

theorem refusesIP_iff (H : NetHTTP) (rule : ProxyRule) (r : Request) :
    RefusesIP H rule r ↔ H.parseURL rule.targetURL = true ∧ rule.websocket = false ∧
      ¬IPPasses rule (clientIP r) := by
  unfold RefusesIP
  rcases handler_cases H rule r with ⟨hurl, h⟩ | ⟨hurl, ⟨hws, h⟩ | ⟨hws, ⟨hip, h⟩ |
    ⟨hip, ⟨hauth, h⟩ | ⟨hauth, h⟩⟩⟩⟩ <;> rw [h] <;> simp [*]

/-- The request with headers that claim an address; a header of one space claims
the empty string. -/
def claiming (r : Request) (ip : String) : Request :=
  { r with header := fun key =>
      if key = "X-Forwarded-For" then if ip = "" then [" "] else []
      else if key = "X-Real-IP" then [ip] else r.header key }

theorem samePeer_claiming (r : Request) (ip ip' : String) :
    SamePeer (claiming r ip) (claiming r ip') := by
  refine ⟨rfl, rfl, fun key hxff hxri => ?_⟩
  simp [claiming, hxff, hxri]

theorem clientIP_claiming (r : Request) (ip : String) : clientIP (claiming r ip) = ip := by
  by_cases h : ip = ""
  · have htrim : trimSpace ((split ',' " ").head?.getD "") = "" := by decide
    simp [clientIP, Request.get, claiming, htrim, h]
  · simp [clientIP, Request.get, claiming, h]

/-- For every rule: what the two headers say makes no difference to the decision,
exactly when the target is no URL, or the rule is a websocket rule or has no IP
list, or its whitelist is not empty and lies in its blacklist. -/
theorem decision_unforgeable_iff (H : NetHTTP) (rule : ProxyRule) :
    (∀ r r', SamePeer r r' → (RefusesIP H rule r ↔ RefusesIP H rule r')) ↔
      H.parseURL rule.targetURL = false ∨ rule.websocket = true ∨
      rule.ipWhitelist = [] ∧ rule.ipBlacklist = [] ∨
      rule.ipWhitelist ≠ [] ∧
        rule.ipWhitelist.map ACLEntry.value ⊆ rule.ipBlacklist.map ACLEntry.value := by
  have hpasses : ∀ ip, IPPasses rule ip ↔ ip ∉ rule.ipBlacklist.map ACLEntry.value ∧
      (rule.ipWhitelist = [] ∨ ip ∈ rule.ipWhitelist.map ACLEntry.value) := by
    simp [IPPasses, ipAllowed]
  simp only [refusesIP_iff]
  constructor
  · intro hsame
    by_contra hcond
    push Not at hcond
    obtain ⟨hurl, hws, hlists, hsub⟩ := hcond
    have hnames : ∀ ip ip', IPPasses rule ip → IPPasses rule ip' := by
      intro ip ip' hip
      have hclaim := hsame _ _ (samePeer_claiming ⟨"", "", fun _ => []⟩ ip ip')
      simp only [clientIP_claiming] at hclaim
      by_contra hip'
      exact (hclaim.mpr ⟨by simpa using hurl, by simpa using hws, hip'⟩).2.2 hip
    by_cases hwl : rule.ipWhitelist = []
    · obtain ⟨b, hb⟩ := List.exists_mem_of_ne_nil _ (hlists hwl)
      obtain ⟨fresh, hfresh⟩ :=
        Infinite.exists_notMem_finset (rule.ipBlacklist.map ACLEntry.value).toFinset
      rw [List.mem_toFinset] at hfresh
      have hblocked := hnames fresh b.value ((hpasses fresh).mpr ⟨hfresh, .inl hwl⟩)
      exact ((hpasses _).mp hblocked).1 (List.mem_map_of_mem hb)
    · obtain ⟨w, hw, hwb⟩ : ∃ w ∈ rule.ipWhitelist.map ACLEntry.value,
          w ∉ rule.ipBlacklist.map ACLEntry.value := by
        by_contra hnone
        push Not at hnone
        exact hsub hwl hnone
      obtain ⟨fresh, hfresh⟩ :=
        Infinite.exists_notMem_finset (rule.ipWhitelist.map ACLEntry.value).toFinset
      rw [List.mem_toFinset] at hfresh
      have hstranger := hnames w fresh ((hpasses w).mpr ⟨hwb, .inr hw⟩)
      exact hfresh (((hpasses _).mp hstranger).2.resolve_left hwl)
  · rintro (hurl | hws | ⟨hwl, hbl⟩ | ⟨hwl, hsub⟩) r r' -
    · simp [hurl]
    · simp [hws]
    · simp [hpasses, hwl, hbl]
    · have hnever : ∀ ip, ¬IPPasses rule ip := by
        intro ip hip
        obtain ⟨hb, hw⟩ := (hpasses ip).mp hip
        exact hb (hsub (hw.resolve_left hwl))
      simp [hnever]

/-- The blacklisted peer is refused, and is not with a header of its own. -/
theorem header_defeats_blacklist :
    SamePeer (claiming (curl "6.6.6.6:4000") "6.6.6.6") (claiming (curl "6.6.6.6:4000") "10.0.0.1") ∧
      ¬(RefusesIP plainHTTP (guarded false "") (claiming (curl "6.6.6.6:4000") "6.6.6.6") ↔
        RefusesIP plainHTTP (guarded false "") (claiming (curl "6.6.6.6:4000") "10.0.0.1")) := by
  refine ⟨samePeer_claiming _ _ _, ?_⟩
  unfold RefusesIP
  decide

end NetBerth.ProxyHandler
