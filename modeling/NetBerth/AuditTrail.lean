import NetBerth.AccountCalls
import NetBerth.RateLimit
import NetBerth.Router

/-!
# The audit trail

The audit middleware stands outside of the router. When the handler has returned it
writes a row about the request, from the method, the decoded path and the claims in
the context of the request it holds. The authentication stands inside, and hands its
claims to a request of its own: the one held here never has any.

What became of the request it does not see either. A request that is refused or finds
nothing is told like one that changed a row, under no name.
-/
namespace NetBerth.AuditTrail
open SqlTable Accounts TokenKinds Router
open ModuleEvents (Module)

/-- A row of audit_events. -/
structure AuditEvent where
  tenantID : ID
  userID : ID
  username : String
  action : String
  resourceType : String
  resourceID : ID
  changes : String
  remoteAddr : String
  createdAt : ℚ
  deriving DecidableEq, Repr

/-! ## What the path tells -/

def typeMap : List (String × String) :=
  [("forward-rules", "forward_rule"), ("proxy-rules", "proxy_rule"), ("ddns", "ddns_config"),
    ("stun", "stun_tunnel"), ("wol", "wol_device"), ("cron", "cron_job"),
    ("acme", "acme_certificate"), ("storage", "storage_mount"), ("users", "user")]

def actionOf (method : String) : Option String :=
  if method = "POST" then some "created"
  else if method = "PUT" ∨ method = "PATCH" then some "updated"
  else if method = "DELETE" then some "deleted"
  else none

/-- `strings.Trim(path, "/")`. -/
def trimSlashes (path : Path) : Path := (path.dropWhile (· = '/')).rdropWhile (· = '/')

/-- The type and the id of the resource, and the action. -/
def extractAuditInfo (path : Path) (method : String) : Option (String × ID × String) :=
  if "/api/v1/".toList.isPrefixOf path then
    (actionOf method).bind fun action =>
      let parts := (trimSlashes (path.drop "/api/v1/".length)).splitOn '/'
      (typeMap.lookup (String.ofList (parts.headD []))).map fun resourceType =>
        (resourceType, String.ofList (parts.getD 1 []), action)
  else none

/-! ## The server -/

variable {β : Type}

structure State (β : Type) where
  limiter : RateLimit.RateLimiter
  modules : ModuleEvents.Store β
  accounts : Store
  audit : List AuditEvent

/-- What the body decodes to in each handler. -/
structure Bodies (β : Type) where
  content : Option β
  newUser : Body CreateUserRequest
  userUpdate : Body UpdateUserRequest
  newPassword : Body String

structure Request (β : Type) where
  method : String
  target : Path
  header : AuthHeader
  visit : RateLimit.Visit
  body : Bodies β

/-- What the random source returns, which of the statements fail, and the clock. -/
structure Env where
  uuid : ID
  uuid_ne : uuid ≠ ""
  salt : String
  fails : Bool
  auditFails : Bool
  now : ℚ

def Env.module (env : Env) : ModuleEvents.Env := ⟨env.uuid, env.fails⟩

inductive Answer where
  | reply (r : Reply)
  | effects (l : List ModuleEvents.Effect)
  | handler (p : Proc)
  deriving DecidableEq, Repr

section
variable (H : Hasher) (checks : ModuleEvents.Checks β) (env : Env)

def handleUser (s : State β) (r : Accounts.Request) : State β × Answer :=
  let t := AccountCalls.call H s.accounts r
  ({ s with accounts := t.1 }, .handler t.2)

def handleModule (s : State β) (r : ModuleEvents.Request β) : State β × Answer :=
  let t := ModuleEvents.handle checks s.modules (r, env.module)
  ({ s with modules := t.1 }, .effects t.2)

def mutate (body : Bodies β) (claims : Option Claims) (s : State β) : Mutation → State β × Answer
  | .create m => handleModule checks env s (.create m body.content)
  | .update m id => handleModule checks env s (.update m id body.content)
  | .delete m id => handleModule checks env s (.delete m id)
  | .wake _ => (s, .reply ⟨200, "wake signal sent"⟩)
  | .createUser =>
    handleUser H s (.createUser (claims.map Claims.userID) body.newUser env.uuid env.salt)
  | .updateUser id => handleUser H s (.updateUser (claims.map Claims.userID) id body.userUpdate)
  | .deleteUser id => handleUser H s (.deleteUser (claims.map Claims.userID) id)
  | .resetPassword id => handleUser H s (.resetPassword id body.newPassword env.salt)

/-- `others` are the handlers of the routes that are not audited. -/
def router (others : Endpoint → Option Claims → Request β → State β → State β × Answer)
    (url : URL) (r : Request β) (s : State β) : State β × Answer :=
  match findRoute r.method url.routePath with
  | none => (s, .reply (unrouted url.routePath))
  | some (group, endpoint) =>
    match authorize s.accounts group r.header url.path with
    | .error reply => (s, .reply reply)
    | .ok claims =>
      match endpoint with
      | .mutation x => mutate H checks env r.body claims s x
      | endpoint => others endpoint claims r s

/-- What follows the router; `claims` are those in the context of the request. -/
def auditMiddleware (url : URL) (r : Request β) (claims : Option Claims) (s : State β) : State β :=
  if r.method ∈ ["GET", "HEAD", "OPTIONS"] then s
  else
    match extractAuditInfo url.path r.method with
    | none => s
    | some (resourceType, resourceID, action) =>
      if env.auditFails then s
      else { s with audit := s.audit ++ [{
        tenantID := ""
        userID := (claims.map Claims.userID).getD ""
        username := (claims.map Claims.username).getD ""
        action, resourceType, resourceID
        changes := ""
        remoteAddr := r.visit.request.remoteAddr
        createdAt := env.now }] }

/-- The chain: the answer to a preflight, the rate limiter, the audit and the router. -/
def serve (others : Endpoint → Option Claims → Request β → State β → State β × Answer)
    (s : State β) (r : Request β) : State β × Answer :=
  match setPath r.target with
  | none => (s, .reply ⟨400, "400 Bad Request"⟩)
  | some url =>
    if r.method = "OPTIONS" then (s, .reply ⟨204, ""⟩)
    else
      match RateLimit.middleware s.limiter r.visit with
      | (.refused status _ body, limiter) => ({ s with limiter }, .reply ⟨status, body⟩)
      | (.passedOn, limiter) =>
        let t := router H checks env others url r { s with limiter }
        (auditMiddleware env url r none t.1, t.2)

end

/-! ## What the trail is to tell -/

def resourceTypeOf : Module → String
  | .forward => "forward_rule"
  | .proxy => "proxy_rule"
  | .ddns => "ddns_config"
  | .stun => "stun_tunnel"
  | .wol => "wol_device"
  | .cron => "cron_job"
  | .acme => "acme_certificate"
  | .storage => "storage_mount"

def resourceType : Mutation → String
  | .create m | .update m _ | .delete m _ => resourceTypeOf m
  | .wake _ => "wol_device"
  | .createUser | .updateUser _ | .deleteUser _ | .resetPassword _ => "user"

/-- A new row has the id that was drawn for it. -/
def resourceID (uuid : ID) : Mutation → ID
  | .create _ | .createUser => uuid
  | .update _ id | .delete _ id | .wake id | .updateUser id | .deleteUser id
  | .resetPassword id => id

def action : Mutation → String
  | .create _ | .createUser => "created"
  | .update _ _ | .wake _ | .updateUser _ | .resetPassword _ => "updated"
  | .delete _ _ | .deleteUser _ => "deleted"

structure Tells (e : AuditEvent) (uuid : ID) (claims : Claims) (x : Mutation) : Prop where
  resourceType_eq : e.resourceType = resourceType x
  resourceID_eq : e.resourceID = resourceID uuid x
  action_eq : e.action = action x
  userID_eq : e.userID = claims.userID
  username_eq : e.username = claims.username

/-- The time of an update is not counted. -/
def Changed (s s' : State β) : Prop :=
  s'.modules ≠ s.modules ∨ s'.accounts.users ≠ s.accounts.users

/-- One row if the request changed something, and none if it did not. -/
structure Told (env : Env) (header : AuthHeader) (x : Mutation) (s s' : State β) : Prop where
  changed : Changed s s' → ∃ claims e,
    TokenKinds.authMiddleware s.accounts header = .passed claims ∧
      s'.audit = s.audit ++ [e] ∧ Tells e env.uuid claims x
  unchanged : ¬Changed s s' → s'.audit = s.audit

def Request.mutation (r : Request β) : Option Mutation :=
  (setPath r.target).bind fun url =>
    (findRoute r.method url.routePath).bind fun found =>
      match found.2 with
      | .mutation x => some x
      | _ => none

/-- The trail tells rightly of the request, if it is for a route that mutates. -/
def Faithful (H : Hasher) (checks : ModuleEvents.Checks β) (env : Env)
    (others : Endpoint → Option Claims → Request β → State β → State β × Answer)
    (s : State β) (r : Request β) : Prop :=
  ∀ x, r.mutation = some x → Told env r.header x s (serve H checks env others s r).1

/-! ## What the decoded path tells -/

theorem trimSlashes_append {k : Path} (hne : k ≠ []) (hk : '/' ∉ k) (t : Path) :
    trimSlashes (k ++ t) = k ++ t.rdropWhile (· = '/') := by
  have hfirst : (k ++ t).dropWhile (· = '/') = k ++ t := by
    cases k with
    | nil => exact absurd rfl hne
    | cons c k =>
      have hc : c ≠ '/' := fun hc => hk (by simp [hc])
      simp [hc]
  have hlast : k.reverse.dropWhile (· = '/') = k.reverse := by
    rw [List.dropWhile_eq_self_iff]
    intro hl
    have hmem : k.reverse[0] ∈ k := List.mem_reverse.mp (List.getElem_mem hl)
    have hslash : k.reverse[0] ≠ '/' := fun he => hk (he ▸ hmem)
    simpa using hslash
  unfold trimSlashes
  rw [hfirst, List.rdropWhile, List.rdropWhile, List.reverse_append, List.dropWhile_append]
  split_ifs with hempty
  · simp [hlast, List.isEmpty_iff.mp hempty]
  · simp

/-- The segment after the first slash, if the slashes at the end are dropped. -/
def idIn (tail : Path) : Path := (((tail.drop 1).rdropWhile (· = '/')).splitOn '/').headD []

theorem parts_eq {k : Path} (hne : k ≠ []) (hk : '/' ∉ k) {t : Path}
    (ht : t = [] ∨ ∃ r, t = '/' :: r) :
    ((trimSlashes (k ++ t)).splitOn '/').headD [] = k ∧
      ((trimSlashes (k ++ t)).splitOn '/').getD 1 [] = idIn t := by
  rw [trimSlashes_append hne hk]
  obtain rfl | ⟨r, rfl⟩ := ht
  · simp [idIn, List.splitOn_eq_singleton hk]
  · have hcons : List.rdropWhile (· = '/') ('/' :: r) =
        if r.rdropWhile (· = '/') = [] then [] else '/' :: r.rdropWhile (· = '/') := by
      simp only [List.rdropWhile, List.reverse_cons, List.dropWhile_append, List.isEmpty_iff,
        List.reverse_eq_nil_iff]
      split_ifs <;> simp
    rw [hcons]
    split_ifs with hr
    · simp [idIn, hr, List.splitOn_eq_singleton hk]
    · rw [List.splitOn_append_cons_self_of_not_mem hk]
      simp [idIn, List.getD_eq_getElem?_getD, List.headD_eq_head?_getD, List.head?_eq_getElem?]

theorem kind_proper (x : Mutation) :
    x.kind.toList ≠ [] ∧ '/' ∉ x.kind.toList ∧ '%' ∉ x.kind.toList ∧
      typeMap.lookup x.kind = some (resourceType x) := by
  have hpath : ∀ m, (pathOf m).toList ≠ [] ∧ '/' ∉ (pathOf m).toList ∧ '%' ∉ (pathOf m).toList ∧
      typeMap.lookup (pathOf m) = some (resourceTypeOf m) := by
    intro m
    cases m <;> decide
  have husers : "users".toList ≠ [] ∧ '/' ∉ "users".toList ∧ '%' ∉ "users".toList ∧
      typeMap.lookup "users" = some "user" := by decide
  cases x with
  | create m => exact hpath m
  | update m id => exact hpath m
  | delete m id => exact hpath m
  | wake id => exact hpath .wol
  | createUser => exact husers
  | updateUser id => exact husers
  | deleteUser id => exact husers
  | resetPassword id => exact husers

/-- The action the method stands for. -/
def methodAction : Mutation → String
  | .create _ | .wake _ | .createUser | .resetPassword _ => "created"
  | .update _ _ | .updateUser _ => "updated"
  | .delete _ _ | .deleteUser _ => "deleted"

theorem actionOf_method (x : Mutation) : actionOf x.method = some (methodAction x) := by
  cases x <;> rfl

theorem extractAuditInfo_append (x : Mutation) {t : Path} (ht : t = [] ∨ ∃ r, t = '/' :: r) :
    extractAuditInfo ("/api/v1/".toList ++ (x.kind.toList ++ t)) x.method =
      some (resourceType x, String.ofList (idIn t), methodAction x) := by
  obtain ⟨hne, hslash, -, hlookup⟩ := kind_proper x
  obtain ⟨hkind, hid⟩ := parts_eq hne hslash ht
  have hdrop : ("/api/v1/".toList ++ (x.kind.toList ++ t)).drop "/api/v1/".length =
      x.kind.toList ++ t := List.drop_left' rfl
  unfold extractAuditInfo
  rw [if_pos (List.isPrefixOf_iff_prefix.mpr (List.prefix_append _ _)), actionOf_method,
    Option.bind_some, hdrop]
  dsimp only
  rw [hkind, hid, String.ofList_toList, hlookup, Option.map_some]

theorem idIn_single {id : Path} (hslash : '/' ∉ id) : idIn ('/' :: id) = id := by
  have hlast : id.rdropWhile (· = '/') = id := by
    rw [List.rdropWhile_eq_self_iff]
    intro hl
    have hmem := List.getLast_mem hl
    have hlast : id.getLast hl ≠ '/' := fun he => hslash (he ▸ hmem)
    simpa using hlast
  rw [idIn, List.drop_one, List.tail_cons, hlast, List.splitOn_eq_singleton hslash]
  rfl

theorem length_idIn (t : Path) : (idIn t).length ≤ (t.drop 1).length := by
  have hprefix : ((t.drop 1).rdropWhile (· = '/')).length ≤ (t.drop 1).length :=
    (List.rdropWhile_prefix _ _).length_le
  refine le_trans ?_ hprefix
  unfold idIn
  generalize (t.drop 1).rdropWhile (· = '/') = l
  cases hsplit : l.splitOn '/' with
  | nil => simp
  | cons first rest =>
    rw [eq_append_join hsplit]
    simp

/-- An id with an escape in it is not the id of the path that it decodes to. -/
theorem idIn_ne_of_unescape {id id' : Path} (h : unescape id = some id') (hne : id' ≠ id) :
    idIn ('/' :: id') ≠ id := by
  by_cases hmem : '%' ∈ id
  · have hlt := (length_unescape h).2 hmem
    have hle : (idIn ('/' :: id')).length ≤ id'.length := length_idIn _
    intro he
    rw [he] at hle
    omega
  · rw [unescape_eq_self hmem] at h
    exact absurd (Option.some.inj h).symm hne

/-- The decoded path has the same beginning, and an id in it is the id of the route only
if the two paths are the same. -/
theorem path_of_mutation {p : Path} {url : URL} {method : String} {g : Group} {x : Mutation}
    (hurl : setPath p = some url) (h : findRoute method url.routePath = some (g, .mutation x)) :
    ∃ t, url.path = "/api/v1/".toList ++ (x.kind.toList ++ t) ∧ (t = [] ∨ ∃ r, t = '/' :: r) ∧
      (x.segments = [] → t = []) ∧
      ∀ id, x.segments = [id] → (idIn t = id ↔ url.path = url.routePath) := by
  obtain ⟨-, -, hroute, hid⟩ := routePath_of_mutation h
  obtain ⟨-, -, hescape, -⟩ := kind_proper x
  have hjoin : join x.segments = [] ∨ ∃ r, join x.segments = '/' :: r := by
    cases x.segments with
    | nil => exact .inl rfl
    | cons id rest => exact .inr ⟨id ++ join rest, by simp [join]⟩
  by_cases hsame : url.path = url.routePath
  · refine ⟨join x.segments, hsame.trans hroute, hjoin, ?_, ?_⟩
    · intro hsegments
      simp [hsegments, join]
    · intro id hsegments
      refine iff_of_true ?_ hsame
      rw [hsegments]
      simpa [join] using idIn_single (hid id hsegments)
  have hdecoded : unescape ("/api/v1/".toList ++ (x.kind.toList ++ join x.segments)) =
      some url.path := by
    rcases routePath_cases hurl with hcase | hcase | hcase
    · exact absurd hcase hsame
    · rw [hcase] at hroute
      simp at hroute
    · rw [← hroute]
      exact hcase
  rw [unescape_append (by decide), unescape_append hescape, Option.map_map] at hdecoded
  obtain ⟨t, ht, hpath⟩ := Option.map_eq_some_iff.mp hdecoded
  refine ⟨t, hpath.symm, ?_, ?_, ?_⟩
  · obtain hnil | ⟨r, hr⟩ := hjoin
    · rw [hnil] at ht
      exact .inl (Option.some.inj ht).symm
    · rw [hr, unescape_cons (by decide)] at ht
      obtain ⟨r', -, rfl⟩ := Option.map_eq_some_iff.mp ht
      exact .inr ⟨r', rfl⟩
  · intro hsegments
    simpa [hsegments, join, unescape, eq_comm] using ht
  · intro id hsegments
    refine iff_of_false ?_ hsame
    have hid : join x.segments = '/' :: id := by simp [hsegments, join]
    rw [hid, unescape_cons (by decide)] at ht
    obtain ⟨id', hid', rfl⟩ := Option.map_eq_some_iff.mp ht
    refine idIn_ne_of_unescape hid' ?_
    rintro rfl
    rw [← hid] at hpath
    exact hsame (hpath.symm.trans hroute.symm)

/-! ## When the trail is right -/

section
variable {H : Hasher} {checks : ModuleEvents.Checks β} {env : Env}
  {others : Endpoint → Option Claims → Request β → State β → State β × Answer}
  {s : State β} {r : Request β} {x : Mutation}

/-- The request gets through to its handler, which leaves other tables behind. -/
def Effective (H : Hasher) (checks : ModuleEvents.Checks β) (env : Env) (s : State β)
    (r : Request β) (x : Mutation) : Prop :=
  (RateLimit.middleware s.limiter r.visit).1 = .passedOn ∧ ∃ url group claims,
    setPath r.target = some url ∧ findRoute r.method url.routePath = some (group, .mutation x) ∧
      authorize s.accounts group r.header url.path = .ok (some claims) ∧
      Changed s (mutate H checks env r.body (some claims) s x).1

/-- No row is written: the rate limiter stands outside of the audit, and an insertion may
fail. -/
def Silent (env : Env) (s : State β) (r : Request β) : Prop :=
  (RateLimit.middleware s.limiter r.visit).1 ≠ .passedOn ∨ env.auditFails = true

/-- The method and the decoded path tell what is done to which row. -/
def Readable (r : Request β) : Mutation → Prop
  | .update _ _ | .delete _ _ | .updateUser _ | .deleteUser _ =>
    ∀ url, setPath r.target = some url → url.path = url.routePath
  | _ => False

/-- The caller has the id and the name that the row is written with. -/
def Nameless (s : State β) (header : AuthHeader) : Prop :=
  ∀ claims, TokenKinds.authMiddleware s.accounts header = .passed claims →
    claims.userID = "" ∧ claims.username = ""

theorem mutation_eq_some : r.mutation = some x ↔ ∃ url group, setPath r.target = some url ∧
    findRoute r.method url.routePath = some (group, .mutation x) := by
  simp only [Request.mutation, Option.bind_eq_some_iff]
  constructor
  · rintro ⟨url, hurl, ⟨group, endpoint⟩, hfound, hx⟩
    cases endpoint <;> cases hx
    exact ⟨url, group, hurl, hfound⟩
  · rintro ⟨url, group, hurl, hfound⟩
    exact ⟨url, hurl, _, hfound, rfl⟩

theorem mutate_audit (body : Bodies β) (claims : Option Claims) (s : State β) (x : Mutation) :
    (mutate H checks env body claims s x).1.audit = s.audit := by
  cases x <;> rfl

theorem mutate_limiter (body : Bodies β) (claims : Option Claims) (s : State β)
    (limiter : RateLimit.RateLimiter) (x : Mutation) :
    (mutate H checks env body claims { s with limiter } x).1 =
      { (mutate H checks env body claims s x).1 with limiter } := by
  cases x <;> rfl

/-- The row that the middleware writes. -/
def written (env : Env) (r : Request β) (x : Mutation) (tail : Path) : AuditEvent where
  tenantID := ""
  userID := ""
  username := ""
  action := methodAction x
  resourceType := resourceType x
  resourceID := String.ofList (idIn tail)
  changes := ""
  remoteAddr := r.visit.request.remoteAddr
  createdAt := env.now

theorem auditMiddleware_eq {url : URL} {t : Path} (hmethod : r.method = x.method)
    (ht : t = [] ∨ ∃ r, t = '/' :: r)
    (hpath : url.path = "/api/v1/".toList ++ (x.kind.toList ++ t)) (s : State β) :
    auditMiddleware env url r none s =
      if env.auditFails then s else { s with audit := s.audit ++ [written env r x t] } := by
  have hread : r.method ∉ ["GET", "HEAD", "OPTIONS"] := by
    rw [hmethod]
    cases x <;> simp [Mutation.method]
  unfold auditMiddleware
  rw [if_neg hread, hpath, hmethod, extractAuditInfo_append x ht]
  rfl

/-- The type is right whatever the request, the name never, and the rest for the mutations
that the path and the method tell apart. -/
theorem tells_written_iff {t : Path} {claims : Claims} (hnone : x.segments = [] → t = [])
    (hone : ∀ id, x.segments = [id] → (idIn t = id ↔ Readable r x)) :
    Tells (written env r x t) env.uuid claims x ↔
      Readable r x ∧ claims.userID = "" ∧ claims.username = "" := by
  have hnew : String.ofList (idIn []) ≠ env.uuid := fun h => env.uuid_ne h.symm
  have hread : ∀ id : ID, x.segments = [id.toList] →
      (String.ofList (idIn t) = id ↔ Readable r x) := by
    intro id hsegments
    rw [← hone _ hsegments]
    exact ⟨fun h => by rw [← h, String.toList_ofList], fun h => by rw [h, String.ofList_toList]⟩
  constructor
  · intro h
    refine ⟨?_, h.userID_eq.symm, h.username_eq.symm⟩
    have hid := h.resourceID_eq
    have haction := h.action_eq
    cases x with
    | create m => exact absurd (hnone rfl ▸ hid) hnew
    | createUser => exact absurd (hnone rfl ▸ hid) hnew
    | wake id => simp [written, methodAction, action] at haction
    | resetPassword id => simp [written, methodAction, action] at haction
    | update m id => exact (hread id rfl).mp hid
    | delete m id => exact (hread id rfl).mp hid
    | updateUser id => exact (hread id rfl).mp hid
    | deleteUser id => exact (hread id rfl).mp hid
  · rintro ⟨h, hid, hname⟩
    refine ⟨rfl, ?_, ?_, hid.symm, hname.symm⟩
    · cases x with
      | update m id => exact (hread id rfl).mpr h
      | delete m id => exact (hread id rfl).mpr h
      | updateUser id => exact (hread id rfl).mpr h
      | deleteUser id => exact (hread id rfl).mpr h
      | _ => exact absurd h id
    · cases x with
      | update m id => rfl
      | delete m id => rfl
      | updateUser id => rfl
      | deleteUser id => rfl
      | _ => exact absurd h id

theorem serve_refused {url : URL} (hurl : setPath r.target = some url)
    (hmethod : r.method ≠ "OPTIONS")
    (h : (RateLimit.middleware s.limiter r.visit).1 ≠ .passedOn) :
    (serve H checks env others s r).1 =
      { s with limiter := (RateLimit.middleware s.limiter r.visit).2 } := by
  unfold serve
  rw [hurl]
  dsimp only
  rw [if_neg hmethod]
  cases hlimit : RateLimit.middleware s.limiter r.visit with
  | mk verdict limiter =>
    rw [hlimit] at h
    cases verdict with
    | passedOn => exact absurd rfl h
    | refused => rfl

theorem serve_passed {url : URL} (hurl : setPath r.target = some url)
    (hmethod : r.method ≠ "OPTIONS")
    (h : (RateLimit.middleware s.limiter r.visit).1 = .passedOn) :
    (serve H checks env others s r).1 = auditMiddleware env url r none
      (router H checks env others url r
        { s with limiter := (RateLimit.middleware s.limiter r.visit).2 }).1 := by
  unfold serve
  rw [hurl]
  dsimp only
  rw [if_neg hmethod]
  cases hlimit : RateLimit.middleware s.limiter r.visit with
  | mk verdict limiter =>
    rw [hlimit] at h
    cases verdict with
    | passedOn => rfl
    | refused => cases h

/-- The handler has run, or the request has changed nothing. -/
theorem router_cases {url : URL} {group : Group}
    (hfound : findRoute r.method url.routePath = some (group, .mutation x)) (s : State β) :
    (∃ claims, authorize s.accounts group r.header url.path = .ok (some claims) ∧
      (router H checks env others url r s).1 =
        (mutate H checks env r.body (some claims) s x).1) ∨
    (∀ claims, authorize s.accounts group r.header url.path ≠ .ok claims) ∧
      (router H checks env others url r s).1 = s := by
  unfold router
  rw [hfound]
  dsimp only
  cases hauth : authorize s.accounts group r.header url.path with
  | error reply => exact .inr ⟨fun _ => nofun, rfl⟩
  | ok claims =>
    obtain ⟨c, rfl, -⟩ := authorize_passed (routePath_of_mutation hfound).1 hauth
    exact .inl ⟨c, rfl, rfl⟩

theorem not_changed_limiter (limiter : RateLimit.RateLimiter) :
    ¬Changed s { s with limiter } := by
  rintro (h | h) <;> exact h rfl

theorem router_changed {url : URL} {group : Group}
    (hfound : findRoute r.method url.routePath = some (group, .mutation x))
    (limiter : RateLimit.RateLimiter) :
    (router H checks env others url r { s with limiter }).1.audit = s.audit ∧
      (Changed s (router H checks env others url r { s with limiter }).1 ↔
        ∃ claims, authorize s.accounts group r.header url.path = .ok (some claims) ∧
          Changed s (mutate H checks env r.body (some claims) s x).1) := by
  obtain ⟨claims, hauth, he⟩ | ⟨hauth, he⟩ := router_cases hfound { s with limiter }
  · rw [he, mutate_audit, mutate_limiter]
    refine ⟨rfl, ?_⟩
    constructor
    · intro h
      exact ⟨claims, hauth, h⟩
    · intro ⟨claims', hauth', h⟩
      cases hauth.symm.trans hauth'
      exact h
  · rw [he]
    refine ⟨rfl, iff_of_false (not_changed_limiter limiter) ?_⟩
    intro ⟨claims, h, _⟩
    exact hauth _ h

theorem effective_iff {url : URL} {group : Group} (hurl : setPath r.target = some url)
    (hfound : findRoute r.method url.routePath = some (group, .mutation x))
    (hpass : (RateLimit.middleware s.limiter r.visit).1 = .passedOn) :
    Effective H checks env s r x ↔
      ∃ claims, authorize s.accounts group r.header url.path = .ok (some claims) ∧
        Changed s (mutate H checks env r.body (some claims) s x).1 := by
  constructor
  · intro ⟨_, url', group', claims, hurl', hfound', hauth, hchanged⟩
    cases hurl.symm.trans hurl'
    cases hfound.symm.trans hfound'
    exact ⟨claims, hauth, hchanged⟩
  · intro ⟨claims, hauth, hchanged⟩
    exact ⟨hpass, url, group, claims, hurl, hfound, hauth, hchanged⟩

/-- What a request leaves behind that the limiter lets pass: the tables of its handler, and
a row that tells of it as well as the path and the method do. -/
theorem served {url : URL} {group : Group} (hurl : setPath r.target = some url)
    (hfound : findRoute r.method url.routePath = some (group, .mutation x))
    (hpass : (RateLimit.middleware s.limiter r.visit).1 = .passedOn) :
    ∃ (s₁ : State β) (e : AuditEvent), s₁.audit = s.audit ∧
      (Changed s s₁ ↔ Effective H checks env s r x) ∧
      (∀ claims, Tells e env.uuid claims x ↔
        Readable r x ∧ claims.userID = "" ∧ claims.username = "") ∧
      (serve H checks env others s r).1 =
        if env.auditFails then s₁ else { s₁ with audit := s₁.audit ++ [e] } := by
  obtain ⟨-, hmethod, -⟩ := routePath_of_mutation hfound
  obtain ⟨t, hpath, ht, hnone, hone⟩ := path_of_mutation hurl hfound
  have hoptions : r.method ≠ "OPTIONS" := by
    rw [hmethod]
    cases x <;> simp [Mutation.method]
  have hread : ∀ id, x.segments = [id] → (idIn t = id ↔ Readable r x) := by
    intro id hsegments
    rw [hone id hsegments]
    cases x with
    | create m => cases hsegments
    | createUser => cases hsegments
    | wake id => cases hsegments
    | resetPassword id => cases hsegments
    | _ => simp [Readable, hurl]
  have hserve : (serve H checks env others s r).1 = auditMiddleware env url r none
      (router H checks env others url r
        { s with limiter := (RateLimit.middleware s.limiter r.visit).2 }).1 :=
    serve_passed hurl hoptions hpass
  rw [auditMiddleware_eq hmethod ht hpath] at hserve
  have hrouter : (router H checks env others url r
      { s with limiter := (RateLimit.middleware s.limiter r.visit).2 }).1.audit = s.audit ∧ _ :=
    router_changed hfound _
  exact ⟨_, _, hrouter.1, hrouter.2.trans (effective_iff hurl hfound hpass).symm,
    fun claims => tells_written_iff hnone hread, hserve⟩

theorem passed_of_effective (h : Effective H checks env s r x) :
    ∃ claims, TokenKinds.authMiddleware s.accounts r.header = .passed claims := by
  obtain ⟨-, url, group, claims, -, hfound, hauth, -⟩ := h
  obtain ⟨c, -, hc⟩ := authorize_passed (routePath_of_mutation hfound).1 hauth
  exact ⟨c, hc⟩

theorem told_iff_of_failed {s₁ : State β} (haudit : s₁.audit = s.audit)
    (hchanged : Changed s s₁ ↔ Effective H checks env s r x) :
    Told env r.header x s s₁ ↔ ¬Effective H checks env s r x := by
  constructor
  · intro h heffective
    obtain ⟨_, e, -, he, -⟩ := h.changed (hchanged.mpr heffective)
    simp [haudit] at he
  · intro h
    exact ⟨fun hc => absurd (hchanged.mp hc) h, fun _ => haudit⟩

theorem told_iff_of_written {s₁ : State β} {e : AuditEvent} (haudit : s₁.audit = s.audit)
    (hchanged : Changed s s₁ ↔ Effective H checks env s r x)
    (htells : ∀ claims, Tells e env.uuid claims x ↔
      Readable r x ∧ claims.userID = "" ∧ claims.username = "") :
    Told env r.header x s { s₁ with audit := s₁.audit ++ [e] } ↔
      Effective H checks env s r x ∧ Readable r x ∧ Nameless s r.header := by
  constructor
  · intro h
    have heffective : Effective H checks env s r x := by
      by_contra hnot
      have he := h.unchanged fun hc => hnot (hchanged.mp hc)
      simp [haudit] at he
    obtain ⟨claims, e', hpassed, he, htold⟩ := h.changed (hchanged.mpr heffective)
    obtain rfl : e = e' := by simpa [haudit] using he
    obtain ⟨hread, hid, hname⟩ := (htells claims).mp htold
    refine ⟨heffective, hread, fun c hc => ?_⟩
    cases hpassed.symm.trans hc
    exact ⟨hid, hname⟩
  · intro ⟨heffective, hread, hnameless⟩
    obtain ⟨claims, hpassed⟩ := passed_of_effective heffective
    constructor
    · intro _
      exact ⟨claims, e, hpassed, by rw [haudit],
        (htells claims).mpr ⟨hread, hnameless claims hpassed⟩⟩
    · intro hnot
      exact absurd (hchanged.mpr heffective) hnot

/-- The trail tells rightly of a request exactly if the request changes nothing and no row
is written, or it changes a row that its path names and its caller has no name. -/
theorem audited_faithfully_iff : Faithful H checks env others s r ↔ ∀ x, r.mutation = some x →
    (Effective H checks env s r x →
      env.auditFails = false ∧ Readable r x ∧ Nameless s r.header) ∧
    (¬Effective H checks env s r x → Silent env s r) := by
  unfold Faithful
  refine forall₂_congr fun x hx => ?_
  obtain ⟨url, group, hurl, hfound⟩ := mutation_eq_some.mp hx
  by_cases hpass : (RateLimit.middleware s.limiter r.visit).1 = .passedOn
  · obtain ⟨s₁, e, haudit, hchanged, htells, hserve⟩ :
      ∃ (s₁ : State β) (e : AuditEvent), s₁.audit = s.audit ∧
        (Changed s s₁ ↔ Effective H checks env s r x) ∧ _ := served hurl hfound hpass
    rw [hserve]
    unfold Silent
    cases hfails : env.auditFails with
    | true =>
      rw [if_pos rfl, told_iff_of_failed haudit hchanged]
      simp
    | false =>
      rw [if_neg (by simp), told_iff_of_written haudit hchanged htells]
      by_cases heffective : Effective H checks env s r x <;> simp [heffective, hpass]
  · have hsilent : Silent env s r := .inl hpass
    have hnot : ¬Effective H checks env s r x := fun h => hpass h.1
    obtain ⟨-, hmethod, -⟩ := routePath_of_mutation hfound
    have hoptions : r.method ≠ "OPTIONS" := by
      rw [hmethod]
      cases x <;> simp [Mutation.method]
    rw [serve_refused hurl hoptions hpass]
    refine iff_of_true ⟨fun h => absurd h (not_changed_limiter _), fun _ => rfl⟩ ?_
    exact ⟨fun h => absurd h hnot, fun _ => hsilent⟩

end

/-! ## Two requests that the trail is wrong about -/

def alice : Claims := ⟨"t", "u", "alice", "operator"⟩

def oneUser : Store where
  tenants := []
  users := ⟨[⟨"u", "", "alice", "", "", "operator", true, false, "", true⟩],
    List.nodup_singleton _⟩
  refreshTokens := Table.empty
  signed := ⟨[alice], List.nodup_singleton _⟩

def oneTunnel : State Bool where
  limiter := RateLimit.newRateLimiter 100 200
  modules m := if m = .stun then ⟨[⟨"x", true⟩], List.nodup_singleton _⟩ else Table.empty
  accounts := oneUser
  audit := []

def plainEnv : Env where
  uuid := "y"
  uuid_ne := by decide
  salt := ""
  fails := false
  auditFails := false
  now := 0

def deleting (header : AuthHeader) : Request Bool where
  method := "DELETE"
  target := "/api/v1/stun/x".toList
  header := header
  visit := RateLimit.visitAt "10.0.0.1" 0
  body := ⟨none, .invalid, .invalid, .invalid⟩

def unchecked : ModuleEvents.Checks Bool := ⟨fun _ => none, fun _ => none, fun _ => none⟩

theorem oneTunnel_passes (header : AuthHeader) :
    (RateLimit.middleware oneTunnel.limiter (deleting header).visit).1 = .passedOn := by
  change (RateLimit.middleware oneTunnel.limiter (RateLimit.visitAt "10.0.0.1" 0)).1 = .passedOn
  decide +kernel

def nobody (_ : Endpoint) (_ : Option Claims) (_ : Request Bool) (s : State Bool) :
    State Bool × Answer := (s, .reply ⟨404, ""⟩)

/-- A deletion without a token, which is told, and one by alice, which is told without her
name. -/
theorem deletions_told_wrongly :
    ¬Faithful plainHasher unchecked plainEnv nobody oneTunnel (deleting ⟨"", none⟩) ∧
      ¬Faithful plainHasher unchecked plainEnv nobody oneTunnel (deleting (bearer alice)) := by
  have hurl : setPath "/api/v1/stun/x".toList = some ⟨"/api/v1/stun/x".toList, []⟩ := by decide
  have hfound : findRoute "DELETE" "/api/v1/stun/x".toList =
      some (.session, .mutation (.delete .stun "x")) := by decide
  have hclaimed : ∀ header, Faithful plainHasher unchecked plainEnv nobody oneTunnel
      (deleting header) → Effective plainHasher unchecked plainEnv oneTunnel (deleting header)
        (.delete .stun "x") ∧ Nameless oneTunnel header := by
    intro header h
    have htold := h (.delete .stun "x") (mutation_eq_some.mpr ⟨_, _, hurl, hfound⟩)
    obtain ⟨s₁, e, haudit, hchanged, htells, hserve⟩ :
        ∃ (s₁ : State Bool) (e : AuditEvent), s₁.audit = oneTunnel.audit ∧ (Changed oneTunnel s₁ ↔
          Effective plainHasher unchecked plainEnv oneTunnel (deleting header) _) ∧ _ :=
      served hurl hfound (oneTunnel_passes header)
    rw [hserve, if_neg (by decide)] at htold
    obtain ⟨heffective, -, hnameless⟩ := (told_iff_of_written haudit hchanged htells).mp htold
    exact ⟨heffective, hnameless⟩
  constructor
  · intro h
    obtain ⟨claims, hpassed⟩ := passed_of_effective (hclaimed _ h).1
    simp [deleting, TokenKinds.authMiddleware] at hpassed
  · intro h
    have hpassed : TokenKinds.authMiddleware oneTunnel.accounts (bearer alice) = .passed alice :=
      authMiddleware_bearer (by simp [oneTunnel, oneUser])
    have hname := ((hclaimed _ h).2 alice hpassed).2
    simp [alice] at hname

end NetBerth.AuditTrail
