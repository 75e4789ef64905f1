import NetBerth.ModuleEvents
import NetBerth.TokenKinds

/-!
# The routes of the API and what guards them

A request names a route by its method and path. The server keeps the path twice, as
it decodes and as it was sent if the two say different things, and the router
prefers what was sent: an escape in an id stays in the id.

The routes come in three groups. The first is open to everybody, the second wants a
token whose user has changed the first password, and the third also wants the
token to carry the role of an admin.

Texts of paths stand for their bytes, one character for each.
-/
namespace NetBerth.Router
open SqlTable Accounts TokenKinds
open ModuleEvents (Module)

abbrev Path := List Char

/-! ## Paths -/

/-- `unhex`, for the characters `ishex` takes. -/
def unhex (c : Char) : Option ℕ :=
  if '0' ≤ c ∧ c ≤ '9' then some (c.toNat - '0'.toNat)
  else if 'a' ≤ c ∧ c ≤ 'f' then some (c.toNat - 'a'.toNat + 10)
  else if 'A' ≤ c ∧ c ≤ 'F' then some (c.toNat - 'A'.toNat + 10)
  else none

def unescape : Path → Option Path
  | [] => some []
  | '%' :: hi :: lo :: rest => do
    let hi ← unhex hi
    let lo ← unhex lo
    let rest ← unescape rest
    return Char.ofNat (16 * hi + lo) :: rest
  | c :: rest => if c = '%' then none else (unescape rest).map (c :: ·)

/-- What may stand in a path as it is. -/
def shouldEscape (c : Char) : Bool :=
  !(c.isAlphanum || c ∈ ['-', '_', '.', '~', '$', '&', '+', ',', '/', ':', ';', '=', '@'])

def upperhex (n : ℕ) : Char := "0123456789ABCDEF".toList.getD n '0'

def escape (path : Path) : Path :=
  path.flatMap fun c =>
    if shouldEscape c then ['%', upperhex (c.toNat / 16), upperhex (c.toNat % 16)] else [c]

structure URL where
  path : Path
  rawPath : Path
  deriving DecidableEq, Repr

/-- `none` is a request line the server refuses. -/
def setPath (p : Path) : Option URL :=
  (unescape p).map fun path => ⟨path, if p = escape path then [] else p⟩

def URL.routePath (u : URL) : Path :=
  if u.rawPath ≠ [] then u.rawPath else if u.path = [] then ['/'] else u.path

/-- The segments with a slash before each. -/
def join (segments : List Path) : Path := segments.flatMap fun p => '/' :: p

theorem eq_append_join {path first : Path} {rest : List Path}
    (h : path.splitOn '/' = first :: rest) : path = first ++ join rest := by
  have hpath : ['/'].intercalate (path.splitOn '/') = path := List.intercalate_splitOn '/'
  rw [← hpath, h]
  clear h hpath
  induction rest generalizing first with
  | nil => simp [join]
  | cons p rest ih =>
    rw [List.intercalate_cons_cons, ih]
    simp [join]

theorem not_mem_of_mem_splitOn {path p : Path} (h : p ∈ path.splitOn '/') : '/' ∉ p := by
  induction path generalizing p with
  | nil =>
    rw [List.splitOn_nil, List.mem_singleton] at h
    simp [h]
  | cons c path ih =>
    rw [List.splitOn_cons_eq_if_modifyHead] at h
    split_ifs at h with hc
    · obtain rfl | h := List.mem_cons.mp h
      · simp
      · exact ih h
    · cases hsplit : path.splitOn '/' with
      | nil => exact absurd hsplit (List.splitOn_ne_nil _ _)
      | cons q qs =>
        rw [hsplit, List.modifyHead_cons] at h
        obtain rfl | h := List.mem_cons.mp h
        · have hq := ih (p := q) (by simp [hsplit])
          simp only [beq_iff_eq] at hc
          exact List.not_mem_cons_of_ne_of_not_mem (Ne.symm hc) hq
        · exact ih (by simp [hsplit, h])

/-- Escapes are decoded one by one. -/
theorem unescape_cons {c : Char} (hc : c ≠ '%') (path : Path) :
    unescape (c :: path) = (unescape path).map (c :: ·) := by
  rw [unescape]
  · simp [hc]
  · rintro hi lo rest rfl
    simp at hc

theorem unescape_append {a : Path} (ha : '%' ∉ a) (b : Path) :
    unescape (a ++ b) = (unescape b).map (a ++ ·) := by
  induction a with
  | nil => simp
  | cons c a ih =>
    rw [List.mem_cons, not_or] at ha
    rw [List.cons_append, unescape_cons (Ne.symm ha.1), ih ha.2, Option.map_map]
    rfl

theorem unescape_eq_self {path : Path} (h : '%' ∉ path) : unescape path = some path := by
  simpa [unescape] using unescape_append h []

/-- Decoding keeps a text only if it has no escape. -/
theorem length_unescape {path path' : Path} (h : unescape path = some path') :
    path'.length ≤ path.length ∧ ('%' ∈ path → path'.length < path.length) := by
  fun_induction unescape path generalizing path' with
  | case1 =>
    cases h
    simp
  | case2 hi lo rest ih =>
    simp only [Option.bind_eq_bind, Option.pure_def, Option.bind_eq_some_iff,
      Option.some.injEq] at h
    obtain ⟨_, -, _, -, rest', hrest, rfl⟩ := h
    have hlen := (ih hrest).1
    simp only [List.length_cons]
    omega
  | case3 rest => cases h
  | case4 c rest hc hne ih =>
    obtain ⟨rest', hrest, rfl⟩ := Option.map_eq_some_iff.mp h
    obtain ⟨hle, hlt⟩ := ih hrest
    simp only [List.length_cons, List.mem_cons]
    refine ⟨by omega, ?_⟩
    rintro (rfl | hmem)
    · exact absurd rfl hne
    · exact Nat.add_lt_add_right (hlt hmem) 1

/-! ## Routes -/

/-- The handlers that write to a table of the nine resources, or look as if they did. -/
inductive Mutation where
  | create (m : Module)
  | update (m : Module) (id : ID)
  | delete (m : Module) (id : ID)
  | wake (id : ID)
  | createUser
  | updateUser (id : ID)
  | deleteUser (id : ID)
  | resetPassword (id : ID)
  deriving DecidableEq, Repr

inductive Endpoint where
  | mutation (x : Mutation)
  | status
  | metrics
  | login
  | docs
  | refreshToken
  | handleWS
  | ui
  | setup2FA
  | enable2FA
  | disable2FA
  | licenseStatus
  | licenseActivate
  | me
  | changePassword
  | logout
  | dashboard
  | download
  | restore
  | list (m : Module)
  | listAudit
  | listUsers
  | listWebhooks
  | createWebhook
  | updateWebhook (id : ID)
  | deleteWebhook (id : ID)
  | testWebhook (id : ID)
  deriving DecidableEq, Repr

inductive Group where
  | open
  | session
  | admin
  deriving DecidableEq, Repr

inductive Segment where
  | name (s : String)
  | id
  deriving DecidableEq, Repr

structure Route where
  method : String
  pattern : List Segment
  endpoint : ID → Endpoint

/-- The id in the path, or no text at all. A parameter at the end takes at least one
character, one in the middle also none. -/
def Segment.matchPath : List Segment → List Path → Option ID
  | [], [] => some ""
  | .name s :: pattern, p :: ps => if p = s.toList then matchPath pattern ps else none
  | [.id], [p] => if p = [] then none else some (String.ofList p)
  | .id :: next :: pattern, p :: ps =>
    (matchPath (next :: pattern) ps).map fun _ => String.ofList p
  | _, _ => none

example : Segment.matchPath [.name "users", .id] ["users".toList, "a".toList] = some "a" := by
  simp [Segment.matchPath]

def pathOf : Module → String
  | .forward => "forward-rules"
  | .proxy => "proxy-rules"
  | .ddns => "ddns"
  | .stun => "stun"
  | .wol => "wol"
  | .cron => "cron"
  | .acme => "acme"
  | .storage => "storage"

def registerCRUD (m : Module) : List Route :=
  [⟨"GET", [.name (pathOf m)], fun _ => .list m⟩,
    ⟨"POST", [.name (pathOf m)], fun _ => .mutation (.create m)⟩,
    ⟨"PUT", [.name (pathOf m), .id], fun id => .mutation (.update m id)⟩,
    ⟨"DELETE", [.name (pathOf m), .id], fun id => .mutation (.delete m id)⟩]

/-- The public endpoints. -/
def openRoutes : List Route :=
  [⟨"GET", [.name "system", .name "status"], fun _ => .status⟩,
    ⟨"GET", [.name "system", .name "metrics"], fun _ => .metrics⟩,
    ⟨"POST", [.name "auth", .name "login"], fun _ => .login⟩,
    ⟨"GET", [.name "docs"], fun _ => .docs⟩,
    ⟨"POST", [.name "auth", .name "refresh"], fun _ => .refreshToken⟩,
    ⟨"GET", [.name "ws"], fun _ => .handleWS⟩]

/-- The protected endpoints, without those of the innermost group. -/
def sessionRoutes : List Route :=
  [⟨"GET", [.name "auth", .name "2fa", .name "setup"], fun _ => .setup2FA⟩,
    ⟨"POST", [.name "auth", .name "2fa", .name "enable"], fun _ => .enable2FA⟩,
    ⟨"POST", [.name "auth", .name "2fa", .name "disable"], fun _ => .disable2FA⟩,
    ⟨"GET", [.name "license", .name "status"], fun _ => .licenseStatus⟩,
    ⟨"POST", [.name "license", .name "activate"], fun _ => .licenseActivate⟩,
    ⟨"GET", [.name "auth", .name "me"], fun _ => .me⟩,
    ⟨"POST", [.name "auth", .name "change-password"], fun _ => .changePassword⟩,
    ⟨"POST", [.name "auth", .name "logout"], fun _ => .logout⟩,
    ⟨"GET", [.name "system", .name "dashboard"], fun _ => .dashboard⟩,
    ⟨"GET", [.name "system", .name "backup"], fun _ => .download⟩,
    ⟨"POST", [.name "system", .name "restore"], fun _ => .restore⟩] ++
  registerCRUD .forward ++ registerCRUD .proxy ++ registerCRUD .ddns ++ registerCRUD .stun ++
  registerCRUD .wol ++ [⟨"POST", [.name "wol", .id, .name "wake"], fun id => .mutation (.wake id)⟩] ++
  registerCRUD .cron ++ registerCRUD .acme ++ registerCRUD .storage

/-- User management is admin-only. -/
def adminRoutes : List Route :=
  [⟨"GET", [.name "audit"], fun _ => .listAudit⟩,
    ⟨"GET", [.name "users"], fun _ => .listUsers⟩,
    ⟨"POST", [.name "users"], fun _ => .mutation .createUser⟩,
    ⟨"PUT", [.name "users", .id], fun id => .mutation (.updateUser id)⟩,
    ⟨"DELETE", [.name "users", .id], fun id => .mutation (.deleteUser id)⟩,
    ⟨"POST", [.name "users", .id, .name "reset-password"], fun id =>
      .mutation (.resetPassword id)⟩,
    ⟨"GET", [.name "webhooks"], fun _ => .listWebhooks⟩,
    ⟨"POST", [.name "webhooks"], fun _ => .createWebhook⟩,
    ⟨"PUT", [.name "webhooks", .id], fun id => .updateWebhook id⟩,
    ⟨"DELETE", [.name "webhooks", .id], fun id => .deleteWebhook id⟩,
    ⟨"POST", [.name "webhooks", .id, .name "test"], fun id => .testWebhook id⟩]

def findIn (routes : List Route) (method : String) (segments : List Path) : Option Endpoint :=
  routes.findSome? fun r =>
    if r.method = method then (Segment.matchPath r.pattern segments).map r.endpoint else none

/-- The route below the mount point, with the group it is in. -/
def findAPI (method : String) (segments : List Path) : Option (Group × Endpoint) :=
  ((findIn openRoutes method segments).map (Prod.mk .open)).or
    (((findIn sessionRoutes method segments).map (Prod.mk .session)).or
      ((findIn adminRoutes method segments).map (Prod.mk .admin)))

/-- `none` is a path or a method that no route has. -/
def findRoute (method : String) (path : Path) : Option (Group × Endpoint) :=
  match path.splitOn '/' with
  | [] :: api :: v1 :: segments =>
    if api = "api".toList ∧ v1 = "v1".toList then findAPI method segments
    else if method = "GET" then some (.open, .ui) else none
  | [] :: _ => if method = "GET" then some (.open, .ui) else none
  | _ => none

/-! ## Guards -/

structure Reply where
  status : ℕ
  body : String
  deriving DecidableEq, Repr

/-- The answer where no route fits: the path has routes with other methods, or none. -/
def unrouted (path : Path) : Reply :=
  if ["GET", "POST", "PUT", "DELETE"].any fun method => (findRoute method path).isSome then ⟨405, ""⟩
  else ⟨404, "404 page not found\n"⟩

/-- The paths that a user with an initial password may still ask for. -/
def exempt (path : Path) : Bool :=
  ["/api/v1/auth/login", "/api/v1/auth/change-password", "/api/v1/auth/2fa/", "/api/v1/auth/me",
    "/api/v1/system/status"].any fun p => p.toList.isPrefixOf path

def forcePasswordChange (s : Store) (claims : Claims) (path : Path) : Option Reply :=
  if exempt path then none
  else if s.users.count (fun u => u.id = claims.userID && u.passwordChanged) = 0 then
    some ⟨403,
      "\x7b\"error\":\"password change required\",\"redirect\":\"/settings\"\x7d"⟩
  else none

def requireRole (roles : List String) (claims : Claims) : Option Reply :=
  if claims.role ∈ roles then none
  else some ⟨403, "\x7b\"error\":\"insufficient permissions\"\x7d"⟩

/-- The claims that the handler finds in the context of its request. -/
def authorize (s : Store) (group : Group) (header : AuthHeader) (path : Path) :
    Except Reply (Option Claims) :=
  match group with
  | .open => .ok none
  | .session =>
    match authMiddleware s header with
    | .refused message status => .error ⟨status, message⟩
    | .passed claims =>
      match forcePasswordChange s claims path with
      | some reply => .error reply
      | none => .ok (some claims)
  | .admin =>
    match authMiddleware s header with
    | .refused message status => .error ⟨status, message⟩
    | .passed claims =>
      match forcePasswordChange s claims path with
      | some reply => .error reply
      | none =>
        match requireRole ["admin"] claims with
        | some reply => .error reply
        | none => .ok (some claims)

/-- Everything a request has that gets past the guards of its group. -/
theorem authorize_cases {t : Store} {group : Group} {header : AuthHeader} {path : Path}
    {claims : Option Claims} (h : authorize t group header path = .ok claims) :
    group = .open ∧ claims = none ∨
      ∃ c, claims = some c ∧ authMiddleware t header = .passed c ∧
        (group = .admin → c.role = "admin") := by
  cases group with
  | «open» =>
    cases h
    exact .inl ⟨rfl, rfl⟩
  | session =>
    simp only [authorize] at h
    split at h
    · cases h
    · split at h
      · cases h
      · cases h
        exact .inr ⟨_, rfl, ‹_›, nofun⟩
  | admin =>
    simp only [authorize] at h
    split at h
    · cases h
    · split at h
      · cases h
      · split at h
        · cases h
        · rename_i hrole
          cases h
          refine .inr ⟨_, rfl, ‹_›, fun _ => ?_⟩
          by_contra hne
          simp [requireRole, hne] at hrole

/-- Outside of the open group a handler finds the claims of the token. -/
theorem authorize_passed {t : Store} {group : Group} {header : AuthHeader} {path : Path}
    {claims : Option Claims} (hgroup : group ≠ .open) (h : authorize t group header path = .ok claims) :
    ∃ c, claims = some c ∧ authMiddleware t header = .passed c := by
  obtain ⟨hopen, -⟩ | ⟨c, hc, hpassed, -⟩ := authorize_cases h
  · exact absurd hopen hgroup
  · exact ⟨c, hc, hpassed⟩

/-! ## Where the mutations are -/

def Mutation.method : Mutation → String
  | .create _ | .wake _ | .createUser | .resetPassword _ => "POST"
  | .update _ _ | .updateUser _ => "PUT"
  | .delete _ _ | .deleteUser _ => "DELETE"

def Mutation.kind : Mutation → String
  | .create m | .update m _ | .delete m _ => pathOf m
  | .wake _ => "wol"
  | .createUser | .updateUser _ | .deleteUser _ | .resetPassword _ => "users"

/-- The segments after the name of the resource. -/
def Mutation.segments : Mutation → List Path
  | .create _ | .createUser => []
  | .update _ id | .delete _ id | .updateUser id | .deleteUser id => [id.toList]
  | .wake id => [id.toList, "wake".toList]
  | .resetPassword id => [id.toList, "reset-password".toList]

/-- The method and the segments are those of the mutation. -/
structure Mutation.At (x : Mutation) (method : String) (segments : List Path) : Prop where
  method_eq : method = x.method
  segments_eq : segments = x.kind.toList :: x.segments

section
variable {segments : List Path} {id : ID} {s t : String}

theorem matchPath_name :
    Segment.matchPath [.name s] segments = some id ↔ segments = [s.toList] ∧ id = "" := by
  match segments with
  | [] => simp [Segment.matchPath]
  | [p] => simp [Segment.matchPath, eq_comm]
  | p :: q :: ps => simp [Segment.matchPath]

theorem matchPath_name_id : Segment.matchPath [.name s, .id] segments = some id ↔
    id.toList ≠ [] ∧ segments = [s.toList, id.toList] := by
  match segments with
  | [] => simp [Segment.matchPath]
  | [p] => by_cases h : p = s.toList <;> simp [Segment.matchPath, h]
  | [p, q] =>
    by_cases h : p = s.toList
    · by_cases hq : q = []
      · simp [Segment.matchPath, h, hq]
      · simp only [Segment.matchPath, h, hq, if_true, if_false, Option.some.injEq]
        constructor
        · rintro rfl
          simp [hq]
        · rintro ⟨-, he⟩
          obtain rfl : q = id.toList := by simpa using he
          exact String.ofList_toList
    · simp [Segment.matchPath, h]
  | p :: q :: r :: ps => by_cases h : p = s.toList <;> simp [Segment.matchPath, h]

theorem matchPath_name_id_name : Segment.matchPath [.name s, .id, .name t] segments = some id ↔
    segments = [s.toList, id.toList, t.toList] := by
  match segments with
  | [] => simp [Segment.matchPath]
  | [p] => by_cases h : p = s.toList <;> simp [Segment.matchPath, h]
  | p :: q :: ps =>
    by_cases h : p = s.toList
    · simp only [Segment.matchPath, h, if_true, Option.map_eq_some_iff, matchPath_name]
      constructor
      · rintro ⟨a, ⟨rfl, -⟩, rfl⟩
        simp
      · intro he
        obtain ⟨rfl, rfl⟩ : q = id.toList ∧ ps = [t.toList] := by simpa using he
        exact ⟨"", ⟨rfl, rfl⟩, String.ofList_toList⟩
    · simp [Segment.matchPath, h]

end

/-- What the route says of the mutations it leads to. -/
def Route.Located (r : Route) : Prop :=
  ∀ segments id x, Segment.matchPath r.pattern segments = some id →
    r.endpoint id = .mutation x → x.At r.method segments

theorem located_of_ne {r : Route} (h : ∀ id x, r.endpoint id ≠ .mutation x) : r.Located :=
  fun _ id x _ hx => absurd hx (h id x)

/-- The resource alone, a resource by its id, and an action on such a one. -/
theorem located_name {method s : String} {x : Mutation} (hmethod : method = x.method)
    (hkind : s = x.kind) (hsegments : x.segments = []) :
    Route.Located ⟨method, [.name s], fun _ => .mutation x⟩ := by
  intro segments id y hmatch hy
  cases hy
  refine ⟨hmethod, ?_⟩
  rw [(matchPath_name.mp hmatch).1, hkind, hsegments]

theorem located_name_id {method s : String} {x : ID → Mutation}
    (hmethod : ∀ id, method = (x id).method) (hkind : ∀ id, s = (x id).kind)
    (hsegments : ∀ id, (x id).segments = [id.toList]) :
    Route.Located ⟨method, [.name s, .id], fun id => .mutation (x id)⟩ := by
  intro segments id y hmatch hy
  cases hy
  refine ⟨hmethod id, ?_⟩
  rw [(matchPath_name_id.mp hmatch).2, hkind id, hsegments]

theorem located_name_id_name {method s t : String} {x : ID → Mutation}
    (hmethod : ∀ id, method = (x id).method) (hkind : ∀ id, s = (x id).kind)
    (hsegments : ∀ id, (x id).segments = [id.toList, t.toList]) :
    Route.Located ⟨method, [.name s, .id, .name t], fun id => .mutation (x id)⟩ := by
  intro segments id y hmatch hy
  cases hy
  refine ⟨hmethod id, ?_⟩
  rw [matchPath_name_id_name.mp hmatch, hkind id, hsegments]

theorem located_registerCRUD (m : Module) : ∀ r ∈ registerCRUD m, r.Located := by
  simp only [registerCRUD, List.forall_mem_cons, List.not_mem_nil, IsEmpty.forall_iff,
    implies_true, and_true]
  and_intros
  · exact located_of_ne nofun
  · exact located_name rfl rfl rfl
  · exact located_name_id (fun _ => rfl) (fun _ => rfl) fun _ => rfl
  · exact located_name_id (fun _ => rfl) (fun _ => rfl) fun _ => rfl

theorem openRoutes_ne : ∀ r ∈ openRoutes, ∀ id x, r.endpoint id ≠ .mutation x := by
  simp only [openRoutes, List.forall_mem_cons, List.not_mem_nil, IsEmpty.forall_iff,
    implies_true, and_true]
  and_intros <;> exact nofun

theorem located_sessionRoutes : ∀ r ∈ sessionRoutes, r.Located := by
  simp only [sessionRoutes, List.forall_mem_append, List.forall_mem_cons, List.not_mem_nil,
    IsEmpty.forall_iff, implies_true, and_true]
  and_intros
  all_goals first
    | exact located_registerCRUD _
    | exact located_name_id_name (fun _ => rfl) (fun _ => rfl) fun _ => rfl
    | exact located_of_ne nofun

theorem located_adminRoutes : ∀ r ∈ adminRoutes, r.Located := by
  simp only [adminRoutes, List.forall_mem_cons, List.not_mem_nil, IsEmpty.forall_iff,
    implies_true, and_true]
  and_intros
  all_goals first
    | exact located_name rfl rfl rfl
    | exact located_name_id (fun _ => rfl) (fun _ => rfl) fun _ => rfl
    | exact located_name_id_name (fun _ => rfl) (fun _ => rfl) fun _ => rfl
    | exact located_of_ne nofun

theorem exists_of_findIn {routes : List Route} {method : String} {segments : List Path}
    {e : Endpoint} (h : findIn routes method segments = some e) : ∃ r ∈ routes, ∃ id,
      r.method = method ∧ Segment.matchPath r.pattern segments = some id ∧ r.endpoint id = e := by
  obtain ⟨r, hr, hfound⟩ := List.exists_of_findSome?_eq_some h
  split_ifs at hfound with hmethod
  obtain ⟨id, hmatch, he⟩ := Option.map_eq_some_iff.mp hfound
  exact ⟨r, hr, id, hmethod, hmatch, he⟩

theorem at_of_findIn {routes : List Route} (hroutes : ∀ r ∈ routes, r.Located) {method : String}
    {segments : List Path} {x : Mutation} (h : findIn routes method segments = some (.mutation x)) :
    x.At method segments := by
  obtain ⟨r, hr, id, rfl, hmatch, hx⟩ := exists_of_findIn h
  exact hroutes r hr segments id x hmatch hx

theorem findAPI_cases {method : String} {segments : List Path} {g : Group} {e : Endpoint}
    (h : findAPI method segments = some (g, e)) :
    g = .open ∧ findIn openRoutes method segments = some e ∨
      g = .session ∧ findIn sessionRoutes method segments = some e ∨
      g = .admin ∧ findIn adminRoutes method segments = some e := by
  have hgroup : ∀ {routes : List Route} {g' : Group},
      (findIn routes method segments).map (Prod.mk g') = some (g, e) →
      g = g' ∧ findIn routes method segments = some e := by
    intro routes g' hmap
    obtain ⟨e', hfound, he⟩ := Option.map_eq_some_iff.mp hmap
    cases he
    exact ⟨rfl, hfound⟩
  unfold findAPI at h
  rcases Option.or_eq_some_iff.mp h with h | ⟨-, h⟩
  · exact .inl (hgroup h)
  rcases Option.or_eq_some_iff.mp h with h | ⟨-, h⟩
  · exact .inr (.inl (hgroup h))
  · exact .inr (.inr (hgroup h))

/-- No mutation is open to everybody. -/
theorem at_of_findAPI {method : String} {segments : List Path} {g : Group} {x : Mutation}
    (h : findAPI method segments = some (g, .mutation x)) :
    g ≠ .open ∧ x.At method segments := by
  obtain ⟨-, hfound⟩ | ⟨rfl, hfound⟩ | ⟨rfl, hfound⟩ := findAPI_cases h
  · obtain ⟨r, hr, id, -, -, hx⟩ := exists_of_findIn hfound
    exact absurd hx (openRoutes_ne r hr id x)
  · exact ⟨nofun, at_of_findIn located_sessionRoutes hfound⟩
  · exact ⟨nofun, at_of_findIn located_adminRoutes hfound⟩

theorem at_of_findRoute {method : String} {path : Path} {g : Group} {x : Mutation}
    (h : findRoute method path = some (g, .mutation x)) : g ≠ .open ∧ ∃ segments : List Path,
      path.splitOn '/' = [] :: "api".toList :: "v1".toList :: segments ∧ x.At method segments := by
  unfold findRoute at h
  split at h
  · rename_i api v1 segments hsplit
    split_ifs at h with hmount hget
    · obtain ⟨rfl, rfl⟩ := hmount
      exact ⟨(at_of_findAPI h).1, segments, hsplit, (at_of_findAPI h).2⟩
    · cases h
  · split_ifs at h
    cases h
  · cases h

theorem kind_registerCRUD (m : Module) : ∀ r ∈ registerCRUD m, ∀ id x,
    r.endpoint id = .mutation x → x.kind ≠ "users" := by
  have hpath : pathOf m ≠ "users" := by cases m <;> decide
  simp [registerCRUD, Mutation.kind, hpath]

theorem kind_sessionRoutes : ∀ r ∈ sessionRoutes, ∀ id x,
    r.endpoint id = .mutation x → x.kind ≠ "users" := by
  simp only [sessionRoutes, List.forall_mem_append, List.forall_mem_cons, List.not_mem_nil,
    IsEmpty.forall_iff, implies_true, and_true]
  and_intros
  all_goals first
    | exact kind_registerCRUD _
    | simp [Mutation.kind]

/-- User management is admin-only. -/
theorem group_of_users {method : String} {path : Path} {g : Group} {x : Mutation}
    (h : findRoute method path = some (g, .mutation x)) (hkind : x.kind = "users") :
    g = .admin := by
  obtain ⟨hopen, segments, hsplit, -⟩ := at_of_findRoute h
  have hfound : findAPI method segments = some (g, .mutation x) := by
    simpa [findRoute, hsplit] using h
  obtain ⟨rfl, -⟩ | ⟨-, hsession⟩ | ⟨rfl, -⟩ := findAPI_cases hfound
  · exact absurd rfl hopen
  · obtain ⟨r, hr, id, -, -, hx⟩ := exists_of_findIn hsession
    exact absurd hkind (kind_sessionRoutes r hr id x hx)
  · rfl

/-- The path of the route decodes to the path, if it is not the same. -/
theorem routePath_cases {p : Path} {url : URL} (h : setPath p = some url) :
    url.path = url.routePath ∨ url.routePath = ['/'] ∨
      unescape url.routePath = some url.path := by
  obtain ⟨path, hpath, rfl⟩ := Option.map_eq_some_iff.mp h
  unfold URL.routePath
  dsimp only
  split_ifs with hsame hraw hnil hraw
  · exact absurd rfl hraw
  · exact .inr (.inl rfl)
  · exact .inl rfl
  · exact .inr (.inr hpath)
  · exact .inr (.inl rfl)
  · exact .inl rfl

theorem routePath_of_mutation {method : String} {path : Path} {g : Group} {x : Mutation}
    (h : findRoute method path = some (g, .mutation x)) : g ≠ .open ∧ method = x.method ∧
      path = "/api/v1/".toList ++ (x.kind.toList ++ join x.segments) ∧
      ∀ id, x.segments = [id] → '/' ∉ id := by
  obtain ⟨hgroup, segments, hsplit, hat⟩ := at_of_findRoute h
  refine ⟨hgroup, hat.method_eq, ?_, ?_⟩
  · rw [eq_append_join hsplit, hat.segments_eq]
    simp [join]
  · intro id hid
    have hmem : id ∈ path.splitOn '/' := by simp [hsplit, hat.segments_eq, hid]
    exact not_mem_of_mem_splitOn hmem

end NetBerth.Router
