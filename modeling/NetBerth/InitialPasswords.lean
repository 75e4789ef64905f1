import NetBerth.AdminOnly

/-!
# Users with an initial password

Until the initial password of a user is changed, the guard of the second and the third group of
routes lets the user through to a few paths only. The guard compares the beginning of the path as
it decodes, and the router the path as it was sent, so the two have to agree on what is behind
these beginnings.

They do: of the routes that want a token there are five, which are about the user's own password
and second factor. So as long as no user with another password calls, admins included, the tables
that are not about users change only as everybody could change them, the audit events apart, and no
list of users and no backup is sent.
-/
namespace NetBerth.InitialPasswords
open SqlTable Accounts TokenKinds Router AdminOnly Transitions

/-! ## Paths -/

/-- The path that the guard looks at, for the path of the route. -/
def Shown (routePath path : Path) : Prop := path = routePath ∨ unescape routePath = some path

theorem Shown.append {a b path : Path} (ha : '%' ∉ a) (h : Shown (a ++ b) path) :
    ∃ tail, path = a ++ tail := by
  rcases h with rfl | h
  · exact ⟨b, rfl⟩
  · rw [unescape_append ha] at h
    obtain ⟨tail, -, rfl⟩ := Option.map_eq_some_iff.mp h
    exact ⟨tail, rfl⟩

theorem Shown.eq {a path : Path} (ha : '%' ∉ a) (h : Shown a path) : path = a := by
  rcases h with rfl | h
  · rfl
  · rw [unescape_eq_self ha] at h
    exact (Option.some.inj h).symm

/-- The mount point and the segments below it. -/
def below (segments : List Path) : Path := "/api/v1".toList ++ join segments

theorem below_cons (p : Path) (segments : List Path) :
    below (p :: segments) = ("/api/v1/".toList ++ p) ++ join segments := by
  have hmount : "/api/v1/".toList = "/api/v1".toList ++ ['/'] := by simp
  have hjoin : join (p :: segments) = ['/'] ++ (p ++ join segments) := by
    rw [join, List.flatMap_cons]
    rfl
  unfold below
  rw [hmount, hjoin]
  generalize "/api/v1".toList = mount
  simp only [List.append_assoc]

theorem join_mounted (segments : List Path) :
    [] ++ join ("api".toList :: "v1".toList :: segments) = below segments := by
  have hmount : join ["api".toList, "v1".toList] = "/api/v1".toList := by simp [join]
  unfold below
  rw [← hmount]
  generalize "api".toList = api, "v1".toList = v1
  simp only [join, List.flatMap_cons, List.flatMap_nil, List.nil_append, List.append_nil,
    List.append_assoc]

/-! ## Routes -/

/-- The endpoints with a token that a user with an initial password can get to. -/
def ownEndpoints : List Endpoint := [.setup2FA, .enable2FA, .disable2FA, .me, .changePassword]

/-- The endpoints without one. -/
def openEndpoints : List Endpoint :=
  [.status, .metrics, .login, .docs, .refreshToken, .handleWS, .ui]

/-- The guard lets no one through to the route who is not to get there. -/
def Route.Guarded (r : Route) : Prop :=
  ∀ segments id path, Segment.matchPath r.pattern segments = some id →
    Shown (below segments) path → exempt path = true → r.endpoint id ∈ ownEndpoints

theorem segments_of_match {s : String} {pattern : List Segment} {segments : List Path} {id : ID}
    (h : Segment.matchPath (.name s :: pattern) segments = some id) :
    ∃ rest, segments = s.toList :: rest := by
  match segments with
  | [] => simp [Segment.matchPath] at h
  | p :: rest =>
    by_cases hp : p = s.toList
    · exact ⟨rest, by rw [hp]⟩
    · simp [Segment.matchPath, hp] at h

theorem segments_of_names {names : List String} {segments : List Path} {id : ID}
    (h : Segment.matchPath (names.map .name) segments = some id) :
    segments = names.map String.toList := by
  induction names generalizing segments id with
  | nil =>
    cases segments with
    | nil => rfl
    | cons p rest => simp [Segment.matchPath] at h
  | cons s names ih =>
    cases segments with
    | nil => simp [Segment.matchPath] at h
    | cons p rest =>
      by_cases hp : p = s.toList
      · simp only [List.map_cons, Segment.matchPath, hp, if_true] at h
        rw [hp, ih h, List.map_cons]
      · simp [Segment.matchPath, hp] at h

/-- Below another name than those of the sessions and the system. -/
theorem guarded_of_name {method s : String} {pattern : List Segment} {endpoint : ID → Endpoint}
    (hs : '%' ∉ "/api/v1/".toList ++ s.toList)
    (hexempt : ∀ tail, exempt (("/api/v1/".toList ++ s.toList) ++ tail) = false) :
    Route.Guarded ⟨method, .name s :: pattern, endpoint⟩ := by
  intro segments id path hmatch hshown hpath
  obtain ⟨rest, rfl⟩ := segments_of_match hmatch
  rw [below_cons] at hshown
  obtain ⟨tail, rfl⟩ := hshown.append hs
  rw [hexempt tail] at hpath
  cases hpath

/-- Names only: the path is that of the route. -/
theorem guarded_of_names {method : String} (names : List String) {e : Endpoint}
    (hnames : '%' ∉ below (names.map String.toList))
    (hown : exempt (below (names.map String.toList)) = true → e ∈ ownEndpoints) :
    Route.Guarded ⟨method, names.map .name, fun _ => e⟩ := by
  intro segments id path hmatch hshown hpath
  obtain rfl := segments_of_names hmatch
  rw [hshown.eq hnames] at hpath
  exact hown hpath

theorem guarded_registerCRUD (m : ModuleEvents.Module) : ∀ r ∈ registerCRUD m, Route.Guarded r := by
  simp only [registerCRUD, List.forall_mem_cons, List.not_mem_nil, IsEmpty.forall_iff,
    implies_true, and_true]
  and_intros
  all_goals
    refine guarded_of_name ?_ fun tail => ?_
    · cases m <;> decide
    · cases m <;> rfl

theorem guarded_sessionRoutes : ∀ r ∈ sessionRoutes, Route.Guarded r := by
  simp only [sessionRoutes, List.forall_mem_append, List.forall_mem_cons, List.not_mem_nil,
    IsEmpty.forall_iff, implies_true, and_true]
  and_intros
  · exact guarded_of_names ["auth", "2fa", "setup"] (by decide) (by decide)
  · exact guarded_of_names ["auth", "2fa", "enable"] (by decide) (by decide)
  · exact guarded_of_names ["auth", "2fa", "disable"] (by decide) (by decide)
  · exact guarded_of_names ["license", "status"] (by decide) (by decide)
  · exact guarded_of_names ["license", "activate"] (by decide) (by decide)
  · exact guarded_of_names ["auth", "me"] (by decide) (by decide)
  · exact guarded_of_names ["auth", "change-password"] (by decide) (by decide)
  · exact guarded_of_names ["auth", "logout"] (by decide) (by decide)
  · exact guarded_of_names ["system", "dashboard"] (by decide) (by decide)
  · exact guarded_of_names ["system", "backup"] (by decide) (by decide)
  · exact guarded_of_names ["system", "restore"] (by decide) (by decide)
  all_goals first
    | exact guarded_registerCRUD _
    | exact guarded_of_name (by decide) fun _ => rfl

theorem guarded_adminRoutes : ∀ r ∈ adminRoutes, Route.Guarded r := by
  simp only [adminRoutes, List.forall_mem_cons, List.not_mem_nil, IsEmpty.forall_iff,
    implies_true, and_true]
  and_intros
  all_goals exact guarded_of_name (by decide) fun _ => rfl

/-- Who is let through without a changed password asks for one of the five. -/
theorem mem_ownEndpoints {target : Path} {url : URL} (hurl : setPath target = some url)
    {method : String} {g : Group} {e : Endpoint}
    (hfound : findRoute method url.routePath = some (g, e)) (hg : g ≠ .open)
    (hexempt : exempt url.path = true) : e ∈ ownEndpoints := by
  unfold findRoute at hfound
  split at hfound
  · rename_i api v1 segments hsplit
    split_ifs at hfound with hmount hget
    · obtain ⟨rfl, rfl⟩ := hmount
      have hbelow : url.routePath = below segments :=
        (eq_append_join hsplit).trans (join_mounted segments)
      have hshown : Shown (below segments) url.path := by
        rw [← hbelow]
        rcases routePath_cases hurl with h | h | h
        · exact .inl h
        · have hroot : (['/'] : Path).splitOn '/' = [[], []] := by decide
          rw [h, hroot] at hsplit
          simp at hsplit
        · exact .inr h
      obtain ⟨hopen, -⟩ | ⟨-, hfound⟩ | ⟨-, hfound⟩ := findAPI_cases hfound
      · exact absurd hopen hg
      · obtain ⟨r, hr, id, -, hmatch, rfl⟩ := exists_of_findIn hfound
        exact guarded_sessionRoutes r hr segments id url.path hmatch hshown hexempt
      · obtain ⟨r, hr, id, -, hmatch, rfl⟩ := exists_of_findIn hfound
        exact guarded_adminRoutes r hr segments id url.path hmatch hshown hexempt
    · cases hfound
      exact absurd rfl hg
  · split_ifs at hfound
    cases hfound
    exact absurd rfl hg
  · cases hfound

theorem mem_openEndpoints {method : String} {path : Path} {e : Endpoint}
    (hfound : findRoute method path = some (.open, e)) : e ∈ openEndpoints := by
  have hroutes : ∀ r ∈ openRoutes, ∀ id, r.endpoint id ∈ openEndpoints := by
    simp [openRoutes, openEndpoints]
  unfold findRoute at hfound
  split at hfound
  · split_ifs at hfound
    · obtain ⟨-, hfound⟩ | ⟨hg, -⟩ | ⟨hg, -⟩ := findAPI_cases hfound
      · obtain ⟨r, hr, id, -, -, rfl⟩ := exists_of_findIn hfound
        exact hroutes r hr id
      · cases hg
      · cases hg
    · cases hfound
      simp [openEndpoints]
  · split_ifs at hfound
    cases hfound
    simp [openEndpoints]
  · cases hfound

/-! ## Requests -/

section
variable {σ : Type} {P : Program σ} {env : Env} {s : System σ} {caller : Option ID}

/-- The user of a token has not changed the password. -/
def Initial (s : Store) (claims : Claims) : Prop :=
  s.users.count (fun u => u.id = claims.userID && u.passwordChanged) = 0

theorem exempt_of_authorize {group : Group} {header : AuthHeader} {path : Path}
    {claims : Option Claims} (h : authorize s.accounts group header path = .ok claims)
    (hgroup : group ≠ .open) (hinitial : ∀ c, authMiddleware s.accounts header = .passed c →
      Initial s.accounts c) : exempt path = true := by
  by_contra hexempt
  obtain ⟨c, -, hpassed⟩ := authorize_passed hgroup h
  have hforced : forcePasswordChange s.accounts c path ≠ none := by
    have hcount : s.accounts.users.count (fun u => u.id = c.userID && u.passwordChanged) = 0 :=
      hinitial c hpassed
    rw [forcePasswordChange, if_neg hexempt, if_pos hcount]
    exact Option.some_ne_none _
  cases group with
  | «open» => exact hgroup rfl
  | session | admin =>
    simp only [authorize, hpassed] at h
    cases hreply : forcePasswordChange s.accounts c path with
    | none => exact hforced hreply
    | some reply =>
      rw [hreply] at h
      cases h

/-- A list of users, or a backup. -/
def Answer.isWhole : Answer σ → Bool
  | .users _ | .file _ => true
  | _ => false

/-- One call of a handler that everybody may call. -/
def OpenCall (P : Program σ) (rest rest' : σ) : Prop :=
  ∃ e ∈ openEndpoints, ∃ text, rest' = (P.others e none text rest).1

/-- What a request does whose user has an initial password. -/
structure Reserved (P : Program σ) (s : System σ) (caller : Option ID) (t : System σ × Answer σ) :
    Prop extends Kept s caller t where
  rest : t.1.db.rest = s.db.rest ∨ OpenCall P s.db.rest t.1.db.rest
  part : Answer.isWhole t.2 = false

theorem isWhole_answerOf (p : Proc) : Answer.isWhole (answerOf p : Answer σ) = false := by
  cases p with
  | done response => cases response <;> rfl
  | _ => rfl

theorem isWhole_twoFactorAnswer (p : TwoFactor.Proc) :
    Answer.isWhole (twoFactorAnswer caller p : Answer σ) = false := by
  cases p with
  | done response => cases response <;> rfl
  | _ => rfl

theorem isWhole_me : Answer.isWhole (me s caller) = false := by
  unfold me
  split
  · rfl
  · split <;> rfl

theorem handle_reserved {e : Endpoint} {claims : Option Claims} {body : Bodies σ}
    (he : e ∈ ownEndpoints ∨ e ∈ openEndpoints ∧ claims = none) :
    Reserved P s (claims.map Claims.userID) (handle P env s claims body e) := by
  have hkept : Kept s (claims.map Claims.userID) (handle P env s claims body e) := by
    refine handle_kept ?_ ?_ ?_
    · rintro rfl
      simp [ownEndpoints, openEndpoints] at he
    · rintro rfl
      simp [ownEndpoints, openEndpoints] at he
    · rintro x rfl
      simp [ownEndpoints, openEndpoints] at he
  refine ⟨hkept, ?_, ?_⟩
  · rcases he with he | ⟨he, rfl⟩
    · simp only [ownEndpoints, List.mem_cons, List.not_mem_nil, or_false] at he
      rcases he with rfl | rfl | rfl | rfl | rfl
      all_goals exact .inl rfl
    · have hmem := he
      simp only [openEndpoints, List.mem_cons, List.not_mem_nil, or_false] at he
      rcases he with rfl | rfl | rfl | rfl | rfl | rfl | rfl
      · exact .inr ⟨_, hmem, body.text, rfl⟩
      · exact .inr ⟨_, hmem, body.text, rfl⟩
      · exact .inl rfl
      · exact .inr ⟨_, hmem, body.text, rfl⟩
      · exact .inl rfl
      · exact .inr ⟨_, hmem, body.text, rfl⟩
      · exact .inr ⟨_, hmem, body.text, rfl⟩
  · rcases he with he | ⟨he, rfl⟩
    · simp only [ownEndpoints, List.mem_cons, List.not_mem_nil, or_false] at he
      rcases he with rfl | rfl | rfl | rfl | rfl
      · exact isWhole_twoFactorAnswer _
      · exact isWhole_twoFactorAnswer _
      · exact isWhole_twoFactorAnswer _
      · exact isWhole_me
      · exact isWhole_answerOf _
    · simp only [openEndpoints, List.mem_cons, List.not_mem_nil, or_false] at he
      rcases he with rfl | rfl | rfl | rfl | rfl | rfl | rfl
      · rfl
      · rfl
      · exact isWhole_answerOf _
      · rfl
      · exact isWhole_answerOf _
      · rfl
      · rfl

theorem Reserved.of_reply {r : Reply} : Reserved P s caller (s, .reply r) :=
  ⟨.of_users rfl rfl rfl, .inl rfl, rfl⟩

theorem serve_reserved {r : Request σ} (hinitial : ∀ c,
      authMiddleware s.accounts r.header = .passed c → Initial s.accounts c) :
    Reserved P s (callerOf s r.header) (serve P env s r) := by
  unfold serve
  split
  · exact .of_reply
  rename_i url hurl
  split
  · exact .of_reply
  split
  · exact .of_reply
  rename_i group endpoint hfound
  split
  · exact .of_reply
  rename_i claims hclaims
  by_cases hgroup : group = .open
  · subst hgroup
    cases hclaims
    have hreserved : Reserved P s none (handle P env s none r.body endpoint) :=
      handle_reserved (.inr ⟨mem_openEndpoints hfound, rfl⟩)
    exact ⟨hreserved.toKept.of_none, hreserved.rest, hreserved.part⟩
  · obtain ⟨c, rfl, hpassed⟩ := authorize_passed hgroup hclaims
    have hreserved : Reserved P s ((some c).map Claims.userID)
        (handle P env s (some c) r.body endpoint) :=
      handle_reserved (.inl (mem_ownEndpoints hurl hfound hgroup
        (exempt_of_authorize hclaims hgroup hinitial)))
    have hcaller : callerOf s r.header = some c.userID := by rw [callerOf, hpassed]
    rw [hcaller]
    exact hreserved

/-- A request that a guard of its group refuses. -/
theorem serve_refused {r : Request σ} {url : URL} {group : Group} {e : Endpoint} {reply : Reply}
    (hurl : setPath r.target = some url) (hlimits : env.refused = none)
    (hfound : findRoute r.method url.routePath = some (group, e))
    (hrefused : authorize s.accounts group r.header url.path = .error reply) :
    serve P env s r = (s, .reply reply) := by
  simp only [serve, hurl, hlimits, hfound, hrefused]

end

/-! ## Every run -/

section
variable {σ : Type} {P : Program σ} {w₀ w w' : World σ}

/-- Whoever calls has an initial password, and no command is run. -/
def AllInitial (w : World σ) : AdminOnly.Event σ → Prop
  | .request _ r => ∀ c, authMiddleware w.system.accounts r.header = .passed c →
      Initial w.system.accounts c
  | .restart _ => True
  | .command _ => False

/-- The users are kept, and the rest, without the audit events, is as everybody could have made it. -/
structure Quarantined (P : Program σ) (w₀ w : World σ) : Prop where
  users : UsersKept w₀ w
  replaced : w.system.replaced = none
  rest : Relation.ReflTransGen (OpenCall P) w₀.system.db.rest w.system.db.rest
  part : ∀ a ∈ w.answers, Answer.isWhole a.2 = false

theorem Quarantined.step (h : Quarantined P w₀ w) (hne : w₀.system.db.users.rows ≠ [])
    {e : AdminOnly.Event σ} (he : AllInitial w e) (hstep : AdminOnly.step P w e = some w') :
    Quarantined P w₀ w' := by
  cases e with
  | request env r =>
    cases hstep
    have hserve : Reserved P w.system (callerOf w.system r.header) (serve P env w.system r) :=
      serve_reserved he
    constructor
    · constructor
      · exact (h.users.confined.mono (List.subset_append_right _ _)).trans
          (hserve.confined.mono (List.subset_append_left _ _))
      · intro a ha id hid
        obtain rfl | ha := List.mem_cons.mp ha
        · exact hserve.discreet id hid
        · exact h.users.discreet a ha id hid
    · exact hserve.replaced.trans h.replaced
    · rcases hserve.rest with hsame | hcall
      · rw [hsame]
        exact h.rest
      · exact h.rest.tail hcall
    · intro a ha
      obtain rfl | ha := List.mem_cons.mp ha
      · exact hserve.part
      · exact h.part a ha
  | restart seed =>
    cases hstep
    have husers := users_restart (P := P) seed h.replaced (h.users.confined.ne_nil hne)
    have hrest : (restart P seed w.system).db.rest = w.system.db.rest := by
      simp only [restart, seedAdminUser, h.replaced, Option.getD_none]
      split_ifs <;> rfl
    refine ⟨⟨?_, h.users.discreet⟩, rfl, ?_, h.part⟩
    · rw [husers]
      exact h.users.confined
    · rw [hrest]
      exact h.rest
  | command c => exact he.elim

/-- As long as every caller has an initial password, nobody gets at more than the own password
and second factor, through any requests and restarts. -/
theorem quarantined_run {seed : Seed} {s : System σ}
    (h : Run (AdminOnly.step P) AllInitial (begin P seed s) w) :
    Quarantined P (begin P seed s) w :=
  h.invariant (fun _ _ _ hw he hstep => hw.step (begin_ne_nil seed) he hstep)
    ⟨⟨.refl _ _, nofun⟩, rfl, .refl, nofun⟩

end

/-! ## An admin with the initial password -/

def root : Claims := ⟨"t", "a", "admin", "admin"⟩

def seeded : Database Unit where
  tenants := []
  users := ⟨[⟨"a", "", "admin", "", "hash", "admin", true, false, "", false⟩], by simp⟩
  refreshTokens := Table.empty
  rest := ()

def started : World Unit :=
  begin plainProgram unseeded ⟨seeded, ⟨[root], List.nodup_singleton _⟩, none, []⟩

def byRoot (method target : String) : Request Unit :=
  { byBob method target with header := bearer root }

def changeRequired : Reply :=
  ⟨403, "\x7b\"error\":\"password change required\",\"redirect\":\"/settings\"\x7d"⟩

/-- The admin is refused the backup. -/
theorem root_refused : ∃ w : World Unit, Quarantined plainProgram started w ∧
    w.answers = [(some "a", .reply changeRequired)] := by
  have hpassed : authMiddleware started.system.accounts
      (byRoot "GET" "/api/v1/system/backup").header = .passed root :=
    authMiddleware_bearer (by simp [System.accounts, started, begin, restart])
  have hcount : started.system.accounts.users.count
      (fun u => u.id = root.userID && u.passwordChanged) = 0 := by decide
  have hinitial : AllInitial started (.request plainEnv (byRoot "GET" "/api/v1/system/backup")) := by
    intro c hc
    rw [hpassed] at hc
    cases hc
    exact hcount
  have hurl : setPath (byRoot "GET" "/api/v1/system/backup").target =
      some ⟨"/api/v1/system/backup".toList, []⟩ := by decide
  have hfound : findRoute "GET" "/api/v1/system/backup".toList = some (.session, .download) := by
    decide
  have hforced : forcePasswordChange started.system.accounts root "/api/v1/system/backup".toList =
      some changeRequired := by decide
  have hrefused : authorize started.system.accounts .session
      (byRoot "GET" "/api/v1/system/backup").header "/api/v1/system/backup".toList =
        .error changeRequired := by
    simp only [authorize, hpassed, hforced]
  have htold : AdminOnly.step plainProgram started
        (.request plainEnv (byRoot "GET" "/api/v1/system/backup")) =
      some ⟨started.system, ["a"], [(some "a", .reply changeRequired)]⟩ := by
    have hserve : serve plainProgram plainEnv started.system
        (byRoot "GET" "/api/v1/system/backup") = (started.system, .reply changeRequired) :=
      serve_refused hurl rfl hfound hrefused
    rw [AdminOnly.step, hserve, callerOf, hpassed]
    rfl
  exact ⟨_, quarantined_run (.single ⟨_, hinitial, htold⟩), rfl⟩

end NetBerth.InitialPasswords
