import NetBerth.AccountCalls
import NetBerth.Router
import NetBerth.Transitions
import NetBerth.TwoFactor

/-!
# What users can do who are no admins

User management is in the group of routes that want the role of an admin in the token.
The backup and the restore are not, though both are about the whole database: one sends
every hash and every secret of two-factor authentication, and the other decides which
users there are from the next start on. Cron jobs can be made to run any command then.

A run here is a sequence of requests, with starts of the process and commands of jobs
between them. The tables that are not about users are taken together, and so are the
handlers that only read and write those. The audit events are not among them: the outermost
middleware inserts one after a request to a module or to the users, also after one that was
refused. What the engines write on their own is left out too.
-/
namespace NetBerth.AdminOnly
open SqlTable Accounts TokenKinds Router Transitions

/-! ## The system -/

variable {σ : Type}

/-- `rest` is what there is beside the users, without the audit events. -/
structure Database (σ : Type) where
  tenants : List ID
  users : Table User
  refreshTokens : Table RefreshToken
  rest : σ

/-- The open database, the tokens that were signed, the database that a restore has put in
the place of the open one, and the commands of the jobs that were loaded at the start. -/
structure System (σ : Type) where
  db : Database σ
  signed : Table Claims
  replaced : Option (Database σ)
  commands : List String

def System.accounts (s : System σ) : Store :=
  ⟨s.db.tenants, s.db.users, s.db.refreshTokens, s.signed⟩

def System.withAccounts (s : System σ) (t : Store) : System σ :=
  { s with
    db := { s.db with tenants := t.tenants, users := t.users, refreshTokens := t.refreshTokens }
    signed := t.signed }

/-- What a user looks like in an answer. -/
structure PublicUser where
  id : ID
  username : String
  email : String
  role : String
  enabled : Bool
  otpEnabled : Bool
  deriving DecidableEq, Repr

def sanitizeUser (u : User) : PublicUser :=
  ⟨u.id, u.username, u.email, u.role, u.enabled, u.otpEnabled⟩

inductive Answer (σ : Type) where
  | reply (r : Reply)
  | tokens (t : TokenPair)
  | session (t : TokenPair) (u : PublicUser)
  | user (status : ℕ) (u : PublicUser)
  | users (l : List PublicUser)
  | otpSetup (userID : ID) (secret qrCode : String)
  | file (db : Database σ)

/-- The users whose password hash or secret stands in the answer. -/
def Answer.secretsOf : Answer σ → List ID
  | .otpSetup userID _ _ => [userID]
  | .file db => db.users.rows.map User.id
  | _ => []

/-- What the body and the headers decode to in each handler. An upload may be refused. -/
structure Bodies (σ : Type) where
  login : Body LoginRequest
  token : Body RawToken
  password : Body ChangePasswordRequest
  newUser : Body CreateUserRequest
  userUpdate : Body UpdateUserRequest
  newPassword : Body String
  code : Option String
  backupPassword : String
  upload : Except Reply (Database σ)
  text : String

structure Request (σ : Type) where
  method : String
  target : Path
  header : AuthHeader
  body : Bodies σ

/-- What the limiters in front refuse, what keeps a backup from being read, what the random
source returns, and what becomes of the statements about two-factor authentication. -/
structure Env where
  refused : Option Reply
  unread : Option Reply
  ids : ID × ID
  uuid : ID
  salt : String
  random : Option (List UInt8)
  choices : TwoFactor.Choice × TwoFactor.Choice

/-- The functions that are the same in every run. The `others` are the handlers that read
and write no users. -/
structure Program (σ : Type) where
  hasher : Hasher
  hmac : List UInt8 → List UInt8 → List UInt8
  others : Endpoint → Option Claims → String → σ → σ × Reply
  commandsOf : σ → List String
  shell : String → System σ → System σ

/-! ## The handlers -/

def answerOf : Proc → Answer σ
  | .done (.error status message) => .reply ⟨status, message⟩
  | .done (.message text) => .reply ⟨200, text⟩
  | .done (.created u) => .user 201 (sanitizeUser u)
  | .done (.session t u) => .session t (sanitizeUser u)
  | .refreshed _ t => .tokens t
  | _ => .reply ⟨500, ""⟩

def runTwoFactor (hmac : List UInt8 → List UInt8 → List UInt8) :
    List TwoFactor.Choice → TwoFactor.Store → TwoFactor.Proc → TwoFactor.Store × TwoFactor.Proc
  | [], s, p => (s, p)
  | a :: choices, s, p =>
    match TwoFactor.step hmac a s p with
    | none => (s, p)
    | some t => runTwoFactor hmac choices t.1 t.2

def twoFactorAnswer (actor : Option ID) : TwoFactor.Proc → Answer σ
  | .done (.error status message) => .reply ⟨status, message⟩
  | .done (.otpSetup secret qrCode) => .otpSetup (actor.getD "") secret qrCode
  | .done (.message text) => .reply ⟨200, text⟩
  | _ => .reply ⟨500, ""⟩

section
variable (P : Program σ) (env : Env) (s : System σ)

def account (r : Accounts.Request) : System σ × Answer σ :=
  let t := AccountCalls.call P.hasher s.accounts r
  (s.withAccounts t.1, answerOf t.2)

/-- No handler of two-factor authentication sends more than two statements. -/
def twoFactor (actor : Option ID) (r : TwoFactor.Request) : System σ × Answer σ :=
  let t := runTwoFactor P.hmac [env.choices.1, env.choices.2] ⟨s.db.users, fun _ => false⟩
    (TwoFactor.start r)
  ({ s with db := { s.db with users := t.1.users } }, twoFactorAnswer actor t.2)

/-- The row is read without `enabled`. -/
def me (actor : Option ID) : Answer σ :=
  match actor with
  | none => .reply ⟨401, "unauthorized"⟩
  | some userID =>
    match s.db.users.select userID with
    | none => .reply ⟨404, "user not found"⟩
    | some u => .user 200 (sanitizeUser { u with enabled := false })

def passwordRefused (password : String) : Bool :=
  password ≠ "" && (password.utf8ByteSize < 8 || 128 < password.utf8ByteSize)

/-- The file at the path is sent, encrypted under a password of the caller's if there is
one. -/
def download (body : Bodies σ) : System σ × Answer σ :=
  if passwordRefused body.backupPassword then
    (s, .reply ⟨400, "backup password must be 8-128 characters"⟩)
  else
    match env.unread with
    | some reply => (s, .reply reply)
    | none => (s, .file (s.replaced.getD s.db))

def restore (body : Bodies σ) : System σ × Answer σ :=
  if passwordRefused body.backupPassword then
    (s, .reply ⟨400, "backup password must be 8-128 characters"⟩)
  else
    match body.upload with
    | .error reply => (s, .reply reply)
    | .ok db => ({ s with replaced := some db },
        .reply ⟨200, "database restored. restart the service to apply changes."⟩)

def handle (claims : Option Claims) (body : Bodies σ) (e : Endpoint) : System σ × Answer σ :=
  let actor := claims.map Claims.userID
  match e with
  | .login => account P s (.login body.login env.ids)
  | .refreshToken => account P s (.refreshToken body.token env.ids)
  | .logout => account P s (.logout body.token)
  | .changePassword => account P s (.changePassword actor body.password env.salt)
  | .setup2FA => twoFactor P env s actor (.setup actor env.random)
  | .enable2FA => twoFactor P env s actor (.enable actor body.code)
  | .disable2FA => twoFactor P env s actor (.disable actor)
  | .me => (s, me s actor)
  | .listUsers => (s, .users (s.db.users.rows.map sanitizeUser))
  | .mutation .createUser =>
    account P s (.createUser actor body.newUser env.uuid env.salt)
  | .mutation (.updateUser id) => account P s (.updateUser actor id body.userUpdate)
  | .mutation (.deleteUser id) => account P s (.deleteUser actor id)
  | .mutation (.resetPassword id) => account P s (.resetPassword id body.newPassword env.salt)
  | .download => download env s body
  | .restore => restore s body
  | e =>
    let t := P.others e claims body.text s.db.rest
    ({ s with db := { s.db with rest := t.1 } }, .reply t.2)

def serve (r : Request σ) : System σ × Answer σ :=
  match setPath r.target with
  | none => (s, .reply ⟨400, "400 Bad Request"⟩)
  | some url =>
    match env.refused with
    | some reply => (s, .reply reply)
    | none =>
      match findRoute r.method url.routePath with
      | none => (s, .reply (unrouted url.routePath))
      | some (group, endpoint) =>
        match authorize s.accounts group r.header url.path with
        | .error reply => (s, .reply reply)
        | .ok claims => handle P env s claims r.body endpoint

end

/-! ## Runs -/

structure Seed where
  tenantID : ID
  userID : ID
  passwordHash : String

/-- The default tenant and the first admin, if there are no users. -/
def seedAdminUser (seed : Seed) (db : Database σ) : Database σ :=
  if db.users.rows.isEmpty then
    { db with
      tenants := if seed.tenantID ∈ db.tenants then db.tenants else db.tenants ++ [seed.tenantID]
      users := db.users.insertIgnore
        ⟨seed.userID, seed.tenantID, "admin", "", seed.passwordHash, "admin", true, false, "",
          false⟩ }
  else db

/-- A process that ends, and the next one. -/
def restart (P : Program σ) (seed : Seed) (s : System σ) : System σ :=
  let db := seedAdminUser seed (s.replaced.getD s.db)
  { s with db, replaced := none, commands := P.commandsOf db.rest }

/-- The callers so far, and what they were answered. -/
structure World (σ : Type) where
  system : System σ
  callers : List ID
  answers : List (Option ID × Answer σ)

inductive Event (σ : Type) where
  | request (env : Env) (r : Request σ)
  | restart (seed : Seed)
  | command (c : String)

def callerOf (s : System σ) (header : AuthHeader) : Option ID :=
  match authMiddleware s.accounts header with
  | .passed claims => some claims.userID
  | .refused _ _ => none

/-- Only the commands that were loaded at the start are run. -/
def step (P : Program σ) (w : World σ) : Event σ → Option (World σ)
  | .request env r =>
    let t := serve P env w.system r
    let caller := callerOf w.system r.header
    some ⟨t.1, caller.toList ++ w.callers, (caller, t.2) :: w.answers⟩
  | .restart seed => some { w with system := restart P seed w.system }
  | .command c =>
    if c ∈ w.system.commands then some { w with system := P.shell c w.system } else none

/-- A process has started. -/
def begin (P : Program σ) (seed : Seed) (s : System σ) : World σ := ⟨restart P seed s, [], []⟩

/-! ## What is to hold of them -/

/-- The columns that are not the user's own. -/
def User.fixed (u : User) : ID × ID × String × String × String × Bool :=
  (u.id, u.tenantID, u.username, u.email, u.role, u.enabled)

/-- No row is new or gone, all keep their roles and the other columns that are not the
user's own, and who is not among the callers keeps those too. -/
structure Confined (callers : List ID) (t t' : Table User) : Prop where
  fixed : t'.rows.map User.fixed = t.rows.map User.fixed
  others : ∀ u ∈ t.rows, u.id ∉ callers → u ∈ t'.rows

/-- Only the caller's own secret stands in an answer. -/
def Discreet (w : World σ) : Prop := ∀ a ∈ w.answers, ∀ id ∈ a.2.secretsOf, a.1 = some id

structure UsersKept (w w' : World σ) : Prop where
  confined : Confined w'.callers w.system.db.users w'.system.db.users
  discreet : Discreet w'

/-- A request carries a token of a user who is no admin. -/
def Carries (w : World σ) : Event σ → Prop
  | .request _ r => ∃ claims, authMiddleware w.system.accounts r.header = .passed claims ∧
      ∃ u ∈ w.system.db.users.rows, u.id = claims.userID ∧ u.role ≠ "admin"
  | _ => True

/-- The token does not carry the role either, the request is neither for a backup nor for a
restore, and no command is run. -/
def Guarded (w : World σ) : Event σ → Prop
  | .request _ r =>
    (∀ claims, authMiddleware w.system.accounts r.header = .passed claims →
      claims.role ≠ "admin") ∧
    ∀ url group e, setPath r.target = some url →
      findRoute r.method url.routePath = some (group, e) → e ≠ .download ∧ e ≠ .restore
  | .restart _ => True
  | .command _ => False

/-! ## Confinement -/

section
variable {callers callers' : List ID} {t t' t'' : Table User}

theorem Confined.refl (callers : List ID) (t : Table User) : Confined callers t t :=
  ⟨rfl, fun _ hu _ => hu⟩

theorem Confined.mono (h : Confined callers t t') (hsub : callers ⊆ callers') :
    Confined callers' t t' :=
  ⟨h.fixed, fun u hu hid => h.others u hu fun hmem => hid (hsub hmem)⟩

theorem Confined.trans (h : Confined callers t t') (h' : Confined callers t' t'') :
    Confined callers t t'' := by
  constructor
  · exact h'.fixed.trans h.fixed
  · intro u hu hid
    exact h'.others u (h.others u hu hid) hid

/-- The row of one caller is written, in columns of the user's own. -/
theorem confined_update {id : ID} {f : User → User} (hid : id ∈ callers)
    (hfixed : ∀ u, User.fixed (f u) = User.fixed u) (hf : ∀ u, (f u).id = u.id) :
    Confined callers t (t.update (fun u => u.id = id) f hf) := by
  constructor
  · simp only [Table.update, List.map_map]
    rw [List.map_inj_left]
    intro u _
    by_cases h : u.id = id
    · simp [h, hfixed]
    · simp [h]
  · intro u hu hother
    refine Table.mem_update.mpr ⟨u, hu, ?_⟩
    have hne : u.id ≠ id := fun he => hother (he ▸ hid)
    simp [hne]

theorem Confined.ne_nil (h : Confined callers t t') (hne : t.rows ≠ []) : t'.rows ≠ [] := by
  intro hnil
  have hfixed := h.fixed
  rw [hnil, List.map_nil, eq_comm, List.map_eq_nil_iff] at hfixed
  exact hne hfixed

end

/-! ## The handlers of the sessions -/

/-- A statement of a handler that is open to every user, about the user that calls. -/
def Own (actor : Option ID) : Proc → Prop
  | .changeSelect id _ _ | .changeUpdate id _ => actor = some id
  | .createTenant .. | .createInsert _ | .updateSelect .. | .updateCount .. | .updateExec ..
  | .deleteSelect _ | .deleteCount _ | .deleteExec _ | .resetExists .. | .resetExec .. => False
  | _ => True

section
variable {H : Hasher} {actor : Option ID} {s s' : Store} {p q : Proc}

theorem own_step (hp : Own actor p) (h : Accounts.step H s p = some (s', q)) : Own actor q := by
  cases p with
  | loginSelect req ids =>
    obtain ⟨-, rfl⟩ | ⟨user, t, -, -, -, rfl⟩ := loginSelect_eq h <;> trivial
  | refreshCheck token ids =>
    cases h
    obtain herror | ⟨claims, rfl, -, -, hlookup⟩ := refreshCheck_eq s token ids
    · rw [herror]
      trivial
    · rw [hlookup]
      trivial
  | refreshLookup claims ids =>
    obtain ⟨-, -, rfl⟩ | ⟨user, t, -, -, rfl⟩ := refreshLookup_eq h <;> trivial
  | changeSelect userID req salt =>
    cases h
    unfold changeSelect
    split
    · trivial
    · split_ifs
      · trivial
      · exact hp
  | createTenant | createInsert | updateSelect | updateCount | updateExec | deleteSelect
  | deleteCount | deleteExec | resetExists | resetExec => exact hp.elim
  | done response => cases h
  | refreshed claims tokens => cases h
  | _ =>
    cases h
    trivial

theorem own_confined (hp : Own actor p) (h : Accounts.step H s p = some (s', q)) :
    Confined actor.toList s.users s'.users := by
  rcases step_users h with he | ⟨user, rfl, -⟩ | ⟨id, newHash, rfl, rfl⟩ | ⟨id, newHash, rfl, -⟩ |
    ⟨id, email, role, enabled, rfl, -⟩ | ⟨id, rfl, -⟩
  · rw [he]
    exact .refl _ _
  · exact hp.elim
  · have hid : id ∈ actor.toList := by
      rw [show actor = some id from hp]
      simp
    apply confined_update hid <;> exact fun _ => rfl
  · exact hp.elim
  · exact hp.elim
  · exact hp.elim

theorem call_confined {r : Accounts.Request} (hr : Own actor (start H r)) (s : Store) :
    Confined actor.toList s.users (AccountCalls.call H s r).1.users := by
  have hkept : Confined actor.toList s.users (AccountCalls.call H s r).1.users ∧
      Own actor (AccountCalls.call H s r).2 := by
    apply AccountCalls.runHandler_keeps (I := fun s' p => Confined actor.toList s.users s'.users ∧
      Own actor p)
    · intro s₁ p s₂ q ⟨hs, hp⟩ hstep
      exact ⟨hs.trans (own_confined hp hstep), own_step hp hstep⟩
    · exact ⟨.refl _ _, hr⟩
  exact hkept.1

theorem own_decode {α : Type} {body : Body α} {k : α → Proc} (hk : ∀ a, Own actor (k a)) :
    Own actor (body.decode k) := by
  cases body with
  | tooLarge => trivial
  | invalid => trivial
  | ok a => exact hk a

theorem own_login (body : Body LoginRequest) (ids : ID × ID) :
    Own actor (start H (.login body ids)) := by
  apply own_decode
  intro req
  split_ifs <;> trivial

theorem own_refreshToken (body : Body RawToken) (ids : ID × ID) :
    Own actor (start H (.refreshToken body ids)) := own_decode fun _ => trivial

theorem own_logout (body : Body RawToken) : Own actor (start H (.logout body)) := by
  cases body with
  | tooLarge => trivial
  | invalid => trivial
  | ok token => cases token <;> trivial

theorem own_changePassword (body : Body ChangePasswordRequest) (salt : String) :
    Own actor (start H (.changePassword actor body salt)) := by
  cases actor with
  | none => trivial
  | some userID =>
    apply own_decode
    intro req
    split_ifs
    · trivial
    · trivial
    · exact rfl

end

/-! ## The handlers of two-factor authentication -/

def factorActor : TwoFactor.Request → Option ID
  | .setup actor _ | .enable actor _ | .disable actor => actor

def OwnFactor (actor : Option ID) : TwoFactor.Proc → Prop
  | .setupSelect id _ | .setupExec id _ _ | .enableSelect id _ | .enableExec id | .disableExec id =>
    actor = some id
  | .done _ => True

section
variable {hmac : List UInt8 → List UInt8 → List UInt8} {a : TwoFactor.Choice} {actor : Option ID}
  {s s' : TwoFactor.Store} {p q : TwoFactor.Proc}

/-- A write of two-factor authentication that takes place or fails. -/
theorem exec_confined {id : ID} {f : TwoFactor.Store → TwoFactor.Store}
    (h : ∀ s, Confined [id] s.users (f s).users) (hactor : actor = some id) :
    Confined actor.toList s.users (TwoFactor.exec s f a).users := by
  rw [hactor]
  cases a with
  | go now => exact h s
  | fail => exact .refl _ _

theorem ownFactor_step (hp : OwnFactor actor p) (h : TwoFactor.step hmac a s p = some (s', q)) :
    OwnFactor actor q ∧ Confined actor.toList s.users s'.users := by
  cases p with
  | done response => cases h
  | setupSelect id secret =>
    cases h
    exact ⟨hp, .refl _ _⟩
  | setupExec id secret qr =>
    cases h
    refine ⟨trivial, exec_confined (fun s => ?_) hp⟩
    apply confined_update (List.mem_singleton_self id) <;> exact fun _ => rfl
  | enableSelect id code =>
    cases a with
    | fail =>
      cases h
      exact ⟨trivial, .refl _ _⟩
    | go now =>
      simp only [TwoFactor.step] at h
      split_ifs at h <;> cases h
      · exact ⟨trivial, .refl _ _⟩
      · exact ⟨trivial, .refl _ _⟩
      · exact ⟨hp, .refl _ _⟩
  | enableExec id =>
    cases h
    refine ⟨trivial, exec_confined (fun s => ?_) hp⟩
    apply confined_update (List.mem_singleton_self id) <;> exact fun _ => rfl
  | disableExec id =>
    cases h
    refine ⟨trivial, exec_confined (fun s => ?_) hp⟩
    apply confined_update (List.mem_singleton_self id) <;> exact fun _ => rfl

theorem runTwoFactor_confined (hp : OwnFactor actor p) (choices : List TwoFactor.Choice) :
    Confined actor.toList s.users (runTwoFactor hmac choices s p).1.users := by
  induction choices generalizing s p with
  | nil => exact .refl _ _
  | cons a choices ih =>
    unfold runTwoFactor
    cases hstep : TwoFactor.step hmac a s p with
    | none => exact .refl _ _
    | some t =>
      obtain ⟨hq, hconfined⟩ := ownFactor_step hp hstep
      exact hconfined.trans (ih hq)

theorem ownFactor_start (r : TwoFactor.Request) : OwnFactor (factorActor r) (TwoFactor.start r) := by
  cases r with
  | setup actor random =>
    cases actor with
    | none => trivial
    | some id =>
      cases random with
      | none => trivial
      | some random => exact rfl
  | enable actor code =>
    cases actor with
    | none => trivial
    | some id =>
      cases code with
      | none => trivial
      | some code => exact rfl
  | disable actor =>
    cases actor with
    | none => trivial
    | some id => exact rfl

theorem start_of_none {r : TwoFactor.Request} (h : factorActor r = none) :
    TwoFactor.start r = .done (.error 401 "unauthorized") := by
  cases r with
  | setup actor random | enable actor code | disable actor =>
    obtain rfl : actor = none := h
    rfl

end

/-! ## Requests -/

/-- What a request that is no admin's does. -/
structure Kept (s : System σ) (caller : Option ID) (t : System σ × Answer σ) : Prop where
  replaced : t.1.replaced = s.replaced
  confined : Confined caller.toList s.db.users t.1.db.users
  discreet : ∀ id ∈ t.2.secretsOf, caller = some id

section
variable {P : Program σ} {env : Env} {s : System σ} {caller : Option ID}

theorem Kept.of_users {t : System σ × Answer σ} (hreplaced : t.1.replaced = s.replaced)
    (husers : t.1.db.users = s.db.users) (hsecrets : t.2.secretsOf = []) : Kept s caller t := by
  refine ⟨hreplaced, ?_, ?_⟩
  · rw [husers]
    exact .refl _ _
  · simp [hsecrets]

theorem secretsOf_answerOf (p : Proc) : (answerOf p : Answer σ).secretsOf = [] := by
  cases p with
  | done response => cases response <;> rfl
  | _ => rfl

theorem account_kept {r : Accounts.Request} (hr : Own caller (start P.hasher r)) :
    Kept s caller (account P s r) := by
  refine ⟨rfl, call_confined hr s.accounts, ?_⟩
  simp [account, secretsOf_answerOf]

theorem secretsOf_twoFactorAnswer {p : TwoFactor.Proc} {id : ID}
    (h : id ∈ (twoFactorAnswer caller p : Answer σ).secretsOf) : id = caller.getD "" := by
  cases p with
  | done response => cases response <;> simp_all [twoFactorAnswer, Answer.secretsOf]
  | _ => simp [twoFactorAnswer, Answer.secretsOf] at h

theorem twoFactor_kept {r : TwoFactor.Request} (hr : factorActor r = caller) :
    Kept s caller (twoFactor P env s caller r) := by
  subst hr
  refine ⟨rfl, ?_, ?_⟩
  · exact runTwoFactor_confined (s := ⟨s.db.users, fun _ => false⟩) (ownFactor_start r) _
  · intro id hid
    cases hactor : factorActor r with
    | some userID => rw [secretsOf_twoFactorAnswer hid, hactor, Option.getD_some]
    | none =>
      rw [twoFactor, start_of_none hactor] at hid
      cases hid

theorem me_kept : Kept s caller (s, me s caller) := by
  refine .of_users rfl rfl ?_
  unfold me
  split
  · rfl
  · split <;> rfl

/-- A request that is not about the whole database and not about a user. -/
theorem handle_kept {e : Endpoint} {claims : Option Claims} {body : Bodies σ}
    (hdownload : e ≠ .download) (hrestore : e ≠ .restore)
    (husers : ∀ x, e = .mutation x → x.kind ≠ "users") :
    Kept s (claims.map Claims.userID) (handle P env s claims body e) := by
  cases e with
  | login => exact account_kept (own_login _ _)
  | refreshToken => exact account_kept (own_refreshToken _ _)
  | logout => exact account_kept (own_logout _)
  | changePassword => exact account_kept (own_changePassword _ _)
  | setup2FA => exact twoFactor_kept rfl
  | enable2FA => exact twoFactor_kept rfl
  | disable2FA => exact twoFactor_kept rfl
  | me => exact me_kept
  | listUsers => exact .of_users rfl rfl rfl
  | download => exact absurd rfl hdownload
  | restore => exact absurd rfl hrestore
  | mutation x =>
    cases x with
    | createUser | updateUser | deleteUser | resetPassword => exact absurd rfl (husers _ rfl)
    | _ => exact .of_users rfl rfl rfl
  | _ => exact .of_users rfl rfl rfl

end

/-! ## Every run -/

section
variable {P : Program σ} {env : Env} {s : System σ} {caller : Option ID}

theorem Kept.of_none {t : System σ × Answer σ} (h : Kept s none t) : Kept s caller t := by
  refine ⟨h.replaced, h.confined.mono (List.nil_subset _), ?_⟩
  intro id hid
  cases h.discreet id hid

theorem serve_kept {r : Request σ} (hrole : ∀ claims,
      authMiddleware s.accounts r.header = .passed claims → claims.role ≠ "admin")
    (hwhole : ∀ url group e, setPath r.target = some url →
      findRoute r.method url.routePath = some (group, e) → e ≠ .download ∧ e ≠ .restore) :
    Kept s (callerOf s r.header) (serve P env s r) := by
  unfold serve
  split
  · exact .of_users rfl rfl rfl
  rename_i url hurl
  split
  · exact .of_users rfl rfl rfl
  split
  · exact .of_users rfl rfl rfl
  rename_i group endpoint hfound
  split
  · exact .of_users rfl rfl rfl
  rename_i claims hclaims
  obtain ⟨hdownload, hrestore⟩ := hwhole url group endpoint hurl hfound
  have husers : ∀ x, endpoint = .mutation x → x.kind ≠ "users" := by
    rintro x rfl hkind
    obtain ⟨hopen, -⟩ | ⟨c, -, hpassed, hadmin⟩ := authorize_cases hclaims
    · exact (routePath_of_mutation hfound).1 hopen
    · exact hrole c hpassed (hadmin (group_of_users hfound hkind))
  have hkept : Kept s (claims.map Claims.userID) (handle P env s claims r.body endpoint) :=
    handle_kept hdownload hrestore husers
  obtain ⟨-, rfl⟩ | ⟨c, rfl, hpassed, -⟩ := authorize_cases hclaims
  · exact hkept.of_none
  · simpa [callerOf, hpassed] using hkept

/-- What becomes of a request that gets past the guards of the second group. -/
theorem serve_session {r : Request σ} {url : URL} {e : Endpoint} {claims : Claims}
    (hurl : setPath r.target = some url) (hlimits : env.refused = none)
    (hfound : findRoute r.method url.routePath = some (.session, e))
    (hpassed : authMiddleware s.accounts r.header = .passed claims)
    (hchanged : forcePasswordChange s.accounts claims url.path = none) :
    serve P env s r = handle P env s (some claims) r.body e := by
  simp only [serve, hurl, hlimits, hfound, authorize, hpassed, hchanged]

theorem users_restart (seed : Seed) (hreplaced : s.replaced = none)
    (hne : s.db.users.rows ≠ []) : (restart P seed s).db.users = s.db.users := by
  simp [restart, seedAdminUser, hreplaced, hne]

/-- A process that has started has users. -/
theorem begin_ne_nil (seed : Seed) : (begin P seed s).system.db.users.rows ≠ [] := by
  unfold begin restart seedAdminUser
  dsimp only
  by_cases hempty : (s.replaced.getD s.db).users.rows = []
  · simp [Table.insertIgnore, Table.insert, hempty]
  · simp [hempty]

theorem step_kept {w₀ w w' : World σ} {e : Event σ} (hne : w₀.system.db.users.rows ≠ [])
    (hw : UsersKept w₀ w ∧ w.system.replaced = none) (he : Guarded w e)
    (h : step P w e = some w') : UsersKept w₀ w' ∧ w'.system.replaced = none := by
  obtain ⟨hkept, hreplaced⟩ := hw
  cases e with
  | request env r =>
    cases h
    obtain ⟨hrole, hwhole⟩ := he
    have hserve : Kept w.system (callerOf w.system r.header) (serve P env w.system r) :=
      serve_kept hrole hwhole
    refine ⟨⟨?_, ?_⟩, hserve.replaced.trans hreplaced⟩
    · apply Confined.trans
      · exact hkept.confined.mono (List.subset_append_right _ _)
      · exact hserve.confined.mono (List.subset_append_left _ _)
    · intro a ha id hid
      obtain rfl | ha := List.mem_cons.mp ha
      · exact hserve.discreet id hid
      · exact hkept.discreet a ha id hid
  | restart seed =>
    cases h
    have husers := users_restart (P := P) seed hreplaced (hkept.confined.ne_nil hne)
    refine ⟨⟨?_, hkept.discreet⟩, rfl⟩
    rw [husers]
    exact hkept.confined
  | command c => exact he.elim

/-- Requests without the role of an admin keep the users as they are, but for what is the
callers' own, unless a backup or a restore or the command of a job is among them. -/
theorem users_kept {seed : Seed} {w : World σ}
    (h : Run (step P) (fun w e => Carries w e ∧ Guarded w e) (begin P seed s) w) :
    UsersKept (begin P seed s) w := by
  have hrun := Run.invariant (I := fun w => UsersKept (begin P seed s) w ∧ w.system.replaced = none)
    (fun w e w' hw he hstep => step_kept (begin_ne_nil seed) hw he.2 hstep) h
    ⟨⟨.refl _ _, nofun⟩, rfl⟩
  exact hrun.1

end

/-! ## A viewer who reads the hash of the admin, and becomes one -/

def bob : Claims := ⟨"t", "b", "bob", "viewer"⟩

def rowOf (role : String) : User := ⟨"b", "", "bob", "", "initial", role, true, false, "", true⟩

def twoUsers (role : String) : Database Unit where
  tenants := []
  users := ⟨[⟨"a", "", "admin", "", "hash", "admin", true, false, "", true⟩, rowOf role], by
    simp [Keyed.key, rowOf]⟩
  refreshTokens := Table.empty
  rest := ()

def plainProgram : Program Unit where
  hasher := plainHasher
  hmac _ _ := []
  others _ _ _ rest := (rest, ⟨404, ""⟩)
  commandsOf _ := []
  shell _ s := s

def plainEnv : Env := ⟨none, none, ("r", "s"), "x", "", none, (.fail, .fail)⟩

def unseeded : Seed := ⟨"", "", ""⟩

def signedIn : World Unit :=
  begin plainProgram unseeded ⟨twoUsers "viewer", ⟨[bob], List.nodup_singleton _⟩, none, []⟩

/-- A request of bob's, with a new password for one of the handlers and a database in which
he is an admin for another. -/
def byBob (method target : String) : Request Unit where
  method := method
  target := target.toList
  header := bearer bob
  body := ⟨.invalid, .invalid, .ok ⟨"initial", "new password"⟩, .invalid, .invalid, .invalid, none,
    "", .ok (twoUsers "admin"), ""⟩

theorem bob_passes (method target : String) :
    authMiddleware signedIn.system.accounts (byBob method target).header = .passed bob :=
  authMiddleware_bearer (by simp [System.accounts, signedIn, begin, restart])

theorem bob_carries (method target : String) :
    Carries signedIn (.request plainEnv (byBob method target)) :=
  ⟨bob, bob_passes method target, rowOf "viewer", by decide, rfl, by decide⟩

/-- A viewer may change the own password, and the process may be restarted. -/
theorem users_kept_by_bob : ∃ w : World Unit,
    [.request plainEnv (byBob "POST" "/api/v1/auth/change-password"), .restart unseeded].foldlM
      (step plainProgram) signedIn = some w ∧
    (w.system.db.users.select "b").map User.passwordHash = some "new password" ∧
    UsersKept signedIn w := by
  have hurl : setPath "/api/v1/auth/change-password".toList =
      some ⟨"/api/v1/auth/change-password".toList, []⟩ := by decide
  have hfound : findRoute "POST" "/api/v1/auth/change-password".toList =
      some (.session, .changePassword) := by decide
  have hguarded : Guarded signedIn
      (.request plainEnv (byBob "POST" "/api/v1/auth/change-password")) := by
    constructor
    · intro claims hpassed
      rw [bob_passes] at hpassed
      cases hpassed
      decide
    · intro url group e hset he
      cases hurl.symm.trans hset
      cases hfound.symm.trans he
      decide
  refine ⟨_, rfl, ?_, ?_⟩
  · decide +kernel
  · exact users_kept (.tail (.single ⟨_, ⟨bob_carries _ _, hguarded⟩, rfl⟩)
      ⟨.restart unseeded, ⟨trivial, trivial⟩, rfl⟩)

/-- A viewer is sent the backup with the hash of the admin in it. With a restore of another
one and a restart the viewer is an admin. -/
theorem bob_takes_over :
    (∃ w, Run (step plainProgram) Carries signedIn w ∧ ¬Discreet w) ∧
      ∃ w, Run (step plainProgram) Carries signedIn w ∧
        (signedIn.system.db.users.select "b").map User.role = some "viewer" ∧
        (w.system.db.users.select "b").map User.role = some "admin" ∧
        ¬Confined w.callers signedIn.system.db.users w.system.db.users := by
  constructor
  · have hpassed := bob_passes "GET" "/api/v1/system/backup"
    have hurl : setPath (byBob "GET" "/api/v1/system/backup").target =
        some ⟨"/api/v1/system/backup".toList, []⟩ := by decide
    have hfound : findRoute "GET" "/api/v1/system/backup".toList = some (.session, .download) := by
      decide
    have hchanged : forcePasswordChange signedIn.system.accounts bob
        "/api/v1/system/backup".toList = none := by decide
    have htold : step plainProgram signedIn
          (.request plainEnv (byBob "GET" "/api/v1/system/backup")) =
        some ⟨signedIn.system, ["b"], [(some "b", .file signedIn.system.db)]⟩ := by
      have hserve : serve plainProgram plainEnv signedIn.system
          (byBob "GET" "/api/v1/system/backup") = (signedIn.system, .file signedIn.system.db) :=
        serve_session hurl rfl hfound hpassed hchanged
      rw [step, hserve, callerOf, hpassed]
      rfl
    refine ⟨_, .single ⟨_, bob_carries "GET" "/api/v1/system/backup", htold⟩, ?_⟩
    intro h
    have hown := h (some "b", .file signedIn.system.db) (.head _) "a" (by decide)
    exact absurd hown (by decide)
  · refine ⟨_, .tail (.single ⟨_, bob_carries "POST" "/api/v1/system/restore", rfl⟩)
      ⟨.restart unseeded, trivial, rfl⟩, ?_, ?_, ?_⟩
    · decide +kernel
    · decide +kernel
    · intro h
      exact absurd h.fixed (by decide +kernel)

end NetBerth.AdminOnly
