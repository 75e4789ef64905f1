import NetBerth.Interleaving
import NetBerth.SqlTable

/-!
# Accounts, sessions and the handlers that change them

The users and refresh_tokens tables and every handler that reads or writes
them, each as the sequence of SQL statements it sends. One step of a process
is one statement together with the code up to the next one, so a run of the
machine is an arbitrary interleaving of the statements of all requests.
Statements are atomic and do not fail except by a constraint.

A presented token is represented by what its string decodes to. The keyed
hash accepts exactly the tokens the service has signed, and the random ids of
`generateID` do not repeat: both are kept in the table `signed`.
-/
namespace NetBerth.Accounts
open Interleaving SqlTable

abbrev ID := String

structure User where
  id : ID
  tenantID : ID
  username : String
  email : String
  passwordHash : String
  role : String
  enabled : Bool
  otpEnabled : Bool
  otpSecret : String
  passwordChanged : Bool
  deriving DecidableEq, Repr

instance : Keyed User ID := ⟨User.id⟩

structure Claims where
  id : ID
  userID : ID
  username : String
  role : String
  deriving DecidableEq, Repr

instance : Keyed Claims ID := ⟨Claims.id⟩

/-- A row of refresh_tokens; `revoked` is `revoked_at IS NOT NULL`. -/
structure RefreshToken where
  id : ID
  userID : ID
  revoked : Bool
  deriving DecidableEq, Repr

instance : Keyed RefreshToken ID := ⟨RefreshToken.id⟩

structure Store where
  tenants : List ID
  users : Table User
  refreshTokens : Table RefreshToken
  signed : Table Claims

/-- Argon2id hashing, with the random salt as an argument. -/
structure Hasher where
  hash : (password salt : String) → String
  verify : (password encoded : String) → Bool

/-- Passwords kept as they are, for runs on fixed inputs. -/
def plainHasher : Hasher := ⟨fun password _ => password, fun password encoded => password = encoded⟩

structure TokenPair where
  accessToken : Claims
  refreshToken : Claims
  deriving DecidableEq, Repr

/-- A token as it is presented: an empty string, one that decodes to nothing
under the server's key and clock, or one that decodes to claims. -/
inductive RawToken where
  | empty
  | invalid
  | claims (c : Claims)
  deriving DecidableEq, Repr

/-! ## Requests and responses -/

inductive Body (α : Type) where
  | tooLarge
  | invalid
  | ok (a : α)
  deriving DecidableEq, Repr

structure LoginRequest where
  username : String
  password : String
  deriving DecidableEq, Repr

structure ChangePasswordRequest where
  oldPassword : String
  newPassword : String
  deriving DecidableEq, Repr

structure CreateUserRequest where
  username : String
  email : String
  role : String
  password : String
  deriving DecidableEq, Repr

structure UpdateUserRequest where
  email : String
  role : String
  enabled : Option Bool
  deriving DecidableEq, Repr

inductive Response where
  | error (status : ℕ) (message : String)
  | message (text : String)
  | created (user : User)
  | session (tokens : TokenPair) (user : User)
  deriving DecidableEq, Repr

/-- `actor` is the user of the claims the authentication middleware left in the
request's context; ids and salts are what the random source will return. -/
inductive Request where
  | login (body : Body LoginRequest) (ids : ID × ID)
  | refreshToken (body : Body RawToken) (ids : ID × ID)
  | logout (body : Body RawToken)
  | changePassword (actor : Option ID) (body : Body ChangePasswordRequest) (salt : String)
  | createUser (actor : Option ID) (body : Body CreateUserRequest) (uuid : ID) (salt : String)
  | updateUser (actor : Option ID) (id : ID) (body : Body UpdateUserRequest)
  | deleteUser (actor : Option ID) (id : ID)
  | resetPassword (id : ID) (body : Body String) (salt : String)
  deriving DecidableEq, Repr

/-- The statement a handler is about to send, with its local variables. -/
inductive Proc where
  | done (response : Response)
  | loginSelect (req : LoginRequest) (ids : ID × ID)
  | loginStore (tokens : TokenPair) (user : User)
  | refreshCheck (token : RawToken) (ids : ID × ID)
  | refreshLookup (claims : Claims) (ids : ID × ID)
  | refreshRevoke (claims : Claims) (tokens : TokenPair)
  | refreshStore (claims : Claims) (tokens : TokenPair)
  | refreshed (claims : Claims) (tokens : TokenPair)
  | logoutRevoke (token : RawToken)
  | changeSelect (userID : ID) (req : ChangePasswordRequest) (salt : String)
  | changeUpdate (userID : ID) (newHash : String)
  | changeRevokeAll (userID : ID)
  | createTenant (actor : ID) (req : CreateUserRequest) (uuid : ID) (salt : String)
  | createInsert (user : User)
  | updateSelect (actor : Option ID) (id : ID) (req : UpdateUserRequest)
  | updateCount (id : ID) (email role : String) (enabled : Bool)
  | updateExec (id : ID) (email role : String) (enabled : Bool)
  | deleteSelect (id : ID)
  | deleteCount (id : ID)
  | deleteExec (id : ID)
  | resetExists (id : ID) (newPassword salt : String)
  | resetExec (id : ID) (newHash : String)
  deriving DecidableEq, Repr

def Proc.error (status : ℕ) (message : String) : Proc := .done (.error status message)

/-! ## Input checks -/

def maxPasswordBytes : ℕ := 128
def maxUsernameBytes : ℕ := 64

def validRole (role : String) : Bool :=
  role = "admin" || role = "operator" || role = "viewer"

/-- `unicode.IsSpace`. -/
def isSpace (c : Char) : Bool :=
  c.toNat ∈ [0x09, 0x0a, 0x0b, 0x0c, 0x0d, 0x20, 0x85, 0xa0, 0x1680, 0x2028, 0x2029, 0x202f,
    0x205f, 0x3000] || (0x2000 ≤ c.toNat && c.toNat ≤ 0x200a)

def trimSpace (s : String) : String :=
  String.ofList ((s.toList.dropWhile isSpace).reverse.dropWhile isSpace).reverse

/-- `strings.Contains(s, "..")`. -/
def hasDoubleDot : List Char → Bool
  | '.' :: '.' :: _ => true
  | _ :: cs => hasDoubleDot cs
  | [] => false

/-- `validator.Email`: optional, at most 254 bytes, one `@` between nonempty parts. -/
def validEmail (e : String) : Bool :=
  if e = "" then true
  else if 254 < e.utf8ByteSize then false
  else if !e.toList.contains '@' || !e.toList.contains '.' then false
  else
    match e.toList.splitOn '@' with
    | [a, b] => !a.isEmpty && !b.isEmpty && !hasDoubleDot e.toList
    | _ => false

/-- `limitBody` and the JSON decoder in front of a handler. -/
def Body.decode {α : Type} (body : Body α) (k : α → Proc) : Proc :=
  match body with
  | .tooLarge => .error 413 "request body too large"
  | .invalid => .error 400 "invalid request body"
  | .ok a => k a

def login (body : Body LoginRequest) (ids : ID × ID) : Proc :=
  body.decode fun req =>
    if req.username = "" ∨ req.password = "" then .error 400 "username and password required"
    else if maxPasswordBytes < req.password.utf8ByteSize then .error 400 "password too long"
    else if maxUsernameBytes < req.username.utf8ByteSize then .error 400 "username too long"
    else .loginSelect req ids

/-- `Logout` does not limit the body and answers every decoding error alike. -/
def logout : Body RawToken → Proc
  | .tooLarge | .invalid | .ok .empty => .error 400 "refresh_token required"
  | .ok token => .logoutRevoke token

def changePassword (actor : Option ID) (body : Body ChangePasswordRequest) (salt : String) : Proc :=
  match actor with
  | none => .error 401 "unauthorized"
  | some userID =>
    body.decode fun req =>
      if req.newPassword.utf8ByteSize < 8 then
        .error 400 "password must be at least 8 characters"
      else if maxPasswordBytes < req.newPassword.utf8ByteSize ∨
          maxPasswordBytes < req.oldPassword.utf8ByteSize then .error 400 "password too long"
      else .changeSelect userID req salt

def newUser (H : Hasher) (req : CreateUserRequest) (tenantID uuid : ID) (salt : String) : User where
  id := uuid
  tenantID := tenantID
  username := req.username
  email := req.email
  passwordHash := H.hash req.password salt
  role := req.role
  enabled := true
  otpEnabled := false
  otpSecret := ""
  passwordChanged := false

def createUser (H : Hasher) (actor : Option ID) (body : Body CreateUserRequest) (uuid : ID)
    (salt : String) : Proc :=
  body.decode fun body =>
    let req := { body with username := trimSpace body.username }
    if req.username = "" then .error 400 "username required"
    else if !validRole req.role then .error 400 "role must be admin, operator or viewer"
    else if req.password.utf8ByteSize < 8 then
      .error 400 "password must be at least 8 characters"
    else if maxPasswordBytes < req.password.utf8ByteSize then .error 400 "password too long"
    else if maxUsernameBytes < req.username.utf8ByteSize then .error 400 "username too long"
    else if !validEmail req.email then .error 400 "invalid email"
    else
      match actor with
      | none => .createInsert (newUser H req "" uuid salt)
      | some a => .createTenant a req uuid salt

def updateUser (actor : Option ID) (id : ID) (body : Body UpdateUserRequest) : Proc :=
  body.decode fun req =>
    if req.role ≠ "" ∧ !validRole req.role then
      .error 400 "role must be admin, operator or viewer"
    else if !validEmail req.email then .error 400 "invalid email"
    else .updateSelect actor id req

def deleteUser (actor : Option ID) (id : ID) : Proc :=
  if actor = some id then .error 400 "cannot delete your own account" else .deleteSelect id

def resetPassword (id : ID) (body : Body String) (salt : String) : Proc :=
  body.decode fun newPassword =>
    if newPassword.utf8ByteSize < 8 then .error 400 "password must be at least 8 characters"
    else if maxPasswordBytes < newPassword.utf8ByteSize then .error 400 "password too long"
    else .resetExists id newPassword salt

/-- A handler up to its first statement. -/
def start (H : Hasher) : Request → Proc
  | .login body ids => login body ids
  | .refreshToken body ids => body.decode fun token => .refreshCheck token ids
  | .logout body => logout body
  | .changePassword actor body salt => changePassword actor body salt
  | .createUser actor body uuid salt => createUser H actor body uuid salt
  | .updateUser actor id body => updateUser actor id body
  | .deleteUser actor id => deleteUser actor id
  | .resetPassword id body salt => resetPassword id body salt

/-! ## Statements -/

/-- `isLastEnabledAdmin`, which ignores the id it is given. -/
def isLastEnabledAdmin (s : Store) : Bool :=
  s.users.count (fun u => u.role = "admin" && u.enabled) ≤ 1

/-- Two fresh ids are signed into a pair; a repeated id never comes back. -/
def generateTokens (s : Store) (user : User) (ids : ID × ID) : Option (Store × TokenPair) :=
  let access : Claims := ⟨ids.1, user.id, user.username, user.role⟩
  let refresh : Claims := ⟨ids.2, user.id, user.username, user.role⟩
  (s.signed.insert access).bind fun t => (t.insert refresh).map fun t' =>
    ({ s with signed := t' }, ⟨access, refresh⟩)

def validateToken (s : Store) : RawToken → Option Claims
  | .empty | .invalid => none
  | .claims c => if s.signed.select c.id = some c then some c else none

def storeRefreshToken (s : Store) (claims : Claims) : Store :=
  if claims.id = "" then s else
    { s with refreshTokens := s.refreshTokens.insertIgnore ⟨claims.id, claims.userID, false⟩ }

/-- A missing row counts as revoked. -/
def refreshTokenRevoked (s : Store) (id : ID) : Bool :=
  match s.refreshTokens.select id with
  | none => true
  | some row => row.revoked

/-- `UPDATE refresh_tokens SET revoked_at = ? WHERE ... AND revoked_at IS NULL`. -/
def revokeWhere (s : Store) (p : RefreshToken → Bool) : Store :=
  let setRevoked (r : RefreshToken) : RefreshToken := { r with revoked := true }
  { s with
    refreshTokens := s.refreshTokens.update (fun r => p r && !r.revoked) setRevoked fun _ => rfl }

def revokeRefreshToken (s : Store) (id : ID) : Store := revokeWhere s fun r => r.id = id

def revokeAllUserRefreshTokens (s : Store) (userID : ID) : Store :=
  revokeWhere s fun r => r.userID = userID

/-- `UPDATE users SET ... WHERE id = ?`. -/
def updateUsers (s : Store) (id : ID) (f : User → User) (hf : ∀ u, (f u).id = u.id) : Store :=
  { s with users := s.users.update (fun u => u.id = id) f hf }

def loginSelect (H : Hasher) (s : Store) (req : LoginRequest) (ids : ID × ID) :
    Option (Store × Proc) :=
  match s.users.rows.find? fun u => u.username = req.username with
  | none => some (s, .error 401 "invalid credentials")
  | some user =>
    if !H.verify req.password user.passwordHash then some (s, .error 401 "invalid credentials")
    else if !user.enabled then some (s, .error 401 "invalid credentials")
    else (generateTokens s user ids).map fun t => (t.1, .loginStore t.2 user)

def refreshCheck (s : Store) (token : RawToken) (ids : ID × ID) : Proc :=
  match validateToken s token with
  | none => .error 401 "invalid refresh token"
  | some claims =>
    if refreshTokenRevoked s claims.id then .error 401 "invalid refresh token"
    else .refreshLookup claims ids

/-- The row is read by id alone: `enabled` is not among the columns. -/
def refreshLookup (s : Store) (claims : Claims) (ids : ID × ID) : Option (Store × Proc) :=
  match s.users.select claims.userID with
  | none => some (s, .error 401 "user not found")
  | some user => (generateTokens s user ids).map fun t => (t.1, .refreshRevoke claims t.2)

def logoutRevoke (s : Store) (token : RawToken) : Store :=
  match validateToken s token with
  | none => s
  | some claims => revokeRefreshToken s claims.id

def changeSelect (H : Hasher) (s : Store) (userID : ID) (req : ChangePasswordRequest)
    (salt : String) : Proc :=
  match s.users.select userID with
  | none => .error 500 "internal error"
  | some user =>
    if !H.verify req.oldPassword user.passwordHash then .error 400 "current password is incorrect"
    else .changeUpdate userID (H.hash req.newPassword salt)

def changeUpdate (s : Store) (userID : ID) (newHash : String) : Store :=
  updateUsers s userID (fun u => { u with passwordHash := newHash, passwordChanged := true })
    fun _ => rfl

def createTenant (H : Hasher) (s : Store) (actor : ID) (req : CreateUserRequest) (uuid : ID)
    (salt : String) : Proc :=
  match s.users.select actor with
  | none => .error 500 "tenant lookup failed"
  | some a => .createInsert (newUser H req a.tenantID uuid salt)

/-- The unique id and username, then the foreign key on the tenant. -/
def createInsert (s : Store) (user : User) : Store × Proc :=
  match s.users.insert user with
  | none => (s, .error 409 "username already exists")
  | some users =>
    if s.users.rows.any fun u => u.username = user.username then
      (s, .error 409 "username already exists")
    else if user.tenantID ∉ s.tenants then (s, .error 500 "create failed")
    else ({ s with users := users }, .done (.created user))

/-- The part of the last-admin guard that reads the row: the target is an
enabled admin and will not be one any more. -/
def removesAdmin (row : User) (newRole : String) (newEnabled : Bool) : Bool :=
  (newRole ≠ "admin" || !newEnabled) && row.role = "admin" && row.enabled

def updateSelect (s : Store) (actor : Option ID) (id : ID) (req : UpdateUserRequest) : Proc :=
  match s.users.select id with
  | none => .error 404 "user not found"
  | some row =>
    let newRole := if req.role ≠ "" then req.role else row.role
    let newEmail := if req.email ≠ "" then req.email else row.email
    let newEnabled := req.enabled.getD row.enabled
    if actor = some id ∧ !newEnabled then .error 400 "cannot disable your own account"
    else if removesAdmin row newRole newEnabled then .updateCount id newEmail newRole newEnabled
    else .updateExec id newEmail newRole newEnabled

def updateExec (s : Store) (id : ID) (email role : String) (enabled : Bool) : Store :=
  updateUsers s id (fun u => { u with email := email, role := role, enabled := enabled })
    fun _ => rfl

def deleteSelect (s : Store) (id : ID) : Proc :=
  match s.users.select id with
  | none => .error 404 "user not found"
  | some row => if row.role = "admin" && row.enabled then .deleteCount id else .deleteExec id

def deleteExec (s : Store) (id : ID) : Store :=
  { s with users := s.users.delete fun u => u.id = id }

def resetExists (H : Hasher) (s : Store) (id : ID) (newPassword salt : String) : Proc :=
  if s.users.count (fun u => u.id = id) = 0 then .error 404 "user not found"
  else .resetExec id (H.hash newPassword salt)

def resetExec (s : Store) (id : ID) (newHash : String) : Store :=
  updateUsers s id (fun u => { u with passwordHash := newHash, passwordChanged := false })
    fun _ => rfl

def step (H : Hasher) (s : Store) : Proc → Option (Store × Proc)
  | .done _ => none
  | .loginSelect req ids => loginSelect H s req ids
  | .loginStore tokens user =>
    some (storeRefreshToken s tokens.refreshToken, .done (.session tokens user))
  | .refreshCheck token ids => some (s, refreshCheck s token ids)
  | .refreshLookup claims ids => refreshLookup s claims ids
  | .refreshRevoke claims tokens =>
    some (revokeRefreshToken s claims.id, .refreshStore claims tokens)
  | .refreshStore claims tokens =>
    some (storeRefreshToken s tokens.refreshToken, .refreshed claims tokens)
  | .refreshed _ _ => none
  | .logoutRevoke token => some (logoutRevoke s token, .done (.message "logged out"))
  | .changeSelect userID req salt => some (s, changeSelect H s userID req salt)
  | .changeUpdate userID newHash => some (changeUpdate s userID newHash, .changeRevokeAll userID)
  | .changeRevokeAll userID =>
    some (revokeAllUserRefreshTokens s userID, .done (.message "password changed successfully"))
  | .createTenant actor req uuid salt => some (s, createTenant H s actor req uuid salt)
  | .createInsert user => some (createInsert s user)
  | .updateSelect actor id req => some (s, updateSelect s actor id req)
  | .updateCount id email role enabled =>
    if isLastEnabledAdmin s then some (s, .error 400 "cannot demote or disable the last admin")
    else some (s, .updateExec id email role enabled)
  | .updateExec id email role enabled =>
    some (updateExec s id email role enabled, .done (.message "updated"))
  | .deleteSelect id => some (s, deleteSelect s id)
  | .deleteCount id =>
    if isLastEnabledAdmin s then some (s, .error 400 "cannot delete the last admin")
    else some (s, .deleteExec id)
  | .deleteExec id => some (deleteExec s id, .done (.message "deleted"))
  | .resetExists id newPassword salt => some (s, resetExists H s id newPassword salt)
  | .resetExec id newHash => some (resetExec s id newHash, .done (.message "password reset"))

/-- The statements with which a handler begins. -/
def Proc.fresh : Proc → Bool
  | .done (.error _ _) | .loginSelect .. | .refreshCheck .. | .logoutRevoke _ | .changeSelect ..
  | .createTenant .. | .createInsert _ | .updateSelect .. | .deleteSelect _ | .resetExists .. => true
  | _ => false

/-- The account subsystem: any requests, their statements in any order. -/
def machine (H : Hasher) : Machine Store Proc Request Unit where
  start := start H
  step _ := step H

abbrev State := Config Store Proc
abbrev Action := Act Request Unit

/-- The server before its first request. -/
def boot (s : Store) : State := ⟨s, []⟩

/-! ## What one statement can change -/

theorem decode_fresh {α : Type} (body : Body α) {k : α → Proc} (hk : ∀ a, (k a).fresh) :
    (body.decode k).fresh := by
  cases body with
  | tooLarge => rfl
  | invalid => rfl
  | ok a => exact hk a

theorem start_fresh (H : Hasher) (r : Request) : (start H r).fresh := by
  cases r with
  | login body ids =>
    refine decode_fresh body fun req => ?_
    split_ifs <;> rfl
  | refreshToken body ids => exact decode_fresh body fun _ => rfl
  | logout body =>
    cases body with
    | tooLarge => rfl
    | invalid => rfl
    | ok token => cases token <;> rfl
  | changePassword actor body salt =>
    cases actor with
    | none => rfl
    | some a =>
      refine decode_fresh body fun req => ?_
      split_ifs <;> rfl
  | createUser actor body uuid salt =>
    refine decode_fresh body fun req => ?_
    dsimp only
    split_ifs <;> first | rfl | (cases actor <;> rfl)
  | updateUser actor id body =>
    refine decode_fresh body fun req => ?_
    split_ifs <;> rfl
  | deleteUser actor id =>
    simp only [start, deleteUser]
    split_ifs <;> rfl
  | resetPassword id body salt =>
    refine decode_fresh body fun newPassword => ?_
    split_ifs <;> rfl

theorem select_revokeWhere (s : Store) (p : RefreshToken → Bool) (id : ID) :
    (revokeWhere s p).refreshTokens.select id =
      (s.refreshTokens.select id).map fun r => if p r then { r with revoked := true } else r := by
  rw [revokeWhere, Table.select_update]
  congr 1
  funext r
  cases hp : p r with
  | false => simp
  | true => cases r with | mk id userID revoked => cases revoked <;> rfl

theorem select_storeRefreshToken (s : Store) (claims : Claims) (id : ID) :
    (storeRefreshToken s claims).refreshTokens.select id =
      if claims.id = id ∧ claims.id ≠ "" ∧ s.refreshTokens.select id = none then
        some ⟨claims.id, claims.userID, false⟩
      else s.refreshTokens.select id := by
  unfold storeRefreshToken
  by_cases he : claims.id = ""
  · simp [he]
  · rw [if_neg he, Table.select_insertIgnore]
    simp only [ne_eq, he, not_false_eq_true, true_and]
    rfl

@[simp] theorem revokeWhere_users (s : Store) (p : RefreshToken → Bool) :
    (revokeWhere s p).users = s.users := rfl

@[simp] theorem revokeWhere_signed (s : Store) (p : RefreshToken → Bool) :
    (revokeWhere s p).signed = s.signed := rfl

@[simp] theorem storeRefreshToken_users (s : Store) (c : Claims) :
    (storeRefreshToken s c).users = s.users := by
  unfold storeRefreshToken
  split_ifs <;> rfl

@[simp] theorem storeRefreshToken_signed (s : Store) (c : Claims) :
    (storeRefreshToken s c).signed = s.signed := by
  unfold storeRefreshToken
  split_ifs <;> rfl

@[simp] theorem logoutRevoke_users (s : Store) (token : RawToken) :
    (logoutRevoke s token).users = s.users := by
  unfold logoutRevoke
  split <;> rfl

@[simp] theorem logoutRevoke_signed (s : Store) (token : RawToken) :
    (logoutRevoke s token).signed = s.signed := by
  unfold logoutRevoke
  split <;> rfl

theorem mem_updateUsers {s : Store} {id : ID} {f : User → User} {hf : ∀ u, (f u).id = u.id}
    {v : User} : v ∈ (updateUsers s id f hf).users.rows ↔
      ∃ u ∈ s.users.rows, (if u.id = id then f u else u) = v := by
  simpa only [updateUsers, decide_eq_true_eq] using
    Table.mem_update (t := s.users) (p := fun u => u.id = id) (f := f)

/-- Signing reads no table and writes only the record of what was signed. -/
theorem generateTokens_eq {s s' : Store} {user : User} {ids : ID × ID} {t : TokenPair}
    (h : generateTokens s user ids = some (s', t)) :
    ∃ signed, s' = { s with signed := signed } ∧
      t = ⟨⟨ids.1, user.id, user.username, user.role⟩, ⟨ids.2, user.id, user.username, user.role⟩⟩ ∧
      ∃ signed₁, s.signed.insert t.accessToken = some signed₁ ∧
        signed₁.insert t.refreshToken = some signed := by
  obtain ⟨signed₁, h₁, h⟩ := Option.bind_eq_some_iff.mp h
  obtain ⟨signed, h₂, h⟩ := Option.map_eq_some_iff.mp h
  cases h
  exact ⟨signed, rfl, rfl, signed₁, h₁, h₂⟩

theorem loginSelect_eq {H : Hasher} {s s' : Store} {req : LoginRequest} {ids : ID × ID} {q : Proc}
    (h : loginSelect H s req ids = some (s', q)) :
    (s' = s ∧ q = .error 401 "invalid credentials") ∨
    ∃ user t, user ∈ s.users.rows ∧ user.enabled ∧ generateTokens s user ids = some (s', t) ∧
      q = .loginStore t user := by
  unfold loginSelect at h
  split at h
  next => exact .inl (by simpa [eq_comm] using h)
  next user hu =>
    split_ifs at h with hv he
    · exact .inl (by simpa [eq_comm] using h)
    · exact .inl (by simpa [eq_comm] using h)
    · obtain ⟨t, ht, h⟩ := Option.map_eq_some_iff.mp h
      cases h
      exact .inr ⟨user, t.2, List.mem_of_find?_eq_some hu, by simpa using he, ht, rfl⟩

theorem refreshLookup_eq {s s' : Store} {claims : Claims} {ids : ID × ID} {q : Proc}
    (h : refreshLookup s claims ids = some (s', q)) :
    (s' = s ∧ s.users.select claims.userID = none ∧ q = .error 401 "user not found") ∨
    ∃ user t, s.users.select claims.userID = some user ∧ generateTokens s user ids = some (s', t) ∧
      q = .refreshRevoke claims t := by
  unfold refreshLookup at h
  split at h
  next hu => exact .inl ⟨by simp_all, hu, by simp_all⟩
  next user hu =>
    obtain ⟨t, ht, h⟩ := Option.map_eq_some_iff.mp h
    cases h
    exact .inr ⟨user, t.2, hu, ht, rfl⟩

theorem refreshCheck_eq (s : Store) (token : RawToken) (ids : ID × ID) :
    refreshCheck s token ids = .error 401 "invalid refresh token" ∨
    ∃ claims, token = .claims claims ∧ s.signed.select claims.id = some claims ∧
      refreshTokenRevoked s claims.id = false ∧
      refreshCheck s token ids = .refreshLookup claims ids := by
  unfold refreshCheck
  cases token with
  | empty => exact .inl rfl
  | invalid => exact .inl rfl
  | claims c =>
    by_cases hc : s.signed.select c.id = some c
    · have hv : validateToken s (.claims c) = some c := if_pos hc
      cases hr : refreshTokenRevoked s c.id with
      | true => exact .inl (by simp [hv, hr])
      | false => exact .inr ⟨c, rfl, hc, hr, by simp [hv, hr]⟩
    · have hv : validateToken s (.claims c) = none := if_neg hc
      exact .inl (by simp [hv])

theorem createInsert_eq {s s' : Store} {user : User} {q : Proc}
    (h : createInsert s user = (s', q)) :
    (∃ response, q = .done response) ∧
      (s' = s ∨ ∃ users, s.users.insert user = some users ∧ s' = { s with users := users }) := by
  unfold createInsert at h
  split at h
  · cases h
    exact ⟨⟨_, rfl⟩, .inl rfl⟩
  next users husers =>
    split_ifs at h
    · cases h
      exact ⟨⟨_, rfl⟩, .inl rfl⟩
    · cases h
      exact ⟨⟨_, rfl⟩, .inr ⟨users, husers, rfl⟩⟩
    · cases h
      exact ⟨⟨_, rfl⟩, .inl rfl⟩

/-- Counting the administrators writes nothing. -/
theorem count_eq {s s' : Store} {p q r : Proc}
    (h : (if isLastEnabledAdmin s then some (s, p) else some (s, q)) = some (s', r)) :
    s' = s ∧ (r = p ∨ r = q) := by
  split_ifs at h
  · cases h
    exact ⟨rfl, .inl rfl⟩
  · cases h
    exact ⟨rfl, .inr rfl⟩

/-- What a statement of a process makes of the database, each with the statements that do it. -/
inductive Writes (s : Store) (p : Proc) : Store → Prop
  | nothing : Writes s p s
  | sign {user : User} {ids : ID × ID} {t : TokenPair} {s' : Store} :
      generateTokens s user ids = some (s', t) → Writes s p s'
  | login {t : TokenPair} {user : User} :
      p = .loginStore t user → Writes s p (storeRefreshToken s t.refreshToken)
  | refresh {claims : Claims} {t : TokenPair} :
      p = .refreshStore claims t → Writes s p (storeRefreshToken s t.refreshToken)
  | revoke (P : RefreshToken → Bool) : Writes s p (revokeWhere s P)
  | create {user : User} {users : Table User} :
      p = .createInsert user → s.users.insert user = some users →
        Writes s p { s with users := users }
  | change {id : ID} {newHash : String} :
      p = .changeUpdate id newHash → Writes s p (changeUpdate s id newHash)
  | reset {id : ID} {newHash : String} :
      p = .resetExec id newHash → Writes s p (resetExec s id newHash)
  | update {id : ID} {email role : String} {enabled : Bool} :
      p = .updateExec id email role enabled → Writes s p (updateExec s id email role enabled)
  | delete {id : ID} : p = .deleteExec id → Writes s p (deleteExec s id)

theorem step_writes {H : Hasher} {s s' : Store} {p q : Proc} (h : step H s p = some (s', q)) :
    Writes s p s' := by
  cases p with
  | loginSelect req ids =>
    rcases loginSelect_eq h with ⟨rfl, -⟩ | ⟨user, t, -, -, ht, -⟩
    · exact .nothing
    · exact .sign ht
  | refreshLookup claims ids =>
    rcases refreshLookup_eq h with ⟨rfl, -⟩ | ⟨user, t, -, ht, -⟩
    · exact .nothing
    · exact .sign ht
  | loginStore t user =>
    cases h
    exact .login rfl
  | refreshStore claims t =>
    cases h
    exact .refresh rfl
  | refreshRevoke claims t =>
    cases h
    exact .revoke _
  | changeRevokeAll userID =>
    cases h
    exact .revoke _
  | logoutRevoke token =>
    cases h
    unfold logoutRevoke
    split
    · exact .nothing
    · exact .revoke _
  | createInsert user =>
    obtain ⟨-, rfl | ⟨users, husers, rfl⟩⟩ := createInsert_eq (Option.some.inj h)
    · exact .nothing
    · exact .create rfl husers
  | updateCount id email role enabled =>
    obtain ⟨rfl, -⟩ := count_eq h
    exact .nothing
  | deleteCount id =>
    obtain ⟨rfl, -⟩ := count_eq h
    exact .nothing
  | changeUpdate id newHash =>
    cases h
    exact .change rfl
  | resetExec id newHash =>
    cases h
    exact .reset rfl
  | updateExec id email role enabled =>
    cases h
    exact .update rfl
  | deleteExec id =>
    cases h
    exact .delete rfl
  | done response => cases h
  | refreshed claims tokens => cases h
  | _ =>
    cases h
    exact .nothing

/-- The only writes to the users table: a new row, a password, the columns an
administrator edits, and a deletion. -/
theorem step_users {H : Hasher} {s s' : Store} {p q : Proc} (h : step H s p = some (s', q)) :
    s'.users = s.users ∨
    (∃ user, p = .createInsert user ∧ s.users.insert user = some s'.users) ∨
    (∃ id newHash, p = .changeUpdate id newHash ∧ s' = changeUpdate s id newHash) ∨
    (∃ id newHash, p = .resetExec id newHash ∧ s' = resetExec s id newHash) ∨
    (∃ id email role enabled, p = .updateExec id email role enabled ∧
      s' = updateExec s id email role enabled) ∨
    (∃ id, p = .deleteExec id ∧ s' = deleteExec s id) := by
  cases step_writes h with
  | nothing => exact .inl rfl
  | sign ht =>
    obtain ⟨signed, rfl, -⟩ := generateTokens_eq ht
    exact .inl rfl
  | login hp => exact .inl (storeRefreshToken_users ..)
  | refresh hp => exact .inl (storeRefreshToken_users ..)
  | revoke P => exact .inl (revokeWhere_users ..)
  | create hp husers => exact .inr (.inl ⟨_, hp, husers⟩)
  | change hp => exact .inr (.inr (.inl ⟨_, _, hp, rfl⟩))
  | reset hp => exact .inr (.inr (.inr (.inl ⟨_, _, hp, rfl⟩)))
  | update hp => exact .inr (.inr (.inr (.inr (.inl ⟨_, _, _, _, hp, rfl⟩))))
  | delete hp => exact .inr (.inr (.inr (.inr (.inr ⟨_, hp, rfl⟩))))

/-- Processes outside the middle of a login or a refresh. -/
def Proc.quiet : Proc → Bool
  | .loginStore .. | .refreshLookup .. | .refreshRevoke .. | .refreshStore .. | .refreshed .. =>
    false
  | _ => true

theorem quiet_of_fresh {p : Proc} (h : p.fresh) : p.quiet := by
  cases p <;> simp_all [Proc.fresh, Proc.quiet]

theorem changeSelect_quiet (H : Hasher) (s : Store) (userID : ID) (req : ChangePasswordRequest)
    (salt : String) : (changeSelect H s userID req salt).quiet := by
  unfold changeSelect
  split
  · rfl
  · split_ifs <;> rfl

theorem createTenant_quiet (H : Hasher) (s : Store) (actor : ID) (req : CreateUserRequest)
    (uuid : ID) (salt : String) : (createTenant H s actor req uuid salt).quiet := by
  unfold createTenant
  split <;> rfl

theorem updateSelect_quiet (s : Store) (actor : Option ID) (id : ID) (req : UpdateUserRequest) :
    (updateSelect s actor id req).quiet := by
  unfold updateSelect
  split
  · rfl
  · dsimp only
    split_ifs <;> rfl

theorem deleteSelect_quiet (s : Store) (id : ID) : (deleteSelect s id).quiet := by
  unfold deleteSelect
  split
  · rfl
  · split_ifs <;> rfl

theorem resetExists_quiet (H : Hasher) (s : Store) (id : ID) (newPassword salt : String) :
    (resetExists H s id newPassword salt).quiet := by
  unfold resetExists
  split_ifs <;> rfl

/-- Everything a statement can do to the session of the process that sends it. -/
theorem step_session {H : Hasher} {s s' : Store} {p q : Proc} (h : step H s p = some (s', q)) :
    q.quiet ∨
    (∃ req ids user t, p = .loginSelect req ids ∧ q = .loginStore t user ∧
      user ∈ s.users.rows ∧ user.enabled ∧ generateTokens s user ids = some (s', t)) ∨
    (∃ claims ids, p = .refreshCheck (.claims claims) ids ∧ q = .refreshLookup claims ids ∧
      s' = s ∧ s.signed.select claims.id = some claims ∧
      refreshTokenRevoked s claims.id = false) ∨
    (∃ claims ids user t, p = .refreshLookup claims ids ∧ q = .refreshRevoke claims t ∧
      s.users.select claims.userID = some user ∧ generateTokens s user ids = some (s', t)) ∨
    (∃ claims t, p = .refreshRevoke claims t ∧ q = .refreshStore claims t ∧
      s' = revokeRefreshToken s claims.id) ∨
    (∃ claims t, p = .refreshStore claims t ∧ q = .refreshed claims t ∧
      s' = storeRefreshToken s t.refreshToken) := by
  cases p with
  | loginSelect req ids =>
    rcases loginSelect_eq h with ⟨-, rfl⟩ | ⟨user, t, hu, he, ht, rfl⟩
    · exact .inl rfl
    · exact .inr (.inl ⟨req, ids, user, t, rfl, rfl, hu, he, ht⟩)
  | refreshCheck token ids =>
    cases h
    obtain herror | ⟨c, rfl, hc, hr, hlookup⟩ := refreshCheck_eq s token ids
    · rw [herror]
      exact .inl rfl
    · exact .inr (.inr (.inl ⟨c, ids, rfl, hlookup, rfl, hc, hr⟩))
  | refreshLookup claims ids =>
    rcases refreshLookup_eq h with ⟨-, -, rfl⟩ | ⟨user, t, hu, ht, rfl⟩
    · exact .inl rfl
    · exact .inr (.inr (.inr (.inl ⟨claims, ids, user, t, rfl, rfl, hu, ht⟩)))
  | refreshRevoke claims t =>
    cases h
    exact .inr (.inr (.inr (.inr (.inl ⟨claims, t, rfl, rfl, rfl⟩))))
  | refreshStore claims t =>
    cases h
    exact .inr (.inr (.inr (.inr (.inr ⟨claims, t, rfl, rfl, rfl⟩))))
  | changeSelect userID req salt =>
    cases h
    exact .inl (changeSelect_quiet H s userID req salt)
  | createTenant actor req uuid salt =>
    cases h
    exact .inl (createTenant_quiet H s actor req uuid salt)
  | createInsert user =>
    obtain ⟨⟨response, rfl⟩, -⟩ := createInsert_eq (Option.some.inj h)
    exact .inl rfl
  | updateSelect actor id req =>
    cases h
    exact .inl (updateSelect_quiet s actor id req)
  | updateCount id email role enabled =>
    obtain ⟨-, rfl | rfl⟩ := count_eq h
    · exact .inl rfl
    · exact .inl rfl
  | deleteSelect id =>
    cases h
    exact .inl (deleteSelect_quiet s id)
  | deleteCount id =>
    obtain ⟨-, rfl | rfl⟩ := count_eq h
    · exact .inl rfl
    · exact .inl rfl
  | resetExists id newPassword salt =>
    cases h
    exact .inl (resetExists_quiet H s id newPassword salt)
  | done response => cases h
  | refreshed claims tokens => cases h
  | _ =>
    cases h
    exact .inl rfl

/-- The only writes to refresh_tokens: the row of a new pair, and a revocation
of the rows a condition picks. -/
theorem step_refreshTokens {H : Hasher} {s s' : Store} {p q : Proc}
    (h : step H s p = some (s', q)) :
    s'.refreshTokens = s.refreshTokens ∨
    (∃ t user, p = .loginStore t user ∧ s' = storeRefreshToken s t.refreshToken) ∨
    (∃ claims t, p = .refreshStore claims t ∧ s' = storeRefreshToken s t.refreshToken) ∨
    (∃ P, s' = revokeWhere s P) := by
  cases step_writes h with
  | sign ht =>
    obtain ⟨signed, rfl, -⟩ := generateTokens_eq ht
    exact .inl rfl
  | login hp => exact .inr (.inl ⟨_, _, hp, rfl⟩)
  | refresh hp => exact .inr (.inr (.inl ⟨_, _, hp, rfl⟩))
  | revoke P => exact .inr (.inr (.inr ⟨P, rfl⟩))
  | _ => exact .inl rfl

/-- No statement removes a row, clears `revoked_at` or gives a row away. -/
theorem step_keeps_row {H : Hasher} {s s' : Store} {p q : Proc} (h : step H s p = some (s', q))
    {id : ID} {row : RefreshToken} (hrow : s.refreshTokens.select id = some row) :
    ∃ row', s'.refreshTokens.select id = some row' ∧ row'.userID = row.userID ∧
      (row.revoked → row'.revoked) := by
  have hstore : ∀ claims, (storeRefreshToken s claims).refreshTokens.select id = some row := by
    intro claims
    rw [select_storeRefreshToken, hrow]
    simp
  rcases step_refreshTokens h with he | ⟨t, user, -, rfl⟩ | ⟨claims, t, -, rfl⟩ | ⟨P, rfl⟩
  · exact ⟨row, by rw [he, hrow], rfl, fun hr => hr⟩
  · exact ⟨row, hstore _, rfl, fun hr => hr⟩
  · exact ⟨row, hstore _, rfl, fun hr => hr⟩
  · refine ⟨if P row then { row with revoked := true } else row, ?_, ?_, ?_⟩
    · rw [select_revokeWhere, hrow]
      rfl
    · split_ifs <;> rfl
    · intro hr
      split_ifs
      · rfl
      · exact hr

/-- Only signing writes the record of what was signed. -/
theorem step_signed {H : Hasher} {s s' : Store} {p q : Proc} (h : step H s p = some (s', q)) :
    s'.signed = s.signed ∨ ∃ user ids t, generateTokens s user ids = some (s', t) := by
  cases step_writes h with
  | sign ht => exact .inr ⟨_, _, _, ht⟩
  | login hp => exact .inl (storeRefreshToken_signed ..)
  | refresh hp => exact .inl (storeRefreshToken_signed ..)
  | _ => exact .inl rfl

/-- A signed pair belongs to the user and stays signed. -/
theorem mem_signed_of_generateTokens {s s' : Store} {user : User} {ids : ID × ID} {t : TokenPair}
    (h : generateTokens s user ids = some (s', t)) :
    (∀ c ∈ s.signed.rows, c ∈ s'.signed.rows) ∧ t.refreshToken ∈ s'.signed.rows ∧
      t.refreshToken.userID = user.id := by
  obtain ⟨signed, rfl, rfl, signed₁, h₁, h₂⟩ := generateTokens_eq h
  have hrows₁ := Table.rows_insert h₁
  have hrows := Table.rows_insert h₂
  refine ⟨fun c hc => ?_, ?_, rfl⟩
  · simp [hrows, hrows₁, hc]
  · simp [hrows]

theorem step_keeps_signed {H : Hasher} {s s' : Store} {p q : Proc}
    (h : step H s p = some (s', q)) {c : Claims} (hc : c ∈ s.signed.rows) :
    c ∈ s'.signed.rows := by
  rcases step_signed h with he | ⟨user, ids, t, ht⟩
  · rw [he]
    exact hc
  · exact (mem_signed_of_generateTokens ht).1 c hc

theorem select_updateUsers (s : Store) (id : ID) (f : User → User) (hf : ∀ u, (f u).id = u.id)
    (userID : ID) : (updateUsers s id f hf).users.select userID =
      (s.users.select userID).map fun u => if u.id = id then f u else u := by
  unfold updateUsers
  rw [Table.select_update]
  simp only [decide_eq_true_eq]

/-- Only a new row brings a missing user back. -/
theorem step_keeps_missing {H : Hasher} {s s' : Store} {p q : Proc}
    (h : step H s p = some (s', q)) {userID : ID} (hu : s.users.select userID = none)
    (hnew : ∀ user, p = .createInsert user → user.id ≠ userID) :
    s'.users.select userID = none := by
  rcases step_users h with he | ⟨user, rfl, hi⟩ | ⟨id, newHash, rfl, rfl⟩ |
    ⟨id, newHash, rfl, rfl⟩ | ⟨id, email, role, enabled, rfl, rfl⟩ | ⟨id, rfl, rfl⟩
  · rw [he, hu]
  · have hne : Keyed.key user ≠ userID := hnew user rfl
    rw [Table.select_insert hi, if_neg hne, hu]
  · rw [changeUpdate, select_updateUsers, hu, Option.map_none]
  · rw [resetExec, select_updateUsers, hu, Option.map_none]
  · rw [updateExec, select_updateUsers, hu, Option.map_none]
  · rw [deleteExec, Table.select_delete, hu, Option.filter_none]

end NetBerth.Accounts
