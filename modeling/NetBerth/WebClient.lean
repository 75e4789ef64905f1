import NetBerth.AccountCalls
import NetBerth.TokenKinds

/-!
# Calls of the web client that refresh their tokens

The client holds one pair of tokens for all its calls. A call that is answered with 401
presents the refresh token, stores the pair that it is answered with and is sent again. If
the server does not answer with a pair, the call clears the tokens and the user has to log
in.

No call looks whether another one is refreshing. The server takes a refresh token once, so
the second of two calls may find that the first has spent it.

Each await of a call is the end of a step, and so is each statement of the server's.
-/
namespace NetBerth.WebClient
open Interleaving SqlTable Accounts TokenKinds
open SessionInvalidation (HasUser Issued)

/-! ## Tokens of the client -/

/-- The variables of the module, and what it keeps in the local storage. A token that is
absent is null. -/
structure Client where
  accessToken : Option RawToken
  refreshToken : Option RawToken
  localStorage : Option RawToken × Option RawToken
  deriving DecidableEq, Repr

/-- What the module begins with. -/
def load (localStorage : Option RawToken × Option RawToken) : Client :=
  ⟨localStorage.1, localStorage.2, localStorage⟩

def setTokens (access refresh : RawToken) : Client :=
  ⟨some access, some refresh, (some access, some refresh)⟩

def clearTokens : Client := ⟨none, none, (none, none)⟩

/-- A token that counts as true. -/
def truthy : Option RawToken → Option RawToken
  | some .empty => none
  | token => token

/-- The header of the first try. -/
def authorization (accessToken : Option RawToken) : AuthHeader :=
  match truthy accessToken with
  | none => ⟨"", none⟩
  | some token => ⟨"Bearer", some token⟩

/-! ## Calls -/

/-- The ids of the pair that the server signs if the call refreshes. -/
abbrev Draw := { ids : ID × ID // ids.2 ≠ "" }

/-- A request may be stopped in front of its handler, by a limiter for one. The status is
the one it is answered with then, or the handler's. -/
structure Choice where
  stopped : Bool
  status : ℕ
  deriving DecidableEq, Repr

structure Page where
  client : Client
  server : Store

/-- How far a call is. A refresh is as far as the server's handler. -/
inductive Call where
  | called (ids : Draw)
  | sent (header : AuthHeader) (ids : Draw)
  | answered (status : ℕ) (ids : Draw)
  | refreshing (p : Proc)
  | refused
  | obtained (tokens : TokenPair)
  | retried (header : AuthHeader) (tokens : TokenPair)
  | finished (status : ℕ) (tokens : Option TokenPair)
  | expired
  deriving DecidableEq

/-- The status of the answer on a protected route. -/
def serve (s : Store) (a : Choice) (header : AuthHeader) : ℕ :=
  if a.stopped then a.status
  else
    match authMiddleware s header with
    | .refused _ status => status
    | .passed _ => a.status

section
variable (H : Hasher) (a : Choice) (s : Page)

/-- The request for a new pair, up to the tokens it sets. -/
def refreshAccessToken : Proc → Option (Page × Call)
  | .refreshed _ tokens =>
    some ({ s with client := setTokens (.claims tokens.accessToken) (.claims tokens.refreshToken) },
      .obtained tokens)
  | .done _ => some (s, .refused)
  | p =>
    if a.stopped ∧ p.fresh then some (s, .refused)
    else (step H s.server p).map fun t => ({ s with server := t.1 }, .refreshing t.2)

def api : Call → Option (Page × Call)
  | .called ids => some (s, .sent (authorization s.client.accessToken) ids)
  | .sent header ids => some (s, .answered (serve s.server a header) ids)
  | .answered status ids =>
    if status = 401 then
      match truthy s.client.refreshToken with
      | none => some (s, .finished status none)
      | some token => some (s, .refreshing (start H (.refreshToken (.ok token) ids)))
    else some (s, .finished status none)
  | .refreshing p => refreshAccessToken H a s p
  | .refused => some ({ s with client := clearTokens }, .expired)
  | .obtained tokens =>
    some (s, .retried ⟨"Bearer", some (s.client.accessToken.getD .invalid)⟩ tokens)
  | .retried header tokens => some (s, .finished (serve s.server a header) (some tokens))
  | .finished _ _ | .expired => none

end

def machine (H : Hasher) : Machine Page Call Draw Choice where
  start := .called
  step := api H

/-- A page with tokens in the local storage, before its first call. -/
def opened (server : Store) (access : RawToken) (claims : Claims) : Config Page Call :=
  ⟨⟨load (some access, some (.claims claims)), server⟩, []⟩

/-! ## What is to hold of them -/

/-- The server answers with a pair. -/
structure Accepted (s : Store) (claims : Claims) : Prop where
  signed : claims ∈ s.signed.rows
  unrevoked : refreshTokenRevoked s claims.id = false
  user : HasUser s claims.userID

def Call.hasObtained : Call → Bool
  | .obtained _ | .retried _ _ | .finished _ (some _) => true
  | _ => false

def Call.over : Call → Bool
  | .finished _ _ | .expired => true
  | _ => false

/-- Tokens that a call has obtained are not cleared, and when all calls are over the client
holds a pair that can be refreshed. -/
structure LoggedIn (c : Config Page Call) : Prop where
  kept : (∃ p ∈ c.procs, p.hasObtained) → c.shared.client ≠ clearTokens
  held : (∀ p ∈ c.procs, p.over) → ∃ access claims,
    c.shared.client = load (some access, some (.claims claims)) ∧ Accepted c.shared.server claims

/-- The token that a handler is about to look for. -/
def Call.checked : Call → Option Claims
  | .refreshing (.refreshCheck (.claims claims) _) => some claims
  | _ => none

/-- The request for a new pair gets to its handler, and the token is not revoked when the
handler looks. -/
def Redeemable (s : Page) (a : Choice) (p : Call) : Prop :=
  ∀ claims ∈ p.checked, a.stopped = false ∧ refreshTokenRevoked s.server claims.id = false

def Redeems (c : Config Page Call) : Act Draw Choice → Prop
  | .spawn _ => True
  | .run i a => ∀ p ∈ c.procs[i]?, Redeemable c.shared a p

instance (s : Page) (a : Choice) (p : Call) : Decidable (Redeemable s a p) :=
  inferInstanceAs (Decidable (∀ claims ∈ p.checked, _))

instance (c : Config Page Call) : (act : Act Draw Choice) → Decidable (Redeems c act)
  | .spawn _ => inferInstanceAs (Decidable True)
  | .run i a => inferInstanceAs (Decidable (∀ p ∈ c.procs[i]?, Redeemable c.shared a p))

/-! ## Tokens that are accepted -/

section
variable {s : Store} {claims : Claims} {ids : ID × ID}

theorem refreshCheck_of_unrevoked (hsigned : claims ∈ s.signed.rows)
    (hunrevoked : refreshTokenRevoked s claims.id = false) :
    refreshCheck s (.claims claims) ids = .refreshLookup claims ids := by
  have hselect : s.signed.select claims.id = some claims := Table.select_eq_some.mpr ⟨hsigned, rfl⟩
  simp [refreshCheck, validateToken, hselect, hunrevoked]

/-- The handler alone answers with a pair, if it draws ids that can be signed. -/
theorem Accepted.refreshed (h : Accepted s claims) (H : Hasher)
    (hids : ∀ user, (generateTokens s user ids).isSome) : ∃ t,
      (AccountCalls.call H s (.refreshToken (.ok (.claims claims)) ids)).2 = .refreshed claims t := by
  have hcheck : refreshCheck s (.claims claims) ids = .refreshLookup claims ids :=
    refreshCheck_of_unrevoked h.signed h.unrevoked
  obtain ⟨user, huser⟩ := Option.isSome_iff_exists.mp h.user
  obtain ⟨⟨s', t⟩, htokens⟩ := Option.isSome_iff_exists.mp (hids user)
  refine ⟨t, ?_⟩
  simp [AccountCalls.call, AccountCalls.runHandler, start, Body.decode, step, hcheck,
    refreshLookup, huser, htokens]

end

/-! ## What a call holds -/

/-- The id of a refresh token that is signed for the call, which has not set it yet. -/
def Call.pending : Call → Option ID
  | .refreshing (.refreshRevoke _ t) | .refreshing (.refreshStore _ t)
  | .refreshing (.refreshed _ t) => some t.refreshToken.id
  | _ => none

/-- The id of the token that the call has presented, until it is revoked. -/
def Call.presented : Call → Option ID
  | .refreshing (.refreshCheck (.claims c) _) | .refreshing (.refreshLookup c _)
  | .refreshing (.refreshRevoke c _) => some c.id
  | _ => none

/-- The call has passed the check. -/
def Call.succeeding : Call → Bool
  | .refreshing (.refreshLookup _ _) | .refreshing (.refreshRevoke _ _)
  | .refreshing (.refreshStore _ _) | .refreshing (.refreshed _ _) => true
  | _ => false

structure Known (s : Store) (claims : Claims) : Prop where
  signed : claims ∈ s.signed.rows
  user : HasUser s claims.userID

/-- A token that can be stored. -/
structure Storable (s : Store) (claims : Claims) : Prop where
  known : Known s claims
  missing : s.refreshTokens.select claims.id = none
  id_ne : claims.id ≠ ""

def Sound (s : Store) : Call → Prop
  | .refreshing (.refreshCheck token ids) => (∃ c, token = .claims c ∧ Known s c) ∧ ids.2 ≠ ""
  | .refreshing (.refreshLookup c ids) => Known s c ∧ ids.2 ≠ ""
  | .refreshing (.refreshRevoke c t) => Known s c ∧ Storable s t.refreshToken
  | .refreshing (.refreshStore _ t) => Storable s t.refreshToken
  | .refreshing (.refreshed _ t) =>
    Known s t.refreshToken ∧ refreshTokenRevoked s t.refreshToken.id = false
  | .refreshing _ | .refused | .expired => False
  | _ => True

/-- What a call has pending is nobody else's. -/
def Apart (p r : Call) : Prop := ∀ id ∈ p.pending, id ∉ r.pending ∧ id ∉ r.presented

/-- The token of the client is not revoked, or a call is about to replace it. -/
structure Current (s : Page) (procs : List Call) (access : RawToken) (claims : Claims) : Prop where
  client : s.client = load (some access, some (.claims claims))
  known : Known s.server claims
  unrevoked : refreshTokenRevoked s.server claims.id = false ∨ ∃ p ∈ procs, p.succeeding
  apart : ∀ p ∈ procs, claims.id ∉ p.pending

structure Inv (c : Config Page Call) : Prop where
  issued : Issued c.shared.server
  current : ∃ access claims, Current c.shared c.procs access claims
  sound : ∀ p ∈ c.procs, Sound c.shared.server p
  apart : Pairs Apart c.procs

/-- What the server keeps of its tokens. -/
structure Frame (s s' : Store) (revoked stored : Option ID) : Prop where
  known : ∀ c, Known s c → Known s' c
  missing : ∀ id, id ∉ stored → s.refreshTokens.select id = none →
    s'.refreshTokens.select id = none
  unrevoked : ∀ id, id ∉ revoked → refreshTokenRevoked s id = false →
    refreshTokenRevoked s' id = false

theorem loggedIn_of_inv {c : Config Page Call} (h : Inv c) : LoggedIn c := by
  obtain ⟨access, claims, hcurrent⟩ := h.current
  constructor
  · intro _ hclear
    rw [hcurrent.client] at hclear
    cases hclear
  · intro hover
    refine ⟨access, claims, hcurrent.client, hcurrent.known.signed, ?_, hcurrent.known.user⟩
    obtain hunrevoked | ⟨p, hp, hsucceeding⟩ := hcurrent.unrevoked
    · exact hunrevoked
    · have hp := hover p hp
      cases p <;> simp_all [Call.over, Call.succeeding]

/-! ## Statements of the server -/

section
variable {s s' : Store} {c : Claims} {id : ID}

theorem Frame.refl (s : Store) (revoked stored : Option ID) : Frame s s revoked stored :=
  ⟨fun _ h => h, fun _ _ h => h, fun _ _ h => h⟩

theorem frame_generateTokens {user : User} {ids : ID × ID} {t : TokenPair}
    (h : generateTokens s user ids = some (s', t)) (revoked stored : Option ID) :
    Frame s s' revoked stored := by
  obtain ⟨signed, rfl, -⟩ := generateTokens_eq h
  refine ⟨?_, fun _ _ hmissing => hmissing, fun _ _ hunrevoked => hunrevoked⟩
  intro c hc
  exact ⟨(mem_signed_of_generateTokens h).1 c hc.signed, hc.user⟩

theorem refreshTokenRevoked_of_select (h : s'.refreshTokens.select id = s.refreshTokens.select id) :
    refreshTokenRevoked s' id = refreshTokenRevoked s id := by
  simp only [refreshTokenRevoked, h]

theorem frame_revoke (s : Store) (id : ID) (stored : Option ID) :
    Frame s (revokeRefreshToken s id) (some id) stored := by
  constructor
  · exact fun c hc => ⟨hc.signed, hc.user⟩
  · intro id' _ hmissing
    rw [revokeRefreshToken, select_revokeWhere, hmissing, Option.map_none]
  · intro id' hne hunrevoked
    rw [← hunrevoked]
    apply refreshTokenRevoked_of_select
    rw [revokeRefreshToken, select_revokeWhere]
    cases hrow : s.refreshTokens.select id' with
    | none => rfl
    | some row =>
      have hid : row.id = id' := (Table.select_eq_some.mp hrow).2
      have hother : row.id ≠ id := fun he => hne (by rw [← hid, he]; rfl)
      simp [hother]

theorem frame_store (s : Store) (c : Claims) (revoked : Option ID) :
    Frame s (storeRefreshToken s c) revoked (some c.id) := by
  constructor
  · intro d hd
    exact ⟨by simpa using hd.signed, by simpa [HasUser] using hd.user⟩
  · intro id hne hmissing
    have hother : c.id ≠ id := fun he => hne (by rw [he]; rfl)
    rw [select_storeRefreshToken, if_neg fun h => hother h.1, hmissing]
  · intro id _ hunrevoked
    rw [← hunrevoked]
    apply refreshTokenRevoked_of_select
    rw [select_storeRefreshToken, if_neg]
    rintro ⟨-, -, hnone⟩
    simp [refreshTokenRevoked, hnone] at hunrevoked

theorem unrevoked_store (h : Storable s c) :
    refreshTokenRevoked (storeRefreshToken s c) c.id = false := by
  have hrow := select_storeRefreshToken s c c.id
  rw [if_pos ⟨rfl, h.id_ne, h.missing⟩] at hrow
  simp only [refreshTokenRevoked, hrow]

end

/-! ## Steps of a call -/

/-- Nothing of the call's is at the server, and it has not been refused. -/
def Call.idle : Call → Bool
  | .refreshing _ | .refused | .expired => false
  | _ => true

section
variable {s : Store} {p q : Call}

theorem pending_of_idle (h : p.idle) : p.pending = none := by
  cases p <;> first | rfl | cases h

theorem presented_of_idle (h : p.idle) : p.presented = none := by
  cases p <;> first | rfl | cases h

theorem succeeding_of_idle (h : p.idle) : p.succeeding = false := by
  cases p <;> first | rfl | cases h

theorem sound_of_idle (h : p.idle) : Sound s p := by
  cases p <;> trivial

end

/-- Everything a sound call can do in a page that has tokens, if the token it presents can
be redeemed. -/
inductive Moved (s : Page) : Call → Page → Call → Prop
  | idle {p q : Call} (hp : p.idle) (hq : q.idle) : Moved s p s q
  | present {p : Call} {claims : Claims} {ids : Draw} (hp : p.idle)
    (hclient : s.client.refreshToken = some (.claims claims)) :
    Moved s p s (.refreshing (.refreshCheck (.claims claims) ids))
  | check {c : Claims} {ids : ID × ID} :
    Moved s (.refreshing (.refreshCheck (.claims c) ids)) s (.refreshing (.refreshLookup c ids))
  | lookup {c : Claims} {ids : ID × ID} {user : User} {server : Store} {t : TokenPair}
    (huser : s.server.users.select c.userID = some user)
    (htokens : generateTokens s.server user ids = some (server, t)) :
    Moved s (.refreshing (.refreshLookup c ids)) { s with server }
      (.refreshing (.refreshRevoke c t))
  | revoke {c : Claims} {t : TokenPair} :
    Moved s (.refreshing (.refreshRevoke c t))
      { s with server := revokeRefreshToken s.server c.id } (.refreshing (.refreshStore c t))
  | store {c : Claims} {t : TokenPair} :
    Moved s (.refreshing (.refreshStore c t))
      { s with server := storeRefreshToken s.server t.refreshToken } (.refreshing (.refreshed c t))
  | set {c : Claims} {t : TokenPair} :
    Moved s (.refreshing (.refreshed c t))
      { s with client := setTokens (.claims t.accessToken) (.claims t.refreshToken) } (.obtained t)

section
variable {H : Hasher} {a : Choice} {s s' : Page} {p q : Call} {access : RawToken} {claims : Claims}

theorem moved_of_refresh {p : Proc} (h : refreshAccessToken H a s p = some (s', q))
    (hp : Sound s.server (.refreshing p)) (hredeemable : Redeemable s a (.refreshing p)) :
    Moved s (.refreshing p) s' q := by
  cases p with
  | refreshCheck token ids =>
    obtain ⟨⟨c, rfl, hknown⟩, -⟩ := hp
    obtain ⟨hreached, hunrevoked⟩ := hredeemable c rfl
    have hcheck : refreshCheck s.server (.claims c) ids = .refreshLookup c ids :=
      refreshCheck_of_unrevoked hknown.signed hunrevoked
    simp only [refreshAccessToken, hreached, step, hcheck] at h
    cases h
    exact .check
  | refreshLookup c ids =>
    simp only [refreshAccessToken, Proc.fresh, Bool.false_eq_true, and_false, if_false] at h
    obtain ⟨⟨t, q⟩, hstep, he⟩ := Option.map_eq_some_iff.mp h
    cases he
    obtain ⟨-, hnone, -⟩ | ⟨user, tokens, huser, htokens, rfl⟩ := refreshLookup_eq hstep
    · have huser : HasUser s.server c.userID := hp.1.user
      simp [HasUser, hnone] at huser
    · exact .lookup huser htokens
  | refreshRevoke c t =>
    simp only [refreshAccessToken, Proc.fresh, Bool.false_eq_true, and_false, if_false] at h
    cases h
    exact .revoke
  | refreshStore c t =>
    simp only [refreshAccessToken, Proc.fresh, Bool.false_eq_true, and_false, if_false] at h
    cases h
    exact .store
  | refreshed c t =>
    cases h
    exact .set
  | _ => exact hp.elim

theorem moved_of_api (h : api H a s p = some (s', q)) (hp : Sound s.server p)
    (hredeemable : Redeemable s a p)
    (hclient : s.client = load (some access, some (.claims claims))) : Moved s p s' q := by
  cases p with
  | called ids | sent header ids | obtained tokens | retried header tokens =>
    cases h
    exact .idle rfl rfl
  | answered status ids =>
    have htoken : truthy s.client.refreshToken = some (.claims claims) := by
      rw [hclient]
      rfl
    simp only [api, htoken] at h
    split_ifs at h <;> cases h
    · exact .present rfl (by rw [hclient]; rfl)
    · exact .idle rfl rfl
  | refreshing p => exact moved_of_refresh h hp hredeemable
  | refused => exact hp.elim
  | finished status tokens => cases h
  | expired => cases h

end

/-! ## What a step keeps -/

section
variable {s s' : Page} {p q r : Call}

theorem frame_of_moved (h : Moved s p s' q) :
    Frame s.server s'.server p.presented p.pending := by
  cases h with
  | idle | present | check | set => exact .refl _ _ _
  | lookup _ htokens => exact frame_generateTokens htokens _ _
  | revoke => exact frame_revoke _ _ _
  | store => exact frame_store _ _ _

theorem Storable.frame {s s' : Store} {revoked stored : Option ID} {c : Claims}
    (h : Storable s c) (hframe : Frame s s' revoked stored) (hc : c.id ∉ stored) :
    Storable s' c := ⟨hframe.known c h.known, hframe.missing c.id hc h.missing, h.id_ne⟩

/-- The others do not notice what becomes of a token that is not theirs. -/
theorem Sound.frame {s s' : Store} (h : Sound s r) (hframe : Frame s s' p.presented p.pending)
    (hapart : Apart r p) : Sound s' r := by
  cases r with
  | refreshing proc =>
    cases proc with
    | refreshCheck token ids =>
      obtain ⟨⟨c, rfl, hc⟩, hids⟩ := h
      exact ⟨⟨c, rfl, hframe.known c hc⟩, hids⟩
    | refreshLookup c ids => exact ⟨hframe.known c h.1, h.2⟩
    | refreshRevoke c t => exact ⟨hframe.known c h.1, h.2.frame hframe (hapart _ rfl).1⟩
    | refreshStore c t => exact Storable.frame h hframe (hapart _ rfl).1
    | refreshed c t => exact ⟨hframe.known _ h.1, hframe.unrevoked _ (hapart _ rfl).2 h.2⟩
    | _ => exact h.elim
  | refused | expired => exact h.elim
  | _ => trivial

theorem storable_of_generateTokens {s s' : Store} (hs : Issued s) {c : Claims} {user : User}
    {ids : ID × ID} {t : TokenPair} (huser : s.users.select c.userID = some user)
    (h : generateTokens s user ids = some (s', t)) (hids : ids.2 ≠ "") :
    Storable s' t.refreshToken := by
  obtain ⟨-, -, hfresh, hrows⟩ := fresh_of_generateTokens h
  obtain ⟨-, hsigned, huserID⟩ := mem_signed_of_generateTokens h
  obtain ⟨signed, rfl, rfl, -⟩ := generateTokens_eq h
  have hid : user.id = c.userID := (Table.select_eq_some.mp huser).2
  refine ⟨⟨hsigned, ?_⟩, ?_, hids⟩
  · simp [HasUser, hid, huser]
  · rw [hrows]
    apply Table.select_eq_none.mpr
    intro row hrow he
    obtain ⟨d, hd, hdid, -⟩ := hs row hrow
    exact (hfresh d hd).2 (hdid.trans he)

theorem sound_of_moved (h : Moved s p s' q) (hs : Issued s.server) (hp : Sound s.server p)
    (hclient : ∀ claims, s.client.refreshToken = some (.claims claims) → Known s.server claims) :
    Sound s'.server q := by
  cases h with
  | idle _ hq => exact sound_of_idle hq
  | @present _ claims ids _ hcurrent => exact ⟨⟨claims, rfl, hclient claims hcurrent⟩, ids.2⟩
  | check =>
    obtain ⟨⟨c, hc, hknown⟩, hids⟩ := hp
    cases hc
    exact ⟨hknown, hids⟩
  | @lookup c _ _ _ _ huser htokens =>
    have hframe := frame_generateTokens htokens none none
    exact ⟨hframe.known c hp.1, storable_of_generateTokens hs huser htokens hp.2⟩
  | @revoke c t => exact hp.2.frame (frame_revoke s.server c.id none) (by simp)
  | @store c t =>
    have hframe := frame_store s.server t.refreshToken none
    exact ⟨hframe.known _ hp.known, unrevoked_store hp⟩
  | set => trivial

theorem issued_of_moved (h : Moved s p s' q) (hs : Issued s.server) (hp : Sound s.server p) :
    Issued s'.server := by
  intro row hrow
  cases h with
  | idle | present | check | set => exact hs row hrow
  | lookup _ htokens =>
    obtain ⟨-, -, -, hrows⟩ := fresh_of_generateTokens htokens
    obtain ⟨c, hc, hid⟩ := hs row (hrows ▸ hrow)
    exact ⟨c, (mem_signed_of_generateTokens htokens).1 c hc, hid⟩
  | revoke =>
    obtain ⟨row', hrow', hid, huserID⟩ := SessionInvalidation.mem_revokeWhere hrow
    rw [← hid, ← huserID]
    exact hs row' hrow'
  | @store c t =>
    rw [storeRefreshToken_signed]
    obtain hold | rfl := SessionInvalidation.mem_storeRefreshToken hrow
    · exact hs row hold
    · exact ⟨t.refreshToken, hp.known.signed, rfl, rfl⟩

/-- The ids that a call has pending or has presented are those of signed tokens. -/
theorem signed_of_sound {id : ID} {s : Store} (h : Sound s r)
    (hid : id ∈ r.pending ∨ id ∈ r.presented) : ∃ c ∈ s.signed.rows, c.id = id := by
  cases r with
  | refreshing proc =>
    cases proc with
    | refreshCheck token ids =>
      obtain ⟨⟨c, rfl, hc⟩, -⟩ := h
      obtain hid | hid := hid <;> cases hid
      exact ⟨c, hc.signed, rfl⟩
    | refreshLookup c ids =>
      obtain hid | hid := hid <;> cases hid
      exact ⟨c, h.1.signed, rfl⟩
    | refreshRevoke c t =>
      obtain hid | hid := hid <;> cases hid
      · exact ⟨t.refreshToken, h.2.known.signed, rfl⟩
      · exact ⟨c, h.1.signed, rfl⟩
    | refreshStore c t =>
      obtain hid | hid := hid <;> cases hid
      exact ⟨t.refreshToken, h.known.signed, rfl⟩
    | refreshed c t =>
      obtain hid | hid := hid <;> cases hid
      exact ⟨t.refreshToken, h.1.signed, rfl⟩
    | _ => exact h.elim
  | _ => obtain hid | hid := hid <;> cases hid

theorem apart_of_moved (h : Moved s p s' q) (hr : Sound s.server r) (hpr : Apart p r)
    (hrp : Apart r p) (hclient : ∀ claims, s.client.refreshToken = some (.claims claims) →
      claims.id ∉ r.pending) : Apart q r ∧ Apart r q := by
  cases h with
  | idle _ hq => simp [Apart, pending_of_idle hq, presented_of_idle hq]
  | @present _ claims _ _ hcurrent =>
    refine ⟨nofun, fun id hid => ⟨nofun, ?_⟩⟩
    rintro ⟨⟩
    exact hclient claims hcurrent hid
  | check => exact ⟨nofun, hrp⟩
  | @lookup _ _ _ _ t _ htokens =>
    obtain ⟨-, -, hfresh, -⟩ := fresh_of_generateTokens htokens
    have hnew : ¬(t.refreshToken.id ∈ r.pending ∨ t.refreshToken.id ∈ r.presented) := by
      intro hid
      obtain ⟨d, hd, he⟩ := signed_of_sound hr hid
      exact (hfresh d hd).2 he
    constructor
    · rintro id ⟨⟩
      exact not_or.mp hnew
    · intro id hid
      refine ⟨?_, (hrp id hid).2⟩
      rintro ⟨⟩
      exact hnew (.inl hid)
  | revoke => exact ⟨hpr, fun id hid => ⟨(hrp id hid).1, nofun⟩⟩
  | store => exact ⟨hpr, hrp⟩
  | set => exact ⟨nofun, fun id hid => ⟨nofun, nofun⟩⟩

end

section
variable {s s' : Page} {p q : Call} {procs : List Call} {i : ℕ} {access : RawToken}
  {claims : Claims}

/-- Where the client keeps its tokens, the one that is current stays so. -/
theorem current_of_moved (h : Moved s p s' q) (hp : procs[i]? = some p)
    (hsound : ∀ r ∈ procs, Sound s.server r) (hapart : Pairs Apart procs)
    (hc : Current s procs access claims) :
    ∃ access claims, Current s' (procs.set i q) access claims := by
  have hmem : p ∈ procs := List.mem_of_getElem? hp
  have hknown := (frame_of_moved h).known claims hc.known
  have hset : ∀ {q : Call}, (∀ id ∈ q.pending, id ≠ claims.id) →
      ∀ r ∈ procs.set i q, claims.id ∉ r.pending := by
    intro q hq
    exact forall_set hc.apart fun hid => hq _ hid rfl
  have hstays : p.succeeding = false → refreshTokenRevoked s.server claims.id = false ∨
      ∃ r ∈ procs.set i q, r.succeeding := by
    intro hidle
    refine hc.unrevoked.imp_right fun hr => ?_
    obtain hsucceeding | hr := exists_set hp hr
    · simp [hidle] at hsucceeding
    · exact hr
  cases h with
  | idle hp hq =>
    refine ⟨access, claims, hc.client, hknown, hstays (succeeding_of_idle hp), hset ?_⟩
    simp [pending_of_idle hq]
  | present hp _ =>
    refine ⟨access, claims, hc.client, hknown, hstays (succeeding_of_idle hp), hset nofun⟩
  | check => exact ⟨access, claims, hc.client, hknown, .inr ⟨_, mem_set_self hp, rfl⟩, hset nofun⟩
  | lookup _ htokens =>
    refine ⟨access, claims, hc.client, hknown, .inr ⟨_, mem_set_self hp, rfl⟩, hset ?_⟩
    obtain ⟨-, -, hfresh, -⟩ := fresh_of_generateTokens htokens
    rintro id ⟨⟩
    exact (hfresh claims hc.known.signed).2.symm
  | revoke | store =>
    refine ⟨access, claims, hc.client, hknown, .inr ⟨_, mem_set_self hp, rfl⟩, hset ?_⟩
    rintro id hid rfl
    exact hc.apart _ hmem hid
  | @set c t =>
    obtain ⟨htoken, hunrevoked⟩ : Known s.server t.refreshToken ∧ _ := hsound _ hmem
    refine ⟨.claims t.accessToken, t.refreshToken, rfl, htoken, .inl hunrevoked, ?_⟩
    intro r hr
    obtain ⟨j, hj⟩ := List.mem_iff_getElem?.mp hr
    obtain ⟨-, rfl⟩ | ⟨hne, hj⟩ := getElem?_set_cases hj
    · nofun
    · exact (hapart i j _ _ (Ne.symm hne) hp hj _ rfl).1

end

/-! ## Every run -/

theorem inv_spawn {c : Config Page Call} (h : Inv c) (ids : Draw) :
    Inv { c with procs := c.procs ++ [.called ids] } := by
  obtain ⟨access, claims, hcurrent⟩ := h.current
  refine ⟨h.issued, ⟨access, claims, hcurrent.client, hcurrent.known, ?_, ?_⟩, ?_, ?_⟩
  · refine hcurrent.unrevoked.imp_right ?_
    rintro ⟨p, hp, hsucceeding⟩
    exact ⟨p, List.mem_append_left _ hp, hsucceeding⟩
  · intro p hp
    obtain hp | hp := List.mem_append.mp hp
    · exact hcurrent.apart p hp
    · rw [List.mem_singleton.mp hp]
      nofun
  · intro p hp
    obtain hp | hp := List.mem_append.mp hp
    · exact h.sound p hp
    · rw [List.mem_singleton.mp hp]
      trivial
  · exact h.apart.spawn fun p _ => ⟨fun _ _ => ⟨nofun, nofun⟩, nofun⟩

theorem inv_move {c : Config Page Call} (h : Inv c) {i : ℕ} {p q : Call} {s : Page}
    (hp : c.procs[i]? = some p) (hmoved : Moved c.shared p s q) :
    Inv ⟨s, c.procs.set i q⟩ := by
  obtain ⟨access, claims, hcurrent⟩ := h.current
  have hmem : p ∈ c.procs := List.mem_of_getElem? hp
  have hclient : ∀ claims', c.shared.client.refreshToken = some (.claims claims') →
      claims' = claims := by
    intro claims' htoken
    rw [hcurrent.client] at htoken
    cases htoken
    rfl
  refine ⟨issued_of_moved hmoved h.issued (h.sound p hmem),
    current_of_moved hmoved hp h.sound h.apart hcurrent, ?_, ?_⟩
  · intro r hr
    obtain ⟨j, hj⟩ := List.mem_iff_getElem?.mp hr
    obtain ⟨-, rfl⟩ | ⟨hne, hj⟩ := getElem?_set_cases hj
    · refine sound_of_moved hmoved h.issued (h.sound p hmem) fun claims' htoken => ?_
      rw [hclient claims' htoken]
      exact hcurrent.known
    · have hold := h.sound r (List.mem_of_getElem? hj)
      exact hold.frame (frame_of_moved hmoved) (h.apart j i r p hne hj hp)
  · apply h.apart.set
    intro j r hne hj
    have hr := List.mem_of_getElem? hj
    apply apart_of_moved hmoved (h.sound r hr)
    · exact h.apart i j p r (Ne.symm hne) hp hj
    · exact h.apart j i r p hne hj hp
    · intro claims' htoken
      rw [hclient claims' htoken]
      exact hcurrent.apart r hr

theorem exec_inv {H : Hasher} (c : Config Page Call) (act : Act Draw Choice) (h : Inv c)
    (hredeems : Redeems c act) : Inv ((machine H).exec c act) := by
  rcases (machine H).exec_cases c act with ⟨ids, -, he⟩ | ⟨i, a, p, s, q, rfl, hp, hs, he⟩ | he
  · rw [he]
    exact inv_spawn h ids
  · obtain ⟨access, claims, hcurrent⟩ := h.current
    have hsound := h.sound p (List.mem_of_getElem? hp)
    rw [he]
    exact inv_move h hp (moved_of_api hs hsound (hredeems p hp) hcurrent.client)
  · rw [he]
    exact h

theorem inv_opened {server : Store} (hserver : Issued server) {claims : Claims}
    (h : Accepted server claims) (access : RawToken) : Inv (opened server access claims) where
  issued := hserver
  current := ⟨access, claims, rfl, ⟨h.signed, h.user⟩, .inl h.unrevoked, by simp [opened]⟩
  sound := by simp [opened]
  apart := by
    intro i j p q _ hp
    simp [opened] at hp

/-- However many calls there are and however they are interleaved, no tokens are lost in a
run in which each refresh finds its token unrevoked. -/
theorem stay_logged_in (H : Hasher) {server : Store} (hserver : Issued server) {claims : Claims}
    (h : Accepted server claims) (access : RawToken) (as : List (Act Draw Choice))
    (has : (machine H).Along Redeems (opened server access claims) as) :
    (machine H).Throughout LoggedIn (opened server access claims) as := by
  have hinv := Machine.throughout_of_step exec_inv (inv_opened hserver h access) has
  exact hinv.mono fun c => loggedIn_of_inv

/-! ## Two calls at once -/

def reached : Choice := ⟨false, 200⟩

/-- The next `n` steps of one call. -/
def moves (i n : ℕ) : List (Act Draw Choice) := List.replicate n (.run i reached)

/-- Both calls are answered with 401. -/
def twoCalls : List (Act Draw Choice) :=
  [.spawn ⟨("a1", "r1"), by decide⟩, .spawn ⟨("a2", "r2"), by decide⟩] ++ moves 0 2 ++ moves 1 2

theorem accepted_oneSession : Accepted RefreshRotation.oneSession RefreshRotation.session :=
  ⟨by decide, by decide, by decide⟩

/-- Both refreshes are checked before one of them revokes the token. -/
theorem crossed_calls_stay_logged_in : (machine plainHasher).Throughout LoggedIn
    (opened RefreshRotation.oneSession .invalid RefreshRotation.session)
    (twoCalls ++ moves 0 2 ++ moves 1 2 ++ moves 0 6 ++ moves 1 6) :=
  stay_logged_in plainHasher (by decide) accepted_oneSession .invalid _ (by decide +kernel)

/-- One call has its pair before the token that the other has sent is checked. -/
def overtaken : List (Act Draw Choice) := twoCalls ++ moves 1 1 ++ moves 0 8 ++ moves 1 3

def afterOvertaken : Config Page Call :=
  (machine plainHasher).run
    (opened RefreshRotation.oneSession .invalid RefreshRotation.session) overtaken

/-- The other call clears the new pair, and the client is left without tokens. -/
theorem overtaken_call_logs_out :
    Accepted RefreshRotation.oneSession RefreshRotation.session ∧
      validateToken RefreshRotation.oneSession .invalid = none ∧
      (∀ p ∈ afterOvertaken.procs, p.over) ∧
      (∃ p ∈ afterOvertaken.procs, p.hasObtained) ∧ afterOvertaken.shared.client = clearTokens ∧
      ¬(machine plainHasher).Throughout LoggedIn
        (opened RefreshRotation.oneSession .invalid RefreshRotation.session) overtaken := by
  have hobtained : ∃ p ∈ afterOvertaken.procs, p.hasObtained := by decide +kernel
  have hcleared : afterOvertaken.shared.client = clearTokens := by decide +kernel
  refine ⟨accepted_oneSession, rfl, by decide +kernel, hobtained, hcleared, ?_⟩
  intro h
  exact h.last.kept hobtained hcleared

end NetBerth.WebClient
