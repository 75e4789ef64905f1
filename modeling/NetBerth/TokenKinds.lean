import NetBerth.RefreshRotation
import NetBerth.SessionInvalidation

/-!
# The two halves of a token pair

Both halves of a pair are signed with one key over one type of claims, and one
function validates them. What tells them apart is the row that is stored for
the refresh half: the refresh endpoint wants an unrevoked row, and the
middleware in front of the API asks for none.

Beside the account machine runs the list of the pairs that were issued. No
access half is ever redeemed, in any run; but the middleware takes every refresh
half that was ever issued, whether its row is revoked or not.
-/
namespace NetBerth.TokenKinds
open Interleaving SqlTable Accounts RefreshRotation
open SessionInvalidation hiding oneSession

/-- An `Authorization` header: the text before the first space, and the token
after it if there is a space. -/
structure AuthHeader where
  scheme : String
  token : Option RawToken
  deriving DecidableEq, Repr

inductive AuthResult where
  | refused (message : String) (status : ℕ)
  | passed (claims : Claims)
  deriving DecidableEq, Repr

def authMiddleware (s : Store) (header : AuthHeader) : AuthResult :=
  match header.token with
  | none =>
    if header.scheme = "" then
      .refused "\x7b\"error\":\"missing authorization header\"\x7d" 401
    else .refused "\x7b\"error\":\"invalid authorization format\"\x7d" 401
  | some token =>
    if header.scheme.toLower ≠ "bearer" then
      .refused "\x7b\"error\":\"invalid authorization format\"\x7d" 401
    else
      match validateToken s token with
      | none => .refused "\x7b\"error\":\"invalid or expired token\"\x7d" 401
      | some claims => .passed claims

def bearer (claims : Claims) : AuthHeader := ⟨"Bearer", some (.claims claims)⟩

/-! ## The pairs that were issued -/

/-- A pair is issued by the step that signs it. -/
def noteIssued (_ : Store) (_ : Proc) (_ : Store) (q : Proc) (g : List TokenPair × Unit) :
    List TokenPair × Unit :=
  match q with
  | .loginStore tokens _ | .refreshRevoke _ tokens => (tokens :: g.1, ())
  | _ => g

def issuing (H : Hasher) : Machine (Store × List TokenPair) (Proc × Unit) Request Unit :=
  (machine H).withGhost () noteIssued

abbrev Issuing := Config (Store × List TokenPair) (Proc × Unit)

def booted (s : Store) : Issuing := ⟨(s, []), []⟩

/-- No header with an issued refresh half passes the middleware. -/
def RefreshRefused (c : Issuing) : Prop :=
  ∀ t ∈ c.shared.2, ∀ header : AuthHeader, header.token = some (.claims t.refreshToken) →
    ∀ claims, authMiddleware c.shared.1 header ≠ .passed claims

/-- No request was answered with a new pair for an issued access half. -/
def AccessNotRedeemed (c : Issuing) : Prop :=
  ∀ t ∈ c.shared.2, ∀ p ∈ c.procs, redeemed t.accessToken.id p.1 = false

def Separated (c : Issuing) : Prop := RefreshRefused c ∧ AccessNotRedeemed c

/-! ## The invariant -/

/-- Everything stored and issued is signed, and no row and no refresh half has
the id of an access half. -/
structure Kinds (t : Store × List TokenPair) : Prop where
  stored : ∀ row ∈ t.1.refreshTokens.rows, ∃ c ∈ t.1.signed.rows, c.id = row.id
  issued : ∀ pair ∈ t.2, pair.accessToken ∈ t.1.signed.rows ∧ pair.refreshToken ∈ t.1.signed.rows
  rows : ∀ pair ∈ t.2, ∀ row ∈ t.1.refreshTokens.rows, pair.accessToken.id ≠ row.id
  halves : ∀ pair ∈ t.2, ∀ pair' ∈ t.2, pair.accessToken.id ≠ pair'.refreshToken.id

def HasRow (s : Store) (id : ID) : Prop := (s.refreshTokens.select id).isSome

/-- A pair that is about to be stored was issued, and a token that passed the
check has its row. -/
def Sound (t : Store × List TokenPair) : Proc × Unit → Prop
  | (.loginStore tokens _, _) => tokens ∈ t.2
  | (.refreshLookup claims _, _) => HasRow t.1 claims.id
  | (.refreshRevoke claims tokens, _) => HasRow t.1 claims.id ∧ tokens ∈ t.2
  | (.refreshStore claims tokens, _) => HasRow t.1 claims.id ∧ tokens ∈ t.2
  | (.refreshed claims _, _) => HasRow t.1 claims.id
  | _ => True

theorem sound_of_quiet {t : Store × List TokenPair} {p : Proc × Unit} (h : p.1.quiet) : Sound t p := by
  obtain ⟨p, u⟩ := p
  cases p <;> simp_all [Sound, Proc.quiet]

theorem Sound.mono {t t' : Store × List TokenPair} {p : Proc × Unit} (h : Sound t p)
    (hrow : ∀ id, HasRow t.1 id → HasRow t'.1 id) (hissued : ∀ pair ∈ t.2, pair ∈ t'.2) :
    Sound t' p := by
  obtain ⟨p, u⟩ := p
  cases p with
  | loginStore tokens user => exact hissued _ h
  | refreshLookup claims ids => exact hrow _ h
  | refreshRevoke claims tokens => exact ⟨hrow _ h.1, hissued _ h.2⟩
  | refreshStore claims tokens => exact ⟨hrow _ h.1, hissued _ h.2⟩
  | refreshed claims tokens => exact hrow _ h
  | _ => trivial

theorem hasRow_of_step {H : Hasher} {s s' : Store} {p q : Proc} (h : step H s p = some (s', q))
    {id : ID} (hrow : HasRow s id) : HasRow s' id := by
  obtain ⟨row, hrow⟩ := Option.isSome_iff_exists.mp hrow
  obtain ⟨row', hrow', -⟩ := step_keeps_row h hrow
  simp [HasRow, hrow']

/-- The ids of a new pair are no ids of signed tokens, nor of each other. -/
theorem fresh_of_generateTokens {s s' : Store} {user : User} {ids : ID × ID} {t : TokenPair}
    (h : generateTokens s user ids = some (s', t)) :
    t.accessToken ∈ s'.signed.rows ∧ t.accessToken.id ≠ t.refreshToken.id ∧
      (∀ c ∈ s.signed.rows, c.id ≠ t.accessToken.id ∧ c.id ≠ t.refreshToken.id) ∧
      s'.refreshTokens = s.refreshTokens := by
  obtain ⟨signed, rfl, -, signed₁, h₁, h₂⟩ := generateTokens_eq h
  have hrows₁ := Table.rows_insert h₁
  have hrows := Table.rows_insert h₂
  have haccess := Table.select_eq_none.mp (Table.select_key_of_insert h₁)
  have hrefresh := Table.select_eq_none.mp (Table.select_key_of_insert h₂)
  refine ⟨by simp [hrows, hrows₁], ?_, fun c hc => ⟨haccess c hc, ?_⟩, rfl⟩
  · exact hrefresh t.accessToken (by simp [hrows₁])
  · exact hrefresh c (by simp [hrows₁, hc])

/-- A new pair has ids of its own. -/
theorem kinds_issue {t : Store × List TokenPair} {s' : Store} {user : User} {ids : ID × ID}
    {pair : TokenPair} (hpair : generateTokens t.1 user ids = some (s', pair)) (h : Kinds t) :
    Kinds (s', pair :: t.2) := by
  obtain ⟨haccess, hne, hfresh, hrows⟩ := fresh_of_generateTokens hpair
  obtain ⟨hkeep, hrefresh, -⟩ := mem_signed_of_generateTokens hpair
  constructor
  · intro row hrow
    obtain ⟨c, hc, hid⟩ := h.stored row (hrows ▸ hrow)
    exact ⟨c, hkeep c hc, hid⟩
  · intro pair' hpair'
    obtain rfl | hold := List.mem_cons.mp hpair'
    · exact ⟨haccess, hrefresh⟩
    · exact ⟨hkeep _ (h.issued pair' hold).1, hkeep _ (h.issued pair' hold).2⟩
  · intro pair' hpair' row hrow
    obtain rfl | hold := List.mem_cons.mp hpair'
    · obtain ⟨c, hc, hid⟩ := h.stored row (hrows ▸ hrow)
      exact hid ▸ (hfresh c hc).1.symm
    · exact h.rows pair' hold row (hrows ▸ hrow)
  · intro pair₁ hpair₁ pair₂ hpair₂
    obtain rfl | hold₁ := List.mem_cons.mp hpair₁
    · obtain rfl | hold₂ := List.mem_cons.mp hpair₂
      · exact hne
      · exact (hfresh _ (h.issued pair₂ hold₂).2).1.symm
    · obtain rfl | hold₂ := List.mem_cons.mp hpair₂
      · exact (hfresh _ (h.issued pair₁ hold₁).1).2
      · exact h.halves pair₁ hold₁ pair₂ hold₂

/-- A row that was not there is the row of an issued refresh half. -/
theorem row_of_step {H : Hasher} {t : Store × List TokenPair} {s' : Store} {p q : Proc} {u : Unit}
    (h : step H t.1 p = some (s', q)) (hp : Sound t (p, u)) {row : RefreshToken}
    (hrow : row ∈ s'.refreshTokens.rows) :
    (∃ row' ∈ t.1.refreshTokens.rows, row'.id = row.id) ∨
      ∃ pair ∈ t.2, pair.refreshToken.id = row.id := by
  rcases step_refreshTokens h with he | ⟨tokens, user, rfl, rfl⟩ | ⟨claims, tokens, rfl, rfl⟩ |
    ⟨P, rfl⟩
  · exact .inl ⟨row, he ▸ hrow, rfl⟩
  · obtain hold | rfl := mem_storeRefreshToken hrow
    · exact .inl ⟨row, hold, rfl⟩
    · exact .inr ⟨tokens, hp, rfl⟩
  · obtain hold | rfl := mem_storeRefreshToken hrow
    · exact .inl ⟨row, hold, rfl⟩
    · exact .inr ⟨tokens, hp.2, rfl⟩
  · obtain ⟨row', hrow', hid, -⟩ := mem_revokeWhere hrow
    exact .inl ⟨row', hrow', hid⟩

/-- Where no pair is issued, every statement keeps the kinds apart. -/
theorem kinds_step {H : Hasher} {t : Store × List TokenPair} {s' : Store} {p q : Proc} {u : Unit}
    (h : step H t.1 p = some (s', q)) (hk : Kinds t) (hp : Sound t (p, u)) : Kinds (s', t.2) := by
  constructor
  · intro row hrow
    obtain ⟨row', hrow', hid⟩ | ⟨pair, hpair, hid⟩ := row_of_step h hp hrow
    · obtain ⟨c, hc, hcid⟩ := hk.stored row' hrow'
      exact ⟨c, step_keeps_signed h hc, hcid.trans hid⟩
    · exact ⟨pair.refreshToken, step_keeps_signed h (hk.issued pair hpair).2, hid⟩
  · intro pair hpair
    obtain ⟨haccess, hrefresh⟩ := hk.issued pair hpair
    exact ⟨step_keeps_signed h haccess, step_keeps_signed h hrefresh⟩
  · intro pair hpair row hrow
    obtain ⟨row', hrow', hid⟩ | ⟨pair', hpair', hid⟩ := row_of_step h hp hrow
    · exact hid ▸ hk.rows pair hpair row' hrow'
    · exact hid ▸ hk.halves pair hpair pair' hpair'
  · exact hk.halves

theorem hasRow_of_not_revoked {s : Store} {id : ID} (h : refreshTokenRevoked s id = false) :
    HasRow s id := by
  unfold refreshTokenRevoked at h
  cases hrow : s.refreshTokens.select id with
  | none => simp [hrow] at h
  | some row => simp [HasRow, hrow]

/-- One statement, and what is noted of it. -/
theorem sound_step {H : Hasher} {t : Store × List TokenPair} {s' : Store} {p q : Proc} {u : Unit}
    (h : step H t.1 p = some (s', q)) (hk : Kinds t) (hp : Sound t (p, u)) :
    Kinds (s', (noteIssued t.1 p s' q (t.2, u)).1) ∧
      Sound (s', (noteIssued t.1 p s' q (t.2, u)).1) (q, (noteIssued t.1 p s' q (t.2, u)).2) ∧
      ∀ pair ∈ t.2, pair ∈ (noteIssued t.1 p s' q (t.2, u)).1 := by
  have hkeep := kinds_step h hk hp
  rcases step_session h with hq | ⟨req, ids, user, pair, rfl, rfl, -, -, hpair⟩ |
    ⟨claims, ids, rfl, rfl, rfl, -, hrevoked⟩ | ⟨claims, ids, user, pair, rfl, rfl, -, hpair⟩ |
    ⟨claims, pair, rfl, rfl, rfl⟩ | ⟨claims, pair, rfl, rfl, rfl⟩
  · have hnote : noteIssued t.1 p s' q (t.2, u) = (t.2, u) := by
      cases q <;> simp_all [noteIssued, Proc.quiet]
    rw [hnote]
    exact ⟨hkeep, sound_of_quiet hq, fun _ => id⟩
  · exact ⟨kinds_issue hpair hk, List.mem_cons_self, fun _ => List.mem_cons_of_mem pair⟩
  · exact ⟨hkeep, hasRow_of_not_revoked hrevoked, fun _ => id⟩
  · exact ⟨kinds_issue hpair hk, ⟨hasRow_of_step h hp, List.mem_cons_self⟩,
      fun _ => List.mem_cons_of_mem pair⟩
  · exact ⟨hkeep, ⟨hasRow_of_step h hp.1, hp.2⟩, fun _ => id⟩
  · exact ⟨hkeep, hasRow_of_step h hp.1, fun _ => id⟩

theorem exec_sound (H : Hasher) (c : Issuing) (a : Action) (h : Holds Kinds Sound c) :
    Holds Kinds Sound ((issuing H).exec c a) := by
  apply h.exec
  · intro r
    exact sound_of_quiet (quiet_of_fresh (start_fresh H r))
  · rintro i b ⟨p, u⟩ t ⟨q, u'⟩ rfl hp hs
    obtain ⟨⟨s', q'⟩, hstep, he⟩ := Option.map_eq_some_iff.mp hs
    cases he
    obtain ⟨hkinds, hsound, hissued⟩ := sound_step hstep h.1 (h.2 _ (List.mem_of_getElem? hp))
    exact ⟨hkinds, hsound, fun r _ hr => hr.mono (fun id => hasRow_of_step hstep) hissued⟩

theorem sound_run (H : Hasher) (s : Store) (hs : Issued s) (as : List Action) :
    Holds Kinds Sound ((issuing H).run (booted s) as) := by
  refine Machine.run_keeps (exec_sound H) ⟨⟨?_, ?_, ?_, ?_⟩, ?_⟩ as
  · intro row hrow
    obtain ⟨c, hc, hid, -⟩ := hs row hrow
    exact ⟨c, hc, hid⟩
  all_goals simp [booted]

/-! ## Every run -/

theorem authMiddleware_bearer {s : Store} {claims : Claims} (h : claims ∈ s.signed.rows) :
    authMiddleware s (bearer claims) = .passed claims := by
  have hselect : s.signed.select claims.id = some claims := Table.select_eq_some.mpr ⟨h, rfl⟩
  have hscheme : "Bearer".toLower = "bearer" := by decide +kernel
  simp [authMiddleware, bearer, validateToken, hselect, hscheme]

theorem accessNotRedeemed_of_sound {c : Issuing} (h : Holds Kinds Sound c) :
    AccessNotRedeemed c := by
  rintro pair hpair ⟨p, u⟩ hp
  have hsound := h.2 _ hp
  cases p with
  | refreshed claims tokens =>
    obtain ⟨row, hrow⟩ := Option.isSome_iff_exists.mp hsound
    obtain ⟨hmem, hid⟩ := Table.select_eq_some.mp hrow
    have hne := h.1.rows pair hpair row hmem
    simp only [redeemed, decide_eq_false_iff_not]
    exact fun he => hne (he.symm.trans hid.symm)
  | _ => rfl

/-- In every run of any requests, from any tables whose stored tokens were
signed: no issued access half is redeemed, and the middleware refuses every
issued refresh half only as long as no pair was issued at all. -/
theorem kinds_separated_iff (H : Hasher) (s : Store) (hs : Issued s) (as : List Action) :
    AccessNotRedeemed ((issuing H).run (booted s) as) ∧
      (Separated ((issuing H).run (booted s) as) ↔
        ((issuing H).run (booted s) as).shared.2 = []) := by
  have hsound := sound_run H s hs as
  generalize (issuing H).run (booted s) as = c at hsound ⊢
  have haccess := accessNotRedeemed_of_sound hsound
  refine ⟨haccess, ?_⟩
  constructor
  · rintro ⟨hrefused, -⟩
    by_contra hne
    obtain ⟨pair, hpair⟩ := List.exists_mem_of_ne_nil _ hne
    have hsigned := (hsound.1.issued pair hpair).2
    exact hrefused pair hpair (bearer pair.refreshToken) rfl _ (authMiddleware_bearer hsigned)
  · intro hnone
    refine ⟨?_, haccess⟩
    simp [RefreshRefused, hnone]

def aliceLogin (password : String) : Request := .login (.ok ⟨"alice", password⟩) ("a1", "r1")

/-- A login with a wrong password issues nothing. -/
theorem failed_login_separated :
    Separated ((issuing plainHasher).run (booted oneSession)
      [.spawn (aliceLogin "wrong"), .run 0 ()]) :=
  (kinds_separated_iff plainHasher oneSession (by decide) _).2.mpr (by decide)

/-- A login and a logout with the refresh half. -/
def loginThenLogout : List Action :=
  [.spawn (aliceLogin "password"), .run 0 (), .run 0 (),
    .spawn (.logout (.ok (.claims ⟨"r1", "a", "alice", "viewer"⟩))), .run 1 ()]

/-- After the logout the row of the refresh half is revoked, and the middleware
still takes it for an access token. -/
theorem revoked_refresh_token_passes :
    let c := (issuing plainHasher).run (booted oneSession) loginThenLogout
    (⟨⟨"a1", "a", "alice", "viewer"⟩, ⟨"r1", "a", "alice", "viewer"⟩⟩ : TokenPair) ∈ c.shared.2 ∧
      refreshTokenRevoked c.shared.1 "r1" = true ∧
      authMiddleware c.shared.1 (bearer ⟨"r1", "a", "alice", "viewer"⟩) =
        .passed ⟨"r1", "a", "alice", "viewer"⟩ ∧ ¬Separated c := by
  intro c
  have hissued : (⟨⟨"a1", "a", "alice", "viewer"⟩, ⟨"r1", "a", "alice", "viewer"⟩⟩ : TokenPair) ∈
      c.shared.2 := by decide
  have hpassed : authMiddleware c.shared.1 (bearer ⟨"r1", "a", "alice", "viewer"⟩) =
      .passed ⟨"r1", "a", "alice", "viewer"⟩ := by decide +kernel
  exact ⟨hissued, by decide, hpassed, fun h => h.1 _ hissued _ rfl _ hpassed⟩

end NetBerth.TokenKinds
