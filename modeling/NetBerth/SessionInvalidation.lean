import NetBerth.Accounts

/-!
# Locking a user's sessions out

Disabling or deleting a user, resetting the password and changing it are meant
to end the sessions the user has. A history beside the tables records which
tokens each of these moments shuts out, which are all that have been signed for
the user, and hands the mark on to the successor of a marked token; for a
disabled user the mark lasts until the account is enabled again. A request is
late when its token is marked at the revocation check that lets it pass.

Deletion needs nothing more, because the lookup of the user fails. The other
three do not hold on their own: disabling and resetting revoke no token, the
refresh does not read `enabled`, and a refresh that has passed its check or a
login that has signed its pair stores the token after a revocation of all that
are stored. Where the user has no unrevoked token and nothing on the way to be
stored at these moments, no late request is answered.
-/
namespace NetBerth.SessionInvalidation
open Interleaving SqlTable Accounts

/-- The tokens that were shut out, for good or for as long as their user is disabled. -/
structure History where
  barred : List Claims
  suspended : List Claims
  deriving DecidableEq, Repr

namespace History

def none : History := ⟨[], []⟩

def marked (g : History) : List Claims := g.barred ++ g.suspended

def marks (g : History) (id : ID) : Bool := g.marked.any fun c => c.id = id

def bar (g : History) (tokens : List Claims) : History := { g with barred := g.barred ++ tokens }

def suspend (g : History) (tokens : List Claims) : History :=
  { g with suspended := g.suspended ++ tokens }

def lift (g : History) (userID : ID) : History :=
  { g with suspended := g.suspended.filter fun c => c.userID ≠ userID }

/-- A successor is marked as the token it comes from. -/
def inherit (g : History) (id : ID) (successor : Claims) : History where
  barred := g.barred ++ if g.barred.any fun c => c.id = id then [successor] else []
  suspended := g.suspended ++ if g.suspended.any fun c => c.id = id then [successor] else []

end History

def isEnabled (s : Store) (userID : ID) : Bool := (s.users.select userID).any User.enabled

/-- All that was ever signed for the user, stored or not. -/
def issuedTo (s : Store) (userID : ID) : List Claims :=
  s.signed.selectWhere fun c => c.userID = userID

/-- What a statement adds to the history, and to the mark of its request. -/
def note (s : Store) (p : Proc) (s' : Store) (q : Proc) (g : History × Bool) : History × Bool :=
  match p with
  | .changeRevokeAll userID | .resetExec userID _ | .deleteExec userID =>
    (g.1.bar (issuedTo s' userID), g.2)
  | .updateExec userID _ _ enabled =>
    if enabled then (g.1.lift userID, g.2)
    else if isEnabled s userID then (g.1.suspend (issuedTo s' userID), g.2)
    else g
  | .refreshCheck _ _ =>
    match q with
    | .refreshLookup claims _ => (g.1, g.1.marks claims.id)
    | _ => g
  | .refreshStore claims tokens =>
    (g.1.inherit claims.id tokens.refreshToken, g.2 && g.1.marks claims.id)
  | _ => g

/-- The account machine with its history. -/
def tracked (H : Hasher) : Machine (Store × History) (Proc × Bool) Request Unit :=
  (machine H).withGhost false note

abbrev Tracked := Config (Store × History) (Proc × Bool)

def track (s : Store) : Tracked := ⟨(s, .none), []⟩

/-- A marked token was redeemed: it passed the check with its mark and still
has it when the new pair is stored. -/
def redeemedLate : Proc × Bool → Bool
  | (.refreshed _ _, late) => late
  | _ => false

/-! ## The condition -/

def HasUser (s : Store) (userID : ID) : Prop := (s.users.select userID).isSome

/-- A token of the user's is signed, or about to be for one that has passed the check, and not yet
stored. -/
def issuing (userID : ID) : Proc → Bool
  | .loginStore tokens _ => tokens.refreshToken.userID = userID
  | .refreshLookup claims _ | .refreshRevoke claims _ | .refreshStore claims _ =>
    claims.userID = userID
  | _ => false

def NoneIssued (c : State) (userID : ID) : Prop := ∀ p ∈ c.procs, issuing userID p = false

def AllRevoked (s : Store) (userID : ID) : Prop :=
  ∀ row ∈ s.refreshTokens.rows, row.userID = userID → row.revoked

/-- What the statement that ends a user's sessions has to find. A created user
takes an id no token was ever signed for. -/
def SessionsOver (c : State) : Proc → Prop
  | .changeRevokeAll userID => HasUser c.shared userID → NoneIssued c userID
  | .resetExec userID _ =>
    HasUser c.shared userID → NoneIssued c userID ∧ AllRevoked c.shared userID
  | .updateExec userID _ _ enabled =>
    enabled = false → isEnabled c.shared userID →
      NoneIssued c userID ∧ AllRevoked c.shared userID
  | .createInsert user => ∀ claims ∈ c.shared.signed.rows, claims.userID ≠ user.id
  | _ => True

def EndsSessions : State → Action → Prop := Machine.Moves SessionsOver

/-- Every stored token was signed for the user whose row it is. -/
def Issued (s : Store) : Prop :=
  ∀ row ∈ s.refreshTokens.rows, ∃ c ∈ s.signed.rows, c.id = row.id ∧ c.userID = row.userID

instance (s : Store) (userID : ID) : Decidable (HasUser s userID) :=
  inferInstanceAs (Decidable (_ = true))

instance (c : State) (userID : ID) : Decidable (NoneIssued c userID) :=
  inferInstanceAs (Decidable (∀ p ∈ c.procs, _))

instance (s : Store) (userID : ID) : Decidable (AllRevoked s userID) :=
  inferInstanceAs (Decidable (∀ row ∈ s.refreshTokens.rows, _))

instance (s : Store) : Decidable (Issued s) :=
  inferInstanceAs (Decidable (∀ row ∈ s.refreshTokens.rows, _))

instance (c : State) (p : Proc) : Decidable (SessionsOver c p) := by
  apply Proc.casesOn (motive := fun p => Decidable (SessionsOver c p)) p <;> intros <;>
    unfold SessionsOver <;> infer_instance

instance (c : State) (a : Action) : Decidable (EndsSessions c a) := by
  unfold EndsSessions
  infer_instance

/-! ## What the history can gain -/

/-- The user whose tokens a statement shuts out. -/
def locksOut (s : Store) : Proc → Option ID
  | .changeRevokeAll userID | .resetExec userID _ | .deleteExec userID => some userID
  | .updateExec userID _ _ enabled =>
    if !enabled && isEnabled s userID then some userID else none
  | _ => none

theorem marks_iff {g : History} {id : ID} : g.marks id ↔ ∃ c ∈ g.marked, c.id = id := by
  simp [History.marks]

theorem mem_issuedTo {s : Store} {userID : ID} {c : Claims} :
    c ∈ issuedTo s userID ↔ c ∈ s.signed.rows ∧ c.userID = userID := by
  simp [issuedTo, Table.selectWhere]

theorem mem_inherit {g : History} {id : ID} {c successor : Claims}
    (h : c ∈ (g.inherit id successor).marked) : c ∈ g.marked ∨ g.marks id ∧ c = successor := by
  simp only [History.marked, History.inherit, List.mem_append, List.mem_ite_nil_right,
    List.mem_singleton] at h
  simp only [History.marked, History.marks, List.mem_append, List.any_append, Bool.or_eq_true]
  tauto

/-- A new mark is on a token of the user a statement shuts out, or on the successor of a
marked token. -/
theorem mem_note {s s' : Store} {p q : Proc} {g : History × Bool} {c : Claims}
    (h : c ∈ (note s p s' q g).1.marked) :
    c ∈ g.1.marked ∨ c ∈ s'.signed.rows ∧ locksOut s p = some c.userID ∨
      ∃ claims tokens, p = .refreshStore claims tokens ∧ g.1.marks claims.id ∧
        c = tokens.refreshToken := by
  have hadd : ∀ userID, locksOut s p = some userID → c ∈ g.1.marked ++ issuedTo s' userID →
      c ∈ g.1.marked ∨ c ∈ s'.signed.rows ∧ locksOut s p = some c.userID := by
    intro userID hu hc
    rcases List.mem_append.mp hc with hc | hc
    · exact .inl hc
    · obtain ⟨hsigned, rfl⟩ := mem_issuedTo.mp hc
      exact .inr ⟨hsigned, hu⟩
  have hbar : ∀ userID, locksOut s p = some userID → c ∈ (g.1.bar (issuedTo s' userID)).marked →
      c ∈ g.1.marked ∨ c ∈ s'.signed.rows ∧ locksOut s p = some c.userID := by
    intro userID hu hc
    refine hadd userID hu ?_
    simpa [History.bar, History.marked, or_assoc, or_comm, or_left_comm] using hc
  cases p with
  | changeRevokeAll userID => exact (hbar userID rfl h).imp id .inl
  | resetExec userID newHash => exact (hbar userID rfl h).imp id .inl
  | deleteExec userID => exact (hbar userID rfl h).imp id .inl
  | updateExec userID email role enabled =>
    simp only [note] at h
    split_ifs at h with hen hwas
    · left
      simp only [History.lift, History.marked, List.mem_append, List.mem_filter] at h ⊢
      tauto
    · have hc : c ∈ g.1.marked ++ issuedTo s' userID := by
        simpa [History.suspend, History.marked] using h
      exact (hadd userID (by simp [locksOut, hen, hwas]) hc).imp id .inl
    · exact .inl h
  | refreshCheck token ids =>
    simp only [note] at h
    split at h <;> exact .inl h
  | refreshStore claims tokens =>
    rcases mem_inherit h with hc | ⟨hm, rfl⟩
    · exact .inl hc
    · exact .inr (.inr ⟨claims, tokens, rfl, hm, rfl⟩)
  | _ => exact .inl h

/-! ## The invariant -/

/-- A marked token opens nothing: its row is missing or revoked, or its user is gone. -/
def Dead (s : Store) (c : Claims) : Prop :=
  refreshTokenRevoked s c.id = true ∨ s.users.select c.userID = none

def Sound (t : Store × History) : Prop :=
  Issued t.1 ∧ ∀ c ∈ t.2.marked, c ∈ t.1.signed.rows ∧ Dead t.1 c

/-- A token that a request works with is marked only if its user is gone. -/
def Clear (t : Store × History) (claims : Claims) : Prop :=
  claims ∈ t.1.signed.rows ∧
    (t.2.marks claims.id → t.1.users.select claims.userID = none)

def Local (t : Store × History) : Proc × Bool → Prop
  | (.loginStore tokens _, _) => Clear t tokens.refreshToken
  | (.refreshLookup claims _, late) =>
    Clear t claims ∧ (late → t.1.users.select claims.userID = none)
  | (.refreshRevoke claims tokens, late) | (.refreshStore claims tokens, late) =>
    Clear t claims ∧ late = false ∧ Clear t tokens.refreshToken ∧
      tokens.refreshToken.userID = claims.userID
  | (.refreshed _ _, late) => late = false
  | _ => True

theorem local_of_quiet {t : Store × History} {p : Proc} {late : Bool} (h : p.quiet) :
    Local t (p, late) := by
  cases p <;> simp_all [Local, Proc.quiet]

theorem not_redeemedLate {t : Store × History} {p : Proc × Bool} (h : Local t p) :
    redeemedLate p = false := by
  obtain ⟨p, late⟩ := p
  cases p <;> simp_all [Local, redeemedLate]

theorem eq_of_signed {s : Store} {c c' : Claims} (hc : c ∈ s.signed.rows)
    (hc' : c' ∈ s.signed.rows) (hid : c.id = c'.id) : c = c' :=
  Table.eq_of_key hc hc' hid

/-- A token of the signed claims is a row of their user. -/
theorem userID_eq {s : Store} (hs : Issued s) {claims : Claims} (hc : claims ∈ s.signed.rows)
    {r : RefreshToken} (hr : r ∈ s.refreshTokens.rows) (hid : r.id = claims.id) :
    r.userID = claims.userID := by
  obtain ⟨c, hcs, hcid, hcu⟩ := hs r hr
  have hkey : Keyed.key c = Keyed.key claims := hcid.trans hid
  rw [← hcu, Table.eq_of_key hcs hc hkey]

theorem mem_storeRefreshToken {s : Store} {claims : Claims} {r : RefreshToken}
    (h : r ∈ (storeRefreshToken s claims).refreshTokens.rows) :
    r ∈ s.refreshTokens.rows ∨ r = ⟨claims.id, claims.userID, false⟩ := by
  unfold storeRefreshToken at h
  split_ifs at h
  · exact .inl h
  · simp only [Table.insertIgnore] at h
    cases hi : s.refreshTokens.insert ⟨claims.id, claims.userID, false⟩ with
    | none => exact .inl (by simpa only [hi, Option.getD_none] using h)
    | some t =>
      simp only [hi, Option.getD_some] at h
      rw [Table.rows_insert hi] at h
      simpa using h

theorem mem_revokeWhere {s : Store} {P : RefreshToken → Bool} {r : RefreshToken}
    (h : r ∈ (revokeWhere s P).refreshTokens.rows) :
    ∃ row ∈ s.refreshTokens.rows, row.id = r.id ∧ row.userID = r.userID := by
  simp only [revokeWhere, Table.mem_update] at h
  obtain ⟨row, hrow, rfl⟩ := h
  refine ⟨row, hrow, ?_⟩
  split_ifs <;> exact ⟨rfl, rfl⟩

/-- Rows are written only for tokens that were signed before. -/
theorem step_issued {H : Hasher} {t : Store × History} {s' : Store} {p q : Proc} {late : Bool}
    (h : step H t.1 p = some (s', q)) (hs : Issued t.1) (hp : Local t (p, late)) : Issued s' := by
  intro r hr
  have hold : ∀ row ∈ t.1.refreshTokens.rows, row.id = r.id → row.userID = r.userID →
      ∃ c ∈ s'.signed.rows, c.id = r.id ∧ c.userID = r.userID := by
    intro row hrow hid hu
    obtain ⟨c, hc, hcid, hcu⟩ := hs row hrow
    exact ⟨c, step_keeps_signed h hc, hcid.trans hid, hcu.trans hu⟩
  have hnew : ∀ claims ∈ t.1.signed.rows, r = ⟨claims.id, claims.userID, false⟩ →
      ∃ c ∈ s'.signed.rows, c.id = r.id ∧ c.userID = r.userID := by
    rintro claims hc rfl
    exact ⟨claims, step_keeps_signed h hc, rfl, rfl⟩
  rcases step_refreshTokens h with he | ⟨tokens, user, rfl, rfl⟩ | ⟨claims, tokens, rfl, rfl⟩ |
    ⟨P, rfl⟩
  · exact hold r (by rwa [← he]) rfl rfl
  · rcases mem_storeRefreshToken hr with hr | hr
    · exact hold r hr rfl rfl
    · exact hnew _ hp.1 hr
  · rcases mem_storeRefreshToken hr with hr | hr
    · exact hold r hr rfl rfl
    · exact hnew _ hp.2.2.1.1 hr
  · obtain ⟨row, hrow, hid, hu⟩ := mem_revokeWhere hr
    exact hold row hrow hid hu

/-! ## One statement -/

section
variable {H : Hasher} {c : State} {g : History} {s' : Store} {p q : Proc} {late : Bool}

theorem missing_of_step (h : step H c.shared p = some (s', q)) (hok : SessionsOver c p)
    {claims : Claims} (hc : claims ∈ c.shared.signed.rows)
    (hu : c.shared.users.select claims.userID = none) :
    s'.users.select claims.userID = none := by
  refine step_keeps_missing h hu ?_
  rintro user rfl
  exact (hok claims hc).symm

theorem allRevoked_revokeAll (s : Store) (userID : ID) :
    AllRevoked (revokeAllUserRefreshTokens s userID) userID := by
  intro r hr hu
  simp only [revokeAllUserRefreshTokens, revokeWhere, Table.mem_update] at hr
  obtain ⟨row, -, rfl⟩ := hr
  split_ifs at hu ⊢ with hrow
  · rfl
  · simpa [hu] using hrow

/-- A statement that shuts a user's tokens out leaves no user, or neither an unrevoked token nor
one on the way to be stored. -/
theorem locksOut_closes (h : step H c.shared p = some (s', q)) (hok : SessionsOver c p)
    {userID : ID} (hl : locksOut c.shared p = some userID) :
    s'.users.select userID = none ∨ AllRevoked s' userID ∧ NoneIssued c userID := by
  have hsome : ∀ {s : Store}, ¬ HasUser s userID → s.users.select userID = none := by
    intro s hs
    simpa [HasUser] using hs
  cases p with
  | changeRevokeAll id =>
    cases hl
    cases h
    by_cases hu : HasUser c.shared userID
    · exact .inr ⟨allRevoked_revokeAll _ _, hok hu⟩
    · exact .inl (hsome hu)
  | resetExec id newHash =>
    cases hl
    cases h
    by_cases hu : HasUser c.shared userID
    · exact .inr ⟨(hok hu).2, (hok hu).1⟩
    · left
      rw [resetExec, select_updateUsers, hsome hu, Option.map_none]
  | deleteExec id =>
    cases hl
    cases h
    left
    rw [deleteExec, Table.select_delete, Option.filter_eq_none_iff]
    intro u hu
    have hid : u.id = userID := (Table.select_eq_some.mp hu).2
    simp [hid]
  | updateExec id email role enabled =>
    cases h
    simp only [locksOut, Option.ite_none_right_eq_some, Bool.and_eq_true, Bool.not_eq_true',
      Option.some.injEq] at hl
    obtain ⟨⟨hen, hwas⟩, rfl⟩ := hl
    exact .inr ⟨(hok hen hwas).2, (hok hen hwas).1⟩
  | _ => cases hl

/-- What is stored anew is the token of a login or of a refresh. -/
theorem revoked_of_step (h : step H c.shared p = some (s', q)) {id : ID}
    (hrev : refreshTokenRevoked c.shared id = true) :
    refreshTokenRevoked s' id = true ∨ ∃ tokens : TokenPair, tokens.refreshToken.id = id ∧
      ((∃ user, p = .loginStore tokens user) ∨ ∃ claims, p = .refreshStore claims tokens) := by
  have hstore : ∀ claims : Claims, claims.id ≠ id →
      refreshTokenRevoked (storeRefreshToken c.shared claims) id = true := by
    intro claims hne
    rw [refreshTokenRevoked, select_storeRefreshToken, if_neg (fun hand => hne hand.1)]
    exact hrev
  rcases step_refreshTokens h with he | ⟨t, user, rfl, rfl⟩ | ⟨claims, t, rfl, rfl⟩ | ⟨P, rfl⟩
  · left
    rw [refreshTokenRevoked, he]
    exact hrev
  · by_cases hid : t.refreshToken.id = id
    · exact .inr ⟨t, hid, .inl ⟨user, rfl⟩⟩
    · exact .inl (hstore _ hid)
  · by_cases hid : t.refreshToken.id = id
    · exact .inr ⟨t, hid, .inr ⟨claims, rfl⟩⟩
    · exact .inl (hstore _ hid)
  · left
    rw [refreshTokenRevoked, select_revokeWhere]
    rw [refreshTokenRevoked] at hrev
    cases hsel : c.shared.refreshTokens.select id with
    | none => rfl
    | some row =>
      rw [hsel] at hrev
      simp only [Option.map_some]
      split_ifs
      · rfl
      · exact hrev

theorem dead_of_step (h : step H c.shared p = some (s', q)) (hok : SessionsOver c p)
    (hs : Sound (c.shared, g)) (hp : Local (c.shared, g) (p, late)) {claims : Claims}
    (hm : claims ∈ g.marked) : Dead s' claims := by
  obtain ⟨hsigned, hdead⟩ := hs.2 claims hm
  have hgone : c.shared.users.select claims.userID = none → Dead s' claims :=
    fun hu => .inr (missing_of_step h hok hsigned hu)
  -- a token that is stored now is not marked, unless its user is gone
  have hstored : ∀ tokens : TokenPair, tokens.refreshToken.id = claims.id →
      Clear (c.shared, g) tokens.refreshToken → Dead s' claims := by
    intro tokens hid hclear
    obtain rfl := eq_of_signed hclear.1 hsigned hid
    exact hgone (hclear.2 (marks_iff.mpr ⟨_, hm, rfl⟩))
  rcases hdead with hrev | hu
  · rcases revoked_of_step h hrev with hrev' | ⟨tokens, hid, ⟨user, rfl⟩ | ⟨claims', rfl⟩⟩
    · exact .inl hrev'
    · exact hstored tokens hid hp
    · exact hstored tokens hid hp.2.2.1
  · exact hgone hu

/-- The successor of a marked token is a token of a user who is gone. -/
theorem successor_missing (h : step H c.shared p = some (s', q)) (hok : SessionsOver c p)
    (hp : Local (c.shared, g) (p, late)) {claims : Claims} {tokens : TokenPair}
    (hstore : p = .refreshStore claims tokens) (hm : g.marks claims.id) :
    s'.users.select tokens.refreshToken.userID = none := by
  subst hstore
  obtain ⟨⟨hc, hgone⟩, -, -, hu⟩ := hp
  rw [hu]
  exact missing_of_step h hok hc (hgone hm)

theorem note_dead (h : step H c.shared p = some (s', q)) (hok : SessionsOver c p)
    (hs : Sound (c.shared, g)) (hp : Local (c.shared, g) (p, late)) {claims : Claims}
    (hm : claims ∈ (note c.shared p s' q (g, late)).1.marked) :
    claims ∈ s'.signed.rows ∧ Dead s' claims := by
  rcases mem_note hm with hold | ⟨hsigned, hl⟩ | ⟨claims', tokens, hstore, hm', rfl⟩
  · exact ⟨step_keeps_signed h (hs.2 claims hold).1, dead_of_step h hok hs hp hold⟩
  · refine ⟨hsigned, ?_⟩
    rcases locksOut_closes h hok hl with hgone | ⟨hrev, -⟩
    · exact .inr hgone
    · left
      rw [refreshTokenRevoked]
      cases hsel : s'.refreshTokens.select claims.id with
      | none => rfl
      | some row =>
        obtain ⟨hrow, hid⟩ := Table.select_eq_some.mp hsel
        exact hrev row hrow (userID_eq (step_issued h hs.1 hp) hsigned hrow hid)
  · refine ⟨?_, .inr (successor_missing h hok hp hstore hm')⟩
    subst hstore
    exact step_keeps_signed h hp.2.2.1.1

/-- A token that is on its way is not caught by the marks a statement adds. -/
theorem clear_of_step (h : step H c.shared p = some (s', q)) (hok : SessionsOver c p)
    (hs : Sound (c.shared, g)) (hp : Local (c.shared, g) (p, late)) {claims : Claims}
    (hclear : Clear (c.shared, g) claims) {r : Proc} (hr : r ∈ c.procs)
    (hissuing : issuing claims.userID r) :
    Clear (s', (note c.shared p s' q (g, late)).1) claims := by
  have hsigned := step_keeps_signed h hclear.1
  refine ⟨hsigned, fun hm => ?_⟩
  obtain ⟨m, hmark, hid⟩ := marks_iff.mp hm
  obtain rfl := eq_of_signed (note_dead h hok hs hp hmark).1 hsigned hid
  rcases mem_note hmark with hold | ⟨-, hl⟩ | ⟨claims', tokens, hstore, hm', rfl⟩
  · exact missing_of_step h hok hclear.1 (hclear.2 (marks_iff.mpr ⟨m, hold, rfl⟩))
  · rcases locksOut_closes h hok hl with hgone | ⟨-, hnone⟩
    · exact hgone
    · rw [hnone r hr] at hissuing
      cases hissuing
  · exact successor_missing h hok hp hstore hm'

/-- A statement does not interfere with what another request relies on. -/
theorem local_of_step (h : step H c.shared p = some (s', q)) (hok : SessionsOver c p)
    (hs : Sound (c.shared, g)) (hp : Local (c.shared, g) (p, late)) {r : Proc} {late' : Bool}
    (hr : r ∈ c.procs) (hlocal : Local (c.shared, g) (r, late')) :
    Local (s', (note c.shared p s' q (g, late)).1) (r, late') := by
  cases r with
  | loginStore tokens user => exact clear_of_step h hok hs hp hlocal hr (by simp [issuing])
  | refreshLookup claims ids =>
    refine ⟨clear_of_step h hok hs hp hlocal.1 hr (by simp [issuing]), fun hlate => ?_⟩
    exact missing_of_step h hok hlocal.1.1 (hlocal.2 hlate)
  | refreshRevoke claims tokens | refreshStore claims tokens =>
    obtain ⟨hclaims, hlate, htokens, hu⟩ := hlocal
    exact ⟨clear_of_step h hok hs hp hclaims hr (by simp [issuing]), hlate,
      clear_of_step h hok hs hp htokens hr (by simp [issuing, hu]), hu⟩
  | refreshed claims tokens => exact hlocal
  | _ => trivial

/-- The check lets a marked token pass only if its user is gone. -/
theorem check_missing (hs : Sound (c.shared, g)) {claims : Claims}
    (hc : claims ∈ c.shared.signed.rows) (hrev : refreshTokenRevoked c.shared claims.id = false)
    (hm : g.marks claims.id) : c.shared.users.select claims.userID = none := by
  obtain ⟨m, hm, hid⟩ := marks_iff.mp hm
  obtain ⟨hsigned, hdead⟩ := hs.2 m hm
  obtain rfl := eq_of_signed hsigned hc hid
  rcases hdead with hrev' | hgone
  · rw [hrev] at hrev'
    cases hrev'
  · exact hgone

/-- A token that has just been signed has no mark. -/
theorem clear_of_generateTokens (hs : Sound (c.shared, g)) {user : User} {ids : ID × ID}
    {t : TokenPair} (ht : generateTokens c.shared user ids = some (s', t)) :
    Clear (s', g) t.refreshToken := by
  obtain ⟨hkept, hsigned, -⟩ := mem_signed_of_generateTokens ht
  refine ⟨hsigned, fun hm => ?_⟩
  obtain ⟨m, hm, hid⟩ := marks_iff.mp hm
  obtain ⟨signed, rfl, -, signed₁, h₁, h₂⟩ := generateTokens_eq ht
  have hold : m ∈ signed₁.rows := by
    rw [Table.rows_insert h₁]
    exact List.mem_append_left _ (hs.2 m hm).1
  have hfresh : Keyed.key t.refreshToken ∉ signed₁.rows.map Keyed.key := by
    intro hin
    rw [Table.insert_eq_none.mpr hin] at h₂
    cases h₂
  exact absurd (List.mem_map.mpr ⟨m, hold, hid⟩) hfresh

/-- The request that moves keeps what it relies on. -/
theorem local_step (h : step H c.shared p = some (s', q)) (hok : SessionsOver c p)
    (hs : Sound (c.shared, g)) (hp : Local (c.shared, g) (p, late)) (hmem : p ∈ c.procs) :
    Local (s', (note c.shared p s' q (g, late)).1)
      (q, (note c.shared p s' q (g, late)).2) := by
  rcases step_session h with hq | ⟨req, ids, user, t, rfl, rfl, -, -, ht⟩ |
    ⟨claims, ids, rfl, rfl, rfl, hc, hrev⟩ | ⟨claims, ids, user, t, rfl, rfl, hu, ht⟩ |
    ⟨claims, t, rfl, rfl, rfl⟩ | ⟨claims, t, rfl, rfl, rfl⟩
  · exact local_of_quiet hq
  · exact clear_of_generateTokens hs ht
  · have hsigned : claims ∈ c.shared.signed.rows := (Table.select_eq_some.mp hc).1
    have hgone := check_missing hs hsigned hrev
    exact ⟨⟨hsigned, hgone⟩, hgone⟩
  · have hid : user.id = claims.userID := (Table.select_eq_some.mp hu).2
    obtain ⟨-, -, huser⟩ := mem_signed_of_generateTokens ht
    refine ⟨clear_of_step h hok hs hp hp.1 hmem (by simp [issuing]), ?_,
      clear_of_generateTokens hs ht, huser.trans hid⟩
    -- the user was found, so the request is not late
    cases late with
    | false => rfl
    | true => rw [hp.2 rfl] at hu; cases hu
  · obtain ⟨hclaims, hlate, htokens, hu⟩ := hp
    exact ⟨clear_of_step h hok hs ⟨hclaims, hlate, htokens, hu⟩ hclaims hmem (by simp [issuing]),
      hlate, clear_of_step h hok hs ⟨hclaims, hlate, htokens, hu⟩ htokens hmem
        (by simp [issuing, hu]), hu⟩
  · have hlate : late = false := hp.2.1
    simp only [Local, note, hlate, Bool.false_and]

end

/-! ## Every run -/

theorem exec_sound (H : Hasher) (c : Tracked) (a : Action) (h : Holds Sound Local c)
    (ha : EndsSessions c.erase a) : Holds Sound Local ((tracked H).exec c a) := by
  refine h.exec (fun r => local_of_quiet (quiet_of_fresh (start_fresh H r))) ?_
  rintro i b ⟨p, late⟩ t ⟨q, late'⟩ rfl hp hs
  obtain ⟨⟨s', q'⟩, hmove, he⟩ := Option.map_eq_some_iff.mp hs
  cases he
  have hstep : step H c.erase.shared p = some (s', q') := hmove
  have hperase : c.erase.procs[i]? = some p := by simp [Config.erase, hp]
  have hok : SessionsOver c.erase p := ha p hperase
  have hmem : p ∈ c.erase.procs := List.mem_of_getElem? hperase
  have hlocal : Local (c.erase.shared, c.shared.2) (p, late) :=
    h.2 _ (List.mem_of_getElem? hp)
  have hsound : Sound (c.erase.shared, c.shared.2) := h.1
  refine ⟨⟨step_issued hstep hsound.1 hlocal, fun _ => note_dead hstep hok hsound hlocal⟩,
    local_step hstep hok hsound hlocal hmem, ?_⟩
  rintro ⟨r, late₀⟩ hr
  exact local_of_step hstep hok hsound hlocal (List.mem_map.mpr ⟨_, hr, rfl⟩)

/-- In every run of any requests, from any tables whose tokens were signed for
their users, in which a user whose sessions are to end has no unrevoked token
and none on the way to be stored at that moment, no marked token is redeemed. -/
theorem no_late_redemption (H : Hasher) (s : Store) (hs : Issued s) (as : List Action)
    (has : (machine H).Along EndsSessions (boot s) as) :
    (tracked H).Throughout (fun c => ∀ p ∈ c.procs, redeemedLate p = false) (track s) as := by
  have hstart : Holds Sound Local (track s) :=
    ⟨⟨hs, fun r hr => absurd hr (by simp [track, History.none, History.marked])⟩,
      fun p hp => absurd hp (by simp [track])⟩
  have hinv := Machine.throughout_of_step (exec_sound H) hstart
    ((along_erase (machine H) false note EndsSessions (track s) as).mpr has)
  rw [Machine.throughout_iff_prefix] at hinv ⊢
  intro bs hbs p hp
  exact not_redeemedLate ((hinv bs hbs).2 p hp)

/-! ## A locked-out user who stays -/

def alice : User := ⟨"a", "t", "alice", "", "password", "viewer", true, false, "", true⟩

def session : Claims := ⟨"r0", "a", "alice", "viewer"⟩

/-- One user with one unrevoked refresh token. -/
def oneSession : Store :=
  ⟨["t"], .singleton alice, .singleton ⟨"r0", "a", false⟩, .singleton session⟩

def refresh (claims : Claims) (access refresh : ID) : Action :=
  .spawn (.refreshToken (.ok (.claims claims)) (access, refresh))

/-- The next `n` statements of one request. -/
def moves (i n : ℕ) : List Action := List.replicate n (.run i ())

def changeAlice : Request := .changePassword (some "a") (.ok ⟨"password", "password2"⟩) ""

def disableAlice : Request := .updateUser (some "b") "a" (.ok ⟨"", "", some false⟩)

/-- An administrator resets the password, then the old token is refreshed. -/
def resetThenRefresh : List Action :=
  [.spawn (.resetPassword "a" (.ok "password2") "")] ++ moves 0 2 ++ [refresh session "a1" "r1"] ++
    moves 1 4

/-- An administrator disables the account, then the old token is refreshed. -/
def disableThenRefresh : List Action :=
  [.spawn disableAlice] ++ moves 0 2 ++ [refresh session "a1" "r1"] ++ moves 1 4

/-- The password is changed while a refresh is under way; its successor stays
unrevoked and is refreshed afterwards. -/
def changeDuringRefresh : List Action :=
  [refresh session "a1" "r1", .run 0 (), .spawn changeAlice] ++ moves 1 3 ++ moves 0 3 ++
    [refresh ⟨"r1", "a", "alice", "viewer"⟩ "a2" "r2"] ++ moves 2 4

/-- The password is changed while a login with the old one has signed its pair. -/
def changeDuringLogin : List Action :=
  [.spawn (.login (.ok ⟨"alice", "password"⟩) ("a1", "r1")), .run 0 (), .spawn changeAlice] ++
    moves 1 3 ++ [.run 0 (), refresh ⟨"r1", "a", "alice", "viewer"⟩ "a2" "r2"] ++ moves 2 4

/-- After a reset, while disabled and across a change of password, a token
from before is redeemed. -/
theorem shut_out_tokens_redeemed :
    Issued oneSession ∧ ∀ as ∈ [resetThenRefresh, disableThenRefresh, changeDuringRefresh,
        changeDuringLogin],
      ∃ p ∈ ((tracked plainHasher).run (track oneSession) as).procs, redeemedLate p := by
  decide

/-- With nothing on the way to be stored, a changed password ends the sessions: neither the old
token nor that of the login just before is taken any more. -/
theorem change_ends_session :
    (tracked plainHasher).Throughout (fun c => ∀ p ∈ c.procs, redeemedLate p = false)
      (track oneSession)
      ([.spawn (.login (.ok ⟨"alice", "password"⟩) ("a1", "r1"))] ++ moves 0 2 ++
        [.spawn changeAlice] ++ moves 1 3 ++ [refresh session "a2" "r2",
          refresh ⟨"r1", "a", "alice", "viewer"⟩ "a3" "r3"] ++ moves 2 1 ++ moves 3 1) :=
  no_late_redemption plainHasher oneSession (by decide) _ (by decide)

end NetBerth.SessionInvalidation
