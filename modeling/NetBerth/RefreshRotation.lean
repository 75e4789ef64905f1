import NetBerth.Accounts

/-!
# Rotation of refresh tokens

`RefreshToken` checks that the presented token is not revoked, looks the user
up, revokes the token and stores its successor, each with a statement of its
own. The revoking UPDATE is conditional on the row being unrevoked, but its row
count is dropped. Two requests that pass the check before either revokes both
answer with a new pair.

While each revoking UPDATE does change its row, a token is spent at most once,
whatever other requests run beside it.
-/
namespace NetBerth.RefreshRotation
open Interleaving SqlTable Accounts

/-- The request answered with a new pair for the token `id`. -/
def redeemed (id : ID) : Proc → Bool
  | .refreshed claims _ => claims.id = id
  | _ => false

/-- The request is past the UPDATE that revokes the token `id`. -/
def spent (id : ID) : Proc → Bool
  | .refreshStore claims _ | .refreshed claims _ => claims.id = id
  | _ => false

/-- If the request is about to revoke the token `id`, the token is unrevoked. -/
def RevokesFirst (id : ID) (s : Store) : Proc → Prop
  | .refreshRevoke claims _ => claims.id = id → refreshTokenRevoked s id = false
  | _ => True

instance (id : ID) (s : Store) (p : Proc) : Decidable (RevokesFirst id s p) := by
  apply Proc.casesOn (motive := fun p => Decidable (RevokesFirst id s p)) p <;> intros <;>
    unfold RevokesFirst <;> infer_instance

/-- Every UPDATE that revokes the token `id` finds it unrevoked. -/
def RevokesUnrevoked (id : ID) : State → Action → Prop :=
  Machine.Moves fun c p => RevokesFirst id c.shared p

instance (id : ID) (c : State) (a : Action) : Decidable (RevokesUnrevoked id c a) := by
  unfold RevokesUnrevoked
  infer_instance

/-- A spent token has its row, and the row is revoked. -/
structure SpentOnce (id : ID) (c : State) : Prop where
  count : c.procs.countP (spent id) ≤ 1
  row : c.procs.countP (spent id) ≠ 0 →
    ∃ row, c.shared.refreshTokens.select id = some row ∧ row.revoked

theorem redeemed_spent {id : ID} {p : Proc} (h : redeemed id p) : spent id p := by
  cases p <;> simp_all [redeemed, spent]

theorem spent_not_fresh {id : ID} {p : Proc} (h : p.fresh) : spent id p = false := by
  cases p <;> simp_all [spent, Proc.fresh]

theorem spent_of_quiet {id : ID} {p : Proc} (h : p.quiet) : spent id p = false := by
  cases p <;> simp_all [spent, Proc.quiet]

/-- Only the revoking UPDATE brings a request past it. -/
theorem step_spent {H : Hasher} {s s' : Store} {p q : Proc} (h : step H s p = some (s', q))
    (id : ID) : spent id q = spent id p ∨
      ∃ claims tokens, p = .refreshRevoke claims tokens ∧ claims.id = id ∧
        s' = revokeRefreshToken s id ∧ spent id q ∧ spent id p = false := by
  rcases step_session h with hq | ⟨req, ids, user, t, rfl, rfl, -⟩ | ⟨claims, ids, rfl, rfl, -⟩ |
    ⟨claims, ids, user, t, rfl, rfl, -⟩ | ⟨claims, t, rfl, rfl, rfl⟩ | ⟨claims, t, rfl, rfl, -⟩
  · left
    rw [spent_of_quiet hq]
    cases p with
    | refreshStore claims t =>
      cases h
      cases hq
    | refreshed claims t => cases h
    | _ => rfl
  · exact .inl rfl
  · exact .inl rfl
  · exact .inl rfl
  · by_cases hid : claims.id = id
    · exact .inr ⟨claims, t, rfl, hid, by rw [hid], by simp [spent, hid], rfl⟩
    · exact .inl (by simp [spent, hid])
  · exact .inl rfl

/-- A revocation leaves the token's row behind, revoked, if there was a row. -/
theorem revoked_of_unrevoked {s : Store} {id : ID} (h : refreshTokenRevoked s id = false) :
    ∃ row, (revokeRefreshToken s id).refreshTokens.select id = some row ∧ row.revoked := by
  unfold refreshTokenRevoked at h
  cases hrow : s.refreshTokens.select id with
  | none => simp [hrow] at h
  | some row =>
    have hid : row.id = id := (Table.select_eq_some.mp hrow).2
    refine ⟨{ row with revoked := true }, ?_, rfl⟩
    rw [revokeRefreshToken, select_revokeWhere, hrow]
    simp [hid]

theorem refreshTokenRevoked_of_row {s : Store} {id : ID} {row : RefreshToken}
    (h : s.refreshTokens.select id = some row) : refreshTokenRevoked s id = row.revoked := by
  simp only [refreshTokenRevoked, h]

theorem spentOnce_boot (id : ID) (s : Store) : SpentOnce id (boot s) :=
  ⟨Nat.zero_le _, fun h => absurd rfl h⟩

theorem exec_spentOnce {H : Hasher} {id : ID} (c : State) (a : Action) (h : SpentOnce id c)
    (ha : RevokesUnrevoked id c a) : SpentOnce id ((machine H).exec c a) := by
  rcases (machine H).exec_cases c a with ⟨r, -, he⟩ | ⟨i, b, p, s, q, rfl, hp, hs, he⟩ | he
  · -- a request begins with a statement that is not past the UPDATE
    have hfresh : spent id ((machine H).start r) = false := spent_not_fresh (start_fresh H r)
    have hcount : (c.procs ++ [(machine H).start r]).countP (spent id) =
        c.procs.countP (spent id) := by
      simp [List.countP_append, hfresh]
    rw [he]
    exact ⟨hcount ▸ h.count, fun hne => h.row (hcount ▸ hne)⟩
  · have hcount := countP_set (spent id) (q := q) hp
    rw [he]
    rcases step_spent hs id with hsame | ⟨claims, tokens, rfl, hid, rfl, hq, hp'⟩
    · rw [hsame] at hcount
      have heq : (c.procs.set i q).countP (spent id) = c.procs.countP (spent id) := by omega
      refine ⟨heq ▸ h.count, fun hne => ?_⟩
      obtain ⟨row, hrow, hr⟩ := h.row (heq ▸ hne)
      obtain ⟨row', hrow', -, hr'⟩ := step_keeps_row hs hrow
      exact ⟨row', hrow', hr' hr⟩
    · -- the UPDATE finds the row unrevoked, so no request can be past it yet
      have hun : refreshTokenRevoked c.shared id = false := ha _ hp hid
      have hnone : c.procs.countP (spent id) = 0 := by
        by_contra hne
        obtain ⟨row, hrow, hr⟩ := h.row hne
        rw [refreshTokenRevoked_of_row hrow, hr] at hun
        cases hun
      rw [hnone, hp', hq] at hcount
      exact ⟨by simpa using hcount.le, fun _ => revoked_of_unrevoked hun⟩
  · rw [he]
    exact h

theorem countP_redeemed_le (id : ID) (c : State) :
    c.procs.countP (redeemed id) ≤ c.procs.countP (spent id) :=
  List.countP_mono_left fun _ _ => redeemed_spent

/-- In every run of any requests, from any tables, in which each UPDATE that
revokes the token finds it unrevoked, at most one request at a time and in all
has answered with a new pair for it. -/
theorem redeemed_at_most_once (H : Hasher) (id : ID) (s : Store) (as : List Action)
    (has : (machine H).Along (RevokesUnrevoked id) (boot s) as) :
    (machine H).Throughout (fun c => c.procs.countP (redeemed id) ≤ 1) (boot s) as := by
  have hinv := Machine.throughout_of_step exec_spentOnce (spentOnce_boot id s) has
  rw [Machine.throughout_iff_prefix] at hinv ⊢
  intro bs hbs
  exact (countP_redeemed_le id _).trans (hinv bs hbs).count

/-! ## One token, two requests -/

def session : Claims := ⟨"r0", "a", "alice", "viewer"⟩

/-- One user with one unrevoked refresh token. -/
def oneSession : Store where
  tenants := ["t"]
  users := ⟨[⟨"a", "t", "alice", "", "password", "viewer", true, false, "", true⟩], by decide⟩
  refreshTokens := ⟨[⟨"r0", "a", false⟩], by decide⟩
  signed := ⟨[session], by decide⟩

/-- The same token is presented twice. -/
def presentTwice : List Action :=
  [.spawn (.refreshToken (.ok (.claims session)) ("a1", "r1")),
    .spawn (.refreshToken (.ok (.claims session)) ("a2", "r2"))]

/-- Both requests pass the check before either revokes: two new pairs. -/
theorem crossed_refreshes_redeem_twice :
    ((machine plainHasher).run (boot oneSession) (presentTwice ++
      [.run 0 (), .run 1 (), .run 0 (), .run 1 (), .run 0 (), .run 1 (), .run 0 (),
        .run 1 ()])).procs.countP (redeemed "r0") = 2 := by
  decide

/-- One after the other, the second request finds the token revoked. -/
theorem sequential_refreshes_redeem_once :
    (machine plainHasher).Throughout (fun c => c.procs.countP (redeemed "r0") ≤ 1)
      (boot oneSession) (presentTwice ++
        [.run 0 (), .run 0 (), .run 0 (), .run 0 (), .run 1 (), .run 1 ()]) :=
  redeemed_at_most_once plainHasher "r0" oneSession _ (by decide)

end NetBerth.RefreshRotation
