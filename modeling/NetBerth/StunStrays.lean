import NetBerth.StunBind

/-!
# Unsolicited datagrams

Whatever arrives ahead of the response uses up a read: a datagram that is passed
over ends its attempt, as a timeout does, and the response is found only if an
attempt is left for it. So the call is disturbed by strays as soon as they fill
its reads, although each of them is recognised as a stray.
-/
namespace NetBerth.StunStrays
open IPAddress StunMessage StunBind

/-- The datagram is from another source, or carries no transaction ID or another one. -/
def Stray (server : UDPAddr) (tid : TransID) (d : Datagram) : Prop :=
  (¬d.remote.ip.equal server.ip ∨ d.remote.port ≠ server.port) ∨
    ∀ hdr, parseHeader d.payload = some (some hdr) → hdr.transID ≠ tid

/-- The second queue is the first with strays among its entries. A read that timed out
may get a stray in place of the timeout. -/
inductive Disturbed (server : UDPAddr) (tid : TransID) :
    List (Except SocketError Datagram) → List (Except SocketError Datagram) → Prop
  | nil : Disturbed server tid [] []
  | keep (x : Except SocketError Datagram) {quiet noisy : List (Except SocketError Datagram)} :
      Disturbed server tid quiet noisy → Disturbed server tid (x :: quiet) (x :: noisy)
  | stray (d : Datagram) {quiet noisy : List (Except SocketError Datagram)} :
      Stray server tid d → Disturbed server tid quiet noisy →
      Disturbed server tid quiet (.ok d :: noisy)
  | waited (err : SocketError) {quiet noisy : List (Except SocketError Datagram)} :
      err.timeout = true → Disturbed server tid quiet noisy →
      Disturbed server tid (.error err :: quiet) noisy

/-- How many reads the attempts that are left can make. An attempt whose write fails
makes none, and a deadline that cannot be set ends the call. -/
def reads : ℕ → List (Option SocketError) → List (Option SocketError) → ℕ
  | 0, _, _ => 0
  | left + 1, writes, deadlines =>
    if writes.head?.join.isSome then reads left writes.tail deadlines
    else if deadlines.head?.join.isSome then 0
    else 1 + reads left writes.tail deadlines.tail

/-! ## What is passed over -/

section
variable {server : UDPAddr} {tid : TransID}

/-- What a read returns without ending the call, the last attempt apart. -/
def PassedOver (server : UDPAddr) (tid : TransID) : Except SocketError Datagram → Prop
  | .error _ => True
  | .ok d => answer server tid (d.payload.take bufSize) (d.payload.take bufSize).length d.remote =
      some .next

theorem Stray.passedOver {d : Datagram} (h : Stray server tid d) :
    PassedOver server tid (.ok d) := by
  obtain ⟨hanswers, -⟩ | ⟨-, hnext⟩ : _ ∨ ¬Answers server tid _ _ ∧ _ :=
    answer_cases (d.payload.take bufSize) d.remote
  · rcases h with (hip | hport) | htid
    · exact absurd hanswers.ip hip
    · exact absurd hanswers.port hport
    · have hfull := hanswers.full
      have hsame := hanswers.transID
      rw [List.length_take] at hfull
      rw [headerOf_take (by decide)] at hsame
      refine absurd hsame (htid (headerOf d.payload) ?_)
      rw [parseHeader_eq, if_neg (by omega)]
  · exact hnext

theorem Disturbed.passedOver {quiet noisy : List (Except SocketError Datagram)}
    (h : Disturbed server tid quiet noisy) (hquiet : ∀ x ∈ quiet, PassedOver server tid x) :
    ∀ x ∈ noisy, PassedOver server tid x := by
  induction h with
  | nil => exact hquiet
  | keep x _ ih =>
    obtain ⟨hx, hrest⟩ := List.forall_mem_cons.mp hquiet
    exact List.forall_mem_cons.mpr ⟨hx, ih hrest⟩
  | stray d hd _ ih => exact List.forall_mem_cons.mpr ⟨hd.passedOver, ih hquiet⟩
  | waited err _ _ ih => exact ih (List.forall_mem_cons.mp hquiet).2

/-! ## One attempt -/

variable {req : List UInt8} {attempt : ℕ} {conn : UDPConn}

/-- What a read returns decides an attempt. -/
def outcome (server : UDPAddr) (tid : TransID) (attempt : ℕ) :
    Except SocketError Datagram → Option Outcome
  | .error err =>
    if err.timeout then
      some (if attempt < maxRetries - 1 then .next else .done (.error .timeout))
    else some (if attempt = maxRetries - 1 then .done (.error (.read err)) else .next)
  | .ok d => answer server tid (d.payload.take bufSize) (d.payload.take bufSize).length d.remote

theorem PassedOver.outcome {x : Except SocketError Datagram} (h : PassedOver server tid x)
    (attempt : ℕ) : outcome server tid attempt x = some .next ∨
      attempt + 1 ≥ maxRetries ∧
        ∃ err, outcome server tid attempt x = some (.done (.error err)) := by
  cases x with
  | error err =>
    cases htimeout : err.timeout with
    | true =>
      rw [StunStrays.outcome, htimeout, if_pos rfl]
      by_cases hbefore : attempt < maxRetries - 1
      · exact .inl (by rw [if_pos hbefore])
      · exact .inr ⟨by omega, .timeout, by rw [if_neg hbefore]⟩
    | false =>
      rw [StunStrays.outcome, htimeout, if_neg Bool.false_ne_true]
      by_cases hlast : attempt = maxRetries - 1
      · exact .inr ⟨by omega, .read err, by rw [if_pos hlast]⟩
      · exact .inl (by rw [if_neg hlast])
  | ok d => exact .inl h

theorem runAttempt_write {err : SocketError} (hwrite : conn.writes.head?.join = some err) :
    runAttempt server req tid attempt conn =
      some (if attempt = maxRetries - 1 then .done (.error (.write err)) else .next,
        { conn with writes := conn.writes.tail }) := by
  have hfail : conn.writeTo req server = (some err, { conn with writes := conn.writes.tail }) := by
    unfold UDPConn.writeTo
    split
    · rename_i hwrites
      rw [hwrites] at hwrite ⊢
      cases hwrite
      rfl
    · rename_i hnone
      cases hwrites : conn.writes with
      | nil =>
        rw [hwrites] at hwrite
        cases hwrite
      | cons first rest =>
        rw [hwrites] at hwrite
        exact absurd (hwrites.trans (congrArg (· :: rest) hwrite)) (hnone _ _)
  rw [runAttempt, hfail]

theorem writeTo_sends (hwrite : conn.writes.head?.join = none) :
    conn.writeTo req server =
      (none, { conn with writes := conn.writes.tail, sent := conn.sent ++ [(req, server)] }) := by
  unfold UDPConn.writeTo
  split
  · rename_i hwrites
    rw [hwrites] at hwrite
    cases hwrite
  · rfl

theorem runAttempt_deadline {err : SocketError} (hwrite : conn.writes.head?.join = none)
    (hdeadline : conn.deadlines.head?.join = some err) :
    runAttempt server req tid attempt conn =
      some (.done (.error (.setDeadline err)), ⟨conn.writes.tail, conn.deadlines.tail,
        conn.deliveries, conn.sent ++ [(req, server)]⟩) := by
  rw [runAttempt, writeTo_sends hwrite]
  dsimp only [UDPConn.setReadDeadline]
  rw [hdeadline]

theorem runAttempt_read {x : Except SocketError Datagram}
    {rest : List (Except SocketError Datagram)} (hwrite : conn.writes.head?.join = none)
    (hdeadline : conn.deadlines.head?.join = none) (hread : conn.deliveries = x :: rest) :
    runAttempt server req tid attempt conn =
      (outcome server tid attempt x).map (·, ⟨conn.writes.tail, conn.deadlines.tail, rest,
        conn.sent ++ [(req, server)]⟩) := by
  rw [runAttempt, writeTo_sends hwrite]
  dsimp only [UDPConn.setReadDeadline]
  rw [hdeadline]
  dsimp only [UDPConn.readFromUDP]
  rw [hread]
  cases x with
  | error err =>
    dsimp only [outcome]
    split_ifs <;> rfl
  | ok d =>
    dsimp only [outcome]
    rw [answer_append]

/-- An attempt that goes on to the next has passed over what it read. -/
theorem runAttempt_next {conn' : UDPConn}
    (h : runAttempt server req tid attempt conn = some (.next, conn')) :
    conn'.deliveries = conn.deliveries ∨
      ∃ x, conn.deliveries = x :: conn'.deliveries ∧ PassedOver server tid x := by
  cases hwrite : conn.writes.head?.join with
  | some err =>
    rw [runAttempt_write hwrite] at h
    cases (Prod.mk.inj (Option.some.inj h)).2
    exact .inl rfl
  | none =>
    cases hdeadline : conn.deadlines.head?.join with
    | some err =>
      rw [runAttempt_deadline hwrite hdeadline] at h
      cases h
    | none =>
      cases hread : conn.deliveries with
      | nil =>
        rcases (runAttempt_cases h).2 with ⟨hsuffix, -⟩ | ⟨d, hd, -⟩
        · rw [hread] at hsuffix
          exact .inl (List.suffix_nil.mp hsuffix)
        · rw [hread] at hd
          cases hd
      | cons x rest =>
        rw [runAttempt_read hwrite hdeadline hread] at h
        obtain ⟨o, ho, heq⟩ := Option.map_eq_some_iff.mp h
        cases heq
        refine .inr ⟨x, rfl, ?_⟩
        cases x with
        | error err => trivial
        | ok d => exact ho

/-! ## One call -/

/-- What was read before the response that is returned was passed over. -/
theorem bindLoop_passedOver {conn' : UDPConn} {addr : UDPAddr}
    (h : bindLoop server req tid attempt conn = some (.ok addr, conn')) :
    ∃ earlier d, conn.deliveries = earlier ++ .ok d :: conn'.deliveries ∧
      (∀ x ∈ earlier, PassedOver server tid x) ∧
        outcome server tid 0 (.ok d) = some (.done (.ok addr)) := by
  fun_induction bindLoop server req tid attempt conn with
  | case1 attempt conn hlt hrun => cases h
  | case2 attempt conn hlt c hrun ih =>
    obtain ⟨earlier, d, hd, hearlier, hanswer⟩ := ih h
    rcases runAttempt_next hrun with hsame | ⟨x, hx, hpassed⟩
    · exact ⟨earlier, d, hsame ▸ hd, hearlier, hanswer⟩
    · refine ⟨x :: earlier, d, ?_, List.forall_mem_cons.mpr ⟨hpassed, hearlier⟩, hanswer⟩
      rw [hx, hd, List.cons_append]
  | case3 attempt conn hlt result c hrun =>
    cases h
    rcases (runAttempt_cases hrun).2 with ⟨-, hnone⟩ | ⟨d, hd, hanswer⟩
    · exact absurd rfl (hnone addr)
    · exact ⟨[], d, hd, List.forall_mem_nil _, hanswer⟩
  | case4 attempt conn hlt => cases h

/-- The response is reached by the reads that are left after what is passed over, and
without it the call fails. -/
theorem bindLoop_reaches {left : ℕ} {passed later : List (Except SocketError Datagram)}
    {d : Datagram} {addr : UDPAddr} (hleft : attempt + left = maxRetries)
    (hdeliveries : conn.deliveries = passed ++ .ok d :: later)
    (hpassed : ∀ x ∈ passed, PassedOver server tid x)
    (hanswer : outcome server tid 0 (.ok d) = some (.done (.ok addr))) :
    if passed.length < reads left conn.writes conn.deadlines then
      ∃ c, bindLoop server req tid attempt conn = some (.ok addr, c) ∧ c.deliveries = later
    else ∃ err c, bindLoop server req tid attempt conn = some (.error err, c) := by
  induction left generalizing attempt conn passed with
  | zero =>
    have hend : ¬attempt < maxRetries := by omega
    rw [reads, if_neg (Nat.not_lt_zero _), bindLoop, if_neg hend]
    exact ⟨_, _, rfl⟩
  | succ left ih =>
    have hlt : attempt < maxRetries := by omega
    have hnext : attempt + 1 + left = maxRetries := by omega
    rw [bindLoop, if_pos hlt, reads]
    cases hwrite : conn.writes.head?.join with
    | some err =>
      rw [runAttempt_write hwrite, Option.isSome_some, if_pos rfl]
      by_cases hlast : attempt = maxRetries - 1
      · obtain rfl : left = 0 := by
          simp only [maxRetries] at hlast hleft
          omega
        rw [if_pos hlast, reads, if_neg (Nat.not_lt_zero _)]
        exact ⟨_, _, rfl⟩
      · rw [if_neg hlast]
        exact @ih (attempt + 1) { conn with writes := conn.writes.tail } passed hnext hdeliveries
          hpassed
    | none =>
      rw [Option.isSome_none, if_neg Bool.false_ne_true]
      cases hdeadline : conn.deadlines.head?.join with
      | some err =>
        rw [runAttempt_deadline hwrite hdeadline, Option.isSome_some, if_pos rfl,
          if_neg (Nat.not_lt_zero _)]
        exact ⟨_, _, rfl⟩
      | none =>
        rw [Option.isSome_none, if_neg Bool.false_ne_true]
        cases passed with
        | nil =>
          have hdone : outcome server tid attempt (.ok d) = some (.done (.ok addr)) := hanswer
          rw [runAttempt_read hwrite hdeadline hdeliveries, hdone, if_pos (by simp)]
          exact ⟨_, rfl, rfl⟩
        | cons x passed =>
          obtain ⟨hx, hrest⟩ := List.forall_mem_cons.mp hpassed
          rw [runAttempt_read hwrite hdeadline hdeliveries, List.length_cons, Nat.add_comm 1]
          rcases hx.outcome attempt with hgo | ⟨hlast, err, hstop⟩
          · rw [hgo]
            simp only [add_lt_add_iff_right]
            exact @ih (attempt + 1) ⟨conn.writes.tail, conn.deadlines.tail,
              passed ++ .ok d :: later, conn.sent ++ [(req, server)]⟩ passed hnext rfl hrest
          · obtain rfl : left = 0 := by
              simp only [maxRetries] at hlast hleft
              omega
            rw [hstop, reads, if_neg (by omega)]
            exact ⟨_, _, rfl⟩

end

section
variable (conn : UDPConn) (server : UDPAddr) (random : TransID)

/-- Behind strays the response is still found exactly when they, and what else is read
before it, leave a read for it. -/
theorem stunBind_disturbed_iff (quiet noisy : List (Except SocketError Datagram))
    (response : Datagram) (addr : UDPAddr) (conn' : UDPConn)
    (hquiet : stunBind { conn with deliveries := quiet ++ .ok response :: conn'.deliveries }
      server random = some (.ok addr, conn'))
    (hnoisy : Disturbed server random quiet noisy) :
    (∃ conn'', stunBind { conn with deliveries := noisy ++ .ok response :: conn'.deliveries }
        server random = some (.ok addr, conn'')) ↔
      noisy.length < reads maxRetries conn.writes conn.deadlines := by
  rw [stunBind, reqTID_buildBindingRequest] at hquiet
  obtain ⟨earlier, d, hd, hearlier, hanswer⟩ := bindLoop_passedOver hquiet
  obtain ⟨rfl, hlast⟩ := List.append_inj' hd rfl
  obtain rfl : response = d := by
    injection hlast with hhead
    injection hhead
  have hreaches := @bindLoop_reaches server random (buildBindingRequest random) 0
    { conn with deliveries := noisy ++ .ok response :: conn'.deliveries } maxRetries noisy
    conn'.deliveries response addr (Nat.zero_add _) rfl (hnoisy.passedOver hearlier) hanswer
  rw [stunBind, reqTID_buildBindingRequest]
  dsimp only at hreaches
  split_ifs at hreaches with hroom
  · obtain ⟨c, hc, -⟩ := hreaches
    exact iff_of_true ⟨c, hc⟩ hroom
  · obtain ⟨err, c, hc⟩ := hreaches
    refine iff_of_false ?_ hroom
    rintro ⟨c', hc'⟩
    cases hc.symm.trans hc'

end

/-- Two strays, the second in place of a timeout, leave the last read for the response. -/
theorem two_strays_disturbed :
    let server : UDPAddr := ⟨[203, 0, 113, 5], 3478, ""⟩
    let random : TransID := ⟨[48, 49, 50, 51, 52, 53, 54, 55, 56, 57, 97, 98], rfl⟩
    let response : Datagram := ⟨[1, 1, 0, 12, 33, 18, 164, 66] ++ random.val ++
      [0, 32, 0, 8, 0, 1, 37, 192, 225, 18, 166, 72], server⟩
    let elsewhere : Datagram := ⟨response.payload, ⟨[198, 51, 100, 1], 3478, ""⟩⟩
    let late : Datagram :=
      ⟨[1, 1, 0, 0, 33, 18, 164, 66, 0, 0, 0, 0, 0, 0, 0, 0, 0, 0, 0, 0], server⟩
    (∃ conn'', stunBind { deliveries := [.ok elsewhere, .ok late, .ok response] } server random =
        some (.ok ⟨[192, 0, 2, 10], 1234, ""⟩, conn'')) ↔ 2 < reads maxRetries [] [] := by
  intro server random response elsewhere late
  let req := buildBindingRequest random
  refine stunBind_disturbed_iff ⟨[], [], [], []⟩ server random [.error ⟨"i/o timeout", true⟩]
    [.ok elsewhere, .ok late] response ⟨[192, 0, 2, 10], 1234, ""⟩
    ⟨[], [], [], [(req, server), (req, server)]⟩ (by decide +kernel) ?_
  refine .stray elsewhere (.inl (.inl (by decide))) (.stray late (.inr ?_) (.waited _ rfl .nil))
  intro hdr hhdr
  rw [parseHeader_eq, if_neg (by decide)] at hhdr
  cases hhdr
  decide

/-- Three strays from elsewhere take all three reads; the response behind them is never
looked at. -/
theorem three_strays_disturb :
    let server : UDPAddr := ⟨[203, 0, 113, 5], 3478, ""⟩
    let random : TransID := ⟨[48, 49, 50, 51, 52, 53, 54, 55, 56, 57, 97, 98], rfl⟩
    let response : Datagram := ⟨[1, 1, 0, 12, 33, 18, 164, 66] ++ random.val ++
      [0, 32, 0, 8, 0, 1, 37, 192, 225, 18, 166, 72], server⟩
    let elsewhere : Datagram := ⟨[0], ⟨[198, 51, 100, 1], 3478, ""⟩⟩
    let strays := List.replicate 3 (.ok elsewhere)
    ((stunBind { deliveries := [.ok response] } server random).map Prod.fst =
        some (.ok ⟨[192, 0, 2, 10], 1234, ""⟩)) ∧
      Disturbed server random [] strays ∧
      (stunBind { deliveries := strays ++ [.ok response] } server random).map Prod.fst =
        some (.error .attemptsFailed) := by
  intro server random response elsewhere strays
  have hstray : Stray server random elsewhere := .inl (.inl (by decide))
  exact ⟨by decide +kernel, .stray _ hstray (.stray _ hstray (.stray _ hstray .nil)),
    by decide +kernel⟩

end NetBerth.StunStrays
