import NetBerth.LoginLimiter

/-!
# Bursts of failures

The limiter keeps the number of failures of a client and the time of the first one, and starts
again from one when that time is further back than the window. Failures of before a burst make
the window start early: it may end within the burst, and what the burst had until then is
forgotten.

Here the logins of one client are handled one at a time, with passes of the cleanup in between.
-/
namespace NetBerth.LockoutWindow
open LoginLimiter

/-- A login of the client, with the clock at its check and at its record, or a pass of the
cleanup. -/
inductive Outcome where
  | login (now : ℚ) (status : ℕ) (r : Recording)
  | tick (now : ℚ)

section
variable (cfg : Settings) (l : Login)

/-- A client that is locked out is turned away. -/
def handle (failures : Failures) : Outcome → Failures
  | .login now status r =>
    if letIn cfg (failures.lookup l.client) l now = .inside then observe cfg failures l status r
    else failures
  | .tick now => cleanup cfg failures now

/-- No login is turned away, and the table is below its cap. -/
def Handled : Failures → List Outcome → Prop
  | _, [] => True
  | failures, o :: os =>
    (match o with
      | .login now _ _ => letIn cfg (failures.lookup l.client) l now = .inside
      | .tick _ => True) ∧
    failures.keys.length < maxTrackedLoginFailures ∧ Handled (handle cfg l failures o) os

end

/-- One outcome after the other, on a clock that does not go back. -/
def InOrder : ℚ → List Outcome → Prop
  | _, [] => True
  | clock, .login now _ r :: os => clock ≤ now ∧ now ≤ r.created ∧ InOrder r.locked os
  | clock, .tick now :: os => clock ≤ now ∧ InOrder now os

/-- The failures, in their order. -/
def failed (os : List Outcome) : List Recording :=
  os.filterMap fun o => match o with
    | .login _ status r => if status = 401 then some r else none
    | .tick _ => none

/-- As many failures as are allowed, from a first to a last one, in an interval no longer than
the window and with no success in between. -/
structure Burst (cfg : Settings) (os : List Outcome) (first last : Recording) : Prop where
  ordered : ∃ clock, InOrder clock os
  begins : ∃ now, os.head? = some (.login now 401 first)
  ends : ∃ now, os.getLast? = some (.login now 401 last)
  enough : ((failed os).length : ℤ) = cfg.maxFailures
  unsuccessful : ∀ now r, Outcome.login now 200 r ∉ os
  within : ∃ t : ℚ, ∀ r ∈ failed os, t ≤ r.created ∧ r.locked ≤ t + cfg.window

/-- The client is locked out for as long as is set. -/
def LockedFor (cfg : Settings) (f : Option LoginFailures) (t : ℚ) : Prop :=
  ∀ now, t ≤ now → now < t + cfg.lockDuration → lockedOut f now = true

/-- The window of an entry ends after the first failure of a burst and before the last one. -/
def Straddles (cfg : Settings) (f : Option LoginFailures) (first last : Recording) : Prop :=
  ∃ g ∈ f, first.since - g.firstTry ≤ cfg.window ∧ cfg.window < last.since - g.firstTry

/-! ## One entry -/

section
variable {cfg : Settings} {f : LoginFailures} {r : Recording}

/-- No failure that finds the window open starts again. -/
theorem count_foldl_of_open {rs : List Recording}
    (h : ∀ r ∈ rs, r.since - f.firstTry ≤ cfg.window) :
    (rs.foldl (LoginFailures.fail cfg) f).count = f.count + rs.length := by
  induction rs generalizing f with
  | nil => rfl
  | cons r rs ih =>
    have hopen : ¬r.since - f.firstTry > cfg.window := not_lt.mpr (h r List.mem_cons_self)
    have hfirst : (f.fail cfg r).firstTry = f.firstTry := by rw [fail_firstTry, if_neg hopen]
    rw [List.foldl_cons, ih, fail_count, if_neg hopen, List.length_cons]
    · omega
    · intro r' hr'
      rw [hfirst]
      exact h r' (List.mem_cons_of_mem r hr')

/-- Where the window ends among failures that lie within one, only these count in the end. -/
theorem count_foldl_of_closed {rs : List Recording} {t : ℚ}
    (hclosed : ∃ r ∈ rs, cfg.window < r.since - f.firstTry)
    (hwithin : ∀ r ∈ rs, t ≤ r.created ∧ r.locked ≤ t + cfg.window) :
    (rs.foldl (LoginFailures.fail cfg) f).count ≤ rs.length := by
  induction rs generalizing f with
  | nil =>
    obtain ⟨r, hr, -⟩ := hclosed
    cases hr
  | cons r rs ih =>
    have hrest : ∀ r' ∈ rs, t ≤ r'.created ∧ r'.locked ≤ t + cfg.window :=
      fun r' hr' => hwithin r' (List.mem_cons_of_mem r hr')
    rw [List.foldl_cons, List.length_cons]
    by_cases hrolls : r.since - f.firstTry > cfg.window
    · have hopen : ∀ r' ∈ rs, r'.since - (f.fail cfg r).firstTry ≤ cfg.window := by
        intro r' hr'
        rw [fail_firstTry, if_pos hrolls]
        have hfrom := (hwithin r List.mem_cons_self).1
        have hto := (hrest r' hr').2
        linarith [r.created_le, r.since_le, r'.since_le, r'.rolled_le]
      rw [count_foldl_of_open hopen, fail_count, if_pos hrolls]
      omega
    · obtain ⟨r', hr', hlate⟩ := hclosed
      have hmem : r' ∈ rs := by
        obtain rfl | hmem := List.mem_cons.mp hr'
        · exact absurd hlate hrolls
        · exact hmem
      refine (ih ⟨r', hmem, ?_⟩ hrest).trans (Nat.le_succ _)
      rwa [fail_firstTry, if_neg hrolls]

/-- A failure of a client that was let in locks exactly when the count reaches the limit. -/
theorem lockedFor_failEntry_iff {prev : Option LoginFailures} {now : ℚ}
    (hunlocked : lockedOut prev now = false) (hnow : now ≤ r.created) :
    LockedFor cfg (some (failEntry cfg prev r)) r.locked ↔
      cfg.lockDuration ≤ 0 ∨ cfg.maxFailures ≤ (failEntry cfg prev r).count := by
  have huntil : (failEntry cfg prev r).lockedUntil =
      if cfg.maxFailures ≤ (failEntry cfg prev r).count then some (r.locked + cfg.lockDuration)
      else (prev.getD ⟨0, r.created, none⟩).lockedUntil := fail_lockedUntil _ r
  have hlater : now ≤ r.locked :=
    hnow.trans (r.created_le.trans (r.since_le.trans r.rolled_le))
  have hbefore : lockedOut (some (prev.getD ⟨0, r.created, none⟩)) r.locked = false := by
    cases prev with
    | none => rfl
    | some g => exact lockedOut_later hunlocked hlater
  simp only [LockedFor, lockedOut, Option.any_some, LoginFailures.lockedAt] at hbefore ⊢
  rw [huntil]
  by_cases hreached : cfg.maxFailures ≤ (failEntry cfg prev r).count
  · simp [hreached]
  · simp only [hreached, if_false, or_false]
    constructor
    · intro hlocked
      by_contra hpositive
      have hnow := hlocked r.locked le_rfl (lt_add_of_pos_right _ (not_le.mp hpositive))
      rw [hbefore] at hnow
      contradiction
    · intro hnone now hfrom hto
      linarith

/-! ## The entry over a burst -/

@[simp] theorem not_straddles_none {first last : Recording} : ¬Straddles cfg none first last := by
  rintro ⟨g, hg, -⟩
  cases hg

@[simp] theorem straddles_some_iff {g : LoginFailures} {first last : Recording} :
    Straddles cfg (some g) first last ↔
      first.since - g.firstTry ≤ cfg.window ∧ cfg.window < last.since - g.firstTry := by
  simp [Straddles]

/-- Where all of a burst lies within one window of the entry, it counts. -/
theorem maxFailures_le_count {first : Recording} {rs : List Recording}
    (henough : ((first :: rs).length : ℤ) = cfg.maxFailures) (hone : 1 ≤ f.count)
    (hopen : ∀ r ∈ rs, r.since - f.firstTry ≤ cfg.window) :
    cfg.maxFailures ≤ (rs.foldl (LoginFailures.fail cfg) f).count := by
  rw [count_foldl_of_open hopen, ← henough, List.length_cons]
  push_cast
  omega

/-- A window that starts within a burst does not end in it. -/
theorem maxFailures_le_count_of_late {first : Recording} {rs : List Recording} {t : ℚ}
    (henough : ((first :: rs).length : ℤ) = cfg.maxFailures) (hone : 1 ≤ f.count)
    (hlate : t ≤ f.firstTry) (hwithin : ∀ r ∈ rs, t ≤ r.created ∧ r.locked ≤ t + cfg.window) :
    cfg.maxFailures ≤ (rs.foldl (LoginFailures.fail cfg) f).count := by
  apply maxFailures_le_count henough hone
  intro r hr
  linarith [(hwithin r hr).2, r.since_le, r.rolled_le]

/-- The count at the end of a burst reaches the limit exactly when the window does not end in it. -/
theorem maxFailures_le_count_iff {f : Option LoginFailures} {first last : Recording}
    {rs : List Recording} {t : ℚ} (hlast : (first :: rs).getLast? = some last)
    (henough : ((first :: rs).length : ℤ) = cfg.maxFailures)
    (hwithin : ∀ r ∈ first :: rs, t ≤ r.created ∧ r.locked ≤ t + cfg.window)
    (hsorted : ∀ r ∈ rs, r.since ≤ last.since) :
    cfg.maxFailures ≤ (rs.foldl (LoginFailures.fail cfg) (failEntry cfg f first)).count ↔
      ¬Straddles cfg f first last := by
  obtain ⟨hfirst, hrest⟩ := List.forall_mem_cons.mp hwithin
  have hrolled : t ≤ first.rolled := hfirst.1.trans (first.created_le.trans first.since_le)
  have hone : 1 ≤ (failEntry cfg f first).count := by
    rw [failEntry, fail_count]
    split_ifs <;> omega
  cases f with
  | none =>
    refine iff_of_true (maxFailures_le_count_of_late henough hone ?_ hrest) not_straddles_none
    rw [failEntry, Option.getD_none, fail_firstTry]
    split_ifs
    · exact hrolled
    · exact hfirst.1
  | some g =>
    have hfirstTry : (failEntry cfg (some g) first).firstTry =
        if first.since - g.firstTry > cfg.window then first.rolled else g.firstTry :=
      fail_firstTry g first
    rw [straddles_some_iff]
    by_cases hrolls : first.since - g.firstTry > cfg.window
    · rw [if_pos hrolls] at hfirstTry
      refine iff_of_true (maxFailures_le_count_of_late henough hone ?_ hrest) ?_
      · exact hrolled.trans_eq hfirstTry.symm
      · exact fun hin => absurd hin.1 (not_le.mpr hrolls)
    · rw [if_neg hrolls] at hfirstTry
      by_cases hlate : cfg.window < last.since - g.firstTry
      · -- the last failure finds the window closed, so the count starts again within the burst
        have hmem : last ∈ rs := by
          obtain rfl | hmem := List.mem_cons.mp (List.mem_of_getLast? hlast)
          · exact absurd hlate hrolls
          · exact hmem
        have hclosed : ∃ r ∈ rs, cfg.window < r.since - (failEntry cfg (some g) first).firstTry :=
          ⟨last, hmem, hfirstTry.symm ▸ hlate⟩
        have hfew := count_foldl_of_closed hclosed hrest
        rw [List.length_cons] at henough
        exact iff_of_false (by omega) (not_not.mpr ⟨not_lt.mp hrolls, hlate⟩)
      · refine iff_of_true (maxFailures_le_count henough hone ?_) fun hin => hlate hin.2
        intro r hr
        rw [hfirstTry]
        linarith [hsorted r hr]

end

section
variable {cfg : Settings} {l : Login} {failures : Failures}

/-- What is before the last failure is so on the clock too. -/
theorem InOrder.before_last {clock now : ℚ} {last : Recording} {os : List Outcome}
    (h : InOrder clock os) (hlast : os.getLast? = some (.login now 401 last)) :
    clock ≤ last.created ∧ now ≤ last.created ∧
      (∀ tick, .tick tick ∈ os → tick ≤ last.created) ∧ ∀ r ∈ failed os, r.since ≤ last.since := by
  induction os generalizing clock with
  | nil => cases hlast
  | cons o os ih =>
    cases os with
    | nil =>
      cases hlast
      obtain ⟨hclock, hnow, -⟩ := h
      refine ⟨hclock.trans hnow, hnow, by simp, ?_⟩
      simp [failed]
    | cons o' os =>
      rw [List.getLast?_cons_cons] at hlast
      cases o with
      | login start status r =>
        obtain ⟨hclock, hstart, hrest⟩ := h
        obtain ⟨hlocked, hnow, hticks, hfailed⟩ := ih hrest hlast
        have hcreated : r.created ≤ r.locked :=
          r.created_le.trans (r.since_le.trans r.rolled_le)
        refine ⟨by linarith, hnow, ?_, ?_⟩
        · intro tick hmem
          obtain heq | hmem := List.mem_cons.mp hmem
          · cases heq
          · exact hticks tick hmem
        · intro r' hr'
          rw [failed, List.filterMap_cons] at hr'
          dsimp only at hr'
          split_ifs at hr'
          · obtain rfl | hr' := List.mem_cons.mp hr'
            · linarith [r'.since_le, r'.rolled_le, last.created_le]
            · exact hfailed r' hr'
          · exact hfailed r' hr'
      | tick start =>
        obtain ⟨hclock, hrest⟩ := h
        obtain ⟨hlocked, hnow, hticks, hfailed⟩ := ih hrest hlast
        refine ⟨hclock.trans hlocked, hnow, ?_, hfailed⟩
        intro tick hmem
        obtain heq | hmem := List.mem_cons.mp hmem
        · cases heq
          exact hlocked
        · exact hticks tick hmem

theorem Handled.append {os os' : List Outcome} (h : Handled cfg l failures (os ++ os')) :
    Handled cfg l (os.foldl (handle cfg l) failures) os' := by
  induction os generalizing failures with
  | nil => exact h
  | cons o os ih => exact ih h.2.2

/-- After a failure the entry is not older than the window. -/
theorem failEntry_firstTry {t : ℚ} {f : Option LoginFailures} {r : Recording}
    (hfrom : t ≤ r.created) (hto : r.locked ≤ t + cfg.window) :
    t - cfg.window ≤ (failEntry cfg f r).firstTry := by
  have hcreated := r.created_le
  have hsince := r.since_le
  have hrolled := r.rolled_le
  rw [failEntry, fail_firstTry]
  split_ifs with hrolls
  · linarith
  · linarith [not_lt.mp hrolls]

/-- A login that is let in is recorded. -/
theorem lookup_handle_login {now : ℚ} {status : ℕ} {r : Recording} {os : List Outcome}
    (h : Handled cfg l failures (.login now status r :: os)) :
    (handle cfg l failures (.login now status r)).lookup l.client =
      observeEntry cfg (failures.lookup l.client) status r := by
  obtain ⟨hinside, hroom, -⟩ := h
  rw [handle, if_pos hinside]
  exact lookup_observe_self fun _ _ => hroom

/-- An outcome within the window of the first failure keeps the entry, with the failure added
that the outcome may be. -/
theorem lookup_handle {t : ℚ} {g : LoginFailures} {o : Outcome} {os : List Outcome}
    (hhandled : Handled cfg l failures (o :: os)) (hg : failures.lookup l.client = some g)
    (hunsuccessful : ∀ now r, o ≠ .login now 200 r)
    (hwithin : ∀ r ∈ failed [o], t ≤ r.created ∧ r.locked ≤ t + cfg.window)
    (htick : ∀ tick, o = .tick tick → tick ≤ t + cfg.window)
    (hrecent : t - cfg.window ≤ g.firstTry) :
    (handle cfg l failures o).lookup l.client =
        some ((failed [o]).foldl (LoginFailures.fail cfg) g) ∧
      t - cfg.window ≤ ((failed [o]).foldl (LoginFailures.fail cfg) g).firstTry := by
  cases o with
  | login now status r =>
    have hentry := lookup_handle_login hhandled
    rw [hg, observeEntry] at hentry
    by_cases hfail : status = 401
    · have hfailed : failed [.login now status r] = [r] := by simp [failed, hfail]
      rw [hfailed] at hwithin ⊢
      obtain ⟨hfrom, hto⟩ := hwithin r List.mem_cons_self
      rw [if_pos hfail] at hentry
      have hkept : t - cfg.window ≤ (failEntry cfg (some g) r).firstTry :=
        failEntry_firstTry hfrom hto
      exact ⟨hentry, hkept⟩
    · have hfailed : failed [.login now status r] = [] := by simp [failed, hfail]
      have hother : status ≠ 200 := by
        rintro rfl
        exact hunsuccessful now r rfl
      rw [if_neg hfail, if_neg hother] at hentry
      rw [hfailed]
      exact ⟨hentry, hrecent⟩
  | tick now =>
    have hfresh : g.stale cfg now = false := by
      have hnow := htick now rfl
      have hyoung : ¬now - g.firstTry > 2 * cfg.window := by linarith
      simp [LoginFailures.stale, hyoung]
    have hentry : (handle cfg l failures (.tick now)).lookup l.client = some g := by
      rw [handle, lookup_cleanup, hg, Option.filter_some, hfresh]
      rfl
    exact ⟨hentry, hrecent⟩

/-- The failures that follow the first one go to its entry, which no pass of the cleanup
deletes. -/
theorem lookup_foldl_handle {t : ℚ} {g : LoginFailures} {os : List Outcome}
    (hhandled : Handled cfg l failures os) (hg : failures.lookup l.client = some g)
    (hunsuccessful : ∀ now r, Outcome.login now 200 r ∉ os)
    (hwithin : ∀ r ∈ failed os, t ≤ r.created ∧ r.locked ≤ t + cfg.window)
    (hticks : ∀ tick, .tick tick ∈ os → tick ≤ t + cfg.window)
    (hrecent : t - cfg.window ≤ g.firstTry) :
    (os.foldl (handle cfg l) failures).lookup l.client =
      some ((failed os).foldl (LoginFailures.fail cfg) g) := by
  induction os generalizing failures g with
  | nil => exact hg
  | cons o os ih =>
    have hsplit : failed (o :: os) = failed [o] ++ failed os :=
      List.filterMap_append (l := [o])
    rw [hsplit] at hwithin ⊢
    obtain ⟨hentry, hkept⟩ := lookup_handle hhandled hg
      (fun now r ho => hunsuccessful now r (ho ▸ List.mem_cons_self))
      (fun r hr => hwithin r (List.mem_append_left _ hr))
      (fun tick ho => hticks tick (ho ▸ List.mem_cons_self)) hrecent
    rw [List.foldl_cons, List.foldl_append]
    exact ih hhandled.2.2 hentry
      (fun now r hmem => hunsuccessful now r (List.mem_cons_of_mem o hmem))
      (fun r hr => hwithin r (List.mem_append_right _ hr))
      (fun tick hmem => hticks tick (List.mem_cons_of_mem o hmem)) hkept

/-- The failures of a burst are all in one entry. -/
theorem Burst.entry {os : List Outcome} {first last : Recording} (hburst : Burst cfg os first last)
    (hhandled : Handled cfg l failures os) {t : ℚ}
    (hwithin : ∀ r ∈ failed os, t ≤ r.created ∧ r.locked ≤ t + cfg.window)
    (hticks : ∀ tick, .tick tick ∈ os → tick ≤ t + cfg.window) :
    ∃ rest, failed os = first :: rest ∧ (os.foldl (handle cfg l) failures).lookup l.client =
      some (rest.foldl (LoginFailures.fail cfg)
        (failEntry cfg (failures.lookup l.client) first)) := by
  obtain ⟨start, hbegins⟩ := hburst.begins
  obtain ⟨os', rfl⟩ := List.head?_eq_some_iff.mp hbegins
  have hfailed : failed (.login start 401 first :: os') = first :: failed os' := by simp [failed]
  rw [hfailed] at hwithin
  obtain ⟨hfrom, hto⟩ := hwithin first List.mem_cons_self
  have hentry : t - cfg.window ≤ (failEntry cfg (failures.lookup l.client) first).firstTry :=
    failEntry_firstTry hfrom hto
  refine ⟨failed os', hfailed, ?_⟩
  rw [List.foldl_cons]
  exact lookup_foldl_handle hhandled.2.2 (lookup_handle_login hhandled)
    (fun now r ho => hburst.unsuccessful now r (List.mem_cons_of_mem _ ho))
    (fun r hr => hwithin r (List.mem_cons_of_mem first hr))
    (fun tick ho => hticks tick (List.mem_cons_of_mem _ ho)) hentry

/-- A burst locks its client exactly when the window that is open at its first failure is still
open at its last. -/
theorem burst_locks_iff {os : List Outcome} {first last : Recording}
    (hburst : Burst cfg os first last) (hhandled : Handled cfg l failures os) :
    LockedFor cfg ((os.foldl (handle cfg l) failures).lookup l.client) last.locked ↔
      cfg.lockDuration ≤ 0 ∨ ¬Straddles cfg (failures.lookup l.client) first last := by
  obtain ⟨clock, hordered⟩ := hburst.ordered
  obtain ⟨now, hends⟩ := hburst.ends
  obtain ⟨t, hwithin⟩ := hburst.within
  obtain ⟨-, hnow, hticks, hsorted⟩ := hordered.before_last hends
  obtain ⟨init, hinit⟩ := List.getLast?_eq_some_iff.mp hends
  have hlast : (failed os).getLast? = some last := by
    rw [hinit]
    simp [failed]
  have hcreated : last.created ≤ t + cfg.window := by
    have hend := (hwithin last (List.mem_of_getLast? hlast)).2
    linarith [last.created_le, last.since_le, last.rolled_le]
  obtain ⟨rest, hfailed, hone⟩ := hburst.entry hhandled hwithin
    fun tick ho => (hticks tick ho).trans hcreated
  rw [hfailed] at hwithin hlast hsorted
  -- The last failure of the burst is that of a client which was let in.
  have hbefore : Handled cfg l (init.foldl (handle cfg l) failures) [.login now 401 last] := by
    rw [hinit] at hhandled
    exact hhandled.append
  have hafter : (os.foldl (handle cfg l) failures).lookup l.client =
      some (failEntry cfg ((init.foldl (handle cfg l) failures).lookup l.client) last) := by
    rw [hinit, List.foldl_append]
    exact lookup_handle_login hbefore
  have hcount := congrArg LoginFailures.count (Option.some.inj (hafter.symm.trans hone))
  rw [hafter, lockedFor_failEntry_iff (letIn_inside hbefore.1) hnow, hcount,
    maxFailures_le_count_iff hlast (hfailed ▸ hburst.enough) hwithin
      fun r hr => hsorted r (List.mem_cons_of_mem first hr)]

end

/-- Wrong passwords at these times. -/
def failuresAt (times : List ℚ) : List Outcome :=
  times.map fun t => .login t 401 (recordingAt t)

theorem failed_failuresAt (times : List ℚ) :
    failed (failuresAt times) = times.map recordingAt := by
  induction times with
  | nil => rfl
  | cons t times ih => exact congrArg (recordingAt t :: ·) ih

/-- Five failures within seconds, all by themselves. -/
theorem burst_locks_fresh :
    LockedFor router (((failuresAt [1, 2, 3, 4, 5]).foldl (handle router (attempt 0)) ∅).lookup
      (attempt 0).client) 5 := by
  have hburst : Burst router (failuresAt [1, 2, 3, 4, 5]) (recordingAt 1) (recordingAt 5) := by
    refine ⟨⟨0, ?_⟩, ⟨1, rfl⟩, ⟨5, rfl⟩, rfl, by simp [failuresAt], 1, ?_⟩
    · norm_num [failuresAt, InOrder, recordingAt]
    · rw [failed_failuresAt, List.forall_mem_map]
      norm_num [recordingAt, router]
  have hhandled : Handled router (attempt 0) ∅ (failuresAt [1, 2, 3, 4, 5]) := by
    simp only [failuresAt, List.map, Handled]
    decide +kernel
  exact (burst_locks_iff hburst hhandled).mpr (.inr not_straddles_none)

/-- Five failures within a hundred seconds: the window of one that was nine minutes earlier ends
between the third and the fourth of them. -/
theorem straddling_burst_passes : ∃ (earlier burst : List Outcome) (first last : Recording),
    InOrder 0 (earlier ++ burst) ∧ Handled router (attempt 0) ∅ (earlier ++ burst) ∧
      Burst router burst first last ∧
      ¬LockedFor router (((earlier ++ burst).foldl (handle router (attempt 0)) ∅).lookup
        (attempt 0).client) last.locked := by
  refine ⟨failuresAt [0], failuresAt [540, 560, 590, 610, 640], recordingAt 540, recordingAt 640,
    ?_, ?_, ⟨⟨0, ?_⟩, ⟨540, rfl⟩, ⟨640, rfl⟩, rfl, by simp [failuresAt], 540, ?_⟩, ?_⟩
  · norm_num [failuresAt, InOrder, recordingAt]
  · simp only [failuresAt, List.map, List.cons_append, List.nil_append, Handled]
    decide +kernel
  · norm_num [failuresAt, InOrder, recordingAt]
  · rw [failed_failuresAt, List.forall_mem_map]
    norm_num [recordingAt, router]
  · intro hlocked
    have hopen : lockedOut (((failuresAt [0] ++ failuresAt [540, 560, 590, 610, 640]).foldl
        (handle router (attempt 0)) ∅).lookup (attempt 0).client) 640 = false := by
      decide +kernel
    have hnow := hlocked 640 (by norm_num [recordingAt]) (by norm_num [recordingAt, router])
    exact Bool.false_ne_true (hopen.symm.trans hnow)

end NetBerth.LockoutWindow
