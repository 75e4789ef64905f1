import NetBerth.RateLimit
import NetBerth.Transitions

/-!
# The lock against password guessing

A login goes through three steps that hold no lock in common: the middleware looks
whether the client is locked out, the login handler looks at the password, and what the
handler answered is recorded. Any number of logins may be between two of these steps, and
the cleanup may come in between.

A history beside the run counts how many failing logins have reached the password check
since the last success or lock, and whether one has reached it while its client was
locked. Both are as they should be in every run in which the logins of one client follow
each other and no failure is forgotten.
-/
namespace NetBerth.LoginLimiter
open IPAddress HTTPRequest Transitions
open RateLimit (normalizeIP Verdict)

/-! ## The limiter -/

def maxTrackedLoginFailures : ℕ := 100000

/-- In seconds. -/
structure Settings where
  maxFailures : ℤ
  lockDuration : ℚ
  window : ℚ

/-- `lockedUntil` is nothing as long as it is the zero time. -/
structure LoginFailures where
  count : ℕ
  firstTry : ℚ
  lockedUntil : Option ℚ
  deriving DecidableEq, Repr

abbrev Failures := AList fun _ : String => LoginFailures

def LoginFailures.lockedAt (f : LoginFailures) (now : ℚ) : Bool :=
  match f.lockedUntil with
  | some u => now < u
  | none => false

/-- The client has an entry that is locked. -/
def lockedOut (f : Option LoginFailures) (now : ℚ) : Bool := f.any (·.lockedAt now)

/-- The readings of the clock in `RecordFailure`, in their order. -/
structure Recording where
  created : ℚ
  since : ℚ
  rolled : ℚ
  locked : ℚ
  created_le : created ≤ since
  since_le : since ≤ rolled
  rolled_le : rolled ≤ locked

/-- One more failure of an entry, or the first one when the window has passed. -/
def LoginFailures.counted (cfg : Settings) (f : LoginFailures) (r : Recording) : LoginFailures :=
  let f := { f with count := f.count + 1 }
  if r.since - f.firstTry > cfg.window then { f with count := 1, firstTry := r.rolled } else f

def LoginFailures.fail (cfg : Settings) (f : LoginFailures) (r : Recording) : LoginFailures :=
  let f := f.counted cfg r
  if cfg.maxFailures ≤ f.count then { f with lockedUntil := some (r.locked + cfg.lockDuration) }
  else f

def recordFailure (cfg : Settings) (failures : Failures) (clientIP : String) (r : Recording) :
    Failures :=
  match failures.lookup (normalizeIP clientIP) with
  | some f => failures.insert (normalizeIP clientIP) (f.fail cfg r)
  | none =>
    if maxTrackedLoginFailures ≤ failures.keys.length then failures
    else failures.insert (normalizeIP clientIP)
      ((⟨0, r.created, none⟩ : LoginFailures).fail cfg r)

def reset (failures : Failures) (clientIP : String) : Failures :=
  failures.erase (normalizeIP clientIP)

/-- What a tick deletes. -/
def LoginFailures.stale (cfg : Settings) (f : LoginFailures) (now : ℚ) : Bool :=
  (match f.lockedUntil with
    | some u => u < now
    | none => true) && now - f.firstTry > 2 * cfg.window

def cleanup (cfg : Settings) (failures : Failures) (now : ℚ) : Failures :=
  ⟨failures.entries.filter fun e => !e.2.stale cfg now,
    failures.nodupKeys.sublist List.filter_sublist⟩

/-! ## The middleware -/

def clientIPKey (contextIP remoteAddr : String) : String :=
  if contextIP ≠ "" then contextIP else normalizeIP remoteAddr

/-- A request to the login route. Its client is an address in its usual form, which
`RecordFailure` and `Reset` normalize once more. -/
structure Login where
  id : ℕ
  path : String
  method : String
  contextIP : String
  remoteAddr : String
  normal : normalizeIP (clientIPKey contextIP remoteAddr) = clientIPKey contextIP remoteAddr
  deriving DecidableEq

def Login.client (l : Login) : String := clientIPKey l.contextIP l.remoteAddr

theorem normalizeIP_client (l : Login) : normalizeIP l.client = l.client := l.normal

theorem normalizeIP_ipString (ip : IP) : normalizeIP (ipString ip) = ipString ip := by
  rw [normalizeIP, if_neg (ClientIP.ipString_ne_empty ip), parseIP_ipString]

def Login.observed (l : Login) : Bool := l.path = "/api/v1/auth/login" ∧ l.method = "POST"

def tooManyAttempts (cfg : Settings) : Verdict :=
  .refused 429 (toString (cfg.lockDuration.num.tdiv cfg.lockDuration.den))
    "\x7b\"error\":\"too many login attempts, try again later\"\x7d"

/-- Where a login is: before the check, past the middleware unobserved, turned away,
let in to the handler, answered by it, and through. -/
inductive Phase where
  | absent
  | unobserved
  | refused (response : Verdict)
  | inside
  | answered (status : ℕ)
  | finished (status : ℕ)
  deriving DecidableEq, Repr

structure State where
  failures : Failures
  phase : Login → Phase
  clock : ℚ

inductive Event where
  | check (l : Login) (now : ℚ)
  | handle (l : Login) (status : ℕ) (now : ℚ)
  | record (l : Login) (status : ℕ) (r : Recording)
  | cleanup (now : ℚ)

def letIn (cfg : Settings) (f : Option LoginFailures) (l : Login) (now : ℚ) : Phase :=
  if !l.observed then .unobserved
  else if lockedOut f now then .refused (tooManyAttempts cfg)
  else .inside

/-- After the handler, by the status it wrote. -/
def observe (cfg : Settings) (failures : Failures) (l : Login) (status : ℕ) (r : Recording) :
    Failures :=
  if status = 401 then recordFailure cfg failures l.client r
  else if status = 200 then reset failures l.client
  else failures

/-- One login goes on. -/
def State.move (s : State) (l : Login) (p : Phase) (failures : Failures) (now : ℚ) : State :=
  ⟨failures, Function.update s.phase l p, now⟩

/-- One step; the clock never goes back. -/
def step (cfg : Settings) (s : State) : Event → Option State
  | .check l now =>
    if s.phase l = .absent ∧ s.clock ≤ now then
      some (s.move l (letIn cfg (s.failures.lookup l.client) l now) s.failures now)
    else none
  | .handle l status now =>
    if s.phase l = .inside ∧ s.clock ≤ now then
      some (s.move l (.answered status) s.failures now)
    else none
  | .record l status r =>
    if s.phase l = .answered status ∧ s.clock ≤ r.created then
      some (s.move l (.finished status) (observe cfg s.failures l status r) r.locked)
    else none
  | .cleanup now =>
    if s.clock ≤ now then some ⟨LoginLimiter.cleanup cfg s.failures now, s.phase, now⟩ else none

/-! ## What has reached the password check -/

structure History where
  failed : String → ℕ
  breached : Bool

/-- A failing login counts when the handler answers; a success and a lock start anew. -/
def History.note (h : History) (s t : State) : Event → History
  | .check _ _ => h
  | .handle l status now =>
    let n := if status = 401 then h.failed l.client + 1
      else if status = 200 then 0 else h.failed l.client
    ⟨Function.update h.failed l.client n,
      h.breached || lockedOut (s.failures.lookup l.client) now⟩
  | .record l _ _ =>
    let n := if lockedOut (t.failures.lookup l.client) t.clock then 0 else h.failed l.client
    ⟨Function.update h.failed l.client n, h.breached⟩
  | .cleanup _ => h

/-- A step with its history. -/
def watch (cfg : Settings) (x : State × History) (e : Event) : Option (State × History) :=
  (step cfg x.1 e).map fun t => (t, x.2.note x.1 t e)

def start (clock : ℚ) : State × History := (⟨∅, fun _ => .absent, clock⟩, ⟨fun _ => 0, false⟩)

/-- No more failing logins than allowed, and none while the client was locked. -/
def Lockout (cfg : Settings) (h : History) : Prop :=
  (∀ client, (h.failed client : ℤ) ≤ cfg.maxFailures) ∧ h.breached = false

/-- Between its check and its record. -/
def State.pending (s : State) (l : Login) : Prop :=
  s.phase l = .inside ∨ ∃ status, s.phase l = .answered status

/-- Who is let in finds nobody of the same client on the way; a failure that is recorded
finds room or an entry within its window; and no entry is deleted. Entries that have led
to a lock may have run out. -/
def Orderly (cfg : Settings) (x : State × History) : Event → Prop
  | .check l now => letIn cfg (x.1.failures.lookup l.client) l now = .inside →
    ∀ m, x.1.pending m → m.client ≠ l.client
  | .handle _ _ _ => True
  | .record l status r => status = 401 →
    match x.1.failures.lookup l.client with
    | some f => f.count < cfg.maxFailures → r.since - f.firstTry ≤ cfg.window
    | none => x.1.failures.keys.length < maxTrackedLoginFailures
  | .cleanup now => ∀ client f, x.1.failures.lookup client = some f → f.stale cfg now →
    cfg.maxFailures ≤ f.count

/-! ## One entry -/

/-- A client without an entry gets a new one. -/
def failEntry (cfg : Settings) (f : Option LoginFailures) (r : Recording) : LoginFailures :=
  (f.getD ⟨0, r.created, none⟩).fail cfg r

/-- What recording makes of an entry, if there is room for it. -/
def observeEntry (cfg : Settings) (f : Option LoginFailures) (status : ℕ) (r : Recording) :
    Option LoginFailures :=
  if status = 401 then some (failEntry cfg f r)
  else if status = 200 then none
  else f

section
variable {cfg : Settings} {failures : Failures} {l : Login} {status : ℕ} {r : Recording}

theorem lookup_observe_self (hroom : status = 401 → failures.lookup l.client = none →
      failures.keys.length < maxTrackedLoginFailures) :
    (observe cfg failures l status r).lookup l.client =
      observeEntry cfg (failures.lookup l.client) status r := by
  unfold observe observeEntry
  split_ifs with hfail hok
  · rw [recordFailure, normalizeIP_client]
    cases hlookup : failures.lookup l.client with
    | some f => exact AList.lookup_insert _
    | none =>
      dsimp only
      rw [if_neg (not_le.mpr (hroom hfail hlookup))]
      exact AList.lookup_insert _
  · rw [reset, normalizeIP_client]
    exact AList.lookup_erase _ _
  · rfl

theorem lookup_observe_ne {client : String} (h : client ≠ l.client) :
    (observe cfg failures l status r).lookup client = failures.lookup client := by
  unfold observe
  split_ifs
  · rw [recordFailure, normalizeIP_client]
    split
    · exact AList.lookup_insert_ne h
    · split_ifs
      · rfl
      · exact AList.lookup_insert_ne h
  · rw [reset, normalizeIP_client]
    exact AList.lookup_erase_ne h
  · rfl

theorem lookup_cleanup (cfg : Settings) (failures : Failures) (now : ℚ) (client : String) :
    (cleanup cfg failures now).lookup client =
      (failures.lookup client).filter fun f => !f.stale cfg now := by
  ext f
  rw [Option.filter_eq_some_iff, ← Option.mem_def, ← Option.mem_def, AList.mem_lookup_iff,
    AList.mem_lookup_iff, cleanup, List.mem_filter]

end

/-- The failures that an entry still holds against its client: none after a lock. -/
def owed (cfg : Settings) (f : Option LoginFailures) : ℕ :=
  match f with
  | some f => if cfg.maxFailures ≤ f.count then 0 else f.count
  | none => 0

section
variable {cfg : Settings} {f : Option LoginFailures} {r : Recording} {n : ℕ}

theorem owed_lt (hmax : 1 ≤ cfg.maxFailures) (f : Option LoginFailures) :
    (owed cfg f : ℤ) < cfg.maxFailures := by
  unfold owed
  split
  · split_ifs with hlocked
    · exact hmax
    · exact not_le.mp hlocked
  · exact hmax

theorem fail_count (f : LoginFailures) (r : Recording) :
    (f.fail cfg r).count = if r.since - f.firstTry > cfg.window then 1 else f.count + 1 := by
  have hcounted : (f.counted cfg r).count =
      if r.since - f.firstTry > cfg.window then 1 else f.count + 1 := by
    simp only [LoginFailures.counted]
    split_ifs <;> rfl
  rw [← hcounted]
  simp only [LoginFailures.fail]
  split_ifs <;> rfl

theorem fail_firstTry (f : LoginFailures) (r : Recording) : (f.fail cfg r).firstTry =
    if r.since - f.firstTry > cfg.window then r.rolled else f.firstTry := by
  have hcounted : (f.counted cfg r).firstTry =
      if r.since - f.firstTry > cfg.window then r.rolled else f.firstTry := by
    simp only [LoginFailures.counted]
    split_ifs <;> rfl
  rw [← hcounted]
  simp only [LoginFailures.fail]
  split_ifs <;> rfl

theorem fail_lockedUntil (f : LoginFailures) (r : Recording) : (f.fail cfg r).lockedUntil =
    if cfg.maxFailures ≤ (f.fail cfg r).count then some (r.locked + cfg.lockDuration)
    else f.lockedUntil := by
  have hcounted : (f.counted cfg r).lockedUntil = f.lockedUntil := by
    simp only [LoginFailures.counted]
    split_ifs <;> rfl
  rw [← hcounted]
  simp only [LoginFailures.fail]
  split_ifs <;> rfl

/-- A failure that reaches the limit locks. -/
theorem fail_locks (hlock : 0 < cfg.lockDuration) (f : LoginFailures) (r : Recording)
    (h : cfg.maxFailures ≤ (f.fail cfg r).count) :
    lockedOut (some (f.fail cfg r)) r.locked = true := by
  have huntil : (f.fail cfg r).lockedUntil = some (r.locked + cfg.lockDuration) := by
    simp only [LoginFailures.fail] at h ⊢
    split_ifs at h ⊢ with hreached
    · rfl
    · exact absurd h hreached
  rw [lockedOut, Option.any_some, LoginFailures.lockedAt, huntil]
  exact decide_eq_true (lt_add_of_pos_right _ hlock)

/-- A failure is held against its client, or locks it. -/
theorem failEntry_owed (hlock : 0 < cfg.lockDuration) (hn : n ≤ owed cfg f + 1)
    (hwindow : ∀ g ∈ f, g.count < cfg.maxFailures → r.since - g.firstTry ≤ cfg.window) :
    lockedOut (some (failEntry cfg f r)) r.locked = true ∨ n ≤ owed cfg (some (failEntry cfg f r)) := by
  by_cases hreached : cfg.maxFailures ≤ (failEntry cfg f r).count
  · exact .inl (fail_locks hlock _ r hreached)
  · refine .inr ?_
    rw [owed, if_neg hreached]
    unfold failEntry
    rw [fail_count]
    cases f with
    | none =>
      simp only [owed, Option.getD_none] at hn ⊢
      split_ifs <;> omega
    | some g =>
      simp only [owed, Option.getD_some] at hn ⊢
      by_cases hlocked : cfg.maxFailures ≤ g.count
      · rw [if_pos hlocked] at hn
        split_ifs <;> omega
      · have hin := hwindow g rfl (not_le.mp hlocked)
        rw [if_neg hlocked] at hn
        rw [if_neg (not_lt.mpr hin)]
        exact hn

end

/-! ## The lock holds -/

/-- What holds while the logins of a client follow each other. -/
structure Invariant (cfg : Settings) (s : State) (h : History) : Prop where
  single : ∀ l m, s.pending l → s.pending m → l.client = m.client → l = m
  unlocked : ∀ l, s.pending l → lockedOut (s.failures.lookup l.client) s.clock = false
  failed : ∀ c, h.failed c ≤ owed cfg (s.failures.lookup c) + 1
  settled : ∀ c, (∀ l, l.client = c → s.phase l ≠ .answered 401) →
    h.failed c ≤ owed cfg (s.failures.lookup c)
  cleared : ∀ l, s.phase l = .answered 200 → h.failed l.client = 0
  safe : h.breached = false

section
variable {cfg : Settings} {s t : State} {h : History} {l : Login} {now : ℚ}

theorem Invariant.lockout (hmax : 1 ≤ cfg.maxFailures) (hI : Invariant cfg s h) :
    Lockout cfg h := by
  refine ⟨fun c => ?_, hI.safe⟩
  have hfailed := hI.failed c
  have howed := owed_lt hmax (s.failures.lookup c)
  omega

theorem invariant_start (cfg : Settings) (clock : ℚ) :
    Invariant cfg (start clock).1 (start clock).2 where
  single l m hl _ _ := by simp [start, State.pending] at hl
  unlocked l hl := by simp [start, State.pending] at hl
  failed _ := Nat.zero_le _
  settled _ _ := Nat.zero_le _
  cleared _ _ := rfl
  safe := rfl

/-- A lock ends and does not come back by itself. -/
theorem lockedOut_later {f : Option LoginFailures} {later : ℚ} (h : lockedOut f now = false)
    (hle : now ≤ later) : lockedOut f later = false := by
  cases f with
  | none => rfl
  | some f =>
    simp only [lockedOut, Option.any_some, LoginFailures.lockedAt] at h ⊢
    split at h
    · rw [decide_eq_false_iff_not, not_lt] at h ⊢
      exact h.trans hle
    · rfl

theorem letIn_inside {f : Option LoginFailures} (h : letIn cfg f l now = .inside) :
    lockedOut f now = false := by
  unfold letIn at h
  split_ifs at h with hobserved hlocked
  exact Bool.eq_false_of_not_eq_true hlocked

theorem letIn_ne_answered (f : Option LoginFailures) (l : Login) (now : ℚ) (status : ℕ) :
    letIn cfg f l now ≠ .answered status := by
  unfold letIn
  split_ifs <;> exact nofun

theorem pending_of_answered {m : Login} {status : ℕ} (h : s.phase m = .answered status) :
    s.pending m := .inr ⟨status, h⟩

theorem phase_move (s : State) (l : Login) (p : Phase) (failures : Failures) (now : ℚ)
    (m : Login) : (s.move l p failures now).phase m = if m = l then p else s.phase m :=
  Function.update_apply ..

/-- What is owed stays owed when a login moves that has not failed, or is another client's. -/
theorem Invariant.settled_move (hI : Invariant cfg s h) {c : String} {p : Phase}
    {failures : Failures} {clock : ℚ} (hl : l.client = c → s.phase l ≠ .answered 401)
    (hc : ∀ m, m.client = c → (s.move l p failures clock).phase m ≠ .answered 401) :
    h.failed c ≤ owed cfg (s.failures.lookup c) := by
  refine hI.settled c fun m hm hans => hc m hm ?_
  have hne : m ≠ l := by
    rintro rfl
    exact hl hm hans
  rw [phase_move, if_neg hne]
  exact hans

theorem Invariant.check (hI : Invariant cfg s h) (habsent : s.phase l = .absent)
    (hclock : s.clock ≤ now) (halone : letIn cfg (s.failures.lookup l.client) l now = .inside →
      ∀ m, s.pending m → m.client ≠ l.client) :
    Invariant cfg (s.move l (letIn cfg (s.failures.lookup l.client) l now) s.failures now) h := by
  set p := letIn cfg (s.failures.lookup l.client) l now with hp
  have hnew {m : Login} (hm : (s.move l p s.failures now).pending m) :
      m = l ∧ p = .inside ∨ s.pending m := by
    simp only [State.pending, phase_move] at hm
    split_ifs at hm with heq
    · obtain hin | ⟨status, hans⟩ := hm
      · exact .inl ⟨heq, hin⟩
      · exact absurd hans (letIn_ne_answered _ l now status)
    · exact .inr hm
  constructor
  case single =>
    intro m m' hm hm' hclient
    obtain ⟨rfl, hin⟩ | hold := hnew hm <;> obtain ⟨rfl, hin'⟩ | hold' := hnew hm'
    · rfl
    · exact absurd hclient.symm (halone hin m' hold')
    · exact absurd hclient (halone hin' m hold)
    · exact hI.single m m' hold hold' hclient
  case unlocked =>
    intro m hm
    obtain ⟨rfl, hin⟩ | hold := hnew hm
    · exact letIn_inside hin
    · exact lockedOut_later (hI.unlocked m hold) hclock
  case failed => exact hI.failed
  case settled =>
    intro c hc
    have hother : s.phase l ≠ .answered 401 := by
      rw [habsent]
      exact nofun
    exact hI.settled_move (fun _ => hother) hc
  case cleared =>
    intro m hm
    rw [phase_move] at hm
    split_ifs at hm with heq
    · exact absurd hm (letIn_ne_answered _ l now 200)
    · exact hI.cleared m hm
  case safe => exact hI.safe

/-- A login that has not failed is not held against its client. -/
theorem Invariant.not_failed (hI : Invariant cfg s h) (hl : s.pending l)
    (hstatus : s.phase l ≠ .answered 401) :
    h.failed l.client ≤ owed cfg (s.failures.lookup l.client) := by
  refine hI.settled _ fun m hm hans => hstatus ?_
  rw [← hI.single m l (pending_of_answered hans) hl hm]
  exact hans

theorem Invariant.handle (hI : Invariant cfg s h) {status : ℕ} (hinside : s.phase l = .inside)
    (hclock : s.clock ≤ now) (t : State) :
    Invariant cfg (s.move l (.answered status) s.failures now)
      (h.note s t (.handle l status now)) := by
  have hl : s.pending l := .inl hinside
  have hnew {m : Login} (hm : (s.move l (.answered status) s.failures now).pending m) :
      s.pending m := by
    simp only [State.pending, phase_move] at hm
    split_ifs at hm with heq
    · exact heq ▸ hl
    · exact hm
  have hheld : h.failed l.client ≤ owed cfg (s.failures.lookup l.client) :=
    hI.not_failed hl (by rw [hinside]; exact nofun)
  have hfailed (c : String) : (h.note s t (.handle l status now)).failed c =
      if c = l.client then (if status = 401 then h.failed l.client + 1
        else if status = 200 then 0 else h.failed l.client) else h.failed c :=
    Function.update_apply ..
  constructor
  case single => exact fun m m' hm hm' => hI.single m m' (hnew hm) (hnew hm')
  case unlocked => exact fun m hm => lockedOut_later (hI.unlocked m (hnew hm)) hclock
  case failed =>
    intro c
    rw [hfailed]
    split_ifs with hc
    · rw [hc]
      exact Nat.succ_le_succ hheld
    · exact Nat.zero_le _
    · rw [hc]
      exact hheld.trans (Nat.le_succ _)
    · exact hI.failed c
  case settled =>
    intro c hc
    rw [hfailed]
    split_ifs with heq hfail
    · subst heq
      exact absurd (by rw [phase_move, if_pos rfl, hfail]) (hc l rfl)
    · exact Nat.zero_le _
    · exact heq ▸ hheld
    · exact hI.settled_move (fun hclient => absurd hclient.symm heq) hc
  case cleared =>
    intro m hm
    rw [phase_move] at hm
    rw [hfailed]
    split_ifs at hm with heq
    · cases hm
      rw [heq, if_pos rfl]
      rfl
    · have hother : m.client ≠ l.client :=
        fun hclient => heq (hI.single m l (pending_of_answered hm) hl hclient)
      rw [if_neg hother]
      exact hI.cleared m hm
  case safe =>
    simp only [History.note, hI.safe, Bool.false_or]
    exact lockedOut_later (hI.unlocked l hl) hclock

/-- What is held against a client once its login is recorded. -/
theorem Invariant.recorded (hlock : 0 < cfg.lockDuration) (hI : Invariant cfg s h) {status : ℕ}
    {r : Recording} (hans : s.phase l = .answered status)
    (hkept : status = 401 → match s.failures.lookup l.client with
      | some f => f.count < cfg.maxFailures → r.since - f.firstTry ≤ cfg.window
      | none => s.failures.keys.length < maxTrackedLoginFailures) :
    lockedOut ((observe cfg s.failures l status r).lookup l.client) r.locked = true ∨
      h.failed l.client ≤ owed cfg ((observe cfg s.failures l status r).lookup l.client) := by
  have hl : s.pending l := pending_of_answered hans
  have hroom : status = 401 → s.failures.lookup l.client = none →
      s.failures.keys.length < maxTrackedLoginFailures := by
    intro hfail hnone
    have hfree := hkept hfail
    rw [hnone] at hfree
    exact hfree
  rw [lookup_observe_self hroom, observeEntry]
  split_ifs with hfail hok
  · refine failEntry_owed hlock (hI.failed l.client) fun g hg => ?_
    have hin := hkept hfail
    rw [Option.mem_def.mp hg] at hin
    exact hin
  · subst hok
    rw [hI.cleared l hans]
    exact .inr (Nat.zero_le _)
  · refine .inr (hI.not_failed hl ?_)
    rw [hans]
    exact fun h => hfail (Phase.answered.inj h)

theorem Invariant.record (hlock : 0 < cfg.lockDuration) (hI : Invariant cfg s h) {status : ℕ}
    {r : Recording} (hans : s.phase l = .answered status) (hclock : s.clock ≤ r.created)
    (hkept : status = 401 → match s.failures.lookup l.client with
      | some f => f.count < cfg.maxFailures → r.since - f.firstTry ≤ cfg.window
      | none => s.failures.keys.length < maxTrackedLoginFailures) :
    let t := s.move l (.finished status) (observe cfg s.failures l status r) r.locked
    Invariant cfg t (h.note s t (.record l status r)) := by
  intro t
  have hl : s.pending l := pending_of_answered hans
  have hlater : s.clock ≤ r.locked :=
    hclock.trans (r.created_le.trans (r.since_le.trans r.rolled_le))
  have hnew {m : Login} (hm : t.pending m) : m ≠ l ∧ s.pending m := by
    simp only [t, State.pending, phase_move] at hm
    split_ifs at hm with heq
    · obtain hin | ⟨_, hans⟩ := hm
      · cases hin
      · cases hans
    · exact ⟨heq, hm⟩
  have hother {m : Login} (hne : m ≠ l) (hm : s.pending m) : m.client ≠ l.client :=
    fun hclient => hne (hI.single m l hm hl hclient)
  have hheld : (if lockedOut (t.failures.lookup l.client) t.clock then 0 else h.failed l.client) ≤
      owed cfg (t.failures.lookup l.client) := by
    split_ifs with hlocked
    · exact Nat.zero_le _
    · exact (hI.recorded hlock hans hkept).resolve_left hlocked
  have hfailed (c : String) : (h.note s t (.record l status r)).failed c =
      if c = l.client then (if lockedOut (t.failures.lookup l.client) t.clock then 0
        else h.failed l.client) else h.failed c := Function.update_apply ..
  have hlookup {c : String} (hc : c ≠ l.client) : t.failures.lookup c = s.failures.lookup c :=
    lookup_observe_ne hc
  constructor
  case single => exact fun m m' hm hm' => hI.single m m' (hnew hm).2 (hnew hm').2
  case unlocked =>
    intro m hm
    obtain ⟨hne, hold⟩ := hnew hm
    rw [hlookup (hother hne hold)]
    exact lockedOut_later (hI.unlocked m hold) hlater
  case failed =>
    intro c
    rw [hfailed]
    by_cases hc : c = l.client
    · rw [if_pos hc, hc]
      exact hheld.trans (Nat.le_succ _)
    · rw [if_neg hc, hlookup hc]
      exact hI.failed c
  case settled =>
    intro c hclear
    rw [hfailed]
    by_cases hc : c = l.client
    · rw [if_pos hc, hc]
      exact hheld
    · rw [if_neg hc, hlookup hc]
      exact hI.settled_move (fun hclient => absurd hclient.symm hc) hclear
  case cleared =>
    intro m hm
    obtain ⟨hne, hold⟩ := hnew (pending_of_answered hm)
    rw [hfailed, if_neg (hother hne hold)]
    rw [phase_move, if_neg hne] at hm
    exact hI.cleared m hm
  case safe => exact hI.safe

/-- An entry that is deleted holds nothing against its client. -/
theorem owed_cleanup {c : String}
    (hkept : ∀ f, s.failures.lookup c = some f → f.stale cfg now → cfg.maxFailures ≤ f.count) :
    owed cfg ((cleanup cfg s.failures now).lookup c) = owed cfg (s.failures.lookup c) := by
  rw [lookup_cleanup]
  cases hlookup : s.failures.lookup c with
  | none => rfl
  | some f =>
    rw [Option.filter_some]
    split_ifs with hstale
    · rfl
    · have hreached := hkept f hlookup (by simpa using hstale)
      simp only [owed, if_pos hreached]

theorem Invariant.cleanup (hI : Invariant cfg s h) (hclock : s.clock ≤ now)
    (hkept : ∀ c f, s.failures.lookup c = some f → f.stale cfg now → cfg.maxFailures ≤ f.count) :
    Invariant cfg ⟨LoginLimiter.cleanup cfg s.failures now, s.phase, now⟩ h := by
  have howed (c : String) := owed_cleanup (hkept c)
  constructor
  case single => exact hI.single
  case unlocked =>
    intro m hm
    have hold := lockedOut_later (hI.unlocked m hm) hclock
    dsimp only
    rw [lookup_cleanup]
    cases hlookup : s.failures.lookup m.client with
    | none => rfl
    | some f =>
      rw [hlookup] at hold
      rw [Option.filter_some]
      split_ifs
      · exact hold
      · rfl
  case failed =>
    intro c
    rw [howed]
    exact hI.failed c
  case settled =>
    intro c hc
    rw [howed]
    exact hI.settled c hc
  case cleared => exact hI.cleared
  case safe => exact hI.safe

/-- Every orderly step keeps the invariant. -/
theorem Invariant.watch (hlock : 0 < cfg.lockDuration) {x y : State × History} {e : Event}
    (hI : Invariant cfg x.1 x.2) (hok : Orderly cfg x e) (hstep : watch cfg x e = some y) :
    Invariant cfg y.1 y.2 := by
  obtain ⟨t, ht, rfl⟩ := Option.map_eq_some_iff.mp hstep
  cases e with
  | check l now =>
    obtain ⟨⟨habsent, hclock⟩, rfl⟩ := of_guard ht
    exact hI.check habsent hclock hok
  | handle l status now =>
    obtain ⟨⟨hinside, hclock⟩, rfl⟩ := of_guard ht
    exact hI.handle hinside hclock (x.1.move l (.answered status) x.1.failures now)
  | record l status r =>
    obtain ⟨⟨hans, hclock⟩, rfl⟩ := of_guard ht
    exact hI.record hlock hans hclock hok
  | cleanup now =>
    obtain ⟨hclock, rfl⟩ := of_guard ht
    exact hI.cleanup hclock hok

end

/-- In every run in which the logins of a client follow each other and no failure is
forgotten, no client has more failing logins than allowed before it is locked, and none
while it is. -/
theorem lockout_holds (cfg : Settings) (hmax : 1 ≤ cfg.maxFailures) (hlock : 0 < cfg.lockDuration)
    (clock : ℚ) {x : State × History} (h : Run (watch cfg) (Orderly cfg) (start clock) x) :
    Lockout cfg x.2 := by
  have hI := h.invariant (fun _ _ _ hI hok => Invariant.watch hlock hI hok)
    (invariant_start cfg clock)
  exact hI.lockout hmax

/-- The settings of the router. -/
def router : Settings := ⟨5, 5 * 60, 10 * 60⟩

def attempt (id : ℕ) : Login :=
  ⟨id, "/api/v1/auth/login", "POST", "", "10.0.0.1", by decide +kernel⟩

def recordingAt (now : ℚ) : Recording := ⟨now, now, now, now, le_rfl, le_rfl, le_rfl⟩

/-- Six logins are let in before any of them is answered. -/
def sixAtOnce : List Event :=
  (List.range 6).map (fun i => Event.check (attempt i) 0) ++
    (List.range 6).map fun i => Event.handle (attempt i) 401 1

/-- The last of six logins is answered after the first five have locked the client. -/
def lateLogin : List Event :=
  (List.range 6).map (fun i => Event.check (attempt i) 0) ++
    (List.range 5).flatMap (fun i =>
      [Event.handle (attempt i) 401 1, Event.record (attempt i) 401 (recordingAt 1)]) ++
    [Event.handle (attempt 5) 401 2]

theorem concurrent_logins_pass :
    (∃ x, Run (watch router) Always (start 0) x ∧ x.2.failed "10.0.0.1" = 6) ∧
      ∃ x, Run (watch router) Always (start 0) x ∧ x.2.breached = true := by
  have hsix : (sixAtOnce.foldlM (watch router) (start 0)).map (·.2.failed "10.0.0.1") = some 6 := by
    decide +kernel
  have hlate : (lateLogin.foldlM (watch router) (start 0)).map (·.2.breached) = some true := by
    decide +kernel
  obtain ⟨x, hx, hfailed⟩ := Option.map_eq_some_iff.mp hsix
  obtain ⟨y, hy, hbreached⟩ := Option.map_eq_some_iff.mp hlate
  exact ⟨⟨x, .of_foldlM hx, hfailed⟩, y, .of_foldlM hy, hbreached⟩

/-- Another client's login. -/
def bystander : Login :=
  ⟨6, "/api/v1/auth/login", "POST", "", "10.0.0.2", by decide +kernel⟩

/-- All who log in below. -/
def callers : List Login := bystander :: (List.range 6).map attempt

/-- Five failing logins one after the other, and a sixth; the bystander's login begins before them
and ends after them. -/
def oneByOne : List Event :=
  [.check bystander 0] ++
    (List.range 5).flatMap (fun i => [Event.check (attempt i) i, .handle (attempt i) 401 i,
      .record (attempt i) 401 (recordingAt i)]) ++
    [.handle bystander 401 5, .check (attempt 5) 5, .record bystander 401 (recordingAt 5)]

def Phase.busy : Phase → Bool
  | .inside => true
  | .answered _ => true
  | _ => false

theorem busy_of_pending {s : State} {l : Login} (h : s.pending l) : (s.phase l).busy = true := by
  rcases h with h | ⟨status, h⟩ <;> rw [h] <;> rfl

/-- `Orderly` as far as it is about those who log in. -/
def orderlyAmong (x : State × History) : Event → Bool
  | .check l now => l ∈ callers ∧ (letIn router (x.1.failures.lookup l.client) l now = .inside →
      ∀ m ∈ callers, (x.1.phase m).busy = true → m.client ≠ l.client)
  | .handle _ _ _ => true
  | .record l _ r =>
    match x.1.failures.lookup l.client with
    | some f => r.since - f.firstTry ≤ router.window
    | none => x.1.failures.keys.length < maxTrackedLoginFailures
  | .cleanup _ => false

/-- Nobody else has logged in, and all was orderly. -/
structure Known (x : State × History) : Prop where
  run : Run (watch router) (Orderly router) (start 0) x
  callers : ∀ m, x.1.phase m ≠ .absent → m ∈ callers

theorem known_move {x : State × History} (h : Known x) {l : Login} (hl : l ∈ callers) {p : Phase}
    {failures : Failures} {now : ℚ} :
    ∀ m, (x.1.move l p failures now).phase m ≠ .absent → m ∈ callers := by
  intro m hm
  by_cases hml : m = l
  · rw [hml]
    exact hl
  · refine h.callers m ?_
    have hsame : (x.1.move l p failures now).phase m = x.1.phase m := Function.update_of_ne hml _ _
    rwa [hsame] at hm

theorem Known.step {x y : State × History} {e : Event} (h : Known x) (he : orderlyAmong x e = true)
    (hstep : watch router x e = some y) : Known y := by
  obtain ⟨t, ht, rfl⟩ := Option.map_eq_some_iff.mp hstep
  cases e with
  | check l now =>
    obtain ⟨hl, halone⟩ := of_decide_eq_true he
    obtain ⟨-, rfl⟩ := of_guard ht
    have horderly : Orderly router x (.check l now) := by
      intro hin m hm
      have hbusy := busy_of_pending hm
      refine halone hin m (h.callers m fun habsent => ?_) hbusy
      rw [habsent] at hbusy
      cases hbusy
    exact ⟨h.run.tail ⟨_, horderly, hstep⟩, known_move h hl⟩
  | handle l status now =>
    obtain ⟨⟨hinside, -⟩, rfl⟩ := of_guard ht
    have horderly : Orderly router x (.handle l status now) := trivial
    exact ⟨h.run.tail ⟨_, horderly, hstep⟩, known_move h (h.callers l (by simp [hinside]))⟩
  | record l status r =>
    obtain ⟨⟨hanswered, -⟩, rfl⟩ := of_guard ht
    have horderly : Orderly router x (.record l status r) := by
      intro _
      simp only [orderlyAmong] at he
      split at he
      · exact fun _ => of_decide_eq_true he
      · exact of_decide_eq_true he
    exact ⟨h.run.tail ⟨_, horderly, hstep⟩, known_move h (h.callers l (by simp [hanswered]))⟩
  | cleanup now => cases he

/-- After five failures the client is locked out and its next login refused, while the other
client's is only counted. -/
theorem five_failures_lock : ∃ x : State × History, Lockout router x.2 ∧
    x.1.phase (attempt 5) = .refused (tooManyAttempts router) ∧ x.2.failed "10.0.0.1" = 0 ∧
      x.2.failed "10.0.0.2" = 1 := by
  have hrun : (oneByOne.foldlM (fun x e =>
      if orderlyAmong x e then watch router x e else none) (start 0)).map (fun x =>
        (x.1.phase (attempt 5), x.2.failed "10.0.0.1", x.2.failed "10.0.0.2")) =
      some (.refused (tooManyAttempts router), 0, 1) := by
    decide +kernel
  obtain ⟨x, hx, hend⟩ := Option.map_eq_some_iff.mp hrun
  have hknown : Known x :=
    (Run.of_foldlM_guarded hx).invariant (fun _ _ _ h he hstep => h.step he hstep)
      ⟨.refl, fun m hm => absurd rfl hm⟩
  obtain ⟨hrefused, hends⟩ := Prod.mk.inj hend
  obtain ⟨hlocked, hother⟩ := Prod.mk.inj hends
  exact ⟨x, lockout_holds router (by decide) (by norm_num [router]) 0 hknown.run, hrefused, hlocked,
    hother⟩

end NetBerth.LoginLimiter
