import NetBerth.LoginLimiter

/-!
# The cleanup of the login limiter

Every few minutes the limiter deletes the entries that are not locked and whose first failure
is further back than twice the window. A failure that finds its entry deleted makes a new one,
and a failure that finds the entry starts it again, as its window has passed: what is decided
after that is the same.

It is the same as long as twice the window is a duration, and as long as the clock reads the
same where a new entry is made as where an old one is started again.
-/
namespace NetBerth.LockoutCleanup
open LoginLimiter
open RateLimit (normalizeIP)

/-- A duration is in nanoseconds. -/
def seconds (d : Int64) : ℚ := d.toInt / 10 ^ 9

structure BruteForceLimiter where
  maxFailures : ℤ
  lockDuration : Int64
  window : Int64

namespace BruteForceLimiter

def settings (b : BruteForceLimiter) : Settings :=
  ⟨b.maxFailures, seconds b.lockDuration, seconds b.window⟩

/-- What a tick deletes; twice the window is taken on durations. -/
def stale (b : BruteForceLimiter) (f : LoginFailures) (now : ℚ) : Bool :=
  (match f.lockedUntil with
    | some u => u < now
    | none => true) && now - f.firstTry > seconds (2 * b.window)

def cleanup (b : BruteForceLimiter) (failures : Failures) (now : ℚ) : Failures :=
  ⟨failures.entries.filter fun e => !b.stale e.2 now,
    failures.nodupKeys.sublist List.filter_sublist⟩

end BruteForceLimiter

/-- What the limiter is asked for, and a pass of its cleanup. -/
inductive Action where
  | check (l : Login) (now : ℚ)
  | recordFailure (clientIP : String) (r : Recording)
  | reset (clientIP : String)
  | tick (now : ℚ)

/-- One action after the other, on a clock that does not go back. -/
def InOrder : ℚ → List Action → Prop
  | _, [] => True
  | clock, .check _ now :: as => clock ≤ now ∧ InOrder now as
  | clock, .recordFailure _ r :: as => clock ≤ r.created ∧ InOrder r.locked as
  | clock, .reset _ :: as => InOrder clock as
  | clock, .tick now :: as => clock ≤ now ∧ InOrder now as

section
variable (b : BruteForceLimiter)

/-- With the cleanup or without it. -/
def perform (cleans : Bool) (failures : Failures) : Action → Failures
  | .check _ _ => failures
  | .recordFailure clientIP r => recordFailure b.settings failures clientIP r
  | .reset clientIP => reset failures clientIP
  | .tick now => if cleans then b.cleanup failures now else failures

/-- What becomes of the logins that are checked. -/
def decisions (cleans : Bool) : Failures → List Action → List Phase
  | _, [] => []
  | failures, .check l now :: as =>
    letIn b.settings (failures.lookup l.client) l now :: decisions cleans failures as
  | failures, a :: as => decisions cleans (perform b cleans failures a) as

/-- The table is below its cap, without the cleanup. -/
def BelowCap : Failures → List Action → Prop
  | _, [] => True
  | failures, a :: as =>
    failures.keys.length < maxTrackedLoginFailures ∧ BelowCap (perform b false failures a) as

/-- Where a failure makes an entry that has been deleted, the clock reads the same as where one
without the cleanup starts it again. -/
def Prompt : Failures → Failures → List Action → Prop
  | _, _, [] => True
  | cleaned, whole, a :: as =>
    (∀ (clientIP : String) (r : Recording), a = .recordFailure clientIP r →
      cleaned.lookup (normalizeIP clientIP) = none →
      whole.lookup (normalizeIP clientIP) ≠ none → r.rolled = r.created) ∧
    Prompt (perform b true cleaned a) (perform b false whole a) as

end

/-! ## The table -/

section
variable {b : BruteForceLimiter} {cfg : Settings} {failures : Failures}

theorem lookup_cleanup (b : BruteForceLimiter) (failures : Failures) (now : ℚ) (client : String) :
    (b.cleanup failures now).lookup client =
      (failures.lookup client).filter fun f => !b.stale f now := by
  ext f
  rw [Option.filter_eq_some_iff, ← Option.mem_def, ← Option.mem_def, AList.mem_lookup_iff,
    AList.mem_lookup_iff, BruteForceLimiter.cleanup, List.mem_filter]

theorem recordFailure_eq (hroom : failures.keys.length < maxTrackedLoginFailures)
    (clientIP : String) (r : Recording) : recordFailure cfg failures clientIP r =
      failures.insert (normalizeIP clientIP)
        (failEntry cfg (failures.lookup (normalizeIP clientIP)) r) := by
  unfold recordFailure
  cases failures.lookup (normalizeIP clientIP) with
  | some f => rfl
  | none => exact if_neg (not_le.mpr hroom)

theorem seconds_twice {d : Int64} (hfrom : -2 ^ 62 ≤ d.toInt) (hto : d.toInt < 2 ^ 62) :
    seconds (2 * d) = 2 * seconds d := by
  have htwice : (2 * d).toInt = 2 * d.toInt := by
    rw [Int64.toInt_mul]
    have htwo : (2 : Int64).toInt = 2 := rfl
    rw [htwo, Int.bmod_eq_of_le] <;> omega
  simp only [seconds, htwice]
  push_cast
  ring

/-- As long as twice the window is a duration, this is the cleanup of whole numbers. -/
theorem cleanup_eq (hfrom : -2 ^ 62 ≤ b.window.toInt) (hto : b.window.toInt < 2 ^ 62)
    (failures : Failures) (now : ℚ) :
    b.cleanup failures now = LoginLimiter.cleanup b.settings failures now := by
  have hstale (f : LoginFailures) : b.stale f now = f.stale b.settings now := by
    simp only [BruteForceLimiter.stale, LoginFailures.stale, BruteForceLimiter.settings,
      seconds_twice hfrom hto]
    cases f.lockedUntil <;> rfl
  simp only [BruteForceLimiter.cleanup, LoginLimiter.cleanup, hstale]

/-- What is deleted is not locked any more. -/
theorem unlocked_of_stale {f : LoginFailures} {now : ℚ} (h : b.stale f now = true) :
    lockedOut (some f) now = false := by
  rw [BruteForceLimiter.stale, Bool.and_eq_true] at h
  obtain ⟨hlock, -⟩ := h
  simp only [lockedOut, Option.any_some, LoginFailures.lockedAt]
  cases huntil : f.lockedUntil with
  | none => rfl
  | some u =>
    rw [huntil] at hlock
    exact decide_eq_false (not_lt.mpr (le_of_lt (of_decide_eq_true hlock)))

/-- The window of what is deleted has passed. -/
theorem passed_of_stale (hto : b.window.toInt < 2 ^ 62) {f : LoginFailures} {now : ℚ}
    (hpast : f.firstTry ≤ now) (h : b.stale f now = true) :
    b.settings.window < now - f.firstTry := by
  rw [BruteForceLimiter.stale, Bool.and_eq_true, decide_eq_true_iff] at h
  obtain ⟨-, hold⟩ := h
  change seconds b.window < now - f.firstTry
  by_cases hsign : 0 ≤ b.window.toInt
  · have hwindow : 0 ≤ seconds b.window := by
      unfold seconds
      positivity
    rw [seconds_twice (by omega) hto] at hold
    linarith
  · have hwindow : seconds b.window < 0 := by
      have hneg : (b.window.toInt : ℚ) < 0 := by exact_mod_cast not_le.mp hsign
      exact div_neg_of_neg_of_pos hneg (by norm_num)
    linarith

end

/-! ## One client -/

/-- How the entry of a client compares with what it is without the cleanup. -/
inductive Covered (cfg : Settings) (clock : ℚ) :
    Option LoginFailures → Option LoginFailures → Prop
  | absent : Covered cfg clock none none
  | deleted {g : LoginFailures} (unlocked : lockedOut (some g) clock = false)
      (passed : cfg.window < clock - g.firstTry) : Covered cfg clock none (some g)
  | kept {f g : LoginFailures} (count : f.count = g.count) (firstTry : f.firstTry = g.firstTry)
      (past : f.firstTry ≤ clock)
      (locked : ∀ now, clock ≤ now → lockedOut (some f) now = lockedOut (some g) now) :
      Covered cfg clock (some f) (some g)

namespace Covered

variable {b : BruteForceLimiter} {cfg : Settings} {clock now : ℚ} {f g : Option LoginFailures}

theorem later (h : Covered cfg clock f g) (hle : clock ≤ now) : Covered cfg now f g := by
  cases h with
  | absent => exact .absent
  | deleted unlocked passed => exact .deleted (lockedOut_later unlocked hle) (by linarith)
  | kept count firstTry past locked =>
    exact .kept count firstTry (past.trans hle) fun t ht => locked t (hle.trans ht)

theorem lockedOut_eq (h : Covered cfg clock f g) (hle : clock ≤ now) :
    lockedOut f now = lockedOut g now := by
  cases h with
  | absent => rfl
  | deleted unlocked passed => exact (lockedOut_later unlocked hle).symm
  | kept count firstTry past locked => exact locked now hle

theorem isSome_of (h : Covered cfg clock f g) (hf : f.isSome) : g.isSome := by
  cases h with
  | absent => exact hf
  | deleted unlocked passed => rfl
  | kept count firstTry past locked => rfl

/-- A pass of the cleanup. -/
theorem cleaned (hto : b.window.toInt < 2 ^ 62) (h : Covered b.settings clock f g) :
    Covered b.settings clock (f.filter fun e => !b.stale e clock) g := by
  cases h with
  | absent => exact .absent
  | deleted unlocked passed => exact .deleted unlocked passed
  | @kept f g count firstTry past locked =>
    rw [Option.filter_some]
    split_ifs with hstale
    · exact .kept count firstTry past locked
    · have hdeleted : b.stale f clock = true := by simpa using hstale
      refine .deleted ?_ (firstTry ▸ passed_of_stale hto past hdeleted)
      rw [← locked clock le_rfl]
      exact unlocked_of_stale hdeleted

/-- Failures of entries with the same count and the same first one. -/
theorem fail {e e' : LoginFailures} {r : Recording} (hcount : (e.fail cfg r).count = (e'.fail cfg r).count)
    (hfirst : (e.fail cfg r).firstTry = (e'.fail cfg r).firstTry)
    (hpast : e.firstTry ≤ r.rolled)
    (hlocked : ∀ now, r.locked ≤ now → lockedOut (some e) now = lockedOut (some e') now) :
    Covered cfg r.locked (some (e.fail cfg r)) (some (e'.fail cfg r)) := by
  refine .kept hcount hfirst ?_ ?_
  · rw [fail_firstTry]
    split_ifs
    · exact r.rolled_le
    · exact hpast.trans r.rolled_le
  · intro now hnow
    have hbefore := hlocked now hnow
    simp only [lockedOut, Option.any_some, LoginFailures.lockedAt] at hbefore ⊢
    rw [fail_lockedUntil, fail_lockedUntil, hcount]
    split_ifs
    · rfl
    · exact hbefore

/-- A failure makes of a deleted entry what it makes of one whose window has passed. -/
theorem failEntry {r : Recording} (h : Covered cfg r.created f g)
    (hprompt : f = none → g ≠ none → r.rolled = r.created) :
    Covered cfg r.locked (some (failEntry cfg f r)) (some (LoginLimiter.failEntry cfg g r)) := by
  have hrolled : r.created ≤ r.rolled := r.created_le.trans r.since_le
  have hlocked : r.created ≤ r.locked := hrolled.trans r.rolled_le
  cases h with
  | absent => exact .fail rfl rfl hrolled fun _ _ => rfl
  | @deleted g unlocked passed =>
    have hsame := hprompt rfl (Option.some_ne_none g)
    have hrolls : r.since - g.firstTry > cfg.window := by linarith [r.created_le]
    refine .fail ?_ ?_ hrolled fun now hnow =>
      (lockedOut_later unlocked (hlocked.trans hnow)).symm
    · rw [Option.getD_none, Option.getD_some, fail_count, fail_count, if_pos hrolls]
      split_ifs <;> rfl
    · rw [Option.getD_none, Option.getD_some, fail_firstTry, fail_firstTry, if_pos hrolls]
      split_ifs
      · rfl
      · exact hsame.symm
  | @kept f g count firstTry past locked =>
    refine .fail ?_ ?_ (past.trans hrolled) fun now hnow => locked now (hlocked.trans hnow)
    · rw [Option.getD_some, Option.getD_some, fail_count, fail_count, count, firstTry]
    · rw [Option.getD_some, Option.getD_some, fail_firstTry, fail_firstTry, firstTry]

end Covered

/-! ## The runs -/

/-- The table with the cleanup and the one without it. -/
structure Alike (cfg : Settings) (clock : ℚ) (cleaned whole : Failures) : Prop where
  covered : ∀ client, Covered cfg clock (cleaned.lookup client) (whole.lookup client)

namespace Alike

variable {b : BruteForceLimiter} {cfg : Settings} {clock now : ℚ} {cleaned whole : Failures}

theorem later (h : Alike cfg clock cleaned whole) (hle : clock ≤ now) :
    Alike cfg now cleaned whole :=
  ⟨fun client => (h.covered client).later hle⟩

/-- No client has an entry only because of the cleanup. -/
theorem length_le (h : Alike cfg clock cleaned whole) :
    cleaned.keys.length ≤ whole.keys.length := by
  have hsub : cleaned.keys ⊆ whole.keys := by
    intro client hmem
    have hsome := (h.covered client).isSome_of (AList.lookup_isSome.mpr hmem)
    exact AList.lookup_isSome.mp hsome
  exact (cleaned.keys_nodup.subperm hsub).length_le

theorem recordFailure {clientIP : String} {r : Recording} (h : Alike cfg r.created cleaned whole)
    (hroom : whole.keys.length < maxTrackedLoginFailures)
    (hprompt : cleaned.lookup (normalizeIP clientIP) = none →
      whole.lookup (normalizeIP clientIP) ≠ none → r.rolled = r.created) :
    Alike cfg r.locked (recordFailure cfg cleaned clientIP r)
      (LoginLimiter.recordFailure cfg whole clientIP r) := by
  have hlater : r.created ≤ r.locked := r.created_le.trans (r.since_le.trans r.rolled_le)
  rw [recordFailure_eq (h.length_le.trans_lt hroom), recordFailure_eq hroom]
  constructor
  intro client
  by_cases hclient : client = normalizeIP clientIP
  · rw [hclient, AList.lookup_insert, AList.lookup_insert]
    exact (h.covered _).failEntry hprompt
  · rw [AList.lookup_insert_ne hclient, AList.lookup_insert_ne hclient]
    exact (h.covered client).later hlater

theorem reset (h : Alike cfg clock cleaned whole) (clientIP : String) :
    Alike cfg clock (reset cleaned clientIP) (LoginLimiter.reset whole clientIP) := by
  constructor
  intro client
  unfold LoginLimiter.reset
  by_cases hclient : client = normalizeIP clientIP
  · rw [hclient, AList.lookup_erase, AList.lookup_erase]
    exact .absent
  · rw [AList.lookup_erase_ne hclient, AList.lookup_erase_ne hclient]
    exact h.covered client

theorem cleanup (hto : b.window.toInt < 2 ^ 62) (h : Alike b.settings clock cleaned whole) :
    Alike b.settings clock (b.cleanup cleaned clock) whole := by
  constructor
  intro client
  rw [lookup_cleanup]
  exact (h.covered client).cleaned hto

/-- What is decided is the same from alike tables. -/
theorem decisions_eq (hto : b.window.toInt < 2 ^ 62) {as : List Action}
    (h : Alike b.settings clock cleaned whole) (horder : InOrder clock as)
    (hroom : BelowCap b whole as) (hprompt : Prompt b cleaned whole as) :
    decisions b true cleaned as = decisions b false whole as := by
  induction as generalizing clock cleaned whole with
  | nil => rfl
  | cons a as ih =>
    obtain ⟨hfree, hroom⟩ := hroom
    obtain ⟨hnow, hprompt⟩ := hprompt
    cases a with
    | check l now =>
      obtain ⟨hle, horder⟩ := horder
      have hsame := ih (h.later hle) horder hroom hprompt
      simp only [decisions, letIn, (h.covered l.client).lockedOut_eq hle, hsame]
    | recordFailure clientIP r =>
      obtain ⟨hle, horder⟩ := horder
      exact ih ((h.later hle).recordFailure hfree (hnow clientIP r rfl)) horder hroom hprompt
    | reset clientIP => exact ih (h.reset clientIP) horder hroom hprompt
    | tick now =>
      obtain ⟨hle, horder⟩ := horder
      exact ih ((h.later hle).cleanup hto) horder hroom hprompt

end Alike

/-- A table is alike to itself. -/
theorem alike_self {cfg : Settings} {clock : ℚ} {failures : Failures}
    (hpast : ∀ client, ∀ f ∈ failures.lookup client, f.firstTry ≤ clock) :
    Alike cfg clock failures failures := by
  constructor
  intro client
  cases hlookup : failures.lookup client with
  | none => exact .absent
  | some f => exact .kept rfl rfl (hpast client f hlookup) fun _ _ => rfl

theorem prompt_of_single {b : BruteForceLimiter} {as : List Action}
    (h : ∀ (clientIP : String) (r : Recording), .recordFailure clientIP r ∈ as →
      r.rolled = r.created) (cleaned whole : Failures) : Prompt b cleaned whole as := by
  induction as generalizing cleaned whole with
  | nil => trivial
  | cons a as ih =>
    constructor
    · rintro clientIP r rfl _ _
      exact h clientIP r List.mem_cons_self
    · exact ih (fun clientIP r hr => h clientIP r (List.mem_cons_of_mem a hr)) _ _

/-- What is locked stays so. -/
theorem lockedOut_cleanup (b : BruteForceLimiter) (failures : Failures) (client : String)
    {now later : ℚ} (hle : now ≤ later) :
    lockedOut ((b.cleanup failures now).lookup client) later =
      lockedOut (failures.lookup client) later := by
  rw [lookup_cleanup]
  cases failures.lookup client with
  | none => rfl
  | some f =>
    rw [Option.filter_some]
    split_ifs with hstale
    · rfl
    · have hdeleted : b.stale f now = true := by simpa using hstale
      exact (lockedOut_later (unlocked_of_stale hdeleted) hle).symm

/-- The cleanup changes no decision, and unlocks no client. -/
theorem cleanup_invisible (b : BruteForceLimiter) (hto : b.window.toInt < 2 ^ 62)
    {clock : ℚ} {failures : Failures} {as : List Action}
    (hpast : ∀ client, ∀ f ∈ failures.lookup client, f.firstTry ≤ clock)
    (horder : InOrder clock as) (hroom : BelowCap b failures as)
    (hprompt : Prompt b failures failures as) :
    decisions b true failures as = decisions b false failures as ∧
      ∀ (table : Failures) (client : String) (now later : ℚ), now ≤ later →
        lockedOut ((b.cleanup table now).lookup client) later =
          lockedOut (table.lookup client) later :=
  ⟨(alike_self hpast).decisions_eq hto horder hroom hprompt,
    fun table client _ _ hle => lockedOut_cleanup b table client hle⟩

/-! ## What it takes -/

def wrongPassword (now : ℚ) : Action := .recordFailure "10.0.0.1" (recordingAt now)

def routerLimiter : BruteForceLimiter := ⟨5, 300000000000, 600000000000⟩

/-- A failure is deleted; four more and a login follow. -/
def forgotten : List Action :=
  [wrongPassword 0, .tick 1201] ++ [1202, 1203, 1204, 1205].map wrongPassword ++
    [.check (attempt 0) 1206]

theorem forgotten_invisible :
    decisions routerLimiter true ∅ forgotten = decisions routerLimiter false ∅ forgotten := by
  have horder : InOrder 0 forgotten := by
    norm_num [forgotten, wrongPassword, recordingAt, InOrder]
  have hroom : BelowCap routerLimiter ∅ forgotten := by
    simp only [forgotten, wrongPassword, List.map, List.cons_append, List.nil_append, BelowCap]
    decide +kernel
  have hprompt : Prompt routerLimiter ∅ ∅ forgotten := by
    apply prompt_of_single
    intro clientIP r hmem
    simp only [forgotten, wrongPassword, List.map, List.cons_append, List.nil_append,
      List.mem_cons, List.not_mem_nil, Action.recordFailure.injEq, reduceCtorEq, or_false,
      false_or] at hmem
    obtain ⟨-, rfl⟩ | ⟨-, rfl⟩ | ⟨-, rfl⟩ | ⟨-, rfl⟩ | ⟨-, rfl⟩ := hmem <;> rfl
  exact (cleanup_invisible routerLimiter (by decide +kernel) (by simp) horder hroom hprompt).1

/-- The clock goes on by two nanoseconds while the second failure is recorded: without the
cleanup its window ends later. -/
def slowRecording : Recording :=
  ⟨1202, 1202, 1202 + 2 / 10 ^ 9, 1202 + 2 / 10 ^ 9, le_rfl, by norm_num, le_rfl⟩

def onTheEdge : List Action :=
  [wrongPassword 0, .tick 1201, .recordFailure "10.0.0.1" slowRecording] ++
    [1203, 1204, 1205, 1802 + 1 / 10 ^ 9].map wrongPassword ++ [.check (attempt 0) 1803]

/-- Twice this window is a negative duration. -/
def longWindow : BruteForceLimiter := ⟨2, 300000000000, 4611686018427387904⟩

def withinSeconds : List Action :=
  [wrongPassword 0, .tick 1, wrongPassword 2, .check (attempt 0) 3]

theorem forgotten_visible :
    (InOrder 0 onTheEdge ∧ BelowCap routerLimiter ∅ onTheEdge ∧
      decisions routerLimiter true ∅ onTheEdge ≠ decisions routerLimiter false ∅ onTheEdge) ∧
    InOrder 0 withinSeconds ∧ BelowCap longWindow ∅ withinSeconds ∧
      decisions longWindow true ∅ withinSeconds ≠ decisions longWindow false ∅ withinSeconds := by
  refine ⟨⟨?_, ?_, by decide +kernel⟩, ?_, ?_, by decide +kernel⟩
  · norm_num [onTheEdge, wrongPassword, slowRecording, recordingAt, InOrder]
  · simp only [onTheEdge, wrongPassword, List.map, List.cons_append, List.nil_append, BelowCap]
    decide +kernel
  · norm_num [withinSeconds, wrongPassword, recordingAt, InOrder]
  · simp only [withinSeconds, wrongPassword, BelowCap]
    decide +kernel

end NetBerth.LockoutCleanup
