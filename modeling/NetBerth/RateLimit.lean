import NetBerth.ClientIP
import NetBerth.TokenBucket

/-!
# Rate limits

Each client has a bucket in a table of bounded size; a client for whom there is no
room is let through. One request holds the lock from the lookup to the decision and
reads the clock for a new bucket, for the elapsed time, and once more for the last
check. Buckets that were not looked at for a while are deleted.

The numbers are exact and the clock never goes back.
-/
namespace NetBerth.RateLimit
open IPAddress HTTPRequest TokenBucket

def maxTrackedRateLimitVisitors : ℕ := 100000

/-- In seconds. -/
def cleanupInterval : ℚ := 5 * 60

abbrev Visitor := Bucket ℚ

structure RateLimiter where
  visitors : AList fun _ : String => Visitor
  rate : ℕ
  burst : ℕ

def RateLimiter.put (rl : RateLimiter) (key : String) (visitor : Visitor) : RateLimiter :=
  { rl with visitors := rl.visitors.insert key visitor }

def newRateLimiter (rate burst : ℕ) : RateLimiter := ⟨∅, rate, burst⟩

/-! ## Who is counted -/

def normalizeIP (s : String) : String :=
  if s = "" then "unknown"
  else match parseIP s with
    | some ip => ipString ip
    | none =>
      match splitHostPort s with
      | none => s
      | some (host, _) =>
        match parseIP host with
        | some ip => ipString ip
        | none => host

/-- A request with the address an earlier middleware left in its context, the readings of
the clock, and the instant of the decision. -/
structure Visit where
  request : Request
  contextIP : String
  created : ℚ
  checked : ℚ
  instant : ℚ
  updated : ℚ
  created_le : created ≤ checked
  checked_le : checked ≤ instant
  instant_le : instant ≤ updated

def Visit.key (v : Visit) : String :=
  if v.contextIP ≠ "" then v.contextIP else normalizeIP v.request.remoteAddr

/-! ## One request -/

inductive Verdict where
  | passedOn
  | refused (status : ℕ) (retryAfter body : String)
  deriving DecidableEq, Repr

def tooManyRequests : Verdict := .refused 429 "60" "\x7b\"error\":\"rate limit exceeded\"\x7d"

/-- The part after the lookup, for a bucket of the table. -/
def spend (rl : RateLimiter) (v : Visit) (visitor : Visitor) : Verdict × RateLimiter :=
  let elapsed := v.checked - visitor.last
  let tokens := visitor.tokens + elapsed * (rl.rate : ℚ)
  let tokens := if rl.burst < tokens then (rl.burst : ℚ) else tokens
  if tokens < 1 then (tooManyRequests, rl.put v.key ⟨tokens, v.updated⟩)
  else (.passedOn, rl.put v.key ⟨tokens - 1, v.updated⟩)

def middleware (rl : RateLimiter) (v : Visit) : Verdict × RateLimiter :=
  match rl.visitors.lookup v.key with
  | none =>
    if maxTrackedRateLimitVisitors ≤ rl.visitors.keys.length then (.passedOn, rl)
    else spend rl v ⟨rl.burst, v.created⟩
  | some visitor => spend rl v visitor

/-- One tick; the clock is read for every bucket. -/
def cleanup (rl : RateLimiter) (now : String → ℚ) : RateLimiter :=
  { rl with visitors := ⟨rl.visitors.entries.filter fun e =>
      ¬(now e.1 - e.2.last > cleanupInterval), rl.visitors.nodupKeys.sublist List.filter_sublist⟩ }

/-! ## Runs -/

inductive Event where
  | request (v : Visit)
  | cleanup (now : String → ℚ)

/-- The limiter after some events, and what became of the requests. -/
def run (rl : RateLimiter) : List Event → RateLimiter × List (Visit × Verdict)
  | [] => (rl, [])
  | .request v :: es =>
    let (verdict, rl) := middleware rl v
    let (rl, log) := run rl es
    (rl, (v, verdict) :: log)
  | .cleanup now :: es => run (cleanup rl now) es

/-- Each request reads the clock after the one before it. -/
def Ordered (since : ℚ) : List Event → Prop
  | [] => True
  | .request v :: es => since ≤ v.created ∧ Ordered v.updated es
  | .cleanup _ :: es => Ordered since es

/-- There is room for the key whenever it comes, and its bucket is never deleted. -/
def Tracked (key : String) (rl : RateLimiter) : List Event → Prop
  | [] => True
  | .request v :: es =>
    (v.key = key → rl.visitors.lookup key = none →
      rl.visitors.keys.length < maxTrackedRateLimitVisitors) ∧
      Tracked key (middleware rl v).2 es
  | .cleanup now :: es =>
    (∀ visitor, rl.visitors.lookup key = some visitor →
      now key - visitor.last ≤ cleanupInterval) ∧ Tracked key (cleanup rl now) es

/-- The requests of a key that were passed on in a window. -/
def passedOn (key : String) (start stop : ℚ) (log : List (Visit × Verdict)) :
    List (Visit × Verdict) :=
  log.filter fun e => e.1.key = key ∧ e.2 = .passedOn ∧ start ≤ e.1.instant ∧ e.1.instant ≤ stop

/-! ## The account of one key -/

section
variable {rl : RateLimiter} {v : Visit} {key : String} {start stop since : ℚ} {n : ℕ}

theorem spend_eq (rl : RateLimiter) (v : Visit) (b : Visitor) : spend rl v b =
    if b.level (rl.rate : ℚ) rl.burst v.checked < 1 then
      (tooManyRequests, rl.put v.key ⟨b.level (rl.rate : ℚ) rl.burst v.checked, v.updated⟩)
    else (.passedOn, rl.put v.key ⟨b.level (rl.rate : ℚ) rl.burst v.checked - 1, v.updated⟩) := rfl

theorem lookup_put (rl : RateLimiter) (key : String) (b : Visitor) :
    (rl.put key b).visitors.lookup key = some b := AList.lookup_insert rl.visitors

theorem lookup_put_eq (rl : RateLimiter) (k : String) (b : Visitor) (key : String) :
    (rl.put k b).visitors.lookup key = if key = k then some b else rl.visitors.lookup key := by
  split_ifs with hkey
  · rw [hkey, lookup_put]
  · exact AList.lookup_insert_ne hkey

theorem middleware_tracked {b : Visitor} (h : rl.visitors.lookup v.key = some b) :
    middleware rl v = spend rl v b := by
  simp only [middleware, h]

theorem middleware_new (h : rl.visitors.lookup v.key = none)
    (hroom : rl.visitors.keys.length < maxTrackedRateLimitVisitors) :
    middleware rl v = spend rl v ⟨rl.burst, v.created⟩ := by
  simp only [middleware, h, if_neg (not_le.mpr hroom)]

theorem middleware_untracked (h : rl.visitors.lookup v.key = none)
    (hfull : maxTrackedRateLimitVisitors ≤ rl.visitors.keys.length) :
    middleware rl v = (.passedOn, rl) := by
  simp only [middleware, h, if_pos hfull]

/-- What a tick leaves. -/
theorem lookup_cleanup_eq (rl : RateLimiter) (now : String → ℚ) (key : String) :
    (cleanup rl now).visitors.lookup key =
      (rl.visitors.lookup key).filter fun b => ¬(now key - b.last > cleanupInterval) := by
  ext b
  rw [Option.filter_eq_some_iff, ← Option.mem_def, ← Option.mem_def, AList.mem_lookup_iff,
    AList.mem_lookup_iff, cleanup, List.mem_filter]

theorem spend_config (rl : RateLimiter) (v : Visit) (b : Visitor) :
    (spend rl v b).2.rate = rl.rate ∧ (spend rl v b).2.burst = rl.burst := by
  rw [spend_eq]
  split_ifs <;> exact ⟨rfl, rfl⟩

theorem middleware_config (rl : RateLimiter) (v : Visit) :
    (middleware rl v).2.rate = rl.rate ∧ (middleware rl v).2.burst = rl.burst := by
  unfold middleware
  split
  · split_ifs
    · exact ⟨rfl, rfl⟩
    · exact spend_config rl v _
  · exact spend_config rl v _

theorem run_config (rl : RateLimiter) (es : List Event) :
    (run rl es).1.rate = rl.rate ∧ (run rl es).1.burst = rl.burst := by
  induction es generalizing rl with
  | nil => exact ⟨rfl, rfl⟩
  | cons e es ih =>
    cases e with
    | request v =>
      obtain ⟨hrate, hburst⟩ := middleware_config rl v
      exact ⟨(ih _).1.trans hrate, (ih _).2.trans hburst⟩
    | cleanup now => exact ih (cleanup rl now)

/-- A request of another key does not touch the bucket. -/
theorem lookup_middleware_ne (h : v.key ≠ key) :
    (middleware rl v).2.visitors.lookup key = rl.visitors.lookup key := by
  have hspend (b : Visitor) : (spend rl v b).2.visitors.lookup key = rl.visitors.lookup key := by
    rw [spend_eq]
    split_ifs <;> exact AList.lookup_insert_ne (Ne.symm h)
  cases hlookup : rl.visitors.lookup v.key with
  | some b =>
    rw [middleware_tracked hlookup]
    exact hspend b
  | none =>
    by_cases hroom : rl.visitors.keys.length < maxTrackedRateLimitVisitors
    · rw [middleware_new hlookup hroom]
      exact hspend _
    · rw [middleware_untracked hlookup (not_lt.mp hroom)]

/-- A bucket that is not stale is kept. -/
theorem lookup_cleanup {now : String → ℚ}
    (h : ∀ visitor, rl.visitors.lookup key = some visitor →
      now key - visitor.last ≤ cleanupInterval) :
    (cleanup rl now).visitors.lookup key = rl.visitors.lookup key := by
  rw [lookup_cleanup_eq]
  cases hlookup : rl.visitors.lookup key with
  | none => rfl
  | some visitor => exact Option.filter_some_pos (decide_eq_true (not_lt.mpr (h visitor hlookup)))

/-- What the window owes to a key: nothing before its first request, and then what is on
the account of its bucket. -/
def Balanced (key : String) (start stop since : ℚ) (rl : RateLimiter) (n : ℕ) : Prop :=
  match rl.visitors.lookup key with
  | none => n = 0
  | some b => b.last ≤ since ∧ Account (rl.rate : ℚ) rl.burst start stop b n

/-- How much a request adds to the count of a window. -/
def counted (key : String) (start stop : ℚ) (e : Visit × Verdict) : ℕ :=
  if e.1.key = key ∧ e.2 = .passedOn ∧ start ≤ e.1.instant ∧ e.1.instant ≤ stop then 1 else 0

theorem spend_balanced {b : Visitor}
    (haccount : Account (rl.rate : ℚ) rl.burst start stop b n) (hlast : b.last ≤ v.checked) :
    Balanced v.key start stop v.updated (spend rl v b).2
      (n + counted v.key start stop (v, (spend rl v b).1)) := by
  have hrate : (0 : ℚ) ≤ rl.rate := Nat.cast_nonneg _
  rw [spend_eq]
  split_ifs with htoken
  · have hrefused : ¬(v.key = v.key ∧ tooManyRequests = .passedOn ∧ start ≤ v.instant ∧
        v.instant ≤ stop) := fun h => nomatch h.2.1
    rw [Balanced, lookup_put, counted, if_neg hrefused]
    exact ⟨le_rfl, haccount.refused hrate hlast (v.checked_le.trans v.instant_le)⟩
  · have hadmitted := haccount.admitted hrate hlast v.checked_le v.instant_le (not_lt.mp htoken)
    have hcount : n + counted v.key start stop (v, .passedOn) =
        if start ≤ v.instant ∧ v.instant ≤ stop then n + 1 else n := by
      simp only [counted, true_and]
      split_ifs <;> rfl
    rw [Balanced, lookup_put, hcount]
    exact ⟨le_rfl, hadmitted⟩

/-- One request keeps the account of its key. -/
theorem middleware_balanced (hwindow : start ≤ stop) (h : Balanced v.key start stop since rl n)
    (hsince : since ≤ v.created)
    (hroom : rl.visitors.lookup v.key = none →
      rl.visitors.keys.length < maxTrackedRateLimitVisitors) :
    Balanced v.key start stop v.updated (middleware rl v).2
      (n + counted v.key start stop (v, (middleware rl v).1)) := by
  unfold Balanced at h
  cases hlookup : rl.visitors.lookup v.key with
  | none =>
    rw [hlookup] at h
    obtain rfl : n = 0 := h
    rw [middleware_new hlookup (hroom hlookup)]
    exact spend_balanced
      (.full (Nat.cast_nonneg _) (Nat.cast_nonneg _) hwindow v.created) v.created_le
  | some b =>
    rw [hlookup] at h
    rw [middleware_tracked hlookup]
    exact spend_balanced h.2 (h.1.trans (hsince.trans v.created_le))

/-- Nothing that happens to other keys matters. -/
theorem Balanced.of_lookup {rl' : RateLimiter} {since' : ℚ}
    (h : Balanced key start stop since rl n) (hsince : since ≤ since')
    (hlookup : rl'.visitors.lookup key = rl.visitors.lookup key) (hrate : rl'.rate = rl.rate)
    (hburst : rl'.burst = rl.burst) : Balanced key start stop since' rl' n := by
  unfold Balanced at h ⊢
  rw [hlookup, hrate, hburst]
  cases hb : rl.visitors.lookup key with
  | none =>
    rw [hb] at h
    exact h
  | some b =>
    rw [hb] at h
    exact ⟨h.1.trans hsince, h.2⟩

theorem length_passedOn_cons (e : Visit × Verdict) (log : List (Visit × Verdict)) :
    (passedOn key start stop (e :: log)).length =
      counted key start stop e + (passedOn key start stop log).length := by
  rw [passedOn, List.filter_cons, counted]
  simp only [decide_eq_true_eq]
  split_ifs
  · rw [List.length_cons, Nat.add_comm, passedOn]
  · rw [Nat.zero_add, passedOn]

/-- A whole run keeps the account of every key that is tracked. -/
theorem run_balanced (hwindow : start ≤ stop) (es : List Event)
    (h : Balanced key start stop since rl n) (hordered : Ordered since es)
    (htracked : Tracked key rl es) : ∃ since', Balanced key start stop since' (run rl es).1
      (n + (passedOn key start stop (run rl es).2).length) := by
  induction es generalizing rl since n with
  | nil => exact ⟨since, h⟩
  | cons e es ih =>
    cases e with
    | request v =>
      obtain ⟨hcreated, hordered⟩ := hordered
      obtain ⟨hroom, htracked⟩ := htracked
      have hstep : Balanced key start stop v.updated (middleware rl v).2
          (n + counted key start stop (v, (middleware rl v).1)) := by
        by_cases hkey : v.key = key
        · subst hkey
          exact middleware_balanced hwindow h hcreated (hroom rfl)
        · have hskip : counted key start stop (v, (middleware rl v).1) = 0 :=
            if_neg fun hin => hkey hin.1
          obtain ⟨hrate, hburst⟩ := middleware_config rl v
          have hlater : since ≤ v.updated :=
            hcreated.trans (v.created_le.trans (v.checked_le.trans v.instant_le))
          rw [hskip]
          exact h.of_lookup hlater (lookup_middleware_ne hkey) hrate hburst
      obtain ⟨since', hrun⟩ := ih hstep hordered htracked
      refine ⟨since', ?_⟩
      rw [Nat.add_assoc, ← length_passedOn_cons] at hrun
      exact hrun
    | cleanup now =>
      exact ih (h.of_lookup le_rfl (lookup_cleanup htracked.1) rfl rfl) hordered htracked.2

end

/-- After any run the tokens of a tracked key are between nothing and the burst, and in any
window at most the burst and the gain of the window were passed on. -/
theorem passedOn_bounded (rate burst : ℕ) (key : String) (since : ℚ)
    (es : List Event) (hordered : Ordered since es)
    (htracked : Tracked key (newRateLimiter rate burst) es) :
    (∀ visitor, (run (newRateLimiter rate burst) es).1.visitors.lookup key = some visitor →
      0 ≤ visitor.tokens ∧ visitor.tokens ≤ burst) ∧
    ∀ start stop : ℚ, start ≤ stop →
      (passedOn key start stop (run (newRateLimiter rate burst) es).2).length ≤
        (burst : ℚ) + rate * (stop - start) := by
  have hnew (start stop : ℚ) : Balanced key start stop since (newRateLimiter rate burst) 0 := rfl
  obtain ⟨hrate, hburst⟩ := run_config (newRateLimiter rate burst) es
  constructor
  · intro visitor hvisitor
    obtain ⟨since', h⟩ := run_balanced le_rfl es (hnew 0 0) hordered htracked
    rw [Balanced, hvisitor, hrate, hburst] at h
    exact ⟨h.2.nonneg, h.2.le_burst⟩
  · intro start stop hwindow
    obtain ⟨since', h⟩ := run_balanced hwindow es (hnew start stop) hordered htracked
    rw [Nat.zero_add, Balanced] at h
    cases hlookup : (run (newRateLimiter rate burst) es).1.visitors.lookup key with
    | none =>
      rw [hlookup] at h
      have hgain : (0 : ℚ) ≤ rate * (stop - start) :=
        mul_nonneg (Nat.cast_nonneg _) (sub_nonneg.mpr hwindow)
      rw [h, Nat.cast_zero]
      exact add_nonneg (Nat.cast_nonneg _) hgain
    | some b =>
      rw [hlookup, hrate, hburst] at h
      exact h.2.within

/-- A request whose readings of the clock are all the same. -/
def visitAt (ip : String) (now : ℚ) : Visit :=
  ⟨⟨"", "", fun _ => []⟩, ip, now, now, now, now, le_rfl, le_rfl, le_rfl⟩

/-- Three requests in half a second with a burst of two, and a tick of the cleanup. -/
theorem passedOn_bounded_burst :
    let es : List Event := [.request (visitAt "10.0.0.1" 0), .request (visitAt "10.0.0.1" 0),
      .cleanup fun _ => 1 / 4, .request (visitAt "10.0.0.1" (1 / 2))]
    (∀ visitor, (run (newRateLimiter 1 2) es).1.visitors.lookup "10.0.0.1" = some visitor →
      0 ≤ visitor.tokens ∧ visitor.tokens ≤ (2 : ℕ)) ∧
    ∀ start stop : ℚ, start ≤ stop →
      (passedOn "10.0.0.1" start stop (run (newRateLimiter 1 2) es).2).length ≤
        ((2 : ℕ) : ℚ) + (1 : ℕ) * (stop - start) := by
  intro es
  refine passedOn_bounded 1 2 "10.0.0.1" 0 es ⟨le_rfl, le_rfl, ?_, trivial⟩
    ⟨fun _ _ => by decide, fun _ _ => by decide +kernel, ?_, fun _ _ => by decide +kernel, trivial⟩
  · norm_num [visitAt]
  · intro visitor hvisitor
    have hempty : (run (newRateLimiter 1 2) (es.take 2)).1.visitors.lookup "10.0.0.1" =
        some ⟨0, 0⟩ := by decide +kernel
    cases hempty.symm.trans hvisitor
    norm_num [cleanupInterval]

end NetBerth.RateLimit
