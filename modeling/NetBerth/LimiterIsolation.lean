import NetBerth.LoginLimiter
import NetBerth.RateLimitCleanup

/-!
# One client among others

Both limiters keep all clients in one table of bounded size. As long as a client finds
room, what becomes of it is what a limiter of its own would have decided from its own
events and the ticks, whatever the others send.

A client that finds the table full is let through by the one limiter, and its failures
are not recorded by the other. So with more clients than the tables have room for, others
decide whether a client is limited at all.
-/
namespace NetBerth.RateLimit
open TokenBucket

/-! ## A rate limiter of its own -/

/-- What concerns a client: its requests, and the reading of each tick for its bucket. -/
def seenBy (key : String) : Event → Option (Visit ⊕ ℚ)
  | .request v => if v.key = key then some (.inl v) else none
  | .cleanup now => some (.inr (now key))

def own (key : String) (es : List Event) : List (Visit ⊕ ℚ) := es.filterMap (seenBy key)

def ownRun (rate burst : ℕ) : Option Visitor → List (Visit ⊕ ℚ) → List (Visit × Verdict)
  | _, [] => []
  | b, .inl v :: es =>
    let d := decideAt ((b.getD ⟨burst, v.created⟩).level (rate : ℚ) burst v.checked)
    (v, d.1) :: ownRun rate burst (some ⟨d.2, v.updated⟩) es
  | b, .inr now :: es =>
    ownRun rate burst (b.filter fun b => ¬(now - b.last > cleanupInterval)) es

/-- What became of the requests of a client. -/
def decisions (key : String) (log : List (Visit × Verdict)) : List (Visit × Verdict) :=
  log.filter fun e => e.1.key = key

/-- The client finds room whenever it comes without a bucket. -/
def FindsRoom (key : String) : RateLimiter → List Event → Prop
  | _, [] => True
  | rl, .request v :: es =>
    (v.key = key → rl.visitors.lookup key = none →
      rl.visitors.keys.length < maxTrackedRateLimitVisitors) ∧ FindsRoom key (middleware rl v).2 es
  | rl, .cleanup now :: es => FindsRoom key (cleanup rl now) es

section
variable {rl : RateLimiter} {v : Visit} {key : String} {since : ℚ} {expected : Finset String}

/-- A request that finds a bucket or room. -/
theorem middleware_own (hroom : rl.visitors.lookup v.key = none →
      rl.visitors.keys.length < maxTrackedRateLimitVisitors) :
    middleware rl v = spend rl v ((rl.visitors.lookup v.key).getD ⟨rl.burst, v.created⟩) := by
  cases hlookup : rl.visitors.lookup v.key with
  | some b => exact middleware_tracked hlookup
  | none => exact middleware_new hlookup (hroom hlookup)

/-- The table decides for a client as a limiter of its own. -/
theorem decisions_run (es : List Event) (hroom : FindsRoom key rl es) :
    decisions key (run rl es).2 = ownRun rl.rate rl.burst (rl.visitors.lookup key) (own key es) := by
  induction es generalizing rl with
  | nil => rfl
  | cons e es ih =>
    cases e with
    | request v =>
      obtain ⟨hfirst, hroom⟩ := hroom
      obtain ⟨hrate, hburst⟩ := middleware_config rl v
      have hrest := ih hroom
      rw [hrate, hburst] at hrest
      by_cases hkey : v.key = key
      · subst hkey
        have hstep := middleware_own (hfirst rfl)
        have hlookup : (middleware rl v).2.visitors.lookup v.key = some ⟨(decideAt
            (((rl.visitors.lookup v.key).getD ⟨rl.burst, v.created⟩).level (rl.rate : ℚ) rl.burst
              v.checked)).2, v.updated⟩ := by
          rw [hstep, spend_level, lookup_put]
        have hown : own v.key (.request v :: es) = .inl v :: own v.key es := by
          simp only [own, List.filterMap_cons, seenBy, if_true]
        rw [hlookup] at hrest
        rw [hown, ownRun, ← hrest, run, decisions, List.filter_cons, if_pos (decide_eq_true rfl),
          hstep, spend_level]
        rfl
      · have hown : own key (.request v :: es) = own key es := by
          simp only [own, List.filterMap_cons, seenBy, if_neg hkey]
        rw [lookup_middleware_ne hkey] at hrest
        rw [hown, ← hrest, run, decisions, List.filter_cons, if_neg (by simpa using hkey)]
        rfl
    | cleanup now =>
      have hrest := ih hroom
      rw [lookup_cleanup_eq] at hrest
      exact hrest

/-- With few clients everyone finds room. -/
theorem Sound.findsRoom (h : Sound expected since rl)
    (hcard : expected.card ≤ maxTrackedRateLimitVisitors) (es : List Event) (htimed : Timed since es)
    (hclients : clients es ⊆ expected) (key : String) : FindsRoom key rl es := by
  induction es generalizing rl since with
  | nil => trivial
  | cons e es ih =>
    cases e with
    | request v =>
      obtain ⟨hcreated, htimed⟩ := htimed
      obtain ⟨hkey, hclients⟩ := Finset.insert_subset_iff.mp hclients
      refine ⟨fun heq hnone => ?_, ih (h.request hcreated hkey) htimed hclients⟩
      subst heq
      exact h.room hcard hkey hnone
    | cleanup now =>
      obtain ⟨hsince, stop, hstop, htimed⟩ := htimed
      exact ih ((h.cleanup now).later ((hsince "").trans (hstop ""))) htimed hclients

end

/-- Two runs with at most so many clients that agree on one of them decide the same for it. -/
def Isolated (rate burst n : ℕ) : Prop :=
  ∀ key since since' es es', Timed since es → Timed since' es' → (clients es).card ≤ n →
    (clients es').card ≤ n → own key es = own key es' →
    decisions key (run (newRateLimiter rate burst) es).2 =
      decisions key (run (newRateLimiter rate burst) es').2

theorem isolated_of_room {rate burst : ℕ} {key : String} {es es' : List Event}
    (hroom : FindsRoom key (newRateLimiter rate burst) es)
    (hroom' : FindsRoom key (newRateLimiter rate burst) es') (hown : own key es = own key es') :
    decisions key (run (newRateLimiter rate burst) es).2 =
      decisions key (run (newRateLimiter rate burst) es').2 := by
  rw [decisions_run es hroom, decisions_run es' hroom', hown]

/-! ### A crowd before the client -/

section
variable {rl : RateLimiter} {key client : String} {now : ℚ}

theorem own_crowd {cs : List String} (hkey : key ∉ cs) (hcs : ∀ c ∈ cs, c ≠ "") :
    own key (crowd cs now) = [] := by
  refine List.filterMap_eq_nil_iff.mpr fun e he => ?_
  obtain ⟨c, hc, rfl⟩ := List.mem_map.mp he
  have hne : (visitAt c now).key ≠ key := by
    rw [visitAt_key (hcs c hc)]
    exact ne_of_mem_of_not_mem hc hkey
  simp only [seenBy, if_neg hne]

theorem decisions_last (hclient : client ≠ "") (es : List Event) :
    decisions client (run rl (es ++ [.request (visitAt client now)])).2 =
      decisions client (run rl es).2 ++
        [(visitAt client now, (middleware (run rl es).1 (visitAt client now)).1)] := by
  rw [run_append, decisions, List.filter_append]
  congr 1
  exact List.filter_eq_self.mpr fun e he => by
    rw [List.mem_singleton.mp he]
    exact decide_eq_true (visitAt_key hclient now)

/-- One request more than the burst. -/
def overBurst (client : String) (burst : ℕ) : List Event :=
  volley client 0 burst ++ [.request (visitAt client 0)]

section
variable {rate burst n : ℕ} {cs : List String}

/-- Alone, the client has used up its bucket. -/
theorem middleware_alone (hclient : client ≠ "") :
    (middleware (run (newRateLimiter rate burst) (volley client 0 burst)).1
      (visitAt client 0)).1 = tooManyRequests := by
  have hnew : Available (newRateLimiter rate burst) client 0 burst := ⟨Nat.succ_pos _, rfl⟩
  have hspent := hnew.spent hclient burst le_rfl
  rw [hspent.middleware hclient, sub_self, decideAt, if_pos zero_lt_one]

/-- Behind enough others it has none. -/
theorem middleware_behind (hnodup : cs.Nodup) (hcs : ∀ c ∈ cs, c ≠ "") (hfirst : client ∉ cs)
    (hclient : client ≠ "") (hlen : cs.length = maxTrackedRateLimitVisitors) :
    (middleware (run (newRateLimiter rate burst) (crowd cs 0 ++ volley client 0 burst)).1
      (visitAt client 0)).1 = .passedOn := by
  have hnew : ∀ c ∈ cs, c ≠ "" ∧ (newRateLimiter rate burst).visitors.lookup c = none :=
    fun c hc => ⟨hcs c hc, rfl⟩
  have hroom : (newRateLimiter rate burst).visitors.keys.length + cs.length =
      maxTrackedRateLimitVisitors := by
    rw [hlen]
    exact Nat.zero_add _
  obtain ⟨hnone, hfull⟩ := untracked_of_crowd cs hnodup hnew hroom hfirst rfl
  rw [run_append]
  exact middleware_volley_untracked hclient hnone hfull burst

theorem clients_overBurst (hclient : client ≠ "") (burst : ℕ) :
    clients (overBurst client burst) ⊆ {client} := by
  rw [overBurst, clients_append]
  exact Finset.union_subset (clients_volley hclient 0 _) (clients_volley hclient 0 1)

/-- The client is refused, unless others have filled the table. -/
theorem not_isolated (hnodup : cs.Nodup) (hcs : ∀ c ∈ cs, c ≠ "") (hfirst : client ∉ cs)
    (hclient : client ≠ "") (hlen : cs.length = maxTrackedRateLimitVisitors)
    (hn : maxTrackedRateLimitVisitors < n) : ¬Isolated rate burst n := by
  intro h
  have htimed : Timed 0 (overBurst client burst) := timed_crowd_last _ 0 client
  have hclients := clients_overBurst hclient burst
  have hclients' : clients (crowd cs 0 ++ overBurst client burst) ⊆ insert client cs.toFinset := by
    rw [clients_append, clients_crowd hcs]
    exact Finset.union_subset (Finset.subset_insert _ _)
      (hclients.trans (Finset.singleton_subset_iff.mpr (Finset.mem_insert_self _ _)))
  have hcard : (clients (overBurst client burst)).card ≤ n :=
    (Finset.card_le_card hclients).trans ((Nat.succ_le_succ (Nat.zero_le _)).trans hn)
  have hcard' : (clients (crowd cs 0 ++ overBurst client burst)).card ≤ n :=
    calc _ ≤ (insert client cs.toFinset).card := Finset.card_le_card hclients'
      _ ≤ cs.toFinset.card + 1 := Finset.card_insert_le _ _
      _ ≤ cs.length + 1 := Nat.succ_le_succ (List.toFinset_card_le cs)
      _ ≤ n := hlen ▸ hn
  have hown : own client (overBurst client burst) =
      own client (crowd cs 0 ++ overBurst client burst) := by
    have happend : own client (crowd cs 0 ++ overBurst client burst) =
        own client (crowd cs 0) ++ own client (overBurst client burst) := List.filterMap_append
    rw [happend, own_crowd hfirst hcs, List.nil_append]
  have hsame := h client 0 0 _ _ htimed (htimed.crowd le_rfl cs) hcard hcard' hown
  rw [overBurst, ← List.append_assoc, decisions_last hclient, decisions_last hclient,
    middleware_alone hclient, middleware_behind hnodup hcs hfirst hclient hlen] at hsame
  have hlast := (List.append_inj' hsame rfl).2
  exact nomatch (Prod.mk.inj (List.singleton_inj.mp hlast)).2

/-- The limiter isolates so many clients exactly if its table has room for them. -/
theorem isolated_iff : Isolated rate burst n ↔ n ≤ maxTrackedRateLimitVisitors := by
  constructor
  · intro h
    by_contra hmany
    exact not_isolated others_nodup others_ne_empty address_zero_not_mem
      (address_ne_empty 0) length_others (not_le.mp hmany) h
  · intro hn key since since' es es' htimed htimed' hcard hcard' hown
    have hroom := (Sound.new (clients es) since rate burst).findsRoom (hcard.trans hn) es htimed
      (le_refl _) key
    have hroom' := (Sound.new (clients es') since' rate burst).findsRoom (hcard'.trans hn) es'
      htimed' (le_refl _) key
    exact isolated_of_room hroom hroom' hown

end
end

end NetBerth.RateLimit

namespace NetBerth.LoginLimiter
open IPAddress RateLimit

/-! ## A login limiter of its own -/

/-- What concerns a client: the steps of its logins, and the ticks. -/
def concerns (client : String) : Event → Bool
  | .check l _ => l.client = client
  | .handle l _ _ => l.client = client
  | .record l _ _ => l.client = client
  | .cleanup _ => true

/-- The entry of a client and where its logins are. -/
structure View where
  entry : Option LoginFailures
  phase : Login → Phase

def State.view (s : State) (client : String) : View :=
  ⟨s.failures.lookup client, fun l => if l.client = client then s.phase l else .absent⟩

def View.step (cfg : Settings) (x : View) : Event → View
  | .check l now => ⟨x.entry, Function.update x.phase l (letIn cfg x.entry l now)⟩
  | .handle l status _ => ⟨x.entry, Function.update x.phase l (.answered status)⟩
  | .record l status r =>
    ⟨observeEntry cfg x.entry status r, Function.update x.phase l (.finished status)⟩
  | .cleanup now => ⟨x.entry.filter fun f => !f.stale cfg now, x.phase⟩

/-- A failure of the client finds an entry or room for one. -/
def Recorded (client : String) (s : State) : Event → Prop
  | .record l status _ => l.client = client → status = 401 → s.failures.lookup client = none →
    s.failures.keys.length < maxTrackedLoginFailures
  | _ => True

/-- In every step of a run. -/
def AlwaysRecorded (cfg : Settings) (client : String) : State → List Event → Prop
  | _, [] => True
  | s, e :: es =>
    Recorded client s e ∧ ∀ t, step cfg s e = some t → AlwaysRecorded cfg client t es

section
variable {cfg : Settings} {client : String} {s t : State} {e : Event} {es : List Event}

theorem view_move_self {l : Login} (hl : l.client = client) (p : Phase) (failures : Failures)
    (now : ℚ) : (s.move l p failures now).view client =
      ⟨failures.lookup client, Function.update (s.view client).phase l p⟩ := by
  simp only [State.view, State.move, View.mk.injEq, true_and]
  funext m
  by_cases hm : m = l
  · subst hm
    simp [hl]
  · simp [hm]

theorem view_move_ne {l : Login} (hl : l.client ≠ client) (p : Phase) {failures : Failures}
    (hlookup : failures.lookup client = s.failures.lookup client) (now : ℚ) :
    (s.move l p failures now).view client = s.view client := by
  simp only [State.view, State.move, View.mk.injEq]
  refine ⟨hlookup, funext fun m => ?_⟩
  by_cases hm : m = l
  · subst hm
    simp [hl]
  · simp [hm]

/-- A step concerns one client only. -/
theorem view_step (hroom : Recorded client s e) (h : step cfg s e = some t) :
    t.view client = if concerns client e then (s.view client).step cfg e else s.view client := by
  cases e with
  | check l now =>
    obtain ⟨-, rfl⟩ := Transitions.of_guard h
    by_cases hl : l.client = client
    · rw [view_move_self hl, if_pos (by simpa [concerns] using hl)]
      subst hl
      rfl
    · rw [view_move_ne hl _ rfl, if_neg (by simpa [concerns] using hl)]
  | handle l status now =>
    obtain ⟨-, rfl⟩ := Transitions.of_guard h
    by_cases hl : l.client = client
    · rw [view_move_self hl, if_pos (by simpa [concerns] using hl)]
      rfl
    · rw [view_move_ne hl _ rfl, if_neg (by simpa [concerns] using hl)]
  | record l status r =>
    obtain ⟨-, rfl⟩ := Transitions.of_guard h
    by_cases hl : l.client = client
    · subst hl
      rw [view_move_self rfl, if_pos (by simp [concerns]), lookup_observe_self (hroom rfl)]
      rfl
    · rw [view_move_ne hl _ (lookup_observe_ne (Ne.symm hl)), if_neg (by simpa [concerns] using hl)]
  | cleanup now =>
    obtain ⟨-, rfl⟩ := Transitions.of_guard h
    simp only [concerns, if_true, State.view, lookup_cleanup]
    rfl

/-- The table decides for a client as a limiter of its own. -/
theorem view_run (hroom : AlwaysRecorded cfg client s es) (h : es.foldlM (step cfg) s = some t) :
    t.view client = (es.filter (concerns client)).foldl (View.step cfg) (s.view client) := by
  induction es generalizing s with
  | nil =>
    cases h
    rfl
  | cons e es ih =>
    rw [List.foldlM_cons] at h
    obtain ⟨u, hu, hrest⟩ := Option.bind_eq_some_iff.mp h
    have hnext := ih (hroom.2 u hu) hrest
    rw [view_step hroom.1 hu] at hnext
    rw [hnext, List.filter_cons]
    split_ifs <;> rfl

end

def Event.client : Event → Option String
  | .check l _ => some l.client
  | .handle l _ _ => some l.client
  | .record l _ _ => some l.client
  | .cleanup _ => none

def clients (es : List Event) : Finset String := (es.filterMap Event.client).toFinset

def fresh (clock : ℚ) : State := ⟨∅, fun _ => .absent, clock⟩

/-- Two runs with at most so many clients that agree on one of them treat all its logins
alike. -/
def Isolated (cfg : Settings) (n : ℕ) : Prop :=
  ∀ client clock clock' es es' s s', es.foldlM (step cfg) (fresh clock) = some s →
    es'.foldlM (step cfg) (fresh clock') = some s' → (clients es).card ≤ n →
    (clients es').card ≤ n → es.filter (concerns client) = es'.filter (concerns client) →
    ∀ l, l.client = client → s.phase l = s'.phase l

section
variable {cfg : Settings} {client : String} {s s' : State} {es es' : List Event} {clock clock' : ℚ}

theorem isolated_of_room (hroom : AlwaysRecorded cfg client (fresh clock) es)
    (hroom' : AlwaysRecorded cfg client (fresh clock') es')
    (h : es.foldlM (step cfg) (fresh clock) = some s)
    (h' : es'.foldlM (step cfg) (fresh clock') = some s')
    (hown : es.filter (concerns client) = es'.filter (concerns client)) (l : Login)
    (hl : l.client = client) : s.phase l = s'.phase l := by
  have hview : s.view client = s'.view client := by
    rw [view_run hroom h, view_run hroom' h', hown]
    rfl
  have hphase := congrFun (congrArg View.phase hview) l
  simp only [State.view, if_pos hl] at hphase
  exact hphase

/-- Only the clients of a run have entries. -/
theorem lookup_step {e : Event} {t : State} {expected : Finset String}
    (hs : ∀ c, s.failures.lookup c ≠ none → c ∈ expected) (he : ∀ c ∈ e.client, c ∈ expected)
    (h : step cfg s e = some t) : ∀ c, t.failures.lookup c ≠ none → c ∈ expected := by
  intro c hc
  cases e with
  | check l now =>
    obtain ⟨-, rfl⟩ := Transitions.of_guard h
    exact hs c hc
  | handle l status now =>
    obtain ⟨-, rfl⟩ := Transitions.of_guard h
    exact hs c hc
  | record l status r =>
    obtain ⟨-, rfl⟩ := Transitions.of_guard h
    by_cases hl : c = l.client
    · exact he c (hl ▸ rfl)
    · rw [State.move, lookup_observe_ne hl] at hc
      exact hs c hc
  | cleanup now =>
    obtain ⟨-, rfl⟩ := Transitions.of_guard h
    rw [lookup_cleanup] at hc
    exact hs c fun hnone => hc (by rw [hnone]; rfl)

/-- With few clients every failure is recorded. -/
theorem alwaysRecorded {expected : Finset String}
    (hcard : expected.card ≤ maxTrackedLoginFailures)
    (hs : ∀ c, s.failures.lookup c ≠ none → c ∈ expected) (hes : clients es ⊆ expected)
    (client : String) : AlwaysRecorded cfg client s es := by
  induction es generalizing s with
  | nil => trivial
  | cons e es ih =>
    have he : ∀ c ∈ e.client, c ∈ expected := by
      intro c hc
      refine hes (List.mem_toFinset.mpr (List.mem_filterMap.mpr ⟨e, List.mem_cons_self .., hc⟩))
    have hrest : clients es ⊆ expected := by
      intro c hc
      obtain ⟨x, hx, hxc⟩ := List.mem_filterMap.mp (List.mem_toFinset.mp hc)
      exact hes (List.mem_toFinset.mpr (List.mem_filterMap.mpr ⟨x, List.mem_cons_of_mem e hx, hxc⟩))
    refine ⟨?_, fun t ht => ih (lookup_step hs he ht) hrest⟩
    cases e with
    | record l status r =>
      intro hl hstatus hnone
      exact length_keys_lt hs hcard (he client (hl ▸ rfl)) hnone
    | check l now => trivial
    | handle l status now => trivial
    | cleanup now => trivial

theorem isolated_of_le {n : ℕ} (hn : n ≤ maxTrackedLoginFailures) : Isolated cfg n := by
  intro client clock clock' es es' s s' h h' hcard hcard' hown
  have hempty (c : ℚ) : ∀ k, (fresh c).failures.lookup k ≠ none → k ∈ clients es :=
    fun _ hk => absurd rfl hk
  have hempty' (c : ℚ) : ∀ k, (fresh c).failures.lookup k ≠ none → k ∈ clients es' :=
    fun _ hk => absurd rfl hk
  exact isolated_of_room (alwaysRecorded (hcard.trans hn) (hempty clock) (le_refl _) client)
    (alwaysRecorded (hcard'.trans hn) (hempty' clock') (le_refl _) client) h h' hown

end

/-! ### A crowd before the client -/

/-- One failing login from start to end, at one instant. -/
def guess (l : Login) : List Event :=
  [.check l 0, .handle l 401 0, .record l 401 (recordingAt 0)]

theorem clientIPKey_address (i : ℕ) : clientIPKey "" (address i) = address i :=
  (if_neg (not_not.mpr rfl)).trans (normalizeIP_ipString _)

/-- A login of an address. -/
def loginOf (i id : ℕ) : Login :=
  ⟨id, "/api/v1/auth/login", "POST", "", address i, by
    rw [clientIPKey_address]
    exact normalizeIP_ipString _⟩

theorem client_loginOf (i id : ℕ) : (loginOf i id).client = address i := clientIPKey_address i

section
variable {cfg : Settings} {s : State} {l : Login}

/-- The client is not locked out when it comes. -/
theorem run_guess (habsent : s.phase l = .absent) (hclock : s.clock = 0)
    (hobserved : l.observed = true) (hlocked : lockedOut (s.failures.lookup l.client) 0 = false) :
    (guess l).foldlM (step cfg) s =
      some ⟨recordFailure cfg s.failures l.client (recordingAt 0),
        Function.update s.phase l (.finished 401), 0⟩ := by
  have hin : letIn cfg (s.failures.lookup l.client) l 0 = .inside := by
    simp [letIn, hobserved, hlocked]
  simp [guess, step, habsent, hclock, hin, State.move, observe, recordingAt]

/-- The entry after so many failures. -/
def entryAfter (cfg : Settings) : ℕ → Option LoginFailures
  | 0 => none
  | n + 1 => some ⟨n + 1, 0, if cfg.maxFailures ≤ (n + 1 : ℕ) then some cfg.lockDuration else none⟩

theorem fail_of_counted {f : LoginFailures} {n : ℕ}
    (h : f.counted cfg (recordingAt 0) = ⟨n + 1, 0, none⟩) :
    some (f.fail cfg (recordingAt 0)) = entryAfter cfg (n + 1) := by
  have hlocked : (recordingAt 0).locked + cfg.lockDuration = cfg.lockDuration := zero_add _
  simp only [LoginFailures.fail, h, entryAfter, hlocked]
  split_ifs <;> rfl

theorem failEntry_entryAfter (hwindow : 0 ≤ cfg.window) {n : ℕ}
    (hn : n = 0 ∨ (n : ℤ) < cfg.maxFailures) :
    some (failEntry cfg (entryAfter cfg n) (recordingAt 0)) = entryAfter cfg (n + 1) := by
  have hin : ¬(0 - 0 > cfg.window) := by
    rw [sub_self]
    exact not_lt.mpr hwindow
  refine fail_of_counted ?_
  cases n with
  | zero =>
    simp only [entryAfter, Option.getD_none, LoginFailures.counted, recordingAt]
    exact if_neg hin
  | succ n =>
    have hopen : ¬cfg.maxFailures ≤ ((n + 1 : ℕ) : ℤ) := by
      obtain h | h := hn
      · exact absurd h (Nat.succ_ne_zero n)
      · exact not_le.mpr h
    simp only [entryAfter, if_neg hopen, Option.getD_some, LoginFailures.counted, recordingAt,
      if_neg hin]

/-- A client that has not failed often enough is not locked out. -/
theorem lockedOut_entryAfter {n : ℕ} (hn : n = 0 ∨ (n : ℤ) < cfg.maxFailures) :
    lockedOut (entryAfter cfg n) 0 = false := by
  cases n with
  | zero => rfl
  | succ n =>
    have hopen : ¬cfg.maxFailures ≤ ((n + 1 : ℕ) : ℤ) := by
      obtain h | h := hn
      · exact absurd h (Nat.succ_ne_zero n)
      · exact not_le.mpr h
    simp only [lockedOut, entryAfter, if_neg hopen, Option.any_some, LoginFailures.lockedAt]

/-- So many failing logins of one address, one after the other. -/
def guesses (i n : ℕ) : List Event := (List.range n).flatMap fun id => guess (loginOf i id)

/-- What a table does when the address fails once more, and again. -/
theorem run_guesses {i : ℕ} {J : ℕ → Failures → Prop} {m : ℕ} (hclock : s.clock = 0)
    (habsent : ∀ id, s.phase (loginOf i id) = .absent) (hs : J 0 s.failures)
    (hJ : ∀ n < m, ∀ F, J n F → lockedOut (F.lookup (address i)) 0 = false ∧
      J (n + 1) (recordFailure cfg F (address i) (recordingAt 0))) :
    ∃ t, (guesses i m).foldlM (step cfg) s = some t ∧ t.clock = 0 ∧ J m t.failures ∧
      ∀ id, m ≤ id → t.phase (loginOf i id) = .absent := by
  induction m with
  | zero => exact ⟨s, rfl, hclock, hs, fun id _ => habsent id⟩
  | succ m ih =>
    obtain ⟨t, ht, htclock, htJ, htabsent⟩ := ih fun n hn => hJ n (Nat.lt_succ_of_lt hn)
    obtain ⟨hopen, hnext⟩ := hJ m (Nat.lt_succ_self m) t.failures htJ
    have hlast := @run_guess cfg t (loginOf i m) (htabsent m le_rfl) htclock (by rfl)
      (by rw [client_loginOf]; exact hopen)
    rw [client_loginOf] at hlast
    refine ⟨⟨recordFailure cfg t.failures (address i) (recordingAt 0),
      Function.update t.phase (loginOf i m) (.finished 401), 0⟩, ?_, rfl, hnext, fun id hid => ?_⟩
    · rw [guesses, List.range_succ, List.flatMap_append, List.foldlM_append, ← guesses, ht]
      simpa using hlast
    · have hne : loginOf i id ≠ loginOf i m := by
        intro h
        have hid' : id = m := congrArg Login.id h
        omega
      dsimp only
      rw [Function.update_of_ne hne]
      exact htabsent id (Nat.le_of_succ_le hid)

/-- The table of an address that is alone. -/
def CountsAlone (cfg : Settings) (n : ℕ) (F : Failures) : Prop :=
  F.lookup (address 0) = entryAfter cfg n ∧
    ∀ c, F.lookup c ≠ none → c ∈ ({address 0} : Finset String)

theorem CountsAlone.fail (hwindow : 0 ≤ cfg.window) {n : ℕ} {F : Failures}
    (hn : n = 0 ∨ (n : ℤ) < cfg.maxFailures) (h : CountsAlone cfg n F) :
    CountsAlone cfg (n + 1) (recordFailure cfg F (address 0) (recordingAt 0)) := by
  obtain ⟨hentry, hkeys⟩ := h
  have hclient := client_loginOf 0 0
  have hobserve : recordFailure cfg F (address 0) (recordingAt 0) =
      observe cfg F (loginOf 0 0) 401 (recordingAt 0) := by
    rw [observe, if_pos rfl, hclient]
  have hroom : F.lookup (address 0) = none → F.keys.length < maxTrackedLoginFailures :=
    fun hnone => length_keys_lt hkeys (by decide) (Finset.mem_singleton_self _) hnone
  rw [hobserve]
  constructor
  · have hlookup := @lookup_observe_self cfg F (loginOf 0 0) 401 (recordingAt 0) fun _ =>
      hclient.symm ▸ hroom
    rw [← hclient, hlookup, observeEntry, if_pos rfl, hclient, hentry]
    exact failEntry_entryAfter hwindow hn
  · intro c hc
    by_cases heq : c = address 0
    · exact Finset.mem_singleton.mpr heq
    · rw [lookup_observe_ne (hclient.symm ▸ heq)] at hc
      exact hkeys c hc

/-- An address that is alone is locked out after enough failures. -/
theorem guesses_alone (hlock : 0 < cfg.lockDuration) (hwindow : 0 ≤ cfg.window) {m : ℕ}
    (hm : m = max 1 cfg.maxFailures.toNat) :
    ∃ t, (guesses 0 m).foldlM (step cfg) (fresh 0) = some t ∧ t.clock = 0 ∧
      lockedOut (t.failures.lookup (address 0)) 0 = true ∧ t.phase (loginOf 0 m) = .absent := by
  have hstart : CountsAlone cfg 0 (fresh 0).failures := ⟨rfl, fun _ h => absurd rfl h⟩
  have hnext : ∀ n < m, ∀ F, CountsAlone cfg n F → lockedOut (F.lookup (address 0)) 0 = false ∧
      CountsAlone cfg (n + 1) (recordFailure cfg F (address 0) (recordingAt 0)) := by
    intro n hn F hF
    have hopen : n = 0 ∨ (n : ℤ) < cfg.maxFailures := by omega
    rw [hF.1]
    exact ⟨lockedOut_entryAfter hopen, hF.fail hwindow hopen⟩
  obtain ⟨t, ht, hclock, hentry, habsent⟩ := run_guesses (s := fresh 0) rfl (fun _ => rfl) hstart hnext
  refine ⟨t, ht, hclock, ?_, habsent m le_rfl⟩
  obtain ⟨k, rfl⟩ := Nat.exists_eq_add_of_le' (show 1 ≤ m by omega)
  have hreached : cfg.maxFailures ≤ ((k + 1 : ℕ) : ℤ) := by omega
  rw [hentry.1, entryAfter, if_pos hreached]
  exact decide_eq_true hlock

/-- An address that finds the table full is never locked out. -/
theorem guesses_behind (hclock : s.clock = 0)
    (habsent : ∀ id, s.phase (loginOf 0 id) = .absent) (hnone : s.failures.lookup (address 0) = none)
    (hfull : maxTrackedLoginFailures ≤ s.failures.keys.length) (m : ℕ) :
    ∃ t, (guesses 0 m).foldlM (step cfg) s = some t ∧ t.clock = 0 ∧ t.failures = s.failures ∧
      t.phase (loginOf 0 m) = .absent := by
  have hnext : ∀ n < m, ∀ F, F = s.failures → lockedOut (F.lookup (address 0)) 0 = false ∧
      recordFailure cfg F (address 0) (recordingAt 0) = s.failures := by
    rintro n - F rfl
    rw [hnone]
    refine ⟨rfl, ?_⟩
    have hkey : normalizeIP (address 0) = address 0 := normalizeIP_ipString _
    rw [recordFailure, hkey, hnone]
    exact if_pos hfull
  obtain ⟨t, ht, htclock, hsame, htabsent⟩ := run_guesses (J := fun _ F => F = s.failures) hclock
    habsent rfl hnext
  exact ⟨t, ht, htclock, hsame, htabsent m le_rfl⟩

/-- One failing login of each address. -/
def loginCrowd (is : List ℕ) : List Event := is.flatMap fun i => guess (loginOf i 0)

/-- New addresses take room, as long as there is some, and leave the others alone. -/
theorem run_loginCrowd (is : List ℕ) (hclock : s.clock = 0) (hnodup : (is.map address).Nodup)
    (hnew : ∀ i ∈ is, s.failures.lookup (address i) = none ∧ s.phase (loginOf i 0) = .absent)
    (hroom : s.failures.keys.length + is.length ≤ maxTrackedLoginFailures) :
    ∃ t, (loginCrowd is).foldlM (step cfg) s = some t ∧ t.clock = 0 ∧
      t.failures.keys.length = s.failures.keys.length + is.length ∧
      ∀ j, address j ∉ is.map address → t.failures.lookup (address j) = s.failures.lookup (address j) ∧
        ∀ id, t.phase (loginOf j id) = s.phase (loginOf j id) := by
  induction is generalizing s with
  | nil => exact ⟨s, rfl, hclock, rfl, fun _ _ => ⟨rfl, fun _ => rfl⟩⟩
  | cons i is ih =>
    obtain ⟨hi, hnodup⟩ := List.nodup_cons.mp hnodup
    obtain ⟨hinew, hiabsent⟩ := hnew i (List.mem_cons_self ..)
    rw [List.length_cons] at hroom ⊢
    have hkey : normalizeIP (address i) = address i := normalizeIP_ipString _
    have hfirst := @run_guess cfg s (loginOf i 0) hiabsent hclock rfl (by
      rw [client_loginOf, hinew]
      rfl)
    rw [client_loginOf, recordFailure, hkey, hinew] at hfirst
    dsimp only at hfirst
    rw [if_neg (by omega)] at hfirst
    set f := (⟨0, (recordingAt 0).created, none⟩ : LoginFailures).fail cfg (recordingAt 0)
    set u : State := ⟨s.failures.insert (address i) f,
      Function.update s.phase (loginOf i 0) (.finished 401), 0⟩ with hu
    have hne {j : ℕ} (hj : address j ≠ address i) (id : ℕ) : loginOf j id ≠ loginOf i 0 := by
      intro h
      have hclient := congrArg Login.client h
      rw [client_loginOf, client_loginOf] at hclient
      exact hj hclient
    have hkeep {j : ℕ} (hj : address j ≠ address i) :
        u.failures.lookup (address j) = s.failures.lookup (address j) ∧
          ∀ id, u.phase (loginOf j id) = s.phase (loginOf j id) :=
      ⟨AList.lookup_insert_ne hj, fun id => Function.update_of_ne (hne hj id) ..⟩
    have hlength : u.failures.keys.length = s.failures.keys.length + 1 := by
      have hnot : address i ∉ s.failures.keys := AList.lookup_eq_none.mp hinew
      rw [hu, AList.keys_insert, List.length_cons, List.erase_of_not_mem hnot]
    have hrest : ∀ j ∈ is, u.failures.lookup (address j) = none ∧ u.phase (loginOf j 0) = .absent := by
      intro j hj
      obtain ⟨hjnew, hjabsent⟩ := hnew j (List.mem_cons_of_mem i hj)
      have hji : address j ≠ address i := fun h => hi (h ▸ List.mem_map_of_mem hj)
      obtain ⟨hlookup, hphase⟩ := hkeep hji
      exact ⟨hlookup.trans hjnew, (hphase 0).trans hjabsent⟩
    obtain ⟨t, ht, htclock, htlength, htkeep⟩ := ih rfl hnodup hrest (by omega)
    refine ⟨t, ?_, htclock, by omega, fun j hj => ?_⟩
    · rw [loginCrowd, List.flatMap_cons, List.foldlM_append, hfirst]
      exact ht
    · rw [List.map_cons, List.mem_cons, not_or] at hj
      obtain ⟨hlookup, hphase⟩ := htkeep j hj.2
      obtain ⟨hulookup, huphase⟩ := hkeep hj.1
      exact ⟨hlookup.trans hulookup, fun id => (hphase id).trans (huphase id)⟩

theorem mem_guess {l : Login} {e : Event} (he : e ∈ guess l) :
    e.client = some l.client ∧ ∀ c, concerns c e = decide (l.client = c) := by
  simp only [guess, List.mem_cons, List.not_mem_nil, or_false] at he
  obtain rfl | rfl | rfl := he <;> exact ⟨rfl, fun _ => rfl⟩

theorem concerns_loginCrowd {is : List ℕ} {c : String} (hc : c ∉ is.map address) :
    (loginCrowd is).filter (concerns c) = [] := by
  refine List.filter_eq_nil_iff.mpr fun e he hconcerns => hc ?_
  obtain ⟨i, hi, he⟩ := List.mem_flatMap.mp he
  rw [(mem_guess he).2, client_loginOf] at hconcerns
  exact List.mem_map.mpr ⟨i, hi, of_decide_eq_true hconcerns⟩

theorem clients_append (es fs : List Event) : clients (es ++ fs) = clients es ∪ clients fs := by
  rw [clients, List.filterMap_append, List.toFinset_append, clients, clients]

theorem clients_loginCrowd (is : List ℕ) : clients (loginCrowd is) ⊆ (is.map address).toFinset := by
  intro c hc
  obtain ⟨e, he, hec⟩ := List.mem_filterMap.mp (List.mem_toFinset.mp hc)
  obtain ⟨i, hi, he⟩ := List.mem_flatMap.mp he
  rw [(mem_guess he).1, client_loginOf] at hec
  exact List.mem_toFinset.mpr (List.mem_map.mpr ⟨i, hi, Option.some.inj hec⟩)

/-- As many failing logins as it takes, and one more login. -/
def overLimit (m : ℕ) : List Event := guesses 0 m ++ [.check (loginOf 0 m) 0]

theorem clients_overLimit (m : ℕ) : clients (overLimit m) ⊆ {address 0} := by
  intro c hc
  obtain ⟨e, he, hec⟩ := List.mem_filterMap.mp (List.mem_toFinset.mp hc)
  rw [Finset.mem_singleton]
  obtain he | he := List.mem_append.mp he
  · obtain ⟨id, -, he⟩ := List.mem_flatMap.mp he
    rw [(mem_guess he).1, client_loginOf] at hec
    exact (Option.some.inj hec).symm
  · rw [List.mem_singleton.mp he] at hec
    exact (Option.some.inj hec).symm.trans (client_loginOf 0 m)

/-- The last login is let in or turned away by what the table says of the address. -/
theorem run_overLimit {m : ℕ} {u : State} (hrun : (guesses 0 m).foldlM (step cfg) s = some u)
    (hclock : u.clock = 0) (habsent : u.phase (loginOf 0 m) = .absent) :
    ∃ t, (overLimit m).foldlM (step cfg) s = some t ∧ t.phase (loginOf 0 m) =
      letIn cfg (u.failures.lookup (address 0)) (loginOf 0 m) 0 := by
  refine ⟨u.move (loginOf 0 m) (letIn cfg (u.failures.lookup (address 0)) (loginOf 0 m) 0)
    u.failures 0, ?_, ?_⟩
  · rw [overLimit, List.foldlM_append, hrun, ← client_loginOf 0 m]
    simp [step, habsent, hclock]
  · rw [phase_move, if_pos rfl]

/-- The address is turned away, unless others have filled the table. -/
theorem not_isolated {is : List ℕ} {n : ℕ} (hlock : 0 < cfg.lockDuration) (hwindow : 0 ≤ cfg.window)
    (hnodup : (is.map address).Nodup) (hfirst : address 0 ∉ is.map address)
    (hlen : is.length = maxTrackedLoginFailures) (hn : maxTrackedLoginFailures < n) :
    ¬Isolated cfg n := by
  intro h
  obtain ⟨u, hu, huclock, hulocked, huabsent⟩ :=
    guesses_alone hlock hwindow (rfl : max 1 cfg.maxFailures.toNat = _)
  set m := max 1 cfg.maxFailures.toNat
  obtain ⟨t, ht, htphase⟩ := run_overLimit hu huclock huabsent
  obtain ⟨v, hv, hvclock, hvlength, hvkeep⟩ := @run_loginCrowd cfg (fresh 0) is rfl
    hnodup (fun _ _ => ⟨rfl, rfl⟩) (by rw [hlen]; exact (Nat.zero_add _).le)
  obtain ⟨hvnone, hvphase⟩ := hvkeep 0 hfirst
  obtain ⟨w, hw, hwclock, hwsame, hwabsent⟩ := @guesses_behind cfg v hvclock
    (fun id => hvphase id) hvnone (by rw [hvlength, hlen]; exact Nat.le_add_left _ _) m
  obtain ⟨x, hx, hxphase⟩ := run_overLimit hw hwclock hwabsent
  have hcard : (clients (overLimit m)).card ≤ n :=
    (Finset.card_le_card (clients_overLimit m)).trans ((Nat.succ_le_succ (Nat.zero_le _)).trans hn)
  have hcard' : (clients (loginCrowd is ++ overLimit m)).card ≤ n := by
    rw [clients_append]
    calc _ ≤ (clients (loginCrowd is)).card + (clients (overLimit m)).card := Finset.card_union_le _ _
      _ ≤ (is.map address).toFinset.card + ({address 0} : Finset String).card :=
        Nat.add_le_add (Finset.card_le_card (clients_loginCrowd is))
          (Finset.card_le_card (clients_overLimit m))
      _ ≤ (is.map address).length + 1 := Nat.succ_le_succ (List.toFinset_card_le _)
      _ ≤ n := by
        rw [List.length_map, hlen]
        exact hn
  have hboth : (loginCrowd is ++ overLimit m).foldlM (step cfg) (fresh 0) = some x := by
    rw [List.foldlM_append, hv]
    exact hx
  have hown : (overLimit m).filter (concerns (address 0)) =
      (loginCrowd is ++ overLimit m).filter (concerns (address 0)) := by
    rw [List.filter_append, concerns_loginCrowd hfirst, List.nil_append]
  have hsame := h (address 0) 0 0 _ _ t x ht hboth hcard hcard' hown (loginOf 0 m) (client_loginOf 0 m)
  have hin : letIn cfg none (loginOf 0 m) 0 = .inside := rfl
  rw [htphase, hxphase, hwsame, hvnone, show (fresh 0).failures.lookup (address 0) = none from rfl,
    hin] at hsame
  exact absurd (letIn_inside hsame) (by rw [hulocked]; exact nofun)

/-- The limiter isolates so many clients exactly if its table has room for them. -/
theorem isolated_iff {n : ℕ} (hlock : 0 < cfg.lockDuration) (hwindow : 0 ≤ cfg.window) :
    Isolated cfg n ↔ n ≤ maxTrackedLoginFailures := by
  refine ⟨fun h => ?_, isolated_of_le⟩
  by_contra hmany
  have hothers : ((List.range maxTrackedLoginFailures).map (· + 1)).map address = others := by
    rw [List.map_map]
    rfl
  have hlen : ((List.range maxTrackedLoginFailures).map (· + 1)).length = maxTrackedLoginFailures := by
    rw [List.length_map, List.length_range]
  refine not_isolated hlock hwindow ?_ ?_ hlen (not_le.mp hmany) h
  · rw [hothers]
    exact others_nodup
  · rw [hothers]
    exact address_zero_not_mem

end

end NetBerth.LoginLimiter

namespace NetBerth.LimiterIsolation
open RateLimit LoginLimiter

/-- What a client is granted does not depend on the others in any two runs in which it
finds room in the tables; and that is so for all runs of so many clients exactly if the
tables have room for all of them. -/
theorem limiters_isolated_iff :
    (∀ rate burst key es es', FindsRoom key (newRateLimiter rate burst) es →
      FindsRoom key (newRateLimiter rate burst) es' → own key es = own key es' →
      decisions key (run (newRateLimiter rate burst) es).2 =
        decisions key (run (newRateLimiter rate burst) es').2) ∧
    (∀ rate burst n, RateLimit.Isolated rate burst n ↔ n ≤ maxTrackedRateLimitVisitors) ∧
    (∀ cfg client clock clock' es es' s s', AlwaysRecorded cfg client (fresh clock) es →
      AlwaysRecorded cfg client (fresh clock') es' →
      es.foldlM (step cfg) (fresh clock) = some s → es'.foldlM (step cfg) (fresh clock') = some s' →
      es.filter (concerns client) = es'.filter (concerns client) →
      ∀ l, l.client = client → s.phase l = s'.phase l) ∧
    ∀ cfg n, 0 < cfg.lockDuration → 0 ≤ cfg.window →
      (LoginLimiter.Isolated cfg n ↔ n ≤ maxTrackedLoginFailures) :=
  ⟨fun _ _ _ _ _ => RateLimit.isolated_of_room, fun _ _ _ => RateLimit.isolated_iff,
    fun _ _ _ _ _ _ _ _ => LoginLimiter.isolated_of_room, fun _ _ => LoginLimiter.isolated_iff⟩

/-- The default configuration, with as many clients as the tables have room for. -/
theorem limiters_isolated_default :
    RateLimit.Isolated 100 200 100000 ∧ LoginLimiter.Isolated router 100000 :=
  ⟨(limiters_isolated_iff.2.1 100 200 100000).mpr le_rfl,
    (limiters_isolated_iff.2.2.2 router 100000 (by norm_num [router])
      (by norm_num [router])).mpr le_rfl⟩

/-- One client more. -/
theorem crowds_interfere :
    ¬RateLimit.Isolated 100 200 100001 ∧ ¬LoginLimiter.Isolated router 100001 := by
  have hmany : ¬100001 ≤ maxTrackedRateLimitVisitors := by decide
  have hmany' : ¬100001 ≤ maxTrackedLoginFailures := by decide
  constructor
  · rwa [RateLimit.isolated_iff]
  · rwa [LoginLimiter.isolated_iff (by norm_num [router]) (by norm_num [router])]

end NetBerth.LimiterIsolation
