import NetBerth.EngineInstances
import NetBerth.Transitions

/-!
# The jobs of the DDNS engine

A job updates once when it starts and then with each tick, until its context is cancelled. It does
not look at the context before it updates, and an update goes on after a cancellation; where there
are a tick and a cancellation, `select` takes any of the two. A call cancels the job and returns,
so that an update with the configuration before may start later, or end later than one with the new
configuration. It is different where no such job was before or in an update when it was cancelled,
and where none takes a tick afterwards.

Ticks come at any time. A call holds the lock from its first line to its last.
-/
namespace NetBerth.DDNSJobs
open EngineInstances InstanceMap InstanceMap.Instances ModuleLoading Rules SqlTable Transitions

abbrev Bytes := List UInt8

/-! ## Jobs -/

/-- Where a goroutine is: before its first update, in `getPublicIP`, in `updateDNS`, in `UpdateIP`,
in `select`, or at its end. -/
inductive Phase where
  | starting
  | looking
  | updating (ip : Bytes)
  | storing (ip : Bytes)
  | waiting
  | ended
  deriving DecidableEq, Repr

/-- A goroutine with its context, and whether its ticker has a tick for it. -/
structure Job where
  handle : ℕ
  cfg : DDNSConfig
  phase : Phase
  tick : Bool

inductive Move where
  | begin
  | found (ip : Bytes)
  | unfound
  | updated (ok : Bool)
  | stored
  | tick
  | takeTick
  | takeDone
  deriving DecidableEq, Repr

def Job.move (cancelled : Bool) (j : Job) : Move → Option Job
  | .begin => if j.phase = .starting then some { j with phase := .looking } else none
  | .found ip =>
    if j.phase = .looking ∧ ip ≠ [] then some { j with phase := .updating ip } else none
  | .unfound => if j.phase = .looking then some { j with phase := .waiting } else none
  | .updated ok =>
    match j.phase with
    | .updating ip => some { j with phase := if ok then .storing ip else .waiting }
    | _ => none
  | .stored =>
    match j.phase with
    | .storing _ => some { j with phase := .waiting }
    | _ => none
  | .tick => if j.phase = .ended then none else some { j with tick := true }
  | .takeTick =>
    if j.phase = .waiting ∧ j.tick then some { j with phase := .looking, tick := false } else none
  | .takeDone =>
    if j.phase = .waiting ∧ cancelled then some { j with phase := .ended } else none

/-! ## The engine -/

/-- An update that was started, and what was last given for its ID then. -/
structure Started where
  cfg : DDNSConfig
  given : Option DDNSConfig

/-- `given` is what was last given for an ID, `last` the configuration of the last update that was
completed since. -/
structure State where
  engine : Instances ID DDNSConfig
  jobs : List Job
  updateIPs : List (ID × Bytes)
  given : ID → Option DDNSConfig
  started : List Started
  last : ID → Option DDNSConfig

def newJob (handle : ℕ) (cfg : DDNSConfig) : Job := ⟨handle, cfg, .starting, false⟩

/-- After `Start`. -/
def initial (rows : Option (Table DDNSConfig)) : State where
  engine := ddns.start Instances.empty rows
  jobs := (ddns.start Instances.empty rows).running.map fun r => newJob r.1 r.2
  updateIPs := []
  given := lastGiven rows []
  started := []
  last _ := none

def idOf : Call DDNSConfig → ID
  | .reload cfg => cfg.id
  | .remove id => id

/-- The goroutines a call starts. -/
def startedBy (e : Instances ID DDNSConfig) : Call DDNSConfig → List Job
  | .reload cfg => if cfg.enabled then [newJob e.next cfg] else []
  | .remove _ => []

namespace State

def cancelled (s : State) (j : Job) : Bool := s.engine.running.all fun r => r.1 ≠ j.handle

/-- What is seen of a move. -/
def observe (s : State) (j : Job) : Move → State
  | .found _ => { s with started := s.started ++ [⟨j.cfg, s.given j.cfg.id⟩] }
  | .updated _ => { s with last := Function.update s.last j.cfg.id (some j.cfg) }
  | .stored =>
    match j.phase with
    | .storing ip => { s with updateIPs := s.updateIPs ++ [(j.cfg.id, ip)] }
    | _ => s
  | _ => s

end State

inductive Event where
  | call (c : Call DDNSConfig)
  | job (i : ℕ) (m : Move)

def step (s : State) : Event → Option State
  | .call c =>
    some { s with
      engine := ddns.call s.engine c
      jobs := s.jobs ++ startedBy s.engine c
      given := giveCall s.given c
      last := Function.update s.last (idOf c) none }
  | .job i m => do
    let j ← s.jobs[i]?
    let j' ← j.move (s.cancelled j) m
    return { s.observe j m with jobs := s.jobs.set i j' }

/-- No update was started with a configuration that was superseded, and the last one completed
since the configuration of an enabled ID was given was with this configuration. -/
structure NoStaleUpdate (s : State) : Prop where
  started : ∀ e ∈ s.started, e.given = some e.cfg
  last : ∀ id cfg, effective ddns.runs s.given id ≠ none → s.last id = some cfg →
    s.given id = some cfg

/-! ## Undisturbed runs -/

/-- Neither before an update nor in one. -/
def Phase.Quiet : Phase → Prop
  | starting | looking | updating _ => False
  | storing _ | waiting | ended => True

def Phase.InUpdate : Phase → Prop
  | updating _ => True
  | _ => False

instance decidableQuiet (p : Phase) : Decidable p.Quiet := by
  cases p <;> unfold Phase.Quiet <;> infer_instance

instance decidableInUpdate (p : Phase) : Decidable p.InUpdate := by
  cases p <;> unfold Phase.InUpdate <;> infer_instance

/-- The job has the configuration that was last given, or it will not start an update, and will
complete none where one is to run. -/
def Settled (given : ID → Option DDNSConfig) (j : Job) : Prop :=
  given j.cfg.id = some j.cfg ∨ j.phase.Quiet ∨
    j.phase.InUpdate ∧ effective ddns.runs given j.cfg.id = none

/-- A call settles the jobs of its ID, and `select` takes no tick for a configuration that was
superseded. -/
def Undisturbed (s : State) : Event → Prop
  | .call c => ∀ j ∈ s.jobs, j.cfg.id = idOf c → Settled (giveCall s.given c) j
  | .job i .takeTick => ∀ j ∈ s.jobs[i]?, s.cancelled j = true → s.given j.cfg.id = some j.cfg
  | .job _ _ => True

/-! ## What a run keeps -/

theorem move_keeps {cancelled : Bool} {j j' : Job} {m : Move} (h : j.move cancelled m = some j') :
    j'.handle = j.handle ∧ j'.cfg = j.cfg := by
  unfold Job.move at h
  split at h
  all_goals (split at h <;> first | (cases h; exact ⟨rfl, rfl⟩) | cases h)

theorem running_cancelEntry {e : Instances ID DDNSConfig} {id : ID} {r : ℕ × DDNSConfig}
    (h : r ∈ (e.cancelEntry id).running) : r ∈ e.running := by
  rw [cancelEntry] at h
  cases hentry : e.entries.select id with
  | none => rwa [hentry] at h
  | some entry =>
    rw [hentry] at h
    exact (List.mem_filter.mp h).1

theorem next_call (e : Instances ID DDNSConfig) (c : Call DDNSConfig) :
    (ddns.call e c).next = e.next + (startedBy e c).length := by
  cases c with
  | reload cfg =>
    have hnext := (Owns.entries_cancelEntry e cfg.id).2
    change (if cfg.enabled then (e.cancelEntry cfg.id).start cfg.id cfg
      else (e.cancelEntry cfg.id).erase cfg.id).next = _
    rw [startedBy]
    split_ifs
    · exact congrArg (· + 1) hnext
    · exact hnext
  | remove id =>
    rw [Engine.call, ddns_disciplined.remove]
    exact (Owns.entries_cancelEntry e id).2

/-- What runs after a call ran before, or was started by it. -/
theorem running_call {e : Instances ID DDNSConfig} {c : Call DDNSConfig} {r : ℕ × DDNSConfig}
    (h : r ∈ (ddns.call e c).running) : r ∈ e.running ∨ ∃ cfg, c = .reload cfg ∧ r = (e.next, cfg) := by
  cases c with
  | reload cfg =>
    have hnext := (Owns.entries_cancelEntry e cfg.id).2
    change r ∈ (if cfg.enabled then (e.cancelEntry cfg.id).start cfg.id cfg
      else (e.cancelEntry cfg.id).erase cfg.id).running at h
    split_ifs at h
    · rcases List.mem_append.mp h with h | h
      · exact .inl (running_cancelEntry h)
      · rw [List.mem_singleton, hnext] at h
        exact .inr ⟨cfg, rfl, h⟩
    · exact .inl (running_cancelEntry h)
  | remove id =>
    rw [Engine.call, ddns_disciplined.remove] at h
    exact .inl (running_cancelEntry h)

/-- A call starts at most one job, with the configuration it gives. -/
theorem mem_startedBy {e : Instances ID DDNSConfig} {c : Call DDNSConfig} {j : Job}
    (h : j ∈ startedBy e c) : ∃ cfg, c = .reload cfg ∧ j = newJob e.next cfg := by
  cases c with
  | reload cfg =>
    rw [startedBy] at h
    split_ifs at h
    · exact ⟨cfg, rfl, List.mem_singleton.mp h⟩
    · cases h
  | remove id => cases h

theorem giveCall_of_ne {given : ID → Option DDNSConfig} {c : Call DDNSConfig} {id : ID}
    (h : id ≠ idOf c) : giveCall given c id = given id := by
  cases c <;> exact Function.update_of_ne h ..

theorem giveCall_reload (given : ID → Option DDNSConfig) (cfg : DDNSConfig) :
    giveCall given (.reload cfg) cfg.id = some cfg := Function.update_self ..

structure Inv (s : State) : Prop where
  owns : Owns (effective ddns.runs s.given) s.engine
  keyed : ∀ id cfg, s.given id = some cfg → cfg.id = id
  fresh : ∀ j ∈ s.jobs, j.handle < s.engine.next
  runs : ∀ j ∈ s.jobs, ∀ cfg, (j.handle, cfg) ∈ s.engine.running → cfg = j.cfg
  settled : ∀ j ∈ s.jobs, Settled s.given j
  noStale : NoStaleUpdate s

/-- What is not cancelled has not been superseded. -/
theorem Inv.current {s : State} (hs : Inv s) {j : Job} (hj : j ∈ s.jobs)
    (hrun : s.cancelled j = false) : s.given j.cfg.id = some j.cfg := by
  simp only [State.cancelled, List.all_eq_false, decide_eq_true_eq, not_not] at hrun
  obtain ⟨⟨h, cfg⟩, hmem, rfl⟩ := hrun
  obtain rfl := hs.runs j hj cfg hmem
  obtain ⟨id, -, heffective⟩ := (hs.owns.runs _ _).mp hmem
  have hgiven := (Option.filter_eq_some_iff.mp heffective).1
  rwa [hs.keyed id _ hgiven]

/-- What runs after a call runs with the configuration of its job. -/
theorem Inv.runs_call {s : State} (hs : Inv s) (c : Call DDNSConfig) :
    ∀ j ∈ s.jobs ++ startedBy s.engine c, ∀ cfg,
      (j.handle, cfg) ∈ (ddns.call s.engine c).running → cfg = j.cfg := by
  intro j hj cfg hrun
  rcases running_call hrun with hrun | ⟨cfg', rfl, heq⟩
  · rcases List.mem_append.mp hj with hj | hj
    · exact hs.runs j hj cfg hrun
    · obtain ⟨_, -, rfl⟩ := mem_startedBy hj
      obtain ⟨id, hentry, -⟩ := (hs.owns.runs _ _).mp hrun
      exact absurd rfl (hs.owns.fresh id _ hentry).ne
  · obtain ⟨hhandle, rfl⟩ := Prod.mk.inj heq
    rcases List.mem_append.mp hj with hj | hj
    · exact absurd hhandle (hs.fresh j hj).ne
    · obtain ⟨cfg', hreload, rfl⟩ := mem_startedBy hj
      cases hreload
      rfl

/-- Jobs of other IDs do not see a call, and those of its ID are settled by the condition. -/
theorem Inv.settled_call {s : State} (hs : Inv s) {c : Call DDNSConfig}
    (hok : Undisturbed s (.call c)) :
    ∀ j ∈ s.jobs ++ startedBy s.engine c, Settled (giveCall s.given c) j := by
  intro j hj
  rcases List.mem_append.mp hj with hj | hj
  · by_cases hid : j.cfg.id = idOf c
    · exact hok j hj hid
    · have hsettled := hs.settled j hj
      unfold Settled effective at hsettled ⊢
      rwa [giveCall_of_ne hid]
  · obtain ⟨cfg, rfl, rfl⟩ := mem_startedBy hj
    exact .inl (giveCall_reload s.given cfg)

/-- A call completes no update, and forgets the last one of its ID. -/
theorem NoStaleUpdate.call {s t : State} (hs : NoStaleUpdate s) {c : Call DDNSConfig}
    (ht : step s (.call c) = some t) : NoStaleUpdate t := by
  cases ht
  refine ⟨hs.started, fun id cfg hruns hlast => ?_⟩
  change effective ddns.runs (giveCall s.given c) id ≠ none at hruns
  change Function.update s.last (idOf c) none id = some cfg at hlast
  change giveCall s.given c id = some cfg
  by_cases hid : id = idOf c
  · rw [hid, Function.update_self] at hlast
    cases hlast
  · rw [Function.update_of_ne hid] at hlast
    unfold effective at hruns
    rw [giveCall_of_ne hid] at hruns ⊢
    exact hs.last id cfg hruns hlast

theorem Inv.call {s : State} (hs : Inv s) {c : Call DDNSConfig} (hok : Undisturbed s (.call c))
    {t : State} (ht : step s (.call c) = some t) : Inv t := by
  have hnoStale := hs.noStale.call ht
  cases ht
  constructor
  · exact ddns_disciplined.call_owns hs.owns c
  · exact GivenByKey.giveCall hs.keyed c
  · intro j hj
    change j.handle < (ddns.call s.engine c).next
    rw [next_call]
    rcases List.mem_append.mp hj with hj | hj
    · exact (hs.fresh j hj).trans_le (Nat.le_add_right ..)
    · obtain ⟨cfg, rfl, rfl⟩ := mem_startedBy hj
      have hlength := List.length_pos_of_mem hj
      change s.engine.next < _
      omega
  · exact hs.runs_call c
  · exact hs.settled_call hok
  · exact hnoStale

/-- A move leaves the configuration that was given, and with it what settles the jobs. -/
theorem observe_given (s : State) (j : Job) (m : Move) :
    (s.observe j m).given = s.given ∧ (s.observe j m).engine = s.engine := by
  unfold State.observe
  split <;> try exact ⟨rfl, rfl⟩
  split <;> exact ⟨rfl, rfl⟩

/-- The mover is settled after the move: to start an update it has to be in one that is not
superseded, and to take a tick too. -/
theorem Inv.settled_move {s : State} (hs : Inv s) {j j' : Job} {m : Move} (hj : j ∈ s.jobs)
    (htake : m = .takeTick → s.cancelled j = true → s.given j.cfg.id = some j.cfg)
    (hmove : j.move (s.cancelled j) m = some j') : Settled s.given j' := by
  have hcfg := (move_keeps hmove).2
  unfold Settled
  rw [hcfg]
  rcases hs.settled j hj with hcurrent | hsettled
  · exact .inl hcurrent
  · cases m with
    | begin =>
      obtain ⟨hphase, -⟩ := of_guard hmove
      simp [hphase, Phase.Quiet, Phase.InUpdate] at hsettled
    | found ip =>
      obtain ⟨⟨hphase, -⟩, -⟩ := of_guard hmove
      simp [hphase, Phase.Quiet, Phase.InUpdate] at hsettled
    | unfound =>
      obtain ⟨hphase, -⟩ := of_guard hmove
      simp [hphase, Phase.Quiet, Phase.InUpdate] at hsettled
    | updated ok =>
      rw [Job.move] at hmove
      split at hmove <;> cases hmove
      cases ok <;> exact .inr (.inl trivial)
    | stored =>
      rw [Job.move] at hmove
      split at hmove <;> cases hmove
      exact .inr (.inl trivial)
    | tick =>
      rw [Job.move] at hmove
      split at hmove <;> cases hmove
      exact .inr hsettled
    | takeTick =>
      left
      cases hcancelled : s.cancelled j with
      | true => exact htake rfl hcancelled
      | false => exact hs.current hj hcancelled
    | takeDone =>
      obtain ⟨-, rfl⟩ := of_guard hmove
      exact .inr (.inl trivial)

/-- An update is started by a job that is in `getPublicIP`, and completed by one in `updateDNS`. -/
theorem Inv.noStale_move {s : State} (hs : Inv s) {j j' : Job} {m : Move} (hj : j ∈ s.jobs)
    (hmove : j.move (s.cancelled j) m = some j') : NoStaleUpdate (s.observe j m) := by
  have hsettled := hs.settled j hj
  cases m with
  | found ip =>
    obtain ⟨⟨hphase, -⟩, -⟩ := of_guard hmove
    simp only [Settled, hphase, Phase.Quiet, Phase.InUpdate, false_and, or_false] at hsettled
    refine ⟨fun e he => ?_, hs.noStale.last⟩
    rcases List.mem_append.mp he with he | he
    · exact hs.noStale.started e he
    · rw [List.mem_singleton.mp he]
      exact hsettled
  | updated ok =>
    rw [Job.move] at hmove
    split at hmove <;> cases hmove
    rename_i ip hphase
    refine ⟨hs.noStale.started, fun id cfg hruns hlast => ?_⟩
    change effective ddns.runs s.given id ≠ none at hruns
    change Function.update s.last j.cfg.id (some j.cfg) id = some cfg at hlast
    change s.given id = some cfg
    by_cases hid : id = j.cfg.id
    · subst hid
      rw [Function.update_self, Option.some.injEq] at hlast
      simp only [Settled, hphase, Phase.Quiet, false_or] at hsettled
      rw [← hlast]
      exact hsettled.resolve_right fun h => hruns h.2
    · rw [Function.update_of_ne hid] at hlast
      exact hs.noStale.last id cfg hruns hlast
  | stored =>
    rw [Job.move] at hmove
    split at hmove <;> cases hmove
    rename_i ip hphase
    rw [State.observe, hphase]
    exact ⟨hs.noStale.started, hs.noStale.last⟩
  | begin | unfound | tick | takeTick | takeDone => exact hs.noStale

theorem Inv.job {s t : State} (hs : Inv s) {i : ℕ} {m : Move} (hok : Undisturbed s (.job i m))
    (ht : step s (.job i m) = some t) : Inv t := by
  rw [step] at ht
  simp only [Option.bind_eq_bind, Option.bind_eq_some_iff, Option.pure_def, Option.some.injEq] at ht
  obtain ⟨j, hj, j', hmove, rfl⟩ := ht
  have hmem := List.mem_of_getElem? hj
  obtain ⟨hgiven, hengine⟩ := observe_given s j m
  obtain ⟨hhandle, hcfg⟩ := move_keeps hmove
  have hjobs {p : Job → Prop} (hall : ∀ k ∈ s.jobs, p k) (hp : p j') :
      ∀ k ∈ s.jobs.set i j', p k := fun k hk => (List.mem_or_eq_of_mem_set hk).elim (hall k) (· ▸ hp)
  constructor
  · rw [hgiven, hengine]
    exact hs.owns
  · rw [hgiven]
    exact hs.keyed
  · rw [hengine]
    exact hjobs hs.fresh (hhandle ▸ hs.fresh j hmem)
  · rw [hengine]
    refine hjobs hs.runs fun cfg hrun => ?_
    rw [hcfg]
    exact hs.runs j hmem cfg (hhandle ▸ hrun)
  · rw [hgiven]
    refine hjobs hs.settled (hs.settled_move hmem ?_ hmove)
    rintro rfl hcancelled
    exact hok j hj hcancelled
  · have hnoStale := hs.noStale_move hmem hmove
    exact ⟨hnoStale.started, hnoStale.last⟩

theorem inv_initial (rows : Option (Table DDNSConfig)) : Inv (initial rows) := by
  have howns : Owns (effective ddns.runs (initial rows).given) (initial rows).engine :=
    ddns_disciplined.state_owns rows []
  have hjob : ∀ j ∈ (initial rows).jobs, ∃ id,
      Entry.mk id j.handle ∈ (initial rows).engine.entries.rows ∧
        effective ddns.runs (initial rows).given id = some j.cfg := by
    intro j hj
    obtain ⟨r, hr, rfl⟩ := List.mem_map.mp hj
    exact (howns.runs _ _).mp hr
  constructor
  · exact howns
  · exact givenByKey_lastGiven rows []
  · intro j hj
    obtain ⟨id, hentry, -⟩ := hjob j hj
    exact howns.fresh id _ hentry
  · intro j hj cfg hrun
    obtain ⟨id, hentry, heffective⟩ := hjob j hj
    obtain ⟨id', hentry', heffective'⟩ := (howns.runs _ _).mp hrun
    rw [howns.inj id' id _ hentry' hentry, heffective] at heffective'
    exact (Option.some.inj heffective').symm
  · intro j hj
    obtain ⟨id, -, heffective⟩ := hjob j hj
    have hgiven := (Option.filter_eq_some_iff.mp heffective).1
    have hid : j.cfg.id = id := givenByKey_lastGiven rows [] id j.cfg hgiven
    refine .inl ?_
    rwa [hid]
  · constructor
    · intro e he
      cases he
    · intro id cfg _ hlast
      cases hlast

/-- In an undisturbed run every update is started with the configuration that was last given, and
the last one that is completed was with it. -/
theorem no_stale_update {rows : Option (Table DDNSConfig)} {s : State}
    (h : Run step Undisturbed (initial rows) s) : NoStaleUpdate s := by
  refine (Run.invariant (I := Inv) ?_ h (inv_initial rows)).noStale
  rintro s (c | ⟨i, m⟩) t hs hok ht
  · exact hs.call hok ht
  · exact hs.job hok ht

/-! A job with the sub-domain `old` gets another sub-domain. -/

def hostConfig (subDomain : String) : DDNSConfig :=
  ⟨"1", "home", "duckdns", "example.com", subDomain, "A", 600, fun _ => none, "", "", "", 300, true⟩

def oldRows : Option (Table DDNSConfig) := some (.singleton (hostConfig "old"))

/-- It is in `getPublicIP` when it is cancelled, and goes on to its provider. -/
theorem superseded_is_started : ∃ s, Run step Always (initial oldRows) s ∧ ¬NoStaleUpdate s := by
  refine ⟨_, @Run.of_foldlM _ _ _ _ _
    [.job 0 .begin, .call (.reload (hostConfig "new")), .job 0 (.found [0x31])] rfl, fun h => ?_⟩
  have hgiven := h.started ⟨hostConfig "old", some (hostConfig "new")⟩ (List.mem_singleton.mpr rfl)
  have hsub := congrArg (Option.map DDNSConfig.subDomain) hgiven
  revert hsub
  decide

/-- It is in `select` when it is cancelled. -/
theorem run_undisturbed :
    ∃ s, Run step Undisturbed (initial oldRows) s ∧ s.started.length = 2 := by
  have hfirst := @Run.of_foldlM_forall _ _ step Undisturbed (initial oldRows) _
    [.job 0 .begin, .job 0 (.found [0x31]), .job 0 (.updated true), .job 0 .stored] rfl
    (by simp [Undisturbed])
  have hcall := hfirst.tail ⟨.call (.reload (hostConfig "new")), ?_, rfl⟩
  · exact ⟨_, hcall.trans (@Run.of_foldlM_forall _ _ step Undisturbed _ _
      [.job 0 .takeDone, .job 1 .begin, .job 1 (.found [0x32]), .job 1 (.updated true)] rfl
      (by simp [Undisturbed])), rfl⟩
  · intro j hj _
    rw [List.mem_singleton.mp hj]
    exact .inr (.inl trivial)

theorem no_stale_update_old :
    ∃ s, Run step Undisturbed (initial oldRows) s ∧ NoStaleUpdate s ∧ s.started.length = 2 := by
  obtain ⟨s, hrun, hlength⟩ := run_undisturbed
  exact ⟨s, hrun, no_stale_update hrun, hlength⟩

end NetBerth.DDNSJobs
