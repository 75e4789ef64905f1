import NetBerth.InstanceMap
import NetBerth.ModuleLoading

/-!
# The instances of the engines

The forward, DDNS, STUN and cron engines keep what they run in a map from ids.
`Reload` and `Remove` cancel what the map has and put the new instance in its
place, in an order of their own: forward and DDNS overwrite the entry, or delete
it when the configuration is disabled; STUN and cron delete it first. A cron job
is an entry of the scheduler, which refuses a schedule it cannot parse. All four
come to the same: the map owns what runs, and each id runs with what was last
given for it.
-/
namespace NetBerth.EngineInstances
open SqlTable Rules ModuleLoading InstanceMap InstanceMap.Instances

instance : Keyed ForwardRule ID := ⟨fun rule => rule.id⟩
instance : Keyed DDNSConfig ID := ⟨DDNSConfig.id⟩
instance : Keyed CronJob ID := ⟨CronJob.id⟩

/-! ## The engines

What an instance runs is the goroutine that was started with the context: the
handle stands for the context, or for the entry of the scheduler. -/

/-- The loop of `Start` over the rows it has loaded; without them it fails. -/
def startEach {ν : Type} [Keyed ν ID] (enabled : ν → Bool)
    (startOne : Instances ID ν → ν → Instances ID ν) (e : Instances ID ν) :
    Option (Table ν) → Instances ID ν
  | none => e
  | some t => t.rows.foldl (fun e cfg => if enabled cfg then startOne e cfg else e) e

namespace Forward

def startRule (e : Instances ID ForwardRule) (rule : ForwardRule) : Instances ID ForwardRule :=
  e.start rule.id rule

def start : Instances ID ForwardRule → Option (Table ForwardRule) → Instances ID ForwardRule :=
  startEach (fun rule => rule.enabled) startRule

def reload (e : Instances ID ForwardRule) (rule : ForwardRule) : Instances ID ForwardRule :=
  let e := e.cancelEntry rule.id
  if rule.enabled then startRule e rule else e.erase rule.id

def remove (e : Instances ID ForwardRule) (id : ID) : Instances ID ForwardRule := e.release id

/-- One rule of the watchdog's loop. -/
def tickRule (e : Instances ID ForwardRule) (rule : ForwardRule) : Instances ID ForwardRule :=
  match e.entries.select rule.id with
  | some inst => if rule.enabled then e else (e.cancel inst.handle).erase rule.id
  | none => if rule.enabled then startRule e rule else e

end Forward

namespace DDNS

def startJob (e : Instances ID DDNSConfig) (cfg : DDNSConfig) : Instances ID DDNSConfig :=
  e.start cfg.id cfg

def start : Instances ID DDNSConfig → Option (Table DDNSConfig) → Instances ID DDNSConfig :=
  startEach DDNSConfig.enabled startJob

def reload (e : Instances ID DDNSConfig) (cfg : DDNSConfig) : Instances ID DDNSConfig :=
  let e := e.cancelEntry cfg.id
  if cfg.enabled then startJob e cfg else e.erase cfg.id

def remove (e : Instances ID DDNSConfig) (id : ID) : Instances ID DDNSConfig := e.release id

end DDNS

namespace STUN

def startTunnel (e : Instances ID STUNTunnel) (t : STUNTunnel) : Instances ID STUNTunnel :=
  e.start t.id t

def start : Instances ID STUNTunnel → Option (Table STUNTunnel) → Instances ID STUNTunnel :=
  startEach STUNTunnel.enabled startTunnel

def reload (e : Instances ID STUNTunnel) (t : STUNTunnel) : Instances ID STUNTunnel :=
  let e := e.release t.id
  if t.enabled then startTunnel e t else e

def remove (e : Instances ID STUNTunnel) (id : ID) : Instances ID STUNTunnel := e.release id

end STUN

namespace Cron

/-- `AddFunc` gives the entry a number of its own, if it can parse the schedule. -/
def addJob (parses : String → Bool) (e : Instances ID CronJob) (job : CronJob) :
    Instances ID CronJob :=
  if parses job.schedule then e.start job.id job else e

def start (parses : String → Bool) :
    Instances ID CronJob → Option (Table CronJob) → Instances ID CronJob :=
  startEach CronJob.enabled (addJob parses)

def reload (parses : String → Bool) (e : Instances ID CronJob) (job : CronJob) :
    Instances ID CronJob :=
  let e := e.release job.id
  if job.enabled then addJob parses e job else e

def remove (e : Instances ID CronJob) (id : ID) : Instances ID CronJob := e.release id

end Cron

/-! ## What an engine owns -/

section
variable {ν : Type}

/-- The entries of the map are the instances that run, at most one for each id,
with the configuration last given for it if that is one that runs. -/
structure OwnsWhatRuns (runs : ν → Bool) (given : ID → Option ν) (e : Instances ID ν) : Prop where
  bijective : Set.BijOn Entry.handle {x | x ∈ e.entries.rows} {h | h ∈ e.running.map Prod.fst}
  distinct : (e.running.map Prod.fst).Nodup
  single : ∀ x ∈ e.entries.rows, ∀ y ∈ e.entries.rows, x.key = y.key → x = y
  configured : ∀ x ∈ e.entries.rows, ∀ cfg, (x.handle, cfg) ∈ e.running → given x.key = some cfg
  absent : ∀ id, (∀ cfg ∈ given id, runs cfg = false) → ∀ x ∈ e.entries.rows, x.key ≠ id
  present : ∀ id, ∀ cfg ∈ given id, runs cfg → ∃ x ∈ e.entries.rows, x.key = id

/-- What runs of what was given. -/
def effective (runs : ν → Bool) (given : ID → Option ν) (id : ID) : Option ν :=
  (given id).filter runs

theorem effective_update (runs : ν → Bool) (given : ID → Option ν) (id : ID) (v : Option ν) :
    effective runs (Function.update given id v) =
      Function.update (effective runs given) id (v.filter runs) := by
  funext x
  by_cases hx : x = id
  · subst hx
    simp [effective]
  · simp [effective, hx, Function.update_of_ne]

theorem ownsWhatRuns_of_owns {runs : ν → Bool} {given : ID → Option ν} {e : Instances ID ν}
    (he : Owns (effective runs given) e) : OwnsWhatRuns runs given e where
  bijective := he.bijOn
  distinct := he.nodup
  single x hx y hy := Table.eq_of_key hx hy
  configured x hx cfg hcfg := by
    obtain ⟨k, hk, hf⟩ := (he.runs x.handle cfg).mp hcfg
    rw [he.inj x.key k x.handle hx hk]
    exact (Option.filter_eq_some_iff.mp hf).1
  absent id hid := by
    rintro x hx rfl
    obtain ⟨cfg, hcfg⟩ := Option.isSome_iff_exists.mp ((he.entry x.key).mp ⟨x.handle, hx⟩)
    obtain ⟨hgiven, hruns⟩ := Option.filter_eq_some_iff.mp hcfg
    simp [hid cfg hgiven] at hruns
  present id cfg hcfg hruns := by
    have hsome : effective runs given id = some cfg :=
      Option.filter_eq_some_iff.mpr ⟨hcfg, hruns⟩
    obtain ⟨h, hmem⟩ := (he.entry id).mpr (by simp [hsome])
    exact ⟨⟨id, h⟩, hmem, rfl⟩

end

/-! ## One discipline -/

/-- An engine: the configurations it runs, and its methods. -/
structure Engine (ν : Type) [Keyed ν ID] where
  runs : ν → Bool
  start : Instances ID ν → Option (Table ν) → Instances ID ν
  reload : Instances ID ν → ν → Instances ID ν
  remove : Instances ID ν → ID → Instances ID ν

def forward : Engine ForwardRule where
  runs rule := rule.enabled
  start := Forward.start
  reload := Forward.reload
  remove := Forward.remove

def ddns : Engine DDNSConfig where
  runs := DDNSConfig.enabled
  start := DDNS.start
  reload := DDNS.reload
  remove := DDNS.remove

def stun : Engine STUNTunnel where
  runs := STUNTunnel.enabled
  start := STUN.start
  reload := STUN.reload
  remove := STUN.remove

def cron (parses : String → Bool) : Engine CronJob where
  runs job := job.enabled && parses job.schedule
  start := Cron.start parses
  reload := Cron.reload parses
  remove := Cron.remove

/-- A call after `Start`. -/
inductive Call (ν : Type) where
  | reload (cfg : ν)
  | remove (id : ID)

section
variable {ν : Type} [Keyed ν ID]

def Engine.call (E : Engine ν) (e : Instances ID ν) : Call ν → Instances ID ν
  | .reload cfg => E.reload e cfg
  | .remove id => E.remove e id

/-- `Start` on a new engine, and then these calls. -/
def Engine.state (E : Engine ν) (rows : Option (Table ν)) (calls : List (Call ν)) :
    Instances ID ν := calls.foldl E.call (E.start Instances.empty rows)

/-- The configuration last given for each id. -/
def give (given : ID → Option ν) (cfg : ν) : ID → Option ν :=
  Function.update given (Keyed.key cfg) (some cfg)

def giveCall (given : ID → Option ν) : Call ν → ID → Option ν
  | .reload cfg => give given cfg
  | .remove id => Function.update given id none

def lastGiven (rows : Option (Table ν)) (calls : List (Call ν)) : ID → Option ν :=
  calls.foldl giveCall ((rows.elim [] Table.rows).foldl give fun _ => none)

/-- What is given for an id is a configuration with this id. -/
def GivenByKey (given : ID → Option ν) : Prop := ∀ id, ∀ cfg ∈ given id, Keyed.key cfg = id

theorem GivenByKey.give {given : ID → Option ν} (h : GivenByKey given) (cfg : ν) :
    GivenByKey (give given cfg) := by
  intro id other hother
  by_cases hid : id = Keyed.key cfg
  · subst hid
    rw [EngineInstances.give, Function.update_self, Option.mem_some] at hother
    rw [hother]
  · rw [EngineInstances.give, Function.update_of_ne hid] at hother
    exact h id other hother

theorem GivenByKey.giveCall {given : ID → Option ν} (h : GivenByKey given) (c : Call ν) :
    GivenByKey (giveCall given c) := by
  cases c with
  | reload cfg => exact h.give cfg
  | remove id =>
    intro id' cfg hcfg
    by_cases hid : id' = id
    · subst hid
      rw [EngineInstances.giveCall, Function.update_self] at hcfg
      cases hcfg
    · rw [EngineInstances.giveCall, Function.update_of_ne hid] at hcfg
      exact h id' cfg hcfg

theorem givenByKey_lastGiven (rows : Option (Table ν)) (calls : List (Call ν)) :
    GivenByKey (lastGiven rows calls) := by
  have hrows : ∀ (l : List ν) (given : ID → Option ν), GivenByKey given →
      GivenByKey (l.foldl EngineInstances.give given) := by
    intro l
    induction l with
    | nil => exact fun _ h => h
    | cons cfg l ih => exact fun given h => ih _ (h.give cfg)
  have hcalls : ∀ (calls : List (Call ν)) (given : ID → Option ν), GivenByKey given →
      GivenByKey (calls.foldl EngineInstances.giveCall given) := by
    intro calls
    induction calls with
    | nil => exact fun _ h => h
    | cons c calls ih => exact fun given h => ih _ (h.giveCall c)
  exact hcalls calls _ (hrows _ _ fun _ _ hnone => by cases hnone)

/-- The methods as replacements in the map. -/
structure Disciplined (E : Engine ν) : Prop where
  start : ∀ e rows, E.start e rows = startEach E.runs (fun e cfg => e.start (Keyed.key cfg) cfg) e rows
  reload : ∀ e cfg, E.reload e cfg = e.replace (Keyed.key cfg) ((some cfg).filter E.runs)
  remove : ∀ e id, E.remove e id = e.replace id none

theorem Disciplined.call_owns {E : Engine ν} (h : Disciplined E) {given : ID → Option ν}
    {e : Instances ID ν} (he : Owns (effective E.runs given) e) (c : Call ν) :
    Owns (effective E.runs (giveCall given c)) (E.call e c) := by
  cases c with
  | reload cfg =>
    rw [Engine.call, h.reload, giveCall, give, effective_update]
    exact he.replace _ _
  | remove id =>
    rw [Engine.call, h.remove, giveCall, effective_update]
    exact he.replace _ _

/-- The ids of the rows are distinct, so `Start` overwrites no entry. -/
theorem startEach_owns {runs : ν → Bool} {l : List ν} {given : ID → Option ν} {e : Instances ID ν}
    (he : Owns (effective runs given) e) (hl : (l.map Keyed.key).Nodup)
    (hnone : ∀ cfg ∈ l, given (Keyed.key cfg) = none) :
    Owns (effective runs (l.foldl give given))
      (l.foldl (fun e cfg => if runs cfg then e.start (Keyed.key cfg) cfg else e) e) := by
  induction l generalizing given e with
  | nil => exact he
  | cons cfg l ih =>
    rw [List.map_cons, List.nodup_cons] at hl
    have hcfg : effective runs given (Keyed.key cfg) = none := by
      rw [effective, hnone cfg (List.mem_cons_self ..), Option.filter_none]
    have hstart : Owns (effective runs (give given cfg))
        (if runs cfg then e.start (Keyed.key cfg) cfg else e) := by
      rw [give, effective_update]
      cases hrun : runs cfg with
      | true =>
        rw [Option.filter_some_pos hrun, if_pos rfl]
        exact he.start hcfg cfg
      | false =>
        have hfilter : (some cfg).filter runs = effective runs given (Keyed.key cfg) := by
          rw [hcfg, Option.filter_some_neg (by simp [hrun])]
        rw [hfilter, Function.update_eq_self, if_neg Bool.false_ne_true]
        exact he
    refine ih hstart hl.2 fun other hother => ?_
    have hne : Keyed.key other ≠ Keyed.key cfg := fun heq =>
      hl.1 (List.mem_map.mpr ⟨other, hother, heq⟩)
    rw [give, Function.update_of_ne hne]
    exact hnone other (List.mem_cons_of_mem _ hother)

theorem Disciplined.state_owns {E : Engine ν} (h : Disciplined E) (rows : Option (Table ν))
    (calls : List (Call ν)) : Owns (effective E.runs (lastGiven rows calls)) (E.state rows calls) := by
  have hstart : Owns (effective E.runs ((rows.elim [] Table.rows).foldl give fun _ => none))
      (E.start Instances.empty rows) := by
    rw [h.start]
    cases rows with
    | none => exact Owns.empty
    | some t => exact startEach_owns Owns.empty t.nodup fun _ _ => rfl
  rw [Engine.state, lastGiven]
  generalize E.start Instances.empty rows = e at hstart
  generalize ((rows.elim [] Table.rows).foldl give fun _ => none) = given at hstart
  induction calls generalizing e given with
  | nil => exact hstart
  | cons c calls ih => exact ih _ _ (h.call_owns hstart c)

end

/-! ## The four engines -/

theorem forward_disciplined : Disciplined forward where
  start _ _ := rfl
  reload e rule := by
    rw [Option.filter_some]
    exact overwrite_eq_replace e rule.id rule rule.enabled
  remove e id := release_eq e id

theorem ddns_disciplined : Disciplined ddns where
  start _ _ := rfl
  reload e cfg := by
    rw [Option.filter_some]
    exact overwrite_eq_replace e cfg.id cfg cfg.enabled
  remove e id := release_eq e id

theorem stun_disciplined : Disciplined stun where
  start _ _ := rfl
  reload e t := by
    rw [Option.filter_some]
    exact release_start_eq_replace e t.id t t.enabled
  remove e id := release_eq e id

theorem if_enabled_addJob (parses : String → Bool) (e : Instances ID CronJob) (job : CronJob) :
    (if job.enabled then Cron.addJob parses e job else e) =
      if job.enabled && parses job.schedule then e.start job.id job else e := by
  rw [Cron.addJob]
  cases job.enabled <;> simp

theorem cron_disciplined (parses : String → Bool) : Disciplined (cron parses) where
  start e rows := by
    cases rows with
    | none => rfl
    | some t => simp only [cron, Cron.start, startEach, if_enabled_addJob]; rfl
  reload e job := by
    show Cron.reload parses e job = _
    rw [Option.filter_some, Cron.reload, if_enabled_addJob]
    exact release_start_eq_replace e job.id job _
  remove e id := release_eq e id

/-- After any calls on a started engine its map is what runs. -/
theorem engines_own_what_runs (parses : String → Bool) :
    (∀ rows calls, OwnsWhatRuns forward.runs (lastGiven rows calls) (forward.state rows calls)) ∧
    (∀ rows calls, OwnsWhatRuns ddns.runs (lastGiven rows calls) (ddns.state rows calls)) ∧
    (∀ rows calls, OwnsWhatRuns stun.runs (lastGiven rows calls) (stun.state rows calls)) ∧
    ∀ rows calls, OwnsWhatRuns (cron parses).runs (lastGiven rows calls)
      ((cron parses).state rows calls) := by
  refine ⟨?_, ?_, ?_, ?_⟩
  · intro rows calls
    exact ownsWhatRuns_of_owns (forward_disciplined.state_owns rows calls)
  · intro rows calls
    exact ownsWhatRuns_of_owns (ddns_disciplined.state_owns rows calls)
  · intro rows calls
    exact ownsWhatRuns_of_owns (stun_disciplined.state_owns rows calls)
  · intro rows calls
    exact ownsWhatRuns_of_owns ((cron_disciplined parses).state_owns rows calls)

end NetBerth.EngineInstances
