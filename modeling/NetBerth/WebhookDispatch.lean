import NetBerth.Goroutines
import NetBerth.JSONDecode
import NetBerth.WebhookDelivery

/-!
# The dispatcher of the webhooks

For each event that is published the dispatcher loads the endpoints and, for each one that is
enabled and wants the event, adds one to a wait group and tries to take one of sixteen slots. If
there is one it starts a delivery, which gives the slot back and leaves the wait group when it
is done; if not, the event is dropped for this endpoint, with a message.

Events are published by any number of goroutines at once.
-/
namespace NetBerth.WebhookDispatch
open Interleaving Goroutines JSONDecode WebhookDelivery

/-! ## The bus -/

def allEventTypes : List String :=
  ["forward", "proxy", "ddns", "stun", "wol", "cron", "acme", "storage"].flatMap fun resource =>
    [resource ++ ":created", resource ++ ":updated", resource ++ ":deleted"]

/-- The handler of the dispatcher, and those of others. -/
inductive Handler where
  | dispatch
  | other (n : ℕ)
  deriving DecidableEq, Repr

abbrev Bus := String → List Handler

def newBus : Bus := fun _ => []

namespace Bus

def subscribe (b : Bus) (eventType : String) (handler : Handler) : Bus :=
  Function.update b eventType (b eventType ++ [handler])

def subscribeAll (b : Bus) (handler : Handler) : Bus :=
  allEventTypes.foldl (fun b t => b.subscribe t handler) b

/-- The calls of the handlers, in their order. -/
def publish (b : Bus) (event : Event) : List (Handler × Event) :=
  (b event.type).map fun handler => (handler, event)

end Bus

def subscribeOthers (b : Bus) (others : List (String × ℕ)) : Bus :=
  others.foldl (fun b s => b.subscribe s.1 (.other s.2)) b

/-- The dispatcher subscribes between others. -/
def wired (before after : List (String × ℕ)) : Bus :=
  subscribeOthers ((subscribeOthers newBus before).subscribeAll .dispatch) after

/-- The events that the dispatcher is called with. -/
def dispatched (b : Bus) (events : List Event) : List Event :=
  events.flatMap fun event =>
    (b.publish event).filterMap fun call => if call.1 = .dispatch then some call.2 else none

theorem subscribe_apply (b : Bus) (eventType t : String) (handler : Handler) :
    b.subscribe eventType handler t = b t ++ if t = eventType then [handler] else [] := by
  rw [Bus.subscribe, Function.update_apply]
  split_ifs with ht
  · rw [ht]
  · rw [List.append_nil]

theorem subscribeOthers_apply (b : Bus) (others : List (String × ℕ)) (t : String) :
    (subscribeOthers b others t).filter (· = .dispatch) = (b t).filter (· = .dispatch) := by
  induction others generalizing b with
  | nil => rfl
  | cons s others ih =>
    refine (ih (b.subscribe s.1 (.other s.2))).trans ?_
    rw [subscribe_apply, List.filter_append]
    split_ifs <;> simp

theorem foldl_subscribe {types : List String} (hnodup : types.Nodup) (b : Bus) (t : String) :
    types.foldl (fun b t => b.subscribe t .dispatch) b t =
      b t ++ if t ∈ types then [.dispatch] else [] := by
  induction types generalizing b with
  | nil => simp
  | cons u types ih =>
    obtain ⟨hu, hrest⟩ := List.nodup_cons.mp hnodup
    rw [List.foldl_cons, ih hrest, subscribe_apply, List.append_assoc]
    by_cases ht : t = u
    · subst ht
      simp [hu]
    · simp [ht]

/-- The dispatcher is called once with an event of a known type, and with no other. -/
theorem dispatched_wired (before after : List (String × ℕ)) (events : List Event) :
    dispatched (wired before after) events = events.filter (·.type ∈ allEventTypes) := by
  have hnodup : allEventTypes.Nodup := by decide +kernel
  have hdispatch (t : String) : (wired before after t).filter (· = .dispatch) =
      if t ∈ allEventTypes then [.dispatch] else [] := by
    rw [wired, subscribeOthers_apply, Bus.subscribeAll, foldl_subscribe hnodup, List.filter_append,
      subscribeOthers_apply]
    split_ifs <;> simp [newBus]
  have hpublish (event : Event) (handlers : List Handler) :
      ((handlers.map fun handler => (handler, event)).filterMap fun call =>
        if call.1 = .dispatch then some call.2 else none) =
      (handlers.filter (· = .dispatch)).map fun _ => event := by
    induction handlers with
    | nil => rfl
    | cons handler handlers ih =>
      rw [List.map_cons, List.filterMap_cons, ih]
      cases handler <;> simp
  induction events with
  | nil => rfl
  | cons event events ih =>
    rw [dispatched, List.flatMap_cons, Bus.publish, hpublish, hdispatch, List.filter_cons, ← ih]
    split_ifs <;> simp_all [dispatched]

/-! ## The goroutines -/

/-- `events` is the JSON of its column, if it is JSON. -/
structure Row where
  id : String
  name : String
  url : String
  secret : String
  events : Option JSON
  enabled : ℤ

/-- What cannot be decoded is nil. -/
def Row.scan (row : Row) : WebhookEndpoint where
  id := row.id
  name := row.name
  url := row.url
  secret := row.secret
  events := ((row.events.bind fun j => slice "" JSONDecode.string j none).getD none).getD []
  enabled := row.enabled = 1

def loadEndpoints (rows : List Row) : List WebhookEndpoint := rows.map Row.scan

def webhookMatches (ep : WebhookEndpoint) (t : String) : Bool :=
  ep.events.length = 0 || ep.events.any (· = t)

/-- Enabled and matching. -/
def wanted (t : String) (ep : WebhookEndpoint) : Bool := ep.enabled && webhookMatches ep t

/-- Which call of `dispatch` it is, and with which event. -/
structure Call where
  number : ℕ
  event : Event
  deriving DecidableEq, Repr

structure Delivery where
  call : Call
  endpoint : WebhookEndpoint
  deriving DecidableEq, Repr

/-- The slots that are taken, the wait group, and the messages about dropped events. -/
structure Dispatcher where
  sem : ℕ
  wg : ℤ
  dropped : List Delivery

def webhookQueueSize : ℕ := 16

def webhookMaxAttempts : ℕ := 3

/-- Where `dispatch` is with an endpoint: it has added one to the wait group, it has taken a
slot, it has not, and it has left the wait group again. -/
inductive Stage where
  | next
  | added (ep : WebhookEndpoint)
  | accepted (ep : WebhookEndpoint)
  | refused (ep : WebhookEndpoint)
  | done (ep : WebhookEndpoint)

/-- `dispatch`, with the endpoints it has loaded and those that are left; the goroutine of a
delivery; and `Stop`. -/
inductive Goroutine where
  | loading (c : Call)
  | dispatching (c : Call) (loaded rest : List WebhookEndpoint) (stage : Stage)
  | returned (c : Call) (loaded : Option (List WebhookEndpoint))
  | delivering (d : Delivery)
  | sending (d : Delivery) (body : Bytes) (attempt : ℕ) (sends : List (List Exchange))
  | sent (d : Delivery) (sends : List (List Exchange))
  | released (d : Delivery) (sends : List (List Exchange))
  | finished (d : Delivery) (sends : List (List Exchange))
  | stop
  | stopped

/-- What the world has to say: the rows of the table or an error, the clock, and the answers to
the requests of an attempt. -/
inductive Choice where
  | next
  | rows (rows : Option (List Row))
  | now (t : ℤ)
  | answers (as : List Answer)

section
variable (lib : Library) (maxAttempts : ℕ)

def step (a : Choice) (s : Dispatcher) :
    Goroutine → Option (Dispatcher × Goroutine × List Goroutine)
  | .loading c =>
    match a with
    | .rows (some rows) =>
      some (s, .dispatching c (loadEndpoints rows) (loadEndpoints rows) .next, [])
    | .rows none => some (s, .returned c none, [])
    | _ => none
  | .dispatching c loaded [] .next => some (s, .returned c (some loaded), [])
  | .dispatching c loaded (ep :: rest) .next =>
    if wanted c.event.type ep then
      some ({ s with wg := s.wg + 1 }, .dispatching c loaded rest (.added ep), [])
    else some (s, .dispatching c loaded rest .next, [])
  | .dispatching c loaded rest (.added ep) =>
    if s.sem < webhookQueueSize then
      some ({ s with sem := s.sem + 1 }, .dispatching c loaded rest (.accepted ep), [])
    else some (s, .dispatching c loaded rest (.refused ep), [])
  | .dispatching c loaded rest (.accepted ep) =>
    some (s, .dispatching c loaded rest .next, [.delivering ⟨c, ep⟩])
  | .dispatching c loaded rest (.refused ep) =>
    some ({ s with wg := s.wg - 1 }, .dispatching c loaded rest (.done ep), [])
  | .dispatching c loaded rest (.done ep) =>
    some ({ s with dropped := s.dropped ++ [⟨c, ep⟩] }, .dispatching c loaded rest .next, [])
  | .returned _ _ => none
  | .delivering d =>
    match a with
    | .now t =>
      match lib.marshal (d.call.event.payload t) with
      | none => some (s, .sent d [], [])
      | some body => some (s, .sending d body 1 [], [])
    | _ => none
  | .sending d body attempt sends =>
    if attempt ≤ maxAttempts then
      match a with
      | .answers as =>
        let result := send lib d.endpoint body as
        if result.2 then some (s, .sent d (sends ++ [result.1]), [])
        else some (s, .sending d body (attempt + 1) (sends ++ [result.1]), [])
      | _ => none
    else some (s, .sent d sends, [])
  -- the deferred calls: the slot first, then the wait group
  | .sent d sends =>
    if s.sem = 0 then none else some ({ s with sem := s.sem - 1 }, .released d sends, [])
  | .released d sends => some ({ s with wg := s.wg - 1 }, .finished d sends, [])
  | .finished _ _ => none
  | .stop => if s.wg = 0 then some (s, .stopped, []) else none
  | .stopped => none

def program : Program Dispatcher Goroutine Choice := ⟨step lib maxAttempts⟩

end

def number (events : List Event) : List Call := events.zipIdx.map fun e => ⟨e.2, e.1⟩

/-- Calls of `dispatch` with these events, and of `Stop`. -/
def start (events : List Event) (stops : ℕ) : Config Dispatcher Goroutine :=
  ⟨⟨0, 0, []⟩, (number events).map .loading ++ List.replicate stops .stop⟩

/-! ## What they stand for -/

namespace Goroutine

/-- A delivery that holds a slot. -/
def sends : Goroutine → Bool
  | .delivering _ | .sending _ _ _ _ | .sent _ _ => true
  | _ => false

def holdsSlot : Goroutine → Bool
  | .dispatching _ _ _ (.accepted _) => true
  | g => g.sends

/-- A delivery that has not finished. -/
def unfinished : Goroutine → Bool
  | .released _ _ => true
  | g => g.sends

/-- A dispatch between its addition to the wait group and the start of a delivery, or its
giving up. -/
def handingOver : Goroutine → Bool
  | .dispatching _ _ _ (.added _) => true
  | .dispatching _ _ _ (.accepted _) => true
  | .dispatching _ _ _ (.refused _) => true
  | _ => false

def call : Goroutine → Option Call
  | .loading c | .dispatching c _ _ _ | .returned c _ => some c
  | _ => none

def delivery : Goroutine → Option Delivery
  | .delivering d | .sending d _ _ _ | .sent d _ | .released d _ | .finished d _ => some d
  | _ => none

/-- The requests of a delivery. -/
def requests : Goroutine → List Exchange
  | .sending _ _ _ sends | .sent _ sends | .released _ sends | .finished _ sends => sends.flatten
  | _ => []

/-- The endpoints that a dispatch has loaded and that want its event. -/
def wanting : Goroutine → List WebhookEndpoint
  | .dispatching c loaded _ _ | .returned c (some loaded) => loaded.filter (wanted c.event.type)
  | _ => []

/-- Those of them that it has not yet seen to. -/
def left : Goroutine → List WebhookEndpoint
  | .dispatching c _ rest stage =>
    (match stage with
      | .next => []
      | .added ep | .accepted ep | .refused ep | .done ep => [ep]) ++
      rest.filter (wanted c.event.type)
  | _ => []

/-- How often a delivery is among those of a call to endpoints. -/
def times (d : Delivery) (c : Option Call) (endpoints : List WebhookEndpoint) : ℕ :=
  if c = some d.call then endpoints.count d.endpoint else 0

def due (d : Delivery) (g : Goroutine) : ℕ := times d g.call g.wanting

def owed (d : Delivery) (g : Goroutine) : ℕ := times d g.call g.left

def delivers (d : Delivery) (g : Goroutine) : Bool := g.delivery = some d

theorem times_nil (d : Delivery) (c : Option Call) : times d c [] = 0 := by
  unfold times
  split_ifs <;> rfl

theorem times_cons (d : Delivery) (c : Call) (ep : WebhookEndpoint)
    (endpoints : List WebhookEndpoint) : times d (some c) (ep :: endpoints) =
      times d (some c) endpoints + [(⟨c, ep⟩ : Delivery)].count d := by
  obtain ⟨c', ep'⟩ := d
  unfold times
  by_cases hcall : c = c'
  · by_cases hep : ep = ep' <;> simp [hcall, hep]
  · simp [hcall]

end Goroutine

section
variable (lib : Library) (maxAttempts : ℕ)

/-- Everything a step can do. -/
inductive Moves (s : Dispatcher) : Goroutine → Dispatcher → Goroutine → List Goroutine → Prop
  | load {c : Call} (loaded : List WebhookEndpoint) :
      Moves s (.loading c) s (.dispatching c loaded loaded .next) []
  | fail {c : Call} : Moves s (.loading c) s (.returned c none) []
  | finish {c : Call} {loaded : List WebhookEndpoint} :
      Moves s (.dispatching c loaded [] .next) s (.returned c (some loaded)) []
  | add {c : Call} {loaded rest : List WebhookEndpoint} {ep : WebhookEndpoint}
      (want : wanted c.event.type ep = true) :
      Moves s (.dispatching c loaded (ep :: rest) .next) { s with wg := s.wg + 1 }
        (.dispatching c loaded rest (.added ep)) []
  | skip {c : Call} {loaded rest : List WebhookEndpoint} {ep : WebhookEndpoint}
      (want : wanted c.event.type ep = false) :
      Moves s (.dispatching c loaded (ep :: rest) .next) s (.dispatching c loaded rest .next) []
  | accept {c : Call} {loaded rest : List WebhookEndpoint} {ep : WebhookEndpoint}
      (free : s.sem < webhookQueueSize) :
      Moves s (.dispatching c loaded rest (.added ep)) { s with sem := s.sem + 1 }
        (.dispatching c loaded rest (.accepted ep)) []
  | refuse {c : Call} {loaded rest : List WebhookEndpoint} {ep : WebhookEndpoint} :
      Moves s (.dispatching c loaded rest (.added ep)) s
        (.dispatching c loaded rest (.refused ep)) []
  | deliver {c : Call} {loaded rest : List WebhookEndpoint} {ep : WebhookEndpoint} :
      Moves s (.dispatching c loaded rest (.accepted ep)) s (.dispatching c loaded rest .next)
        [.delivering ⟨c, ep⟩]
  | leave {c : Call} {loaded rest : List WebhookEndpoint} {ep : WebhookEndpoint} :
      Moves s (.dispatching c loaded rest (.refused ep)) { s with wg := s.wg - 1 }
        (.dispatching c loaded rest (.done ep)) []
  | log {c : Call} {loaded rest : List WebhookEndpoint} {ep : WebhookEndpoint} :
      Moves s (.dispatching c loaded rest (.done ep))
        { s with dropped := s.dropped ++ [⟨c, ep⟩] } (.dispatching c loaded rest .next) []
  | marshal {d : Delivery} (body : Bytes) : Moves s (.delivering d) s (.sending d body 1 []) []
  | spoil {d : Delivery} : Moves s (.delivering d) s (.sent d []) []
  | succeed {d : Delivery} {body : Bytes} {attempt : ℕ} {sends : List (List Exchange)}
      (as : List Answer) (more : attempt ≤ maxAttempts) :
      Moves s (.sending d body attempt sends) s
        (.sent d (sends ++ [(send lib d.endpoint body as).1])) []
  | retry {d : Delivery} {body : Bytes} {attempt : ℕ} {sends : List (List Exchange)}
      (as : List Answer) (more : attempt ≤ maxAttempts)
      (failed : (send lib d.endpoint body as).2 = false) :
      Moves s (.sending d body attempt sends) s
        (.sending d body (attempt + 1) (sends ++ [(send lib d.endpoint body as).1])) []
  | exhaust {d : Delivery} {body : Bytes} {attempt : ℕ} {sends : List (List Exchange)} :
      Moves s (.sending d body attempt sends) s (.sent d sends) []
  | release {d : Delivery} {sends : List (List Exchange)} (taken : s.sem ≠ 0) :
      Moves s (.sent d sends) { s with sem := s.sem - 1 } (.released d sends) []
  | done {d : Delivery} {sends : List (List Exchange)} :
      Moves s (.released d sends) { s with wg := s.wg - 1 } (.finished d sends) []
  | stop (none : s.wg = 0) : Moves s .stop s .stopped []

end

section
variable {lib : Library} {maxAttempts : ℕ} {a : Choice} {s s' : Dispatcher}
  {p q : Goroutine} {started : List Goroutine}

theorem moves_of_dispatching {c : Call} {loaded rest : List WebhookEndpoint} {stage : Stage}
    (h : step lib maxAttempts a s (.dispatching c loaded rest stage) = some (s', q, started)) :
    Moves lib maxAttempts s (.dispatching c loaded rest stage) s' q started := by
  cases stage with
  | next =>
    cases rest with
    | nil =>
      cases h
      exact .finish
    | cons ep rest =>
      simp only [step] at h
      split_ifs at h with hwant
      · cases h
        exact .add hwant
      · cases h
        exact .skip (Bool.eq_false_of_not_eq_true hwant)
  | added ep =>
    simp only [step] at h
    split_ifs at h with hfree
    · cases h
      exact .accept hfree
    · cases h
      exact .refuse
  | accepted ep =>
    simp only [step] at h
    cases h
    exact .deliver
  | refused ep =>
    simp only [step] at h
    cases h
    exact .leave
  | done ep =>
    simp only [step] at h
    cases h
    exact .log

theorem moves_of_sending {d : Delivery} {body : Bytes} {attempt : ℕ} {sends : List (List Exchange)}
    (h : step lib maxAttempts a s (.sending d body attempt sends) = some (s', q, started)) :
    Moves lib maxAttempts s (.sending d body attempt sends) s' q started := by
  simp only [step] at h
  by_cases hmore : attempt ≤ maxAttempts
  · rw [if_pos hmore] at h
    cases a with
    | answers as =>
      dsimp only at h
      split_ifs at h with hok
      · cases h
        exact .succeed as hmore
      · cases h
        exact .retry as hmore (Bool.eq_false_of_not_eq_true hok)
    | next | rows | now => cases h
  · rw [if_neg hmore] at h
    cases h
    exact .exhaust

theorem moves_of_step (h : step lib maxAttempts a s p = some (s', q, started)) :
    Moves lib maxAttempts s p s' q started := by
  cases p with
  | loading c =>
    cases a with
    | rows rows =>
      cases rows with
      | none =>
        cases h
        exact .fail
      | some rows =>
        cases h
        exact .load _
    | next | now | answers => cases h
  | dispatching c loaded rest stage => exact moves_of_dispatching h
  | delivering d =>
    cases a with
    | now t =>
      simp only [step] at h
      cases hbody : lib.marshal (d.call.event.payload t) with
      | none =>
        rw [hbody] at h
        cases h
        exact .spoil
      | some body =>
        rw [hbody] at h
        cases h
        exact .marshal body
    | next | rows | answers => cases h
  | sending d body attempt sends => exact moves_of_sending h
  | sent d sends =>
    simp only [step] at h
    split_ifs at h with htaken
    cases h
    exact .release htaken
  | released d sends =>
    cases h
    exact .done
  | stop =>
    simp only [step] at h
    split_ifs at h with hnone
    cases h
    exact .stop hnone
  | returned | finished | stopped => cases h

namespace Moves

variable (h : Moves lib maxAttempts s p s' q started)
include h

theorem slots : s'.sem + p.holdsSlot.toNat =
    s.sem + q.holdsSlot.toNat + started.countP Goroutine.holdsSlot := by
  cases h
  case release taken =>
    simp only [Goroutine.holdsSlot, Goroutine.sends]
    simp
    omega
  all_goals simp [Goroutine.holdsSlot, Goroutine.sends]

theorem sem_le (hle : s.sem ≤ webhookQueueSize) : s'.sem ≤ webhookQueueSize := by
  cases h
  case accept free => exact free
  case release taken => exact (Nat.sub_le _ _).trans hle
  all_goals exact hle

theorem group : s'.wg + p.unfinished.toNat + p.handingOver.toNat =
    s.wg + q.unfinished.toNat + q.handingOver.toNat + started.countP Goroutine.unfinished +
      started.countP Goroutine.handingOver := by
  cases h <;> simp [Goroutine.unfinished, Goroutine.handingOver, Goroutine.sends]

theorem call_eq : q.call = p.call ∧ ∀ r ∈ started, r.call = none := by
  cases h <;> simp [Goroutine.call]

/-- A dispatch sees to one endpoint after the other. -/
theorem seen (d : Delivery) :
    (q.delivers d).toNat + started.countP (·.delivers d) + s'.dropped.count d + q.owed d + p.due d =
      (p.delivers d).toNat + s.dropped.count d + p.owed d + q.due d := by
  simp only [Goroutine.delivers, Goroutine.owed, Goroutine.due]
  cases h
  case add want =>
    simp [Goroutine.delivery, Goroutine.call, Goroutine.left, Goroutine.wanting, want]
  case skip want =>
    simp [Goroutine.delivery, Goroutine.call, Goroutine.left, Goroutine.wanting, want]
  case deliver c loaded rest ep =>
    have hep := Goroutine.times_cons d c ep (rest.filter (wanted c.event.type))
    simp only [Goroutine.delivery, Goroutine.call, Goroutine.left, Goroutine.wanting,
      List.singleton_append, List.nil_append, List.countP_singleton]
    rw [hep]
    simp [List.count_singleton]
    omega
  case log c loaded rest ep =>
    have hep := Goroutine.times_cons d c ep (rest.filter (wanted c.event.type))
    simp only [Goroutine.delivery, Goroutine.call, Goroutine.left, Goroutine.wanting,
      List.singleton_append, List.nil_append, List.countP_nil, List.count_append, reduceCtorEq,
      decide_false, Bool.toNat_false]
    omega
  all_goals
    simp [Goroutine.delivery, Goroutine.call, Goroutine.left, Goroutine.wanting,
      Goroutine.times_nil]

end Moves

end

/-! ## What holds of every state -/

/-- What a goroutine has sent: what a delivery may. While it still sends, all has failed. -/
def Goroutine.WellSent (lib : Library) (maxAttempts : ℕ) : Goroutine → Prop
  | .sending d body attempt sends =>
    sends.length + 1 = attempt ∧ Delivered lib maxAttempts d.endpoint body sends ∧
      ∀ e ∈ sends.flatten, e.succeeded = false
  | .sent d sends | .released d sends | .finished d sends =>
    ∃ body, Delivered lib maxAttempts d.endpoint body sends
  | _ => True

structure Invariant (lib : Library) (maxAttempts : ℕ) (calls : List Call)
    (c : Config Dispatcher Goroutine) : Prop where
  slots : c.shared.sem = c.procs.countP Goroutine.holdsSlot
  bounded : c.shared.sem ≤ webhookQueueSize
  group : c.shared.wg = c.procs.countP Goroutine.unfinished + c.procs.countP Goroutine.handingOver
  calls : c.procs.filterMap Goroutine.call = calls
  seen : ∀ d, c.procs.countP (·.delivers d) + c.shared.dropped.count d +
    (c.procs.map (·.owed d)).sum = (c.procs.map (·.due d)).sum
  wellSent : ∀ g ∈ c.procs, g.WellSent lib maxAttempts

section
variable {lib : Library} {maxAttempts : ℕ} {s s' : Dispatcher} {p q : Goroutine}
  {started : List Goroutine} {calls : List Call}

theorem Moves.wellSent (h : Moves lib maxAttempts s p s' q started)
    (hp : p.WellSent lib maxAttempts) :
    q.WellSent lib maxAttempts ∧ ∀ g ∈ started, g.WellSent lib maxAttempts := by
  cases h
  case marshal d body => exact ⟨⟨rfl, delivered_nil lib maxAttempts d.endpoint body, by simp⟩, by simp⟩
  case spoil d => exact ⟨⟨[], delivered_nil lib maxAttempts d.endpoint []⟩, by simp⟩
  case succeed d body attempt sends as more =>
    obtain ⟨hattempt, hsent, hfailed⟩ := hp
    exact ⟨⟨body, hsent.snoc (by omega) hfailed (send_attempted lib d.endpoint body as)⟩, by simp⟩
  case retry d body attempt sends as more failed =>
    obtain ⟨hattempt, hsent, hfailed⟩ := hp
    refine ⟨⟨?_, hsent.snoc (by omega) hfailed (send_attempted lib d.endpoint body as), ?_⟩, by simp⟩
    · rw [List.length_append, List.length_singleton, hattempt]
    · rw [List.flatten_append, List.flatten_singleton]
      exact List.forall_mem_append.mpr ⟨hfailed, send_failed failed⟩
  case exhaust d body attempt sends =>
    obtain ⟨-, hsent, -⟩ := hp
    exact ⟨⟨body, hsent⟩, by simp⟩
  case release | done => exact ⟨hp, by simp⟩
  all_goals exact ⟨trivial, by simp [Goroutine.WellSent]⟩

/-- A goroutine that is not a dispatch has nothing to see to. -/
theorem sum_times (d : Delivery) (endpoints : Goroutine → List WebhookEndpoint)
    (h : ∀ r ∈ started, r.call = none) :
    (started.map fun r => Goroutine.times d r.call (endpoints r)).sum = 0 := by
  rw [List.sum_eq_zero_iff, List.forall_mem_map]
  intro r hr
  rw [h r hr]
  rfl

theorem exec_invariant (c : Config Dispatcher Goroutine) (m : Move Choice)
    (h : Invariant lib maxAttempts calls c) :
    Invariant lib maxAttempts calls ((program lib maxAttempts).exec c m) := by
  obtain ⟨p, s', q, started, hp, hstep, he⟩ | he := (program lib maxAttempts).exec_cases c m
  · rw [he]
    have hmoves := moves_of_step hstep
    have hmem := List.mem_of_getElem? hp
    constructor
    case slots =>
      have hcount := countP_move Goroutine.holdsSlot started (q := q) hp
      have hmove := hmoves.slots
      have hslots := h.slots
      dsimp only
      omega
    case bounded => exact hmoves.sem_le h.bounded
    case group =>
      have hunfinished := countP_move Goroutine.unfinished started (q := q) hp
      have hhanding := countP_move Goroutine.handingOver started (q := q) hp
      have hmove := hmoves.group
      have hgroup := h.group
      dsimp only
      omega
    case calls =>
      obtain ⟨hq, hstarted⟩ := hmoves.call_eq
      rw [← h.calls]
      exact filterMap_move Goroutine.call hp hq hstarted
    case seen =>
      intro d
      have hdeliveries := countP_move (·.delivers d) started (q := q) hp
      have howed := sum_map_move (·.owed d) started (q := q) hp
      have hdue := sum_map_move (·.due d) started (q := q) hp
      have hmove := hmoves.seen d
      have hseen := h.seen d
      have hnone := hmoves.call_eq.2
      have howed_started : (started.map (·.owed d)).sum = 0 := sum_times d Goroutine.left hnone
      have hdue_started : (started.map (·.due d)).sum = 0 := sum_times d Goroutine.wanting hnone
      dsimp only
      omega
    case wellSent =>
      obtain ⟨hq, hstarted⟩ := hmoves.wellSent (h.wellSent p hmem)
      exact List.forall_mem_append.mpr ⟨forall_set h.wellSent hq, hstarted⟩
  · rw [he]
    exact h

theorem nodup_number (events : List Event) : (number events).Nodup := by
  apply List.Nodup.of_map Call.number
  have hnumbers : (number events).map Call.number = List.range' 0 events.length := by
    rw [number, List.map_map, ← List.zipIdx_map_snd 0 events]
    rfl
  rw [hnumbers]
  exact List.nodup_range'

/-- At first no dispatch has loaded its endpoints. -/
theorem start_cases {events : List Event} {stops : ℕ} {g : Goroutine}
    (hg : g ∈ (start events stops).procs) : (∃ c, g = .loading c) ∨ g = .stop := by
  obtain hg | hg := List.mem_append.mp hg
  · obtain ⟨c, -, rfl⟩ := List.mem_map.mp hg
    exact .inl ⟨c, rfl⟩
  · exact .inr (List.eq_of_mem_replicate hg)

theorem start_invariant (lib : Library) (maxAttempts : ℕ) (events : List Event) (stops : ℕ) :
    Invariant lib maxAttempts (number events) (start events stops) := by
  have hcount {P : Goroutine → Bool} (hloading : ∀ c, P (.loading c) = false)
      (hstop : P .stop = false) : (start events stops).procs.countP P = 0 := by
    rw [List.countP_eq_zero]
    intro g hg
    obtain ⟨c, rfl⟩ | rfl := start_cases hg
    · simp [hloading c]
    · simp [hstop]
  have hsum {f : Goroutine → ℕ} (hloading : ∀ c, f (.loading c) = 0) (hstop : f .stop = 0) :
      ((start events stops).procs.map f).sum = 0 := by
    rw [List.sum_eq_zero_iff, List.forall_mem_map]
    intro g hg
    obtain ⟨c, rfl⟩ | rfl := start_cases hg
    · exact hloading c
    · exact hstop
  constructor
  case slots => exact (hcount (fun _ => rfl) rfl).symm
  case bounded => exact Nat.zero_le _
  case group =>
    rw [hcount (P := Goroutine.unfinished) (fun _ => rfl) rfl,
      hcount (P := Goroutine.handingOver) (fun _ => rfl) rfl]
    rfl
  case calls =>
    have hloading : ((number events).map Goroutine.loading).filterMap Goroutine.call =
        number events := by
      rw [List.filterMap_map]
      exact List.filterMap_some
    have hstops : (List.replicate stops Goroutine.stop).filterMap Goroutine.call = [] := by
      rw [List.filterMap_eq_nil_iff]
      intro g hg
      rw [List.eq_of_mem_replicate hg]
      rfl
    rw [start, List.filterMap_append, hloading, hstops, List.append_nil]
  case seen =>
    intro d
    rw [hcount (P := (·.delivers d)) (fun _ => rfl) rfl,
      hsum (f := (·.owed d)) (fun _ => Goroutine.times_nil d _) rfl,
      hsum (f := (·.due d)) (fun _ => Goroutine.times_nil d _) rfl]
    rfl
  case wellSent =>
    intro g hg
    obtain ⟨c, rfl⟩ | rfl := start_cases hg <;> trivial

/-- What the dispatcher keeps to, with these calls of `dispatch`. -/
structure Dispatched (lib : Library) (maxAttempts : ℕ) (calls : List Call)
    (c : Config Dispatcher Goroutine) : Prop where
  calls : c.procs.filterMap Goroutine.call = calls
  -- no more than so many deliveries are sending
  slots : c.procs.countP Goroutine.sends ≤ webhookQueueSize
  group : c.shared.wg = c.procs.countP Goroutine.unfinished + c.procs.countP Goroutine.handingOver
  idle : c.shared.wg = 0 → ∀ g ∈ c.procs, g.sends = false
  -- a delivery or a message for each endpoint that wants the event, once it has been seen to
  once : ∀ g ∈ c.procs, ∀ call ∈ g.call, ∀ ep,
    c.procs.countP (·.delivers ⟨call, ep⟩) + c.shared.dropped.count ⟨call, ep⟩ + g.left.count ep =
      g.wanting.count ep
  wellSent : ∀ g ∈ c.procs, g.WellSent lib maxAttempts

theorem holdsSlot_of_sends {g : Goroutine} (h : g.sends = true) : g.holdsSlot = true := by
  cases g with
  | delivering | sending | sent => rfl
  | loading | dispatching | returned | released | finished | stop | stopped => cases h

theorem unfinished_of_sends {g : Goroutine} (h : g.sends = true) : g.unfinished = true := by
  cases g with
  | delivering | sending | sent => rfl
  | loading | dispatching | returned | released | finished | stop | stopped => cases h

theorem Invariant.dispatched {c : Config Dispatcher Goroutine}
    (h : Invariant lib maxAttempts calls c) (hnodup : calls.Nodup) :
    Dispatched lib maxAttempts calls c where
  calls := h.calls
  slots := by
    have hle : c.procs.countP Goroutine.sends ≤ c.procs.countP Goroutine.holdsSlot :=
      List.countP_mono_left fun _ _ => holdsSlot_of_sends
    exact hle.trans (h.slots ▸ h.bounded)
  group := h.group
  idle := by
    intro hzero g hg
    have hgroup := h.group
    have hnone : c.procs.countP Goroutine.unfinished = 0 := by omega
    by_contra hsends
    exact List.countP_eq_zero.mp hnone g hg
      (unfinished_of_sends (Bool.eq_true_of_not_eq_false hsends))
  once := by
    intro g hg call hcall ep
    rw [← h.calls] at hnodup
    have hmine (endpoints : Goroutine → List WebhookEndpoint) :
        (c.procs.map fun r => Goroutine.times ⟨call, ep⟩ r.call (endpoints r)).sum =
          (endpoints g).count ep := by
      have honly : (c.procs.map fun r => Goroutine.times ⟨call, ep⟩ r.call (endpoints r)).sum =
          Goroutine.times ⟨call, ep⟩ g.call (endpoints g) :=
        sum_map_tagged Goroutine.call _ hnodup hg hcall fun r _ hother => if_neg hother
      rw [honly]
      exact if_pos hcall
    have hseen := h.seen ⟨call, ep⟩
    have howed : (c.procs.map (·.owed ⟨call, ep⟩)).sum = g.left.count ep := hmine Goroutine.left
    have hdue : (c.procs.map (·.due ⟨call, ep⟩)).sum = g.wanting.count ep :=
      hmine Goroutine.wanting
    omega
  wellSent := h.wellSent

end

/-- Over every run the dispatcher keeps to its slots, its wait group, one delivery or message
for an endpoint, and what a delivery may send; and it is called once with each event of a known
type. -/
theorem dispatch_bounded (lib : Library) (maxAttempts : ℕ) (before after : List (String × ℕ))
    (events : List Event) (stops : ℕ) (ms : List (Move Choice)) :
    dispatched (wired before after) events = events.filter (·.type ∈ allEventTypes) ∧
      Dispatched lib maxAttempts (number (dispatched (wired before after) events))
        ((program lib maxAttempts).run (start (dispatched (wired before after) events) stops) ms) := by
  refine ⟨dispatched_wired before after events, ?_⟩
  have hinvariant := Program.run_keeps exec_invariant
    (start_invariant lib maxAttempts (dispatched (wired before after) events) stops) ms
  exact hinvariant.dispatched (nodup_number _)

/-! ## Redirects -/

/-- The standard library as it is for the event and the addresses below. -/
def onOneHost : Library where
  marshal _ := some ("\x7b\"id\":\"forward:created/r1\",\"event\":\"forward:created\"," ++
    "\"resource\":\"forward\",\"resource_id\":\"r1\"," ++
    "\"timestamp\":\"1970-01-01T00:00:00Z\"\x7d").toUTF8.toList
  parseURL := some
  parse _ location := some location
  hmacSHA256 _ _ := []

def hook : Row :=
  ⟨"w1", "hook", "http://10.0.0.9/hook", "", some (.array [.string "forward:created"]), 1⟩

/-- The endpoint has moved, and where it has moved to there is an error. -/
def moved : Choice := .answers [.response 302 "http://10.0.0.9/login", .response 500 ""]

def movedThrice : List (Move Choice) :=
  [(0, .rows (some [hook])), (0, .next), (0, .next), (0, .next), (1, .now 0), (1, moved),
    (1, moved), (1, moved), (1, .next), (1, .next), (1, .next)]

theorem redirects_are_requests : ∃ g ∈ ((program onOneHost webhookMaxAttempts).run
    (start (dispatched (wired [] []) [⟨"forward:created", "r1"⟩]) 0) movedThrice).procs,
    webhookMaxAttempts < g.requests.length ∧ ∃ e ∈ g.requests, ∃ e' ∈ g.requests,
      e.request.body ≠ e'.request.body := by
  decide +kernel

end NetBerth.WebhookDispatch
