import NetBerth.ConnectionLimit
import NetBerth.StreamCopy

/-!
# What a forward rule carries

`handleTCP` copies from the client to the target in one goroutine and back in another, adds what
each has copied to the counters of the rule, and closes the writing half of the connection it
copied to. When both are through it closes the two connections.

So neither connection is closed while something is on its way in the other direction, and each
side gets what the other has sent, from the beginning and in its order. The handler counts as a
connection of the rule until both directions have ended or failed, however long that takes: there
is no deadline, so a peer that stays without taking what is written to it keeps its place.
-/
namespace NetBerth.TCPRelay
open Interleaving Goroutines Transitions StreamCopy Rules ConnectionLimit

/-- How far one of the two goroutines has come after `io.Copy`. -/
inductive Tally where
  | copying
  | counted
  | shut
  deriving DecidableEq, Repr

structure Lane where
  copy : Copy UInt8
  tally : Tally
  deriving DecidableEq, Repr

structure Relay where
  inbound : Lane
  outbound : Lane
  deriving DecidableEq, Repr

inductive Stage where
  | copying
  | closing
  | returned
  deriving DecidableEq, Repr

/-- A goroutine of the accept loops, or a handler that has dialled. -/
inductive Proc where
  | plain (g : ConnectionLimit.Goroutine)
  | relay (stage : Stage) (r : Relay)
  deriving DecidableEq, Repr

inductive LaneChoice where
  | copy (e : StreamCopy.Event UInt8)
  | count
  | closeWrite
  deriving DecidableEq, Repr

inductive Choice where
  | plain (a : ConnectionLimit.Choice)
  | inbound (a : LaneChoice)
  | outbound (a : LaneChoice)
  deriving DecidableEq, Repr

namespace Lane

def start : Lane := ⟨.start, .copying⟩

/-- The lane, and what is added to the counter of its direction. -/
def step (lane : Lane) : LaneChoice → Option (Lane × UInt64)
  | .copy e => (lane.copy.step e).map fun c => ({ lane with copy := c }, 0)
  | .count =>
    match lane.copy.phase, lane.tally with
    | .returned _, .copying =>
      some ({ lane with tally := .counted }, UInt64.ofNat lane.copy.written)
    | _, _ => none
  | .closeWrite =>
    match lane.tally with
    | .counted => some ({ lane with tally := .shut }, 0)
    | _ => none

end Lane

def Relay.start : Relay := ⟨.start, .start⟩

def step (rule : ForwardRule) (a : Choice) (s : Counters) :
    Proc → Option (Counters × Proc × List Proc)
  | .plain .dial =>
    match a with
    | .plain .next => some (s, .relay .copying .start, [])
    | .plain .fail => some (s, .plain .exit, [])
    | _ => none
  | .plain g =>
    match a with
    | .plain a =>
      (ConnectionLimit.step rule a s g).map fun t => (t.1, .plain t.2.1, t.2.2.map .plain)
    | _ => none
  | .relay .copying r =>
    match a with
    | .inbound a =>
      (r.inbound.step a).map fun t =>
        ({ s with bytesIn := s.bytesIn + t.2 }, .relay .copying { r with inbound := t.1 }, [])
    | .outbound a =>
      (r.outbound.step a).map fun t =>
        ({ s with bytesOut := s.bytesOut + t.2 }, .relay .copying { r with outbound := t.1 }, [])
    | .plain .next =>
      -- `Wait` returns, and the deferred calls close the two connections
      if r.inbound.tally = .shut ∧ r.outbound.tally = .shut then
        some (s, .relay .closing r, [])
      else none
    | _ => none
  | .relay .closing r =>
    match a with
    | .plain .next => some ({ s with conns := s.conns - 1 }, .relay .returned r, [])
    | _ => none
  | .relay .returned _ => none

def program (rule : ForwardRule) : Program Counters Proc Choice := ⟨step rule⟩

/-- A new instance with this many accept loops. -/
def boot (loops : ℕ) : Config Counters Proc :=
  ⟨⟨0, 0, 0, false⟩, .plain .cancel :: List.replicate loops (.plain .accept)⟩

/-! ## The limit of the connections -/

/-- The handler, with the copies no more than done or not. -/
def view : Proc → ConnectionLimit.Goroutine
  | .plain g => g
  | .relay .copying r => .copy (r.inbound.tally ≠ .copying) (r.outbound.tally ≠ .copying)
  | .relay .closing _ => .exit
  | .relay .returned _ => .returned

section
variable {rule : ForwardRule} {a : Choice} {s s' : Counters} {p q : Proc} {started : List Proc}

theorem laneStep_cases {lane lane' : Lane} {b : LaneChoice} {n : UInt64}
    (h : lane.step b = some (lane', n)) :
    (∃ e, lane.copy.step e = some lane'.copy ∧ lane'.tally = lane.tally ∧ n = 0) ∨
    (∃ failed, lane.copy.phase = .returned failed ∧ lane.tally = .copying ∧
      lane' = { lane with tally := .counted } ∧ n = UInt64.ofNat lane.copy.written) ∨
    (lane.tally = .counted ∧ lane' = { lane with tally := .shut } ∧ n = 0) := by
  cases b with
  | copy e =>
    obtain ⟨c, hc, hlane⟩ := Option.map_eq_some_iff.mp h
    cases hlane
    exact .inl ⟨e, hc, rfl, rfl⟩
  | count =>
    simp only [Lane.step] at h
    split at h
    · rename_i failed hphase htally
      cases h
      exact .inr (.inl ⟨failed, hphase, htally, rfl, rfl⟩)
    · cases h
  | closeWrite =>
    simp only [Lane.step] at h
    split at h
    · rename_i htally
      cases h
      exact .inr (.inr ⟨htally, rfl, rfl⟩)
    · cases h

/-- Everything that a step can do. -/
theorem step_cases (h : step rule a s p = some (s', q, started)) :
    (∃ g g' b new, p = .plain g ∧ q = .plain g' ∧ started = new.map .plain ∧
      ConnectionLimit.step rule b s g = some (s', g', new) ∧ (g = .dial → b = .fail)) ∨
    (p = .plain .dial ∧ s' = s ∧ q = .relay .copying .start ∧ started = []) ∨
    (∃ r lane b n, p = .relay .copying r ∧ r.inbound.step b = some (lane, n) ∧
      s' = { s with bytesIn := s.bytesIn + n } ∧ q = .relay .copying { r with inbound := lane } ∧
      started = []) ∨
    (∃ r lane b n, p = .relay .copying r ∧ r.outbound.step b = some (lane, n) ∧
      s' = { s with bytesOut := s.bytesOut + n } ∧
      q = .relay .copying { r with outbound := lane } ∧ started = []) ∨
    (∃ r, p = .relay .copying r ∧ r.inbound.tally = .shut ∧ r.outbound.tally = .shut ∧
      s' = s ∧ q = .relay .closing r ∧ started = []) ∨
    (∃ r, p = .relay .closing r ∧ s' = { s with conns := s.conns - 1 } ∧
      q = .relay .returned r ∧ started = []) := by
  unfold step at h
  split at h
  · split at h
    · cases h
      exact .inr (.inl ⟨rfl, rfl, rfl, rfl⟩)
    · cases h
      exact .inl ⟨.dial, .exit, .fail, [], rfl, rfl, rfl, rfl, fun _ => rfl⟩
    · cases h
  · rename_i g hdial
    split at h
    · rename_i b
      obtain ⟨t, ht, hq⟩ := Option.map_eq_some_iff.mp h
      cases hq
      exact .inl ⟨g, t.2.1, b, t.2.2, rfl, rfl, rfl, ht, fun hg => absurd hg hdial⟩
    · cases h
  · rename_i r
    split at h
    · rename_i b
      obtain ⟨t, ht, hq⟩ := Option.map_eq_some_iff.mp h
      cases hq
      exact .inr (.inr (.inl ⟨r, t.1, b, t.2, rfl, ht, rfl, rfl, rfl⟩))
    · rename_i b
      obtain ⟨t, ht, hq⟩ := Option.map_eq_some_iff.mp h
      cases hq
      exact .inr (.inr (.inr (.inl ⟨r, t.1, b, t.2, rfl, ht, rfl, rfl, rfl⟩)))
    · obtain ⟨⟨hin, hout⟩, ht⟩ := of_guard h
      cases ht
      exact .inr (.inr (.inr (.inr (.inl ⟨r, rfl, hin, hout, rfl, rfl, rfl⟩))))
    · cases h
  · rename_i r
    split at h
    · cases h
      exact .inr (.inr (.inr (.inr (.inr ⟨r, rfl, rfl, rfl, rfl⟩))))
    · cases h
  · cases h

/-- The relay is a handler of the rule as the limit sees it. -/
theorem refines : (program rule).Refines (ConnectionLimit.program rule) id view := by
  intro a s p s' q started h
  rcases step_cases h with ⟨g, g', b, new, rfl, rfl, rfl, hstep, -⟩ | ⟨rfl, rfl, rfl, rfl⟩ |
    ⟨r, lane, b, n, rfl, hlane, rfl, rfl, rfl⟩ | ⟨r, lane, b, n, rfl, hlane, rfl, rfl, rfl⟩ |
    ⟨r, rfl, hin, hout, rfl, rfl, rfl⟩ | ⟨r, rfl, rfl, rfl, rfl⟩
  · have hnew : (new.map Proc.plain).map view = new := by
      rw [List.map_map]
      exact List.map_id _
    exact .inl ⟨b, by rw [hnew]; exact hstep⟩
  · exact .inl ⟨.next, rfl⟩
  · rcases laneStep_cases hlane with ⟨e, -, htally, rfl⟩ | ⟨failed, -, htally, rfl, rfl⟩ |
      ⟨htally, rfl, rfl⟩
    · exact .inr ⟨by simp, by simp [view, htally], rfl⟩
    · refine .inl ⟨.copied (UInt64.ofNat r.inbound.copy.written), ?_⟩
      simp [ConnectionLimit.program, ConnectionLimit.step, view, htally]
    · exact .inr ⟨by simp, by simp [view, htally], rfl⟩
  · rcases laneStep_cases hlane with ⟨e, -, htally, rfl⟩ | ⟨failed, -, htally, rfl, rfl⟩ |
      ⟨htally, rfl, rfl⟩
    · exact .inr ⟨by simp, by simp [view, htally], rfl⟩
    · refine .inl ⟨.copiedBack (UInt64.ofNat r.outbound.copy.written), ?_⟩
      cases hin : decide (r.inbound.tally ≠ .copying) <;>
        simp [ConnectionLimit.program, ConnectionLimit.step, view, htally, hin]
    · exact .inr ⟨by simp, by simp [view, htally], rfl⟩
  · exact .inl ⟨.next, by simp [ConnectionLimit.program, ConnectionLimit.step, view, hin, hout]⟩
  · exact .inl ⟨.next, rfl⟩

theorem viewed_boot (loops : ℕ) : viewed id view (boot loops) = ConnectionLimit.boot loops := by
  simp [viewed, boot, ConnectionLimit.boot, view]

/-- The connections that are relayed are within the limit of the rule. -/
theorem relays_bounded (hmax : 0 < rule.maxConns) (loops : ℕ) (ms : List (Move Choice)) :
    Bounded rule (viewed id view ((program rule).run (boot loops) ms)) := by
  obtain ⟨ns, hns⟩ := refines.run (boot loops) ms
  rw [← hns, viewed_boot]
  exact Program.run_keeps (exec_bounded hmax) (boot_bounded hmax loops) ns

end

/-! ## What is carried -/

/-- A lane carries what it is sent, and is counted when its copy has returned. -/
structure Lane.Carries (lane : Lane) : Prop where
  copy : lane.copy.Faithful
  returned : lane.tally ≠ .copying → ∃ failed, lane.copy.phase = .returned failed

/-- What the lane has added to its counter. -/
def Lane.total (lane : Lane) : ℕ :=
  match lane.tally with
  | .copying => 0
  | _ => lane.copy.received.length

def isCopy : ConnectionLimit.Goroutine → Bool
  | .copy _ _ => true
  | _ => false

namespace Proc

def lanes : Proc → List Lane
  | .plain _ => []
  | .relay _ r => [r.inbound, r.outbound]

def totalIn : Proc → ℕ
  | .plain _ => 0
  | .relay _ r => r.inbound.total

def totalOut : Proc → ℕ
  | .plain _ => 0
  | .relay _ r => r.outbound.total

@[simp] theorem totalIn_plain (g : ConnectionLimit.Goroutine) : totalIn (.plain g) = 0 := rfl

@[simp] theorem totalIn_relay (stage : Stage) (r : Relay) :
    totalIn (.relay stage r) = r.inbound.total := rfl

@[simp] theorem totalOut_plain (g : ConnectionLimit.Goroutine) : totalOut (.plain g) = 0 := rfl

@[simp] theorem totalOut_relay (stage : Stage) (r : Relay) :
    totalOut (.relay stage r) = r.outbound.total := rfl

/-- The connections are not closed before both lanes are through. -/
def Carries : Proc → Prop
  | .plain g => isCopy g = false
  | .relay stage r => r.inbound.Carries ∧ r.outbound.Carries ∧
      (stage ≠ .copying → r.inbound.tally = .shut ∧ r.outbound.tally = .shut)

end Proc

/-- Every lane carries what it is sent, and the counters are what the lanes have added. -/
structure Carried (c : Config Counters Proc) : Prop where
  procs : ∀ p ∈ c.procs, p.Carries
  bytesIn : c.shared.bytesIn = UInt64.ofNat (c.procs.map Proc.totalIn).sum
  bytesOut : c.shared.bytesOut = UInt64.ofNat (c.procs.map Proc.totalOut).sum

section
variable {rule : ForwardRule} {a : Choice} {s s' : Counters} {p q : Proc} {started : List Proc}

@[simp] theorem Lane.total_start : Lane.start.total = 0 := rfl

theorem Lane.start_carries : Lane.start.Carries := ⟨Copy.start_faithful, fun h => absurd rfl h⟩

theorem Lane.Carries.step {lane lane' : Lane} {b : LaneChoice} {n : UInt64}
    (h : lane.Carries) (hstep : lane.step b = some (lane', n)) :
    lane'.Carries ∧ UInt64.ofNat lane'.total = UInt64.ofNat lane.total + n := by
  rcases laneStep_cases hstep with ⟨e, hcopy, htally, rfl⟩ | ⟨failed, hphase, htally, rfl, rfl⟩ |
    ⟨htally, rfl, rfl⟩
  · have hfaithful := h.copy.step hcopy
    by_cases hcopying : lane.tally = .copying
    · refine ⟨⟨hfaithful, fun hne => absurd (htally.trans hcopying) hne⟩, ?_⟩
      simp [Lane.total, htally, hcopying]
    · obtain ⟨failed, hphase⟩ := h.returned hcopying
      obtain ⟨hphase', hwritten⟩ := Copy.step_of_returned hphase hcopy
      refine ⟨⟨hfaithful, fun _ => ⟨failed, hphase'⟩⟩, ?_⟩
      have hsame : lane'.total = lane.total := by
        unfold Lane.total
        rw [htally, ← h.copy.written hphase, ← hfaithful.written hphase', hwritten]
      rw [hsame]
      simp
  · refine ⟨⟨h.copy, fun _ => ⟨failed, hphase⟩⟩, ?_⟩
    simp [Lane.total, htally, h.copy.written hphase]
  · have hreturned := h.returned (by simp [htally])
    refine ⟨⟨h.copy, fun _ => hreturned⟩, ?_⟩
    simp [Lane.total, htally]

/-- Goroutines that copy nothing leave the counters of the bytes alone. -/
theorem plain_step {b : ConnectionLimit.Choice} {g g' : ConnectionLimit.Goroutine}
    {new : List ConnectionLimit.Goroutine}
    (h : ConnectionLimit.step rule b s g = some (s', g', new)) (hg : isCopy g = false)
    (hdial : g = .dial → b = .fail) :
    s'.bytesIn = s.bytesIn ∧ s'.bytesOut = s.bytesOut ∧ isCopy g' = false ∧
      ∀ x ∈ new, isCopy x = false := by
  cases g with
  | cancel | refuse | rollback | exit =>
    cases h
    exact ⟨rfl, rfl, rfl, nofun⟩
  | start =>
    cases h
    exact ⟨rfl, rfl, rfl, by simp [isCopy]⟩
  | accept =>
    cases b <;> simp only [ConnectionLimit.step, reduceCtorEq] at h
    · cases h
      exact ⟨rfl, rfl, rfl, nofun⟩
    · split_ifs at h <;> cases h <;> exact ⟨rfl, rfl, rfl, nofun⟩
  | accepted ip =>
    cases ip <;> simp only [ConnectionLimit.step] at h
    · cases h
      exact ⟨rfl, rfl, rfl, nofun⟩
    · split_ifs at h <;> cases h <;> exact ⟨rfl, rfl, rfl, nofun⟩
  | count | counted conns =>
    simp only [ConnectionLimit.step] at h
    split_ifs at h <;> cases h <;> exact ⟨rfl, rfl, rfl, nofun⟩
  | dial =>
    obtain rfl := hdial rfl
    cases h
    exact ⟨rfl, rfl, rfl, nofun⟩
  | copy => cases hg
  | returned => cases h

/-- A step keeps what is carried, and adds to the counters what the totals gain. -/
theorem step_carries (h : step rule a s p = some (s', q, started)) (hp : p.Carries) :
    q.Carries ∧ (∀ x ∈ started, x.Carries ∧ x.totalIn = 0 ∧ x.totalOut = 0) ∧
      s'.bytesIn + UInt64.ofNat p.totalIn = s.bytesIn + UInt64.ofNat q.totalIn ∧
      s'.bytesOut + UInt64.ofNat p.totalOut = s.bytesOut + UInt64.ofNat q.totalOut := by
  rcases step_cases h with ⟨g, g', b, new, rfl, rfl, rfl, hstep, hdial⟩ | ⟨rfl, rfl, rfl, rfl⟩ |
    ⟨r, lane, b, n, rfl, hlane, rfl, rfl, rfl⟩ | ⟨r, lane, b, n, rfl, hlane, rfl, rfl, rfl⟩ |
    ⟨r, rfl, hin, hout, rfl, rfl, rfl⟩ | ⟨r, rfl, rfl, rfl, rfl⟩
  · obtain ⟨hbytesIn, hbytesOut, hg', hnew⟩ := plain_step hstep hp hdial
    refine ⟨hg', ?_, by simp [hbytesIn], by simp [hbytesOut]⟩
    intro x hx
    obtain ⟨y, hy, rfl⟩ := List.mem_map.mp hx
    exact ⟨hnew y hy, rfl, rfl⟩
  · exact ⟨⟨Lane.start_carries, Lane.start_carries, fun hne => absurd rfl hne⟩, List.forall_mem_nil _,
      by simp [Relay.start], by simp [Relay.start]⟩
  · obtain ⟨hin, hout, -⟩ := hp
    obtain ⟨hlane', htotal⟩ := hin.step hlane
    refine ⟨⟨hlane', hout, fun hne => absurd rfl hne⟩, List.forall_mem_nil _, ?_,
      by simp only [Proc.totalOut_relay]⟩
    simp only [Proc.totalIn_relay, htotal]
    ac_rfl
  · obtain ⟨hin, hout, -⟩ := hp
    obtain ⟨hlane', htotal⟩ := hout.step hlane
    refine ⟨⟨hin, hlane', fun hne => absurd rfl hne⟩, List.forall_mem_nil _,
      by simp only [Proc.totalIn_relay], ?_⟩
    simp only [Proc.totalOut_relay, htotal]
    ac_rfl
  · exact ⟨⟨hp.1, hp.2.1, fun _ => ⟨hin, hout⟩⟩, List.forall_mem_nil _, by simp, by simp⟩
  · exact ⟨⟨hp.1, hp.2.1, fun _ => hp.2.2 nofun⟩, List.forall_mem_nil _, by simp, by simp⟩

/-- The counter of a direction follows the total over all goroutines. -/
theorem counter_follows (total : Proc → ℕ) {l : List Proc} {i : ℕ} {x x' : UInt64}
    (hp : l[i]? = some p) (hx : x = UInt64.ofNat (l.map total).sum)
    (hstep : x' + UInt64.ofNat (total p) = x + UInt64.ofNat (total q))
    (hstarted : ∀ r ∈ started, total r = 0) :
    x' = UInt64.ofNat ((l.set i q ++ started).map total).sum := by
  have hmove := sum_map_move total started (q := q) hp
  have hnone : (started.map total).sum = 0 := by
    rw [List.sum_eq_zero_iff, List.forall_mem_map]
    exact hstarted
  rw [hnone, Nat.add_zero] at hmove
  have hsum := congrArg UInt64.ofNat hmove
  rw [UInt64.ofNat_add, UInt64.ofNat_add, ← hx, ← hstep] at hsum
  exact (UInt64.add_left_inj _).mp hsum.symm

theorem exec_carried (c : Config Counters Proc) (m : Move Choice) (h : Carried c) :
    Carried ((program rule).exec c m) := by
  rcases (program rule).exec_cases c m with ⟨p, s', q, started, hp, hstep, he⟩ | he
  · rw [he]
    obtain ⟨hq, hstarted, hbytesIn, hbytesOut⟩ :=
      step_carries hstep (h.procs p (List.mem_of_getElem? hp))
    refine ⟨fun x hx => ?_, ?_, ?_⟩
    · rcases List.mem_append.mp hx with hx | hx
      · exact forall_set h.procs hq x hx
      · exact (hstarted x hx).1
    · exact counter_follows Proc.totalIn hp h.bytesIn hbytesIn fun x hx => (hstarted x hx).2.1
    · exact counter_follows Proc.totalOut hp h.bytesOut hbytesOut fun x hx => (hstarted x hx).2.2
  · rw [he]
    exact h

theorem boot_carried (loops : ℕ) : Carried (boot loops) := by
  refine ⟨?_, ?_, ?_⟩
  · intro p hp
    obtain rfl | hp := List.mem_cons.mp hp
    · rfl
    · obtain rfl := List.eq_of_mem_replicate hp
      rfl
  · simp [boot, Proc.totalIn]
  · simp [boot, Proc.totalOut]

theorem run_carried (loops : ℕ) (ms : List (Move Choice)) :
    Carried ((program rule).run (boot loops) ms) :=
  Program.run_keeps exec_carried (boot_carried loops) ms

/-- What the two sides of the connections of a rule can rely on. -/
structure Relayed (rule : ForwardRule) (c : Config Counters Proc) : Prop where
  beginning : ∀ p ∈ c.procs, ∀ lane ∈ p.lanes, lane.copy.received <+: lane.copy.sent
  whole : ∀ p ∈ c.procs, ∀ lane ∈ p.lanes, lane.tally ≠ .copying →
    lane.copy.phase = .returned true ∨
      lane.copy.ended = true ∧ lane.copy.received = lane.copy.sent
  closed : ∀ stage r, .relay stage r ∈ c.procs → stage ≠ .copying →
    r.inbound.tally = .shut ∧ r.outbound.tally = .shut
  bytesIn : c.shared.bytesIn = UInt64.ofNat (c.procs.map Proc.totalIn).sum
  bytesOut : c.shared.bytesOut = UInt64.ofNat (c.procs.map Proc.totalOut).sum
  limit : 0 < rule.maxConns → Respected rule (viewed id view c)

theorem Proc.Carries.lane (hp : p.Carries) {lane : Lane} (hlane : lane ∈ p.lanes) :
    lane.Carries := by
  cases p with
  | plain g => cases hlane
  | relay stage r =>
    rcases List.mem_pair.mp hlane with rfl | rfl
    · exact hp.1
    · exact hp.2.1

/-- Whatever the peers send and whatever fails, in every interleaving of the connections: each
side has the beginning of what the other has sent, all of it where the copy has returned without
an error, and the counters of the rule are the bytes of the copies that have returned. -/
theorem relayed_run (loops : ℕ) (ms : List (Move Choice)) :
    Relayed rule ((program rule).run (boot loops) ms) := by
  have hcarried : Carried ((program rule).run (boot loops) ms) := run_carried loops ms
  constructor
  · intro p hp lane hlane
    exact ((hcarried.procs p hp).lane hlane).copy.isPrefix
  · intro p hp lane hlane htally
    have hcarries := (hcarried.procs p hp).lane hlane
    obtain ⟨failed, hphase⟩ := hcarries.returned htally
    cases failed with
    | false => exact .inr (hcarries.copy.whole hphase)
    | true => exact .inl hphase
  · intro stage r hr hstage
    exact (hcarried.procs _ hr).2.2 hstage
  · exact hcarried.bytesIn
  · exact hcarried.bytesOut
  · intro hmax
    exact (relays_bounded hmax loops ms).respected

end

/-! ## The end of a connection -/

section
variable {rule : ForwardRule}

/-- What a goroutine does, and its destination by taking what is written; nothing fails, and no more
is sent. -/
def LaneChoice.unhindered : LaneChoice → Prop
  | .copy e => e.unhindered
  | .count => True
  | .closeWrite => True

/-- The same of the handler. -/
def Choice.unhindered : Choice → Prop
  | .inbound a => a.unhindered
  | .outbound a => a.unhindered
  | .plain a => a = .next

def LaneStep (lane lane' : Lane) : Prop := ∃ a n, a.unhindered ∧ lane.step a = some (lane', n)

theorem reaches_of_run {lane : Lane} {c : Copy UInt8}
    (h : Run Copy.step (fun _ e => e.unhindered) lane.copy c) :
    Relation.ReflTransGen LaneStep lane { lane with copy := c } := by
  induction h with
  | refl => exact .refl
  | tail _ hlast ih =>
    obtain ⟨e, hfree, he⟩ := hlast
    exact ih.tail ⟨.copy e, 0, hfree, by simp only [Lane.step, he, Option.map_some]⟩

/-- A lane whose sender has ended comes to its end, and loses nothing if nothing fails. -/
theorem Lane.Carries.finishes {lane : Lane} (h : lane.Carries) (hended : lane.copy.ended = true) :
    ∃ lane', Relation.ReflTransGen LaneStep lane lane' ∧ lane'.tally = .shut ∧
      (lane.copy.phase ≠ .returned true → lane'.copy.received = lane.copy.sent) := by
  have hcopied : ∃ c failed, Relation.ReflTransGen LaneStep lane { lane with copy := c } ∧
      c.phase = .returned failed ∧
      (lane.copy.phase ≠ .returned true → c.received = lane.copy.sent) := by
    by_cases hfailed : lane.copy.phase = .returned true
    · exact ⟨lane.copy, true, .refl, hfailed, fun hne => absurd hfailed hne⟩
    · obtain ⟨c, hrun, hphase, hall⟩ := h.copy.finishes hended hfailed
      exact ⟨c, false, reaches_of_run hrun, hphase, fun _ => hall⟩
  obtain ⟨c, failed, hrun, hphase, hall⟩ := hcopied
  have hshut : ∀ copy : Copy UInt8, LaneStep ⟨copy, .counted⟩ ⟨copy, .shut⟩ :=
    fun copy => ⟨.closeWrite, 0, trivial, rfl⟩
  match htally : lane.tally with
  | .copying =>
    have hcount : LaneStep { lane with copy := c } ⟨c, .counted⟩ :=
      ⟨.count, .ofNat c.written, trivial, by simp only [Lane.step, hphase, htally]⟩
    exact ⟨⟨c, .shut⟩, (hrun.tail hcount).tail (hshut c), rfl, hall⟩
  | .counted =>
    have hsame : ({ lane with copy := c } : Lane) = ⟨c, .counted⟩ := by rw [htally]
    rw [hsame] at hrun
    exact ⟨⟨c, .shut⟩, hrun.tail (hshut c), rfl, hall⟩
  | .shut => exact ⟨_, hrun, htally, hall⟩

/-- Moves of goroutine `i` only, as long as nothing hinders it. -/
def Alone (rule : ForwardRule) (i : ℕ) (c c' : Config Counters Proc) : Prop :=
  ∃ ms : List (Move Choice), (∀ m ∈ ms, m.1 = i ∧ m.2.unhindered) ∧ (program rule).run c ms = c'

theorem Alone.trans {i : ℕ} {c c' c'' : Config Counters Proc} (h : Alone rule i c c')
    (h' : Alone rule i c' c'') : Alone rule i c c'' := by
  obtain ⟨ms, hms, rfl⟩ := h
  obtain ⟨ns, hns, rfl⟩ := h'
  refine ⟨ms ++ ns, ?_, List.foldl_append⟩
  intro m hm
  rcases List.mem_append.mp hm with hm | hm
  · exact hms m hm
  · exact hns m hm

theorem Alone.move {i : ℕ} {c : Config Counters Proc} {a : Choice} {s : Counters} {p q : Proc}
    (hp : c.procs[i]? = some p) (hfree : a.unhindered)
    (hstep : step rule a c.shared p = some (s, q, [])) : Alone rule i c ⟨s, c.procs.set i q⟩ := by
  refine ⟨[(i, a)], by simpa using hfree, ?_⟩
  have hexec : (program rule).step a c.shared p = some (s, q, []) := hstep
  simp only [Program.run_cons, Program.run_nil, Program.exec, hp, hexec, List.append_nil]

/-- The steps of one lane are moves of its handler. -/
theorem alone_of_lane {i : ℕ} (put : Lane → Proc) (turn : LaneChoice → Choice)
    (add : Counters → UInt64 → Counters) (hconns : ∀ s n, (add s n).conns = s.conns)
    (hfree : ∀ a, a.unhindered → (turn a).unhindered)
    (hturn : ∀ s lane a t, lane.step a = some t →
      step rule (turn a) s (put lane) = some (add s t.2, put t.1, []))
    {lane lane' : Lane} (h : Relation.ReflTransGen LaneStep lane lane')
    {c : Config Counters Proc} (hp : c.procs[i]? = some (put lane)) :
    ∃ s, s.conns = c.shared.conns ∧ Alone rule i c ⟨s, c.procs.set i (put lane')⟩ := by
  obtain ⟨hi, hself⟩ := List.getElem?_eq_some_iff.mp hp
  induction h with
  | refl =>
    have hset : c.procs.set i (put lane) = c.procs := by
      rw [← hself]
      exact List.set_getElem_self hi
    rw [hset]
    exact ⟨c.shared, rfl, [], nofun, rfl⟩
  | tail _ hlast ih =>
    obtain ⟨s, hs, halone⟩ := ih
    obtain ⟨a, n, hlane, ha⟩ := hlast
    rename_i mid last _
    have hmoved : Alone rule i ⟨s, c.procs.set i (put mid)⟩
        ⟨add s n, (c.procs.set i (put mid)).set i (put last)⟩ :=
      Alone.move (List.getElem?_set_self hi) (hfree a hlane) (hturn s mid a _ ha)
    rw [List.set_set] at hmoved
    exact ⟨add s n, (hconns s n).trans hs, halone.trans hmoved⟩

end

/-- A handler whose two peers have ended, and take what is written to them, can return without
anything else happening. It gives its place back, and each side has everything that the other has
sent, unless its lane had failed before. -/
theorem handler_returns (rule : ForwardRule) (loops : ℕ) (ms : List (Move Choice)) (i : ℕ) {r : Relay}
    (hp : ((program rule).run (boot loops) ms).procs[i]? = some (.relay .copying r))
    (hin : r.inbound.copy.ended = true) (hout : r.outbound.copy.ended = true) :
    ∃ s r', Alone rule i ((program rule).run (boot loops) ms)
        ⟨s, ((program rule).run (boot loops) ms).procs.set i (.relay .returned r')⟩ ∧
      s.conns = ((program rule).run (boot loops) ms).shared.conns - 1 ∧
      (r.inbound.copy.phase ≠ .returned true →
        r'.inbound.copy.received = r.inbound.copy.sent) ∧
      (r.outbound.copy.phase ≠ .returned true →
        r'.outbound.copy.received = r.outbound.copy.sent) := by
  obtain ⟨hcin, hcout, -⟩ := (run_carried loops ms).procs _ (List.mem_of_getElem? hp)
  generalize (program rule).run (boot loops) ms = c at hp ⊢
  obtain ⟨hi, -⟩ := List.getElem?_eq_some_iff.mp hp
  obtain ⟨inbound, hrunIn, hshutIn, hallIn⟩ := hcin.finishes hin
  obtain ⟨outbound, hrunOut, hshutOut, hallOut⟩ := hcout.finishes hout
  obtain ⟨s, hs, hfirst⟩ : ∃ s, s.conns = c.shared.conns ∧
      Alone rule i c ⟨s, c.procs.set i (.relay .copying ⟨inbound, r.outbound⟩)⟩ :=
    alone_of_lane (fun lane => .relay .copying ⟨lane, r.outbound⟩) .inbound
      (fun s n => { s with bytesIn := s.bytesIn + n }) (fun _ _ => rfl) (fun _ h => h)
      (fun _ _ _ _ h => by simp only [step, h, Option.map_some]) hrunIn hp
  obtain ⟨s', hs', hsecond⟩ : ∃ s', s'.conns = s.conns ∧
      Alone rule i ⟨s, c.procs.set i (.relay .copying ⟨inbound, r.outbound⟩)⟩
        ⟨s', (c.procs.set i (.relay .copying ⟨inbound, r.outbound⟩)).set i
          (.relay .copying ⟨inbound, outbound⟩)⟩ :=
    alone_of_lane (c := ⟨s, c.procs.set i (.relay .copying ⟨inbound, r.outbound⟩)⟩)
      (fun lane => .relay .copying ⟨inbound, lane⟩) .outbound
      (fun s n => { s with bytesOut := s.bytesOut + n }) (fun _ _ => rfl) (fun _ h => h)
      (fun _ _ _ _ h => by simp only [step, h, Option.map_some]) hrunOut
      (List.getElem?_set_self hi)
  rw [List.set_set] at hsecond
  have hclose : Alone rule i ⟨s', c.procs.set i (.relay .copying ⟨inbound, outbound⟩)⟩
      ⟨s', (c.procs.set i (.relay .copying ⟨inbound, outbound⟩)).set i
        (.relay .closing ⟨inbound, outbound⟩)⟩ :=
    .move (a := .plain .next) (List.getElem?_set_self hi) rfl (if_pos ⟨hshutIn, hshutOut⟩)
  rw [List.set_set] at hclose
  have hreturn : Alone rule i ⟨s', c.procs.set i (.relay .closing ⟨inbound, outbound⟩)⟩
      ⟨{ s' with conns := s'.conns - 1 }, (c.procs.set i (.relay .closing ⟨inbound, outbound⟩)).set i
        (.relay .returned ⟨inbound, outbound⟩)⟩ :=
    .move (a := .plain .next) (List.getElem?_set_self hi) rfl rfl
  rw [List.set_set] at hreturn
  refine ⟨_, ⟨inbound, outbound⟩, ((hfirst.trans hsecond).trans hclose).trans hreturn, ?_,
    hallIn, hallOut⟩
  show s'.conns - 1 = c.shared.conns - 1
  rw [hs', hs]

/-- A client sends three bytes and ends, and the target answers with one and ends. -/
def exchange : List (Move Choice) :=
  [(1, .plain (.connection (some "10.0.0.7"))), (1, .plain .next), (1, .plain .next),
    (1, .plain .next), (1, .plain .next), (2, .plain .next), (2, .inbound (.copy (.send [71, 69, 84]))),
    (2, .inbound (.copy (.read 2))), (2, .outbound (.copy (.send [33]))),
    (2, .inbound (.copy .finish)), (2, .outbound (.copy .finish))]

theorem handler_returns_exchange : ∃ s r', s.conns = 0 ∧
    r'.inbound.copy.received = [71, 69, 84] ∧ r'.outbound.copy.received = [33] ∧
    Alone single 2 ((program single).run (boot 1) exchange)
      ⟨s, ((program single).run (boot 1) exchange).procs.set 2 (.relay .returned r')⟩ := by
  obtain ⟨s, r', halone, hconns, hin, hout⟩ := handler_returns single 1 exchange 2 rfl rfl rfl
  exact ⟨s, r', hconns, hin nofun, hout nofun, halone⟩

end NetBerth.TCPRelay
