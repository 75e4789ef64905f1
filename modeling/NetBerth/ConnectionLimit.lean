import NetBerth.Goroutines
import NetBerth.ACLMatcher

/-!
# Admission under a connection limit

The accept loops of a rule, one for each TCP network, share a counter with the
handlers they start. A loop adds one for the connection it is about to admit
and takes it back if the sum is over the limit; a handler takes one off when it
returns. At any moment the counter is the number of handlers that have not
returned and of additions no handler has taken over yet. A loop that admits has
seen the counter at most at the limit with its own addition in it, so the
admitted connections never exceed the limit, whatever other loops have added
for a moment.
-/
namespace NetBerth.ConnectionLimit
open Interleaving Goroutines Rules RuleLoading ACLMatcher

/-- The counters of an instance, and whether its context is cancelled. Each
unit of `conns` belongs to a goroutine, so the 64 bits of the source do not
overflow. -/
structure Counters where
  conns : ℤ
  bytesIn : UInt64
  bytesOut : UInt64
  cancelled : Bool
  deriving DecidableEq, Repr

/-- The engine when it is about to cancel; `listen` at its statements, from
`Accept` on; and `handleTCP` with its two copying goroutines. -/
inductive Goroutine where
  | cancel
  | accept
  | accepted (ip : Option String)
  | count
  | counted (conns : ℤ)
  | rollback
  | refuse
  | start
  | dial
  | copy (inDone outDone : Bool)
  | exit
  | returned
  deriving DecidableEq, Repr

/-- What the network gives: a connection with the address of its client, if
that is a TCP address, or an error; an answer to a dial; the bytes copied. -/
inductive Choice where
  | next
  | connection (ip : Option String)
  | fail
  | copied (n : UInt64)
  | copiedBack (n : UInt64)
  deriving DecidableEq, Repr

def step (rule : ForwardRule) (a : Choice) (s : Counters) :
    Goroutine → Option (Counters × Goroutine × List Goroutine)
  | .cancel => some ({ s with cancelled := true }, .returned, [])
  | .accept =>
    match a with
    | .connection ip => some (s, .accepted ip, [])
    | .fail => if s.cancelled then some (s, .returned, []) else some (s, .accept, [])
    | _ => none
  | .accepted ip =>
    match ip with
    | none => some (s, .refuse, [])
    | some ip =>
      if (ruleMatcher netip rule.toForwardLists).isAllowed netip ip then some (s, .count, [])
      else some (s, .refuse, [])
  | .count =>
    -- `AddInt64` adds and returns the sum in one step
    if rule.maxConns > 0 then
      some ({ s with conns := s.conns + 1 }, .counted (s.conns + 1), [])
    else some ({ s with conns := s.conns + 1 }, .start, [])
  | .counted conns =>
    if conns > rule.maxConns then some (s, .rollback, []) else some (s, .start, [])
  | .rollback => some ({ s with conns := s.conns - 1 }, .refuse, [])
  | .refuse => some (s, .accept, [])
  | .start => some (s, .accept, [.dial])
  | .dial =>
    match a with
    | .next => some (s, .copy false false, [])
    | .fail => some (s, .exit, [])
    | _ => none
  | .copy false outDone =>
    match a with
    | .copied n => some ({ s with bytesIn := s.bytesIn + n }, .copy true outDone, [])
    | .copiedBack n =>
      if outDone then none else some ({ s with bytesOut := s.bytesOut + n }, .copy false true, [])
    | _ => none
  | .copy true false =>
    match a with
    | .copiedBack n => some ({ s with bytesOut := s.bytesOut + n }, .copy true true, [])
    | _ => none
  | .copy true true => some (s, .exit, [])
  | .exit => some ({ s with conns := s.conns - 1 }, .returned, [])
  | .returned => none

def program (rule : ForwardRule) : Program Counters Goroutine Choice := ⟨step rule⟩

/-- A new instance with this many accept loops. -/
def boot (loops : ℕ) : Config Counters Goroutine :=
  ⟨⟨0, 0, 0, false⟩, .cancel :: List.replicate loops .accept⟩

/-! ## Who stands behind the counter -/

/-- A handler that has not returned. -/
def live : Goroutine → Bool
  | .dial | .copy _ _ | .exit => true
  | _ => false

/-- An addition that is neither taken back nor handed to a handler. -/
def pending : Goroutine → Bool
  | .counted _ | .rollback | .start => true
  | _ => false

/-- A handler, or a loop that is going to start one. -/
def admitted (rule : ForwardRule) : Goroutine → Bool
  | .counted conns => conns ≤ rule.maxConns
  | .start => true
  | g => live g

/-- No accept is in progress, and no handler runs. -/
def idle : Goroutine → Bool
  | .cancel | .accept | .returned => true
  | _ => false

def Idle (c : Config Counters Goroutine) : Prop := ∀ g ∈ c.procs, idle g

/-- What the counter stands for, and that admissions respect the limit. -/
structure Bounded (rule : ForwardRule) (c : Config Counters Goroutine) : Prop where
  conns : c.shared.conns = c.procs.countP live + c.procs.countP pending
  admitted : (c.procs.countP (admitted rule) : ℤ) ≤ rule.maxConns

/-- What the limit promises of a state. -/
structure Respected (rule : ForwardRule) (c : Config Counters Goroutine) : Prop where
  limit : (c.procs.countP live : ℤ) ≤ rule.maxConns
  counter : c.shared.conns = c.procs.countP live + c.procs.countP pending
  nonneg : 0 ≤ c.shared.conns
  drained : Idle c → c.shared.conns = 0

section
variable {rule : ForwardRule} {a : Choice} {s s' : Counters}
  {p q : Goroutine} {started : List Goroutine}

/-- What a step can do to the counter and to who stands behind it. -/
theorem step_cases (h : step rule a s p = some (s', q, started)) :
    (s'.conns = s.conns ∧ started = [] ∧ live q = live p ∧ pending q = pending p ∧
      (admitted rule q → admitted rule p)) ∨
    (p = .count ∧ s'.conns = s.conns + 1 ∧ started = [] ∧
      (q = .counted s'.conns ∨ rule.maxConns ≤ 0 ∧ q = .start)) ∨
    (p = .rollback ∧ s'.conns = s.conns - 1 ∧ started = [] ∧ q = .refuse) ∨
    (p = .start ∧ s' = s ∧ started = [.dial] ∧ q = .accept) ∨
    (p = .exit ∧ s'.conns = s.conns - 1 ∧ started = [] ∧ q = .returned) := by
  cases p with
  | cancel | refuse =>
    cases h
    exact .inl ⟨rfl, rfl, rfl, rfl, id⟩
  | accept =>
    left
    cases a <;> simp only [step, reduceCtorEq] at h
    · cases h
      exact ⟨rfl, rfl, rfl, rfl, id⟩
    · split_ifs at h <;> cases h <;> exact ⟨rfl, rfl, rfl, rfl, id⟩
  | accepted ip =>
    left
    cases ip <;> simp only [step] at h
    · cases h
      exact ⟨rfl, rfl, rfl, rfl, id⟩
    · split_ifs at h <;> cases h <;> exact ⟨rfl, rfl, rfl, rfl, id⟩
  | count =>
    simp only [step] at h
    split_ifs at h with hmax <;> cases h
    · exact .inr (.inl ⟨rfl, rfl, rfl, .inl rfl⟩)
    · exact .inr (.inl ⟨rfl, rfl, rfl, .inr ⟨not_lt.mp hmax, rfl⟩⟩)
  | counted conns =>
    left
    simp only [step] at h
    split_ifs at h with hover <;> cases h
    · exact ⟨rfl, rfl, rfl, rfl, nofun⟩
    · exact ⟨rfl, rfl, rfl, rfl, fun _ => decide_eq_true (not_lt.mp hover)⟩
  | rollback =>
    cases h
    exact .inr (.inr (.inl ⟨rfl, rfl, rfl, rfl⟩))
  | start =>
    cases h
    exact .inr (.inr (.inr (.inl ⟨rfl, rfl, rfl, rfl⟩)))
  | dial =>
    left
    cases a <;> cases h <;> exact ⟨rfl, rfl, rfl, rfl, id⟩
  | copy inDone outDone =>
    left
    cases inDone <;> cases outDone <;> cases a <;> cases h <;> exact ⟨rfl, rfl, rfl, rfl, id⟩
  | exit =>
    cases h
    exact .inr (.inr (.inr (.inr ⟨rfl, rfl, rfl, rfl⟩)))
  | returned => cases h

/-- The counter moves with the goroutines that stand behind it. -/
theorem step_conns (h : step rule a s p = some (s', q, started)) :
    s'.conns + (live p).toNat + (pending p).toNat =
      s.conns + (live q).toNat + (pending q).toNat + started.countP live +
        started.countP pending := by
  rcases step_cases h with ⟨hconns, rfl, hlive, hpending, -⟩ | ⟨rfl, hconns, rfl, rfl | ⟨-, rfl⟩⟩ |
    ⟨rfl, hconns, rfl, rfl⟩ | ⟨rfl, rfl, rfl, rfl⟩ | ⟨rfl, hconns, rfl, rfl⟩
  · rw [hconns, hlive, hpending]
    simp
  all_goals simp [live, pending, *]

/-- A goroutine is newly admitted only by an addition that stays within the limit. -/
theorem step_admitted (h : step rule a s p = some (s', q, started)) (hmax : 0 < rule.maxConns) :
    (admitted rule q).toNat + started.countP (admitted rule) ≤ (admitted rule p).toNat ∨
      p = .count ∧ q = .counted s'.conns ∧ started = [] := by
  rcases step_cases h with ⟨-, rfl, -, -, himp⟩ | ⟨rfl, -, rfl, rfl | ⟨hle, -⟩⟩ |
    ⟨rfl, -, rfl, rfl⟩ | ⟨rfl, -, rfl, rfl⟩ | ⟨rfl, -, rfl, rfl⟩
  · exact .inl (Bool.toNat_le_toNat himp)
  · exact .inr ⟨rfl, rfl, rfl⟩
  · omega
  all_goals exact .inl (by simp [admitted, live])

theorem countP_admitted_le (rule : ForwardRule) (l : List Goroutine) :
    l.countP (admitted rule) ≤ l.countP live + l.countP pending := by
  induction l with
  | nil => exact le_rfl
  | cons g l ih =>
    have hg : (admitted rule g).toNat ≤ (live g).toNat + (pending g).toNat := by
      cases g <;> simp [admitted, live, pending, Bool.toNat_le]
    simp only [← sum_map_toNat, List.map_cons, List.sum_cons] at ih ⊢
    omega

theorem countP_live_le (rule : ForwardRule) (l : List Goroutine) :
    l.countP live ≤ l.countP (admitted rule) :=
  List.countP_mono_left fun g _ hg => by cases g <;> simp_all [admitted, live]

theorem boot_bounded (hmax : 0 < rule.maxConns) (loops : ℕ) : Bounded rule (boot loops) where
  conns := by simp [boot, List.countP_replicate, live, pending]
  admitted := by
    simp only [boot, List.countP_cons, List.countP_replicate]
    simpa [admitted, live] using hmax.le

theorem exec_bounded (hmax : 0 < rule.maxConns) (c : Config Counters Goroutine) (m : Move Choice)
    (h : Bounded rule c) : Bounded rule ((program rule).exec c m) := by
  rcases (program rule).exec_cases c m with ⟨p, s', q, started, hp, hstep, he⟩ | he
  · rw [he]
    have hlive := countP_move live started (q := q) hp
    have hpending := countP_move pending started (q := q) hp
    have hadmitted := countP_move (admitted rule) started (q := q) hp
    have hsum := step_conns hstep
    have hconns := h.conns
    have hconns' : s'.conns = (c.procs.set m.1 q ++ started).countP live +
        (c.procs.set m.1 q ++ started).countP pending := by omega
    refine ⟨hconns', ?_⟩
    have hbound := h.admitted
    rcases step_admitted hstep hmax with hle | ⟨rfl, rfl, rfl⟩
    · show ((c.procs.set m.1 q ++ started).countP (admitted rule) : ℤ) ≤ rule.maxConns
      omega
    · by_cases hover : s'.conns ≤ rule.maxConns
      · -- the sum the loop has seen counts every admitted connection
        have hall := countP_admitted_le rule (c.procs.set m.1 (.counted s'.conns) ++ [])
        show ((c.procs.set m.1 (.counted s'.conns) ++ []).countP (admitted rule) : ℤ) ≤ _
        omega
      · have hnot : admitted rule (.counted s'.conns) = false := by simpa [admitted] using hover
        rw [hnot] at hadmitted
        show ((c.procs.set m.1 (.counted s'.conns) ++ []).countP (admitted rule) : ℤ) ≤ _
        simp only [Bool.toNat_false, List.countP_nil] at hadmitted
        omega
  · rw [he]
    exact h

theorem Bounded.respected {c : Config Counters Goroutine} (h : Bounded rule c) :
    Respected rule c where
  limit := by
    have hle := countP_live_le rule c.procs
    have hadmitted := h.admitted
    omega
  counter := h.conns
  nonneg := by
    rw [h.conns]
    positivity
  drained hidle := by
    have hlive : c.procs.countP live = 0 := List.countP_eq_zero.mpr fun g hg hl => by
      have hg := hidle g hg
      cases g <;> simp_all [idle, live]
    have hpending : c.procs.countP pending = 0 := List.countP_eq_zero.mpr fun g hg hl => by
      have hg := hidle g hg
      cases g <;> simp_all [idle, pending]
    rw [h.conns, hlive, hpending]
    rfl

/-- In every state of every run the handlers are within the limit, and the
counter stands for them and for the additions that are still open. -/
theorem maxConns_respected (hmax : 0 < rule.maxConns) (loops : ℕ) (ms : List (Move Choice)) :
    Respected rule ((program rule).run (boot loops) ms) := by
  have hbounded : Bounded rule ((program rule).run (boot loops) ms) :=
    Program.run_keeps (exec_bounded hmax) (boot_bounded hmax loops) ms
  exact hbounded.respected

end

/-- A rule that admits one connection. -/
def single : ForwardRule :=
  ⟨⟨"r", "t", "o", "ssh", "tcp", "0.0.0.0", 2222, "10.0.0.2", 22, false, 1, true, "", ""⟩, ⟨[], []⟩⟩

/-- Two loops add for a connection each; the second sees two and takes its own back. -/
def race : List (Move Choice) :=
  [(1, .connection (some "10.0.0.7")), (2, .connection (some "10.0.0.8")), (1, .next), (2, .next),
    (1, .next), (2, .next), (2, .next), (1, .next), (2, .next), (1, .next)]

theorem maxConns_respected_race : 0 < single.maxConns ∧
    Respected single ((program single).run (boot 2) race) :=
  ⟨by decide, maxConns_respected (by decide) 2 race⟩

end NetBerth.ConnectionLimit
