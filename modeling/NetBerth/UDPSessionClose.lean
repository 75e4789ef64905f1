import NetBerth.UDPSessions

/-!
# What `close` leaves behind

`close` drops the sessions it finds under the lock. A listener that has already
read a datagram looks its client up afterwards all the same, dials, and stores a
session in the map that nobody is going to close any more: the reader finds
`done` closed and returns, and so does the cleaner. In a run in which no such
session is made, nothing is left.
-/
namespace NetBerth.UDPSessions
open Interleaving Goroutines Rules IPAddress

/-- `getOrCreate` makes a session after `close` has emptied the map. -/
def createsLate (s : Store) (a : Choice) : Goroutine → Bool
  | .getOrCreate _ addr _ =>
    match a with
    | .time _ => s.closeOnce = .done && (s.sessions.lookup (clientKey addr)).isNone
    | _ => false
  | _ => false

/-- The goroutine that moves makes no session after `close`. -/
def InTime (c : Config Store Goroutine) (m : Move Choice) : Prop :=
  ∀ g ∈ c.procs[m.1]?, createsLate c.shared m.2 g = false

instance (c : Config Store Goroutine) (m : Move Choice) : Decidable (InTime c m) :=
  inferInstanceAs (Decidable (∀ g ∈ c.procs[m.1]?, createsLate c.shared m.2 g = false))

/-- `close` has returned and so has every goroutine. -/
def Finished (c : Config Store Goroutine) : Prop :=
  c.shared.closeOnce = .done ∧ ∀ g ∈ c.procs, g = .returned

instance (c : Config Store Goroutine) : Decidable (Finished c) :=
  inferInstanceAs (Decidable (_ ∧ _))

/-- The map is empty, and every socket that was dialled is closed. -/
def NothingLeft (s : Store) : Prop := s.sessions = [] ∧ ∀ isOpen ∈ s.sockets, isOpen = false

instance (s : Store) : Decidable (NothingLeft s) := inferInstanceAs (Decidable (_ ∧ _))

section
variable {rule : ForwardRule} {ttl : ℤ} {a : Choice} {s s' : Store} {p q : Goroutine}
  {started : List Goroutine}

theorem drop_sessions_eq_nil {dead : Key × ℕ → Bool} (h : s.sessions = []) :
    (s.drop dead).sessions = [] := by
  rw [Store.drop, h]
  rfl

/-- Once `close` has emptied the map, only a late session gets into it. -/
theorem step_emptied (h : step rule ttl a s p = some (s', q, started))
    (hs : s.closeOnce = .done → s.sessions = []) (hlate : createsLate s a p = false) :
    s'.closeOnce = .done → s'.sessions = [] := by
  cases p with
  | closeSessions =>
    cases h
    intro _
    simp [Store.drop]
  | tick =>
    simp only [step] at h
    split at h <;> cases h
    exact fun hdone => drop_sessions_eq_nil (hs hdone)
  | getOrCreate l addr data =>
    simp only [step] at h
    split at h
    · obtain ⟨conn, -, he⟩ := Option.map_eq_some_iff.mp h
      cases he
      exact hs
    · rename_i now hlookup
      cases h
      intro hdone
      have hdone : s.closeOnce = .done := hdone
      simp [createsLate, hdone, hlookup] at hlate
    · cases h
      exact hs
    · cases h
  | failed key sess =>
    simp only [step] at h
    split_ifs at h <;> cases h
    · exact fun hdone => drop_sessions_eq_nil (hs hdone)
    · exact hs
  | answer key sess source data =>
    obtain ⟨x, -, he⟩ := Option.map_eq_some_iff.mp h
    cases he
    exact hs
  | _ =>
    simp only [step, reduceCtorEq] at h
    repeat' split at h
    all_goals cases h
    all_goals first | exact hs | (intro hdone; cases hdone)

/-- The open sockets are those of the sessions in the map. -/
theorem Inv.nothingLeft (h : Inv s) (hnil : s.sessions = []) : NothingLeft s := by
  refine ⟨hnil, ?_⟩
  intro b hb
  obtain ⟨i, hi⟩ := List.mem_iff_getElem?.mp hb
  by_contra hopen
  rw [Bool.not_eq_false] at hopen
  obtain ⟨e, he, -⟩ := (h.isOpen i).mp (hopen ▸ hi)
  rw [hnil] at he
  cases he

theorem exec_emptied (c : Config Store Goroutine) (m : Move Choice)
    (hc : Kept c ∧ (c.shared.closeOnce = .done → c.shared.sessions = [])) (hm : InTime c m) :
    Kept ((program rule ttl).exec c m) ∧ (((program rule ttl).exec c m).shared.closeOnce = .done →
      ((program rule ttl).exec c m).shared.sessions = []) := by
  refine ⟨exec_kept c m hc.1, ?_⟩
  rcases (program rule ttl).exec_cases c m with ⟨p, s, q, started, hp, hstep, he⟩ | he
  · rw [he]
    exact step_emptied hstep hc.2 (hm p hp)
  · rw [he]
    exact hc.2

end

/-- In a run in which no session is made after `close`, nothing is left when
`close` has returned. -/
theorem nothing_left_of_inTime (rule : ForwardRule) (ttl : ℤ) (closers listeners : ℕ)
    (ms : List (Move Choice))
    (h : (program rule ttl).Along InTime (boot closers listeners) ms) :
    Finished ((program rule ttl).run (boot closers listeners) ms) →
      NothingLeft ((program rule ttl).run (boot closers listeners) ms).shared := by
  rintro ⟨hdone, -⟩
  have hstart : (boot closers listeners).shared.closeOnce = .done →
      (boot closers listeners).shared.sessions = [] := nofun
  obtain ⟨hkept, hempty⟩ := Program.run_invariant exec_emptied
    (And.intro (boot_kept closers listeners) hstart) h
  exact hkept.1.nothingLeft (hempty hdone)

def dns : ForwardRule :=
  ⟨⟨"r", "t", "o", "dns", "udp", "0.0.0.0", 53, "10.0.0.2", 53, false, 0, true, "", ""⟩, ⟨[], []⟩⟩

def client : UDPAddr := ⟨[10, 0, 0, 7], 5353, ""⟩

/-- A query that is answered by nobody until the rule is stopped. -/
def timelyDatagram : List (Move Choice) :=
  [(3, .next), (3, .datagram client [1]), (3, .next), (3, .time 5), (3, .next), (4, .next),
    (3, .next), (0, .next), (2, .next), (2, .next), (2, .next), (2, .next), (1, .next), (3, .next),
    (4, .fail), (4, .next)]

theorem nothing_left_of_inTime_timelyDatagram :
    (program dns 30).Along InTime (boot 1 1) timelyDatagram ∧
      Finished ((program dns 30).run (boot 1 1) timelyDatagram) ∧
      NothingLeft ((program dns 30).run (boot 1 1) timelyDatagram).shared :=
  ⟨by decide, by decide, nothing_left_of_inTime dns 30 1 1 timelyDatagram (by decide) (by decide)⟩

/-- The listener has read the query when the rule is cancelled and closed, and
looks the client up afterwards. -/
def lateDatagram : List (Move Choice) :=
  [(3, .next), (3, .datagram client [1]), (3, .next), (0, .next), (2, .next), (2, .next),
    (2, .next), (2, .next), (1, .next), (3, .time 5), (3, .next), (3, .next), (3, .next), (4, .next)]

theorem late_datagram_leaves_session :
    ¬∀ (rule : ForwardRule) (ttl : ℤ) (closers listeners : ℕ) (ms : List (Move Choice)),
      Finished ((program rule ttl).run (boot closers listeners) ms) →
        NothingLeft ((program rule ttl).run (boot closers listeners) ms).shared := by
  intro h
  have hleft := h dns 30 1 1 lateDatagram (by decide)
  revert hleft
  decide

end NetBerth.UDPSessions
