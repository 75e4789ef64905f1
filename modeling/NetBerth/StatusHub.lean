import NetBerth.ReadersWriter

/-!
# The hub of the status page

Each websocket connection is put into a map by its handler and taken out by its read loop, under a
lock for writing. The broadcaster goes through the map under the lock for reading and writes the
status to each connection.

So a broadcast goes to the connections that are in the map when it takes the lock, to each of them
once, and none of them is closed by the hub in the meantime. A connection that does not take what
is written to it keeps the lock where it is.
-/
namespace NetBerth.StatusHub
open Interleaving ReadersWriter

abbrev Conn := ℕ

/-- The map with its lock, how many connections there have been, those that the hub has closed,
and what each broadcast has found in the map and written to. -/
structure Hub where
  lock : Lock
  clients : Finset Conn
  opened : ℕ
  closed : Finset Conn
  broadcasts : List (Finset Conn × List Conn)
  deriving DecidableEq

/-- `Broadcast`, and `HandleWS` with the read loop that it starts at its end. -/
inductive Proc where
  | ticking
  | built
  | ranging (clients : Finset Conn) (written : List Conn)
  | upgrading
  | refused
  | registering (conn : Conn)
  | adding (conn : Conn)
  | added (conn : Conn)
  | reading (conn : Conn)
  | leaving (conn : Conn)
  | deleting (conn : Conn)
  | deleted (conn : Conn)
  | closing (conn : Conn)
  | closed (conn : Conn)
  deriving DecidableEq

/-- Which connection the iteration comes to next, or whether a call fails. -/
inductive Choice where
  | next
  | fail
  | visit (conn : Conn)
  deriving DecidableEq, Repr

def step (a : Choice) (s : Hub) : Proc → Option (Hub × Proc)
  -- `Broadcast`
  | .ticking => some (s, .built)
  | .built => s.lock.rLock.map fun l => ({ s with lock := l }, .ranging s.clients [])
  | .ranging clients written =>
    match a with
    | .visit conn =>
      if conn ∈ s.clients ∧ conn ∉ written then some (s, .ranging clients (conn :: written))
      else none
    | .next =>
      if ∀ conn ∈ s.clients, conn ∈ written then
        some ({ s with
          lock := s.lock.rUnlock
          broadcasts := (clients, written) :: s.broadcasts }, .ticking)
      else none
    | .fail => none
  -- `HandleWS`
  | .upgrading =>
    match a with
    | .fail => some (s, .refused)
    | _ => some ({ s with opened := s.opened + 1 }, .registering s.opened)
  | .registering conn => s.lock.lock.map fun l => ({ s with lock := l }, .adding conn)
  | .adding conn => some ({ s with clients := insert conn s.clients }, .added conn)
  | .added conn => some ({ s with lock := s.lock.unlock }, .reading conn)
  -- `readLoop`
  | .reading conn =>
    match a with
    | .fail => some (s, .leaving conn)
    | _ => some (s, .reading conn)
  | .leaving conn => s.lock.lock.map fun l => ({ s with lock := l }, .deleting conn)
  | .deleting conn => some ({ s with clients := s.clients.erase conn }, .deleted conn)
  | .deleted conn => some ({ s with lock := s.lock.unlock }, .closing conn)
  | .closing conn => some ({ s with closed := insert conn s.closed }, .closed conn)
  | .refused | .closed _ => none

def machine : Machine Hub Proc Unit Choice := ⟨fun _ => .upgrading, step⟩

/-- A new hub with its broadcaster. -/
def boot : Config Hub Proc := ⟨⟨⟨0, false⟩, ∅, 0, ∅, []⟩, [.ticking]⟩

namespace Proc

def mode : Proc → Mode
  | ranging _ _ => .reading
  | adding _ | added _ | deleting _ | deleted _ => .writing
  | _ => .free

/-- The connection that a handler has opened. -/
def conn : Proc → Option Conn
  | ticking | built | ranging _ _ | upgrading | refused => none
  | registering conn | adding conn | added conn | reading conn | leaving conn | deleting conn
  | deleted conn | closing conn | closed conn => some conn

/-- The connections that are in the map because of the process. -/
def inMap : Proc → Option Conn
  | added conn | reading conn | leaving conn | deleting conn => some conn
  | _ => none

def isClosed : Proc → Option Conn
  | closed conn => some conn
  | _ => none

theorem conn_of_inMap {p : Proc} {x : Conn} (h : p.inMap = some x) : p.conn = some x := by
  cases p <;> first | exact h | cases h

theorem conn_of_isClosed {p : Proc} {x : Conn} (h : p.isClosed = some x) :
    p.conn = some x ∧ p.inMap = none := by
  cases p <;> first | exact ⟨h, rfl⟩ | cases h

end Proc

/-- Two processes have no connection in common. -/
def Apart (p q : Proc) : Prop := ∀ x, p.conn = some x → q.conn ≠ some x

/-- What a process knows of the map. -/
def Knows (s : Hub) : Proc → Prop
  | .ranging clients written => s.clients = clients ∧ written.Nodup ∧ ∀ x ∈ written, x ∈ clients
  | p => ∀ x ∈ p.conn, x < s.opened

/-- The map belongs to the handlers, and the broadcasts were complete. -/
structure Inv (c : Config Hub Proc) : Prop where
  held : Held c.shared.lock (c.procs.map Proc.mode)
  apart : Pairs Apart c.procs
  clients : Owned Proc.inMap c.shared.clients c.procs
  closed : Owned Proc.isClosed c.shared.closed c.procs
  knows : ∀ p ∈ c.procs, Knows c.shared p
  broadcasts : ∀ b ∈ c.shared.broadcasts, b.2.Nodup ∧ ∀ x, x ∈ b.2 ↔ x ∈ b.1

section
variable {c : Config Hub Proc} {s' : Hub} {i : ℕ} {p q : Proc}

theorem Apart.set (h : Pairs Apart c.procs) (hp : c.procs[i]? = some p) (hq : q.conn = p.conn) :
    Pairs Apart (c.procs.set i q) := by
  refine h.set fun j r hji hr => ⟨?_, ?_⟩
  · intro x hx
    exact h i j p r (Ne.symm hji) hp hr x (hq ▸ hx)
  · intro x hx
    rw [hq]
    exact h j i r p hji hr hp x hx

theorem Knows.mono {s : Hub} {r : Proc} (h : Knows s r) (hclients : s'.clients = s.clients)
    (hopened : s.opened ≤ s'.opened) : Knows s' r := by
  cases r with
  | ranging clients written => exact ⟨hclients.trans h.1, h.2⟩
  | _ => exact fun x hx => lt_of_lt_of_le (h x hx) hopened

/-- While a process writes to the map, no broadcast is going through it. -/
theorem Inv.knows_writing (h : Inv c) (hp : p ∈ c.procs) (hmode : p.mode = .writing)
    (hopened : s'.opened = c.shared.opened) : ∀ r ∈ c.procs, Knows s' r := by
  intro r hr
  have hknows := h.knows r hr
  cases r with
  | ranging clients written =>
    exact (h.held.not_both (List.mem_map.mpr ⟨_, hr, rfl⟩) (List.mem_map.mpr ⟨p, hp, hmode⟩)).elim
  | _ =>
    intro x hx
    rw [hopened]
    exact hknows x hx

/-- A move of one process, with what it has to see to. -/
theorem Inv.move (h : Inv c) (hp : c.procs[i]? = some p) (hconn : q.conn = p.conn)
    (held : Held s'.lock ((c.procs.map Proc.mode).set i q.mode))
    (clients : Owned Proc.inMap s'.clients (c.procs.set i q))
    (closed : Owned Proc.isClosed s'.closed (c.procs.set i q))
    (hq : Knows s' q) (hothers : ∀ r ∈ c.procs, Knows s' r)
    (broadcasts : ∀ b ∈ s'.broadcasts, b.2.Nodup ∧ ∀ x, x ∈ b.2 ↔ x ∈ b.1) :
    Inv ⟨s', c.procs.set i q⟩ where
  held := by
    rw [List.map_set]
    exact held
  apart := Apart.set h.apart hp hconn
  clients := clients
  closed := closed
  knows := forall_set hothers hq
  broadcasts := broadcasts

theorem Inv.mode_at (hp : c.procs[i]? = some p) : (c.procs.map Proc.mode)[i]? = some p.mode := by
  rw [List.getElem?_map, hp, Option.map_some]

theorem Inv.step (h : Inv c) {a : Choice} (hp : c.procs[i]? = some p)
    (hstep : StatusHub.step a c.shared p = some (s', q)) : Inv ⟨s', c.procs.set i q⟩ := by
  have hmem : p ∈ c.procs := List.mem_of_getElem? hp
  have hmode := Inv.mode_at hp
  have hknows := h.knows p hmem
  have hstay : ∀ r ∈ c.procs, Knows c.shared r := h.knows
  cases p with
  | ticking =>
    cases hstep
    exact h.move hp rfl (h.held.same hmode) (h.clients.same hp rfl) (h.closed.same hp rfl) nofun
      hstay h.broadcasts
  | built =>
    obtain ⟨l, hl, hq⟩ := Option.map_eq_some_iff.mp hstep
    cases hq
    exact h.move hp rfl (h.held.rLock hmode hl) (h.clients.same hp rfl) (h.closed.same hp rfl)
      ⟨rfl, List.nodup_nil, nofun⟩ (fun r hr => (hstay r hr).mono rfl le_rfl) h.broadcasts
  | ranging clients written =>
    obtain ⟨hclients, hnodup, hsub⟩ := hknows
    cases a with
    | visit conn =>
      obtain ⟨⟨hconn, hnew⟩, hq⟩ := Option.ite_none_right_eq_some.mp hstep
      cases hq
      refine h.move hp rfl (h.held.same hmode) (h.clients.same hp rfl) (h.closed.same hp rfl)
        ⟨hclients, List.nodup_cons.mpr ⟨hnew, hnodup⟩, ?_⟩ hstay h.broadcasts
      intro x hx
      rcases List.mem_cons.mp hx with rfl | hx
      · exact hclients ▸ hconn
      · exact hsub x hx
    | next =>
      obtain ⟨hall, hq⟩ := Option.ite_none_right_eq_some.mp hstep
      cases hq
      refine h.move hp rfl (h.held.rUnlock hmode) (h.clients.same hp rfl) (h.closed.same hp rfl)
        nofun (fun r hr => (hstay r hr).mono rfl le_rfl) ?_
      intro b hb
      rcases List.mem_cons.mp hb with rfl | hb
      · exact ⟨hnodup, fun x => ⟨hsub x, fun hx => hall x (hclients ▸ hx)⟩⟩
      · exact h.broadcasts b hb
    | fail => cases hstep
  | upgrading =>
    have hfresh : ∀ j r, j ≠ i → c.procs[j]? = some r → r.conn ≠ some c.shared.opened := by
      intro j r hji hr hconn
      have hr := hstay r (List.mem_of_getElem? hr)
      cases r with
      | ranging clients written => cases hconn
      | _ => exact absurd (hr _ hconn) (lt_irrefl _)
    have hopens : Inv ⟨{ c.shared with opened := c.shared.opened + 1 },
        c.procs.set i (.registering c.shared.opened)⟩ := by
      refine ⟨?_, ?_, h.clients.same hp rfl, h.closed.same hp rfl, ?_, h.broadcasts⟩
      · rw [List.map_set]
        exact h.held.same hmode
      · refine h.apart.set fun j r hji hr => ⟨?_, ?_⟩
        · intro x hx
          cases hx
          exact hfresh j r hji hr
        · intro x hx hsame
          cases hsame
          exact hfresh j r hji hr hx
      · refine forall_set (fun r hr => (hstay r hr).mono rfl (Nat.le_succ _)) ?_
        intro x hx
        cases hx
        exact Nat.lt_succ_self _
    cases a with
    | fail =>
      cases hstep
      exact h.move hp rfl (h.held.same hmode) (h.clients.same hp rfl) (h.closed.same hp rfl) nofun
        hstay h.broadcasts
    | next | visit conn =>
      cases hstep
      exact hopens
  | registering conn | leaving conn =>
    obtain ⟨l, hl, hq⟩ := Option.map_eq_some_iff.mp hstep
    cases hq
    exact h.move hp rfl (h.held.lock hmode hl) (h.clients.same hp rfl) (h.closed.same hp rfl)
      hknows (fun r hr => (hstay r hr).mono rfl le_rfl) h.broadcasts
  | adding conn =>
    cases hstep
    exact h.move hp rfl (h.held.same hmode) (h.clients.insert hp rfl rfl) (h.closed.same hp rfl)
      hknows (h.knows_writing hmem rfl rfl) h.broadcasts
  | added conn | deleted conn =>
    cases hstep
    exact h.move hp rfl (h.held.unlock hmode) (h.clients.same hp rfl) (h.closed.same hp rfl)
      hknows (fun r hr => (hstay r hr).mono rfl le_rfl) h.broadcasts
  | reading conn =>
    cases a <;> cases hstep
    all_goals
      exact h.move hp rfl (h.held.same hmode) (h.clients.same hp rfl) (h.closed.same hp rfl) hknows
        hstay h.broadcasts
  | deleting conn =>
    cases hstep
    refine h.move hp rfl (h.held.same hmode) (h.clients.erase hp rfl rfl ?_) (h.closed.same hp rfl)
      hknows (h.knows_writing hmem rfl rfl) h.broadcasts
    intro j r hji hr hmap
    exact h.apart i j _ r (Ne.symm hji) hp hr conn rfl (Proc.conn_of_inMap hmap)
  | closing conn =>
    cases hstep
    exact h.move hp rfl (h.held.same hmode) (h.clients.same hp rfl) (h.closed.insert hp rfl rfl)
      hknows (fun r hr => (hstay r hr).mono rfl le_rfl) h.broadcasts
  | refused | closed conn => cases hstep

theorem exec_inv (a : Act Unit Choice) (h : Inv c) : Inv (machine.exec c a) := by
  rcases machine.exec_cases c a with ⟨r, -, he⟩ | ⟨i, b, p, s, q, -, hp, hs, he⟩ | he
  · rw [he]
    refine ⟨?_, ?_, h.clients.spawn rfl, h.closed.spawn rfl, ?_, h.broadcasts⟩
    · rw [List.map_append]
      exact h.held.spawn
    · exact h.apart.spawn fun p _ => ⟨fun _ _ => nofun, nofun⟩
    · intro p hp
      rcases List.mem_append.mp hp with hp | hp
      · exact h.knows p hp
      · obtain rfl := List.mem_singleton.mp hp
        exact nofun
  · rw [he]
    exact h.step hp hs
  · rw [he]
    exact h

theorem boot_inv : Inv boot := by
  refine ⟨held_nil.spawn, ?_, ?_, ?_, ?_, nofun⟩
  · intro j k p q hjk hp hq x hx
    have hp := List.mem_singleton.mp (List.mem_of_getElem? hp)
    subst hp
    cases hx
  · intro x
    simp [boot, Proc.inMap]
  · intro x
    simp [boot, Proc.isClosed]
  · intro p hp
    obtain rfl := List.mem_singleton.mp hp
    exact nofun

/-- What the clients of the hub can rely on. -/
structure Consistent (c : Config Hub Proc) : Prop where
  registered : ∀ x, x ∈ c.shared.clients ↔ ∃ p ∈ c.procs, p.inMap = some x
  unclosed : ∀ x ∈ c.shared.clients, x ∉ c.shared.closed
  still : ∀ clients written, .ranging clients written ∈ c.procs →
    c.shared.clients = clients ∧ written.Nodup ∧ ∀ x ∈ written, x ∈ c.shared.clients
  delivered : ∀ b ∈ c.shared.broadcasts, b.2.Nodup ∧ ∀ x, x ∈ b.2 ↔ x ∈ b.1

theorem Inv.consistent (h : Inv c) : Consistent c where
  registered := h.clients
  unclosed := by
    intro x hx hclosed
    obtain ⟨p, hp, hmap⟩ := (h.clients x).mp hx
    obtain ⟨q, hq, hdone⟩ := (h.closed x).mp hclosed
    obtain ⟨i, hi⟩ := List.mem_iff_getElem?.mp hp
    obtain ⟨j, hj⟩ := List.mem_iff_getElem?.mp hq
    obtain ⟨hconn, hnone⟩ := Proc.conn_of_isClosed hdone
    by_cases hij : i = j
    · subst hij
      obtain rfl : p = q := Option.some.inj (hi.symm.trans hj)
      rw [hnone] at hmap
      cases hmap
    · exact h.apart i j p q hij hi hj x (Proc.conn_of_inMap hmap) hconn
  still := by
    intro clients written hranging
    obtain ⟨hclients, hnodup, hsub⟩ := h.knows _ hranging
    exact ⟨hclients, hnodup, fun x hx => hclients ▸ hsub x hx⟩
  delivered := h.broadcasts

/-- In every interleaving of connections that come and go with the broadcasts: the map holds the
connections between their registration and their removal, a broadcast writes once to each one that
it finds and to no other, and to none that the hub has closed. -/
theorem hub_consistent (as : List (Act Unit Choice)) : Consistent (machine.run boot as) :=
  (machine.run_keeps (fun _ a h => exec_inv a h) boot_inv as).consistent

/-! ## A client that does not take the status -/

/-- Who does not move stays where it is. -/
theorem getElem?_run {as : List (Act Unit Choice)} (hp : c.procs[i]? = some p)
    (has : ∀ a, .run i a ∉ as) : (machine.run c as).procs[i]? = some p := by
  induction as generalizing c with
  | nil => exact hp
  | cons a as ih =>
    refine ih ?_ fun b hb => has b (List.mem_cons_of_mem a hb)
    obtain ⟨hi, -⟩ := List.getElem?_eq_some_iff.mp hp
    rcases machine.exec_cases c a with ⟨r, -, he⟩ | ⟨j, b, r, s, q, rfl, hr, hs, he⟩ | he
    · rw [he, List.getElem?_append_left hi]
      exact hp
    · have hji : j ≠ i := by
        rintro rfl
        exact has b List.mem_cons_self
      rw [he, List.getElem?_set_ne hji]
      exact hp
    · rw [he]
      exact hp

/-- As long as a broadcast does not get on, because a connection does not take what is written to
it, the map stays as it is: whatever else happens, no connection is registered or taken out. -/
theorem held_up {as bs : List (Act Unit Choice)} {clients : Finset Conn} {written : List Conn}
    (hp : (machine.run boot as).procs[i]? = some (.ranging clients written))
    (hbs : ∀ a, .run i a ∉ bs) :
    (machine.run (machine.run boot as) bs).shared.clients = clients ∧
      ∀ p ∈ (machine.run (machine.run boot as) bs).procs, p.mode ≠ .writing := by
  have hstays : (machine.run (machine.run boot as) bs).procs[i]? =
      some (.ranging clients written) := getElem?_run hp hbs
  have hinv : Inv (machine.run (machine.run boot as) bs) :=
    machine.run_keeps (fun _ a h => exec_inv a h)
      (machine.run_keeps (fun _ a h => exec_inv a h) boot_inv as) bs
  have hmem := List.mem_of_getElem? hstays
  refine ⟨(hinv.knows _ hmem).1, ?_⟩
  intro p hp hmode
  exact hinv.held.not_both (List.mem_map.mpr ⟨_, hmem, rfl⟩) (List.mem_map.mpr ⟨p, hp, hmode⟩)

end

/-- One client is registered, and a broadcast begins. -/
def begun : List (Act Unit Choice) :=
  [.spawn (), .run 1 .next, .run 1 .next, .run 1 .next, .run 1 .next, .run 0 .next, .run 0 .next]

/-- A second client is not registered. -/
theorem held_up_second :
    (machine.run (machine.run boot begun) [.spawn (), .run 2 .next, .run 2 .next]).shared.clients =
      {0} := by
  have hp : (machine.run boot begun).procs[0]? = some (.ranging {0} []) := rfl
  exact (held_up hp (by simp)).1

end NetBerth.StatusHub
