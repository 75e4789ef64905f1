import NetBerth.ACLMatcher
import NetBerth.Goroutines
import NetBerth.UDPAddress

/-!
# The UDP sessions of a rule

The listeners of a rule share one map from clients to sessions, each of them
with a socket of its own to the backend. A listener looks the client up or
dials; a reader for each session carries the answers back; a cleaner drops what
has not been used; and `close` drops everything when the rule is stopped.

A session is dropped together with its entry and its socket, under the lock of
the map, so an entry always names a session with an open socket, and an open
socket always belongs to an entry. A reader that finds its socket dead compares
the session under its key with its own before it drops anything: the key may
have been given to another session since.
-/
namespace NetBerth.UDPSessions
open Interleaving Goroutines Rules RuleLoading ACLMatcher IPAddress

structure Key where
  network : String
  addr : String
  deriving DecidableEq, Repr

/-- A session, less its `lastUsed`. The socket and the listener are numbered. -/
structure Session where
  conn : ℕ
  clientConn : ℕ
  clientAddr : UDPAddr
  deriving DecidableEq, Repr

/-- `sync.Once`, before, during and after its call. -/
inductive Once where
  | fresh
  | running
  | done
  deriving DecidableEq, Repr

/-- A datagram from a backend socket that is sent to a client. -/
structure Answer where
  source : ℕ
  clientConn : ℕ
  clientAddr : UDPAddr
  data : List UInt8
  deriving DecidableEq, Repr

/-- A datagram of a client that is sent to the backend. -/
structure Query where
  clientAddr : UDPAddr
  conn : ℕ
  data : List UInt8
  deriving DecidableEq, Repr

/-- The session map, and what exists outside it: the sessions ever made, by
number, with the time each was last used; the sockets ever dialled, and whether
they are open; and what was sent. -/
structure Store where
  cancelled : Bool
  done : Bool
  closeOnce : Once
  sessions : List (Key × ℕ)
  made : List Session
  lastUsed : List ℤ
  sockets : List Bool
  answers : List Answer
  queries : List Query
  deriving DecidableEq, Repr

/-- The engine before it cancels the rule; `close` from the wait for that on,
and inside `closeOnce`; the cleaner at its `select` and with a tick; `handleUDP`
of a listener; and `sessionReader`. -/
inductive Goroutine where
  | cancel
  | awaitCancel
  | close
  | closeDone
  | closeSessions
  | clean
  | tick
  | select (listener : ℕ)
  | read (listener : ℕ)
  | received (listener : ℕ) (addr : UDPAddr) (data : List UInt8)
  | getOrCreate (listener : ℕ) (addr : UDPAddr) (data : List UInt8)
  | created (listener : ℕ) (addr : UDPAddr) (data : List UInt8) (key : Key) (sess conn : ℕ)
  | write (listener : ℕ) (addr : UDPAddr) (data : List UInt8) (conn : ℕ)
  | check (key : Key) (sess : ℕ)
  | receive (key : Key) (sess : ℕ)
  | answer (key : Key) (sess source : ℕ) (data : List UInt8)
  | failed (key : Key) (sess : ℕ)
  | returned
  deriving DecidableEq, Repr

/-- What the clock and the network give: the time, or the times at which the
cleaner looks at the sessions; a datagram of a client, or of the backend; a
timeout or an error. -/
inductive Choice where
  | next
  | time (now : ℤ)
  | times (now : List ℤ)
  | datagram (addr : UDPAddr) (data : List UInt8)
  | data (data : List UInt8)
  | fail
  deriving DecidableEq, Repr

def udpBufSize : ℕ := 65535

/-- The key `handleUDP` makes, whichever its own network is. -/
def clientKey (addr : UDPAddr) : Key := ⟨"udp", addr.string⟩

/-- `newUDPSessionMapWithOptions`. -/
def newStore : Store := ⟨false, false, .fresh, [], [], [], [], [], []⟩

def Store.connOf (s : Store) (sess : ℕ) : Option ℕ := (s.made[sess]?).map Session.conn

/-- Close the sockets of these sessions and delete them from the map. -/
def Store.drop (s : Store) (dead : Key × ℕ → Bool) : Store :=
  { s with
    sessions := s.sessions.filter fun e => !dead e
    sockets := s.sockets.mapIdx fun i isOpen =>
      isOpen && !s.sessions.any fun e => dead e && s.connOf e.2 = some i }

/-- The part of `getOrCreate` that dials and stores the new session. -/
def Store.create (s : Store) (key : Key) (clientConn : ℕ) (clientAddr : UDPAddr) (now : ℤ) :
    Store :=
  { s with
    sessions := (key, s.made.length) :: s.sessions
    made := s.made ++ [⟨s.sockets.length, clientConn, clientAddr⟩]
    lastUsed := s.lastUsed ++ [now]
    sockets := s.sockets ++ [true] }

/-- Not used for longer than `ttl`, at the time the cleaner looks at it. -/
def Store.expired (s : Store) (ttl : ℤ) (now : List ℤ) (sess : ℕ) : Bool :=
  match s.lastUsed[sess]?, now[sess]? with
  | some used, some now => now - used > ttl
  | _, _ => false

/-- A step between two points at which others can look. What is done under the
lock of the map is one step. -/
def step (rule : ForwardRule) (ttl : ℤ) (a : Choice) (s : Store) :
    Goroutine → Option (Store × Goroutine × List Goroutine)
  | .cancel => some ({ s with cancelled := true }, .returned, [])
  | .awaitCancel => if s.cancelled then some (s, .close, []) else none
  | .close =>
    match s.closeOnce with
    | .fresh => some ({ s with closeOnce := .running }, .closeDone, [])
    | .running => none
    | .done => some (s, .returned, [])
  | .closeDone => some ({ s with done := true }, .closeSessions, [])
  | .closeSessions =>
    some ({ s.drop fun _ => true with closeOnce := .done }, .returned, [])
  | .clean =>
    -- with both channels ready the `select` takes either
    match a with
    | .next => if s.done then some (s, .returned, []) else none
    | .time _ => some (s, .tick, [])
    | _ => none
  | .tick =>
    match a with
    | .times now => some (s.drop fun e => s.expired ttl now e.2, .clean, [])
    | _ => none
  | .select l => if s.cancelled then some (s, .returned, []) else some (s, .read l, [])
  | .read l =>
    match a with
    | .datagram addr data => some (s, .received l addr (data.take udpBufSize), [])
    | .fail => some (s, .select l, [])
    | _ => none
  | .received l addr data =>
    if (ruleMatcher netip rule.toForwardLists).isAllowed netip addr.ip.string then
      some (s, .getOrCreate l addr data, [])
    else some (s, .select l, [])
  | .getOrCreate l addr data =>
    match s.sessions.lookup (clientKey addr), a with
    | some sess, .time now =>
      (s.connOf sess).map fun conn =>
        ({ s with lastUsed := s.lastUsed.set sess now }, .write l addr data conn, [])
    | none, .time now =>
      some (s.create (clientKey addr) l addr now,
        .created l addr data (clientKey addr) s.made.length s.sockets.length, [])
    | none, .fail => some (s, .select l, [])
    | _, _ => none
  | .created l addr data key sess conn => some (s, .write l addr data conn, [.check key sess])
  | .write l addr data conn =>
    some ({ s with queries := s.queries ++ [⟨addr, conn, data⟩] }, .select l, [])
  | .check key sess => if s.done then some (s, .returned, []) else some (s, .receive key sess, [])
  | .receive key sess =>
    match s.connOf sess, a with
    | some conn, .data data =>
      if s.sockets[conn]? = some true then
        if data.take udpBufSize = [] then some (s, .check key sess, [])
        else some (s, .answer key sess conn (data.take udpBufSize), [])
      else none
    | some _, .fail => some (s, .failed key sess, [])
    | _, _ => none
  | .answer key sess source data =>
    (s.made[sess]?).map fun x =>
      ({ s with answers := s.answers ++ [⟨source, x.clientConn, x.clientAddr, data⟩] },
        .check key sess, [])
  | .failed key sess =>
    if s.sessions.lookup key = some sess then some (s.drop fun e => e.1 = key, .returned, [])
    else some (s, .returned, [])
  | .returned => none

def program (rule : ForwardRule) (ttl : ℤ) : Program Store Goroutine Choice := ⟨step rule ttl⟩

/-- A rule that is started: its cleaner, the goroutines that will call `close`,
and its listeners. -/
def boot (closers listeners : ℕ) : Config Store Goroutine :=
  ⟨newStore, .cancel :: .clean :: (List.replicate closers .awaitCancel ++
    (List.range listeners).map .select)⟩

/-! ## What belongs together -/

/-- The sessions and the sockets are made together, so session `i` has socket
`i`; and the open sockets are those of the sessions in the map. -/
structure Inv (s : Store) : Prop where
  conns : s.made.map Session.conn = List.range s.sockets.length
  keys : (s.sessions.map Prod.fst).Nodup
  owners : (s.sessions.map Prod.snd).Nodup
  named : ∀ e ∈ s.sessions, ∃ x, s.made[e.2]? = some x ∧ x.clientAddr.string = e.1.addr
  isOpen : ∀ i, s.sockets[i]? = some true ↔ ∃ e ∈ s.sessions, e.2 = i
  answers : ∀ d ∈ s.answers, ∃ x, s.made[d.source]? = some x ∧ x.clientConn = d.clientConn ∧
    x.clientAddr = d.clientAddr
  queries : ∀ d ∈ s.queries, ∃ x, s.made[d.conn]? = some x ∧
    x.clientAddr.string = d.clientAddr.string

/-- The session was made for a client of this address. -/
def ServesClient (s : Store) (sess : ℕ) (addr : UDPAddr) : Prop :=
  ∃ x, s.made[sess]? = some x ∧ x.clientAddr.string = addr.string

/-- What a goroutine has looked up before. -/
def Local (s : Store) : Goroutine → Prop
  | .created _ addr _ _ sess conn => conn = sess ∧ ServesClient s sess addr
  | .write _ addr _ conn => ServesClient s conn addr
  | .answer _ sess source _ => source = sess
  | _ => True

/-- Each client its own session, each session its own socket, and no datagram
to anybody else. -/
structure Isolated (s : Store) : Prop where
  unique : ∀ key i j, (key, i) ∈ s.sessions → (key, j) ∈ s.sessions → i = j
  owned : ∀ key i, (key, i) ∈ s.sessions → ∃ x, s.made[i]? = some x ∧
    x.clientAddr.string = key.addr ∧ s.sockets[x.conn]? = some true
  alone : ∀ (i j : ℕ) (x y : Session), s.made[i]? = some x → s.made[j]? = some y → x.conn = y.conn → i = j
  answered : ∀ d ∈ s.answers, ∃ x ∈ s.made, x.conn = d.source ∧ x.clientConn = d.clientConn ∧
    x.clientAddr = d.clientAddr
  asked : ∀ d ∈ s.queries, ∃ x ∈ s.made, x.conn = d.conn ∧
    x.clientAddr.string = d.clientAddr.string

/-- The other sessions are in the map as they were, and so are their sockets. -/
def SparesOthers (s : Store) (sess : ℕ) (s' : Store) : Prop :=
  ∀ other, other ≠ sess → (∀ key, (key, other) ∈ s.sessions ↔ (key, other) ∈ s'.sessions) ∧
    ∀ x, s.made[other]? = some x →
      (s.sockets[x.conn]? = some true ↔ s'.sockets[x.conn]? = some true)

section
variable {rule : ForwardRule} {ttl : ℤ} {a : Choice} {s s' : Store} {p q : Goroutine}
  {started : List Goroutine} {sess i : ℕ} {addr : UDPAddr} {key : Key}

theorem Inv.length (h : Inv s) : s.made.length = s.sockets.length := by
  have hlen := congrArg List.length h.conns
  simpa using hlen

theorem Inv.connOf (h : Inv s) (hi : s.connOf sess = some i) : i = sess := by
  rw [Store.connOf, ← List.getElem?_map, h.conns] at hi
  obtain ⟨hlt, rfl⟩ := List.getElem?_eq_some_iff.mp hi
  exact List.getElem_range ..

theorem Inv.connOf_made (h : Inv s) {x : Session} (hx : s.made[sess]? = some x) :
    x.conn = sess := by
  apply h.connOf
  rw [Store.connOf, hx, Option.map_some]

theorem getElem?_of_prefix {α : Type*} {l l' : List α} {i : ℕ} {x : α} (h : l <+: l')
    (hx : l[i]? = some x) : l'[i]? = some x := by
  obtain ⟨t, rfl⟩ := h
  rw [List.getElem?_append_left (List.getElem?_eq_some_iff.mp hx).choose]
  exact hx

theorem ServesClient.mono (h : ServesClient s sess addr) (hmade : s.made <+: s'.made) :
    ServesClient s' sess addr := by
  obtain ⟨x, hx, haddr⟩ := h
  exact ⟨x, getElem?_of_prefix hmade hx, haddr⟩

theorem Local.mono {g : Goroutine} (h : Local s g) (hmade : s.made <+: s'.made) : Local s' g := by
  cases g with
  | created => exact ⟨h.1, h.2.mono hmade⟩
  | write => exact ServesClient.mono h hmade
  | answer => exact h
  | _ => trivial

/-- Two entries of one session are the same. -/
theorem Inv.entry_inj (h : Inv s) {e e' : Key × ℕ} (he : e ∈ s.sessions) (he' : e' ∈ s.sessions)
    (heq : e.2 = e'.2) : e = e' := List.inj_on_of_nodup_map h.owners he he' heq

theorem Inv.connOf_entry (h : Inv s) {e : Key × ℕ} (he : e ∈ s.sessions) :
    s.connOf e.2 = some e.2 := by
  obtain ⟨x, hx, -⟩ := h.named e he
  rw [Store.connOf, hx, Option.map_some, h.connOf_made hx]

/-- The sockets that stay open are those of the sessions that stay. -/
theorem Inv.drop_isOpen (h : Inv s) (dead : Key × ℕ → Bool) (i : ℕ) :
    (s.drop dead).sockets[i]? = some true ↔ ∃ e ∈ (s.drop dead).sessions, e.2 = i := by
  have hany : (s.sessions.any fun e => dead e && decide (s.connOf e.2 = some i)) = true ↔
      ∃ e ∈ s.sessions, dead e ∧ e.2 = i := by
    rw [List.any_eq_true]
    refine exists_congr fun e => and_congr_right fun he => ?_
    rw [h.connOf_entry he]
    simp
  have hsockets : (s.drop dead).sockets[i]? = some true ↔
      s.sockets[i]? = some true ∧ ¬∃ e ∈ s.sessions, dead e ∧ e.2 = i := by
    rw [← hany, Store.drop, List.getElem?_mapIdx, Option.map_eq_some_iff]
    constructor
    · rintro ⟨b, hb, hkeep⟩
      simp only [Bool.and_eq_true, Bool.not_eq_true'] at hkeep
      exact ⟨hkeep.1 ▸ hb, by simp [hkeep.2]⟩
    · rintro ⟨hopen, hnone⟩
      exact ⟨true, hopen, by simp [Bool.eq_false_iff.mpr hnone]⟩
  rw [hsockets, h.isOpen]
  constructor
  · rintro ⟨⟨e, he, rfl⟩, hnone⟩
    refine ⟨e, List.mem_filter.mpr ⟨he, ?_⟩, rfl⟩
    cases hdead : dead e with
    | true => exact absurd ⟨e, he, hdead, rfl⟩ hnone
    | false => rfl
  · rintro ⟨e, he, rfl⟩
    obtain ⟨hmem, hkeep⟩ := List.mem_filter.mp he
    refine ⟨⟨e, hmem, rfl⟩, ?_⟩
    rintro ⟨e', he', hdead, heq⟩
    rw [h.entry_inj he' hmem heq] at hdead
    simp [hdead] at hkeep

theorem Inv.drop (h : Inv s) (dead : Key × ℕ → Bool) : Inv (s.drop dead) where
  conns := by simpa [Store.drop] using h.conns
  keys := h.keys.sublist (List.filter_sublist.map _)
  owners := h.owners.sublist (List.filter_sublist.map _)
  named e he := h.named e (List.mem_filter.mp he).1
  isOpen := h.drop_isOpen dead
  answers := h.answers
  queries := h.queries

/-- The new session is the next one, with the next socket. -/
theorem Inv.create (h : Inv s) (clientConn : ℕ) (now : ℤ)
    (hnew : s.sessions.lookup (clientKey addr) = none) :
    Inv (s.create (clientKey addr) clientConn addr now) where
  conns := by simp [Store.create, h.conns, List.range_succ]
  keys := by
    have hkey : clientKey addr ∉ s.sessions.map Prod.fst := by
      intro hmem
      obtain ⟨e, he, hkey⟩ := List.mem_map.mp hmem
      have := List.lookup_eq_none_iff.mp hnew e he
      simp [hkey] at this
    exact List.nodup_cons.mpr ⟨hkey, h.keys⟩
  owners := by
    have hfresh : s.made.length ∉ s.sessions.map Prod.snd := by
      intro hmem
      obtain ⟨e, he, hlen⟩ := List.mem_map.mp hmem
      obtain ⟨x, hx, -⟩ := h.named e he
      have hlt := (List.getElem?_eq_some_iff.mp hx).choose
      omega
    exact List.nodup_cons.mpr ⟨hfresh, h.owners⟩
  named e he := by
    rcases List.mem_cons.mp he with rfl | he
    · exact ⟨_, List.getElem?_concat_length, rfl⟩
    · obtain ⟨x, hx, haddr⟩ := h.named e he
      exact ⟨x, getElem?_of_prefix (List.prefix_append ..) hx, haddr⟩
  isOpen i := by
    simp only [Store.create, List.mem_cons, exists_eq_or_imp]
    rw [← h.isOpen i, h.length]
    rcases lt_trichotomy i s.sockets.length with hlt | rfl | hgt
    · rw [List.getElem?_append_left hlt]
      simp [hlt.ne']
    · simp
    · simp [List.getElem?_eq_none, hgt.le, hgt.ne, Nat.succ_le_of_lt hgt]
  answers d hd := by
    obtain ⟨x, hx, hrest⟩ := h.answers d hd
    exact ⟨x, getElem?_of_prefix (List.prefix_append ..) hx, hrest⟩
  queries d hd := by
    obtain ⟨x, hx, hrest⟩ := h.queries d hd
    exact ⟨x, getElem?_of_prefix (List.prefix_append ..) hx, hrest⟩

/-! ## What a step keeps -/

theorem step_made (h : step rule ttl a s p = some (s', q, started)) : s.made <+: s'.made := by
  cases p with
  | getOrCreate l addr data =>
    simp only [step] at h
    split at h
    · obtain ⟨conn, -, he⟩ := Option.map_eq_some_iff.mp h
      cases he
      exact List.prefix_rfl
    · cases h
      exact List.prefix_append ..
    · cases h
      exact List.prefix_rfl
    · cases h
  | answer key sess source data =>
    obtain ⟨x, -, he⟩ := Option.map_eq_some_iff.mp h
    cases he
    exact List.prefix_rfl
  | _ =>
    simp only [step, reduceCtorEq] at h
    repeat' split at h
    all_goals cases h
    all_goals exact List.prefix_rfl

theorem step_inv (h : step rule ttl a s p = some (s', q, started)) (hs : Inv s)
    (hp : Local s p) : Inv s' ∧ Local s' q ∧ ∀ r ∈ started, Local s' r := by
  have hnone : ∀ r ∈ ([] : List Goroutine), Local s' r := nofun
  cases p with
  | closeSessions =>
    cases h
    exact ⟨{ hs.drop _ with }, trivial, hnone⟩
  | tick =>
    simp only [step] at h
    split at h <;> cases h
    exact ⟨hs.drop _, trivial, hnone⟩
  | getOrCreate l addr data =>
    simp only [step] at h
    split at h
    · rename_i sess now hlookup
      obtain ⟨conn, hconn, he⟩ := Option.map_eq_some_iff.mp h
      cases he
      obtain rfl := hs.connOf hconn
      -- the session found under the key was made for the same address
      obtain ⟨before, after, hsessions, -⟩ := List.lookup_eq_some_iff.mp hlookup
      obtain ⟨x, hx, haddr⟩ := hs.named (clientKey addr, conn) (by simp [hsessions])
      exact ⟨{ hs with }, ⟨x, hx, haddr⟩, hnone⟩
    · rename_i now hlookup
      cases h
      refine ⟨hs.create l now hlookup, ⟨hs.length.symm, ?_⟩, hnone⟩
      exact ⟨_, List.getElem?_concat_length, rfl⟩
    · cases h
      exact ⟨hs, trivial, hnone⟩
    · cases h
  | created l addr data key sess conn =>
    cases h
    obtain ⟨rfl, hclient⟩ := hp
    exact ⟨hs, hclient, fun r hr => List.mem_singleton.mp hr ▸ trivial⟩
  | write l addr data conn =>
    cases h
    refine ⟨{ hs with queries := ?_ }, trivial, hnone⟩
    intro d hd
    rcases List.mem_append.mp hd with hd | hd
    · exact hs.queries d hd
    · obtain rfl := List.mem_singleton.mp hd
      exact hp
  | receive key sess =>
    simp only [step] at h
    split at h
    · rename_i hconn
      split_ifs at h <;> cases h
      · exact ⟨hs, trivial, hnone⟩
      · exact ⟨hs, hs.connOf hconn, hnone⟩
    · cases h
      exact ⟨hs, trivial, hnone⟩
    · cases h
  | answer key sess source data =>
    obtain ⟨x, hx, he⟩ := Option.map_eq_some_iff.mp h
    cases he
    refine ⟨{ hs with answers := ?_ }, trivial, hnone⟩
    intro d hd
    rcases List.mem_append.mp hd with hd | hd
    · exact hs.answers d hd
    · obtain rfl := List.mem_singleton.mp hd
      obtain rfl : source = sess := hp
      exact ⟨x, hx, rfl, rfl⟩
  | failed key sess =>
    simp only [step] at h
    split_ifs at h <;> cases h
    · exact ⟨hs.drop _, trivial, hnone⟩
    · exact ⟨hs, trivial, hnone⟩
  | _ =>
    simp only [step, reduceCtorEq] at h
    repeat' split at h
    all_goals cases h
    all_goals exact ⟨{ hs with }, trivial, hnone⟩

/-- What holds throughout every run. -/
abbrev Kept : Config Store Goroutine → Prop := Holds Inv Local

theorem newStore_inv : Inv newStore where
  conns := rfl
  keys := List.nodup_nil
  owners := List.nodup_nil
  named := nofun
  isOpen i := by simp [newStore]
  answers := nofun
  queries := nofun

theorem boot_kept (closers listeners : ℕ) : Kept (boot closers listeners) := by
  refine ⟨newStore_inv, ?_⟩
  intro g hg
  simp only [boot, List.mem_cons, List.mem_append, List.mem_replicate, List.mem_map] at hg
  rcases hg with rfl | rfl | ⟨-, rfl⟩ | ⟨l, -, rfl⟩ <;> trivial

theorem exec_kept (c : Config Store Goroutine) (m : Move Choice) (h : Kept c) :
    Kept ((program rule ttl).exec c m) := by
  refine Holds.move h ?_
  intro p s q started hp hstep
  obtain ⟨hinv, hq, hstarted⟩ := step_inv hstep h.1 (h.2 p hp)
  exact ⟨hinv, hq, hstarted, fun r _ hr => hr.mono (step_made hstep)⟩

theorem run_kept (closers listeners : ℕ) (ms : List (Move Choice)) :
    Kept ((program rule ttl).run (boot closers listeners) ms) :=
  Program.run_keeps exec_kept (boot_kept closers listeners) ms

/-! ## Sessions are isolated -/

theorem Inv.isolated (h : Inv s) : Isolated s where
  unique key i j hi hj := by
    have heq := List.inj_on_of_nodup_map h.keys hi hj rfl
    exact congrArg Prod.snd heq
  owned key i hi := by
    obtain ⟨x, hx, haddr⟩ := h.named (key, i) hi
    have hconn := h.connOf_made hx
    refine ⟨x, hx, haddr, ?_⟩
    rw [hconn]
    exact (h.isOpen i).mpr ⟨(key, i), hi, rfl⟩
  alone i j x y hx hy hconn := by
    rw [← h.connOf_made hx, ← h.connOf_made hy, hconn]
  answered d hd := by
    obtain ⟨x, hx, hrest⟩ := h.answers d hd
    exact ⟨x, List.mem_of_getElem? hx, h.connOf_made hx, hrest⟩
  asked d hd := by
    obtain ⟨x, hx, haddr⟩ := h.queries d hd
    exact ⟨x, List.mem_of_getElem? hx, h.connOf_made hx, haddr⟩

theorem Inv.drop_spares (h : Inv s) {dead : Key × ℕ → Bool} {sess : ℕ}
    (hdead : ∀ e ∈ s.sessions, dead e → e.2 = sess) : SparesOthers s sess (s.drop dead) := by
  intro other hother
  have hkeep : ∀ e ∈ s.sessions, e.2 = other → dead e = false := by
    intro e he heq
    by_contra hd
    exact hother (heq.symm.trans (hdead e he (by simpa using hd)))
  constructor
  · intro key
    constructor
    · intro he
      exact List.mem_filter.mpr ⟨he, by simp [hkeep _ he rfl]⟩
    · intro he
      exact (List.mem_filter.mp he).1
  · intro x hx
    rw [h.connOf_made hx, h.isOpen, h.drop_isOpen]
    constructor
    · rintro ⟨e, he, heq⟩
      exact ⟨e, List.mem_filter.mpr ⟨he, by simp [hkeep e he heq]⟩, heq⟩
    · rintro ⟨e, he, heq⟩
      exact ⟨e, (List.mem_filter.mp he).1, heq⟩

/-- The error path of a reader drops nobody's session but its own. -/
theorem failed_spares (h : Inv s) (hstep : step rule ttl a s (.failed key sess) =
    some (s', q, started)) : SparesOthers s sess s' := by
  simp only [step] at hstep
  split_ifs at hstep with hlookup
  · cases hstep
    refine h.drop_spares ?_
    intro e he hkey
    obtain ⟨before, after, hsessions, -⟩ := List.lookup_eq_some_iff.mp hlookup
    have hmem : (key, sess) ∈ s.sessions := by simp [hsessions]
    exact congrArg Prod.snd (List.inj_on_of_nodup_map h.keys he hmem (of_decide_eq_true hkey))
  · cases hstep
    exact fun _ _ => ⟨fun _ => Iff.rfl, fun _ _ => Iff.rfl⟩

/-- In every state of every run the sessions are isolated, and a reader that
finds its socket dead leaves the others as they are. -/
theorem sessions_isolated (rule : ForwardRule) (ttl : ℤ) (closers listeners : ℕ)
    (ms : List (Move Choice)) :
    let c := (program rule ttl).run (boot closers listeners) ms
    Isolated c.shared ∧ ∀ (i : ℕ) (a : Choice) (key : Key) (sess : ℕ),
      c.procs[i]? = some (.failed key sess) →
        SparesOthers c.shared sess ((program rule ttl).exec c (i, a)).shared := by
  intro c
  have hc : Kept c := run_kept closers listeners ms
  refine ⟨hc.1.isolated, ?_⟩
  intro i a key sess hi
  rcases (program rule ttl).exec_cases c (i, a) with ⟨p, s, q, started, hp, hstep, he⟩ | he
  · rw [he]
    obtain rfl := Option.some.inj (hi.symm.trans hp)
    have hfailed : step rule ttl a c.shared (.failed key sess) = some (s, q, started) := hstep
    exact failed_spares hc.1 hfailed
  · rw [he]
    exact fun _ _ => ⟨fun _ => Iff.rfl, fun _ _ => Iff.rfl⟩

end

end NetBerth.UDPSessions
