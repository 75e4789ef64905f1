import NetBerth.Interleaving
import NetBerth.Rules

/-!
# The sockets of one rule

What happens to the sockets when a rule is reloaded. `Reload` cancels the
instance in the map, puts a new one in its place and starts a goroutine for
each network of the new one; each of them binds when it comes to it. The
sockets of the cancelled instance are closed by goroutines of its own: a TCP
listener by one that waits for the cancellation, a UDP socket by its read loop,
the next time this looks. A bind that finds the address still held is logged
and not tried again.

So a reload to the same port keeps a protocol served exactly if one of the new
binds for it comes after the old sockets that stand in its way are closed.
-/
namespace NetBerth.ForwardListeners
open Interleaving Rules

inductive Protocol where
  | tcp
  | udp
  deriving DecidableEq, Repr

instance : Fintype Protocol := ⟨{.tcp, .udp}, fun p => by cases p <;> decide⟩

inductive Network where
  | tcp
  | tcp6
  | udp
  | udp6
  deriving DecidableEq, Repr

def Network.protocol : Network → Protocol
  | .tcp | .tcp6 => .tcp
  | .udp | .udp6 => .udp

def networks (protocol : String) : List Network :=
  if protocol = "tcp" then [.tcp, .tcp6]
  else if protocol = "udp" then [.udp, .udp6]
  else if protocol = "both" then [.tcp, .tcp6, .udp, .udp6]
  else [.tcp, .tcp6]

/-- A host and a port, as they are written. -/
abbrev Addr := String × Int

/-- What the operating system and the resolver make of addresses: the targets
that `net.ResolveUDPAddr` resolves, the addresses that a network can listen on,
and whether two sockets would hold the same address. -/
structure Host where
  resolves : Addr → Bool
  usable : Network → Addr → Bool
  overlaps : Network × Addr → Network × Addr → Bool

/-- An open socket, or the place of one, with the instance it belongs to. -/
structure Socket where
  inst : ℕ
  network : Network
  addr : Addr
  deriving DecidableEq, Repr

/-- The open sockets, how many instances of the rule have been made, and the
one in the engine's map. Any other is cancelled. -/
structure Store where
  sockets : List Socket
  made : ℕ
  entry : Option ℕ
  deriving DecidableEq, Repr

/-- `listen`, with the session map if there is one; the accept loop together
with the goroutine that waits to close the listener; and the read loop of
`handleUDP`, at its `select` or in `ReadFrom`. -/
inductive Goroutine where
  | listen (sock : Socket) (sessions : Bool)
  | accept (sock : Socket)
  | acceptError
  | select (sock : Socket)
  | read (sock : Socket)
  | ended
  deriving DecidableEq, Repr

abbrev State := Config Store Goroutine
abbrev Action := Act Empty Bool

def Store.cancelled (s : Store) (inst : ℕ) : Bool := s.entry ≠ some inst

def Store.close (s : Store) (sock : Socket) : Store :=
  { s with sockets := s.sockets.filter fun other => other ≠ sock }

/-- Both sockets are of one protocol and hold one address. -/
def clashes (host : Host) (a b : Socket) : Bool :=
  a.network.protocol = b.network.protocol && host.overlaps (a.network, a.addr) (b.network, b.addr)

/-- Without a session map a UDP network is handed to `Listen`, which refuses it. -/
def listenable (host : Host) (sock : Socket) (sessions : Bool) : Bool :=
  host.usable sock.network sock.addr && (sock.network.protocol = .tcp || sessions)

/-- A step of a goroutine. A cancelled `listen` may find its context done while
it resolves the address, which is the choice `true`. -/
def step (host : Host) (resolving : Bool) (s : Store) : Goroutine → Option (Store × Goroutine)
  | .listen sock sessions =>
    if s.cancelled sock.inst && resolving then some (s, .ended)
    else if listenable host sock sessions && s.sockets.all fun other => !clashes host other sock then
      some ({ s with sockets := s.sockets ++ [sock] },
        match sock.network.protocol with
        | .tcp => .accept sock
        | .udp => .select sock)
    else some (s, .ended)
  | .accept sock => if s.cancelled sock.inst then some (s.close sock, .acceptError) else none
  | .acceptError => some (s, .ended)
  | .select sock =>
    if s.cancelled sock.inst then some (s.close sock, .ended) else some (s, .read sock)
  | .read sock => some (s, .select sock)
  | .ended => none

def machine (host : Host) : Machine Store Goroutine Empty Bool where
  start := Empty.elim
  step := step host

/-! ## The rule's instances -/

def startRule (host : Host) (rule : ForwardRule) (c : State) : State :=
  let sessions := (rule.protocol = "udp" || rule.protocol = "both") &&
    host.resolves (rule.targetAddr, rule.targetPort)
  ⟨{ c.shared with made := c.shared.made + 1, entry := some c.shared.made },
    c.procs ++ (networks rule.protocol).map fun network =>
      .listen ⟨c.shared.made, network, (rule.listenAddr, rule.listenPort)⟩ sessions⟩

def remove (c : State) : State := { c with shared := { c.shared with entry := none } }

def reload (host : Host) (rule : ForwardRule) (c : State) : State :=
  if rule.enabled then startRule host rule c else remove c

/-- The states of a rule that is reloaded and removed any number of times,
between any steps of the goroutines. -/
inductive Reached (host : Host) : State → Prop where
  | boot : Reached host ⟨⟨[], 0, none⟩, []⟩
  | reload {c : State} (rule : ForwardRule) : Reached host c → Reached host (reload host rule c)
  | remove {c : State} : Reached host c → Reached host (remove c)
  | move {c : State} (act : Action) : Reached host c → Reached host ((machine host).exec c act)

/-- The instance in the map has an open socket of the protocol. -/
def Serves (s : Store) (protocol : Protocol) : Prop :=
  ∃ sock ∈ s.sockets, s.entry = some sock.inst ∧ sock.network.protocol = protocol

/-- The goroutine of the instance in the map is about to bind for the protocol,
and no socket of another instance stands in its way. -/
def BindsFree (host : Host) (protocol : Protocol) (s : Store) : Goroutine → Prop
  | .listen sock sessions =>
    s.entry = some sock.inst ∧ sock.network.protocol = protocol ∧ listenable host sock sessions ∧
      ∀ other ∈ s.sockets, clashes host other sock → s.entry = some other.inst
  | _ => False

def BindMeetsNoOther (host : Host) (protocol : Protocol) (c : State) : Action → Prop
  | .spawn _ => False
  | .run i _ => ∃ p ∈ c.procs[i]?, BindsFree host protocol c.shared p

/-- Left to itself, the goroutine changes no socket any more. -/
def settled (s : Store) : Goroutine → Bool
  | .listen _ _ | .acceptError => false
  | .accept sock | .select sock | .read sock => !s.cancelled sock.inst
  | .ended => true

def Settled (c : State) : Prop := ∀ p ∈ c.procs, settled c.shared p

section
variable {host : Host} {resolving : Bool} {s s' : Store} {p q : Goroutine} {protocol : Protocol}
  {c : State}

/-! ## What one step does -/

theorem serves_close {sock : Socket} (h : s.cancelled sock.inst) :
    Serves (s.close sock) protocol ↔ Serves s protocol := by
  have hne : ∀ other, s.entry = some other.inst → other ≠ sock := by
    rintro other hother rfl
    simp [Store.cancelled, hother] at h
  simp only [Serves, Store.close, List.mem_filter, decide_eq_true_eq]
  constructor
  · rintro ⟨other, ⟨hmem, -⟩, hother⟩
    exact ⟨other, hmem, hother⟩
  · rintro ⟨other, hmem, hother⟩
    exact ⟨other, ⟨hmem, hne other hother.1⟩, hother⟩

theorem serves_append {sock : Socket} : Serves { s with sockets := s.sockets ++ [sock] } protocol ↔
    Serves s protocol ∨ s.entry = some sock.inst ∧ sock.network.protocol = protocol := by
  simp only [Serves, List.mem_append, List.mem_singleton]
  constructor
  · rintro ⟨other, hmem | rfl, hother⟩
    · exact .inl ⟨other, hmem, hother⟩
    · exact .inr hother
  · rintro (⟨other, hmem, hother⟩ | hsock)
    · exact ⟨other, .inl hmem, hother⟩
    · exact ⟨sock, .inr rfl, hsock⟩

section
variable {sock : Socket} {sessions : Bool}

/-- A bind that succeeds is free if it is for the instance in the map. -/
theorem bindsFree_iff (h : (listenable host sock sessions &&
      s.sockets.all fun other => !clashes host other sock) = true) :
    BindsFree host protocol s (.listen sock sessions) ↔
      s.entry = some sock.inst ∧ sock.network.protocol = protocol := by
  simp only [Bool.and_eq_true, List.all_eq_true, Bool.not_eq_true'] at h
  constructor
  · rintro ⟨hentry, hproto, -⟩
    exact ⟨hentry, hproto⟩
  · rintro ⟨hentry, hproto⟩
    refine ⟨hentry, hproto, h.1, ?_⟩
    intro other hother hclash
    rw [h.2 other hother] at hclash
    cases hclash

/-- A free bind that fails has one of the instance's own sockets in its way. -/
theorem serves_of_blocked (h : ¬(listenable host sock sessions &&
      s.sockets.all fun other => !clashes host other sock) = true)
    (hbinds : BindsFree host protocol s (.listen sock sessions)) : Serves s protocol := by
  obtain ⟨hentry, hproto, hlisten, hother⟩ := hbinds
  simp only [hlisten, Bool.true_and, List.all_eq_true, Bool.not_eq_true', not_forall,
    Bool.not_eq_false] at h
  obtain ⟨other, hmem, hclash⟩ := h
  refine ⟨other, hmem, hother other hmem hclash, ?_⟩
  simp only [clashes, Bool.and_eq_true, decide_eq_true_eq] at hclash
  rw [hclash.1, hproto]

end

/-- A protocol becomes served by a free bind, and by nothing else. -/
theorem serves_step (h : step host resolving s p = some (s', q)) :
    Serves s' protocol ↔ Serves s protocol ∨ BindsFree host protocol s p := by
  cases p with
  | listen sock sessions =>
    simp only [step] at h
    split_ifs at h with hgone hfree
    · cases h
      simp only [Bool.and_eq_true] at hgone
      have hnot : ¬ BindsFree host protocol s (.listen sock sessions) := by
        rintro ⟨hentry, -⟩
        simp [Store.cancelled, hentry] at hgone
      simp [hnot]
    · cases h
      rw [bindsFree_iff hfree]
      exact serves_append
    · cases h
      exact (or_iff_left_of_imp (serves_of_blocked hfree)).symm
  | accept sock =>
    simp only [step] at h
    split_ifs at h with hc
    cases h
    simp [serves_close hc, BindsFree]
  | acceptError =>
    cases h
    simp [BindsFree]
  | select sock =>
    simp only [step] at h
    split_ifs at h with hc
    · cases h
      simp [serves_close hc, BindsFree]
    · cases h
      simp [BindsFree]
  | read sock =>
    cases h
    simp [BindsFree]
  | ended => cases h

theorem serves_exec (c : State) (act : Action) : Serves ((machine host).exec c act).shared protocol ↔
    Serves c.shared protocol ∨ BindMeetsNoOther host protocol c act := by
  cases act with
  | spawn r => exact r.elim
  | run i b =>
    cases hp : c.procs[i]? with
    | none => simp [Machine.exec, BindMeetsNoOther, hp]
    | some p =>
      have hmeets : BindMeetsNoOther host protocol c (.run i b) ↔
          BindsFree host protocol c.shared p := by
        simp [BindMeetsNoOther, hp]
      rw [hmeets]
      cases hs : step host b c.shared p with
      | none =>
        have hnot : ¬ BindsFree host protocol c.shared p := by
          cases p with
          | listen sock sessions =>
            simp only [step] at hs
            split_ifs at hs
          | _ => exact fun h => h
        simp [Machine.exec, machine, hp, hs, hnot]
      | some t =>
        have he : (machine host).exec c (.run i b) = ⟨t.1, c.procs.set i t.2⟩ := by
          simp only [Machine.exec, machine, hp, hs]
        rw [he]
        exact serves_step hs

/-- In any run a protocol is served at the end if it was served at the start,
or if a bind for it met no socket of another instance. -/
theorem serves_run (c : State) (as : List Action) : Serves ((machine host).run c as).shared protocol ↔
    Serves c.shared protocol ∨ (machine host).Met (BindMeetsNoOther host protocol) c as :=
  Machine.run_iff_met (I := fun c => Serves c.shared protocol) serves_exec c as

/-! ## A new instance begins without sockets -/

/-- Every socket, and every place of one, is of an instance that has been made. -/
def Made (s : Store) : Goroutine → Prop
  | .listen sock _ => sock.inst < s.made
  | _ => True

def SocketsMade (s : Store) : Prop := ∀ sock ∈ s.sockets, sock.inst < s.made

theorem made_step (h : step host resolving s p = some (s', q)) (hs : SocketsMade s)
    (hp : Made s p) : s'.made = s.made ∧ SocketsMade s' ∧ Made s' q := by
  have hclose : ∀ sock, SocketsMade (s.close sock) := fun sock other hother =>
    hs other (List.mem_filter.mp hother).1
  cases p with
  | listen sock sessions =>
    simp only [step] at h
    split_ifs at h <;> cases h
    · exact ⟨rfl, hs, trivial⟩
    · refine ⟨rfl, ?_, ?_⟩
      · intro other hother
        rcases List.mem_append.mp hother with hother | hother
        · exact hs other hother
        · rw [List.mem_singleton.mp hother]
          exact hp
      · split <;> trivial
    · exact ⟨rfl, hs, trivial⟩
  | accept sock =>
    simp only [step] at h
    split_ifs at h
    cases h
    exact ⟨rfl, hclose sock, trivial⟩
  | acceptError =>
    cases h
    exact ⟨rfl, hs, trivial⟩
  | select sock =>
    simp only [step] at h
    split_ifs at h <;> cases h
    · exact ⟨rfl, hclose sock, trivial⟩
    · exact ⟨rfl, hs, trivial⟩
  | read sock =>
    cases h
    exact ⟨rfl, hs, trivial⟩
  | ended => cases h

theorem Made.mono (h : Made s p) (hle : s.made ≤ s'.made) : Made s' p := by
  cases p with
  | listen sock sessions => exact lt_of_lt_of_le h hle
  | _ => trivial

theorem holds_made (hc : Reached host c) : Holds SocketsMade Made c := by
  induction hc with
  | boot => exact ⟨by simp [SocketsMade], by simp⟩
  | @reload c rule _ ih =>
    unfold reload startRule
    split_ifs
    · refine ⟨fun sock hsock => Nat.lt_succ_of_lt (ih.1 sock hsock), ?_⟩
      intro p hp
      rcases List.mem_append.mp hp with hp | hp
      · exact (ih.2 p hp).mono (Nat.le_succ _)
      · obtain ⟨network, -, rfl⟩ := List.mem_map.mp hp
        exact Nat.lt_succ_self _
    · exact ⟨ih.1, fun p hp => (ih.2 p hp).mono le_rfl⟩
  | remove _ ih => exact ⟨ih.1, fun p hp => (ih.2 p hp).mono le_rfl⟩
  | move act _ ih =>
    refine ih.exec (fun r => r.elim) ?_
    intro i b p s q _ hp hs
    obtain ⟨hmade, hsockets, hq⟩ := made_step hs ih.1 (ih.2 p (List.mem_of_getElem? hp))
    exact ⟨hsockets, hq, fun r _ hr => hr.mono hmade.ge⟩

theorem reached_run (hc : Reached host c) (as : List Action) :
    Reached host ((machine host).run c as) := by
  induction as generalizing c with
  | nil => exact hc
  | cons act as ih => exact ih (hc.move act)

theorem not_serves_reload (hc : Reached host c) {rule : ForwardRule} (hen : rule.enabled) :
    ¬ Serves (reload host rule c).shared protocol := by
  rintro ⟨sock, hsock, hentry, -⟩
  have hmade : sock.inst < c.shared.made := by
    simp only [reload, if_pos hen, startRule] at hsock
    exact (holds_made hc).1 sock hsock
  have hinst : c.shared.made = sock.inst := by
    simpa [reload, hen, startRule] using hentry
  omega

/-! ## The goroutines settle -/

/-- A bound on the steps until the goroutine has settled. -/
def rank (s : Store) : Goroutine → ℕ
  | .listen _ _ => 3
  | .accept sock => if s.cancelled sock.inst then 2 else 0
  | .read sock => if s.cancelled sock.inst then 2 else 0
  | .select sock => if s.cancelled sock.inst then 1 else 0
  | .acceptError => 1
  | .ended => 0

theorem rank_congr (h : s'.entry = s.entry) (p : Goroutine) : rank s' p = rank s p := by
  have hc : s'.cancelled = s.cancelled := by
    funext inst
    simp only [Store.cancelled, h]
  cases p <;> simp only [rank, hc]

theorem step_of_not_settled (host : Host) (hp : settled s p = false) :
    ∃ t, step host false s p = some t ∧ t.1.entry = s.entry ∧ rank s t.2 < rank s p := by
  cases p with
  | listen sock sessions =>
    simp only [step, Bool.and_false, Bool.false_eq_true, if_false]
    split_ifs
    · refine ⟨_, rfl, rfl, ?_⟩
      cases sock.network.protocol <;> simp only [rank] <;> split_ifs <;> omega
    · exact ⟨_, rfl, rfl, by simp [rank]⟩
  | accept sock =>
    have hc : s.cancelled sock.inst := by simpa [settled] using hp
    exact ⟨(s.close sock, .acceptError), by simp only [step, if_pos hc], rfl, by simp [rank, hc]⟩
  | acceptError => exact ⟨_, rfl, rfl, by simp [rank]⟩
  | select sock =>
    have hc : s.cancelled sock.inst := by simpa [settled] using hp
    exact ⟨(s.close sock, .ended), by simp only [step, if_pos hc], rfl, by simp [rank, hc]⟩
  | read sock =>
    have hc : s.cancelled sock.inst := by simpa [settled] using hp
    exact ⟨_, rfl, rfl, by simp [rank, hc]⟩
  | ended => cases hp

theorem exists_settled (host : Host) (c : State) :
    ∃ bs, Settled ((machine host).run c bs) := by
  induction hn : (c.procs.map (rank c.shared)).sum using Nat.strong_induction_on generalizing c with
  | _ n ih =>
    by_cases hset : Settled c
    · exact ⟨[], hset⟩
    · simp only [Settled, not_forall, Bool.not_eq_true] at hset
      obtain ⟨p, hmem, hp⟩ := hset
      obtain ⟨i, hi⟩ := List.mem_iff_getElem?.mp hmem
      obtain ⟨⟨s, q⟩, hs, hentry, hlt⟩ := step_of_not_settled host hp
      have he : (machine host).exec c (.run i false) = ⟨s, c.procs.set i q⟩ := by
        simp only [Machine.exec, machine, hi, hs]
      have hsum := sum_map_set (q := q) (rank c.shared) hi
      have hless : ((c.procs.set i q).map (rank s)).sum < n := by
        rw [List.map_congr_left fun r _ => rank_congr hentry r]
        simp only at hlt
        omega
      obtain ⟨bs, hbs⟩ := ih _ hless ⟨s, c.procs.set i q⟩ rfl
      exact ⟨.run i false :: bs, by rw [Machine.run_cons, he]; exact hbs⟩

end

/-! ## Reloading -/

/-- Whatever has become of a rule, and however it is reloaded as an enabled
rule, to the same address in particular: its goroutines settle, and a run of
them keeps what the old instance served if and only if, for each protocol that
it served, one bind of the new instance meets no open socket of another. -/
theorem protocols_kept_iff (host : Host) {c : State} (hc : Reached host c) (rule : ForwardRule)
    (hen : rule.enabled) :
    (∀ as, ∃ bs, Settled ((machine host).run (reload host rule c) (as ++ bs))) ∧
    ∀ as, (∀ protocol, Serves c.shared protocol →
        Serves ((machine host).run (reload host rule c) as).shared protocol) ↔
      ∀ protocol, Serves c.shared protocol →
        (machine host).Met (BindMeetsNoOther host protocol) (reload host rule c) as := by
  constructor
  · intro as
    obtain ⟨bs, hbs⟩ := exists_settled host ((machine host).run (reload host rule c) as)
    exact ⟨bs, by rw [Machine.run_append]; exact hbs⟩
  · intro as
    refine forall_congr' fun protocol => imp_congr_right fun _ => ?_
    rw [serves_run, or_iff_right (not_serves_reload hc hen)]

/-! ## The same port -/

instance (s : Store) (protocol : Protocol) : Decidable (Serves s protocol) :=
  inferInstanceAs (Decidable (∃ sock ∈ s.sockets, _))

instance (host : Host) (protocol : Protocol) (s : Store) (p : Goroutine) :
    Decidable (BindsFree host protocol s p) := by
  cases p <;> unfold BindsFree <;> infer_instance

instance (host : Host) (protocol : Protocol) (c : State) :
    (act : Action) → Decidable (BindMeetsNoOther host protocol c act)
  | .spawn _ => inferInstanceAs (Decidable False)
  | .run i _ => inferInstanceAs (Decidable (∃ p ∈ c.procs[i]?, _))

instance (c : State) : Decidable (Settled c) := inferInstanceAs (Decidable (∀ p ∈ c.procs, _))

/-- A host that listens on both families with one socket. -/
def dualStack : Host := ⟨fun _ => true, fun _ _ => true, fun a b => a.2 = b.2⟩

def rule (protocol : String) : ForwardRule :=
  ⟨⟨"f1", "t", "o", "r", protocol, "", 2222, "10.0.0.2", 22, true, 0, true, "", ""⟩, [], []⟩

/-- Every goroutine of the first `n` takes a step, in turn. -/
def round (n : ℕ) : List Action := (List.range n).map fun i => .run i false

/-- A rule for both protocols, started and listening. -/
def running : State :=
  (machine dualStack).run (reload dualStack (rule "both") ⟨⟨[], 0, none⟩, []⟩) (round 4)

/-- The new instance binds before the old one has closed anything, and when all
goroutines have settled the rule is in the map without a socket. -/
theorem reload_loses_port :
    let c := (machine dualStack).run (reload dualStack (rule "both") running)
      ((round 8).reverse ++ round 8 ++ round 8)
    (∀ protocol, Serves running.shared protocol) ∧ Settled c ∧ c.shared.entry = some 1 ∧
      c.shared.sockets = [] := by
  decide

/-- The old sockets are closed first. -/
theorem reload_keeps_port :
    let c := (machine dualStack).run (reload dualStack (rule "both") running) (round 4 ++ round 8)
    Serves c.shared .tcp ∧ Serves c.shared .udp := by
  have hreached : Reached dualStack running := reached_run (.reload (rule "both") .boot) (round 4)
  have hkept := ((protocols_kept_iff dualStack hreached (rule "both") rfl).2
    (round 4 ++ round 8)).mpr (by decide)
  exact ⟨hkept .tcp (by decide), hkept .udp (by decide)⟩

end NetBerth.ForwardListeners
