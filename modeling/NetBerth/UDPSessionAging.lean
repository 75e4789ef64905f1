import NetBerth.Transitions
import NetBerth.UDPSessions

/-!
# The age of a UDP session

A session has two clocks. Its reader waits for the backend no longer than a time to live, and
drops the session when nothing has come; the cleaner drops at each of its passes what no client
has used for longer than that. So each of them sees one direction of the traffic only, and drops
a session that is busy in the other.

The runs here are those of a rule that is not stopped, on a clock: time passes from step to step,
a read fails at its deadline or on a closed socket, and a pass of the cleaner follows the one
before within the cleaning interval.
-/
namespace NetBerth.UDPSessionAging
open Interleaving Goroutines Transitions Rules IPAddress UDPSessions

/-- In nanoseconds. -/
structure Timing where
  ttl : ℤ
  cleanInterval : ℤ
  ttl_nonneg : 0 ≤ ttl
  cleanInterval_pos : 0 < cleanInterval

/-- `udpSessionTTL` and `udpCleanInterval`. -/
def udpTiming : Timing := ⟨30 * 10 ^ 9, 60 * 10 ^ 9, by norm_num, by norm_num⟩

/-- The time; that of the last pass of the cleaner; and for each session the deadline of its
socket and the time at which the last datagram of the backend was relayed. -/
structure Clocks where
  clock : ℤ
  cleaned : ℤ
  deadline : ℕ → ℤ
  relayed : ℕ → Option ℤ

structure Timed where
  config : Config Store Goroutine
  clocks : Clocks

/-- A step of a goroutine, at a time. -/
structure Event where
  goroutine : ℕ
  choice : Choice
  now : ℤ

/-- What can happen at a time, while the rule is not stopped: the clock is read as it is, and a
read fails at its deadline or because its socket is closed. -/
def timely (k : Clocks) (now : ℤ) (s : Store) : Goroutine → Choice → Bool
  | .cancel, _ => false
  | .getOrCreate _ _ _, .time t => t = now
  | .tick, .times ts => (List.range s.made.length).all fun sess => ts[sess]? = some now
  | .receive _ sess, .fail =>
    k.deadline sess ≤ now || (s.connOf sess).all fun conn => s.sockets[conn]? ≠ some true
  | _, _ => true

/-- `SetReadDeadline` before a read, the relay of a datagram, a pass of the cleaner. -/
def Clocks.note (k : Clocks) (w : Timing) (now : ℤ) : Goroutine → Clocks
  | .check _ sess =>
    { k with clock := now, deadline := Function.update k.deadline sess (now + w.ttl) }
  | .answer _ sess _ _ =>
    { k with clock := now, relayed := Function.update k.relayed sess (some now) }
  | .tick => { k with clock := now, cleaned := now }
  | _ => { k with clock := now }

section
variable (rule : ForwardRule) (w : Timing)

def timedStep (x : Timed) (e : Event) : Option Timed :=
  match x.config.procs[e.goroutine]? with
  | none => none
  | some p =>
    if x.clocks.clock ≤ e.now ∧ e.now ≤ x.clocks.cleaned + w.cleanInterval ∧
        timely x.clocks e.now x.config.shared p e.choice then
      (step rule w.ttl e.choice x.config.shared p).map fun t =>
        ⟨⟨t.1, x.config.procs.set e.goroutine t.2.1 ++ t.2.2⟩, x.clocks.note w e.now p⟩
    else none

end

/-- The rule is started at this time. -/
def start (closers listeners : ℕ) (clock : ℤ) : Timed :=
  ⟨boot closers listeners, clock, clock, fun _ => clock, fun _ => none⟩

/-- A timed step is a step. -/
theorem config_of_timedStep {rule : ForwardRule} {w : Timing} {x y : Timed} {e : Event}
    (h : timedStep rule w x e = some y) :
    ∃ p s q started, x.config.procs[e.goroutine]? = some p ∧ x.clocks.clock ≤ e.now ∧
      e.now ≤ x.clocks.cleaned + w.cleanInterval ∧
      timely x.clocks e.now x.config.shared p e.choice = true ∧
      step rule w.ttl e.choice x.config.shared p = some (s, q, started) ∧
      y = ⟨⟨s, x.config.procs.set e.goroutine q ++ started⟩, x.clocks.note w e.now p⟩ ∧
      y.config = (program rule w.ttl).exec x.config (e.goroutine, e.choice) := by
  unfold timedStep at h
  cases hp : x.config.procs[e.goroutine]? with
  | none =>
    rw [hp] at h
    cases h
  | some p =>
    rw [hp] at h
    dsimp only at h
    split_ifs at h with hguard
    obtain ⟨hclock, hpass, htimely⟩ := hguard
    obtain ⟨⟨s, q, started⟩, hstep, rfl⟩ := Option.map_eq_some_iff.mp h
    refine ⟨p, s, q, started, rfl, hclock, hpass, htimely, hstep, rfl, ?_⟩
    have hprogram : (program rule w.ttl).step e.choice x.config.shared p = some (s, q, started) :=
      hstep
    simp only [Program.exec, hp, hprogram]

/-! ## What is promised of a session -/

/-- A datagram of the client was handled within the time to live, or one of the backend was
relayed. -/
def Active (w : Timing) (x : Timed) (sess : ℕ) : Prop :=
  (∃ used ∈ x.config.shared.lastUsed[sess]?, x.clocks.clock < used + w.ttl) ∨
    ∃ r ∈ x.clocks.relayed sess, x.clocks.clock < r + w.ttl

/-- Neither has happened for longer than that and a cleaning interval. -/
def Idle (w : Timing) (x : Timed) (sess : ℕ) : Prop :=
  (∀ used ∈ x.config.shared.lastUsed[sess]?, used + w.ttl + w.cleanInterval < x.clocks.clock) ∧
    ∀ r ∈ x.clocks.relayed sess, r + w.ttl + w.cleanInterval < x.clocks.clock

/-- The session is in the map and its socket is open. -/
def Alive (s : Store) (sess : ℕ) : Prop :=
  (∃ key, (key, sess) ∈ s.sessions) ∧ ∃ conn ∈ s.connOf sess, s.sockets[conn]? = some true

/-- Active sessions are alive, and idle ones are gone. -/
structure Aged (w : Timing) (x : Timed) : Prop where
  active : ∀ sess < x.config.shared.made.length, Active w x sess → Alive x.config.shared sess
  idle : ∀ sess < x.config.shared.made.length, Idle w x sess →
    (∀ key, (key, sess) ∉ x.config.shared.sessions) ∧
      ∀ conn ∈ x.config.shared.connOf sess, x.config.shared.sockets[conn]? ≠ some true

/-- The session that a goroutine is the reader of, or is going to start the reader of. -/
def reader : Goroutine → Option ℕ
  | .created _ _ _ _ sess _ | .check _ sess | .receive _ sess | .answer _ sess _ _
  | .failed _ sess => some sess
  | _ => none

/-- The reader has a datagram in hand. -/
def answering (sess : ℕ) : Goroutine → Bool
  | .answer _ i _ _ => i = sess
  | _ => false

/-- A reader that gives up has seen no client within the time to live; and the cleaner only
finds sessions unused whose backend has been silent for as long and has nothing on its way. -/
def Spares (w : Timing) (k : Clocks) (now : ℤ) (c : Config Store Goroutine) : Goroutine → Prop
  | .failed key sess => c.shared.sessions.lookup key = some sess →
    ∀ used ∈ c.shared.lastUsed[sess]?, used + w.ttl ≤ now
  | .tick => ∀ entry ∈ c.shared.sessions,
    (∃ used ∈ c.shared.lastUsed[entry.2]?, used + w.ttl < now) →
      (∀ r ∈ k.relayed entry.2, r + w.ttl ≤ now) ∧ ∀ g ∈ c.procs, answering entry.2 g = false
  | _ => True

instance Spares.decidable (w : Timing) (k : Clocks) (now : ℤ) (c : Config Store Goroutine) :
    (g : Goroutine) → Decidable (Spares w k now c g)
  | .failed key sess =>
    inferInstanceAs (Decidable (c.shared.sessions.lookup key = some sess →
      ∀ used ∈ c.shared.lastUsed[sess]?, used + w.ttl ≤ now))
  | .tick =>
    inferInstanceAs (Decidable (∀ entry ∈ c.shared.sessions,
      (∃ used ∈ c.shared.lastUsed[entry.2]?, used + w.ttl < now) →
        (∀ r ∈ k.relayed entry.2, r + w.ttl ≤ now) ∧
          ∀ g ∈ c.procs, answering entry.2 g = false))
  | .cancel | .awaitCancel | .close | .closeDone | .closeSessions | .clean | .select _ | .read _
  | .received _ _ _ | .getOrCreate _ _ _ | .created _ _ _ _ _ _ | .write _ _ _ _ | .check _ _
  | .receive _ _ | .answer _ _ _ _ | .returned => inferInstanceAs (Decidable True)

/-- The goroutine that moves drops no session in use. -/
def Harmless (w : Timing) (x : Timed) (e : Event) : Prop :=
  ∀ p ∈ x.config.procs[e.goroutine]?, Spares w x.clocks e.now x.config p

instance (w : Timing) (x : Timed) (e : Event) : Decidable (Harmless w x e) :=
  inferInstanceAs (Decidable (∀ p ∈ x.config.procs[e.goroutine]?, _))

/-! ## What a step does to the sessions -/

/-- The goroutine does not close the map. -/
def calm : Goroutine → Bool
  | .close | .closeDone | .closeSessions => false
  | _ => true

/-- The sessions and their times are the same, and the rule is not stopped. -/
structure Same (s s' : Store) : Prop where
  cancelled : s'.cancelled = s.cancelled
  done : s'.done = s.done
  sessions : s'.sessions = s.sessions
  made : s'.made = s.made
  lastUsed : s'.lastUsed = s.lastUsed

/-- Everything a step can do to the sessions while the rule is not stopped. -/
inductive Effect (w : Timing) (k : Clocks) (now : ℤ) (s : Store) :
    Goroutine → Store → Goroutine → List Goroutine → Prop
  | quiet {p q : Goroutine} {s' : Store} (same : Same s s') (before : reader p = none)
      (pass : p ≠ .tick) (after : reader q = none) (calm : calm q = true) :
      Effect w k now s p s' q []
  | use {l : ℕ} {addr : UDPAddr} {data : List UInt8} {sess conn : ℕ}
      (found : ∃ key, (key, sess) ∈ s.sessions) :
      Effect w k now s (.getOrCreate l addr data)
        { s with lastUsed := s.lastUsed.set sess now } (.write l addr data conn) []
  | create {l : ℕ} {addr : UDPAddr} {data : List UInt8} {conn : ℕ} :
      Effect w k now s (.getOrCreate l addr data) (s.create (clientKey addr) l addr now)
        (.created l addr data (clientKey addr) s.made.length conn) []
  | begin {l : ℕ} {addr : UDPAddr} {data : List UInt8} {key : Key} {sess conn : ℕ} :
      Effect w k now s (.created l addr data key sess conn) s (.write l addr data conn)
        [.check key sess]
  | check {key : Key} {sess : ℕ} : Effect w k now s (.check key sess) s (.receive key sess) []
  | skip {key : Key} {sess : ℕ} : Effect w k now s (.receive key sess) s (.check key sess) []
  | take {key : Key} {sess conn : ℕ} {data : List UInt8}
      (found : ∃ key, (key, sess) ∈ s.sessions) :
      Effect w k now s (.receive key sess) s (.answer key sess conn data) []
  | expire {key : Key} {sess : ℕ}
      (late : k.deadline sess ≤ now ∨ ∀ key, (key, sess) ∉ s.sessions) :
      Effect w k now s (.receive key sess) s (.failed key sess) []
  | relay {key : Key} {sess source : ℕ} {data : List UInt8} {s' : Store} (same : Same s s') :
      Effect w k now s (.answer key sess source data) s' (.check key sess) []
  | abandon {key : Key} {sess : ℕ} : Effect w k now s (.failed key sess) s .returned []
  | remove {key : Key} {sess : ℕ} (own : s.sessions.lookup key = some sess) :
      Effect w k now s (.failed key sess) (s.drop fun e => e.1 = key) .returned []
  | sweep {ts : List ℤ} (read : ∀ sess < s.made.length, ts[sess]? = some now) :
      Effect w k now s .tick (s.drop fun e => s.expired w.ttl ts e.2) .clean []

section
variable {rule : ForwardRule} {w : Timing} {k : Clocks} {now : ℤ} {a : Choice} {s s' : Store}
  {p q : Goroutine} {started : List Goroutine}

theorem mem_of_lookup {sessions : List (Key × ℕ)} {key : Key} {sess : ℕ}
    (h : sessions.lookup key = some sess) : (key, sess) ∈ sessions := by
  obtain ⟨before, after, rfl, -⟩ := List.lookup_eq_some_iff.mp h
  simp

theorem same_refl (s : Store) : Same s s := ⟨rfl, rfl, rfl, rfl, rfl⟩

theorem effect_of_getOrCreate {l : ℕ} {addr : UDPAddr} {data : List UInt8}
    (htimely : timely k now s (.getOrCreate l addr data) a = true)
    (h : step rule w.ttl a s (.getOrCreate l addr data) = some (s', q, started)) :
    Effect w k now s (.getOrCreate l addr data) s' q started := by
  simp only [step] at h
  split at h
  · rename_i sess t hlookup
    obtain rfl : t = now := of_decide_eq_true htimely
    obtain ⟨conn, -, he⟩ := Option.map_eq_some_iff.mp h
    cases he
    exact .use ⟨_, mem_of_lookup hlookup⟩
  · rename_i t hlookup
    obtain rfl : t = now := of_decide_eq_true htimely
    cases h
    exact .create
  · cases h
    exact .quiet (same_refl s) rfl (by simp) rfl rfl
  · cases h

/-- The socket of a session that a datagram comes from is open, and so is not that of one which
has been dropped. -/
theorem effect_of_receive (hs : Inv s) {key : Key} {sess : ℕ}
    (htimely : timely k now s (.receive key sess) a = true)
    (h : step rule w.ttl a s (.receive key sess) = some (s', q, started)) :
    Effect w k now s (.receive key sess) s' q started := by
  simp only [step] at h
  split at h
  · rename_i conn data hconn
    split_ifs at h with hopen hempty
    · cases h
      exact .skip
    · cases h
      obtain ⟨⟨key', i⟩, he, hi⟩ := (hs.isOpen conn).mp hopen
      have hsess : i = sess := hi.trans (hs.connOf hconn)
      exact .take ⟨key', hsess ▸ he⟩
  · rename_i conn hconn
    cases h
    apply Effect.expire
    simp only [timely, Bool.or_eq_true, decide_eq_true_eq, hconn, Option.all_some] at htimely
    refine htimely.imp_right fun hclosed key' hmem => hclosed ?_
    rw [hs.connOf hconn]
    exact (hs.isOpen sess).mpr ⟨(key', sess), hmem, rfl⟩
  · cases h

theorem effect_of_step (hs : Inv s) (hcancelled : s.cancelled = false) (hdone : s.done = false)
    (hp : calm p = true) (htimely : timely k now s p a = true)
    (h : step rule w.ttl a s p = some (s', q, started)) : Effect w k now s p s' q started := by
  cases p with
  | cancel => cases htimely
  | awaitCancel =>
    simp only [step, hcancelled] at h
    cases h
  | close | closeDone | closeSessions => cases hp
  | clean =>
    cases a with
    | next =>
      simp only [step, hdone] at h
      cases h
    | time t =>
      cases h
      exact .quiet (same_refl s) rfl (by simp) rfl rfl
    | times | datagram | data | fail => cases h
  | tick =>
    cases a with
    | times ts =>
      cases h
      apply Effect.sweep
      intro sess hsess
      exact of_decide_eq_true (List.all_eq_true.mp htimely sess (List.mem_range.mpr hsess))
    | next | time | datagram | data | fail => cases h
  | select l =>
    simp only [step, hcancelled] at h
    cases h
    exact .quiet (same_refl s) rfl (by simp) rfl rfl
  | read l =>
    cases a with
    | datagram | fail =>
      cases h
      exact .quiet (same_refl s) rfl (by simp) rfl rfl
    | next | time | times | data => cases h
  | received l addr data =>
    simp only [step] at h
    split_ifs at h <;> cases h <;> exact .quiet (same_refl s) rfl (by simp) rfl rfl
  | getOrCreate l addr data => exact effect_of_getOrCreate htimely h
  | created l addr data key sess conn =>
    cases h
    exact .begin
  | write l addr data conn =>
    cases h
    exact .quiet ⟨rfl, rfl, rfl, rfl, rfl⟩ rfl (by simp) rfl rfl
  | check key sess =>
    simp only [step, hdone] at h
    cases h
    exact .check
  | receive key sess => exact effect_of_receive hs htimely h
  | answer key sess source data =>
    obtain ⟨x, -, he⟩ := Option.map_eq_some_iff.mp h
    cases he
    exact .relay ⟨rfl, rfl, rfl, rfl, rfl⟩
  | failed key sess =>
    simp only [step] at h
    split_ifs at h with hown
    · cases h
      exact .remove hown
    · cases h
      exact .abandon
  | returned => cases h

end

/-! ## The clocks -/

theorem clock_note (k : Clocks) (w : Timing) (now : ℤ) (p : Goroutine) :
    (k.note w now p).clock = now := by
  cases p <;> rfl

theorem cleaned_note (k : Clocks) (w : Timing) (now : ℤ) (p : Goroutine) :
    (k.note w now p).cleaned = if p = .tick then now else k.cleaned := by
  cases p <;> rfl

theorem relayed_note (k : Clocks) (w : Timing) (now : ℤ) (p : Goroutine) (sess : ℕ) :
    (k.note w now p).relayed sess = if answering sess p then some now else k.relayed sess := by
  cases p with
  | answer key i source data =>
    simp [Clocks.note, answering, Function.update_apply, eq_comm]
  | _ => rfl

/-- A deadline is left as it is or lies a time to live ahead. -/
theorem deadline_note (k : Clocks) (w : Timing) (now : ℤ) (p : Goroutine) (sess : ℕ) :
    (k.note w now p).deadline sess = k.deadline sess ∨
      (k.note w now p).deadline sess = now + w.ttl := by
  cases p with
  | check key i =>
    by_cases h : sess = i
    · exact .inr (by simp [Clocks.note, h])
    · exact .inl (by simp [Clocks.note, h])
  | _ => exact .inl rfl

/-! ## The invariant -/

/-- Whether a goroutine is the reader of the session. -/
def reads (sess : ℕ) (g : Goroutine) : Bool := reader g = some sess

theorem reads_of_answering {sess : ℕ} {g : Goroutine} (h : answering sess g = true) :
    reads sess g = true := by
  cases g with
  | answer => simpa [answering, reads, reader] using h
  | _ => cases h

/-- What holds while the rule is not stopped, and no step has dropped an active session. -/
structure Invariant (w : Timing) (x : Timed) : Prop where
  kept : Kept x.config
  calm : x.config.shared.cancelled = false ∧ x.config.shared.done = false
  calms : ∀ g ∈ x.config.procs, UDPSessionAging.calm g = true
  numbered : x.config.shared.lastUsed.length = x.config.shared.made.length
  prompt : x.clocks.cleaned ≤ x.clocks.clock ∧ x.clocks.clock ≤ x.clocks.cleaned + w.cleanInterval
  -- a session has one reader at most
  readers : ∀ sess, x.config.procs.countP (reads sess) ≤
    if sess < x.config.shared.made.length then 1 else 0
  relayed : ∀ sess, ∀ r ∈ x.clocks.relayed sess, r ≤ x.clocks.clock
  waiting : ∀ key sess, .receive key sess ∈ x.config.procs →
    ∀ r ∈ x.clocks.relayed sess, r + w.ttl ≤ x.clocks.deadline sess
  failed : ∀ key sess, .failed key sess ∈ x.config.procs →
    (∀ key, (key, sess) ∉ x.config.shared.sessions) ∨
      ∀ r ∈ x.clocks.relayed sess, r + w.ttl ≤ x.clocks.clock
  -- what is dropped is not active, and stays so
  dropped : ∀ sess < x.config.shared.made.length, (∀ key, (key, sess) ∉ x.config.shared.sessions) →
    (∀ used ∈ x.config.shared.lastUsed[sess]?, used + w.ttl ≤ x.clocks.clock) ∧
      (∀ r ∈ x.clocks.relayed sess, r + w.ttl ≤ x.clocks.clock) ∧
        ∀ g ∈ x.config.procs, answering sess g = false
  -- what is left after a pass of the cleaner was used within the time to live before it
  swept : ∀ e ∈ x.config.shared.sessions, ∀ used ∈ x.config.shared.lastUsed[e.2]?,
    x.clocks.cleaned ≤ used + w.ttl

section
variable {w : Timing} {k : Clocks} {now : ℤ} {s s' : Store} {p q : Goroutine}
  {started : List Goroutine} {sess : ℕ}

namespace Effect

variable (h : Effect w k now s p s' q started)
include h

theorem numbered (hs : s.lastUsed.length = s.made.length) :
    s'.lastUsed.length = s'.made.length := by
  cases h with
  | quiet same | relay same => rw [same.lastUsed, same.made, hs]
  | use => simpa using hs
  | create => simpa [Store.create] using hs
  | _ => exact hs

/-- The rule goes on. -/
theorem goes_on : s'.cancelled = s.cancelled ∧ s'.done = s.done ∧ calm q = true ∧
    ∀ r ∈ started, calm r = true := by
  cases h with
  | quiet same before pass after hcalm => exact ⟨same.cancelled, same.done, hcalm, nofun⟩
  | relay same => exact ⟨same.cancelled, same.done, rfl, nofun⟩
  | begin => exact ⟨rfl, rfl, rfl, fun r hr => List.mem_singleton.mp hr ▸ rfl⟩
  | _ => exact ⟨rfl, rfl, rfl, nofun⟩

/-- Only a session that is made gets a new reader. -/
theorem readers_le (n : ℕ) :
    (reads n q).toNat + started.countP (reads n) ≤ (reads n p).toNat ∧
        s.made.length ≤ s'.made.length ∨
      (reads n q).toNat + started.countP (reads n) ≤ 1 ∧ n = s.made.length ∧
        s'.made.length = s.made.length + 1 := by
  cases h with
  | quiet same before pass after calm => exact .inl ⟨by simp [reads, before, after], by rw [same.made]⟩
  | create =>
    by_cases hn : n = s.made.length
    · exact .inr ⟨by simp [Bool.toNat_le], hn, by simp [Store.create]⟩
    · exact .inl ⟨by simp [reads, reader, Ne.symm hn], by simp [Store.create]⟩
  | relay same => exact .inl ⟨by simp [reads, reader], by rw [same.made]⟩
  | @begin l addr data key sess conn =>
    refine .inl ⟨?_, le_rfl⟩
    by_cases hn : sess = n <;> simp [reads, reader, hn]
  | use | check | skip | take | expire => exact .inl ⟨by simp [reads, reader], le_rfl⟩
  | abandon | remove | sweep => exact .inl ⟨by simp [reads, reader], le_rfl⟩

/-- What has been dropped is not in the map any more. -/
theorem gone (hsess : sess < s.made.length) (hgone : ∀ key, (key, sess) ∉ s.sessions) :
    ∀ key, (key, sess) ∉ s'.sessions := by
  cases h with
  | quiet same | relay same => exact same.sessions ▸ hgone
  | create =>
    intro key hkey
    obtain heq | hkey := List.mem_cons.mp hkey
    · have hlen := congrArg Prod.snd heq
      exact absurd hlen hsess.ne
    · exact hgone key hkey
  | remove | sweep => exact fun key hkey => hgone key (List.mem_filter.mp hkey).1
  | _ => exact hgone

/-- A session that is made is in the map. -/
theorem made_cases (hsess : sess < s'.made.length) :
    sess < s.made.length ∨ ∃ key, (key, sess) ∈ s'.sessions := by
  cases h with
  | quiet same | relay same => exact .inl (same.made ▸ hsess)
  | @create l addr data conn =>
    rw [Store.create, List.length_append, List.length_singleton] at hsess
    obtain hlt | rfl := Nat.lt_succ_iff_lt_or_eq.mp hsess
    · exact .inl hlt
    · exact .inr ⟨clientKey addr, List.mem_cons_self⟩
  | _ => exact .inl hsess

end Effect

end

/-! ## What a step keeps -/

theorem eq_of_countP_le_one {P : Goroutine → Bool} {l : List Goroutine} (h : l.countP P ≤ 1)
    {g g' : Goroutine} (hg : g ∈ l) (hg' : g' ∈ l) (hP : P g = true) (hP' : P g' = true) :
    g = g' := by
  have hlen : (l.filter P).length ≤ 1 := by rwa [← List.countP_eq_length_filter]
  have hmem := List.mem_filter.mpr ⟨hg, hP⟩
  have hmem' := List.mem_filter.mpr ⟨hg', hP'⟩
  match hf : l.filter P with
  | [] =>
    rw [hf] at hmem
    cases hmem
  | [a] =>
    rw [hf, List.mem_singleton] at hmem hmem'
    rw [hmem, hmem']
  | a :: b :: rest =>
    rw [hf] at hlen
    simp at hlen

theorem mem_move {l started : List Goroutine} {i : ℕ} {g q : Goroutine}
    (hg : g ∈ l.set i q ++ started) : g = q ∨ g ∈ l ∨ g ∈ started := by
  obtain hg | hg := List.mem_append.mp hg
  · exact (List.mem_or_eq_of_mem_set hg).symm.imp_right .inl
  · exact .inr (.inr hg)

theorem of_expired {s : Store} {ttl now : ℤ} {ts : List ℤ} {sess : ℕ} (hread : ts[sess]? = some now)
    (h : s.expired ttl ts sess = true) : ∃ used ∈ s.lastUsed[sess]?, used + ttl < now := by
  rw [Store.expired, hread] at h
  cases hused : s.lastUsed[sess]? with
  | none =>
    rw [hused] at h
    cases h
  | some used =>
    rw [hused] at h
    have hlate := of_decide_eq_true h
    exact ⟨used, rfl, by omega⟩

section
variable {w : Timing} {x : Timed} {now : ℤ} {i : ℕ} {s' : Store} {p q : Goroutine}
  {started : List Goroutine}

/-- The reader of a session that has been made. -/
theorem Invariant.made_of_reads (hx : Invariant w x) {sess : ℕ} {g : Goroutine}
    (hg : g ∈ x.config.procs) (hreads : reads sess g = true) :
    sess < x.config.shared.made.length := by
  by_contra hnot
  have hle := hx.readers sess
  rw [if_neg hnot] at hle
  have hpos := List.countP_pos_iff.mpr ⟨g, hg, hreads⟩
  omega

/-- A step that is taken at a time. -/
structure Stepped (w : Timing) (x : Timed) (now : ℤ) (i : ℕ) (p : Goroutine) (s' : Store)
    (q : Goroutine) (started : List Goroutine) : Prop where
  mover : x.config.procs[i]? = some p
  clock : x.clocks.clock ≤ now
  pass : now ≤ x.clocks.cleaned + w.cleanInterval
  effect : Effect w x.clocks now x.config.shared p s' q started

namespace Stepped

variable (h : Stepped w x now i p s' q started) (hx : Invariant w x)
include h hx

theorem prompt : (x.clocks.note w now p).cleaned ≤ now ∧
    now ≤ (x.clocks.note w now p).cleaned + w.cleanInterval := by
  have hclock := h.clock
  have hpass := h.pass
  have hbefore := hx.prompt.1
  rw [cleaned_note]
  split_ifs <;> omega

theorem readers (n : ℕ) : (x.config.procs.set i q ++ started).countP (reads n) ≤
    if n < s'.made.length then 1 else 0 := by
  have hcount := countP_move (reads n) started (q := q) h.mover
  have hbefore := hx.readers n
  obtain ⟨hle, hmade⟩ | ⟨hle, rfl, hmade⟩ := h.effect.readers_le n
  · split_ifs at hbefore ⊢ <;> omega
  · rw [if_neg (lt_irrefl _)] at hbefore
    rw [if_pos (by omega)]
    omega

theorem relayed (sess : ℕ) : ∀ r ∈ (x.clocks.note w now p).relayed sess, r ≤ now := by
  intro r hr
  rw [relayed_note] at hr
  split_ifs at hr
  · cases hr
    exact le_rfl
  · exact (hx.relayed sess r hr).trans h.clock

/-- Nobody else reads for the session of the goroutine that has moved. -/
theorem reader_unique {sess : ℕ} {g : Goroutine} (hg : g ∈ x.config.procs.set i q ++ started)
    (hreads : reads sess g = true) (hq : reads sess q = true) : g = q := by
  have hmem : q ∈ x.config.procs.set i q ++ started :=
    List.mem_append_left _ (mem_set_self h.mover)
  have hle := h.readers hx sess
  refine eq_of_countP_le_one (hle.trans ?_) hg hmem hreads hq
  split_ifs <;> omega

/-- No datagram is relayed for a session whose reader waits or has failed. -/
theorem relayed_eq {sess : ℕ} {g : Goroutine} (hg : g ∈ x.config.procs.set i q ++ started)
    (hreads : reads sess g = true) (hcheck : ∀ key, g ≠ .check key sess) :
    (x.clocks.note w now p).relayed sess = x.clocks.relayed sess := by
  rw [relayed_note]
  split_ifs with hanswer
  · have heffect := h.effect
    cases p with
    | answer key n source data =>
      obtain rfl : n = sess := of_decide_eq_true hanswer
      cases heffect with
      | quiet same before pass after calm => cases before
      | relay same =>
        exact absurd (h.reader_unique hx hg hreads (by simp [reads, reader])) (hcheck key)
    | _ => cases hanswer
  · rfl

omit hx in
/-- A goroutine that is started waits for nothing yet. -/
theorem of_started {g : Goroutine} (hg : g ∈ started) : ∃ key sess, g = .check key sess := by
  cases h.effect with
  | @begin l addr data key sess conn => exact ⟨key, sess, List.mem_singleton.mp hg⟩
  | _ => cases hg

theorem waiting {key : Key} {sess : ℕ}
    (hg : .receive key sess ∈ x.config.procs.set i q ++ started) :
    ∀ r ∈ (x.clocks.note w now p).relayed sess,
      r + w.ttl ≤ (x.clocks.note w now p).deadline sess := by
  intro r hr
  have hrecent := h.relayed hx sess r hr
  have hahead : (x.clocks.note w now p).deadline sess = now + w.ttl →
      r + w.ttl ≤ (x.clocks.note w now p).deadline sess := by
    intro hdeadline
    omega
  obtain rfl | hold | hnew := mem_move hg
  · apply hahead
    cases h.effect with
    | quiet same before pass after calm => cases after
    | check => exact Function.update_self ..
  · rw [h.relayed_eq hx hg (by simp [reads, reader]) nofun] at hr
    obtain hsame | hdeadline := deadline_note x.clocks w now p sess
    · rw [hsame]
      exact hx.waiting key sess hold r hr
    · exact hahead hdeadline
  · obtain ⟨key', sess', heq⟩ := h.of_started hnew
    cases heq

theorem failed {key : Key} {sess : ℕ}
    (hg : .failed key sess ∈ x.config.procs.set i q ++ started) :
    (∀ key, (key, sess) ∉ s'.sessions) ∨
      ∀ r ∈ (x.clocks.note w now p).relayed sess, r + w.ttl ≤ now := by
  have hreads : reads sess (.failed key sess) = true := by simp [reads, reader]
  rw [h.relayed_eq hx hg hreads nofun]
  obtain rfl | hold | hnew := mem_move hg
  · have hmover := List.mem_of_getElem? h.mover
    cases h.effect with
    | quiet same before pass after calm => cases after
    | expire late =>
      obtain hdeadline | hgone := late
      · exact .inr fun r hr => (hx.waiting key sess hmover r hr).trans hdeadline
      · exact .inl hgone
  · have hsess := hx.made_of_reads hold hreads
    obtain hgone | hlong := hx.failed key sess hold
    · exact .inl (h.effect.gone hsess hgone)
    · exact .inr fun r hr => (hlong r hr).trans h.clock
  · obtain ⟨key', sess', heq⟩ := h.of_started hnew
    cases heq

omit hx in
/-- When the reader of a session returns, nobody has a datagram for it. -/
theorem answering_of_returned (hx : Invariant w x) {sess : ℕ} (hp : reads sess p = true)
    (hq : q = .returned) (hstarted : started = []) :
    ∀ g ∈ x.config.procs.set i q ++ started, answering sess g = false := by
  subst hq hstarted
  have hcount := countP_move (reads sess) (q := .returned) [] h.mover
  have hone := hx.readers sess
  have hreturned : reads sess .returned = false := rfl
  rw [hp, hreturned, Bool.toNat_true, Bool.toNat_false, List.countP_nil] at hcount
  have hnone : (x.config.procs.set i .returned ++ []).countP (reads sess) = 0 := by
    split_ifs at hone <;> omega
  intro g hg
  by_contra hanswer
  exact List.countP_eq_zero.mp hnone g hg
    (reads_of_answering (Bool.eq_true_of_not_eq_false hanswer))

/-- A session that is dropped by this step was not in use. -/
theorem dropped_now (hok : Spares w x.clocks now x.config p) {sess : ℕ}
    (hmem : ∃ key, (key, sess) ∈ x.config.shared.sessions)
    (hgone : ∀ key, (key, sess) ∉ s'.sessions) :
    (∀ used ∈ s'.lastUsed[sess]?, used + w.ttl ≤ now) ∧
      (∀ r ∈ (x.clocks.note w now p).relayed sess, r + w.ttl ≤ now) ∧
        ∀ g ∈ x.config.procs.set i q ++ started, answering sess g = false := by
  obtain ⟨key, hkey⟩ := hmem
  have hmover := List.mem_of_getElem? h.mover
  have hreturned : reads sess p = true → q = .returned → started = [] →
      ∀ g ∈ x.config.procs.set i q ++ started, answering sess g = false :=
    h.answering_of_returned hx
  cases h.effect with
  | quiet same | relay same => exact absurd hkey (same.sessions ▸ hgone key)
  | create => exact absurd (List.mem_cons_of_mem _ hkey) (hgone key)
  | @remove key' n own =>
    have hkeys : key = key' := by
      by_contra hne
      exact hgone key (List.mem_filter.mpr ⟨hkey, by simp [hne]⟩)
    subst hkeys
    obtain rfl : n = sess :=
      congrArg Prod.snd (List.inj_on_of_nodup_map hx.kept.1.keys (mem_of_lookup own) hkey rfl)
    have hlong := (hx.failed key n hmover).resolve_left fun hnot => hnot key hkey
    exact ⟨hok own, fun r hr => (hlong r hr).trans h.clock,
      hreturned (by simp [reads, reader]) rfl rfl⟩
  | @sweep ts read =>
    have hexpired : x.config.shared.expired w.ttl ts sess = true := by
      by_contra hnot
      exact hgone key (List.mem_filter.mpr ⟨hkey, by simp [hnot]⟩)
    obtain ⟨session, hsession, -⟩ := hx.kept.1.named (key, sess) hkey
    have hread := read sess (List.getElem?_eq_some_iff.mp hsession).choose
    obtain ⟨used, hused, hlate⟩ := of_expired hread hexpired
    obtain ⟨hsilent, hanswering⟩ := hok (key, sess) hkey ⟨used, hused, hlate⟩
    refine ⟨fun used' hused' => ?_, hsilent, fun g hg => ?_⟩
    · rw [Option.mem_unique hused' hused]
      exact hlate.le
    · obtain rfl | hold | hnew := mem_move hg
      · rfl
      · exact hanswering g hold
      · cases hnew
  | _ => exact absurd hkey (hgone key)

/-- A session that has been dropped before is not used. -/
theorem dropped_before {sess : ℕ} (hsess : sess < x.config.shared.made.length)
    (hgone : ∀ key, (key, sess) ∉ x.config.shared.sessions) :
    (∀ used ∈ s'.lastUsed[sess]?, used + w.ttl ≤ now) ∧
      (∀ r ∈ (x.clocks.note w now p).relayed sess, r + w.ttl ≤ now) ∧
        ∀ g ∈ x.config.procs.set i q ++ started, answering sess g = false := by
  obtain ⟨hused, hrelayed, hanswering⟩ := hx.dropped sess hsess hgone
  have hclock := h.clock
  refine ⟨?_, ?_, ?_⟩
  · have hlong : ∀ used ∈ x.config.shared.lastUsed[sess]?, used + w.ttl ≤ now :=
      fun used hu => (hused used hu).trans hclock
    cases h.effect with
    | quiet same | relay same => exact same.lastUsed ▸ hlong
    | @use l addr data n conn found =>
      obtain ⟨key, hkey⟩ := found
      have hne : n ≠ sess := fun heq => hgone key (heq ▸ hkey)
      rw [List.getElem?_set_ne hne]
      exact hlong
    | create =>
      rw [← hx.numbered] at hsess
      rw [Store.create, List.getElem?_append_left hsess]
      exact hlong
    | _ => exact hlong
  · intro r hr
    rw [relayed_note, hanswering p (List.mem_of_getElem? h.mover)] at hr
    exact (hrelayed r hr).trans hclock
  · intro g hg
    obtain rfl | hold | hnew := mem_move hg
    · cases h.effect with
      | quiet same before pass after calm =>
        by_contra hanswer
        have hreads := reads_of_answering (Bool.eq_true_of_not_eq_false hanswer)
        rw [reads, after] at hreads
        cases hreads
      | @take key n conn data found =>
        obtain ⟨key, hkey⟩ := found
        have hne : n ≠ sess := fun heq => hgone key (heq ▸ hkey)
        exact decide_eq_false hne
      | _ => rfl
    · exact hanswering g hold
    · obtain ⟨key', sess', rfl⟩ := h.of_started hnew
      rfl

theorem swept : ∀ e ∈ s'.sessions, ∀ used ∈ s'.lastUsed[e.2]?,
    (x.clocks.note w now p).cleaned ≤ used + w.ttl := by
  have hcleaned := hx.prompt.1
  have hclock := h.clock
  have hnonneg := w.ttl_nonneg
  rw [cleaned_note]
  cases h.effect with
  | quiet same before pass after calm =>
    rw [if_neg pass, same.sessions, same.lastUsed]
    exact hx.swept
  | relay same =>
    rw [if_neg (by simp), same.sessions, same.lastUsed]
    exact hx.swept
  | @use l addr data sess conn found =>
    rw [if_neg (by simp)]
    intro e he used hused
    obtain ⟨-, rfl⟩ | ⟨-, hold⟩ := getElem?_set_cases hused
    · omega
    · exact hx.swept e he used hold
  | create =>
    rw [if_neg (by simp)]
    intro e he used hused
    rw [Store.create] at hused
    obtain rfl | he := List.mem_cons.mp he
    · dsimp only at hused
      rw [← hx.numbered, List.getElem?_concat_length] at hused
      cases hused
      omega
    · obtain ⟨session, hsession, -⟩ := hx.kept.1.named e he
      have hlt := (List.getElem?_eq_some_iff.mp hsession).choose
      rw [← hx.numbered] at hlt
      rw [List.getElem?_append_left hlt] at hused
      exact hx.swept e he used hused
  | remove own =>
    rw [if_neg (by simp)]
    exact fun e he => hx.swept e (List.mem_filter.mp he).1
  | @sweep ts read =>
    rw [if_pos rfl]
    intro e he used hused
    obtain ⟨hmem, hkept⟩ := List.mem_filter.mp he
    obtain ⟨session, hsession, -⟩ := hx.kept.1.named e hmem
    have hread := read e.2 (List.getElem?_eq_some_iff.mp hsession).choose
    have hused' : x.config.shared.lastUsed[e.2]? = some used := hused
    simp only [Store.expired, hused', hread, Bool.not_eq_true', decide_eq_false_iff_not] at hkept
    omega
  | _ =>
    rw [if_neg (by simp)]
    exact hx.swept

end Stepped

end

/-- Every step that drops no session in use keeps the invariant. -/
theorem Invariant.step {rule : ForwardRule} {w : Timing} {x y : Timed} {e : Event}
    (hx : Invariant w x) (hok : Harmless w x e) (hstep : timedStep rule w x e = some y) :
    Invariant w y := by
  obtain ⟨p, s', q, started, hp, hclock, hpass, htimely, hmove, rfl, hexec⟩ :=
    config_of_timedStep hstep
  have hspares := hok p hp
  have heffect := effect_of_step hx.kept.1 hx.calm.1 hx.calm.2
    (hx.calms p (List.mem_of_getElem? hp)) htimely hmove
  obtain ⟨hcancelled, hdone, hq, hstarted⟩ := heffect.goes_on
  have h : Stepped w x e.now e.goroutine p s' q started := ⟨hp, hclock, hpass, heffect⟩
  constructor
  case kept =>
    rw [hexec]
    exact exec_kept x.config (e.goroutine, e.choice) hx.kept
  case calm => exact ⟨hcancelled.trans hx.calm.1, hdone.trans hx.calm.2⟩
  case calms => exact List.forall_mem_append.mpr ⟨forall_set hx.calms hq, hstarted⟩
  case numbered => exact heffect.numbered hx.numbered
  case prompt =>
    rw [clock_note]
    exact h.prompt hx
  case readers => exact h.readers hx
  case relayed =>
    rw [clock_note]
    exact h.relayed hx
  case waiting => exact fun key sess hg => h.waiting hx hg
  case failed =>
    rw [clock_note]
    exact fun key sess hg => h.failed hx hg
  case dropped =>
    rw [clock_note]
    intro sess hsess hgone
    by_cases hmem : ∃ key, (key, sess) ∈ x.config.shared.sessions
    · exact h.dropped_now hx hspares hmem hgone
    · obtain hold | ⟨key, hkey⟩ := heffect.made_cases hsess
      · exact h.dropped_before hx hold (not_exists.mp hmem)
      · exact absurd hkey (hgone key)
  case swept => exact h.swept hx

theorem reader_of_boot {closers listeners : ℕ} {g : Goroutine}
    (hg : g ∈ (boot closers listeners).procs) : reader g = none ∧ calm g = true := by
  simp only [boot, List.mem_cons, List.mem_append, List.mem_replicate, List.mem_map] at hg
  rcases hg with rfl | rfl | ⟨-, rfl⟩ | ⟨l, -, rfl⟩ <;> exact ⟨rfl, rfl⟩

theorem start_invariant (w : Timing) (closers listeners : ℕ) (clock : ℤ) :
    Invariant w (start closers listeners clock) where
  kept := boot_kept closers listeners
  calm := ⟨rfl, rfl⟩
  calms g hg := (reader_of_boot hg).2
  numbered := rfl
  prompt := ⟨le_rfl, le_add_of_nonneg_right w.cleanInterval_pos.le⟩
  readers sess := by
    have hnone : (boot closers listeners).procs.countP (reads sess) = 0 := by
      rw [List.countP_eq_zero]
      intro g hg
      simp [reads, (reader_of_boot hg).1]
    exact hnone.trans_le (Nat.zero_le _)
  relayed sess r hr := by cases hr
  waiting key sess hg := by cases (reader_of_boot hg).1
  failed key sess hg := by cases (reader_of_boot hg).1
  dropped sess hsess := absurd hsess (Nat.not_lt_zero sess)
  swept e he := by cases he

theorem Invariant.aged {w : Timing} {x : Timed} (h : Invariant w x) : Aged w x where
  active := by
    intro sess hsess hactive
    by_cases hmem : ∃ key, (key, sess) ∈ x.config.shared.sessions
    · obtain ⟨key, hkey⟩ := hmem
      have hconn := h.kept.1.connOf_entry hkey
      exact ⟨⟨key, hkey⟩, sess, hconn, (h.kept.1.isOpen sess).mpr ⟨(key, sess), hkey, rfl⟩⟩
    · obtain ⟨hused, hrelayed, -⟩ := h.dropped sess hsess (not_exists.mp hmem)
      obtain ⟨used, hu, hrecent⟩ | ⟨r, hr, hrecent⟩ := hactive
      · exact absurd hrecent (not_lt.mpr (hused used hu))
      · exact absurd hrecent (not_lt.mpr (hrelayed r hr))
  idle := by
    intro sess hsess hidle
    have hgone : ∀ key, (key, sess) ∉ x.config.shared.sessions := by
      intro key hkey
      rw [← h.numbered] at hsess
      have hused : x.config.shared.lastUsed[sess]? = some x.config.shared.lastUsed[sess] :=
        List.getElem?_eq_getElem hsess
      have hrecent := h.swept (key, sess) hkey _ hused
      have hlong := hidle.1 _ hused
      have hprompt := h.prompt.2
      omega
    refine ⟨hgone, ?_⟩
    intro conn hconn hopen
    obtain ⟨⟨key, i⟩, he, hi⟩ := (h.kept.1.isOpen conn).mp hopen
    have hsess' : i = sess := hi.trans (h.kept.1.connOf hconn)
    exact hgone key (hsess' ▸ he)

/-- In every run in which no step drops a session in use, every session that is active is alive
and every idle one is gone. -/
theorem active_sessions_survive (rule : ForwardRule) (w : Timing) (closers listeners : ℕ)
    (clock : ℤ) {x : Timed}
    (h : Run (timedStep rule w) (Harmless w) (start closers listeners clock) x) : Aged w x := by
  have hx := h.invariant (fun _ _ _ hx hok hstep => Invariant.step hx hok hstep)
    (start_invariant w closers listeners clock)
  exact hx.aged

/-- A session that is gone is active, or its reader has a datagram in hand. -/
def Lost (w : Timing) (x : Timed) : Prop :=
  ∃ sess < x.config.shared.made.length, (∀ key, (key, sess) ∉ x.config.shared.sessions) ∧
    (Active w x sess ∨ ∃ g ∈ x.config.procs, answering sess g = true)

/-- What drops one entry of a session leaves none. -/
theorem not_mem_drop {s : Store} (hs : Inv s) {dead : Key × ℕ → Bool} {key : Key} {sess : ℕ}
    (hmem : (key, sess) ∈ s.sessions) (hdead : dead (key, sess) = true) :
    ∀ key', (key', sess) ∉ (s.drop dead).sessions := by
  intro key' hkey'
  obtain ⟨hbefore, hkept⟩ := List.mem_filter.mp hkey'
  rw [hs.entry_inj hbefore hmem rfl, hdead] at hkept
  cases hkept

/-- The condition leaves nothing out: a step that does not meet it loses a session. -/
theorem Invariant.lost {rule : ForwardRule} {w : Timing} {x y : Timed} {e : Event}
    (hx : Invariant w x) (hstep : timedStep rule w x e = some y) (hbad : ¬Harmless w x e) :
    Lost w y := by
  obtain ⟨p, s', q, started, hp, -, -, htimely, hmove, rfl, -⟩ := config_of_timedStep hstep
  have hspares : ¬Spares w x.clocks e.now x.config p := by
    intro hok
    refine hbad fun p' hp' => ?_
    rw [Option.mem_unique hp' hp]
    exact hok
  cases p with
  | failed key sess =>
    simp only [Spares, not_forall, not_le] at hspares
    obtain ⟨hown, used, hused, hrecent⟩ := hspares
    have hmem := mem_of_lookup hown
    obtain ⟨session, hsession, -⟩ := hx.kept.1.named (key, sess) hmem
    simp only [UDPSessions.step, if_pos hown] at hmove
    cases hmove
    exact ⟨sess, (List.getElem?_eq_some_iff.mp hsession).choose,
      not_mem_drop hx.kept.1 hmem (by simp), .inl (.inl ⟨used, hused, hrecent⟩)⟩
  | tick =>
    simp only [Spares, not_forall] at hspares
    obtain ⟨⟨key, sess⟩, hmem, ⟨used, hused, hlate⟩, hbusy⟩ := hspares
    obtain ⟨session, hsession, -⟩ := hx.kept.1.named (key, sess) hmem
    have hsess := (List.getElem?_eq_some_iff.mp hsession).choose
    have heffect := effect_of_step hx.kept.1 hx.calm.1 hx.calm.2
      (hx.calms .tick (List.mem_of_getElem? hp)) htimely hmove
    cases heffect with
    | quiet same before pass after calm => exact absurd rfl pass
    | @sweep ts read =>
      have hexpired : x.config.shared.expired w.ttl ts sess = true := by
        have hused' : x.config.shared.lastUsed[sess]? = some used := hused
        simp only [Store.expired, hused', read sess hsess, decide_eq_true_eq]
        omega
      refine ⟨sess, hsess, not_mem_drop hx.kept.1 hmem hexpired, ?_⟩
      obtain hbackend | hhand := not_and_or.mp hbusy
      · simp only [not_forall, not_le] at hbackend
        obtain ⟨r, hr, hrecent⟩ := hbackend
        exact .inl (.inr ⟨r, hr, hrecent⟩)
      · simp only [not_forall, Bool.not_eq_false] at hhand
        obtain ⟨g, hg, hanswer⟩ := hhand
        have hbefore : ∃ g ∈ x.config.procs, answering sess g = true := ⟨g, hg, hanswer⟩
        obtain ⟨g', hg', hanswer'⟩ := (exists_set hp hbefore).resolve_left (by simp [answering])
        exact .inr ⟨g', List.mem_append_left _ hg', hanswer'⟩
  | _ => exact absurd trivial hspares

/-- A rule for a name server. -/
def dns : ForwardRule :=
  ⟨⟨"r", "t", "o", "dns", "udp", "0.0.0.0", 53, "10.0.0.2", 53, false, 0, true, "", ""⟩, ⟨[], []⟩⟩

def client : UDPAddr := ⟨[10, 0, 0, 7], 5353, ""⟩

/-- Steps at a second. -/
def atSecond (second : ℤ) (steps : List (ℕ × Choice)) : List Event :=
  steps.map fun m => ⟨m.1, m.2, second * 10 ^ 9⟩

/-- A datagram of the client goes to the backend. -/
def query (second : ℤ) : List Event :=
  atSecond second [(3, .next), (3, .datagram client [1]), (3, .next), (3, .time (second * 10 ^ 9)),
    (3, .next)]

/-- A datagram of the backend comes back. -/
def answer (second : ℤ) : List Event :=
  atSecond second [(4, .data [2]), (4, .next), (4, .next)]

/-- A query, an answer, a pass of the cleaner, and the time of the next one. -/
def answered : List Event :=
  query 0 ++ atSecond 0 [(3, .next), (4, .next)] ++ answer 20 ++
    atSecond 25 [(1, .time (25 * 10 ^ 9)), (1, .times [25 * 10 ^ 9])] ++
    atSecond 45 [(1, .time (45 * 10 ^ 9))]

theorem answered_survives : ∃ x : Timed, Alive x.config.shared 0 ∧ x.clocks.clock = 45 * 10 ^ 9 := by
  have hrun : (answered.foldlM (fun x e => if Harmless udpTiming x e then
      timedStep dns udpTiming x e else none) (start 1 1 0)).map (fun x =>
        (x.config.shared.made.length, x.clocks.relayed 0, x.clocks.clock)) =
      some (1, some (20 * 10 ^ 9), 45 * 10 ^ 9) := by
    decide +kernel
  obtain ⟨x, hx, hend⟩ := Option.map_eq_some_iff.mp hrun
  have hmade : x.config.shared.made.length = 1 := congrArg (·.1) hend
  have hrelayed : x.clocks.relayed 0 = some (20 * 10 ^ 9) := congrArg (·.2.1) hend
  have hclock : x.clocks.clock = 45 * 10 ^ 9 := congrArg (·.2.2) hend
  have haged := active_sessions_survive dns udpTiming 1 1 0 (.of_foldlM_guarded hx)
  refine ⟨x, haged.active 0 (by omega) (.inr ⟨_, hrelayed, ?_⟩), hclock⟩
  rw [hclock]
  norm_num [udpTiming]

/-- A query, and answers of the backend that go on when the cleaner passes. -/
def streamed : List Event :=
  query 0 ++ atSecond 0 [(3, .next), (4, .next)] ++ answer 20 ++ answer 40 ++ answer 55 ++
    atSecond 60 [(1, .time (60 * 10 ^ 9)), (1, .times [60 * 10 ^ 9])]

/-- The session of a client that only listens is dropped five seconds after a datagram was
relayed to it. -/
theorem streamed_dropped : ∃ x : Timed,
    Run (timedStep dns udpTiming) Always (start 1 1 0) x ∧ ¬Aged udpTiming x := by
  have hrun : (streamed.foldlM (timedStep dns udpTiming) (start 1 1 0)).map (fun x =>
      (x.config.shared.made.length, x.clocks.relayed 0, x.clocks.clock,
        x.config.shared.sockets)) =
      some (1, some (55 * 10 ^ 9), 60 * 10 ^ 9, [false]) := by
    decide +kernel
  obtain ⟨x, hx, hend⟩ := Option.map_eq_some_iff.mp hrun
  have hmade : x.config.shared.made.length = 1 := congrArg (·.1) hend
  have hrelayed : x.clocks.relayed 0 = some (55 * 10 ^ 9) := congrArg (·.2.1) hend
  have hclock : x.clocks.clock = 60 * 10 ^ 9 := congrArg (·.2.2.1) hend
  have hsockets : x.config.shared.sockets = [false] := congrArg (·.2.2.2) hend
  refine ⟨x, .of_foldlM hx, fun haged => ?_⟩
  have hactive : Active udpTiming x 0 := by
    refine .inr ⟨_, hrelayed, ?_⟩
    rw [hclock]
    norm_num [udpTiming]
  obtain ⟨-, conn, -, hopen⟩ := haged.active 0 (by omega) hactive
  rw [hsockets, List.getElem?_singleton] at hopen
  split_ifs at hopen
  cases hopen

end NetBerth.UDPSessionAging
