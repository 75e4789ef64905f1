import NetBerth.ClientIP
import NetBerth.Majority
import NetBerth.StunBind

/-!
# Probing several STUN servers

Each server is probed up to three times, all servers at once. What comes of a probe is an
address, an error, or both: a second binding that fails leaves the address of the first. The
results are taken as they arrive. An address counts wherever it comes from; only the results
without an error are compared with each other.

The order in which results arrive, and the one in which the counts are gone through, are
arguments.
-/
namespace NetBerth.StunConsensus
open ClientIP (ipString_ne_empty)
open IPAddress Majority StunBind StunMessage

/-! ## One probe -/

inductive NatType where
  | unknown
  | none
  | fullCone
  | restrictedCone
  | portRestrictedCone
  | symmetric
  deriving DecidableEq, Repr

inductive DetectError where
  | resolve (err : SocketError)
  | listen (err : SocketError)
  | bind (err : BindError)
  | secondBind (err : BindError)
  deriving DecidableEq, Repr

def DetectError.text : DetectError → List UInt8
  | resolve err => utf8 ("resolve STUN server: " ++ err.text)
  | listen err => utf8 ("listen UDP: " ++ err.text)
  | bind err => utf8 "stun bind: " ++ err.text
  | secondBind err => utf8 "second bind: " ++ err.text

inductive Outcome where
  | mapped (natType : NatType) (addr : UDPAddr)
  | failed (natType : NatType) (addr : Option UDPAddr) (err : DetectError)
  deriving DecidableEq, Repr

namespace Outcome

def natType : Outcome → NatType
  | mapped natType _ | failed natType _ _ => natType

def addr : Outcome → Option UDPAddr
  | mapped _ addr => some addr
  | failed _ addr _ => addr

def err : Outcome → Option DetectError
  | mapped _ _ => none
  | failed _ _ err => some err

end Outcome

/-- What the calls of a probe give: the socket with its local address, the local address of
the other one, and the random bytes of the two requests. -/
structure Network where
  resolveUDPAddr : String → Except SocketError UDPAddr
  listenUDP : Except SocketError (UDPConn × UDPAddr)
  listenAlt : Except SocketError UDPAddr
  random : TransID
  random2 : TransID

/-- The echo from the other socket, and whatever else arrives. -/
def coneType (listenAlt : Except SocketError UDPAddr) (conn : UDPConn) : NatType :=
  match listenAlt with
  | .error _ => .fullCone
  | .ok altAddr =>
    let (echo, conn) := conn.setReadDeadline.2.readFromUDP bufSize
    let echoed := match echo with
      | .ok (_, sender) => sender.ip.equal altAddr.ip
      | .error _ => false
    if echoed then .fullCone
    else
      match (conn.setReadDeadline.2.setReadDeadline.2.readFromUDP bufSize).1 with
      | .ok _ => .restrictedCone
      | .error _ => .portRestrictedCone

/-- `none` when a binding panics. -/
def detectNAT (w : Network) (stunServer : String) : Option Outcome :=
  let stunServer := if stunServer = "" then "stun.l.google.com:19302" else stunServer
  match w.resolveUDPAddr stunServer, w.listenUDP with
  | .error err, _ => some (.failed .unknown none (.resolve err))
  | .ok _, .error err => some (.failed .unknown none (.listen err))
  | .ok serverAddr, .ok (conn, localAddr) =>
    match stunBind conn serverAddr w.random with
    | none => none
    | some (.error err, _) => some (.failed .unknown none (.bind err))
    | some (.ok mapped, conn) =>
      if mapped.ip.equal localAddr.ip ∧ mapped.port = localAddr.port then
        some (.mapped .none mapped)
      else
        match stunBind conn serverAddr w.random2 with
        | none => none
        | some (.error err, _) => some (.failed .unknown (some mapped) (.secondBind err))
        | some (.ok mapped2, conn) =>
          if mapped.port ≠ mapped2.port then some (.mapped .symmetric mapped)
          else some (.mapped (coneType w.listenAlt conn) mapped2)

theorem detectNAT_isSome (w : Network) (stunServer : String) :
    (detectNAT w stunServer).isSome = true := by
  have hbind (conn : UDPConn) (server : UDPAddr) (random : TransID) :
      stunBind conn server random ≠ none := by
    intro h
    have hsome := stunBind_isSome conn server random
    rw [h] at hsome
    cases hsome
  unfold detectNAT
  dsimp only
  split
  · rfl
  · rfl
  · split
    · rename_i hnone
      exact (hbind _ _ _ hnone).elim
    · rfl
    · split_ifs
      · rfl
      · split
        · rename_i hnone
          exact (hbind _ _ _ hnone).elim
        · rfl
        · split_ifs <;> rfl

/-- The goroutine of a server; the network may change with the attempt. -/
def probe (w : ℕ → Network) (server : String) : Option Outcome :=
  let rec retry (left attempt : ℕ) : Option Outcome :=
    match left, detectNAT (w attempt) server with
    | left + 1, some (.failed _ _ _) => retry left (attempt + 1)
    | _, outcome => outcome
  retry 2 0

theorem probe_isSome (w : ℕ → Network) (server : String) : (probe w server).isSome = true := by
  have hretry (left attempt : ℕ) : (probe.retry w server left attempt).isSome = true := by
    induction left generalizing attempt with
    | zero => exact detectNAT_isSome (w attempt) server
    | succ left ih =>
      unfold probe.retry
      split
      · rename_i heq _
        cases heq
        exact ih (attempt + 1)
      · exact detectNAT_isSome (w attempt) server
  exact hretry 2 0

/-! ## All probes -/

structure ProbeOut where
  server : String
  outcome : Outcome
  deriving DecidableEq, Repr

structure ServerProbe where
  server : String
  natType : NatType
  mappedIP : String
  port : ℕ
  error : List UInt8
  deriving DecidableEq, Repr

structure MultiProbeResult where
  serverResults : List ServerProbe
  consensusIP : String
  consensusPort : ℕ
  inconsistent : Bool
  deriving DecidableEq, Repr

def serverProbe (p : ProbeOut) : ServerProbe where
  server := p.server
  natType := p.outcome.natType
  mappedIP := p.outcome.addr.elim "" fun addr => addr.ip.string
  port := p.outcome.addr.elim 0 UDPAddr.port
  error := p.outcome.err.elim [] DetectError.text

/-- The variables of the loop that receives. -/
structure Received where
  serverResults : List ServerProbe
  ipCount : String → ℕ
  portCount : ℕ → ℕ

def receive (r : Received) (p : ProbeOut) : Received :=
  let sp := serverProbe p
  match p.outcome.addr with
  | none => { r with serverResults := r.serverResults ++ [sp] }
  | some _ =>
    { serverResults := r.serverResults ++ [sp]
      ipCount := increment r.ipCount sp.mappedIP
      portCount := increment r.portCount sp.port }

/-- The scan for a difference. -/
def differs (firstIP : String) (firstPort : ℕ) : List ServerProbe → Bool
  | [] => false
  | s :: rest =>
    if s.error ≠ [] then differs firstIP firstPort rest
    else if firstIP = "" then differs s.mappedIP s.port rest
    else if s.mappedIP ≠ firstIP ∨ s.port ≠ firstPort then true
    else differs firstIP firstPort rest

def probed (servers : List String) : List String :=
  if servers.length = 0 then ["stun.l.google.com:19302", "stun1.l.google.com:19302"] else servers

/-- The addresses that were reported, also those with an error. -/
def reports (outs : List ProbeOut) : List (String × ℕ) :=
  outs.filterMap fun p => p.outcome.addr.map fun addr => (addr.ip.string, addr.port)

/-- An order in which the results arrive, and orders in which the two maps are gone through. -/
structure Schedule (outs : List ProbeOut) where
  arrivals : List ProbeOut
  ips : List String
  ports : List ℕ
  arrivals_perm : arrivals.Perm outs
  ips_perm : ips.Perm ((reports outs).map Prod.fst).dedup
  ports_perm : ports.Perm ((reports outs).map Prod.snd).dedup

/-- `outcome` is what comes of the probe of each server. -/
def probes (servers : List String) (outcome : ℕ → Outcome) : List ProbeOut :=
  (probed servers).zipIdx.map fun x => ⟨x.1, outcome x.2⟩

def probeMultiple (servers : List String) {outcome : ℕ → Outcome}
    (o : Schedule (probes servers outcome)) : MultiProbeResult :=
  let n := (probed servers).length
  let r := o.arrivals.foldl receive ⟨[], fun _ => 0, fun _ => 0⟩
  { serverResults := r.serverResults
    consensusIP := (majority n r.ipCount o.ips).getD ""
    consensusPort := (majority n r.portCount o.ports).getD 0
    inconsistent := differs "" 0 r.serverResults }

/-- What the system event bus is told. -/
def notifications (servers : List String) (r : MultiProbeResult) : List (String × String) :=
  let consensus := r.consensusIP ++ ":" ++ toString r.consensusPort
  (if r.inconsistent then
    [("stun:nat_mismatch", "\x7b\"servers\":" ++ toString (probed servers).length ++
      ",\"consensus\":\"" ++ consensus ++ "\",\"inconsistent\":true\x7d")] else []) ++
  r.serverResults.filterMap fun s =>
    if s.natType = .symmetric then
      some ("stun:symmetric_detected", "\x7b\"server\":\"" ++ s.server ++ "\",\"mapped\":\"" ++
        s.mappedIP ++ ":" ++ toString s.port ++ "\"\x7d")
    else none

/-! ## What is received -/

theorem error_eq_nil_iff {p : ProbeOut} : (serverProbe p).error = [] ↔ p.outcome.err = none := by
  unfold serverProbe
  cases p.outcome.err with
  | none => simp
  | some err =>
    have htext : err.text ≠ [] := by
      intro hempty
      have hsize := congrArg List.length hempty
      cases err <;> simp [DetectError.text, utf8, String.toByteArray_append] at hsize
    simpa using htext

theorem string_ne_empty (ip : IPBytes) : ip.string ≠ "" := by
  unfold IPBytes.string
  split_ifs
  · decide
  · split
    · exact ipString_ne_empty _
    · intro hempty
      have hlen := congrArg String.length hempty
      simp at hlen

theorem mappedIP_ne_empty {p : ProbeOut} (h : (serverProbe p).error = []) :
    (serverProbe p).mappedIP ≠ "" := by
  rw [error_eq_nil_iff] at h
  cases p with | mk server outcome =>
  cases outcome with
  | mapped natType addr => exact string_ne_empty addr.ip
  | failed natType addr err => cases h

theorem foldl_receive (r : Received) (ps : List ProbeOut) :
    ps.foldl receive r =
      ⟨r.serverResults ++ ps.map serverProbe,
        ((reports ps).map Prod.fst).foldl increment r.ipCount,
        ((reports ps).map Prod.snd).foldl increment r.portCount⟩ := by
  induction ps generalizing r with
  | nil => simp [reports]
  | cons p ps ih =>
    rw [List.foldl_cons, ih]
    cases haddr : p.outcome.addr with
    | none => simp [receive, reports, haddr]
    | some addr => simp [receive, reports, serverProbe, haddr]

/-- The addresses of the results without an error. -/
def usable (ss : List ServerProbe) : List (String × ℕ) :=
  (ss.filter fun s => s.error = []).map fun s => (s.mappedIP, s.port)

theorem differs_iff_of_ne {firstIP : String} (hfirst : firstIP ≠ "") (firstPort : ℕ)
    (ss : List ServerProbe) :
    differs firstIP firstPort ss = true ↔ ∃ a ∈ usable ss, a ≠ (firstIP, firstPort) := by
  induction ss with
  | nil => simp [differs, usable]
  | cons s ss ih =>
    unfold differs
    by_cases herr : s.error = []
    · rw [if_neg (not_not_intro herr), if_neg hfirst]
      split_ifs with hdiff
      · refine iff_of_true rfl ⟨(s.mappedIP, s.port), by simp [usable, herr], ?_⟩
        rw [Ne, Prod.mk.injEq, not_and_or]
        exact hdiff
      · have hsame : (s.mappedIP, s.port) = (firstIP, firstPort) := by
          simpa only [not_or, not_not, Prod.mk.injEq] using hdiff
        rw [ih]
        simp [usable, herr, hsame]
    · rw [if_pos herr, ih]
      simp [usable, herr]

/-- What is compared with the first address is compared with every other. -/
theorem differs_iff {ss : List ServerProbe} (hset : ∀ s ∈ ss, s.error = [] → s.mappedIP ≠ "")
    (firstPort : ℕ) :
    differs "" firstPort ss = true ↔ ∃ a ∈ usable ss, ∃ b ∈ usable ss, a ≠ b := by
  induction ss generalizing firstPort with
  | nil => simp [differs, usable]
  | cons s ss ih =>
    have hrest := fun t ht => hset t (List.mem_cons_of_mem s ht)
    unfold differs
    by_cases herr : s.error = []
    · have hcons : usable (s :: ss) = (s.mappedIP, s.port) :: usable ss := by simp [usable, herr]
      rw [if_neg (not_not_intro herr), if_pos rfl, hcons,
        differs_iff_of_ne (hset s List.mem_cons_self herr)]
      constructor
      · rintro ⟨a, ha, hne⟩
        exact ⟨a, List.mem_cons_of_mem _ ha, _, List.mem_cons_self, hne⟩
      · rintro ⟨a, ha, b, hb, hne⟩
        by_cases hafirst : a = (s.mappedIP, s.port)
        · have hbfirst : b ≠ (s.mappedIP, s.port) := fun h => hne (hafirst.trans h.symm)
          exact ⟨b, (List.mem_cons.mp hb).resolve_left hbfirst, hbfirst⟩
        · exact ⟨a, (List.mem_cons.mp ha).resolve_left hafirst, hafirst⟩
    · rw [if_pos herr, ih hrest]
      simp [usable, herr]

/-! ## Consensus -/

section
variable (servers : List String) {outcome : ℕ → Outcome} (o : Schedule (probes servers outcome))

theorem reports_perm : (reports o.arrivals).Perm (reports (probes servers outcome)) :=
  o.arrivals_perm.filterMap _

theorem length_reports_le : (reports o.arrivals).length ≤ (probed servers).length := by
  have hprobes : (probes servers outcome).length = (probed servers).length := by simp [probes]
  rw [(reports_perm servers o).length_eq, ← hprobes]
  exact List.length_filterMap_le _ _

theorem received_eq :
    o.arrivals.foldl receive ⟨[], fun _ => 0, fun _ => 0⟩ =
      ⟨o.arrivals.map serverProbe, tally ((reports o.arrivals).map Prod.fst),
        tally ((reports o.arrivals).map Prod.snd)⟩ :=
  foldl_receive _ _

theorem majority_ip_iff {ip : String} :
    majority (probed servers).length (tally ((reports o.arrivals).map Prod.fst)) o.ips = some ip ↔
      (probed servers).length <
        2 * ((reports (probes servers outcome)).map Prod.fst).count ip := by
  have hperm := (reports_perm servers o).map Prod.fst
  rw [majority_eq_some_iff (o.ips_perm.trans hperm.symm.dedup), hperm.count_eq]
  rw [List.length_map]
  exact length_reports_le servers o

theorem majority_port_iff {port : ℕ} :
    majority (probed servers).length (tally ((reports o.arrivals).map Prod.snd)) o.ports =
        some port ↔
      (probed servers).length <
        2 * ((reports (probes servers outcome)).map Prod.snd).count port := by
  have hperm := (reports_perm servers o).map Prod.snd
  rw [majority_eq_some_iff (o.ports_perm.trans hperm.symm.dedup), hperm.count_eq]
  rw [List.length_map]
  exact length_reports_le servers o

theorem consensusIP_eq_iff {ip : String} (hne : ip ≠ "") :
    (probeMultiple servers o).consensusIP = ip ↔
      (probed servers).length <
        2 * ((reports (probes servers outcome)).map Prod.fst).count ip := by
  rw [← majority_ip_iff servers o, probeMultiple, received_eq]
  dsimp only
  cases majority _ _ o.ips with
  | none => simp [hne.symm]
  | some ip' => simp

theorem consensusPort_eq {port : ℕ}
    (h : (probed servers).length <
      2 * ((reports (probes servers outcome)).map Prod.snd).count port) :
    (probeMultiple servers o).consensusPort = port := by
  rw [← majority_port_iff servers o] at h
  rw [probeMultiple, received_eq]
  dsimp only
  rw [h, Option.getD_some]

theorem majority_of_consensusPort (hne : (probeMultiple servers o).consensusPort ≠ 0) :
    (probed servers).length <
      2 * ((reports (probes servers outcome)).map Prod.snd).count
        (probeMultiple servers o).consensusPort := by
  rw [← majority_port_iff servers o]
  rw [probeMultiple, received_eq] at hne ⊢
  dsimp only at hne ⊢
  cases hport : majority _ _ o.ports with
  | none => simp [hport] at hne
  | some port => rw [Option.getD_some]

theorem reported_ip_ne_empty {ps : List ProbeOut} {ip : String}
    (h : 0 < ((reports ps).map Prod.fst).count ip) : ip ≠ "" := by
  obtain ⟨a, ha, rfl⟩ := List.mem_map.mp (List.count_pos_iff.mp h)
  obtain ⟨p, -, hp⟩ := List.mem_filterMap.mp ha
  obtain ⟨addr, -, rfl⟩ := Option.map_eq_some_iff.mp hp
  exact string_ne_empty addr.ip

theorem inconsistent_iff :
    (probeMultiple servers o).inconsistent = true ↔
      ∃ p ∈ probes servers outcome, ∃ q ∈ probes servers outcome,
        p.outcome.err = none ∧ q.outcome.err = none ∧
          ((serverProbe p).mappedIP ≠ (serverProbe q).mappedIP ∨
            (serverProbe p).port ≠ (serverProbe q).port) := by
  have hset : ∀ s ∈ o.arrivals.map serverProbe, s.error = [] → s.mappedIP ≠ "" := by
    intro s hs
    obtain ⟨p, -, rfl⟩ := List.mem_map.mp hs
    exact mappedIP_ne_empty
  have hmem {a : String × ℕ} : a ∈ usable (o.arrivals.map serverProbe) ↔
      ∃ p ∈ probes servers outcome, p.outcome.err = none ∧
        ((serverProbe p).mappedIP, (serverProbe p).port) = a := by
    simp [usable, error_eq_nil_iff, o.arrivals_perm.mem_iff, and_assoc]
  rw [probeMultiple, received_eq]
  dsimp only
  rw [differs_iff hset]
  constructor
  · rintro ⟨a, ha, b, hb, hne⟩
    obtain ⟨p, hp, hperr, rfl⟩ := hmem.mp ha
    obtain ⟨q, hq, hqerr, rfl⟩ := hmem.mp hb
    rw [Ne, Prod.mk.injEq, not_and_or] at hne
    exact ⟨p, hp, q, hq, hperr, hqerr, hne⟩
  · rintro ⟨p, hp, q, hq, hperr, hqerr, hne⟩
    refine ⟨_, hmem.mpr ⟨p, hp, hperr, rfl⟩, _, hmem.mpr ⟨q, hq, hqerr, rfl⟩, ?_⟩
    rw [Ne, Prod.mk.injEq, not_and_or]
    exact hne

theorem consensusIP_congr (o' : Schedule (probes servers outcome)) :
    (probeMultiple servers o').consensusIP = (probeMultiple servers o).consensusIP := by
  by_cases hempty : (probeMultiple servers o).consensusIP = ""
  · by_contra hne
    rw [hempty] at hne
    have hmost := (consensusIP_eq_iff servers o' hne).mp rfl
    exact hne (((consensusIP_eq_iff servers o hne).mpr hmost).symm.trans hempty)
  · have hmost := (consensusIP_eq_iff servers o hempty).mp rfl
    exact (consensusIP_eq_iff servers o' hempty).mpr hmost

theorem consensusPort_congr (o' : Schedule (probes servers outcome)) :
    (probeMultiple servers o').consensusPort = (probeMultiple servers o).consensusPort := by
  by_cases hzero : (probeMultiple servers o).consensusPort = 0
  · by_contra hne
    rw [hzero] at hne
    have hmost := majority_of_consensusPort servers o' hne
    exact hne ((consensusPort_eq servers o hmost).symm.trans hzero)
  · exact consensusPort_eq servers o' (majority_of_consensusPort servers o hzero)

/-- Two majorities meet in one report. -/
theorem consensus_mem_reports (hip : (probeMultiple servers o).consensusIP ≠ "")
    (hport : (probeMultiple servers o).consensusPort ≠ 0) :
    ((probeMultiple servers o).consensusIP, (probeMultiple servers o).consensusPort) ∈
      reports (probes servers outcome) := by
  have hlen := length_reports_le servers o
  rw [(reports_perm servers o).length_eq] at hlen
  exact mem_of_majorities hlen ((consensusIP_eq_iff servers o hip).mp rfl)
    (majority_of_consensusPort servers o hport)

theorem inconsistent_congr (o' : Schedule (probes servers outcome)) :
    (probeMultiple servers o').inconsistent = (probeMultiple servers o).inconsistent := by
  rw [Bool.eq_iff_iff, inconsistent_iff, inconsistent_iff]

theorem serverResults_perm :
    (probeMultiple servers o).serverResults.Perm
      ((probes servers outcome).map serverProbe) := by
  rw [probeMultiple, received_eq]
  exact o.arrivals_perm.map serverProbe

/-- The system is told the same, in some order. -/
theorem notifications_perm (o' : Schedule (probes servers outcome)) :
    (notifications servers (probeMultiple servers o')).Perm
      (notifications servers (probeMultiple servers o)) := by
  have hresults := (serverResults_perm servers o').trans (serverResults_perm servers o).symm
  unfold notifications
  rw [consensusIP_congr servers o o', consensusPort_congr servers o o',
    inconsistent_congr servers o o']
  exact (hresults.filterMap _).append_left _

end

/-- The consensus does not depend on who answers first, is what most of the servers reported,
and is one report when both parts are set; a difference is one between two results without an
error. -/
theorem consensus_sound (servers : List String) {outcome : ℕ → Outcome}
    (o : Schedule (probes servers outcome)) :
    let outs := probes servers outcome
    let n := (probed servers).length
    let r := probeMultiple servers o
    (∀ o' : Schedule outs,
      (probeMultiple servers o').consensusIP = r.consensusIP ∧
        (probeMultiple servers o').consensusPort = r.consensusPort ∧
        (probeMultiple servers o').inconsistent = r.inconsistent) ∧
      (∀ ip, r.consensusIP = ip ∧ ip ≠ "" ↔ n < 2 * ((reports outs).map Prod.fst).count ip) ∧
      (∀ port, n < 2 * ((reports outs).map Prod.snd).count port → r.consensusPort = port) ∧
      (r.consensusPort ≠ 0 → n < 2 * ((reports outs).map Prod.snd).count r.consensusPort) ∧
      (r.consensusIP ≠ "" → r.consensusPort ≠ 0 →
        (r.consensusIP, r.consensusPort) ∈ reports outs) ∧
      (r.inconsistent = true ↔ ∃ p ∈ outs, ∃ q ∈ outs,
        p.outcome.err = none ∧ q.outcome.err = none ∧
          ((serverProbe p).mappedIP ≠ (serverProbe q).mappedIP ∨
            (serverProbe p).port ≠ (serverProbe q).port)) := by
  intro outs n r
  refine ⟨fun o' => ⟨consensusIP_congr servers o o', consensusPort_congr servers o o',
      inconsistent_congr servers o o'⟩,
    fun ip => ⟨?_, ?_⟩, fun port => consensusPort_eq servers o,
    majority_of_consensusPort servers o, consensus_mem_reports servers o,
    inconsistent_iff servers o⟩
  · rintro ⟨hip, hne⟩
    exact (consensusIP_eq_iff servers o hne).mp hip
  · intro hmost
    have hne : ip ≠ "" := @reported_ip_ne_empty outs ip (by omega)
    exact ⟨(consensusIP_eq_iff servers o hne).mpr hmost, hne⟩

end NetBerth.StunConsensus
