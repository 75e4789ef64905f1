import Mathlib
import NetBerth.StunBind

/-!
# Predicting the next mapped port

A symmetric NAT is asked for several mappings, and the next one is predicted from the distances
between their ports. The distances carry no sign: where the ports go up in equal steps the
prediction is the next port, and where they go down it is on the other side of the last one.

The peer is then sent datagrams at the predicted port and at two steps around it. Averages are
rational numbers here, and are cut to integers towards zero.
-/
namespace NetBerth.PortPrediction
open IPAddress StunBind StunMessage

/-! ## The analysis -/

structure SymmetricNATAnalysis where
  ports : List ℤ
  minDelta : ℤ
  maxDelta : ℤ
  avgDelta : ℚ
  isRandom : Bool
  prediction : ℤ
  deriving DecidableEq, Repr

inductive AnalysisError where
  | resolve (err : SocketError)
  | insufficientProbes (samples : ℕ)
  deriving DecidableEq, Repr

def AnalysisError.text : AnalysisError → String
  | resolve err => err.text
  | insufficientProbes samples => "insufficient probes: " ++ toString samples

/-- The sockets of the probes, and the random bytes of their requests. -/
structure Network where
  resolveUDPAddr : String → Except SocketError UDPAddr
  listenUDP : ℕ → Except SocketError UDPConn
  random : ℕ → TransID

/-- A probe without an address is left out. A binding never panics, by `stunBind_isSome`. -/
def probePort (w : Network) (serverAddr : UDPAddr) (i : ℕ) : Option ℤ :=
  match w.listenUDP i with
  | .error _ => none
  | .ok conn =>
    match stunBind conn serverAddr (w.random i) with
    | some (.ok addr, _) => some addr.port
    | _ => none

def mappedPorts (w : Network) (serverAddr : UDPAddr) (probes : ℤ) : List ℤ :=
  (List.range probes.toNat).filterMap (probePort w serverAddr)

def deltas : List ℤ → List ℤ
  | a :: b :: rest =>
    let d := b - a
    (if d < 0 then -d else d) :: deltas (b :: rest)
  | _ => []

structure Spread where
  sum : ℤ
  minDelta : ℤ
  maxDelta : ℤ
  deriving DecidableEq, Repr

def Spread.add (s : Spread) (d : ℤ) : Spread where
  sum := s.sum + d
  minDelta := if d < s.minDelta then d else s.minDelta
  maxDelta := if d > s.maxDelta then d else s.maxDelta

/-- A conversion of a rational number to an integer. -/
def truncate (q : ℚ) : ℤ := q.num.tdiv q.den

/-- What is found in the ports that were observed. -/
def analyze (ports : List ℤ) : Except AnalysisError SymmetricNATAnalysis :=
  if ports.length < 2 then .error (.insufficientProbes ports.length)
  else
    let ds := deltas ports
    match ds with
    | [] => .ok ⟨ports, 0, 0, 0, false, 0⟩
    | first :: _ =>
      let spread := ds.foldl Spread.add ⟨0, first, first⟩
      let avgDelta := (spread.sum : ℚ) / ds.length
      .ok {
        ports := ports
        minDelta := spread.minDelta
        maxDelta := spread.maxDelta
        avgDelta := avgDelta
        isRandom := spread.maxDelta - spread.minDelta > 1000
        prediction := ports.getLastD 0 + truncate avgDelta }

def analyzeSymmetricNAT (w : Network) (stunServer : String) (probes : ℤ) :
    Except AnalysisError SymmetricNATAnalysis :=
  let stunServer := if stunServer = "" then "stun.l.google.com:19302" else stunServer
  let probes := if probes < 3 then 5 else probes
  match w.resolveUDPAddr stunServer with
  | .error err => .error (.resolve err)
  | .ok serverAddr => analyze (mappedPorts w serverAddr probes)

/-! ## The punch -/

inductive Method where
  | deltaPredict
  | birthday
  deriving DecidableEq, Repr

structure HolePunchResult where
  success : Bool
  localPort : ℤ
  remotePort : ℤ
  attempts : ℕ
  method : Method
  probedPorts : List ℤ
  deriving DecidableEq, Repr

def fallbackPort (localPort : ℤ) : ℤ := 20000 + localPort.tmod 40000

/-- The predicted port, and two steps on either side of it. -/
def candidates (localPort : ℤ) (analysis : SymmetricNATAnalysis) : List ℤ :=
  let predicted := analysis.prediction
  let predicted :=
    if predicted < 1024 ∨ predicted > 65535 then fallbackPort localPort else predicted
  if analysis.avgDelta > 0 then
    let d := truncate analysis.avgDelta
    [predicted, predicted + d, predicted - d, predicted + 2 * d, predicted - 2 * d]
  else [predicted]

/-- The ports that are sent to. -/
def punched (localPort : ℤ) (analysis : SymmetricNATAnalysis) : List ℤ :=
  (candidates localPort analysis).filter fun port => !(port < 1 || port > 65535)

/-- The first answer, from the address of the peer. -/
def response (conn : UDPConn) (remoteIP : String) : Option UDPAddr :=
  match (conn.setReadDeadline.2.readFromUDP bufSize).1 with
  | .error _ => none
  | .ok (received, sender) =>
    if received ≠ [] ∧ sender.ip.string = remoteIP then some sender else none

section
variable (listenUDP : String → ℤ → Except SocketError UDPConn)
variable (localIP : String) (localPort : ℤ) (remoteIP : String)

def deltaPunch (analysis : SymmetricNATAnalysis) : Except SocketError HolePunchResult :=
  match listenUDP localIP localPort with
  | .error err => .error err
  | .ok conn =>
    let probedPorts := punched localPort analysis
    match response conn remoteIP with
    | some sender => .ok ⟨true, localPort, sender.port, 0, .deltaPredict, probedPorts⟩
    | none =>
      .ok ⟨false, localPort, probedPorts.getLastD 0, probedPorts.length, .deltaPredict,
        probedPorts⟩

def burstSize : ℕ := 64

def birthdayPunch : Except SocketError HolePunchResult :=
  match listenUDP localIP localPort with
  | .error err => .error err
  | .ok conn =>
    let probedPorts :=
      ((List.range burstSize).map fun i => fallbackPort localPort + i * 11).takeWhile (· ≤ 65535)
    match response conn remoteIP with
    | some sender => .ok ⟨true, localPort, sender.port, burstSize, .birthday, probedPorts⟩
    | none => .ok ⟨false, localPort, 0, burstSize, .birthday, probedPorts⟩

def holePunch : Option SymmetricNATAnalysis → Except SocketError HolePunchResult
  | none => birthdayPunch listenUDP localIP localPort remoteIP
  | some analysis =>
    if analysis.prediction = 0 then birthdayPunch listenUDP localIP localPort remoteIP
    else deltaPunch listenUDP localIP localPort remoteIP analysis

theorem deltaPunch_probedPorts {analysis : SymmetricNATAnalysis} {result : HolePunchResult}
    (h : deltaPunch listenUDP localIP localPort remoteIP analysis = .ok result) :
    result.probedPorts = punched localPort analysis := by
  unfold deltaPunch at h
  split at h
  · cases h
  · split at h <;> cases h <;> rfl

end

/-! ## Progressions -/

/-- Ports in equal steps. -/
def Progression (d : ℤ) (ports : List ℤ) : Prop := ports.IsChain fun a b => b = a + d

theorem deltas_progression {d : ℤ} {ports : List ℤ} (h : Progression d ports) :
    deltas ports = List.replicate (ports.length - 1) |d| := by
  induction h with
  | nil => rfl
  | singleton a => rfl
  | @cons_cons a b rest hstep hrest ih =>
    have hfirst : (if b - a < 0 then -(b - a) else b - a) = |d| := by
      rw [hstep, add_sub_cancel_left]
      split_ifs with hneg
      · exact (abs_of_neg hneg).symm
      · exact (abs_of_nonneg (not_lt.mp hneg)).symm
    rw [deltas, ih]
    simp only [hfirst, List.length_cons, Nat.add_sub_cancel, List.replicate_succ]

theorem foldl_add_replicate (e sum : ℤ) (n : ℕ) :
    (List.replicate n e).foldl Spread.add ⟨sum, e, e⟩ = ⟨sum + n * e, e, e⟩ := by
  induction n generalizing sum with
  | zero => simp
  | succ n ih =>
    have hadd : Spread.add ⟨sum, e, e⟩ e = ⟨sum + e, e, e⟩ := by simp [Spread.add]
    rw [List.replicate_succ, List.foldl_cons, hadd, ih]
    congr 1
    push_cast
    ring

@[simp] theorem truncate_intCast (n : ℤ) : truncate n = n := by simp [truncate]

/-- What is computed from equal steps. -/
def steady (ports : List ℤ) (e : ℤ) : SymmetricNATAnalysis where
  ports := ports
  minDelta := e
  maxDelta := e
  avgDelta := e
  isRandom := false
  prediction := ports.getLastD 0 + e

theorem analyze_progression {d : ℤ} {ports : List ℤ} (hlen : 2 ≤ ports.length)
    (h : Progression d ports) : analyze ports = .ok (steady ports |d|) := by
  obtain ⟨n, hn⟩ : ∃ n, ports.length - 1 = n + 1 := ⟨ports.length - 2, by omega⟩
  have hspread := foldl_add_replicate |d| 0 (n + 1)
  have havg : ((0 + ((n + 1 : ℕ) : ℤ) * |d| : ℤ) : ℚ) / ((n + 1 : ℕ) : ℚ) = (|d| : ℤ) := by
    have hpos : ((n + 1 : ℕ) : ℚ) ≠ 0 := by positivity
    push_cast at hpos ⊢
    field_simp
    ring
  rw [List.replicate_succ] at hspread
  rw [analyze, if_neg (by omega), deltas_progression h, hn, List.replicate_succ]
  dsimp only
  rw [hspread, List.length_cons, List.length_replicate, havg, truncate_intCast]
  simp [steady]

/-- The candidates around a prediction that is in range. -/
theorem candidates_steady {ports : List ℤ} {e : ℤ} (localPort : ℤ)
    (hlow : 1024 ≤ ports.getLastD 0 + e) (hhigh : ports.getLastD 0 + e ≤ 65535) :
    candidates localPort (steady ports e) =
      if 0 < e then
        [ports.getLastD 0 + e, ports.getLastD 0 + e + e, ports.getLastD 0 + e - e,
          ports.getLastD 0 + e + 2 * e, ports.getLastD 0 + e - 2 * e]
      else [ports.getLastD 0 + e] := by
  have hrange : ¬(ports.getLastD 0 + e < 1024 ∨ ports.getLastD 0 + e > 65535) := by omega
  have hpos : (e : ℚ) > 0 ↔ 0 < e := Int.cast_pos
  unfold candidates steady
  dsimp only
  simp only [if_neg hrange, truncate_intCast, hpos]

theorem mem_punched {localPort port : ℤ} {analysis : SymmetricNATAnalysis}
    (hlow : 1024 ≤ port) (hhigh : port ≤ 65535) (h : port ∈ candidates localPort analysis) :
    port ∈ punched localPort analysis := by
  rw [punched, List.mem_filter]
  refine ⟨h, ?_⟩
  simp
  omega

/-- Where the steps go down, two of them lead back from the prediction to the next port. -/
theorem next_mem_of_descending {d : ℤ} {ports : List ℤ} (hd : d < 0)
    (hlow : 1024 ≤ ports.getLastD 0 + d) (hhigh : ports.getLastD 0 - d ≤ 65535) (localPort : ℤ) :
    ports.getLastD 0 + d ∈ punched localPort (steady ports |d|) := by
  have habs : |d| = -d := abs_of_neg hd
  apply mem_punched hlow (by omega)
  rw [candidates_steady localPort (by omega) (by omega), if_pos (by omega)]
  have hback : ports.getLastD 0 + |d| - 2 * |d| = ports.getLastD 0 + d := by omega
  rw [hback]
  simp

/-- The next port of the pattern is predicted, and sent to when it can be. -/
def FollowsPattern (ports : List ℤ) (d : ℤ) : Prop :=
  let next := ports.getLastD 0 + d
  ∃ analysis, analyze ports = .ok analysis ∧
    analysis.prediction = next ∧ analysis.minDelta = |d| ∧ analysis.maxDelta = |d| ∧
    analysis.isRandom = false ∧
    ∀ localPort, 1024 ≤ next → next ≤ 65535 →
      next ∈ candidates localPort analysis ∧
        ∀ listenUDP localIP remoteIP result,
          deltaPunch listenUDP localIP localPort remoteIP analysis = .ok result →
            next ∈ result.probedPorts

/-- Equal steps are followed when they do not go down. -/
theorem followsPattern_iff {ports : List ℤ} {d : ℤ} (hlen : 2 ≤ ports.length)
    (h : Progression d ports) : FollowsPattern ports d ↔ 0 ≤ d := by
  constructor
  · rintro ⟨analysis, hanalysis, hprediction, -⟩
    rw [analyze_progression hlen h] at hanalysis
    cases hanalysis
    have habs : |d| = d := add_left_cancel hprediction
    exact abs_eq_self.mp habs
  · intro hd
    have habs : |d| = d := abs_of_nonneg hd
    have hnext : (steady ports |d|).prediction = ports.getLastD 0 + d := by rw [steady, habs]
    refine ⟨steady ports |d|, analyze_progression hlen h, hnext, rfl, rfl, rfl, ?_⟩
    intro localPort hlow hhigh
    have hmem : ports.getLastD 0 + d ∈ candidates localPort (steady ports |d|) := by
      rw [habs, candidates_steady localPort hlow hhigh]
      split_ifs <;> exact List.mem_cons_self
    refine ⟨hmem, fun listenUDP localIP remoteIP result hresult => ?_⟩
    rw [deltaPunch_probedPorts _ _ _ _ hresult]
    exact mem_punched hlow hhigh hmem

theorem followsPattern_fives :
    Progression 5 [40000, 40005, 40010] ∧ FollowsPattern [40000, 40005, 40010] 5 := by
  have hsteps : Progression 5 [40000, 40005, 40010] :=
    .cons_cons rfl (.cons_cons rfl (.singleton _))
  exact ⟨hsteps, (followsPattern_iff (by decide) hsteps).mpr (by decide)⟩

/-- Ports that go down. -/
theorem descending_unpredicted :
    Progression (-5) [40010, 40005, 40000] ∧ ¬FollowsPattern [40010, 40005, 40000] (-5) := by
  have hsteps : Progression (-5) [40010, 40005, 40000] :=
    .cons_cons rfl (.cons_cons rfl (.singleton _))
  refine ⟨hsteps, ?_⟩
  rintro ⟨analysis, hanalysis, hprediction, -⟩
  rw [analyze_progression (by decide) hsteps] at hanalysis
  cases hanalysis
  revert hprediction
  decide

end NetBerth.PortPrediction
