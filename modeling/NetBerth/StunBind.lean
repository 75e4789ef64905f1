import NetBerth.StunMessage

/-!
# Binding requests

`stunBind` sends its request up to three times and reads one datagram after each.
A datagram counts only if it comes from the server, carries the cookie and the
transaction ID of the request, fits its own length, and has no wrong fingerprint.
What is read in one attempt is forgotten in the next, so the address that is
returned was decoded from the last datagram read and from nothing else.

A socket is what its calls will return. When a read gives up is not decided here:
a timeout is one of the things a read can return.
-/
namespace NetBerth.StunBind
open IPAddress StunMessage TaggedRecords

def maxRetries : ℕ := 3

/-! ## Sockets -/

structure SocketError where
  text : String
  timeout : Bool
  deriving DecidableEq, Repr

structure Datagram where
  payload : List UInt8
  remote : UDPAddr
  deriving DecidableEq, Repr

/-- What the calls to come return: writes and deadlines succeed after the last
entry, and reads time out. -/
structure UDPConn where
  writes : List (Option SocketError) := []
  deadlines : List (Option SocketError) := []
  deliveries : List (Except SocketError Datagram)
  sent : List (List UInt8 × UDPAddr) := []
  deriving DecidableEq, Repr

namespace UDPConn

def writeTo (c : UDPConn) (packet : List UInt8) (addr : UDPAddr) : Option SocketError × UDPConn :=
  match c.writes with
  | some err :: rest => (some err, { c with writes := rest })
  | rest => (none, { c with writes := rest.tail, sent := c.sent ++ [(packet, addr)] })

def setReadDeadline (c : UDPConn) : Option SocketError × UDPConn :=
  (c.deadlines.head?.join, { c with deadlines := c.deadlines.tail })

/-- What does not fit into the buffer is lost. -/
def readFromUDP (c : UDPConn) (size : ℕ) :
    Except SocketError (List UInt8 × UDPAddr) × UDPConn :=
  match c.deliveries with
  | [] => (.error ⟨"i/o timeout", true⟩, c)
  | .error err :: rest => (.error err, { c with deliveries := rest })
  | .ok d :: rest => (.ok (d.payload.take size, d.remote), { c with deliveries := rest })

section
variable (c : UDPConn) (packet : List UInt8) (addr : UDPAddr)

@[simp] theorem writeTo_deliveries : (c.writeTo packet addr).2.deliveries = c.deliveries := by
  unfold writeTo
  split <;> rfl

theorem writeTo_sent : (c.writeTo packet addr).2.sent = c.sent ∨
    (c.writeTo packet addr).2.sent = c.sent ++ [(packet, addr)] := by
  unfold writeTo
  split
  · exact .inl rfl
  · exact .inr rfl

@[simp] theorem setReadDeadline_deliveries : c.setReadDeadline.2.deliveries = c.deliveries := rfl

@[simp] theorem setReadDeadline_sent : c.setReadDeadline.2.sent = c.sent := rfl

@[simp] theorem readFromUDP_sent (size : ℕ) : (c.readFromUDP size).2.sent = c.sent := by
  unfold readFromUDP
  split <;> rfl

/-- A read takes the first thing delivered; a datagram is cut to the buffer. -/
theorem readFromUDP_cases (size : ℕ) :
    (c.readFromUDP size).2.deliveries <:+ c.deliveries ∧
      ∀ received remote, (c.readFromUDP size).1 = .ok (received, remote) →
        ∃ d, c.deliveries = .ok d :: (c.readFromUDP size).2.deliveries ∧
          received = d.payload.take size ∧ remote = d.remote := by
  unfold readFromUDP
  split
  · exact ⟨List.suffix_rfl, fun _ _ h => nomatch h⟩
  · rename_i hrest
    rw [hrest]
    exact ⟨List.suffix_cons _ _, fun _ _ h => nomatch h⟩
  · rename_i d rest hrest
    rw [hrest]
    refine ⟨List.suffix_cons _ _, fun received remote h => ⟨d, rfl, ?_⟩⟩
    cases h
    exact ⟨rfl, rfl⟩

end

end UDPConn

/-! ## The loop -/

inductive BindError where
  | write (err : SocketError)
  | setDeadline (err : SocketError)
  | timeout
  | read (err : SocketError)
  | response (message : List UInt8)
  | noMappedAddress
  | attemptsFailed
  deriving DecidableEq, Repr

def utf8 (s : String) : List UInt8 := s.toUTF8.data.toList

def errorText (e : STUNError) : List UInt8 := utf8 ("STUN " ++ toString e.code ++ " ") ++ e.reason

def alternateText (a : AlternateServer) : String := a.ip.string ++ ":" ++ toString a.port

def BindError.text : BindError → List UInt8
  | write err => utf8 ("write: " ++ err.text)
  | setDeadline err => utf8 ("set deadline: " ++ err.text)
  | timeout => utf8 ("timeout after " ++ toString maxRetries ++ " attempts")
  | read err => utf8 ("read: " ++ err.text)
  | response message => message
  | noMappedAddress => utf8 "no mapped address in response"
  | attemptsFailed => utf8 ("all " ++ toString maxRetries ++ " attempts failed")

/-- An attempt goes on to the next one or returns. -/
inductive Outcome where
  | next
  | done (result : Except BindError UDPAddr)
  deriving DecidableEq

/-- The switch over the type of a message. -/
def respond (type : ℕ) (body : List UInt8) (tid : TransID) (remote : UDPAddr) : Option Outcome :=
  if type = bindingError then do
    let out ← parseAttributes body tid
    let msg := out.errCode.elim (utf8 ("STUN error from " ++ remote.string)) errorText
    let msg := out.altServer.elim msg fun alt =>
      msg ++ utf8 (" (alternate: " ++ alternateText alt ++ ")")
    return .done (.error (.response msg))
  else if type = bindingResponse then do
    let out ← parseAttributes body tid
    match out.mapped with
    | none => return .done (.error .noMappedAddress)
    | some addr => return .done (.ok addr)
  else return .next

/-- What is done with the first `n` bytes of the buffer. -/
def answer (server : UDPAddr) (tid : TransID) (buf : List UInt8) (n : ℕ) (remote : UDPAddr) :
    Option Outcome :=
  if ¬remote.ip.equal server.ip ∨ remote.port ≠ server.port then some .next
  else do
    match ← (slice buf 0 n).bind parseHeader with
    | none => return .next
    | some hdr =>
      if hdr.magicCookie ≠ stunMagicCookie then return .next
      else if hdr.transID ≠ tid then return .next
      else if n < 20 + hdr.length then return .next
      else
        let pkt ← slice buf 0 (20 + hdr.length)
        if !(← validFingerprint pkt) then return .next
        else
          let body ← slice pkt 20 pkt.length
          respond hdr.type body tid remote

def bufSize : ℕ := 1500

/-- The body of the loop. -/
def runAttempt (server : UDPAddr) (req : List UInt8) (tid : TransID) (attempt : ℕ)
    (conn : UDPConn) : Option (Outcome × UDPConn) :=
  match conn.writeTo req server with
  | (some err, conn) =>
    some (if attempt = maxRetries - 1 then .done (.error (.write err)) else .next, conn)
  | (none, conn) =>
    match conn.setReadDeadline with
    | (some err, conn) => some (.done (.error (.setDeadline err)), conn)
    | (none, conn) =>
      match conn.readFromUDP bufSize with
      | (.error err, conn) =>
        if err.timeout then
          some (if attempt < maxRetries - 1 then .next else .done (.error .timeout), conn)
        else some (if attempt = maxRetries - 1 then .done (.error (.read err)) else .next, conn)
      | (.ok (received, remote), conn) =>
        let n := received.length
        let buf := received ++ List.replicate (bufSize - n) 0
        (answer server tid buf n remote).map (·, conn)

section
variable (server : UDPAddr) (req : List UInt8) (tid : TransID)

def bindLoop (attempt : ℕ) (conn : UDPConn) : Option (Except BindError UDPAddr × UDPConn) :=
  if attempt < maxRetries then
    match runAttempt server req tid attempt conn with
    | none => none
    | some (.next, conn) => bindLoop (attempt + 1) conn
    | some (.done result, conn) => some (result, conn)
  else some (.error .attemptsFailed, conn)
termination_by maxRetries - attempt

end

/-- The random bytes are those of the request. -/
def stunBind (conn : UDPConn) (server : UDPAddr) (random : TransID) :
    Option (Except BindError UDPAddr × UDPConn) := do
  let req := buildBindingRequest random
  let tid ← reqTID req
  bindLoop server req tid 0 conn

/-! ## One datagram -/

section
variable {server : UDPAddr} {tid : TransID}

/-- The address was decoded from this datagram, which answers the request. -/
def Authentic (server : UDPAddr) (tid : TransID) (d : Datagram) (addr : UDPAddr) : Prop :=
  d.remote.ip.equal server.ip = true ∧ d.remote.port = server.port ∧
    ∃ hdr out, parseHeader d.payload = some (some hdr) ∧ hdr.magicCookie = stunMagicCookie ∧
      hdr.transID = tid ∧ hdr.type = bindingResponse ∧ 20 + hdr.length ≤ d.payload.length ∧
      validFingerprint (d.payload.take (20 + hdr.length)) = some true ∧
      parseAttributes ((d.payload.take (20 + hdr.length)).drop 20) tid = some out ∧
      out.mapped = some addr

/-- The sender has the server's address, in either form. -/
theorem Authentic.source {d : Datagram} {addr : UDPAddr} (h : Authentic server tid d addr) :
    d.remote.ip = server.ip ∨
      ∃ a, d.remote.ip.longForm = some a ∧ server.ip.longForm = some a :=
  IPBytes.equal_iff.mp h.1

/-- Only a binding response with a mapped address is answered with an address. -/
theorem respond_ok {type : ℕ} {body : List UInt8} {remote addr : UDPAddr}
    (h : respond type body tid remote = some (.done (.ok addr))) :
    type = bindingResponse ∧
      ∃ out, parseAttributes body tid = some out ∧ out.mapped = some addr := by
  obtain ⟨out, hout⟩ := Option.isSome_iff_exists.mp (parseAttributes_isSome body tid)
  rw [respond, hout] at h
  split_ifs at h with herr hresp
  · cases h
  · refine ⟨hresp, out, hout, ?_⟩
    cases hmapped : out.mapped with
    | none =>
      rw [Option.bind_eq_bind, Option.bind_some, hmapped] at h
      cases h
    | some a =>
      rw [Option.bind_eq_bind, Option.bind_some, hmapped] at h
      cases h
      rfl
  · cases h

theorem respond_isSome (type : ℕ) (body : List UInt8) (tid : TransID) (remote : UDPAddr) :
    (respond type body tid remote).isSome := by
  obtain ⟨out, hout⟩ := Option.isSome_iff_exists.mp (parseAttributes_isSome body tid)
  rw [respond, hout]
  split_ifs
  · rfl
  · rw [Option.bind_eq_bind, Option.bind_some]
    cases out.mapped <;> rfl
  · rfl

/-- The part of the buffer behind the datagram is not read. -/
theorem answer_append (received pad : List UInt8) (remote : UDPAddr) :
    answer server tid (received ++ pad) received.length remote =
      answer server tid received received.length remote := by
  have hslice {n : ℕ} (hn : n ≤ received.length) :
      slice (received ++ pad) 0 n = slice received 0 n := by
    rw [slice_zero hn, slice_zero (by rw [List.length_append]; omega),
      List.take_append_of_le_length hn]
  unfold answer
  rw [hslice le_rfl]
  split_ifs
  · rfl
  · apply bind_congr
    rintro (_ | hdr)
    · rfl
    · dsimp only
      split_ifs with hcookie htid hlen
      · rfl
      · rfl
      · rfl
      · rw [hslice (not_lt.mp hlen)]

/-- All the checks on the bytes of a datagram and on its sender. -/
structure Answers (server : UDPAddr) (tid : TransID) (received : List UInt8) (remote : UDPAddr) :
    Prop where
  ip : remote.ip.equal server.ip = true
  port : remote.port = server.port
  full : 20 ≤ received.length
  magicCookie : (headerOf received).magicCookie = stunMagicCookie
  transID : (headerOf received).transID = tid
  fits : 20 + (headerOf received).length ≤ received.length
  fingerprint : validFingerprint (received.take (20 + (headerOf received).length)) = some true

/-- What fails a check is passed over; no read of the buffer is out of range. -/
theorem answer_cases (received : List UInt8) (remote : UDPAddr) :
    Answers server tid received remote ∧
        answer server tid received received.length remote =
          respond (headerOf received).type
            ((received.take (20 + (headerOf received).length)).drop 20) tid remote ∨
      ¬Answers server tid received remote ∧
        answer server tid received received.length remote = some .next := by
  unfold answer
  by_cases hsource : ¬remote.ip.equal server.ip ∨ remote.port ≠ server.port
  · rw [if_pos hsource]
    refine .inr ⟨fun h => ?_, rfl⟩
    exact hsource.elim (· h.ip) (· h.port)
  rw [if_neg hsource, slice_zero le_rfl, List.take_length, Option.bind_some, parseHeader_eq]
  simp only [Option.bind_eq_bind, Option.bind_some]
  by_cases hshort : received.length < 20
  · rw [if_pos hshort]
    exact .inr ⟨fun h => absurd h.full (not_le.mpr hshort), rfl⟩
  rw [if_neg hshort]
  dsimp only
  by_cases hcookie : (headerOf received).magicCookie = stunMagicCookie
  swap
  · rw [if_pos hcookie]
    exact .inr ⟨fun h => hcookie h.magicCookie, rfl⟩
  by_cases htid : (headerOf received).transID = tid
  swap
  · rw [if_neg (not_not.mpr hcookie), if_pos htid]
    exact .inr ⟨fun h => htid h.transID, rfl⟩
  by_cases hlen : received.length < 20 + (headerOf received).length
  · rw [if_neg (not_not.mpr hcookie), if_neg (not_not.mpr htid), if_pos hlen]
    exact .inr ⟨fun h => absurd h.fits (not_le.mpr hlen), rfl⟩
  rw [if_neg (not_not.mpr hcookie), if_neg (not_not.mpr htid), if_neg hlen,
    slice_zero (not_lt.mp hlen), Option.bind_some]
  obtain ⟨valid, hvalid⟩ := Option.isSome_iff_exists.mp
    (validFingerprint_isSome (received.take (20 + (headerOf received).length)))
  rw [hvalid, Option.bind_some]
  cases valid with
  | false =>
    refine .inr ⟨fun h => ?_, rfl⟩
    have hfingerprint := hvalid.symm.trans h.fingerprint
    cases hfingerprint
  | true =>
    have hbody : 20 ≤ (received.take (20 + (headerOf received).length)).length := by
      rw [List.length_take]
      omega
    obtain ⟨hip, hport⟩ := not_or.mp hsource
    rw [slice_from hbody]
    exact .inl ⟨⟨not_not.mp hip, not_not.mp hport, not_lt.mp hshort, hcookie, htid,
      not_lt.mp hlen, hvalid⟩, rfl⟩

theorem answer_isSome (received : List UInt8) (remote : UDPAddr) :
    (answer server tid received received.length remote).isSome := by
  rcases answer_cases received remote with ⟨-, h⟩ | ⟨-, h⟩
  · rw [h]
    exact respond_isSome _ _ _ _
  · rw [h]
    rfl

theorem answer_ok {d : Datagram} {size : ℕ} (hsize : 20 ≤ size) {addr : UDPAddr}
    (h : answer server tid (d.payload.take size) (d.payload.take size).length d.remote =
      some (.done (.ok addr))) : Authentic server tid d addr := by
  rcases answer_cases (d.payload.take size) d.remote with ⟨hanswers, heq⟩ | ⟨-, heq⟩
  · rw [heq] at h
    obtain ⟨htype, out, hout, hmapped⟩ := respond_ok h
    obtain ⟨hip, hport, hfull, hcookie, htid, hfits, hfingerprint⟩ := hanswers
    rw [headerOf_take hsize] at hcookie htid hfits hfingerprint htype hout
    rw [List.length_take] at hfull hfits
    rw [List.take_take, min_eq_left (by omega)] at hfingerprint hout
    refine ⟨hip, hport, headerOf d.payload, out, ?_, hcookie, htid, htype, by omega, hfingerprint,
      hout, hmapped⟩
    rw [parseHeader_eq, if_neg (by omega)]
  · rw [heq] at h
    cases h

/-! ## One call -/

variable {req : List UInt8} {attempt : ℕ} {conn conn' : UDPConn}

/-- An attempt sends the request or nothing, reads at most one thing, and returns an
address only in answer to a datagram. -/
theorem runAttempt_cases {o : Outcome}
    (h : runAttempt server req tid attempt conn = some (o, conn')) :
    (conn'.sent = conn.sent ∨ conn'.sent = conn.sent ++ [(req, server)]) ∧
      (conn'.deliveries <:+ conn.deliveries ∧ (∀ addr, o ≠ .done (.ok addr)) ∨
        ∃ d, conn.deliveries = .ok d :: conn'.deliveries ∧
          answer server tid (d.payload.take bufSize) (d.payload.take bufSize).length d.remote =
            some o) := by
  have hdeliveries := conn.writeTo_deliveries req server
  have hsent := conn.writeTo_sent req server
  unfold runAttempt at h
  split at h
  · rename_i err c hw
    rw [hw] at hdeliveries hsent
    obtain ⟨rfl, rfl⟩ := Prod.mk.inj (Option.some.inj h)
    refine ⟨hsent, .inl ⟨hdeliveries ▸ List.suffix_rfl, fun addr => ?_⟩⟩
    split_ifs <;> simp
  rename_i c hw
  rw [hw, ← c.setReadDeadline_deliveries] at hdeliveries
  rw [hw, ← c.setReadDeadline_sent] at hsent
  split at h
  · rename_i err c hd
    rw [hd] at hdeliveries hsent
    obtain ⟨rfl, rfl⟩ := Prod.mk.inj (Option.some.inj h)
    exact ⟨hsent, .inl ⟨hdeliveries ▸ List.suffix_rfl, fun addr => by simp⟩⟩
  rename_i c hd
  obtain ⟨hsuffix, hread⟩ := c.readFromUDP_cases bufSize
  rw [hd] at hdeliveries
  rw [hd, ← c.readFromUDP_sent bufSize] at hsent
  dsimp only at hdeliveries
  rw [hdeliveries] at hsuffix hread
  split at h
  · rename_i err c hr
    rw [hr] at hsuffix hsent
    split_ifs at h <;> obtain ⟨rfl, rfl⟩ := Prod.mk.inj (Option.some.inj h) <;>
      exact ⟨hsent, .inl ⟨hsuffix, fun addr => by simp⟩⟩
  · rename_i received remote c hr
    rw [hr] at hread hsent
    obtain ⟨d, hfirst, rfl, rfl⟩ := hread received remote rfl
    obtain ⟨o', ho, heq⟩ := Option.map_eq_some_iff.mp h
    obtain ⟨rfl, rfl⟩ := Prod.mk.inj heq
    rw [answer_append] at ho
    exact ⟨hsent, .inr ⟨d, hfirst, ho⟩⟩

theorem runAttempt_ok {addr : UDPAddr}
    (h : runAttempt server req tid attempt conn = some (.done (.ok addr), conn')) :
    ∃ d, conn.deliveries = .ok d :: conn'.deliveries ∧ Authentic server tid d addr := by
  rcases (runAttempt_cases h).2 with ⟨-, hnone⟩ | ⟨d, hd, hanswer⟩
  · exact absurd rfl (hnone addr)
  · exact ⟨d, hd, answer_ok (by decide) hanswer⟩

theorem runAttempt_suffix {o : Outcome}
    (h : runAttempt server req tid attempt conn = some (o, conn')) :
    conn'.deliveries <:+ conn.deliveries := by
  rcases (runAttempt_cases h).2 with ⟨hsuffix, -⟩ | ⟨d, hd, -⟩
  · exact hsuffix
  · rw [hd]
    exact List.suffix_cons _ _

theorem runAttempt_isSome (attempt : ℕ) (conn : UDPConn) :
    (runAttempt server req tid attempt conn).isSome := by
  unfold runAttempt
  split
  · rfl
  · split
    · rfl
    · split
      · split_ifs <;> rfl
      · dsimp only
        rw [answer_append, Option.isSome_map]
        exact answer_isSome _ _

/-- The attempts before the last leave nothing but what is still to be read. -/
theorem bindLoop_ok {addr : UDPAddr}
    (h : bindLoop server req tid attempt conn = some (.ok addr, conn')) :
    ∃ earlier d, conn.deliveries = earlier ++ .ok d :: conn'.deliveries ∧
      Authentic server tid d addr := by
  fun_induction bindLoop server req tid attempt conn with
  | case1 attempt conn hlt hrun => cases h
  | case2 attempt conn hlt c hrun ih =>
    obtain ⟨earlier, d, hd, hauthentic⟩ := ih h
    obtain ⟨read, hread⟩ := runAttempt_suffix hrun
    refine ⟨read ++ earlier, d, ?_, hauthentic⟩
    rw [← hread, hd, List.append_assoc]
  | case3 attempt conn hlt result c hrun =>
    cases h
    obtain ⟨d, hd, hauthentic⟩ := runAttempt_ok hrun
    exact ⟨[], d, hd, hauthentic⟩
  | case4 attempt conn hlt => cases h

theorem bindLoop_sent {result : Except BindError UDPAddr}
    (h : bindLoop server req tid attempt conn = some (result, conn')) :
    ∃ n ≤ maxRetries - attempt, conn'.sent = conn.sent ++ List.replicate n (req, server) := by
  fun_induction bindLoop server req tid attempt conn with
  | case1 attempt conn hlt hrun => cases h
  | case2 attempt conn hlt c hrun ih =>
    obtain ⟨n, hn, hsent⟩ := ih h
    rcases (runAttempt_cases hrun).1 with hkeep | hadd
    · exact ⟨n, by omega, by rw [hsent, hkeep]⟩
    · refine ⟨n + 1, by omega, ?_⟩
      rw [hsent, hadd, List.append_assoc, List.singleton_append, List.replicate_succ]
  | case3 attempt conn hlt result c hrun =>
    cases h
    rcases (runAttempt_cases hrun).1 with hkeep | hadd
    · exact ⟨0, by omega, by simp [hkeep]⟩
    · exact ⟨1, by omega, by simp [hadd]⟩
  | case4 attempt conn hlt =>
    cases h
    exact ⟨0, by omega, by simp⟩

theorem bindLoop_isSome (attempt : ℕ) (conn : UDPConn) :
    (bindLoop server req tid attempt conn).isSome := by
  fun_induction bindLoop server req tid attempt conn with
  | case1 attempt conn hlt hrun =>
    have hsome : (runAttempt server req tid attempt conn).isSome := runAttempt_isSome attempt conn
    rw [hrun] at hsome
    cases hsome
  | case2 attempt conn hlt c hrun ih => exact ih
  | case3 attempt conn hlt result c hrun => rfl
  | case4 attempt conn hlt => rfl

end

section
variable (conn : UDPConn) (server : UDPAddr) (random : TransID)

/-- Whatever is delivered, the call returns, without a read out of range. -/
theorem stunBind_isSome : (stunBind conn server random).isSome := by
  rw [stunBind, reqTID_buildBindingRequest]
  exact bindLoop_isSome 0 conn

/-- All that a call sends is its request, to the server, at most three times. -/
theorem stunBind_sent {conn' : UDPConn} {result : Except BindError UDPAddr}
    (h : stunBind conn server random = some (result, conn')) :
    ∃ n ≤ maxRetries,
      conn'.sent = conn.sent ++ List.replicate n (buildBindingRequest random, server) := by
  rw [stunBind, reqTID_buildBindingRequest] at h
  exact bindLoop_sent h

/-- An address that is returned was decoded from the last datagram that was read,
which comes from the server, answers this request, and is intact. -/
theorem stunBind_authentic (conn' : UDPConn) (addr : UDPAddr)
    (h : stunBind conn server random = some (.ok addr, conn')) :
    ∃ earlier d, conn.deliveries = earlier ++ .ok d :: conn'.deliveries ∧
      Authentic server random d addr := by
  rw [stunBind, reqTID_buildBindingRequest] at h
  exact bindLoop_ok h

end

/-- A response with a fingerprint. The first copy comes from elsewhere and is passed
over; the second comes from the server, in the long form of its address. -/
theorem second_copy_authentic :
    let server : UDPAddr := ⟨[203, 0, 113, 5], 3478, ""⟩
    let random : TransID := ⟨[48, 49, 50, 51, 52, 53, 54, 55, 56, 57, 97, 98], rfl⟩
    let response : List UInt8 := [1, 1, 0, 20, 33, 18, 164, 66] ++ random.val ++
      [0, 32, 0, 8, 0, 1, 37, 192, 225, 18, 166, 72] ++ [128, 40, 0, 4, 245, 130, 60, 57]
    let deliveries : List (Except SocketError Datagram) :=
      [.ok ⟨response, ⟨[198, 51, 100, 1], 3478, ""⟩⟩,
        .ok ⟨response, ⟨IPBytes.ipv4 203 0 113 5, 3478, ""⟩⟩, .error ⟨"i/o timeout", true⟩]
    ∃ earlier d, deliveries = earlier ++ .ok d :: [.error ⟨"i/o timeout", true⟩] ∧
      Authentic server random d ⟨[192, 0, 2, 10], 1234, ""⟩ := by
  intro server random response deliveries
  let req := buildBindingRequest random
  exact stunBind_authentic { deliveries := deliveries } server random
    { deliveries := [.error ⟨"i/o timeout", true⟩], sent := [(req, server), (req, server)] }
    ⟨[192, 0, 2, 10], 1234, ""⟩ (by decide +kernel)

end NetBerth.StunBind
