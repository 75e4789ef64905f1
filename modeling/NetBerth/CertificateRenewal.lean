import NetBerth.SqlTable

/-!
# Renewing a certificate

The renewal loop reads all certificates, picks those that are due, and runs each of them
through the steps of an ACME order. Whatever comes of it is written back whole. But the
query leaves out the paths, so the copy that a run works on has none, and the loop picks
only certificates whose status is valid.

What the calls of a run give is an argument. A run that fails keeps the paths of its row,
and the row among those that are picked again, exactly if its own update fails too.
-/
namespace NetBerth.CertificateRenewal
open SqlTable

/-! ## The table and the copies -/

/-- In nanoseconds. -/
abbrev Time := ℤ

structure Row where
  id : String
  name : String
  domains : String
  provider : String
  email : String
  autoRenew : Bool
  renewDays : ℤ
  certPath : String
  keyPath : String
  expiresAt : Option Time
  status : String
  error : String
  deriving DecidableEq, Repr

instance : Keyed Row String := ⟨Row.id⟩

structure ACMECertificate where
  id : String
  name : String
  domains : List String
  provider : String
  email : String
  autoRenew : Bool
  renewDays : ℤ
  certPath : String
  keyPath : String
  expiresAt : Option Time
  status : String
  error : String
  deriving DecidableEq, Repr

/-- The columns of the query; `unmarshal` is what `json.Unmarshal` leaves of the domains. -/
def scan (unmarshal : String → List String) (r : Row) : ACMECertificate :=
  { id := r.id, name := r.name, domains := unmarshal r.domains, provider := r.provider,
    email := r.email, autoRenew := r.autoRenew, renewDays := r.renewDays, certPath := "",
    keyPath := "", expiresAt := r.expiresAt, status := r.status, error := "" }

def getCertificates (unmarshal : String → List String) (t : Table Row) : List ACMECertificate :=
  t.rows.map (scan unmarshal)

def assign (cert : ACMECertificate) (r : Row) : Row :=
  { r with certPath := cert.certPath, keyPath := cert.keyPath, expiresAt := cert.expiresAt,
           status := cert.status, error := cert.error }

def updateCertificate (t : Table Row) (cert : ACMECertificate) : Table Row :=
  t.update (fun r => r.id = cert.id) (assign cert) fun _ => rfl

/-! ## Which certificates are due -/

/-- `time.Until`, which saturates. -/
def timeUntil (t now : Time) : Time := max (-2 ^ 63) (min (2 ^ 63 - 1) (t - now))

/-- `time.Duration(cert.RenewDays)*24*time.Hour`, which wraps around. -/
def renewBefore (renewDays : ℤ) : Time := (renewDays * 24 * (3600 * 10 ^ 9)).bmod (2 ^ 64)

/-- The certificate expires soon. -/
def expiresSoon (expiresAt : Option Time) (renewDays : ℤ) (now : Time) : Bool :=
  match expiresAt with
  | some t => timeUntil t now < renewBefore renewDays
  | none => false

def renewDue (certs : List ACMECertificate) (now : Time) : List ACMECertificate :=
  certs.filter fun cert =>
    cert.autoRenew && cert.status = "valid" && expiresSoon cert.expiresAt cert.renewDays now

/-! ## One run -/

inductive RegisterError where
  | accountAlreadyExists
  | other (message : String)
  deriving DecidableEq, Repr

structure Authorization where
  uri : String
  identifier : String
  challenges : List String
  deriving DecidableEq, Repr

structure Order where
  authzURLs : List String
  finalizeURL : String
  deriving DecidableEq, Repr

/-- What the calls of a run give: those to the ACME client, to the file system, to the
random source, and the update at its end. -/
structure World where
  loadOrCreateAccountKey : Except String Unit
  register : Except RegisterError Unit
  generateKey : Except String Unit
  authorizeOrder : List String → Except String Order
  getAuthorization : String → Except String Authorization
  accept : String → Except String Unit
  waitAuthorization : String → Except String Unit
  certRequest : List String → Except String Unit
  createOrderCert : String → Except String Unit
  savePEMKey : String → Except String Unit
  writeCert : String → Except String Unit
  leafNotAfter : Option Time
  now : Time
  join : String → String
  updateFails : Bool

def pickChallenge (auth : Authorization) : Option String :=
  match auth.challenges.find? (· = "dns-01") with
  | some c => some c
  | none => auth.challenges.find? (· = "http-01")

/-- An error with what was being done. -/
def labelled {α : Type} (label : String) (x : Except String α) : Except String α :=
  x.mapError (label ++ ·)

def solve (w : World) : List String → Except String Unit
  | [] => .ok ()
  | authzURL :: authzURLs => do
    let auth ← labelled "get authz: " (w.getAuthorization authzURL)
    match pickChallenge auth with
    | none => .error ("no supported challenge for " ++ auth.identifier)
    | some chal =>
      -- `solveDNS01` logs the challenge and does not fail
      labelled "accept challenge: " (w.accept chal)
      labelled "wait authz: " (w.waitAuthorization auth.uri)
      solve w authzURLs

def register (w : World) : Except String Unit :=
  match w.register with
  | .ok () => .ok ()
  | .error .accountAlreadyExists => .ok ()
  | .error (.other message) => .error ("register: " ++ message)

/-- The steps of `issue` up to the two files; the result is the end of the certificate. -/
def order (w : World) (cert : ACMECertificate) : Except String Time := do
  if cert.domains = [] then .error "no domains specified"
  labelled "account key: " w.loadOrCreateAccountKey
  register w
  labelled "cert key: " w.generateKey
  let order ← labelled "authorize: " (w.authorizeOrder cert.domains)
  solve w order.authzURLs
  labelled "csr: " (w.certRequest cert.domains)
  labelled "finalize: " (w.createOrderCert order.finalizeURL)
  labelled "save key: " (w.savePEMKey (w.join (cert.id ++ ".key")))
  labelled "save cert: " (w.writeCert (w.join (cert.id ++ ".crt")))
  return w.leafNotAfter.getD (w.now + 90 * 24 * (3600 * 10 ^ 9))

def fail (cert : ACMECertificate) (message : String) : ACMECertificate :=
  { cert with status := "error", error := message }

/-- The record that `issue` hands to `UpdateCertificate`. -/
def issue (w : World) (cert : ACMECertificate) : ACMECertificate :=
  match order w cert with
  | .error message => fail cert message
  | .ok expires =>
    { cert with
      status := "valid"
      certPath := w.join (cert.id ++ ".crt")
      keyPath := w.join (cert.id ++ ".key")
      expiresAt := some expires
      error := "" }

/-- A run; the error of the update is ignored. -/
def renew (w : World) (t : Table Row) (cert : ACMECertificate) : Table Row :=
  if w.updateFails then t else updateCertificate t (issue w cert)

/-- One tick of the renewal loop; each certificate that is due has a run of its own. -/
def tick (unmarshal : String → List String) (t : Table Row) (now : Time) (w : String → World) :
    Table Row :=
  (renewDue (getCertificates unmarshal t) now).foldl (fun t cert => renew (w cert.id) t cert) t

section
variable {unmarshal : String → List String} {t : Table Row} {row : Row} {w : World} {now : Time}

theorem id_issue (w : World) (cert : ACMECertificate) : (issue w cert).id = cert.id := by
  unfold issue fail
  split <;> rfl

theorem select_updateCertificate (t : Table Row) (cert : ACMECertificate) (id : String) :
    (updateCertificate t cert).select id =
      (t.select id).map fun r => if r.id = cert.id then assign cert r else r := by
  have h := Table.select_update t (fun r => r.id = cert.id) (assign cert) (fun _ => rfl) id
  simp only [decide_eq_true_eq] at h
  exact h

theorem mem_renewDue {id : String} : (∃ cert ∈ renewDue (getCertificates unmarshal t) now,
      cert.id = id) ↔ ∃ r, t.select id = some r ∧ r.autoRenew = true ∧ r.status = "valid" ∧
        expiresSoon r.expiresAt r.renewDays now = true := by
  simp only [renewDue, getCertificates, List.mem_filter, List.mem_map, Bool.and_eq_true,
    decide_eq_true_eq]
  constructor
  · rintro ⟨_, ⟨⟨r, hr, rfl⟩, ⟨hauto, hvalid⟩, hsoon⟩, rfl⟩
    exact ⟨r, Table.select_eq_some.mpr ⟨hr, rfl⟩, hauto, hvalid, hsoon⟩
  · rintro ⟨r, hr, hauto, hvalid, hsoon⟩
    obtain ⟨hmem, rfl⟩ := Table.select_eq_some.mp hr
    exact ⟨scan unmarshal r, ⟨⟨r, hmem, rfl⟩, ⟨hauto, hvalid⟩, hsoon⟩, rfl⟩

theorem select_renew (w : World) (t : Table Row) (cert : ACMECertificate) (id : String) :
    (renew w t cert).select id = (t.select id).map fun r =>
      if w.updateFails = false ∧ r.id = cert.id then assign (issue w cert) r else r := by
  unfold renew
  split_ifs with hfails
  · simp [hfails]
  · rw [select_updateCertificate, id_issue]
    simp [hfails]

theorem expiresSoon_later {expiresAt : Option Time} {renewDays : ℤ} {later : Time}
    (h : expiresSoon expiresAt renewDays now = true) (hle : now ≤ later) :
    expiresSoon expiresAt renewDays later = true := by
  cases expiresAt with
  | none => exact h
  | some t =>
    have hbefore : timeUntil t now < renewBefore renewDays := of_decide_eq_true h
    have hless : timeUntil t later ≤ timeUntil t now :=
      max_le_max le_rfl (min_le_min le_rfl (sub_le_sub_left hle t))
    exact decide_eq_true (hless.trans_lt hbefore)

/-- The paths and the end of the certificate are what they were, and at every later time
at which the certificate is due it is picked. -/
def LosesNothing (unmarshal : String → List String) (row : Row) (now : Time) (after : Table Row) :
    Prop :=
  (∃ r, after.select row.id = some r ∧ r.certPath = row.certPath ∧ r.keyPath = row.keyPath ∧
    r.expiresAt = row.expiresAt) ∧
  ∀ later, now < later → expiresSoon row.expiresAt row.renewDays later = true →
    ∃ cert ∈ renewDue (getCertificates unmarshal after) later, cert.id = row.id

/-- A row whose status is not valid is never picked, and no tick changes it. -/
theorem select_tick {id : String} {r : Row} (hr : t.select id = some r) (hstatus : r.status ≠ "valid")
    (now : Time) (w : String → World) : (tick unmarshal t now w).select id = some r := by
  have hother : ∀ cert ∈ renewDue (getCertificates unmarshal t) now, cert.id ≠ id := by
    intro cert hcert heq
    obtain ⟨r', hr', -, hvalid, -⟩ := mem_renewDue.mp ⟨cert, hcert, heq⟩
    cases hr.symm.trans hr'
    exact hstatus hvalid
  have hkey : r.id = id := (Table.select_eq_some.mp hr).2
  have hfold (certs : List ACMECertificate) (u : Table Row) (hu : u.select id = some r)
      (hcerts : ∀ cert ∈ certs, cert.id ≠ id) :
      (certs.foldl (fun t cert => renew (w cert.id) t cert) u).select id = some r := by
    induction certs generalizing u with
    | nil => exact hu
    | cons cert certs ih =>
      have hne : r.id ≠ cert.id := by
        rw [hkey]
        exact Ne.symm (hcerts cert (List.mem_cons_self ..))
      refine ih _ ?_ fun c hc => hcerts c (List.mem_cons_of_mem cert hc)
      rw [select_renew, hu, Option.map_some, if_neg fun h => hne h.2]
  exact hfold _ t hr hother

/-- After a failed run that is written back, whatever the later ticks bring, the row has
no paths and an error. -/
theorem failed_renewal_abandoned {message : String} (hrow : t.select row.id = some row)
    (hfail : order w (scan unmarshal row) = .error message) (hwrite : w.updateFails = false)
    (ticks : List (Time × (String → World))) :
    (ticks.foldl (fun t x => tick unmarshal t x.1 x.2) (renew w t (scan unmarshal row))).select
      row.id = some { row with certPath := "", keyPath := "", status := "error", error := message } := by
  have hafter : (renew w t (scan unmarshal row)).select row.id =
      some { row with certPath := "", keyPath := "", status := "error", error := message } := by
    rw [select_renew, hrow, Option.map_some, if_pos ⟨hwrite, rfl⟩]
    simp only [issue, hfail]
    rfl
  induction ticks using List.reverseRecOn with
  | nil => exact hafter
  | append_singleton ticks x ih =>
    rw [List.foldl_append]
    have herror : "error" ≠ "valid" := by decide
    exact select_tick ih herror x.1 x.2

/-- A failed run loses nothing exactly if its update fails. -/
theorem failed_renewal_loses_nothing_iff (unmarshal : String → List String) (t : Table Row)
    (row : Row) (w : World) (now : Time) (message : String) (hrow : t.select row.id = some row)
    (hvalid : row.status = "valid") (hauto : row.autoRenew = true)
    (hdue : expiresSoon row.expiresAt row.renewDays now = true)
    (hfail : order w (scan unmarshal row) = .error message) :
    LosesNothing unmarshal row now (renew w t (scan unmarshal row)) ↔ w.updateFails = true := by
  constructor
  · rintro ⟨-, hpicked⟩
    by_contra hwrite
    have hlater := expiresSoon_later hdue (le_of_lt (lt_add_one now))
    obtain ⟨r, hr, -, hstatus, -⟩ := mem_renewDue.mp (hpicked (now + 1) (lt_add_one now) hlater)
    have hafter := failed_renewal_abandoned hrow hfail (Bool.eq_false_of_not_eq_true hwrite) []
    have herror : "error" ≠ "valid" := by decide
    cases hr.symm.trans hafter
    exact herror hstatus
  · intro hfails
    rw [renew, if_pos hfails]
    refine ⟨⟨row, hrow, rfl, rfl, rfl⟩, fun later _ hlater => ?_⟩
    exact mem_renewDue.mpr ⟨row, hrow, hauto, hvalid, hlater⟩

end

/-- A valid certificate, a day before its end. -/
def lastDay : Row :=
  { id := "a1", name := "x", domains := "example.com", provider := "letsencrypt",
    email := "a@b.com", autoRenew := true, renewDays := 30, certPath := "certs/a1.crt",
    keyPath := "certs/a1.key", expiresAt := some (24 * 3600 * 10 ^ 9), status := "valid",
    error := "" }

def oneCertificate : Table Row := ⟨[lastDay], by decide⟩

/-- The ACME server does not answer. -/
def outage (updateFails : Bool) : World where
  loadOrCreateAccountKey := .ok ()
  register := .error (.other "timeout")
  generateKey := .ok ()
  authorizeOrder _ := .error "timeout"
  getAuthorization _ := .error "timeout"
  accept _ := .error "timeout"
  waitAuthorization _ := .error "timeout"
  certRequest _ := .ok ()
  createOrderCert _ := .error "timeout"
  savePEMKey _ := .ok ()
  writeCert _ := .ok ()
  leafNotAfter := none
  now := 0
  join name := "certs/" ++ name
  updateFails := updateFails

theorem outage_loses_certificate :
    ¬LosesNothing (fun s => [s]) lastDay 0
      (renew (outage false) oneCertificate (scan (fun s => [s]) lastDay)) := by
  have hfail : order (outage false) (scan (fun s => [s]) lastDay) = .error "register: timeout" := by
    decide
  rintro ⟨⟨r, hr, hpath, -, -⟩, -⟩
  have hrow : oneCertificate.select lastDay.id = some lastDay := rfl
  have hafter := failed_renewal_abandoned hrow hfail rfl []
  cases hr.symm.trans hafter
  exact absurd hpath (by decide)

theorem unwritten_outage_loses_nothing :
    LosesNothing (fun s => [s]) lastDay 0
      (renew (outage true) oneCertificate (scan (fun s => [s]) lastDay)) :=
  (failed_renewal_loses_nothing_iff _ oneCertificate lastDay (outage true) 0 "register: timeout" rfl rfl rfl
    (by decide) (by decide)).mpr rfl

end NetBerth.CertificateRenewal
