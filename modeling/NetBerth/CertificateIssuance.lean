import Mathlib
import NetBerth.CertificateRenewal

/-!
# Issuing a certificate

The steps of an order, with everything the ACME client may return: an error at any call, and
without one a nil pointer, any challenges and any chain. A step that fails ends in a row with an
error. A nil pointer that is followed, and an empty chain once both files are written, end in a
panic instead, and the row stays as it was.

The calls for an authorization are numbered: the server may answer the same URL differently.
-/
namespace NetBerth.CertificateIssuance
open CertificateRenewal (ACMECertificate Order RegisterError Time)

/-! ## Steps -/

/-- How a run ends early. -/
inductive Exit where
  | fail (message : String)
  | panic
  deriving DecidableEq, Repr

/-- An error is recorded with what was being done. -/
def orFail {α : Type} (label : String) (x : Except String α) : Except Exit α :=
  x.mapError fun err => .fail (label ++ err)

def deref {α : Type} : Option α → Except Exit α
  | some a => .ok a
  | none => .error .panic

structure Challenge where
  type : String
  token : String
  deriving DecidableEq, Repr

structure Authorization where
  uri : String
  identifier : String
  challenges : List (Option Challenge)
  deriving DecidableEq, Repr

/-- What the calls of a run give. `none` is a nil pointer. -/
structure World where
  loadOrCreateAccountKey : Except String Unit
  register : Except RegisterError Unit
  generateKey : Except String Unit
  authorizeOrder : List String → Except String (Option Order)
  getAuthorization : ℕ → String → Except String (Option Authorization)
  accept : ℕ → Challenge → Except String Unit
  waitAuthorization : ℕ → String → Except String Unit
  certRequest : List String → Except String (List UInt8)
  createOrderCert : String → List UInt8 → Except String (List (List UInt8))
  writeKey : String → Except String Unit
  chmodKey : String → Except String Unit
  encodeToMemory : List UInt8 → List UInt8
  writeCert : String → List UInt8 → Except String Unit
  parseCertificate : List UInt8 → Option Time
  now : Time
  join : String → String

def register (w : World) : Except Exit Unit :=
  match w.register with
  | .ok () => .ok ()
  | .error .accountAlreadyExists => .ok ()
  | .error (.other err) => .error (.fail ("register: " ++ err))

/-- The first challenge of a type; a nil pointer on the way is followed. -/
def firstOfType (type : String) : List (Option Challenge) → Except Exit (Option Challenge)
  | [] => .ok none
  | none :: _ => .error .panic
  | some c :: cs => if c.type = type then .ok (some c) else firstOfType type cs

def pickChallenge (auth : Authorization) : Except Exit (Option Challenge) := do
  match ← firstOfType "dns-01" auth.challenges with
  | some c => return some c
  | none => firstOfType "http-01" auth.challenges

section
variable (w : World)

/-- One authorization. `solveDNS01` logs the challenge and does not fail. -/
def solveOne (i : ℕ) (authzURL : String) : Except Exit Unit := do
  let auth ← orFail "get authz: " (w.getAuthorization i authzURL)
  let auth ← deref auth
  match ← pickChallenge auth with
  | none => .error (.fail ("no supported challenge for " ++ auth.identifier))
  | some chal =>
    orFail "accept challenge: " (w.accept i chal)
    orFail "wait authz: " (w.waitAuthorization i auth.uri)

def solve : ℕ → List String → Except Exit Unit
  | _, [] => .ok ()
  | i, authzURL :: authzURLs => do
    solveOne w i authzURL
    solve (i + 1) authzURLs

/-- The steps up to the order. -/
def prepare (cert : ACMECertificate) : Except Exit (Option Order) := do
  if cert.domains = [] then .error (.fail "no domains specified")
  orFail "account key: " w.loadOrCreateAccountKey
  register w
  orFail "cert key: " w.generateKey
  orFail "authorize: " (w.authorizeOrder cert.domains)

def savePEMKey (path : String) : Except String Unit := do
  w.writeKey path
  w.chmodKey path

def keyPath (cert : ACMECertificate) : String := w.join (cert.id ++ ".key")

def certPath (cert : ACMECertificate) : String := w.join (cert.id ++ ".crt")

/-- The steps from the request to the two files; the result is the chain. -/
def obtainChain (cert : ACMECertificate) (order : Order) : Except Exit (List (List UInt8)) := do
  let csr ← orFail "csr: " (w.certRequest cert.domains)
  let derChain ← orFail "finalize: " (w.createOrderCert order.finalizeURL csr)
  orFail "save key: " (savePEMKey w (keyPath w cert))
  orFail "save cert: " (w.writeCert (certPath w cert) (derChain.flatMap w.encodeToMemory))
  return derChain

/-- The end of the certificate, after all steps; `derChain[0]` is read unchecked. -/
def obtain (cert : ACMECertificate) : Except Exit Time := do
  let order ← deref (← prepare w cert)
  solve w 0 order.authzURLs
  let derChain ← obtainChain w cert order
  let leaf ← deref derChain.head?
  return (w.parseCertificate leaf).getD (w.now + 90 * 24 * (3600 * 10 ^ 9))

/-- The records that were handed to `UpdateCertificate`, and whether the run panicked. -/
structure Issued where
  updates : List ACMECertificate
  panicked : Bool
  deriving DecidableEq, Repr

def fail (cert : ACMECertificate) (message : String) : ACMECertificate :=
  { cert with status := "error", error := message }

def issue (cert : ACMECertificate) : Issued :=
  match obtain w cert with
  | .error .panic => ⟨[], true⟩
  | .error (.fail message) => ⟨[fail cert message], false⟩
  | .ok expires =>
    ⟨[{ cert with
        status := "valid"
        certPath := certPath w cert
        keyPath := keyPath w cert
        expiresAt := some expires
        error := "" }], false⟩

end

/-! ## How steps end -/

section
variable {α β : Type} {x : Except Exit α} {f : α → Except Exit β} {b : β}

theorem bind_eq_ok : (x >>= f) = .ok b ↔ ∃ a, x = .ok a ∧ f a = .ok b := by
  cases x <;> simp [bind, Except.bind]

theorem bind_eq_panic :
    (x >>= f) = .error .panic ↔ x = .error .panic ∨ ∃ a, x = .ok a ∧ f a = .error .panic := by
  cases x <;> simp [bind, Except.bind]

@[simp] theorem orFail_eq_ok {label : String} {y : Except String α} {a : α} :
    orFail label y = .ok a ↔ y = .ok a := by
  cases y <;> simp [orFail, Except.mapError]

@[simp] theorem orFail_ne_panic {label : String} {y : Except String α} :
    orFail label y ≠ .error .panic := by
  cases y <;> simp [orFail, Except.mapError]

@[simp] theorem deref_eq_ok {a : α} {o : Option α} : deref o = .ok a ↔ o = some a := by
  cases o <;> simp [deref]

@[simp] theorem deref_eq_panic {o : Option α} : deref o = .error .panic ↔ o = none := by
  cases o <;> simp [deref]

/-- Every failure says what failed. -/
def Worded (x : Except Exit α) : Prop := ∀ message, x = .error (.fail message) → message ≠ ""

theorem worded_ok {a : α} : Worded (.ok a : Except Exit α) := by simp [Worded]

theorem worded_panic : Worded (.error .panic : Except Exit α) := by simp [Worded]

theorem worded_fail {label : String} (hlabel : label ≠ "") (rest : String) :
    Worded (.error (.fail (label ++ rest)) : Except Exit α) := by
  intro message h
  cases h
  simp [hlabel]

theorem worded_orFail {label : String} (hlabel : label ≠ "") (y : Except String α) :
    Worded (orFail label y) := by
  cases y with
  | ok a => exact worded_ok
  | error err => exact worded_fail hlabel err

theorem worded_deref (o : Option α) : Worded (deref o) := by
  cases o with
  | none => exact worded_panic
  | some a => exact worded_ok

theorem Worded.bind (hx : Worded x) (hf : ∀ a, x = .ok a → Worded (f a)) : Worded (x >>= f) := by
  cases x with
  | ok a => exact hf a rfl
  | error e =>
    intro message h
    cases h
    exact hx message rfl

end

/-! ## Challenges -/

/-- A nil pointer comes before every challenge of the type. -/
def NilFirst (type : String) (cs : List (Option Challenge)) : Prop :=
  ∃ (pre : List Challenge) (post : List (Option Challenge)),
    cs = pre.map some ++ none :: post ∧ ∀ c ∈ pre, c.type ≠ type

theorem firstOfType_eq_panic {type : String} {cs : List (Option Challenge)} :
    firstOfType type cs = .error .panic ↔ NilFirst type cs := by
  unfold NilFirst
  induction cs with
  | nil => simp [firstOfType]
  | cons c cs ih =>
    cases c with
    | none => exact iff_of_true rfl ⟨[], cs, rfl, by simp⟩
    | some c =>
      rw [firstOfType]
      split_ifs with htype
      · apply iff_of_false (by simp)
        rintro ⟨pre, post, hcs, hpre⟩
        cases pre with
        | nil => cases hcs
        | cons c' pre =>
          cases hcs
          exact hpre c List.mem_cons_self htype
      · rw [ih]
        constructor
        · rintro ⟨pre, post, rfl, hpre⟩
          exact ⟨c :: pre, post, rfl, List.forall_mem_cons.mpr ⟨htype, hpre⟩⟩
        · rintro ⟨pre, post, hcs, hpre⟩
          cases pre with
          | nil => cases hcs
          | cons c' pre =>
            cases hcs
            exact ⟨pre, post, rfl, (List.forall_mem_cons.mp hpre).2⟩

theorem worded_firstOfType (type : String) (cs : List (Option Challenge)) :
    Worded (firstOfType type cs) := by
  induction cs with
  | nil => exact worded_ok
  | cons c cs ih =>
    cases c with
    | none => exact worded_panic
    | some c =>
      rw [firstOfType]
      split_ifs
      · exact worded_ok
      · exact ih

/-- The second search follows no nil pointer that the first has not met. -/
theorem firstOfType_none {type : String} {cs : List (Option Challenge)}
    (h : firstOfType type cs = .ok none) (type' : String) :
    firstOfType type' cs ≠ .error .panic := by
  rw [Ne, firstOfType_eq_panic]
  rintro ⟨pre, post, rfl, -⟩
  induction pre with
  | nil => cases h
  | cons c pre ih =>
    rw [List.map_cons, List.cons_append, firstOfType] at h
    split_ifs at h with htype
    · cases h
    · exact ih h

theorem pickChallenge_eq_panic {auth : Authorization} :
    pickChallenge auth = .error .panic ↔ NilFirst "dns-01" auth.challenges := by
  rw [pickChallenge, bind_eq_panic, firstOfType_eq_panic]
  apply or_iff_left
  rintro ⟨found, hfound, hpanic⟩
  cases found with
  | some c => cases hpanic
  | none => exact firstOfType_none hfound _ hpanic

/-! ## Which steps succeed -/

section
variable (w : World)

/-- The authorization is had, and one of its challenges is accepted and passed. -/
def Authorized (i : ℕ) (authzURL : String) : Prop :=
  ∃ auth chal, w.getAuthorization i authzURL = .ok (some auth) ∧
    pickChallenge auth = .ok (some chal) ∧ w.accept i chal = .ok () ∧
    w.waitAuthorization i auth.uri = .ok ()

/-- No authorization comes with the answer, or the search for a challenge meets none. -/
def FollowsNil (i : ℕ) (authzURL : String) : Prop :=
  w.getAuthorization i authzURL = .ok none ∨
    ∃ auth, w.getAuthorization i authzURL = .ok (some auth) ∧ NilFirst "dns-01" auth.challenges

/-- The steps up to the order succeed. -/
structure Prepared (cert : ACMECertificate) (order : Option Order) : Prop where
  domains : cert.domains ≠ []
  accountKey : w.loadOrCreateAccountKey = .ok ()
  registered : w.register = .ok () ∨ w.register = .error .accountAlreadyExists
  certKey : w.generateKey = .ok ()
  authorized : w.authorizeOrder cert.domains = .ok order

/-- The order is finalized with this chain, and both files are written. -/
structure Obtained (cert : ACMECertificate) (order : Order) (derChain : List (List UInt8)) :
    Prop where
  finalized : ∃ csr, w.certRequest cert.domains = .ok csr ∧
    w.createOrderCert order.finalizeURL csr = .ok derChain
  keyWritten : w.writeKey (keyPath w cert) = .ok ()
  keyMode : w.chmodKey (keyPath w cert) = .ok ()
  certWritten : w.writeCert (certPath w cert) (derChain.flatMap w.encodeToMemory) = .ok ()

/-- Every step and both writes succeed, with a chain that is not empty. -/
def Succeeds (cert : ACMECertificate) : Prop :=
  ∃ order derChain, Prepared w cert (some order) ∧
    (∀ i authzURL, order.authzURLs[i]? = some authzURL → Authorized w i authzURL) ∧
    Obtained w cert order derChain ∧ derChain ≠ []

/-- What is answered without an error and not looked at. -/
inductive Misanswered (cert : ACMECertificate) : Prop
  | nilOrder (hprepared : Prepared w cert none)
  | nilAuthorization (order : Order) (i : ℕ) (authzURL : String)
      (hprepared : Prepared w cert (some order)) (hurl : order.authzURLs[i]? = some authzURL)
      (hearlier : ∀ j < i, ∀ url, order.authzURLs[j]? = some url → Authorized w j url)
      (hnil : FollowsNil w i authzURL)
  | emptyChain (order : Order) (hprepared : Prepared w cert (some order))
      (hauthorized : ∀ i authzURL, order.authzURLs[i]? = some authzURL →
        Authorized w i authzURL)
      (hobtained : Obtained w cert order [])

/-- One update records the outcome. -/
def RecordsOutcome (cert : ACMECertificate) : Prop :=
  (issue w cert).panicked = false ∧ ∃ c, (issue w cert).updates = [c] ∧ c.id = cert.id ∧
    (c.status = "valid" ↔ Succeeds w cert) ∧
    (¬Succeeds w cert → c.status = "error" ∧ c.error ≠ "")

end

section
variable {w : World} {cert : ACMECertificate}

theorem register_eq_ok {u : Unit} :
    register w = .ok u ↔ w.register = .ok () ∨ w.register = .error .accountAlreadyExists := by
  unfold register
  split <;> simp_all

theorem register_ne_panic : register w ≠ .error .panic := by
  unfold register
  split <;> simp

theorem worded_register : Worded (register w) := by
  unfold register
  split
  · exact worded_ok
  · exact worded_ok
  · exact worded_fail (by decide) _

theorem prepare_eq_ok {order : Option Order} :
    prepare w cert = .ok order ↔ Prepared w cert order := by
  unfold prepare
  split_ifs with hdomains
  · apply iff_of_false (by simp [bind, Except.bind])
    exact fun h => h.domains hdomains
  · simp only [bind_eq_ok, register_eq_ok, orFail_eq_ok]
    constructor
    · rintro ⟨_, haccount, _, hregister, _, hkey, horder⟩
      exact ⟨hdomains, haccount, hregister, hkey, horder⟩
    · intro h
      exact ⟨(), h.accountKey, (), h.registered, (), h.certKey, h.authorized⟩

theorem prepare_ne_panic : prepare w cert ≠ .error .panic := by
  unfold prepare
  split_ifs
  · simp [bind, Except.bind]
  · simp [bind_eq_panic, register_ne_panic]

theorem worded_prepare : Worded (prepare w cert) := by
  unfold prepare
  split_ifs
  · exact (worded_fail (by decide : "no domains specified" ≠ "") "").bind fun _ h => nomatch h
  · refine (worded_orFail (by decide) _).bind fun _ _ => ?_
    refine worded_register.bind fun _ _ => ?_
    refine (worded_orFail (by decide) _).bind fun _ _ => ?_
    exact worded_orFail (by decide) _

theorem solveOne_eq_ok {i : ℕ} {authzURL : String} {u : Unit} :
    solveOne w i authzURL = .ok u ↔ Authorized w i authzURL := by
  simp only [solveOne, bind_eq_ok, orFail_eq_ok, deref_eq_ok]
  constructor
  · rintro ⟨_, hget, auth, rfl, found, hpick, hrest⟩
    cases found with
    | none => cases hrest
    | some chal =>
      obtain ⟨_, haccept, hwait⟩ := bind_eq_ok.mp hrest
      exact ⟨auth, chal, hget, hpick, orFail_eq_ok.mp haccept, orFail_eq_ok.mp hwait⟩
  · rintro ⟨auth, chal, hget, hpick, haccept, hwait⟩
    exact ⟨_, hget, auth, rfl, some chal, hpick,
      bind_eq_ok.mpr ⟨(), orFail_eq_ok.mpr haccept, orFail_eq_ok.mpr hwait⟩⟩

theorem solveOne_eq_panic {i : ℕ} {authzURL : String} :
    solveOne w i authzURL = .error .panic ↔ FollowsNil w i authzURL := by
  simp only [solveOne, bind_eq_panic, orFail_ne_panic, orFail_eq_ok, deref_eq_ok, deref_eq_panic,
    false_or, pickChallenge_eq_panic]
  constructor
  · rintro ⟨found, hget, rfl | ⟨auth, rfl, hnil | ⟨chal, hpick, hrest⟩⟩⟩
    · exact .inl hget
    · exact .inr ⟨auth, hget, hnil⟩
    · cases chal with
      | none => cases hrest
      | some chal => simp [bind_eq_panic] at hrest
  · rintro (hget | ⟨auth, hget, hnil⟩)
    · exact ⟨none, hget, .inl rfl⟩
    · exact ⟨some auth, hget, .inr ⟨auth, rfl, .inl hnil⟩⟩

theorem worded_solveOne (i : ℕ) (authzURL : String) : Worded (solveOne w i authzURL) := by
  refine (worded_orFail (by decide) _).bind fun found _ => ?_
  refine (worded_deref found).bind fun auth _ => ?_
  have hpick : Worded (pickChallenge auth) := by
    refine (worded_firstOfType _ _).bind fun c _ => ?_
    cases c with
    | none => exact worded_firstOfType _ _
    | some c => exact worded_ok
  refine hpick.bind fun chal _ => ?_
  cases chal with
  | none => exact worded_fail (by decide) _
  | some chal => exact (worded_orFail (by decide) _).bind fun _ _ => worded_orFail (by decide) _

theorem solve_eq_ok {i : ℕ} {authzURLs : List String} {u : Unit} :
    solve w i authzURLs = .ok u ↔
      ∀ k authzURL, authzURLs[k]? = some authzURL → Authorized w (i + k) authzURL := by
  induction authzURLs generalizing i with
  | nil => simp [solve]
  | cons authzURL authzURLs ih =>
    rw [solve, bind_eq_ok]
    simp only [solveOne_eq_ok, ih]
    constructor
    · rintro ⟨-, hfirst, hrest⟩ k url hurl
      cases k with
      | zero =>
        cases hurl
        exact hfirst
      | succ k =>
        have hk := hrest k url hurl
        rwa [Nat.add_assoc, Nat.add_comm 1 k] at hk
    · intro h
      refine ⟨(), h 0 authzURL rfl, fun k url hurl => ?_⟩
      rw [Nat.add_assoc, Nat.add_comm 1 k]
      exact h (k + 1) url hurl

theorem solve_eq_panic {i : ℕ} {authzURLs : List String} :
    solve w i authzURLs = .error .panic ↔
      ∃ k authzURL, authzURLs[k]? = some authzURL ∧
        (∀ j < k, ∀ url, authzURLs[j]? = some url → Authorized w (i + j) url) ∧
        FollowsNil w (i + k) authzURL := by
  induction authzURLs generalizing i with
  | nil => simp [solve]
  | cons authzURL authzURLs ih =>
    rw [solve, bind_eq_panic]
    simp only [solveOne_eq_ok, solveOne_eq_panic, ih]
    constructor
    · rintro (hnil | ⟨-, hfirst, k, url, hurl, hearlier, hnil⟩)
      · exact ⟨0, authzURL, rfl, by simp, hnil⟩
      · rw [Nat.add_assoc, Nat.add_comm 1 k] at hnil
        refine ⟨k + 1, url, hurl, fun j hj url' hurl' => ?_, hnil⟩
        cases j with
        | zero =>
          cases hurl'
          exact hfirst
        | succ j =>
          have hjth := hearlier j (Nat.succ_lt_succ_iff.mp hj) url' hurl'
          rwa [Nat.add_assoc, Nat.add_comm 1 j] at hjth
    · rintro ⟨k, url, hurl, hearlier, hnil⟩
      cases k with
      | zero =>
        cases hurl
        exact .inl hnil
      | succ k =>
        refine .inr ⟨(), hearlier 0 k.succ_pos authzURL rfl, k, url, hurl, ?_, ?_⟩
        · intro j hj url' hurl'
          rw [Nat.add_assoc, Nat.add_comm 1 j]
          exact hearlier (j + 1) (Nat.succ_lt_succ hj) url' hurl'
        · rwa [Nat.add_assoc, Nat.add_comm 1 k]

theorem worded_solve (i : ℕ) (authzURLs : List String) : Worded (solve w i authzURLs) := by
  induction authzURLs generalizing i with
  | nil => exact worded_ok
  | cons authzURL authzURLs ih => exact (worded_solveOne i authzURL).bind fun _ _ => ih (i + 1)

theorem savePEMKey_eq_ok {path : String} {u : Unit} :
    savePEMKey w path = .ok u ↔ w.writeKey path = .ok () ∧ w.chmodKey path = .ok () := by
  unfold savePEMKey
  cases w.writeKey path <;> simp [bind, Except.bind]

theorem obtainChain_eq_ok {order : Order} {derChain : List (List UInt8)} :
    obtainChain w cert order = .ok derChain ↔ Obtained w cert order derChain := by
  simp only [obtainChain, bind_eq_ok, orFail_eq_ok, savePEMKey_eq_ok]
  constructor
  · rintro ⟨csr, hcsr, chain, hchain, _, ⟨hkey, hmode⟩, _, hcert, hpure⟩
    cases hpure
    exact ⟨⟨csr, hcsr, hchain⟩, hkey, hmode, hcert⟩
  · rintro ⟨⟨csr, hcsr, hchain⟩, hkey, hmode, hcert⟩
    exact ⟨csr, hcsr, derChain, hchain, (), ⟨hkey, hmode⟩, (), hcert, rfl⟩

theorem obtainChain_ne_panic {order : Order} : obtainChain w cert order ≠ .error .panic := by
  simp [obtainChain, bind_eq_panic, pure, Except.pure]

theorem worded_obtainChain (order : Order) : Worded (obtainChain w cert order) := by
  refine (worded_orFail (by decide) _).bind fun _ _ => ?_
  refine (worded_orFail (by decide) _).bind fun _ _ => ?_
  refine (worded_orFail (by decide) _).bind fun _ _ => ?_
  exact (worded_orFail (by decide) _).bind fun _ _ => worded_ok

/-! ## How a run ends -/

theorem exists_obtain_ok_iff : (∃ expires, obtain w cert = .ok expires) ↔ Succeeds w cert := by
  simp only [obtain, bind_eq_ok, prepare_eq_ok, solve_eq_ok, obtainChain_eq_ok, deref_eq_ok]
  constructor
  · rintro ⟨_, _, hprepared, order, rfl, -, hauthorized, derChain, hobtained, leaf, hleaf, -⟩
    refine ⟨order, derChain, hprepared, fun i url hurl => ?_, hobtained, ?_⟩
    · simpa using hauthorized i url hurl
    · rintro rfl
      cases hleaf
  · rintro ⟨order, derChain, hprepared, hauthorized, hobtained, hchain⟩
    obtain ⟨leaf, rest, rfl⟩ := List.exists_cons_of_ne_nil hchain
    refine ⟨_, _, hprepared, order, rfl, (), fun i url hurl => ?_, _, hobtained, leaf, rfl, rfl⟩
    simpa using hauthorized i url hurl

theorem obtain_eq_panic_iff : obtain w cert = .error .panic ↔ Misanswered w cert := by
  simp only [obtain, bind_eq_panic, prepare_ne_panic, prepare_eq_ok, solve_eq_ok, solve_eq_panic,
    obtainChain_ne_panic, obtainChain_eq_ok, deref_eq_ok, deref_eq_panic, false_or,
    List.head?_eq_none_iff, Nat.zero_add]
  constructor
  · rintro ⟨_, hprepared, rfl | ⟨order, rfl, ⟨i, url, hurl, hearlier, hnil⟩ | hlate⟩⟩
    · exact .nilOrder hprepared
    · exact .nilAuthorization order i url hprepared hurl hearlier hnil
    · obtain ⟨-, hauthorized, derChain, hobtained, rfl | ⟨leaf, -, hpure⟩⟩ := hlate
      · exact .emptyChain order hprepared hauthorized hobtained
      · cases hpure
  · intro h
    cases h with
    | nilOrder hprepared => exact ⟨none, hprepared, .inl rfl⟩
    | nilAuthorization order i url hprepared hurl hearlier hnil =>
      exact ⟨some order, hprepared, .inr ⟨order, rfl, .inl ⟨i, url, hurl, hearlier, hnil⟩⟩⟩
    | emptyChain order hprepared hauthorized hobtained =>
      exact ⟨some order, hprepared, .inr ⟨order, rfl, .inr ⟨(), hauthorized, [], hobtained,
        .inl rfl⟩⟩⟩

theorem worded_obtain : Worded (obtain w cert) := by
  refine worded_prepare.bind fun order _ => ?_
  refine (worded_deref order).bind fun order _ => ?_
  refine (worded_solve 0 _).bind fun _ _ => ?_
  refine (worded_obtainChain order).bind fun derChain _ => ?_
  exact (worded_deref _).bind fun _ _ => worded_ok

/-- A run records its outcome unless it follows a nil pointer, or has succeeded in everything
with an empty chain. -/
theorem recordsOutcome_iff (w : World) (cert : ACMECertificate) :
    RecordsOutcome w cert ↔ ¬Misanswered w cert := by
  rw [← obtain_eq_panic_iff]
  unfold RecordsOutcome issue
  cases hend : obtain w cert with
  | ok expires =>
    have hsucceeds := exists_obtain_ok_iff.mp ⟨expires, hend⟩
    refine iff_of_true ⟨rfl, _, rfl, rfl, ?_, fun hfails => (hfails hsucceeds).elim⟩ (by simp)
    exact iff_of_true rfl hsucceeds
  | error e =>
    have hfails : ¬Succeeds w cert := by
      rw [← exists_obtain_ok_iff]
      rintro ⟨expires, hok⟩
      cases hend.symm.trans hok
    cases e with
    | panic => simp
    | fail message =>
      refine iff_of_true ⟨rfl, _, rfl, rfl, ?_, fun _ => ⟨rfl, worded_obtain message hend⟩⟩
        (by simp)
      exact iff_of_false (by decide : ("error" : String) ≠ "valid") hfails

end

/-- An order that is finalized with an empty chain. -/
def withoutChain : World where
  loadOrCreateAccountKey := .ok ()
  register := .ok ()
  generateKey := .ok ()
  authorizeOrder _ := .ok (some ⟨[], "finalize"⟩)
  getAuthorization _ _ := .error "not found"
  accept _ _ := .ok ()
  waitAuthorization _ _ := .ok ()
  certRequest _ := .ok []
  createOrderCert _ _ := .ok []
  writeKey _ := .ok ()
  chmodKey _ := .ok ()
  encodeToMemory der := der
  writeCert _ _ := .ok ()
  parseCertificate _ := none
  now := 0
  join name := "certs/" ++ name

def pending : ACMECertificate :=
  { id := "a1", name := "x", domains := ["example.com"], provider := "letsencrypt",
    email := "a@b.com", autoRenew := true, renewDays := 30, certPath := "", keyPath := "",
    expiresAt := none, status := "pending", error := "" }

theorem empty_chain_unrecorded :
    issue withoutChain pending = ⟨[], true⟩ ∧ ¬RecordsOutcome withoutChain pending := by
  have hissue : issue withoutChain pending = ⟨[], true⟩ := by decide
  refine ⟨hissue, fun h => ?_⟩
  have hpanicked := h.1
  rw [hissue] at hpanicked
  cases hpanicked

/-! ## Answers that are looked at -/

section
open CertificateRenewal (labelled order)

/-- The answers of a world without nil pointers, with a chain. -/
def ofRenewal (w : CertificateRenewal.World) (derChain : List (List UInt8)) : World where
  loadOrCreateAccountKey := w.loadOrCreateAccountKey
  register := w.register
  generateKey := w.generateKey
  authorizeOrder domains := (w.authorizeOrder domains).map some
  getAuthorization _ url :=
    (w.getAuthorization url).map fun auth =>
      some ⟨auth.uri, auth.identifier, auth.challenges.map fun type => some ⟨type, ""⟩⟩
  accept _ chal := w.accept chal.type
  waitAuthorization _ uri := w.waitAuthorization uri
  certRequest domains := (w.certRequest domains).map fun _ => []
  createOrderCert url _ := (w.createOrderCert url).map fun _ => derChain
  writeKey := w.savePEMKey
  chmodKey _ := .ok ()
  encodeToMemory der := der
  writeCert path _ := w.writeCert path
  parseCertificate _ := w.leafNotAfter
  now := w.now
  join := w.join

def recorded {α : Type} (x : Except String α) : Except Exit α := x.mapError .fail

theorem recorded_bind {α β : Type} (x : Except String α) (f : α → Except String β) :
    recorded (x >>= f) = recorded x >>= fun a => recorded (f a) := by
  cases x <;> rfl

theorem orFail_eq {α : Type} (label : String) (x : Except String α) :
    orFail label x = recorded (labelled label x) := by
  cases x <;> rfl

variable {w : CertificateRenewal.World} {derChain : List (List UInt8)}

theorem firstOfType_map (type : String) (types : List String) :
    firstOfType type (types.map fun t => some ⟨t, ""⟩) =
      .ok ((types.find? (· = type)).map fun t => ⟨t, ""⟩) := by
  induction types with
  | nil => rfl
  | cons t types ih =>
    rw [List.map_cons, firstOfType, List.find?_cons]
    by_cases htype : t = type
    · simp [htype]
    · simp [htype, ih]

theorem pickChallenge_map (auth : CertificateRenewal.Authorization) :
    pickChallenge ⟨auth.uri, auth.identifier, auth.challenges.map fun t => some ⟨t, ""⟩⟩ =
      .ok ((CertificateRenewal.pickChallenge auth).map fun t => ⟨t, ""⟩) := by
  unfold pickChallenge CertificateRenewal.pickChallenge
  simp only [firstOfType_map]
  cases auth.challenges.find? (· = "dns-01") <;> rfl

theorem solve_ofRenewal (i : ℕ) (authzURLs : List String) :
    solve (ofRenewal w derChain) i authzURLs = recorded (CertificateRenewal.solve w authzURLs) := by
  induction authzURLs generalizing i with
  | nil => rfl
  | cons authzURL authzURLs ih =>
    rw [solve, CertificateRenewal.solve, recorded_bind]
    simp only [ih]
    unfold solveOne ofRenewal
    dsimp only
    cases w.getAuthorization authzURL with
    | error err => rfl
    | ok auth =>
      have hpick := pickChallenge_map auth
      cases hchal : CertificateRenewal.pickChallenge auth with
      | none =>
        rw [hchal] at hpick
        simp [orFail, labelled, Except.map, Except.mapError, recorded, bind, Except.bind, deref,
          hpick, hchal]
      | some type =>
        rw [hchal] at hpick
        simp only [orFail, labelled, Except.map, Except.mapError, recorded, bind, Except.bind,
          deref, hpick, hchal, Option.map_some]
        cases w.accept type with
        | error err => rfl
        | ok _ => cases w.waitAuthorization auth.uri <;> rfl

theorem register_ofRenewal :
    register (ofRenewal w derChain) = recorded (CertificateRenewal.register w) := by
  have hanswer : (ofRenewal w derChain).register = w.register := rfl
  unfold register CertificateRenewal.register
  rw [hanswer]
  cases w.register with
  | ok _ => rfl
  | error e => cases e <;> rfl

theorem savePEMKey_ofRenewal (path : String) :
    savePEMKey (ofRenewal w derChain) path = w.savePEMKey path := by
  unfold savePEMKey ofRenewal
  dsimp only
  cases w.savePEMKey path <;> rfl

theorem obtain_ofRenewal (hchain : derChain ≠ []) (cert : ACMECertificate) :
    obtain (ofRenewal w derChain) cert = recorded (order w cert) := by
  obtain ⟨leaf, rest, rfl⟩ := List.exists_cons_of_ne_nil hchain
  unfold obtain order prepare obtainChain
  split_ifs
  · rfl
  · simp only [recorded_bind, solve_ofRenewal, register_ofRenewal, savePEMKey_ofRenewal, bind_assoc]
    simp only [orFail_eq]
    refine bind_congr fun _ => bind_congr fun _ => bind_congr fun _ => ?_
    unfold ofRenewal
    dsimp only
    cases w.authorizeOrder cert.domains with
    | error err => rfl
    | ok order =>
      change recorded (CertificateRenewal.solve w order.authzURLs) >>= _ =
        recorded (CertificateRenewal.solve w order.authzURLs) >>= _
      refine bind_congr fun _ => ?_
      cases w.certRequest cert.domains with
      | error err => rfl
      | ok _ =>
        cases w.createOrderCert order.finalizeURL with
        | error err => rfl
        | ok _ => rfl

/-- Where the answers are those that are expected, a run hands on what a renewal does. -/
theorem issue_ofRenewal (hchain : derChain ≠ []) (cert : ACMECertificate) :
    issue (ofRenewal w derChain) cert = ⟨[CertificateRenewal.issue w cert], false⟩ := by
  unfold issue CertificateRenewal.issue
  rw [obtain_ofRenewal hchain]
  cases order w cert <;> rfl

end

end NetBerth.CertificateIssuance
