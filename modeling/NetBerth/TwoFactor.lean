import NetBerth.Accounts
import NetBerth.ByteStream

/-!
# Two-factor authentication is set up in three requests

`Setup2FA` stores a new secret, `Enable2FA` reads the stored secret, checks a
code against it and sets the flag, and `Disable2FA` takes both back. The store
keeps, beside the users, for which of them the stored secret has been proven:
a code has been found valid for it since it was stored. A state in which
everyone with two-factor authentication has proven the secret stays one as long
as no secret is replaced while the flag is set, and the flag is set only where
the secret in the table is still a proven one. The handlers see to neither.
-/
namespace NetBerth.TwoFactor
open Interleaving SqlTable Accounts ByteStream

/-! ## One-time passwords -/

def base32Value (c : Char) : Option ℕ :=
  if 'A' ≤ c ∧ c ≤ 'Z' then some (c.toNat - 65)
  else if '2' ≤ c ∧ c ≤ '7' then some (c.toNat - 24)
  else none

def base32Char (n : ℕ) : Char := Char.ofNat (if n < 26 then n + 65 else n + 24)

/-- How many bytes the symbols at the end of a text without padding give. -/
def base32Bytes : ℕ → ℕ
  | 8 => 5
  | 7 => 4
  | 5 => 3
  | 4 => 2
  | 2 => 1
  | _ => 0

/-- The bytes of at most eight symbols. -/
def base32Quantum (symbols : List ℕ) : List UInt8 :=
  (putBE 5 ((symbols ++ List.replicate (8 - symbols.length) 0).foldl (fun n d => n * 32 + d) 0)).take
    (base32Bytes symbols.length)

/-- `DecodeString` without padding; line breaks are skipped. -/
def base32Decode (s : String) : Option (List UInt8) :=
  ((s.toList.filter fun c => c ≠ '\r' ∧ c ≠ '\n').mapM base32Value).map fun symbols =>
    (symbols.toChunks 8).flatMap base32Quantum

/-- `EncodeToString` without padding, for whole groups of five bytes. -/
def base32Encode (bytes : List UInt8) : String :=
  String.ofList ((bytes.toChunks 5).flatMap fun group =>
    (List.range 8).map fun i => base32Char (getBE group / 32 ^ (7 - i) % 32))

/-- The code for a time step, with the HMAC of SHA-1 as an argument. -/
def totpCode (hmac : List UInt8 → List UInt8 → List UInt8) (key : List UInt8) (counter : ℤ) :
    String :=
  let hash := hmac key (putBE 8 (counter % 2 ^ 64).toNat)
  let offset := (hash.getLast?.getD 0).toNat % 16
  let binary := getBE ((hash.drop offset).take 4) % 2 ^ 31
  let digits := Nat.toDigits 10 (binary % 1000000)
  String.ofList (List.replicate (6 - digits.length) '0' ++ digits)

/-- `strings.ToUpper`, on a text of ASCII letters and digits. -/
def toUpper (s : String) : String := String.ofList (s.toList.map Char.toUpper)

/-- A code of the present time step, the one before or the one after. -/
def validateTOTP (hmac : List UInt8 → List UInt8 → List UInt8) (secret code : String) (now : ℤ) :
    Bool :=
  match base32Decode (toUpper secret) with
  | none => false
  | some key =>
    key ≠ [] && [-1, 0, 1].any fun offset => totpCode hmac key (now.tdiv 30 + offset) = code

/-! ## The handlers -/

/-- The users, and whose stored secret has been proven. No statement reads the
latter. -/
structure Store where
  users : Table User
  proven : ID → Bool

inductive Response where
  | error (status : ℕ) (message : String)
  | otpSetup (secret qrCode : String)
  | message (text : String)
  deriving DecidableEq, Repr

/-- The actor is the user of the claims, if the request has any. A setup comes
with what the random source will return, an enabling with the code of the body,
if that decodes. -/
inductive Request where
  | setup (actor : Option ID) (random : Option (List UInt8))
  | enable (actor : Option ID) (code : Option String)
  | disable (actor : Option ID)
  deriving DecidableEq, Repr

/-- The statement a handler is about to send. -/
inductive Proc where
  | done (response : Response)
  | setupSelect (userID : ID) (secret : String)
  | setupExec (userID : ID) (secret qrURL : String)
  | enableSelect (userID : ID) (code : String)
  | enableExec (userID : ID)
  | disableExec (userID : ID)
  deriving DecidableEq, Repr

/-- The statement is executed at this time, or fails. -/
inductive Choice where
  | go (now : ℤ)
  | fail
  deriving DecidableEq, Repr

abbrev State := Config Store Proc
abbrev Action := Act Request Choice

def start : Request → Proc
  | .setup none _ | .enable none _ | .disable none => .done (.error 401 "unauthorized")
  | .setup (some _) none => .done (.error 500 "generate failed")
  | .setup (some userID) (some random) => .setupSelect userID (base32Encode random)
  | .enable (some _) none => .done (.error 400 "invalid body")
  | .enable (some userID) (some code) => .enableSelect userID code
  | .disable (some userID) => .disableExec userID

/-- A column of the user's row; nothing is scanned if there is no row or the
query fails. -/
def scan (s : Store) (a : Choice) (userID : ID) (column : User → String) : String :=
  match a with
  | .go _ => ((s.users.select userID).map column).getD ""
  | .fail => ""

def qrURL (username secret : String) : String :=
  "otpauth://totp/NetBerth:" ++ username ++ "?secret=" ++ secret ++ "&issuer=NetBerth"

/-- `UPDATE users SET otp_secret=? WHERE id=?`. -/
def storeSecret (s : Store) (userID : ID) (secret : String) : Store where
  users := s.users.update (fun u => u.id = userID) (fun u => { u with otpSecret := secret })
    fun _ => rfl
  proven := Function.update s.proven userID false

/-- `UPDATE users SET otp_enabled=1 WHERE id=?`. -/
def setEnabled (s : Store) (userID : ID) : Store where
  users := s.users.update (fun u => u.id = userID) (fun u => { u with otpEnabled := true })
    fun _ => rfl
  proven := s.proven

/-- `UPDATE users SET otp_enabled=0, otp_secret='' WHERE id=?`. -/
def clear (s : Store) (userID : ID) : Store where
  users := s.users.update (fun u => u.id = userID)
    (fun u => { u with otpEnabled := false, otpSecret := "" }) fun _ => rfl
  proven := Function.update s.proven userID false

/-- The error of an `UPDATE` is dropped. -/
def exec (s : Store) (f : Store → Store) : Choice → Store
  | .go _ => f s
  | .fail => s

/-- A step of a handler: a statement, and what it does up to the next. -/
def step (hmac : List UInt8 → List UInt8 → List UInt8) (a : Choice) (s : Store) :
    Proc → Option (Store × Proc)
  | .done _ => none
  | .setupSelect userID secret =>
    some (s, .setupExec userID secret (qrURL (scan s a userID User.username) secret))
  | .setupExec userID secret qr =>
    some (exec s (storeSecret · userID secret) a, .done (.otpSetup secret qr))
  | .enableSelect userID code =>
    match a with
    | .fail => some (s, .done (.error 400 "no OTP setup found — call /auth/2fa/setup first"))
    | .go now =>
      let secret := scan s a userID User.otpSecret
      if secret = "" then
        some (s, .done (.error 400 "no OTP setup found — call /auth/2fa/setup first"))
      else if !validateTOTP hmac secret code now then
        some (s, .done (.error 400 "invalid OTP code"))
      else some ({ s with proven := Function.update s.proven userID true }, .enableExec userID)
  | .enableExec userID => some (exec s (setEnabled · userID) a, .done (.message "2FA enabled"))
  | .disableExec userID => some (exec s (clear · userID) a, .done (.message "2FA disabled"))

def machine (hmac : List UInt8 → List UInt8 → List UInt8) :
    Machine Store Proc Request Choice := ⟨start, step hmac⟩

/-- Whoever has two-factor authentication enabled has proven the stored secret. -/
def Proven (s : Store) : Prop := ∀ u ∈ s.users.rows, u.otpEnabled → s.proven u.id

instance (s : Store) : Decidable (Proven s) := inferInstanceAs (Decidable (∀ u ∈ s.users.rows, _))

/-- A secret is stored only while the user's flag is off, and the flag is set
only while the stored secret is proven. -/
def Orderly (s : Store) : Choice → Proc → Prop
  | .go _, .setupExec userID _ _ => ∀ u ∈ s.users.rows, u.id = userID → u.otpEnabled = false
  | .go _, .enableExec userID => ∀ u ∈ s.users.rows, u.id = userID → s.proven u.id
  | _, _ => True

instance (s : Store) (a : Choice) (p : Proc) : Decidable (Orderly s a p) := by
  cases a <;> cases p <;> unfold Orderly <;> infer_instance

def WritesOrderly (c : State) : Action → Prop
  | .spawn _ => True
  | .run i a => ∀ p ∈ c.procs[i]?, Orderly c.shared a p

instance (c : State) : (a : Action) → Decidable (WritesOrderly c a)
  | .spawn _ => inferInstanceAs (Decidable True)
  | .run i a => inferInstanceAs (Decidable (∀ p ∈ c.procs[i]?, Orderly c.shared a p))

section
variable {hmac : List UInt8 → List UInt8 → List UInt8} {a : Choice} {s s' : Store} {p q : Proc}
  {c : State} {act : Action}

/-- Only the user whose row is written can lose the proof. -/
theorem proven_update {userID : ID} {f : User → User} {hf : ∀ u, (f u).id = u.id}
    {proven : ID → Bool} (hs : Proven s) (hother : ∀ id, id ≠ userID → proven id = s.proven id) :
    Proven ⟨s.users.update (fun u => u.id = userID) f hf, proven⟩ ↔
      ∀ u ∈ s.users.rows, u.id = userID → (f u).otpEnabled → proven userID := by
  constructor
  · intro h u hu hid henabled
    have hmem : f u ∈ (s.users.update (fun u => u.id = userID) f hf).rows :=
      Table.mem_update.mpr ⟨u, hu, by simp [hid]⟩
    rw [← hid, ← hf u]
    exact h (f u) hmem henabled
  · intro h u hu henabled
    have hmem : u ∈ (s.users.update (fun u => u.id = userID) f hf).rows := hu
    obtain ⟨v, hv, rfl⟩ := Table.mem_update.mp hmem
    by_cases hid : v.id = userID
    · simp only [hid, decide_true, if_true] at henabled ⊢
      rw [hf, hid]
      exact h v hv hid henabled
    · simp only [hid, decide_false, Bool.false_eq_true, if_false] at henabled ⊢
      rw [hother v.id hid]
      exact hs v hv henabled

theorem update_of_other {proven : ID → Bool} {userID id : ID} {b : Bool} (h : id ≠ userID) :
    Function.update proven userID b id = proven id := Function.update_of_ne h ..

theorem proven_storeSecret (hs : Proven s) (userID : ID) (secret : String) :
    Proven (storeSecret s userID secret) ↔
      ∀ u ∈ s.users.rows, u.id = userID → u.otpEnabled = false := by
  rw [storeSecret, proven_update hs fun _ => update_of_other]
  simp only [Function.update_self, Bool.false_eq_true, imp_false, Bool.not_eq_true]

theorem proven_setEnabled (hs : Proven s) (userID : ID) :
    Proven (setEnabled s userID) ↔ ∀ u ∈ s.users.rows, u.id = userID → s.proven u.id := by
  rw [setEnabled, proven_update hs fun _ _ => rfl]
  refine forall₂_congr fun u _ => forall_congr' fun hid => ?_
  rw [hid]
  exact ⟨fun h => h rfl, fun h _ => h⟩

theorem proven_clear (hs : Proven s) (userID : ID) : Proven (clear s userID) := by
  rw [clear, proven_update hs fun _ => update_of_other]
  exact fun _ _ _ => nofun

theorem proven_validated (hs : Proven s) (userID : ID) :
    Proven { s with proven := Function.update s.proven userID true } := by
  intro u hu henabled
  show Function.update s.proven userID true u.id = true
  by_cases hid : u.id = userID
  · rw [hid, Function.update_self]
  · rw [update_of_other hid]
    exact hs u hu henabled

/-- A step of a handler keeps the proofs exactly if its write is orderly. -/
theorem step_proven (h : step hmac a s p = some (s', q)) (hs : Proven s) :
    Proven s' ↔ Orderly s a p := by
  cases p with
  | done response => cases h
  | setupSelect userID secret =>
    cases h
    cases a <;> exact iff_of_true hs trivial
  | setupExec userID secret qr =>
    cases h
    cases a with
    | go now => exact proven_storeSecret hs userID secret
    | fail => exact iff_of_true hs trivial
  | enableSelect userID code =>
    cases a with
    | fail =>
      cases h
      exact iff_of_true hs trivial
    | go now =>
      simp only [step] at h
      split_ifs at h <;> cases h
      · exact iff_of_true hs trivial
      · exact iff_of_true hs trivial
      · exact iff_of_true (proven_validated hs userID) trivial
  | enableExec userID =>
    cases h
    cases a with
    | go now => exact proven_setEnabled hs userID
    | fail => exact iff_of_true hs trivial
  | disableExec userID =>
    cases h
    cases a with
    | go now => exact iff_of_true (proven_clear hs userID) trivial
    | fail => exact iff_of_true hs trivial

theorem exec_proven (hc : Proven c.shared) :
    Proven ((machine hmac).exec c act).shared ↔ WritesOrderly c act := by
  cases act with
  | spawn r => exact iff_of_true hc trivial
  | run i a =>
    cases hp : c.procs[i]? with
    | none =>
      have he : (machine hmac).exec c (.run i a) = c := by simp only [Machine.exec, hp]
      rw [he, WritesOrderly, hp]
      exact iff_of_true hc (by simp)
    | some p =>
      have horderly : WritesOrderly c (.run i a) ↔ Orderly c.shared a p := by
        simp [WritesOrderly, hp]
      rw [horderly]
      cases hs : step hmac a c.shared p with
      | none =>
        have he : (machine hmac).exec c (.run i a) = c := by
          simp only [Machine.exec, machine, hp, hs]
        rw [he]
        cases p with
        | done response => cases a <;> exact iff_of_true hc trivial
        | enableSelect userID code => cases a <;> exact iff_of_true hc trivial
        | _ => cases hs
      | some t =>
        have he : (machine hmac).exec c (.run i a) = ⟨t.1, c.procs.set i t.2⟩ := by
          simp only [Machine.exec, machine, hp, hs]
        rw [he]
        exact step_proven hs hc

/-- In a run from any users with proven secrets, these stay proven exactly if
every write of the run is orderly. -/
theorem secrets_stay_proven_iff (hmac : List UInt8 → List UInt8 → List UInt8) (s : Store)
    (hs : Proven s) (as : List Action) :
    (machine hmac).Throughout (fun c => Proven c.shared) ⟨s, []⟩ as ↔
      (machine hmac).Along WritesOrderly ⟨s, []⟩ as :=
  Machine.throughout_iff_along (fun _ _ hc => exec_proven hc) as hs

end

/-! ## A secret nobody confirmed -/

def alice : User := ⟨"u", "t", "alice", "alice@example.org", "hash", "user", true, false, "", true⟩

def newAccount : Store := ⟨⟨[alice], List.nodup_singleton _⟩, fun _ => false⟩

/-- An HMAC under which every code is 000000. -/
def zeroHMAC : List UInt8 → List UInt8 → List UInt8 := fun _ _ => List.replicate 20 0

/-- A setup and the enabling after it, each handled before the next. -/
def enrolment : List Action :=
  [.spawn (.setup (some "u") (some (List.replicate 20 7))), .run 0 (.go 0), .run 0 (.go 0),
    .spawn (.enable (some "u") (some "000000")), .run 1 (.go 30), .run 1 (.go 30)]

theorem secrets_stay_proven_iff_enrolment :
    Proven newAccount ∧ (machine zeroHMAC).Along WritesOrderly ⟨newAccount, []⟩ enrolment ∧
      (machine zeroHMAC).Throughout (fun c => Proven c.shared) ⟨newAccount, []⟩ enrolment :=
  ⟨by decide, by decide, (secrets_stay_proven_iff zeroHMAC newAccount (by decide) enrolment).mpr
    (by decide)⟩

/-- Another setup replaces the secret in use, and the flag stays set. -/
def secondSetup : List Action :=
  enrolment ++ [.spawn (.setup (some "u") (some (List.replicate 20 9))), .run 2 (.go 60),
    .run 2 (.go 60)]

/-- Another setup comes between the check of the code and the write of the flag. -/
def overtakenEnable : List Action :=
  [.spawn (.setup (some "u") (some (List.replicate 20 7))), .run 0 (.go 0), .run 0 (.go 0),
    .spawn (.enable (some "u") (some "000000")), .run 1 (.go 30),
    .spawn (.setup (some "u") (some (List.replicate 20 9))), .run 2 (.go 30), .run 2 (.go 30),
    .run 1 (.go 30)]

theorem unproven_secret_in_use :
    ¬(machine zeroHMAC).Throughout (fun c => Proven c.shared) ⟨newAccount, []⟩ secondSetup ∧
      ¬(machine zeroHMAC).Throughout (fun c => Proven c.shared) ⟨newAccount, []⟩ overtakenEnable := by
  constructor
  · intro h
    have hlast := h.last
    revert hlast
    decide
  · intro h
    have hlast := h.last
    revert hlast
    decide

end NetBerth.TwoFactor
