import NetBerth.Transitions

/-!
# The two files of a certificate

A run saves the private key and then the certificate. Each file is truncated where it is
and written from the start, so from the first truncation to the last byte of the
certificate the two do not belong together. A run that fails or is killed in between
leaves them so, and nothing looks at them until the next run.
-/
namespace NetBerth.CertificateFiles
open Transitions

abbrev Bytes := List UInt8

/-- A key in PEM and the certificate chain that the CA has issued for it: the CA is taken to sign the
key of the request. -/
structure Issue (Matching : Bytes → Bytes → Prop) where
  keyPEM : Bytes
  certPEM : Bytes
  matching : Matching keyPEM certPEM

/-- Where a run is: at the steps before the files, in the write of the key, behind it,
behind the `Chmod` of the key, in the write of the certificate, and behind both. -/
inductive Phase (Matching : Bytes → Bytes → Prop) where
  | idle
  | ordering
  | savingKey (p : Issue Matching) (written : ℕ)
  | savedKey (p : Issue Matching)
  | protectedKey (p : Issue Matching)
  | savingCert (p : Issue Matching) (written : ℕ)
  | saved

section
variable {Matching : Bytes → Bytes → Prop}

/-- From the first truncation to the last byte. -/
def Phase.between : Phase Matching → Bool
  | .savingKey _ _ => true
  | .savedKey _ => true
  | .protectedKey _ => true
  | .savingCert _ _ => true
  | .idle => false
  | .ordering => false
  | .saved => false

def Phase.running : Phase Matching → Bool
  | .idle => false
  | _ => true

structure State (Matching : Bytes → Bytes → Prop) where
  key : Option Bytes
  cert : Option Bytes
  phase : Phase Matching

/-- The steps of `issue` or `renew` on the files; in `interrupt` a step fails or the
process is killed. -/
inductive Event (Matching : Bytes → Bytes → Prop) where
  | start
  | openKey (p : Issue Matching)
  | writeKey (written : ℕ)
  | closeKey
  | chmodKey
  | openCert
  | writeCert (written : ℕ)
  | closeCert
  | finish
  | interrupt

def step (s : State Matching) : Event Matching → Option (State Matching)
  | .start =>
    match s.phase with
    | .idle => some { s with phase := .ordering }
    | _ => none
  | .openKey p =>
    match s.phase with
    | .ordering => some { s with key := some [], phase := .savingKey p 0 }
    | _ => none
  | .writeKey m =>
    match s.phase with
    | .savingKey p n =>
      if n ≤ m then some { s with key := some (p.keyPEM.take m), phase := .savingKey p m } else none
    | _ => none
  | .closeKey =>
    match s.phase with
    | .savingKey p n => if p.keyPEM.length ≤ n then some { s with phase := .savedKey p } else none
    | _ => none
  | .chmodKey =>
    match s.phase with
    | .savedKey p => some { s with phase := .protectedKey p }
    | _ => none
  | .openCert =>
    match s.phase with
    | .protectedKey p => some { s with cert := some [], phase := .savingCert p 0 }
    | _ => none
  | .writeCert m =>
    match s.phase with
    | .savingCert p n =>
      if n ≤ m then some { s with cert := some (p.certPEM.take m), phase := .savingCert p m } else none
    | _ => none
  | .closeCert =>
    match s.phase with
    | .savingCert p n => if p.certPEM.length ≤ n then some { s with phase := .saved } else none
    | _ => none
  | .finish =>
    match s.phase with
    | .saved => some { s with phase := .idle }
    | _ => none
  | .interrupt => if s.phase.running then some { s with phase := .idle } else none

/-- Both absent, or a key and a certificate for it. -/
def Paired (Matching : Bytes → Bytes → Prop) (key cert : Option Bytes) : Prop :=
  key = none ∧ cert = none ∨ ∃ k c, key = some k ∧ cert = some c ∧ Matching k c

/-- No run fails or is killed between its two writes. -/
def Uninterrupted (s : State Matching) (e : Event Matching) : Prop :=
  e = .interrupt → s.phase.between = false

/-- What the files hold in each phase. -/
def Invariant (s : State Matching) : Prop :=
  match s.phase with
  | .savingKey p n => s.key = some (p.keyPEM.take n)
  | .savedKey p => s.key = some p.keyPEM
  | .protectedKey p => s.key = some p.keyPEM
  | .savingCert p n => s.key = some p.keyPEM ∧ s.cert = some (p.certPEM.take n)
  | .idle => Paired Matching s.key s.cert
  | .ordering => Paired Matching s.key s.cert
  | .saved => Paired Matching s.key s.cert

variable {s t : State Matching} {e : Event Matching}

theorem Invariant.paired (h : Invariant s) (hphase : s.phase.between = false) :
    Paired Matching s.key s.cert := by
  unfold Invariant at h
  split at h
  case h_5 => exact h
  case h_6 => exact h
  case h_7 => exact h
  all_goals
    rename_i hs
    rw [hs] at hphase
    cases hphase

theorem Invariant.step (h : Invariant s) (hok : Uninterrupted s e) (hstep : step s e = some t) :
    Invariant t := by
  obtain ⟨key, cert, phase⟩ := s
  cases e with
  | interrupt =>
    obtain ⟨-, rfl⟩ := of_guard hstep
    exact h.paired (hok rfl)
  | start =>
    cases phase with
    | idle =>
      cases hstep
      exact h
    | _ => cases hstep
  | openKey p =>
    cases phase with
    | ordering =>
      cases hstep
      rfl
    | _ => cases hstep
  | writeKey m =>
    cases phase with
    | savingKey p n =>
      obtain ⟨-, rfl⟩ := of_guard hstep
      rfl
    | _ => cases hstep
  | closeKey =>
    cases phase with
    | savingKey p n =>
      obtain ⟨hall, rfl⟩ := of_guard hstep
      exact h.trans (congrArg some (List.take_of_length_le hall))
    | _ => cases hstep
  | chmodKey =>
    cases phase with
    | savedKey p =>
      cases hstep
      exact h
    | _ => cases hstep
  | openCert =>
    cases phase with
    | protectedKey p =>
      cases hstep
      exact ⟨h, rfl⟩
    | _ => cases hstep
  | writeCert m =>
    cases phase with
    | savingCert p n =>
      obtain ⟨-, rfl⟩ := of_guard hstep
      exact ⟨h.1, rfl⟩
    | _ => cases hstep
  | closeCert =>
    cases phase with
    | savingCert p n =>
      obtain ⟨hall, rfl⟩ := of_guard hstep
      have hcert : cert = some p.certPEM :=
        h.2.trans (congrArg some (List.take_of_length_le hall))
      exact .inr ⟨p.keyPEM, p.certPEM, h.1, hcert, p.matching⟩
    | _ => cases hstep
  | finish =>
    cases phase with
    | saved =>
      cases hstep
      exact h
    | _ => cases hstep

/-- A run that ends between the two files leaves a key that does not belong to the
certificate that is there. -/
theorem interrupted_unpaired {p : Issue Matching} (hI : Invariant s)
    (hphase : s.phase = .savedKey p ∨ s.phase = .protectedKey p)
    (hold : ∀ c ∈ s.cert, ¬Matching p.keyPEM c) (hstep : step s .interrupt = some t) :
    t.phase.between = false ∧ ¬Paired Matching t.key t.cert := by
  obtain ⟨-, rfl⟩ := of_guard hstep
  have hkey : s.key = some p.keyPEM := by
    unfold Invariant at hI
    obtain h | h := hphase <;> rw [h] at hI <;> exact hI
  refine ⟨rfl, ?_⟩
  rintro (⟨hnone, -⟩ | ⟨k, c, hk, hc, hmatch⟩)
  · rw [hkey] at hnone
    cases hnone
  · cases hkey.symm.trans hk
    exact hold c hc hmatch

end

/-- In every run without such an interruption the files match whenever no run is between
its two writes. -/
theorem files_match {Matching : Bytes → Bytes → Prop} {key cert : Option Bytes}
    (hstart : Paired Matching key cert) {s : State Matching}
    (h : Run step Uninterrupted ⟨key, cert, .idle⟩ s) (hphase : s.phase.between = false) :
    Paired Matching s.key s.cert := by
  have hI : Invariant s := h.invariant (fun _ _ _ hI hok => hI.step hok) hstart
  exact hI.paired hphase

/-- A key and a certificate of one byte each. -/
def SameByte (key cert : Bytes) : Prop := key.length = 1 ∧ key = cert

def issueOf (b : UInt8) : Issue SameByte := ⟨[b], [b], rfl, rfl⟩

/-- Both files of an issue. -/
def saveBoth (b : UInt8) : List (Event SameByte) :=
  [.start, .openKey (issueOf b), .writeKey 1, .closeKey, .chmodKey, .openCert, .writeCert 1,
    .closeCert, .finish]

/-- A renewal that is killed behind the key. -/
def saveKey (b : UInt8) : List (Event SameByte) :=
  [.start, .openKey (issueOf b), .writeKey 1, .closeKey, .interrupt]

theorem killed_renewal_unpaired :
    ∃ s : State SameByte, Run step Always ⟨none, none, .idle⟩ s ∧
      s.phase.between = false ∧ ¬Paired SameByte s.key s.cert := by
  have hrun : (saveBoth 1 ++ saveKey 2).foldlM step ⟨none, none, .idle⟩ =
      some ⟨some [2], some [1], .idle⟩ := rfl
  refine ⟨_, .of_foldlM hrun, rfl, ?_⟩
  rintro (⟨hnone, -⟩ | ⟨k, c, hk, hc, -, hsame⟩)
  · cases hnone
  · cases hk
    cases hc
    exact absurd hsame (by decide)

/-- Two issues after each other. -/
theorem two_issues_paired : Paired SameByte (some [2]) (some [2]) := by
  have hrun : (saveBoth 1 ++ saveBoth 2).foldlM step ⟨none, none, .idle⟩ =
      some ⟨some [2], some [2], .idle⟩ := rfl
  have hok : ∀ e ∈ saveBoth 1 ++ saveBoth 2, ∀ s, Uninterrupted s e := by
    intro e he s hinterrupt
    subst hinterrupt
    simp [saveBoth] at he
  exact files_match (.inl ⟨rfl, rfl⟩) (.of_foldlM_forall hrun hok) rfl

end NetBerth.CertificateFiles
