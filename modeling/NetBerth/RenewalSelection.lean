import NetBerth.CertificateRenewal

/-!
# What is due for renewal

The days before the end at which a certificate is renewed come from the client and are not
checked. They are multiplied to nanoseconds in 64 bits and compared with a difference of times
that saturates. Up to 106751 days the product fits, and the comparison is that of the integers,
whatever the difference. Beyond, the product wraps around: a certificate may be due always or
never.
-/
namespace NetBerth.RenewalSelection
open CertificateRenewal

/-- `renewDue`; `clock` is what it reads for each certificate. -/
def renewDueAt (clock : ACMECertificate → Time) (certs : List ACMECertificate) :
    List ACMECertificate :=
  certs.filter fun cert =>
    cert.autoRenew && cert.status = "valid" &&
      expiresSoon cert.expiresAt cert.renewDays (clock cert)

theorem renewDueAt_const (now : Time) (certs : List ACMECertificate) :
    renewDueAt (fun _ => now) certs = renewDue certs now := rfl

def hour : ℤ := 3600 * 10 ^ 9

/-- Due in exact arithmetic. -/
def ExactlyDue (cert : ACMECertificate) (now : Time) : Prop :=
  cert.autoRenew = true ∧ cert.status = "valid" ∧
    ∃ t, cert.expiresAt = some t ∧ t - now < cert.renewDays * 24 * hour

instance (cert : ACMECertificate) (now : Time) : Decidable (ExactlyDue cert now) :=
  match h : cert.expiresAt with
  | none => isFalse (by simp [ExactlyDue, h])
  | some t =>
    decidable_of_iff (cert.autoRenew = true ∧ cert.status = "valid" ∧
      t - now < cert.renewDays * 24 * hour) (by simp [ExactlyDue, h])

/-- The product fits, or it wraps around to where the comparison comes out the same. -/
def Harmless (renewDays remaining : ℤ) : Prop :=
  let exact := renewDays * 24 * hour
  let wrapped := exact.bmod (2 ^ 64)
  |renewDays| ≤ 106751 ∨
    (106751 < renewDays ∧
      (exact ≤ remaining ∨ wrapped ≠ -2 ^ 63 ∧ remaining < wrapped)) ∨
    (renewDays < -106751 ∧
      (remaining < exact ∧ wrapped ≠ -2 ^ 63 ∨
        exact ≤ remaining ∧ (wrapped ≤ remaining ∨ wrapped = -2 ^ 63)))

theorem wrapped_bounds (n : ℤ) : -2 ^ 63 ≤ n.bmod (2 ^ 64) ∧ n.bmod (2 ^ 64) < 2 ^ 63 := by
  have hlow := Int.le_bmod (x := n) (m := 2 ^ 64) (by decide)
  have hhigh := Int.bmod_lt (x := n) (m := 2 ^ 64) (by decide)
  omega

theorem wrapped_of_fits {n : ℤ} (hlow : -2 ^ 63 ≤ n) (hhigh : n < 2 ^ 63) :
    n.bmod (2 ^ 64) = n :=
  Int.bmod_eq_of_le (by omega) (by omega)

/-- A difference that saturates is below what fits if it is in exact arithmetic. -/
theorem saturated_lt_iff {r n : ℤ} (hlow : -2 ^ 63 < n) (hhigh : n < 2 ^ 63) :
    max (-2 ^ 63) (min (2 ^ 63 - 1) r) < n ↔ r < n := by
  omega

/-- The comparison comes out as in exact arithmetic. -/
theorem comparison_iff (renewDays t now : ℤ) :
    (timeUntil t now < renewBefore renewDays ↔ t - now < renewDays * 24 * hour) ↔
      Harmless renewDays (t - now) := by
  have hbounds := wrapped_bounds (renewDays * 24 * hour)
  change (max (-2 ^ 63 : ℤ) (min (2 ^ 63 - 1) (t - now)) <
    (renewDays * 24 * hour).bmod (2 ^ 64) ↔ _) ↔ _
  unfold Harmless hour at *
  dsimp only
  by_cases hdays : |renewDays| ≤ 106751
  · have hrange := abs_le.mp hdays
    rw [wrapped_of_fits (by omega) (by omega)]
    exact iff_of_true (saturated_lt_iff (by omega) (by omega)) (.inl hdays)
  · have hfar : renewDays < -106751 ∨ 106751 < renewDays := by
      rw [abs_le] at hdays
      omega
    rw [or_iff_right hdays]
    generalize (renewDays * 24 * (3600 * 10 ^ 9)).bmod (2 ^ 64) = wrapped at *
    omega

/-- The product fits for exactly those numbers of days for which no difference goes wrong. -/
theorem always_harmless_iff (renewDays : ℤ) :
    (∀ remaining, Harmless renewDays remaining) ↔ |renewDays| ≤ 106751 := by
  constructor
  · intro hall
    by_contra hdays
    have hbounds := wrapped_bounds (renewDays * 24 * hour)
    have hlast := hall (2 ^ 63 - 1)
    have hfirst := hall (-2 ^ 63)
    have hbelow := hall (renewDays * 24 * hour - 1)
    unfold Harmless at hlast hfirst hbelow
    rw [or_iff_right hdays] at hlast hfirst hbelow
    rw [abs_le] at hdays
    unfold hour at *
    generalize (renewDays * 24 * (3600 * 10 ^ 9)).bmod (2 ^ 64) = wrapped at *
    omega
  · exact fun hdays _ => .inl hdays

theorem picked_iff {cert : ACMECertificate} {now : Time} :
    ((cert.autoRenew && cert.status = "valid" &&
        expiresSoon cert.expiresAt cert.renewDays now) = true ↔ ExactlyDue cert now) ↔
      (cert.autoRenew = true → cert.status = "valid" →
        ∀ t, cert.expiresAt = some t → Harmless cert.renewDays (t - now)) := by
  unfold ExactlyDue
  rw [Bool.and_eq_true, Bool.and_eq_true, decide_eq_true_iff, and_assoc, and_congr_right_iff]
  apply imp_congr_right
  intro _
  rw [and_congr_right_iff]
  apply imp_congr_right
  intro _
  cases cert.expiresAt with
  | none => simp [expiresSoon]
  | some t =>
    have hcompare := comparison_iff cert.renewDays t now
    simpa [expiresSoon] using hcompare

theorem filter_eq_filter_iff {α : Type} {p q : α → Bool} {l : List α} :
    l.filter p = l.filter q ↔ ∀ x ∈ l, p x = q x := by
  constructor
  · intro h x hx
    have hmem : x ∈ l.filter p ↔ x ∈ l.filter q := by rw [h]
    simpa [hx, ← Bool.eq_iff_iff] using hmem
  · exact List.filter_congr

/-- The selection is exact where the product of no certificate that could be due wraps around
to the other side. -/
theorem renewDueAt_exact_iff (clock : ACMECertificate → Time) (certs : List ACMECertificate) :
    renewDueAt clock certs = certs.filter (fun cert => ExactlyDue cert (clock cert)) ↔
      ∀ cert ∈ certs, cert.autoRenew = true → cert.status = "valid" →
        ∀ t, cert.expiresAt = some t → Harmless cert.renewDays (t - clock cert) := by
  rw [renewDueAt, filter_eq_filter_iff]
  apply forall₂_congr
  intro cert _
  rw [Bool.eq_iff_iff, decide_eq_true_iff]
  exact picked_iff

/-- Valid, and ended with the day. -/
def renewedLongBefore : ACMECertificate :=
  { id := "a1", name := "x", domains := ["example.com"], provider := "letsencrypt",
    email := "a@b.com", autoRenew := true, renewDays := 106752, certPath := "", keyPath := "",
    expiresAt := some (24 * hour), status := "valid", error := "" }

theorem never_renewed :
    renewDueAt (fun _ => 0) [renewedLongBefore] = [] ∧
      [renewedLongBefore].filter (fun cert => ExactlyDue cert 0) = [renewedLongBefore] := by
  decide

end NetBerth.RenewalSelection
