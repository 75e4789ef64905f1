import Mathlib

/-!
# Token buckets

A bucket holds at most `burst` tokens and gains `rate` in every unit of time. Who
takes a token when there is one is admitted. The time that a bucket gains for ends
at the reading that was checked, and its next gain starts at a later reading: what
lies between the two is lost.

Over any window, what was admitted and what is left were paid by one full bucket
and by the gain since the window opened.
-/
namespace TokenBucket

variable {K : Type*} [Field K] [LinearOrder K]

structure Bucket (K : Type*) where
  tokens : K
  last : K
  deriving DecidableEq

/-- What is in a bucket at a reading. -/
def Bucket.level (rate burst : K) (b : Bucket K) (now : K) : K :=
  if burst < b.tokens + (now - b.last) * rate then burst else b.tokens + (now - b.last) * rate

section
variable {rate burst now : K} {b : Bucket K}

theorem Bucket.level_le_burst : b.level rate burst now ≤ burst := by
  unfold level
  split_ifs with h
  · exact le_rfl
  · exact not_lt.mp h

theorem Bucket.level_le : b.level rate burst now ≤ b.tokens + (now - b.last) * rate := by
  unfold level
  split_ifs with h
  · exact h.le
  · exact le_rfl

end

/-- The account of a window from `start` to `stop` in which `n` have been admitted. -/
structure Account (rate burst start stop : K) (b : Bucket K) (n : ℕ) : Prop where
  nonneg : 0 ≤ b.tokens
  le_burst : b.tokens ≤ burst
  within : n ≤ burst + rate * (stop - start)
  owed : n + b.tokens ≤ burst + rate * max 0 (b.last - start)
  early : b.last < start → n = 0

section
variable [IsStrictOrderedRing K]
variable {rate burst start stop checked instant updated : K} {b : Bucket K} {n : ℕ}

/-- A full bucket opens an account. -/
theorem Account.full (hrate : 0 ≤ rate) (hburst : 0 ≤ burst) (hwindow : start ≤ stop) (now : K) :
    Account rate burst start stop ⟨burst, now⟩ 0 where
  nonneg := hburst
  le_burst := le_rfl
  within := by
    have hgain := mul_nonneg hrate (sub_nonneg.mpr hwindow)
    simpa using add_nonneg hburst hgain
  owed := by
    have hgain := mul_nonneg hrate (le_max_left 0 (now - start))
    simpa using hgain
  early _ := rfl

theorem Account.level_nonneg (h : Account rate burst start stop b n) (hrate : 0 ≤ rate)
    (hchecked : b.last ≤ checked) : 0 ≤ b.level rate burst checked := by
  have hgain := mul_nonneg (sub_nonneg.mpr hchecked) hrate
  unfold Bucket.level
  split_ifs
  · exact h.nonneg.trans h.le_burst
  · exact add_nonneg h.nonneg hgain

/-- The gain up to a reading is part of what the window may pay out. -/
theorem Account.owed_level (h : Account rate burst start stop b n) (hrate : 0 ≤ rate)
    (hchecked : b.last ≤ checked) :
    n + b.level rate burst checked ≤ burst + rate * max 0 (checked - start) := by
  rcases lt_or_ge b.last start with hearly | hopen
  · have hlevel : b.level rate burst checked ≤ burst := Bucket.level_le_burst
    have hgain := mul_nonneg hrate (le_max_left 0 (checked - start))
    rw [h.early hearly, Nat.cast_zero, zero_add]
    linarith
  · have howed := h.owed
    have hlevel : b.level rate burst checked ≤ b.tokens + (checked - b.last) * rate :=
      Bucket.level_le
    rw [max_eq_right (sub_nonneg.mpr hopen)] at howed
    rw [max_eq_right (sub_nonneg.mpr (hopen.trans hchecked))]
    calc n + b.level rate burst checked
        ≤ n + (b.tokens + (checked - b.last) * rate) := by gcongr
      _ = (n + b.tokens) + rate * (checked - b.last) := by ring
      _ ≤ (burst + rate * (b.last - start)) + rate * (checked - b.last) := by gcongr
      _ = burst + rate * (checked - start) := by ring

/-- Whoever finds no token leaves the account as it is. -/
theorem Account.refused (h : Account rate burst start stop b n) (hrate : 0 ≤ rate)
    (hchecked : b.last ≤ checked) (hupdated : checked ≤ updated) :
    Account rate burst start stop ⟨b.level rate burst checked, updated⟩ n where
  nonneg := h.level_nonneg hrate hchecked
  le_burst := Bucket.level_le_burst
  within := h.within
  owed := by
    have howed := h.owed_level hrate hchecked
    have hlater : rate * max 0 (checked - start) ≤ rate * max 0 (updated - start) := by gcongr
    exact howed.trans (by gcongr)
  early hearly := h.early ((hchecked.trans hupdated).trans_lt hearly)

/-- Whoever takes a token within the window is on its account. -/
theorem Account.admitted (h : Account rate burst start stop b n) (hrate : 0 ≤ rate)
    (hchecked : b.last ≤ checked) (hinstant : checked ≤ instant) (hupdated : instant ≤ updated)
    (htoken : 1 ≤ b.level rate burst checked) :
    Account rate burst start stop ⟨b.level rate burst checked - 1, updated⟩
      (if start ≤ instant ∧ instant ≤ stop then n + 1 else n) := by
  have howed := h.owed_level hrate hchecked
  have hlater : rate * max 0 (checked - start) ≤ rate * max 0 (updated - start) := by
    have hle := hinstant.trans hupdated
    gcongr
  have hlevel : b.level rate burst checked ≤ burst := Bucket.level_le_burst
  split_ifs with hin
  · obtain ⟨hstart, hstop⟩ := hin
    refine ⟨sub_nonneg.mpr htoken, by linarith, ?_, ?_, fun hearly => ?_⟩
    · have hgain : rate * max 0 (checked - start) ≤ rate * (stop - start) := by
        have hmax : max 0 (checked - start) ≤ stop - start :=
          max_le (by linarith) (by linarith)
        gcongr
      push_cast
      linarith
    · push_cast
      linarith
    · exact absurd hearly (not_lt.mpr (hstart.trans hupdated))
  · refine ⟨sub_nonneg.mpr htoken, by linarith, h.within, by linarith, fun hearly => ?_⟩
    exact h.early ((hchecked.trans (hinstant.trans hupdated)).trans_lt hearly)

end
end TokenBucket
