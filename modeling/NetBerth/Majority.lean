import Mathlib

/-!
# Majorities

Votes are counted in a map that starts out at zero, and the keys of the map are then gone
through in any order for one with more than half of the votes. No two keys have as many, so the
order does not matter. Where each vote has two parts, and a value of either part has more than
half, some vote has them both.
-/
namespace Majority

section
variable {κ : Type*} [DecidableEq κ]

def increment (m : κ → ℕ) (k : κ) : κ → ℕ := Function.update m k (m k + 1)

def tally (ks : List κ) : κ → ℕ := ks.foldl increment fun _ => 0

theorem foldl_increment (m : κ → ℕ) (ks : List κ) (k : κ) :
    ks.foldl increment m k = m k + ks.count k := by
  induction ks generalizing m with
  | nil => rfl
  | cons k' ks ih =>
    rw [List.foldl_cons, ih, increment, List.count_cons]
    by_cases hk : k' = k
    · subst hk
      rw [Function.update_self, beq_self_eq_true, if_pos rfl]
      omega
    · rw [Function.update_of_ne (Ne.symm hk), if_neg (by simpa using hk), Nat.add_zero]

theorem tally_apply (ks : List κ) (k : κ) : tally ks k = ks.count k := by
  rw [tally, foldl_increment, Nat.zero_add]

/-- The first key with more than half of `n` votes. -/
def majority (n : ℕ) (m : κ → ℕ) (keys : List κ) : Option κ :=
  keys.find? fun k => n / 2 < m k

theorem half_lt_iff {n c : ℕ} : n / 2 < c ↔ n < 2 * c := by omega

theorem countP_add_countP_le {ι : Type*} (p q : ι → Bool) (l : List ι) :
    l.countP p + l.countP q ≤ l.length + l.countP fun x => p x && q x := by
  induction l with
  | nil => rfl
  | cons x l ih =>
    simp only [List.countP_cons, List.length_cons]
    cases p x <;> cases q x <;> simp <;> omega

/-- Of two majorities one vote is in both. -/
theorem exists_both {ι : Type*} {p q : ι → Bool} {l : List ι} {n : ℕ} (hlen : l.length ≤ n)
    (hp : n < 2 * l.countP p) (hq : n < 2 * l.countP q) : ∃ x ∈ l, p x = true ∧ q x = true := by
  have hle := countP_add_countP_le p q l
  have hpos : 0 < l.countP fun x => p x && q x := by omega
  obtain ⟨x, hx, hboth⟩ := List.countP_pos_iff.mp hpos
  exact ⟨x, hx, Bool.and_eq_true_iff.mp hboth⟩

theorem eq_of_majority {ks : List κ} {n : ℕ} {a b : κ} (hlen : ks.length ≤ n)
    (ha : n < 2 * ks.count a) (hb : n < 2 * ks.count b) : a = b := by
  obtain ⟨x, -, hxa, hxb⟩ := exists_both hlen ha hb
  exact (eq_of_beq hxa).symm.trans (eq_of_beq hxb)

theorem majority_spec {ks keys : List κ} {n : ℕ} {k : κ}
    (h : majority n (tally ks) keys = some k) : n < 2 * ks.count k := by
  have hfound : n / 2 < tally ks k := by simpa using List.find?_some h
  rw [tally_apply] at hfound
  exact half_lt_iff.mp hfound

/-- A majority is found in every order of the keys. -/
theorem majority_eq_some_iff {ks keys : List κ} {n : ℕ} {k : κ} (hkeys : keys.Perm ks.dedup)
    (hlen : ks.length ≤ n) : majority n (tally ks) keys = some k ↔ n < 2 * ks.count k := by
  constructor
  · exact majority_spec
  · intro h
    have hmem : k ∈ keys := by
      rw [hkeys.mem_iff, List.mem_dedup]
      exact List.count_pos_iff.mp (by omega)
    have hmost : n / 2 < tally ks k := by
      rw [tally_apply]
      exact half_lt_iff.mpr h
    cases hfirst : majority n (tally ks) keys with
    | none => exact (List.find?_eq_none.mp hfirst k hmem (decide_eq_true hmost)).elim
    | some k' => rw [eq_of_majority hlen (majority_spec hfirst) h]

/-- A value of the first parts and one of the second that both have a majority are together in
one vote. -/
theorem mem_of_majorities {μ : Type*} [DecidableEq μ] {l : List (κ × μ)} {n : ℕ} {a : κ} {b : μ}
    (hlen : l.length ≤ n) (ha : n < 2 * (l.map Prod.fst).count a)
    (hb : n < 2 * (l.map Prod.snd).count b) : (a, b) ∈ l := by
  rw [List.count, List.countP_map] at ha hb
  obtain ⟨x, hx, hxa, hxb⟩ := exists_both hlen ha hb
  have hpair : x = (a, b) := Prod.ext (eq_of_beq hxa) (eq_of_beq hxb)
  exact hpair ▸ hx

end

end Majority
