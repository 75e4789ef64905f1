import NetBerth.RateLimit

/-!
# What the cleanup forgets

The same requests are sent to a limiter with the cleanup and to one without it. A
bucket that was full when it was deleted comes back as it was, so as long as only such
buckets are deleted and every new client finds room, the tables of the two agree on every
client that both track, and the one without cleanup passes on no less.

The cleanup asks how old a bucket is and not whether it is full. With a burst that takes
longer to refill than the interval it hands out tokens; and the room that it makes may be
taken by others, so that a client the table has forgotten is no longer counted at all.
-/
namespace NetBerth.RateLimit
open IPAddress HTTPRequest TokenBucket

/-! ## Two limiters -/

def Event.isRequest : Event → Bool
  | .request _ => true
  | .cleanup _ => false

def withoutCleanup (es : List Event) : List Event := es.filter Event.isRequest

/-- What the limiter with cleanup passes on, the one without cleanup passes on. -/
def Invisible (rl : RateLimiter) (es : List Event) : Prop :=
  List.Forall₂ (fun a b => a.2 = .passedOn → b.2 = .passedOn) (run rl es).2
    (run rl (withoutCleanup es)).2

/-- The clock never goes back, over the readings of a tick neither. -/
def Timed : ℚ → List Event → Prop
  | _, [] => True
  | since, .request v :: es => since ≤ v.created ∧ Timed v.updated es
  | since, .cleanup now :: es =>
    (∀ key, since ≤ now key) ∧ ∃ stop, (∀ key, now key ≤ stop) ∧ Timed stop es

def clients : List Event → Finset String
  | [] => ∅
  | .request v :: es => insert v.key (clients es)
  | .cleanup _ :: es => clients es

/-- There is room for every new client, and what a tick deletes has filled up. -/
def Forgiving : RateLimiter → List Event → Prop
  | _, [] => True
  | rl, .request v :: es =>
    (rl.visitors.lookup v.key = none →
      rl.visitors.keys.length < maxTrackedRateLimitVisitors) ∧ Forgiving (middleware rl v).2 es
  | rl, .cleanup now :: es =>
    (∀ key b, rl.visitors.lookup key = some b → now key - b.last > cleanupInterval →
      rl.burst ≤ b.tokens + (now key - b.last) * rl.rate) ∧ Forgiving (cleanup rl now) es

/-! ## One request -/

/-- What a level admits, and what it leaves. -/
def decideAt (level : ℚ) : Verdict × ℚ :=
  if level < 1 then (tooManyRequests, level) else (.passedOn, level - 1)

section
variable {rl A B : RateLimiter} {v : Visit} {key : String} {since now : ℚ} {b : Visitor}

theorem spend_level (rl : RateLimiter) (v : Visit) (b : Visitor) : spend rl v b =
    ((decideAt (b.level (rl.rate : ℚ) rl.burst v.checked)).1,
      rl.put v.key ⟨(decideAt (b.level (rl.rate : ℚ) rl.burst v.checked)).2, v.updated⟩) := by
  rw [spend_eq, decideAt]
  split_ifs <;> rfl

/-- A bucket that has had the time to fill up is full. -/
theorem level_of_full {rate burst : ℕ} (h : (burst : ℚ) ≤ b.tokens + (since - b.last) * rate)
    (hnow : since ≤ now) : b.level (rate : ℚ) burst now = burst := by
  have hgain : (since - b.last) * rate ≤ (now - b.last) * rate := by gcongr
  unfold Bucket.level
  split_ifs with hover
  · rfl
  · exact le_antisymm (not_lt.mp hover) (h.trans (by linarith))

theorem level_new {rate burst : ℕ} (hnow : since ≤ now) :
    (⟨burst, since⟩ : Visitor).level (rate : ℚ) burst now = burst :=
  level_of_full (by simp) hnow

theorem length_put_of_new {k : String} (h : rl.visitors.lookup k = none) (b : Visitor) :
    (rl.put k b).visitors.keys.length = rl.visitors.keys.length + 1 := by
  have hnew : k ∉ rl.visitors.keys := AList.lookup_eq_none.mp h
  rw [RateLimiter.put, AList.keys_insert, List.length_cons, List.erase_of_not_mem hnew]

theorem length_le_put (rl : RateLimiter) (k : String) (b : Visitor) :
    rl.visitors.keys.length ≤ (rl.put k b).visitors.keys.length := by
  have herase := List.le_length_erase (l := rl.visitors.keys) (a := k)
  rw [RateLimiter.put, AList.keys_insert, List.length_cons]
  omega

/-! ## The two tables -/

/-- A client of the table with cleanup has the same bucket in the other one, or no
bucket there because that table is full; whom the cleanup has forgotten has a full one. -/
structure Shadows (since : ℚ) (A B : RateLimiter) : Prop where
  rate : A.rate = B.rate
  burst : A.burst = B.burst
  tracked : ∀ key a, A.visitors.lookup key = some a → B.visitors.lookup key = some a ∨
    B.visitors.lookup key = none ∧ maxTrackedRateLimitVisitors ≤ B.visitors.keys.length
  forgotten : ∀ key b, A.visitors.lookup key = none → B.visitors.lookup key = some b →
    (B.burst : ℚ) ≤ b.tokens + (since - b.last) * B.rate

theorem Shadows.refl (since : ℚ) (rl : RateLimiter) : Shadows since rl rl where
  rate := rfl
  burst := rfl
  tracked _ _ h := .inl h
  forgotten _ _ hnone hsome := absurd (hnone.symm.trans hsome) (by simp)

theorem Shadows.later (h : Shadows since A B) (hnow : since ≤ now) : Shadows now A B where
  rate := h.rate
  burst := h.burst
  tracked := h.tracked
  forgotten key b hnone hsome := by
    have hfull := h.forgotten key b hnone hsome
    have hgain : (since - b.last) * B.rate ≤ (now - b.last) * B.rate := by gcongr
    linarith

theorem Shadows.put (h : Shadows since A B) (k : String) (c : Visitor) :
    Shadows since (A.put k c) (B.put k c) where
  rate := h.rate
  burst := h.burst
  tracked key a ha := by
    rw [lookup_put_eq] at ha ⊢
    split_ifs at ha ⊢ with hkey
    · exact .inl ha
    · obtain hsame | ⟨hnone, hfull⟩ := h.tracked key a ha
      · exact .inl hsame
      · exact .inr ⟨hnone, hfull.trans (length_le_put B k c)⟩
  forgotten key b hnone hsome := by
    rw [lookup_put_eq] at hnone hsome
    split_ifs at hnone hsome with hkey
    exact h.forgotten key b hnone hsome

theorem Shadows.put_left (h : Shadows since A B) {k : String} (c : Visitor)
    (hnone : B.visitors.lookup k = none)
    (hfull : maxTrackedRateLimitVisitors ≤ B.visitors.keys.length) :
    Shadows since (A.put k c) B where
  rate := h.rate
  burst := h.burst
  tracked key a ha := by
    rw [lookup_put_eq] at ha
    split_ifs at ha with hkey
    · exact .inr ⟨hkey ▸ hnone, hfull⟩
    · exact h.tracked key a ha
  forgotten key b ha hb := by
    rw [lookup_put_eq] at ha
    split_ifs at ha with hkey
    exact h.forgotten key b ha hb

/-- Both look at a bucket of the same level. -/
theorem Shadows.spend (h : Shadows since A B) {a b : Visitor}
    (hlevel : a.level (A.rate : ℚ) A.burst v.checked = b.level (B.rate : ℚ) B.burst v.checked) :
    ((spend A v a).1 = .passedOn → (spend B v b).1 = .passedOn) ∧
      Shadows since (spend A v a).2 (spend B v b).2 := by
  rw [spend_level, spend_level, hlevel]
  exact ⟨id, h.put v.key _⟩

/-- One request that finds room. -/
theorem Shadows.request (h : Shadows since A B) (hcreated : since ≤ v.created)
    (hroom : A.visitors.lookup v.key = none →
      A.visitors.keys.length < maxTrackedRateLimitVisitors) :
    ((middleware A v).1 = .passedOn → (middleware B v).1 = .passedOn) ∧
      Shadows since (middleware A v).2 (middleware B v).2 := by
  have hchecked : since ≤ v.checked := hcreated.trans v.created_le
  cases hA : A.visitors.lookup v.key with
  | some a =>
    rw [middleware_tracked hA]
    obtain hB | ⟨hB, hfull⟩ := h.tracked v.key a hA
    · rw [middleware_tracked hB]
      exact h.spend (by rw [h.rate, h.burst])
    · rw [middleware_untracked hB hfull, spend_level]
      exact ⟨fun _ => rfl, h.put_left _ hB hfull⟩
  | none =>
    rw [middleware_new hA (hroom hA)]
    cases hB : B.visitors.lookup v.key with
    | some b =>
      have hfull := h.forgotten v.key b hA hB
      rw [middleware_tracked hB]
      exact h.spend (by rw [level_new v.created_le, level_of_full hfull hchecked, h.burst])
    | none =>
      by_cases hfree : B.visitors.keys.length < maxTrackedRateLimitVisitors
      · rw [middleware_new hB hfree]
        exact h.spend (by rw [h.rate, h.burst])
      · have hfull := not_lt.mp hfree
        rw [middleware_untracked hB hfull, spend_level]
        exact ⟨fun _ => rfl, h.put_left _ hB hfull⟩

/-- One tick that deletes full buckets only. -/
theorem Shadows.cleanup (h : Shadows since A B) {stop : ℚ} {now : String → ℚ}
    (hsince : ∀ key, since ≤ now key) (hstop : ∀ key, now key ≤ stop)
    (hfull : ∀ key b, A.visitors.lookup key = some b → now key - b.last > cleanupInterval →
      A.burst ≤ b.tokens + (now key - b.last) * A.rate) :
    Shadows stop (cleanup A now) B where
  rate := h.rate
  burst := h.burst
  tracked key a ha := by
    rw [lookup_cleanup_eq] at ha
    exact h.tracked key a (Option.filter_eq_some_iff.mp ha).1
  forgotten key b ha hb := by
    rw [lookup_cleanup_eq] at ha
    cases hA : A.visitors.lookup key with
    | none =>
      have hlater := h.later ((hsince key).trans (hstop key))
      exact hlater.forgotten key b hA hb
    | some a =>
      rw [hA, Option.filter_eq_none_iff] at ha
      have hold : now key - a.last > cleanupInterval := by simpa [lt_sub_iff_add_lt] using ha a rfl
      have hgain := hfull key a hA hold
      obtain hsame | ⟨hnone, -⟩ := h.tracked key a hA
      · obtain rfl : a = b := Option.some.inj (hsame.symm.trans hb)
        have hlonger : (now key - a.last) * B.rate ≤ (stop - a.last) * B.rate := by
          have := hstop key
          gcongr
        rw [h.rate, h.burst] at hgain
        linarith
      · exact absurd (hnone.symm.trans hb) (by simp)

/-- A run in which only full buckets are forgotten. -/
theorem Shadows.run (h : Shadows since A B) (es : List Event) (htimed : Timed since es)
    (hforgiving : Forgiving A es) :
    List.Forall₂ (fun a b => a.2 = .passedOn → b.2 = .passedOn) (run A es).2
      (run B (withoutCleanup es)).2 := by
  induction es generalizing A B since with
  | nil => exact .nil
  | cons e es ih =>
    cases e with
    | request v =>
      obtain ⟨hcreated, htimed⟩ := htimed
      obtain ⟨hroom, hforgiving⟩ := hforgiving
      obtain ⟨hverdict, hnext⟩ := h.request hcreated hroom
      have hlater : since ≤ v.updated :=
        hcreated.trans (v.created_le.trans (v.checked_le.trans v.instant_le))
      exact .cons hverdict (ih (hnext.later hlater) htimed hforgiving)
    | cleanup now =>
      obtain ⟨hsince, stop, hstop, htimed⟩ := htimed
      obtain ⟨hfull, hforgiving⟩ := hforgiving
      exact ih (h.cleanup hsince hstop hfull) htimed hforgiving

theorem invisible_of_forgiving (rl : RateLimiter) (es : List Event) (htimed : Timed since es)
    (hforgiving : Forgiving rl es) : Invisible rl es :=
  (Shadows.refl since rl).run es htimed hforgiving

end

/-! ## Where nothing is forgotten too early -/

/-- A key that a table does not have leaves room for itself among the keys it can have. -/
theorem length_keys_lt {V : Type*} {t : AList fun _ : String => V} {expected : Finset String}
    {key : String} {bound : ℕ} (hsub : ∀ k, t.lookup k ≠ none → k ∈ expected)
    (hbound : expected.card ≤ bound) (hkey : key ∈ expected) (hnone : t.lookup key = none) :
    t.keys.length < bound := by
  have hnew : key ∉ t.keys := AList.lookup_eq_none.mp hnone
  have hnodup : (key :: t.keys).Nodup := List.nodup_cons.mpr ⟨hnew, t.keys_nodup⟩
  have hsubset : (key :: t.keys).toFinset ⊆ expected := by
    intro k hk
    rw [List.mem_toFinset, List.mem_cons] at hk
    obtain rfl | hk := hk
    · exact hkey
    · exact hsub k (mt AList.lookup_eq_none.mp (not_not.mpr hk))
  have hle := Finset.card_le_card hsubset
  rw [List.toFinset_card_of_nodup hnodup, List.length_cons] at hle
  omega

/-- Buckets belong to the expected clients and are never overdrawn. -/
def Sound (expected : Finset String) (since : ℚ) (rl : RateLimiter) : Prop :=
  ∀ key b, rl.visitors.lookup key = some b → key ∈ expected ∧ 0 ≤ b.tokens ∧ b.last ≤ since

section
variable {rl : RateLimiter} {v : Visit} {expected : Finset String} {since : ℚ}

theorem Sound.new (expected : Finset String) (since : ℚ) (rate burst : ℕ) :
    Sound expected since (newRateLimiter rate burst) := by
  intro key b h
  exact nomatch h

theorem Sound.later (h : Sound expected since rl) {now : ℚ} (hnow : since ≤ now) :
    Sound expected now rl := by
  intro key b hb
  obtain ⟨hkey, htokens, hlast⟩ := h key b hb
  exact ⟨hkey, htokens, hlast.trans hnow⟩

theorem Sound.put (h : Sound expected since rl) {k : String} (hk : k ∈ expected) {c : Visitor}
    (hc : 0 ≤ c.tokens) (hlast : c.last ≤ since) : Sound expected since (rl.put k c) := by
  intro key b hb
  rw [lookup_put_eq] at hb
  split_ifs at hb with hkey
  · obtain rfl := Option.some.inj hb
    exact ⟨hkey ▸ hk, hc, hlast⟩
  · exact h key b hb

theorem decideAt_nonneg {level : ℚ} (h : 0 ≤ level) : 0 ≤ (decideAt level).2 := by
  unfold decideAt
  split_ifs with htoken
  · exact h
  · exact sub_nonneg.mpr (not_lt.mp htoken)

theorem Sound.spend (h : Sound expected since rl) (hupdated : since ≤ v.updated)
    (hk : v.key ∈ expected) {b : Visitor} (hb : 0 ≤ b.tokens) (hlast : b.last ≤ v.checked) :
    Sound expected v.updated (spend rl v b).2 := by
  have hlevel : 0 ≤ b.level (rl.rate : ℚ) rl.burst v.checked := by
    have hgain : 0 ≤ (v.checked - b.last) * (rl.rate : ℚ) :=
      mul_nonneg (sub_nonneg.mpr hlast) (Nat.cast_nonneg _)
    unfold Bucket.level
    split_ifs
    · exact Nat.cast_nonneg _
    · exact add_nonneg hb hgain
  rw [spend_level]
  exact (h.later hupdated).put hk (decideAt_nonneg hlevel) le_rfl

theorem Sound.request (h : Sound expected since rl) (hcreated : since ≤ v.created)
    (hk : v.key ∈ expected) : Sound expected v.updated (middleware rl v).2 := by
  have hchecked : since ≤ v.checked := hcreated.trans v.created_le
  have hupdated : since ≤ v.updated := hchecked.trans (v.checked_le.trans v.instant_le)
  cases hlookup : rl.visitors.lookup v.key with
  | some b =>
    obtain ⟨-, htokens, hlast⟩ := h v.key b hlookup
    rw [middleware_tracked hlookup]
    exact h.spend hupdated hk htokens (hlast.trans hchecked)
  | none =>
    by_cases hroom : rl.visitors.keys.length < maxTrackedRateLimitVisitors
    · rw [middleware_new hlookup hroom]
      exact h.spend hupdated hk (Nat.cast_nonneg _) v.created_le
    · rw [middleware_untracked hlookup (not_lt.mp hroom)]
      exact h.later hupdated

theorem Sound.cleanup (h : Sound expected since rl) (now : String → ℚ) :
    Sound expected since (cleanup rl now) := by
  intro key b hb
  rw [lookup_cleanup_eq] at hb
  exact h key b (Option.filter_eq_some_iff.mp hb).1

theorem Sound.room (h : Sound expected since rl)
    (hcard : expected.card ≤ maxTrackedRateLimitVisitors) {key : String} (hkey : key ∈ expected)
    (hnone : rl.visitors.lookup key = none) :
    rl.visitors.keys.length < maxTrackedRateLimitVisitors := by
  refine length_keys_lt (fun k hk => ?_) hcard hkey hnone
  obtain ⟨b, hb⟩ := Option.ne_none_iff_exists'.mp hk
  exact (h k b hb).1

/-- With few clients, and a burst that refills within the interval, a tick deletes full
buckets only. -/
theorem Sound.forgiving (h : Sound expected since rl)
    (hburst : (rl.burst : ℚ) ≤ cleanupInterval * rl.rate)
    (hcard : expected.card ≤ maxTrackedRateLimitVisitors) (es : List Event) (htimed : Timed since es)
    (hclients : clients es ⊆ expected) : Forgiving rl es := by
  induction es generalizing rl since with
  | nil => trivial
  | cons e es ih =>
    cases e with
    | request v =>
      obtain ⟨hcreated, htimed⟩ := htimed
      obtain ⟨hkey, hclients⟩ := Finset.insert_subset_iff.mp hclients
      obtain ⟨hrate', hburst'⟩ := middleware_config rl v
      have hsame : ((middleware rl v).2.burst : ℚ) ≤ cleanupInterval * (middleware rl v).2.rate := by
        rw [hrate', hburst']
        exact hburst
      exact ⟨h.room hcard hkey, ih (h.request hcreated hkey) hsame htimed hclients⟩
    | cleanup now =>
      obtain ⟨hsince, stop, hstop, htimed⟩ := htimed
      have hlater : since ≤ stop := (hsince "").trans (hstop "")
      refine ⟨fun key b hb hold => ?_,
        ih ((h.cleanup now).later hlater) hburst htimed hclients⟩
      have htokens := (h key b hb).2.1
      calc (rl.burst : ℚ) ≤ cleanupInterval * rl.rate := hburst
        _ ≤ (now key - b.last) * rl.rate := by gcongr
        _ ≤ b.tokens + (now key - b.last) * rl.rate := le_add_of_nonneg_left htokens

/-- What a run leaves. -/
theorem Sound.run (h : Sound expected since rl) (es : List Event) (htimed : Timed since es)
    (hclients : clients es ⊆ expected) : ∃ since', Sound expected since' (run rl es).1 := by
  induction es generalizing rl since with
  | nil => exact ⟨since, h⟩
  | cons e es ih =>
    cases e with
    | request v =>
      obtain ⟨hcreated, htimed⟩ := htimed
      obtain ⟨hkey, hclients⟩ := Finset.insert_subset_iff.mp hclients
      exact ih (h.request hcreated hkey) htimed hclients
    | cleanup now =>
      obtain ⟨hsince, stop, hstop, htimed⟩ := htimed
      exact ih ((h.cleanup now).later ((hsince "").trans (hstop ""))) htimed hclients

end

/-! ## Bursts and crowds -/

theorem run_append (rl : RateLimiter) (es fs : List Event) :
    run rl (es ++ fs) = ((run (run rl es).1 fs).1, (run rl es).2 ++ (run (run rl es).1 fs).2) := by
  induction es generalizing rl with
  | nil => rfl
  | cons e es ih =>
    cases e with
    | request v =>
      simp only [List.cons_append, run, ih]
    | cleanup now => exact ih (RateLimit.cleanup rl now)

/-- One request of each client of a list, at one instant. -/
def crowd (cs : List String) (now : ℚ) : List Event :=
  cs.map fun client => .request (visitAt client now)

/-- So many requests of one client at one instant. -/
def volley (client : String) (now : ℚ) (n : ℕ) : List Event := crowd (List.replicate n client) now

def tick (now : ℚ) : Event := .cleanup fun _ => now

theorem visitAt_key {client : String} (h : client ≠ "") (now : ℚ) :
    (visitAt client now).key = client := if_pos h

/-- What a client can have at an instant, if it is counted or can be. -/
def Available (rl : RateLimiter) (client : String) (now level : ℚ) : Prop :=
  match rl.visitors.lookup client with
  | some b => b.level (rl.rate : ℚ) rl.burst now = level
  | none => rl.visitors.keys.length < maxTrackedRateLimitVisitors ∧ level = rl.burst

section
variable {rl : RateLimiter} {client : String} {now level since : ℚ}

theorem Available.le_burst (h : Available rl client now level) : level ≤ rl.burst := by
  unfold Available at h
  split at h
  · rw [← h]
    exact Bucket.level_le_burst
  · exact h.2.le

theorem Available.middleware (h : Available rl client now level) (hclient : client ≠ "") :
    middleware rl (visitAt client now) =
      ((decideAt level).1, rl.put client ⟨(decideAt level).2, now⟩) := by
  have hkey := visitAt_key hclient now
  unfold Available at h
  cases hlookup : rl.visitors.lookup client with
  | some b =>
    rw [hlookup] at h
    rw [middleware_tracked (hkey.symm ▸ hlookup), spend_level, hkey, ← h]
    rfl
  | none =>
    rw [hlookup] at h
    obtain ⟨hroom, rfl⟩ := h
    have hlevel : (⟨rl.burst, now⟩ : Visitor).level (rl.rate : ℚ) rl.burst now = rl.burst :=
      level_new le_rfl
    rw [middleware_new (hkey.symm ▸ hlookup) hroom, spend_level, hkey]
    simp only [visitAt, hlevel]

theorem Available.of_lookup {b : Visitor} (h : rl.visitors.lookup client = some b)
    (hlevel : b.level (rl.rate : ℚ) rl.burst now = level) : Available rl client now level := by
  simp only [Available, h, hlevel]

/-- A bucket at the reading it was left at. -/
theorem Available.of_last (h : rl.visitors.lookup client = some ⟨level, now⟩)
    (hle : level ≤ rl.burst) : Available rl client now level := by
  refine .of_lookup h ?_
  have hnone : ¬((rl.burst : ℚ) < level + (now - now) * rl.rate) := by
    rw [sub_self, zero_mul, add_zero]
    exact not_lt.mpr hle
  change Bucket.level (rl.rate : ℚ) rl.burst ⟨level, now⟩ now = level
  rw [Bucket.level, if_neg hnone]
  simp

/-- A client can take what it has, one by one. -/
theorem Available.volley (h : Available rl client now level) (hclient : client ≠ "") (n : ℕ)
    (hn : ((n + 1 : ℕ) : ℚ) ≤ level) :
    (run rl (volley client now (n + 1))).1.visitors.lookup client =
      some ⟨level - (n + 1 : ℕ), now⟩ := by
  induction n generalizing rl level with
  | zero =>
    have htoken : ¬level < 1 := not_lt.mpr (by simpa using hn)
    simp only [RateLimit.volley, crowd, List.replicate_succ, List.replicate_zero, List.map_cons,
      List.map_nil, run, h.middleware hclient, lookup_put, decideAt, if_neg htoken]
    simp
  | succ n ih =>
    have htoken : ¬level < 1 := by
      push_cast at hn
      have hpos : (0 : ℚ) ≤ n := Nat.cast_nonneg _
      linarith
    have hnext : Available (rl.put client ⟨level - 1, now⟩) client now (level - 1) :=
      .of_last (lookup_put rl client _) (by have := h.le_burst; exact (sub_le_self _ zero_le_one).trans this)
    have hrest := ih hnext (by push_cast at hn ⊢; linarith)
    have hfirst : (run rl (RateLimit.volley client now (n + 1 + 1))).1 =
        (run (rl.put client ⟨level - 1, now⟩) (RateLimit.volley client now (n + 1))).1 := by
      rw [RateLimit.volley, List.replicate_succ, crowd, List.map_cons, run]
      simp only [h.middleware hclient, decideAt, if_neg htoken]
      rfl
    rw [hfirst, hrest]
    push_cast
    ring_nf

theorem Available.spent (h : Available rl client now level) (hclient : client ≠ "") (n : ℕ)
    (hn : (n : ℚ) ≤ level) :
    Available (run rl (RateLimit.volley client now n)).1 client now (level - n) := by
  cases n with
  | zero =>
    rw [Nat.cast_zero, sub_zero]
    exact h
  | succ n =>
    refine .of_last (h.volley hclient n hn) ?_
    rw [(run_config _ _).2]
    exact (sub_le_self _ (Nat.cast_nonneg _)).trans h.le_burst

theorem run_volley_untracked (hclient : client ≠ "") (hnone : rl.visitors.lookup client = none)
    (hfull : maxTrackedRateLimitVisitors ≤ rl.visitors.keys.length) (n : ℕ) :
    (run rl (volley client now n)).1 = rl := by
  have hkey := visitAt_key hclient now
  induction n with
  | zero => rfl
  | succ n ih =>
    rw [volley, List.replicate_succ, crowd, List.map_cons, run]
    simp only [middleware_untracked (hkey.symm ▸ hnone) hfull]
    exact ih

/-- Nobody counts what a client sends that the table has no room for. -/
theorem middleware_volley_untracked (hclient : client ≠ "")
    (hnone : rl.visitors.lookup client = none)
    (hfull : maxTrackedRateLimitVisitors ≤ rl.visitors.keys.length) (n : ℕ) :
    (middleware (run rl (volley client now n)).1 (visitAt client now)).1 = .passedOn := by
  have hkey := visitAt_key hclient now
  rw [run_volley_untracked hclient hnone hfull, middleware_untracked (hkey.symm ▸ hnone) hfull]

/-- Requests of others leave a bucket alone. -/
theorem run_crowd_other (cs : List String) {key : String} (hkey : key ∉ cs)
    (hcs : ∀ c ∈ cs, c ≠ "") :
    (run rl (crowd cs now)).1.visitors.lookup key = rl.visitors.lookup key := by
  induction cs generalizing rl with
  | nil => rfl
  | cons c cs ih =>
    rw [List.mem_cons, not_or] at hkey
    obtain ⟨hkc, hkcs⟩ := hkey
    have hc := hcs c (List.mem_cons_self ..)
    have hne : (visitAt c now).key ≠ key := by
      rw [visitAt_key hc]
      exact Ne.symm hkc
    rw [crowd, List.map_cons, run]
    exact (ih hkcs fun d hd => hcs d (List.mem_cons_of_mem c hd)).trans (lookup_middleware_ne hne)

/-- New clients take room, as long as there is some. -/
theorem length_run_crowd (cs : List String) (hnodup : cs.Nodup)
    (hnew : ∀ c ∈ cs, c ≠ "" ∧ rl.visitors.lookup c = none)
    (hroom : rl.visitors.keys.length + cs.length ≤ maxTrackedRateLimitVisitors) :
    (run rl (crowd cs now)).1.visitors.keys.length = rl.visitors.keys.length + cs.length := by
  induction cs generalizing rl with
  | nil => rfl
  | cons c cs ih =>
    obtain ⟨hc, hnodup⟩ := List.nodup_cons.mp hnodup
    obtain ⟨hcne, hcnew⟩ := hnew c (List.mem_cons_self ..)
    rw [List.length_cons] at hroom ⊢
    have havailable : Available rl c now rl.burst := by
      simp only [Available, hcnew, and_true]
      omega
    set rest := rl.put c ⟨(decideAt rl.burst).2, now⟩ with hrest
    have hfirst : (run rl (crowd (c :: cs) now)).1 = (run rest (crowd cs now)).1 := by
      rw [crowd, List.map_cons, run]
      simp only [havailable.middleware hcne]
      rfl
    have hlength : rest.visitors.keys.length = rl.visitors.keys.length + 1 :=
      length_put_of_new hcnew _
    have hnew' : ∀ d ∈ cs, d ≠ "" ∧ rest.visitors.lookup d = none := by
      intro d hd
      obtain ⟨hdne, hdnew⟩ := hnew d (List.mem_cons_of_mem c hd)
      rw [hrest, lookup_put_eq, if_neg (ne_of_mem_of_not_mem hd hc)]
      exact ⟨hdne, hdnew⟩
    rw [hfirst, ih hnodup hnew' (by omega), hlength]
    omega

/-- Enough new clients leave no room for another one. -/
theorem untracked_of_crowd (cs : List String) (hnodup : cs.Nodup)
    (hnew : ∀ c ∈ cs, c ≠ "" ∧ rl.visitors.lookup c = none)
    (hlen : rl.visitors.keys.length + cs.length = maxTrackedRateLimitVisitors)
    (hclient : client ∉ cs) (hnone : rl.visitors.lookup client = none) :
    (run rl (crowd cs now)).1.visitors.lookup client = none ∧
      maxTrackedRateLimitVisitors ≤ (run rl (crowd cs now)).1.visitors.keys.length := by
  constructor
  · rw [run_crowd_other cs hclient fun c hc => (hnew c hc).1]
    exact hnone
  · rw [length_run_crowd cs hnodup hnew hlen.le, hlen]

end

theorem Timed.mono {es : List Event} {since now : ℚ} (h : Timed now es) (hnow : since ≤ now) :
    Timed since es := by
  cases es with
  | nil => trivial
  | cons e es =>
    cases e with
    | request v => exact ⟨hnow.trans h.1, h.2⟩
    | cleanup reading => exact ⟨fun key => hnow.trans (h.1 key), h.2⟩

theorem Timed.crowd {es : List Event} {since now : ℚ} (h : Timed now es) (hnow : since ≤ now)
    (cs : List String) : Timed since (crowd cs now ++ es) := by
  induction cs generalizing since with
  | nil => exact h.mono hnow
  | cons c cs ih => exact ⟨hnow, ih le_rfl⟩

theorem Timed.tick {es : List Event} {since now : ℚ} (h : Timed now es) (hnow : since ≤ now) :
    Timed since (tick now :: es) := ⟨fun _ => hnow, now, fun _ => le_rfl, h⟩

theorem clients_append (es fs : List Event) : clients (es ++ fs) = clients es ∪ clients fs := by
  induction es with
  | nil => exact (Finset.empty_union _).symm
  | cons e es ih =>
    cases e with
    | request v => rw [List.cons_append, clients, clients, ih, Finset.insert_union]
    | cleanup now => exact ih

theorem clients_crowd {cs : List String} (hcs : ∀ c ∈ cs, c ≠ "") (now : ℚ) :
    clients (crowd cs now) = cs.toFinset := by
  induction cs with
  | nil => rfl
  | cons c cs ih =>
    have hrest := ih fun d hd => hcs d (List.mem_cons_of_mem c hd)
    rw [crowd, List.map_cons, clients, visitAt_key (hcs c (List.mem_cons_self ..)),
      List.toFinset_cons, ← hrest, crowd]

theorem clients_volley {client : String} (h : client ≠ "") (now : ℚ) (n : ℕ) :
    clients (volley client now n) ⊆ {client} := by
  rw [volley, clients_crowd fun c hc => List.eq_of_mem_replicate hc ▸ h]
  intro c hc
  exact Finset.mem_singleton.mpr (List.eq_of_mem_replicate (List.mem_toFinset.mp hc))

/-- The last request of a run is refused without the cleanup. -/
theorem not_invisible_of_last {rl : RateLimiter} {es : List Event} {v : Visit}
    (hpassed : (middleware (run rl es).1 v).1 = .passedOn)
    (hrefused : (middleware (run rl (withoutCleanup es)).1 v).1 ≠ .passedOn) :
    ¬Invisible rl (es ++ [Event.request v]) := by
  intro h
  have hfilter : withoutCleanup (es ++ [Event.request v]) = withoutCleanup es ++ [Event.request v] := by
    rw [withoutCleanup, List.filter_append]
    rfl
  rw [Invisible, hfilter, run_append, run_append, ← List.forall₂_reverse_iff, List.reverse_append,
    List.reverse_append] at h
  cases h with
  | cons hlast _ => exact hrefused (hlast hpassed)

/-! ## The two ways to see the cleanup -/

/-- Addresses from 10.0.0.0 on. -/
def address (i : ℕ) : String := ipString (mapped (BitVec.ofNat 32 (10 * 2 ^ 24 + i)))

theorem address_ne_empty (i : ℕ) : address i ≠ "" := ClientIP.ipString_ne_empty _

theorem address_inj {i j : ℕ} (hi : i < 2 ^ 24) (hj : j < 2 ^ 24) (h : address i = address j) :
    i = j := by
  have hbits := congrArg to4 (ipString_injective h)
  rw [to4_mapped, to4_mapped, Option.some.injEq] at hbits
  have hnat := congrArg BitVec.toNat hbits
  rw [BitVec.toNat_ofNat, BitVec.toNat_ofNat] at hnat
  omega

def firstTick : ℚ := cleanupInterval

def secondTick : ℚ := 2 * cleanupInterval

/-- The first client takes the whole burst just before a tick; the next tick finds that
its bucket is old. -/
def drained (before : ℚ) (burst : ℕ) : List Event :=
  volley (address 0) before burst ++ [tick firstTick, tick secondTick]

section
variable {rate burst taken : ℕ} {before : ℚ}

theorem ticks : firstTick = 300 ∧ secondTick = 600 ∧ cleanupInterval = 300 := by
  norm_num [firstTick, secondTick, cleanupInterval]

theorem run_ticks (rl : RateLimiter) : (run rl [tick firstTick, tick secondTick]).1 =
    cleanup (cleanup rl fun _ => firstTick) fun _ => secondTick := rfl

theorem timed_drained (hbefore : 0 ≤ before) (htick : before ≤ firstTick) (taken : ℕ)
    {es : List Event} (h : Timed secondTick es) : Timed 0 (drained before taken ++ es) := by
  have hticks : firstTick ≤ secondTick := by norm_num [ticks]
  rw [drained, volley, List.append_assoc]
  exact ((h.tick hticks).tick htick).crowd hbefore _

theorem withoutCleanup_crowd (cs : List String) (now : ℚ) :
    withoutCleanup (crowd cs now) = crowd cs now := by
  refine List.filter_eq_self.mpr fun e he => ?_
  obtain ⟨c, -, rfl⟩ := List.mem_map.mp he
  rfl

theorem withoutCleanup_drained (before : ℚ) (taken : ℕ) :
    withoutCleanup (drained before taken) = volley (address 0) before taken := by
  rw [drained, withoutCleanup, List.filter_append, ← withoutCleanup, ← withoutCleanup, volley,
    withoutCleanup_crowd]
  exact List.append_nil _

theorem clients_drained (before : ℚ) (taken : ℕ) : clients (drained before taken) ⊆ {address 0} := by
  rw [drained, clients_append]
  exact Finset.union_subset (clients_volley (address_ne_empty 0) _ _) (Finset.empty_subset _)

/-- What the first client is left with, before the ticks. -/
theorem lookup_volley_new (htaken : taken + 1 ≤ burst) :
    (run (newRateLimiter rate burst) (volley (address 0) before (taken + 1))).1.visitors.lookup
      (address 0) = some ⟨burst - (taken + 1 : ℕ), before⟩ := by
  have hnew : Available (newRateLimiter rate burst) (address 0) before burst :=
    ⟨Nat.succ_pos _, rfl⟩
  exact hnew.volley (address_ne_empty 0) taken (by exact_mod_cast htaken)

/-- The ticks leave an empty table. -/
theorem lookup_drained (hbefore : 0 ≤ before) (htick : before < firstTick)
    (htaken : taken + 1 ≤ burst) (key : String) :
    (run (newRateLimiter rate burst) (drained before (taken + 1))).1.visitors.lookup key = none := by
  have htimed : Timed 0 (drained before (taken + 1) ++ []) :=
    timed_drained hbefore htick.le (taken + 1) trivial
  rw [List.append_nil] at htimed
  obtain ⟨since, hsound⟩ :=
    (Sound.new {address 0} 0 rate burst).run _ htimed (clients_drained _ _)
  by_cases hkey : key = address 0
  · rw [hkey, drained, run_append, run_ticks, lookup_cleanup_eq, lookup_cleanup_eq,
      lookup_volley_new htaken, Option.filter_eq_none_iff]
    intro b hb
    obtain ⟨hsome, -⟩ := Option.filter_eq_some_iff.mp hb
    obtain rfl := Option.some.inj hsome
    have hold : secondTick - before > cleanupInterval := by
      rw [ticks.1] at htick
      rw [ticks.2.1, ticks.2.2]
      linarith
    simp only [hold, not_true_eq_false, decide_false, Bool.false_eq_true, not_false_eq_true]
  · by_contra hne
    obtain ⟨b, hb⟩ := Option.ne_none_iff_exists'.mp hne
    exact hkey (Finset.mem_singleton.mp (hsound key b hb).1)

theorem length_drained (hbefore : 0 ≤ before) (htick : before < firstTick)
    (htaken : taken + 1 ≤ burst) :
    (run (newRateLimiter rate burst) (drained before (taken + 1))).1.visitors.keys.length = 0 := by
  rw [List.length_eq_zero_iff, List.eq_nil_iff_forall_not_mem]
  intro key
  exact AList.lookup_eq_none.mp (lookup_drained hbefore htick htaken key)

/-- So the first client is new again. -/
theorem available_drained (hbefore : 0 ≤ before) (htick : before < firstTick)
    (htaken : taken + 1 ≤ burst) (now : ℚ) :
    Available (run (newRateLimiter rate burst) (drained before (taken + 1))).1 (address 0) now
      burst := by
  rw [Available, lookup_drained hbefore htick htaken, length_drained hbefore htick htaken]
  refine ⟨Nat.succ_pos _, ?_⟩
  rw [(run_config (newRateLimiter rate burst) _).2]
  rfl

end

/-! ### A burst that takes longer than the interval -/

/-- Half a token before the first tick. -/
def slowRefillStart (rate : ℕ) : ℚ := firstTick - 1 / (2 * rate)

/-- At the second tick the first client takes what it has been owed by then. -/
def slowRefill (rate burst : ℕ) : List Event :=
  drained (slowRefillStart rate) burst ++ volley (address 0) secondTick (300 * rate)

theorem slowRefillStart_mem {rate : ℕ} (hrate : 1 ≤ rate) :
    0 ≤ slowRefillStart rate ∧ slowRefillStart rate < firstTick := by
  have hpos : (1 : ℚ) ≤ rate := by exact_mod_cast hrate
  have hhalf : (1 : ℚ) / (2 * rate) ≤ 1 := by
    rw [div_le_one (by linarith)]
    linarith
  have hgap : (0 : ℚ) < 1 / (2 * rate) := by positivity
  rw [slowRefillStart, ticks.1]
  constructor <;> linarith

/-- What the bucket has regained at the second tick. -/
theorem slowRefill_gain {rate : ℕ} (hrate : 1 ≤ rate) :
    (secondTick - slowRefillStart rate) * rate = 300 * rate + 1 / 2 := by
  have hpos : (rate : ℚ) ≠ 0 := by positivity
  rw [slowRefillStart, ticks.1, ticks.2.1]
  field_simp
  ring

theorem run_burst {rate burst : ℕ} (es : List Event) :
    (run (newRateLimiter rate burst) es).1.burst = burst :=
  (run_config (newRateLimiter rate burst) es).2

theorem withoutCleanup_slowRefill (rate burst : ℕ) : withoutCleanup (slowRefill rate burst) =
    volley (address 0) (slowRefillStart rate) burst ++
      volley (address 0) secondTick (300 * rate) := by
  rw [slowRefill, withoutCleanup, List.filter_append, ← withoutCleanup, ← withoutCleanup,
    withoutCleanup_drained]
  congr 1
  exact withoutCleanup_crowd _ _

/-- Without the cleanup the first client has what its bucket has regained. -/
theorem available_slowRefill {rate burst : ℕ} (hrate : 1 ≤ rate) (hburst : 300 * rate + 1 ≤ burst) :
    Available (run (newRateLimiter rate burst) (volley (address 0) (slowRefillStart rate) burst)).1
      (address 0) secondTick (300 * rate + 1 / 2) := by
  obtain ⟨m, rfl⟩ := Nat.exists_eq_add_of_le' (show 1 ≤ burst by omega)
  have hdrained : (run (newRateLimiter rate (m + 1)) (volley (address 0) (slowRefillStart rate)
      (m + 1))).1.visitors.lookup (address 0) = some ⟨_, _⟩ := lookup_volley_new le_rfl
  refine .of_lookup hdrained ?_
  have hgain := slowRefill_gain hrate
  have hmore : (300 * rate + 1 : ℚ) ≤ (m + 1 : ℕ) := by exact_mod_cast hburst
  rw [run_burst, (run_config _ _).1]
  unfold Bucket.level
  dsimp only
  rw [sub_self, zero_add]
  change (if _ < (secondTick - slowRefillStart rate) * (rate : ℚ) then _ else
    (secondTick - slowRefillStart rate) * (rate : ℚ)) = _
  rw [hgain, if_neg (by linarith)]

/-- One token more than the bucket has regained. -/
theorem slowRefill_visible {rate burst : ℕ} (hrate : 1 ≤ rate)
    (hburst : cleanupInterval * rate < burst) :
    ¬Invisible (newRateLimiter rate burst)
      (slowRefill rate burst ++ [Event.request (visitAt (address 0) secondTick)]) := by
  obtain ⟨hstart, htick⟩ := slowRefillStart_mem hrate
  have hk := address_ne_empty 0
  have hmore : 300 * rate + 1 ≤ burst := by
    rw [ticks.2.2] at hburst
    exact_mod_cast hburst
  have hmoreℚ : (300 * rate + 1 : ℚ) ≤ burst := by exact_mod_cast hmore
  have htaken : ((300 * rate : ℕ) : ℚ) = 300 * rate := by push_cast; rfl
  apply not_invisible_of_last
  · obtain ⟨m, rfl⟩ := Nat.exists_eq_add_of_le' (show 1 ≤ burst by omega)
    have hnew : Available (run (newRateLimiter rate (m + 1)) (drained (slowRefillStart rate)
        (m + 1))).1 (address 0) secondTick ↑(m + 1) :=
      available_drained hstart htick le_rfl secondTick
    have hleft := hnew.spent hk (300 * rate) (by linarith)
    have htoken : ¬((m + 1 : ℕ) - (300 * rate : ℕ) : ℚ) < 1 := by linarith
    rw [slowRefill, run_append, hleft.middleware hk, decideAt, if_neg htoken]
  · have hleft := (available_slowRefill hrate hmore).spent hk (300 * rate) (by linarith)
    have htoken : (300 * rate + 1 / 2 - (300 * rate : ℕ) : ℚ) < 1 := by linarith
    rw [withoutCleanup_slowRefill, run_append, hleft.middleware hk, decideAt, if_pos htoken]
    exact nofun

/-! ### A table that fills up -/

/-- A second before the first tick. -/
def crowdedStart : ℚ := firstTick - 1

/-- After the first client has been forgotten, others take the room. -/
def crowded (cs : List String) : List Event := drained crowdedStart 1 ++ crowd cs secondTick

theorem crowdedStart_mem : 0 ≤ crowdedStart ∧ crowdedStart < firstTick := by
  rw [crowdedStart, ticks.1]
  norm_num

theorem withoutCleanup_crowded (cs : List String) : withoutCleanup (crowded cs) =
    volley (address 0) crowdedStart 1 ++ crowd cs secondTick := by
  rw [crowded, withoutCleanup, List.filter_append, ← withoutCleanup, ← withoutCleanup,
    withoutCleanup_drained, withoutCleanup_crowd]

section
variable {rate burst : ℕ} {cs : List String}

/-- The table is full, and the first client is not in it. -/
theorem run_crowded (hburst : 1 ≤ burst) (hnodup : cs.Nodup) (hcs : ∀ c ∈ cs, c ≠ "")
    (hfirst : address 0 ∉ cs) (hlen : cs.length = maxTrackedRateLimitVisitors) :
    (run (newRateLimiter rate burst) (crowded cs)).1.visitors.lookup (address 0) = none ∧
      maxTrackedRateLimitVisitors ≤
        (run (newRateLimiter rate burst) (crowded cs)).1.visitors.keys.length := by
  obtain ⟨hstart, htick⟩ := crowdedStart_mem
  have hempty : ∀ key, (run (newRateLimiter rate burst)
      (drained crowdedStart (0 + 1))).1.visitors.lookup key = none :=
    lookup_drained hstart htick hburst
  have hlength : (run (newRateLimiter rate burst)
      (drained crowdedStart (0 + 1))).1.visitors.keys.length = 0 :=
    length_drained hstart htick hburst
  rw [zero_add] at hempty hlength
  rw [crowded, run_append]
  exact untracked_of_crowd cs hnodup (fun c hc => ⟨hcs c hc, hempty c⟩)
    (by rw [hlength, hlen, zero_add]) hfirst (hempty _)

/-- Without the cleanup the first client has its bucket, which has filled up. -/
theorem available_crowded (hrate : 1 ≤ rate) (hburst : 1 ≤ burst) (hcs : ∀ c ∈ cs, c ≠ "")
    (hfirst : address 0 ∉ cs) : Available (run (newRateLimiter rate burst)
      (withoutCleanup (crowded cs))).1 (address 0) secondTick burst := by
  have hone : (run (newRateLimiter rate burst) (volley (address 0) crowdedStart
      (0 + 1))).1.visitors.lookup (address 0) = some ⟨_, _⟩ := lookup_volley_new hburst
  have hkept : (run (run (newRateLimiter rate burst) (volley (address 0) crowdedStart (0 + 1))).1
      (crowd cs secondTick)).1.visitors.lookup (address 0) = some ⟨_, _⟩ :=
    (run_crowd_other cs hfirst hcs).trans hone
  rw [withoutCleanup_crowded, run_append]
  refine .of_lookup hkept ?_
  have hrateℚ : (1 : ℚ) ≤ rate := by exact_mod_cast hrate
  rw [(run_config _ _).2, (run_config _ _).1, run_burst, (run_config _ _).1]
  refine level_of_full ?_ le_rfl
  change (burst : ℚ) ≤ burst - (0 + 1 : ℕ) + (secondTick - crowdedStart) * rate
  rw [crowdedStart, ticks.1, ticks.2.1]
  push_cast
  linarith

theorem crowded_visible (hrate : 1 ≤ rate) (hburst : 1 ≤ burst) (hnodup : cs.Nodup)
    (hcs : ∀ c ∈ cs, c ≠ "") (hfirst : address 0 ∉ cs)
    (hlen : cs.length = maxTrackedRateLimitVisitors) :
    ¬Invisible (newRateLimiter rate burst) (crowded cs ++ volley (address 0) secondTick burst ++
      [Event.request (visitAt (address 0) secondTick)]) := by
  have hk := address_ne_empty 0
  apply not_invisible_of_last
  · obtain ⟨hnone, hfull⟩ := @run_crowded rate burst cs hburst hnodup hcs hfirst hlen
    rw [run_append]
    exact middleware_volley_untracked hk hnone hfull burst
  · have hleft := (available_crowded hrate hburst hcs hfirst).spent hk burst le_rfl
    rw [withoutCleanup, List.filter_append, ← withoutCleanup, ← withoutCleanup, volley,
      withoutCleanup_crowd, ← volley, run_append, hleft.middleware hk, sub_self, decideAt,
      if_pos zero_lt_one]
    exact nofun

end

/-- Enough clients to fill the table, none of them the first one. -/
def others : List String := (List.range maxTrackedRateLimitVisitors).map fun i => address (i + 1)

theorem others_ne_empty : ∀ c ∈ others, c ≠ "" := by
  intro c hc
  obtain ⟨i, -, rfl⟩ := List.mem_map.mp hc
  exact address_ne_empty _

theorem others_lt {i : ℕ} (h : i ∈ List.range maxTrackedRateLimitVisitors) : i + 1 < 2 ^ 24 := by
  have hlt := List.mem_range.mp h
  unfold maxTrackedRateLimitVisitors at hlt
  omega

theorem others_nodup : others.Nodup := by
  refine List.Nodup.map_on (fun i hi j hj h => ?_) List.nodup_range
  exact Nat.succ_injective (address_inj (others_lt hi) (others_lt hj) h)

theorem address_zero_not_mem : address 0 ∉ others := by
  intro h
  obtain ⟨i, hi, heq⟩ := List.mem_map.mp h
  exact absurd (address_inj (others_lt hi) (by norm_num) heq) (Nat.succ_ne_zero i)

theorem length_others : others.length = maxTrackedRateLimitVisitors := by
  rw [others, List.length_map, List.length_range]

theorem timed_crowd_last (cs : List String) (now : ℚ) (client : String) :
    Timed now (crowd cs now ++ [Event.request (visitAt client now)]) := by
  have hlast : Timed now [Event.request (visitAt client now)] := ⟨le_rfl, trivial⟩
  exact hlast.crowd le_rfl cs

theorem timed_slowRefill {rate burst : ℕ} (hrate : 1 ≤ rate) :
    Timed 0 (slowRefill rate burst ++ [Event.request (visitAt (address 0) secondTick)]) := by
  obtain ⟨hstart, htick⟩ := slowRefillStart_mem hrate
  rw [slowRefill, List.append_assoc]
  exact timed_drained hstart htick.le burst (timed_crowd_last _ secondTick _)

theorem clients_slowRefill (rate burst : ℕ) :
    (clients (slowRefill rate burst ++ [Event.request (visitAt (address 0) secondTick)])).card ≤ 1 := by
  have hsub : clients (slowRefill rate burst ++ [Event.request (visitAt (address 0) secondTick)]) ⊆
      {address 0} := by
    rw [slowRefill, clients_append, clients_append]
    exact Finset.union_subset (Finset.union_subset (clients_drained _ _)
      (clients_volley (address_ne_empty 0) _ _)) (clients_volley (address_ne_empty 0) secondTick 1)
  exact Finset.card_le_card hsub

theorem timed_crowded (cs : List String) (burst : ℕ) :
    Timed 0 (crowded cs ++ volley (address 0) secondTick burst ++
      [Event.request (visitAt (address 0) secondTick)]) := by
  obtain ⟨hstart, htick⟩ := crowdedStart_mem
  rw [crowded, List.append_assoc, List.append_assoc]
  exact timed_drained hstart htick.le 1
    ((timed_crowd_last _ secondTick _).crowd le_rfl cs)

theorem clients_crowded {cs : List String} (hcs : ∀ c ∈ cs, c ≠ "") (burst : ℕ) :
    (clients (crowded cs ++ volley (address 0) secondTick burst ++
      [Event.request (visitAt (address 0) secondTick)])).card ≤ cs.length + 1 := by
  have hk := address_ne_empty 0
  have hsub : clients (crowded cs ++ volley (address 0) secondTick burst ++
      [Event.request (visitAt (address 0) secondTick)]) ⊆ insert (address 0) cs.toFinset := by
    have hone := Finset.singleton_subset_iff.mpr (Finset.mem_insert_self (address 0) cs.toFinset)
    rw [crowded, clients_append, clients_append, clients_append, clients_crowd hcs]
    exact Finset.union_subset (Finset.union_subset (Finset.union_subset
      ((clients_drained _ _).trans hone) (Finset.subset_insert _ _))
      ((clients_volley hk _ _).trans hone)) ((clients_volley hk secondTick 1).trans hone)
  calc _ ≤ (insert (address 0) cs.toFinset).card := Finset.card_le_card hsub
    _ ≤ cs.toFinset.card + 1 := Finset.card_insert_le _ _
    _ ≤ cs.length + 1 := Nat.succ_le_succ (List.toFinset_card_le cs)

/-- For every rate and burst and every number of clients: whatever so many clients send,
the cleanup is invisible exactly when the burst refills within the interval and the table
has room for all of them. And in every run in which new clients find room and only full
buckets are deleted it is invisible. -/
theorem cleanup_invisible_iff (rate burst n : ℕ) (hrate : 1 ≤ rate) (hburst : 1 ≤ burst)
    (hn : 1 ≤ n) :
    ((∀ since es, Timed since es → (clients es).card ≤ n →
        Invisible (newRateLimiter rate burst) es) ↔
      (burst : ℚ) ≤ cleanupInterval * rate ∧ n ≤ maxTrackedRateLimitVisitors) ∧
    ∀ since es, Timed since es → Forgiving (newRateLimiter rate burst) es →
      Invisible (newRateLimiter rate burst) es := by
  refine ⟨⟨fun h => ⟨?_, ?_⟩, ?_⟩, fun since es => invisible_of_forgiving _ es⟩
  · by_contra hslow
    exact slowRefill_visible hrate (not_le.mp hslow)
      (h 0 _ (timed_slowRefill hrate) ((clients_slowRefill rate burst).trans hn))
  · by_contra hmany
    have hcard := clients_crowded others_ne_empty burst
    rw [length_others] at hcard
    exact crowded_visible hrate hburst others_nodup others_ne_empty address_zero_not_mem
      length_others (h 0 _ (timed_crowded others burst) (hcard.trans (not_le.mp hmany)))
  · intro ⟨hrefill, hroom⟩ since es htimed hcard
    have hsound := Sound.new (clients es) since rate burst
    have hforgiving := hsound.forgiving hrefill (hcard.trans hroom) es htimed (le_refl _)
    exact invisible_of_forgiving _ es htimed hforgiving

/-- The default configuration; the tick deletes a full bucket. -/
theorem cleanup_invisible_default :
    Invisible (newRateLimiter 100 200)
      (volley "10.0.0.1" 0 2 ++ tick (cleanupInterval + 1) :: volley "10.0.0.1" 302 2) := by
  have hrefill : ((200 : ℕ) : ℚ) ≤ cleanupInterval * (100 : ℕ) ∧ 1 ≤ maxTrackedRateLimitVisitors := by
    norm_num [cleanupInterval, maxTrackedRateLimitVisitors]
  refine (cleanup_invisible_iff 100 200 1 (by decide) (by decide) le_rfl).1.mpr hrefill 0 _ ?_ ?_
  · have hend : Timed (302 : ℚ) [] := trivial
    have hlater := hend.crowd (show cleanupInterval + 1 ≤ 302 by norm_num [cleanupInterval])
      (List.replicate 2 "10.0.0.1")
    rw [List.append_nil] at hlater
    exact (hlater.tick (by norm_num [cleanupInterval])).crowd le_rfl _
  · decide +kernel

/-- A burst one larger than what the interval refills, with one client; and the default
configuration with one client more than the table has room for. -/
theorem cleanup_visible :
    (Timed 0 (slowRefill 1 301 ++ [Event.request (visitAt (address 0) secondTick)]) ∧
      ¬Invisible (newRateLimiter 1 301)
        (slowRefill 1 301 ++ [Event.request (visitAt (address 0) secondTick)])) ∧
    Timed 0 (crowded others ++ volley (address 0) secondTick 200 ++
      [Event.request (visitAt (address 0) secondTick)]) ∧
    ¬Invisible (newRateLimiter 100 200) (crowded others ++ volley (address 0) secondTick 200 ++
      [Event.request (visitAt (address 0) secondTick)]) :=
  ⟨⟨timed_slowRefill le_rfl, slowRefill_visible le_rfl (by norm_num [cleanupInterval])⟩,
    timed_crowded others 200, crowded_visible (by decide) (by decide) others_nodup others_ne_empty
      address_zero_not_mem length_others⟩

end NetBerth.RateLimit
