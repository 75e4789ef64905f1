import NetBerth.Interleaving

/-!
# The key of the ACME account

Every run loads the key of the account from a file and makes one if there is no file.
Runs are started together, and nothing keeps one from reading the file while another is
about to make it: between the read and the end of the write the file is missing or empty.

Where no run reads in that time, all runs have one key and the file has it too.
-/
namespace NetBerth.AccountKey
open Interleaving

abbrev Bytes := List UInt8

/-- PEM and the key in it; what was encoded can be decoded. -/
structure KeyCodec (Key : Type*) where
  encode : Key → Bytes
  decode : Bytes → Except String Key
  decode_encode : ∀ k, decode (encode k) = .ok k

/-- Where a run is in `loadOrCreateAccountKey`: before the read, with no file found, with
a key of its own, behind the truncation of the file, behind the write, and through. -/
inductive Proc (Key : Type*) where
  | reading
  | missing
  | generated (k : Key)
  | truncated (k : Key)
  | written (k : Key)
  | loaded (k : Key)
  | failed (message : String)
  deriving DecidableEq, Repr

section
variable {Key : Type*} (C : KeyCodec Key) (path : String)

/-- A write from the start of a file leaves what is behind it. -/
def overwrite (data new : Bytes) : Bytes := new ++ data.drop new.length

/-- One step on the file at `path`; `fresh` is what the random source gives. -/
def step (fresh : Key) (file : Option Bytes) : Proc Key → Option (Option Bytes × Proc Key)
  | .reading =>
    match file with
    | none => some (none, .missing)
    | some data =>
      match C.decode data with
      | .ok k => some (some data, .loaded k)
      | .error message =>
        some (some data, .failed ("invalid account key file " ++ path ++ ": " ++ message))
  | .missing => some (file, .generated fresh)
  | .generated k => some (some [], .truncated k)
  | .truncated k => some (some (overwrite (file.getD []) (C.encode k)), .written k)
  | .written k => some (file, .loaded k)
  | .loaded _ => none
  | .failed _ => none

def machine : Machine (Option Bytes) (Proc Key) Unit Key := ⟨fun _ => .reading, step C path⟩

abbrev State (Key : Type*) := Config (Option Bytes) (Proc Key)

/-- Between a read that finds no file and the end of the write. -/
def Proc.creating : Proc Key → Prop
  | .missing => True
  | .generated _ => True
  | .truncated _ => True
  | _ => False

/-- Whoever reads finds nobody who is making the file. -/
def ReadsAlone : State Key → Act Unit Key → Prop :=
  Machine.Moves fun c p => p = .reading → ∀ q ∈ c.procs, ¬q.creating

instance (p : Proc Key) : Decidable p.creating := by
  cases p <;> unfold Proc.creating <;> infer_instance

instance [DecidableEq Key] (c : State Key) (a : Act Unit Key) : Decidable (ReadsAlone c a) := by
  unfold ReadsAlone
  infer_instance

/-- No run has failed, all keys in use are one, and the file has it. -/
def OneKey (c : State Key) : Prop :=
  (∀ p ∈ c.procs, ∀ message, p ≠ .failed message) ∧
  (∀ k k', .loaded k ∈ c.procs → .loaded k' ∈ c.procs → k = k') ∧
  ∀ k, .loaded k ∈ c.procs → ∃ data, c.shared = some data ∧ C.decode data = .ok k

/-- All but the one run are before the read. -/
def Others (procs : List (Proc Key)) (i : ℕ) : Prop :=
  ∀ j q, j ≠ i → procs[j]? = some q → q = .reading

/-- There is no file and nobody is making it; one run is making it; it is empty; or it
holds the key that all use. -/
inductive Stage : State Key → Prop where
  | absent {procs : List (Proc Key)} (h : ∀ q ∈ procs, q = .reading) : Stage ⟨none, procs⟩
  | creating {procs : List (Proc Key)} (i : ℕ) (p : Proc Key) (hi : procs[i]? = some p)
      (hp : p = .missing ∨ ∃ k, p = .generated k) (h : Others procs i) : Stage ⟨none, procs⟩
  | empty {procs : List (Proc Key)} (i : ℕ) (k : Key) (hi : procs[i]? = some (.truncated k))
      (h : Others procs i) : Stage ⟨some [], procs⟩
  | present {procs : List (Proc Key)} (data : Bytes) (k : Key) (hdata : C.decode data = .ok k)
      (h : ∀ q ∈ procs, q = .reading ∨ q = .written k ∨ q = .loaded k) :
      Stage ⟨some data, procs⟩

variable {C} {path} {procs : List (Proc Key)} {i j : ℕ} {p q : Proc Key}

theorem Others.eq_reading (h : Others procs i) (hi : procs[i]? = some p) :
    ∀ q ∈ procs, q = p ∨ q = .reading := by
  intro q hq
  obtain ⟨j, hj⟩ := List.mem_iff_getElem?.mp hq
  by_cases hji : j = i
  · rw [hji, hi] at hj
    exact .inl (Option.some.inj hj).symm
  · exact .inr (h j q hji hj)

theorem Others.spawn (h : Others procs i) : Others (procs ++ [Proc.reading]) i := by
  intro j q hji hj
  rcases List.mem_append.mp (List.mem_of_getElem? hj) with hq | hq
  · by_cases hlt : j < procs.length
    · rw [List.getElem?_append_left hlt] at hj
      exact h j q hji hj
    · rw [List.getElem?_append_right (not_lt.mp hlt)] at hj
      exact List.mem_singleton.mp (List.mem_of_getElem? hj)
  · exact List.mem_singleton.mp hq

theorem Others.set (h : Others procs i) : Others (procs.set i q) i := by
  intro j r hji hj
  rw [List.getElem?_set_ne hji.symm] at hj
  exact h j r hji hj

theorem others_of_reading (h : ∀ r ∈ procs, r = .reading) : Others procs i :=
  fun _ _ _ hj => h _ (List.mem_of_getElem? hj)

theorem getElem?_set_of_some (hp : procs[i]? = some p) : (procs.set i q)[i]? = some q :=
  List.getElem?_set_self (List.getElem?_eq_some_iff.mp hp).choose

theorem getElem?_spawn (hp : procs[i]? = some p) : (procs ++ [Proc.reading])[i]? = some p := by
  rw [List.getElem?_append_left (List.getElem?_eq_some_iff.mp hp).choose]
  exact hp

/-- Before the first run is through there is nothing to compare. -/
theorem oneKey_of_none {c : State Key}
    (h : ∀ p ∈ c.procs, (∀ message, p ≠ .failed message) ∧ ∀ k, p ≠ .loaded k) : OneKey C c :=
  ⟨fun p hp => (h p hp).1, fun k _ hk _ => absurd rfl ((h _ hk).2 k),
    fun k hk => absurd rfl ((h _ hk).2 k)⟩

theorem Stage.oneKey {c : State Key} (h : Stage C c) : OneKey C c := by
  cases h with
  | absent h =>
    apply oneKey_of_none
    intro q hq
    simp [h q hq]
  | creating i p hi hp h =>
    apply oneKey_of_none
    intro q hq
    rcases h.eq_reading hi q hq with rfl | rfl
    · rcases hp with rfl | ⟨k, rfl⟩ <;> simp
    · simp
  | empty i k hi h =>
    apply oneKey_of_none
    intro q hq
    rcases h.eq_reading hi q hq with rfl | rfl <;> simp
  | @present procs data k hdata h =>
    have hloaded : ∀ k', Proc.loaded k' ∈ procs → k' = k := by
      intro k' hk'
      simpa using h _ hk'
    refine ⟨?_, ?_, ?_⟩
    · intro p hp message
      rcases h p hp with rfl | rfl | rfl <;> simp
    · intro k₁ k₂ h₁ h₂
      rw [hloaded k₁ h₁, hloaded k₂ h₂]
    · intro k' hk'
      rw [hloaded k' hk']
      exact ⟨data, rfl, hdata⟩

/-- A new run is before the read. -/
theorem Stage.spawn {file : Option Bytes} (h : Stage C ⟨file, procs⟩) :
    Stage C ⟨file, procs ++ [Proc.reading]⟩ := by
  have hnew : ∀ r ∈ ([.reading] : List (Proc Key)), r = .reading :=
    fun r hr => List.mem_singleton.mp hr
  cases h with
  | absent h => exact .absent fun q hq => (List.mem_append.mp hq).elim (h q) (hnew q)
  | creating i p hi hp h => exact .creating i p (getElem?_spawn hi) hp h.spawn
  | empty i k hi h => exact .empty i k (getElem?_spawn hi) h.spawn
  | present data k hdata h =>
    exact .present data k hdata fun q hq =>
      (List.mem_append.mp hq).elim (h q) fun hq => .inl (hnew q hq)

/-- Who reads alone starts to make the file, or has the key that all have. -/
theorem Stage.read {file file' : Option Bytes} (fresh : Key) (h : Stage C ⟨file, procs⟩)
    (hi : procs[i]? = some .reading) (halone : ∀ q ∈ procs, ¬q.creating)
    (hstep : step C path fresh file .reading = some (file', q)) : Stage C ⟨file', procs.set i q⟩ := by
  cases h with
  | absent h =>
    cases hstep
    exact .creating i .missing (getElem?_set_of_some hi) (.inl rfl) (others_of_reading h).set
  | creating j p hj hp h =>
    have hcreating : p.creating := by
      rcases hp with rfl | ⟨k, rfl⟩ <;> trivial
    exact absurd hcreating (halone p (List.mem_of_getElem? hj))
  | empty j k hj h => exact absurd trivial (halone _ (List.mem_of_getElem? hj))
  | present data k hdata h =>
    simp only [step, hdata, Option.some.injEq, Prod.mk.injEq] at hstep
    obtain ⟨rfl, rfl⟩ := hstep
    exact .present data k hdata (forall_set h (.inr (.inr rfl)))

/-- The only run that makes the file goes on with it. -/
theorem Stage.make {file file' : Option Bytes} (fresh : Key) (h : Stage C ⟨file, procs⟩)
    (hi : procs[i]? = some p) (hp : p ≠ .reading)
    (hstep : step C path fresh file p = some (file', q)) : Stage C ⟨file', procs.set i q⟩ := by
  cases h with
  | absent h => exact absurd (h p (List.mem_of_getElem? hi)) hp
  | creating j r hj hr h =>
    obtain rfl : i = j := not_imp_comm.mp (h i p · hi) hp
    obtain rfl : p = r := Option.some.inj (hi.symm.trans hj)
    rcases hr with rfl | ⟨k, rfl⟩
    · cases hstep
      exact .creating i _ (getElem?_set_of_some hi) (.inr ⟨fresh, rfl⟩) h.set
    · cases hstep
      exact .empty i k (getElem?_set_of_some hi) h.set
  | empty j k hj h =>
    obtain rfl : i = j := not_imp_comm.mp (h i p · hi) hp
    obtain rfl : p = .truncated k := Option.some.inj (hi.symm.trans hj)
    have hdecode : C.decode (overwrite [] (C.encode k)) = .ok k := by
      rw [overwrite, List.drop_nil, List.append_nil, C.decode_encode]
    cases hstep
    refine .present _ k hdecode fun q hq => ?_
    rcases h.set.eq_reading (getElem?_set_of_some hi) q hq with rfl | rfl
    · exact .inr (.inl rfl)
    · exact .inl rfl
  | present data k hdata h =>
    rcases h p (List.mem_of_getElem? hi) with rfl | rfl | rfl
    · exact absurd rfl hp
    · cases hstep
      exact .present data k hdata (forall_set h (.inr (.inr rfl)))
    · cases hstep

theorem Stage.exec {c : State Key} {a : Act Unit Key} (h : Stage C c) (ha : ReadsAlone c a) :
    Stage C ((machine C path).exec c a) := by
  rcases (machine C path).exec_cases c a with
    ⟨r, rfl, he⟩ | ⟨i, fresh, p, file, q, rfl, hi, hstep, he⟩ | he
  · rw [he]
    exact h.spawn
  · rw [he]
    by_cases hp : p = .reading
    · subst hp
      exact h.read fresh hi (ha _ hi rfl) hstep
    · exact h.make fresh hi hp hstep
  · rw [he]
    exact h

/-- Where no run reads the file while another makes it, all runs have one key, the one in
the file, however many are started and however their steps fall. -/
theorem one_account_key (C : KeyCodec Key) (path : String) (file : Option Bytes)
    (hfile : ∀ data ∈ file, ∃ k, C.decode data = .ok k) (as : List (Act Unit Key))
    (has : (machine C path).Along ReadsAlone ⟨file, []⟩ as) :
    (machine C path).Throughout (OneKey C) ⟨file, []⟩ as := by
  have hstart : Stage C ⟨file, []⟩ := by
    cases file with
    | none => exact .absent (List.forall_mem_nil _)
    | some data =>
      obtain ⟨k, hk⟩ := hfile data rfl
      exact .present data k hk (List.forall_mem_nil _)
  have hrun : (machine C path).Throughout (Stage C) ⟨file, []⟩ as :=
    Machine.throughout_of_step (fun _ _ => Stage.exec) hstart has
  exact hrun.mono fun _ => Stage.oneKey

/-- A key of one byte, where the file is that byte. -/
def byteCodec : KeyCodec UInt8 where
  encode k := [k]
  decode
    | [] => .error "no PEM block"
    | k :: _ => .ok k
  decode_encode _ := rfl

def byteMachine : Machine (Option Bytes) (Proc UInt8) Unit UInt8 :=
  machine byteCodec "acme-account.key"

/-- A run from its start to its end, with the key the random source would give it. -/
def whole (i : ℕ) (fresh : Key) : List (Act Unit Key) :=
  .spawn () :: List.replicate 5 (.run i fresh)

/-- The second run reads after the first is through and takes its key. -/
theorem second_run_takes_key :
    byteMachine.run ⟨none, []⟩ (whole 0 1 ++ whole 1 2) =
      ⟨some [1], [.loaded 1, .loaded 1]⟩ ∧
    byteMachine.Throughout (OneKey byteCodec) ⟨none, []⟩ (whole 0 1 ++ whole 1 2) :=
  ⟨rfl, one_account_key byteCodec "acme-account.key" none (by decide) _ (by decide)⟩

/-- Three runs, of which two find no file and the third finds it empty. -/
def firstStart : List (Act Unit UInt8) :=
  [.spawn (), .spawn (), .spawn (), .run 0 1, .run 1 2, .run 0 1, .run 0 1, .run 2 3, .run 0 1,
    .run 0 1, .run 1 2, .run 1 2, .run 1 2, .run 1 2]

/-- Two runs go on with two keys, of which the file has the later, and the third fails. -/
theorem first_start_makes_two_keys :
    byteMachine.run ⟨none, []⟩ firstStart =
      ⟨some [2], [.loaded 1, .loaded 2,
        .failed "invalid account key file acme-account.key: no PEM block"]⟩ ∧
    ¬byteMachine.Throughout (OneKey byteCodec) ⟨none, []⟩ firstStart := by
  have hend : byteMachine.run ⟨none, []⟩ firstStart =
      ⟨some [2], [.loaded 1, .loaded 2,
        .failed "invalid account key file acme-account.key: no PEM block"]⟩ := rfl
  refine ⟨hend, fun h => ?_⟩
  have hone := h.last
  rw [hend] at hone
  exact absurd (hone.2.1 1 2 (by decide) (by decide)) (by decide)

end
end NetBerth.AccountKey
