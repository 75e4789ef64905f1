import NetBerth.SqlTable

/-!
# A map of running instances

Instances run on their own, each with the configuration it was started with,
and a map from keys to instances is all there is to stop them by. To replace an
instance is to cancel what the map has under the key and to put a new one
there. The map owns what runs as long as nothing else is done: each entry is
one running instance, and each running instance has an entry.
-/
namespace InstanceMap
open SqlTable

/-- Instance `handle` under its key. -/
structure Entry (κ : Type*) where
  key : κ
  handle : ℕ
  deriving DecidableEq, Repr

instance (κ : Type*) : Keyed (Entry κ) κ := ⟨Entry.key⟩

/-- The map, what runs with which configuration, and the next instance. -/
structure Instances (κ ν : Type*) where
  entries : Table (Entry κ)
  running : List (ℕ × ν)
  next : ℕ

namespace Instances
variable {κ ν : Type*}

def empty : Instances κ ν := ⟨Table.empty, [], 0⟩

def cancel (s : Instances κ ν) (handle : ℕ) : Instances κ ν :=
  { s with running := s.running.filter fun r => r.1 ≠ handle }

/-- The map has one entry for each key that has a configuration, and what runs
are the instances of the entries, with these configurations. -/
structure Owns (f : κ → Option ν) (s : Instances κ ν) : Prop where
  entry : ∀ k, (∃ h, Entry.mk k h ∈ s.entries.rows) ↔ (f k).isSome
  runs : ∀ h v, (h, v) ∈ s.running ↔ ∃ k, Entry.mk k h ∈ s.entries.rows ∧ f k = some v
  inj : ∀ k k' h, Entry.mk k h ∈ s.entries.rows → Entry.mk k' h ∈ s.entries.rows → k = k'
  fresh : ∀ k h, Entry.mk k h ∈ s.entries.rows → h < s.next
  nodup : (s.running.map Prod.fst).Nodup

variable {f : κ → Option ν} {s : Instances κ ν} {k : κ} {v : ν}

namespace Owns

theorem empty : Owns (fun _ => none) (Instances.empty : Instances κ ν) where
  entry k := by simp [Instances.empty, Table.empty]
  runs h v := by simp [Instances.empty]
  inj k k' h hk := by simp [Instances.empty, Table.empty] at hk
  fresh k h hk := by simp [Instances.empty, Table.empty] at hk
  nodup := List.nodup_nil

/-- Entries and running instances correspond one to one. -/
theorem bijOn (hs : Owns f s) : Set.BijOn Entry.handle {e | e ∈ s.entries.rows}
    {h | h ∈ s.running.map Prod.fst} := by
  refine ⟨?_, ?_, ?_⟩
  · rintro ⟨k, h⟩ hmem
    obtain ⟨v, hv⟩ := Option.isSome_iff_exists.mp ((hs.entry k).mp ⟨h, hmem⟩)
    exact List.mem_map.mpr ⟨(h, v), (hs.runs h v).mpr ⟨k, hmem, hv⟩, rfl⟩
  · rintro ⟨k, h⟩ hmem ⟨k', h'⟩ hmem' heq
    obtain rfl : h = h' := heq
    rw [hs.inj k k' h hmem hmem']
  · intro h hh
    obtain ⟨⟨h', v⟩, hmem, rfl⟩ := List.mem_map.mp hh
    obtain ⟨k, hk, -⟩ := (hs.runs h' v).mp hmem
    exact ⟨⟨k, h'⟩, hk, rfl⟩

end Owns

/-! ## Starting and stopping -/

variable [DecidableEq κ]

/-- Start an instance and put it under the key, in place of what is there. -/
def start (s : Instances κ ν) (k : κ) (v : ν) : Instances κ ν where
  entries := s.entries.put ⟨k, s.next⟩
  running := s.running ++ [(s.next, v)]
  next := s.next + 1

def erase (s : Instances κ ν) (k : κ) : Instances κ ν :=
  { s with entries := s.entries.delete fun e => e.key = k }

def cancelEntry (s : Instances κ ν) (k : κ) : Instances κ ν :=
  match s.entries.select k with
  | some e => s.cancel e.handle
  | none => s

/-- Cancel the instance under the key and delete the entry, if there is one. -/
def release (s : Instances κ ν) (k : κ) : Instances κ ν :=
  match s.entries.select k with
  | some e => (s.cancel e.handle).erase k
  | none => s

/-- Nothing under the key any more, or a new instance with this configuration. -/
def replace (s : Instances κ ν) (k : κ) : Option ν → Instances κ ν
  | none => (s.cancelEntry k).erase k
  | some v => ((s.cancelEntry k).erase k).start k v

theorem erase_eq_self (h : s.entries.select k = none) : s.erase k = s := by
  have hrows : s.entries.rows.filter (fun e => !decide (e.key = k)) = s.entries.rows := by
    refine List.filter_eq_self.mpr fun e he => ?_
    have hne : e.key ≠ k := Table.select_eq_none.mp h e he
    simp [hne]
  have htable : (s.entries.delete fun e => decide (e.key = k)) = s.entries := by
    cases hs : s.entries with
    | mk rows nodup =>
      simp only [Table.delete, Table.mk.injEq]
      simpa only [hs] using hrows
  rw [erase, htable]

/-- Deleting an entry that is not there does nothing. -/
theorem release_eq (s : Instances κ ν) (k : κ) : s.release k = s.replace k none := by
  rw [release, replace, cancelEntry]
  cases h : s.entries.select k with
  | none => exact (erase_eq_self h).symm
  | some e => rfl

/-- What is overwritten need not be deleted first. -/
theorem erase_start (s : Instances κ ν) (k : κ) (v : ν) : (s.erase k).start k v = s.start k v := by
  have hput : (s.entries.delete fun e => e.key = k).put ⟨k, s.next⟩ =
      s.entries.put ⟨k, s.next⟩ := by
    simp only [Table.put, Table.delete, List.filter_filter, Keyed.key, Bool.and_self]
  simp only [start, erase, hput]

/-- Cancel, and overwrite the entry or delete it. -/
theorem overwrite_eq_replace (s : Instances κ ν) (k : κ) (v : ν) (runs : Bool) :
    (if runs then (s.cancelEntry k).start k v else (s.cancelEntry k).erase k) =
      s.replace k (if runs then some v else none) := by
  cases runs with
  | true => exact (erase_start (s.cancelEntry k) k v).symm
  | false => rfl

/-- Cancel and delete, and put a new entry. -/
theorem release_start_eq_replace (s : Instances κ ν) (k : κ) (v : ν) (runs : Bool) :
    (if runs then (s.release k).start k v else s.release k) =
      s.replace k (if runs then some v else none) := by
  rw [release_eq]
  cases runs <;> rfl

namespace Owns

/-- What is left to run is not under the key. -/
theorem mem_cancelEntry (hs : Owns f s) {h : ℕ} :
    (h, v) ∈ (s.cancelEntry k).running ↔
      ∃ k', k' ≠ k ∧ Entry.mk k' h ∈ s.entries.rows ∧ f k' = some v := by
  rw [cancelEntry]
  cases hsel : s.entries.select k with
  | none =>
    rw [hs.runs]
    refine exists_congr fun k' => ?_
    constructor
    · rintro ⟨hmem, hf⟩
      exact ⟨Table.select_eq_none.mp hsel _ hmem, hmem, hf⟩
    · exact And.right
  | some e =>
    obtain ⟨hmem, hkey⟩ := Table.select_eq_some.mp hsel
    obtain rfl : e.key = k := hkey
    simp only [cancel, List.mem_filter, decide_eq_true_eq]
    rw [hs.runs]
    constructor
    · rintro ⟨⟨k', hmem', hf⟩, hne⟩
      refine ⟨k', ?_, hmem', hf⟩
      rintro rfl
      exact hne (congrArg Entry.handle (Table.eq_of_key hmem' hmem rfl))
    · rintro ⟨k', hne, hmem', hf⟩
      refine ⟨⟨k', hmem', hf⟩, ?_⟩
      rintro rfl
      exact hne (hs.inj _ _ _ hmem' hmem)

theorem entries_cancelEntry (s : Instances κ ν) (k : κ) :
    (s.cancelEntry k).entries = s.entries ∧ (s.cancelEntry k).next = s.next := by
  rw [cancelEntry]
  cases s.entries.select k <;> exact ⟨rfl, rfl⟩

theorem mem_erase {k' : κ} {h : ℕ} :
    Entry.mk k' h ∈ ((s.cancelEntry k).erase k).entries.rows ↔
      Entry.mk k' h ∈ s.entries.rows ∧ k' ≠ k := by
  simp only [erase, (entries_cancelEntry s k).1, Table.mem_delete, decide_eq_false_iff_not]

theorem stop (hs : Owns f s) (k : κ) :
    Owns (Function.update f k none) ((s.cancelEntry k).erase k) where
  entry k' := by
    simp only [mem_erase]
    by_cases hk : k' = k
    · subst hk
      simp
    · simp only [ne_eq, hk, not_false_eq_true, and_true, Function.update_of_ne]
      exact hs.entry k'
  runs h v := by
    show (h, v) ∈ (s.cancelEntry k).running ↔ _
    rw [hs.mem_cancelEntry]
    refine exists_congr fun k' => ?_
    rw [mem_erase]
    by_cases hk : k' = k
    · simp [hk]
    · simp [hk, Function.update_of_ne]
  inj k' k'' h hk' hk'' := hs.inj k' k'' h (mem_erase.mp hk').1 (mem_erase.mp hk'').1
  fresh k' h hk' := by
    show h < (s.cancelEntry k).next
    rw [(entries_cancelEntry s k).2]
    exact hs.fresh k' h (mem_erase.mp hk').1
  nodup := by
    show ((s.cancelEntry k).running.map Prod.fst).Nodup
    rw [cancelEntry]
    cases s.entries.select k with
    | none => exact hs.nodup
    | some e => exact hs.nodup.sublist (List.filter_sublist.map _)

theorem start (hs : Owns f s) (hk : f k = none) (v : ν) :
    Owns (Function.update f k (some v)) (s.start k v) := by
  have hnone : ∀ h, Entry.mk k h ∉ s.entries.rows := by
    intro h hmem
    have hsome := (hs.entry k).mp ⟨h, hmem⟩
    simp [hk] at hsome
  have hmem : ∀ k' h, Entry.mk k' h ∈ (s.start k v).entries.rows ↔
      Entry.mk k' h ∈ s.entries.rows ∨ k' = k ∧ h = s.next := by
    intro k' h
    simp only [Instances.start, Table.mem_put, Entry.mk.injEq]
    constructor
    · rintro (⟨hmem, -⟩ | heq)
      · exact .inl hmem
      · exact .inr heq
    · rintro (hmem | heq)
      · refine .inl ⟨hmem, ?_⟩
        rintro rfl
        exact hnone h hmem
      · exact .inr heq
  constructor
  · intro k'
    simp only [hmem, exists_or]
    by_cases hkk : k' = k
    · subst hkk
      simp
    · simp only [hkk, false_and, exists_const, or_false, Function.update_of_ne, ne_eq,
        not_false_eq_true]
      exact hs.entry k'
  · intro h w
    have hrun : (h, w) ∈ (s.start k v).running ↔ (h, w) ∈ s.running ∨ h = s.next ∧ w = v := by
      simp [Instances.start]
    rw [hrun, hs.runs]
    simp only [hmem]
    constructor
    · rintro (⟨k', hk', hf⟩ | ⟨rfl, rfl⟩)
      · refine ⟨k', .inl hk', ?_⟩
        rw [Function.update_of_ne]
        · exact hf
        · rintro rfl
          exact hnone h hk'
      · exact ⟨k, .inr ⟨rfl, rfl⟩, Function.update_self ..⟩
    · rintro ⟨k', hk' | ⟨rfl, rfl⟩, hf⟩
      · refine .inl ⟨k', hk', ?_⟩
        rwa [Function.update_of_ne] at hf
        rintro rfl
        exact hnone h hk'
      · rw [Function.update_self] at hf
        exact .inr ⟨rfl, (Option.some.inj hf).symm⟩
  · intro k' k'' h hk' hk''
    rcases (hmem k' h).mp hk' with hold | ⟨rfl, hnext⟩
    · rcases (hmem k'' h).mp hk'' with hold' | ⟨-, hnext⟩
      · exact hs.inj k' k'' h hold hold'
      · exact absurd hnext (hs.fresh k' h hold).ne
    · rcases (hmem k'' h).mp hk'' with hold' | ⟨rfl, -⟩
      · exact absurd hnext (hs.fresh k'' h hold').ne
      · rfl
  · intro k' h hk'
    show h < s.next + 1
    rcases (hmem k' h).mp hk' with hold | ⟨-, rfl⟩
    · exact (hs.fresh k' h hold).trans (Nat.lt_succ_self _)
    · exact Nat.lt_succ_self _
  · simp only [Instances.start, List.map_append, List.map_cons, List.map_nil]
    refine List.Nodup.append hs.nodup (List.nodup_singleton _) ?_
    intro h hh hnext
    obtain ⟨⟨h', v'⟩, hmem', rfl⟩ := List.mem_map.mp hh
    obtain ⟨k', hk', -⟩ := (hs.runs h' v').mp hmem'
    exact absurd (List.mem_singleton.mp hnext) (hs.fresh k' h' hk').ne

/-- Replacing keeps the ownership, whatever was under the key. -/
theorem replace (hs : Owns f s) (k : κ) (v : Option ν) :
    Owns (Function.update f k v) (s.replace k v) := by
  cases v with
  | none => exact hs.stop k
  | some v =>
    have hstart := (hs.stop k).start (Function.update_self ..) v
    rwa [Function.update_idem] at hstart

/-- Where a configuration has its key, one instance runs for a key with one, and none for the
others. -/
theorem countP_running (hs : Owns f s) {key : ν → κ} (hkey : ∀ k, ∀ v ∈ f k, key v = k) (k : κ) :
    s.running.countP (fun r => key r.2 = k) = if (f k).isSome then 1 else 0 := by
  have hmem {h : ℕ} {v : ν} : (h, v) ∈ s.running ∧ key v = k ↔
      Entry.mk k h ∈ s.entries.rows ∧ f k = some v := by
    rw [hs.runs]
    constructor
    · rintro ⟨⟨k', hentry, hf⟩, rfl⟩
      rw [hkey k' v hf]
      exact ⟨hentry, hf⟩
    · rintro ⟨hentry, hf⟩
      exact ⟨⟨k, hentry, hf⟩, hkey k v hf⟩
  cases hk : f k with
  | none =>
    refine List.countP_eq_zero.mpr fun r hr heq => ?_
    have hf := (hmem.mp ⟨hr, of_decide_eq_true heq⟩).2
    rw [hk] at hf
    cases hf
  | some v =>
    obtain ⟨h, hentry⟩ := (hs.entry k).mpr (by rw [hk]; rfl)
    have hperm : (s.running.filter fun r => key r.2 = k).Perm [(h, v)] := by
      refine (List.perm_ext_iff_of_nodup ((List.Nodup.of_map _ hs.nodup).filter _)
        (List.nodup_singleton _)).mpr fun ⟨h', v'⟩ => ?_
      rw [List.mem_filter, decide_eq_true_iff, hmem, List.mem_singleton, Prod.mk.injEq, hk,
        Option.some.injEq]
      constructor
      · rintro ⟨hentry', rfl⟩
        exact ⟨congrArg Entry.handle (Table.eq_of_key hentry' hentry rfl), rfl⟩
      · rintro ⟨rfl, rfl⟩
        exact ⟨hentry, rfl⟩
    rw [List.countP_eq_length_filter, hperm.length_eq]
    rfl

end Owns

end Instances

end InstanceMap
