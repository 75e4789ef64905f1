import NetBerth.Accounts

/-!
# The last enabled administrator

`Update` and `Delete` read the target's row, then count the enabled admins, and
send the write as a third statement. The guard is exact when it is evaluated:
in any state with an enabled admin, the write leaves one behind if and only if
the guard would still let it pass. Nothing holds the table between the guard
and the write, so two requests that pass it together can remove both admins.
-/
namespace NetBerth.LastAdmin
open Interleaving SqlTable Accounts

def isAdmin (u : User) : Bool := u.role = "admin" && u.enabled

def HasAdmin (s : Store) : Prop := ∃ u ∈ s.users.rows, isAdmin u

/-- The guard of `Update` and `Delete`, evaluated on the table as it now is:
`removes` says whether the write takes the target's row from the admins. -/
def GuardPasses (s : Store) (id : ID) (removes : User → Bool) : Prop :=
  ∀ row ∈ s.users.rows, row.id = id → removes row → isLastEnabledAdmin s = false

instance (s : Store) (id : ID) (removes : User → Bool) : Decidable (GuardPasses s id removes) :=
  inferInstanceAs (Decidable (∀ row ∈ s.users.rows, _))

/-- The write a process is about to send would still pass its guard. -/
def Guarded (s : Store) : Proc → Prop
  | .updateExec id _ role enabled => GuardPasses s id fun row => removesAdmin row role enabled
  | .deleteExec id => GuardPasses s id isAdmin
  | _ => True

instance (s : Store) (p : Proc) : Decidable (Guarded s p) := by
  cases p <;> unfold Guarded <;> infer_instance

/-- Every write finds the table in a state in which its own guard still passes. -/
def WritesGuarded : State → Action → Prop := Machine.Moves fun c p => Guarded c.shared p

instance (c : State) (a : Action) : Decidable (WritesGuarded c a) := by
  unfold WritesGuarded
  infer_instance

theorem isLastEnabledAdmin_eq (s : Store) :
    isLastEnabledAdmin s = decide (s.users.count isAdmin ≤ 1) := rfl

theorem removesAdmin_iff (row : User) (role : String) (enabled : Bool) :
    removesAdmin row role enabled ↔ isAdmin row ∧ ¬ (role = "admin" ∧ enabled) := by
  simp only [removesAdmin, isAdmin, Bool.and_eq_true, Bool.or_eq_true, Bool.not_eq_true',
    decide_eq_true_eq, not_and, Bool.not_eq_true]
  tauto

/-- An admin other than the target stays; with the guard passed there is one. -/
theorem exists_other_admin {s : Store} (id : ID) (hcount : isLastEnabledAdmin s = false) :
    ∃ u ∈ s.users.rows, isAdmin u ∧ u.id ≠ id := by
  simp only [isLastEnabledAdmin_eq, decide_eq_false_iff_not, not_le] at hcount
  exact Table.exists_other hcount id

/-- When the guard would refuse, the target is the only enabled admin. -/
theorem eq_of_last {s : Store} {u v : User} (hlast : isLastEnabledAdmin s = true)
    (hu : u ∈ s.users.rows) (hv : v ∈ s.users.rows) (hau : isAdmin u) (hav : isAdmin v) : u = v :=
  Table.eq_of_count_le_one (by simpa [isLastEnabledAdmin_eq] using hlast) hu hv hau hav

theorem updateExec_hasAdmin_iff {s : Store} (h : HasAdmin s) (id : ID) (email role : String)
    (enabled : Bool) : HasAdmin (updateExec s id email role enabled) ↔
      GuardPasses s id fun row => removesAdmin row role enabled := by
  constructor
  · rintro ⟨v, hv, hadmin⟩ row hrow hid hremoves
    obtain ⟨hrowAdmin, hnew⟩ := (removesAdmin_iff row role enabled).mp hremoves
    by_contra hlast
    obtain ⟨u, hu, rfl⟩ := mem_updateUsers.mp hv
    by_cases hut : u.id = id
    · -- the target itself has lost the role or is disabled
      simp [hut, isAdmin] at hadmin
      exact hnew hadmin
    · simp [hut] at hadmin
      have := eq_of_last (by simpa using hlast) hu hrow hadmin hrowAdmin
      exact hut (this ▸ hid)
  · intro hguard
    obtain ⟨u, hu, hadmin⟩ := h
    by_cases hut : u.id = id
    · by_cases hnew : role = "admin" ∧ enabled
      · refine ⟨_, mem_updateUsers.mpr ⟨u, hu, rfl⟩, ?_⟩
        simp [hut, isAdmin, hnew]
      · have hlast := hguard u hu hut ((removesAdmin_iff u role enabled).mpr ⟨hadmin, hnew⟩)
        obtain ⟨v, hv, hva, hvid⟩ := exists_other_admin id hlast
        exact ⟨v, mem_updateUsers.mpr ⟨v, hv, by simp [hvid]⟩, hva⟩
    · exact ⟨u, mem_updateUsers.mpr ⟨u, hu, by simp [hut]⟩, hadmin⟩

theorem deleteExec_hasAdmin_iff {s : Store} (h : HasAdmin s) (id : ID) :
    HasAdmin (deleteExec s id) ↔ GuardPasses s id isAdmin := by
  constructor
  · rintro ⟨v, hv, hadmin⟩ row hrow hid hrowAdmin
    by_contra hlast
    obtain ⟨hv, hne⟩ := Table.mem_delete.mp hv
    have := eq_of_last (by simpa using hlast) hv hrow hadmin hrowAdmin
    simp [this, hid] at hne
  · intro hguard
    obtain ⟨u, hu, hadmin⟩ := h
    by_cases hut : u.id = id
    · obtain ⟨v, hv, hva, hvid⟩ := exists_other_admin id (hguard u hu hut hadmin)
      exact ⟨v, Table.mem_delete.mpr ⟨hv, by simpa using hvid⟩, hva⟩
    · exact ⟨u, Table.mem_delete.mpr ⟨hu, by simpa using hut⟩, hadmin⟩

/-- A password statement leaves roles and enabled flags as they are. -/
theorem updateUsers_hasAdmin {s : Store} (h : HasAdmin s) (id : ID) {f : User → User}
    {hf : ∀ u, (f u).id = u.id} (hadmin : ∀ u, isAdmin (f u) = isAdmin u) :
    HasAdmin (updateUsers s id f hf) := by
  obtain ⟨u, hu, ha⟩ := h
  refine ⟨_, mem_updateUsers.mpr ⟨u, hu, rfl⟩, ?_⟩
  split_ifs
  · rw [hadmin]
    exact ha
  · exact ha

/-- One statement keeps an enabled admin exactly when it is no write of
`Update` or `Delete`, or one whose guard still passes. -/
theorem step_hasAdmin_iff {H : Hasher} {s s' : Store} {p q : Proc} (h : HasAdmin s)
    (hs : step H s p = some (s', q)) : HasAdmin s' ↔ Guarded s p := by
  rcases step_users hs with he | ⟨user, rfl, hi⟩ | ⟨id, newHash, rfl, rfl⟩ |
    ⟨id, newHash, rfl, rfl⟩ | ⟨id, email, role, enabled, rfl, rfl⟩ | ⟨id, rfl, rfl⟩
  · have hs' : HasAdmin s' := by
      unfold HasAdmin
      rw [he]
      exact h
    cases p with
    | updateExec id email role enabled =>
      cases hs
      exact updateExec_hasAdmin_iff h id email role enabled
    | deleteExec id =>
      cases hs
      exact deleteExec_hasAdmin_iff h id
    | _ => exact ⟨fun _ => trivial, fun _ => hs'⟩
  · obtain ⟨u, hu, ha⟩ := h
    refine ⟨fun _ => trivial, fun _ => ⟨u, ?_, ha⟩⟩
    rw [Table.rows_insert hi]
    exact List.mem_append_left _ hu
  · exact ⟨fun _ => trivial, fun _ => updateUsers_hasAdmin h id fun _ => rfl⟩
  · exact ⟨fun _ => trivial, fun _ => updateUsers_hasAdmin h id fun _ => rfl⟩
  · exact updateExec_hasAdmin_iff h id email role enabled
  · exact deleteExec_hasAdmin_iff h id

/-- One action of any request keeps an enabled admin exactly when it is no
write, or a write whose guard still passes. -/
theorem exec_hasAdmin_iff (H : Hasher) (c : State) (a : Action) (h : HasAdmin c.shared) :
    HasAdmin ((machine H).exec c a).shared ↔ WritesGuarded c a := by
  cases a with
  | spawn r => exact ⟨fun _ => trivial, fun _ => h⟩
  | run i u =>
    cases hp : c.procs[i]? with
    | none => simp [Machine.exec, WritesGuarded, Machine.Moves, hp, h]
    | some p =>
      have hok : WritesGuarded c (.run i u) ↔ Guarded c.shared p := by
        simp [WritesGuarded, Machine.Moves, hp]
      rw [hok]
      cases hs : step H c.shared p with
      | none =>
        simp only [Machine.exec, machine, hp, hs]
        cases p <;> first | exact ⟨fun _ => trivial, fun _ => h⟩ | cases hs
      | some t =>
        simp only [Machine.exec, machine, hp, hs]
        exact step_hasAdmin_iff h hs

/-- In every run of any requests, from any users table with an enabled admin,
each state has an enabled admin if and only if every UPDATE and DELETE finds
its own guard still passing. -/
theorem enabled_admin_throughout_iff (H : Hasher) (s : Store) (h : HasAdmin s)
    (as : List Action) :
    (machine H).Throughout (fun c => HasAdmin c.shared) (boot s) as ↔
      (machine H).Along WritesGuarded (boot s) as :=
  Machine.throughout_iff_along (fun c a hc => exec_hasAdmin_iff H c a hc) as h

/-! ## Two administrators acting on each other -/

instance (s : Store) : Decidable (HasAdmin s) :=
  inferInstanceAs (Decidable (∃ u ∈ s.users.rows, isAdmin u))

def admin (id name : String) : User :=
  ⟨id, "t", name, "", "password", "admin", true, false, "", true⟩

def twoAdmins : Store :=
  ⟨["t"], ⟨[admin "a" "alice", admin "b" "bob"], by decide⟩, Table.empty, Table.empty⟩

/-- Each deletes the other; the arrival of the two requests. -/
def deleteEachOther : List Action :=
  [.spawn (.deleteUser (some "a") "b"), .spawn (.deleteUser (some "b") "a")]

/-- Both requests read the row and the count of two before either deletes. -/
theorem crossed_deletes_leave_no_admin : HasAdmin twoAdmins ∧
    ¬ HasAdmin ((machine plainHasher).run (boot twoAdmins) (deleteEachOther ++
      [.run 0 (), .run 1 (), .run 0 (), .run 1 (), .run 0 (), .run 1 ()])).shared := by
  decide

/-- One after the other, the second request is refused and every write is guarded. -/
theorem sequential_deletes_keep_admin :
    (machine plainHasher).Throughout (fun c => HasAdmin c.shared) (boot twoAdmins)
      (deleteEachOther ++ [.run 0 (), .run 0 (), .run 0 (), .run 1 (), .run 1 (), .run 1 ()]) :=
  (enabled_admin_throughout_iff plainHasher twoAdmins (by decide) _).mpr (by decide)

end NetBerth.LastAdmin
