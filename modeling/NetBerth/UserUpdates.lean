import NetBerth.Accounts

/-!
# Two updates of one user

`Update` reads e-mail, role and state of a user, replaces those the request
sets, and writes all three back. What another request has written between is
lost wherever this one was not asked to change it. Two requests that set
different fields are both kept exactly if none of them has read the row before the
other wrote it and writes it after, unless the row had the other's values anyway.
-/
namespace NetBerth.UserUpdates
open Interleaving SqlTable Accounts

/-- The row with the fields that the request sets. -/
def merge (req : UpdateUserRequest) (u : User) : User :=
  { u with
    email := if req.email ≠ "" then req.email else u.email
    role := if req.role ≠ "" then req.role else u.role
    enabled := req.enabled.getD u.enabled }

/-- The row has the values that the request sets. -/
def Contains (req : UpdateUserRequest) (u : User) : Prop :=
  (req.email ≠ "" → u.email = req.email) ∧ (req.role ≠ "" → u.role = req.role) ∧
    ∀ b ∈ req.enabled, u.enabled = b

instance (req : UpdateUserRequest) (u : User) : Decidable (Contains req u) :=
  inferInstanceAs (Decidable (_ ∧ _ ∧ _))

/-- The requests set different fields. -/
def DisjointFields (a b : UpdateUserRequest) : Prop :=
  ¬(a.email ≠ "" ∧ b.email ≠ "") ∧ ¬(a.role ≠ "" ∧ b.role ≠ "") ∧
    ¬(a.enabled.isSome ∧ b.enabled.isSome)

instance (a b : UpdateUserRequest) : Decidable (DisjointFields a b) :=
  inferInstanceAs (Decidable (_ ∧ _ ∧ _))

/-- A request for the user, with the user who makes it. -/
structure Edit where
  actor : Option ID
  req : UpdateUserRequest
  deriving DecidableEq, Repr

/-- The two requests, both accepted by the server. -/
def concurrent (H : Hasher) (s : Store) (id : ID) (a b : Edit) : State :=
  ⟨s, [start H (.updateUser a.actor id (.ok a.req)), start H (.updateUser b.actor id (.ok b.req))]⟩

/-- Their statements in this order. -/
def schedule (is : List ℕ) : List Action := is.map fun i => .run i ()

def Finished (c : State) : Prop := ∀ p ∈ c.procs, ∃ response, p = .done response

/-- A request that is answered with success is in the row. -/
def Kept (id : ID) (reqs : List UpdateUserRequest) (c : State) : Prop :=
  ∀ (i : ℕ) (req : UpdateUserRequest), reqs[i]? = some req →
    c.procs[i]? = some (.done (.message "updated")) →
      ∃ u, c.shared.users.select id = some u ∧ Contains req u

/-! ## The order of the statements -/

inductive Statement where
  | select
  | count
  | update
  deriving DecidableEq, Repr

def statementOf : Proc → Option Statement
  | .updateSelect .. => some .select
  | .updateCount .. => some .count
  | .updateExec .. => some .update
  | _ => none

/-- The statement that request `i` is about to send, with its number. -/
def sent (c : State) (i : ℕ) : List (ℕ × Statement) :=
  (((c.procs[i]?).bind statementOf).map fun x => (i, x)).toList

/-- The statements in the order in which the schedule has them sent. -/
def statements (H : Hasher) : State → List ℕ → List (ℕ × Statement)
  | _, [] => []
  | c, i :: is => sent c i ++ statements H ((machine H).exec c (.run i ())) is

/-- Request `j` reads the row before request `i` writes it, and writes it after. -/
def Crosses (i j : ℕ) (t : List (ℕ × Statement)) : Prop :=
  [(j, .select), (i, .update), (j, .update)].Sublist t

instance (i j : ℕ) (t : List (ℕ × Statement)) : Decidable (Crosses i j t) :=
  inferInstanceAs (Decidable (List.Sublist _ t))

/-- What is written across is what was there before the run. -/
def Harmless (before : Option User) (reqs : List UpdateUserRequest)
    (t : List (ℕ × Statement)) : Prop :=
  ∀ (i j : ℕ) (req : UpdateUserRequest), reqs[i]? = some req → Crosses i j t →
    ∀ u ∈ before, Contains req u

/-! ## Merging -/

section
variable {a b req : UpdateUserRequest} {u v : User}

theorem merge_merge (req : UpdateUserRequest) (u : User) :
    merge req (merge req u) = merge req u := by
  simp only [merge, User.mk.injEq, true_and, and_true]
  refine ⟨?_, ?_, ?_⟩
  · split_ifs <;> rfl
  · split_ifs <;> rfl
  · cases req.enabled <;> rfl

theorem DisjointFields.symm (h : DisjointFields a b) : DisjointFields b a :=
  ⟨mt And.symm h.1, mt And.symm h.2.1, mt And.symm h.2.2⟩

theorem contains_iff : Contains req u ↔ merge req u = u := by
  have hmerge : merge req u = u ↔ (if req.email ≠ "" then req.email else u.email) = u.email ∧
      (if req.role ≠ "" then req.role else u.role) = u.role ∧
      req.enabled.getD u.enabled = u.enabled := by
    cases u
    simp [merge]
  rw [hmerge, Contains]
  refine and_congr ?_ (and_congr ?_ ?_)
  · split_ifs with h <;> simp [h, eq_comm]
  · split_ifs with h <;> simp [h, eq_comm]
  · cases req.enabled <;> simp [eq_comm]

/-- A request leaves alone what another one sets. -/
theorem contains_merge_iff (h : DisjointFields a b) : Contains a (merge b u) ↔ Contains a u := by
  obtain ⟨hemail, hrole, henabled⟩ := h
  refine and_congr ?_ (and_congr ?_ ?_)
  · by_cases hset : a.email ≠ ""
    · simp [merge, not_and.mp hemail hset]
    · simp [hset]
  · by_cases hset : a.role ≠ ""
    · simp [merge, not_and.mp hrole hset]
    · simp [hset]
  · cases ha : a.enabled with
    | none => simp
    | some x =>
      have hb : b.enabled = none := by
        cases hb : b.enabled with
        | none => rfl
        | some y => exact absurd ⟨by simp [ha], by simp [hb]⟩ henabled
      simp [merge, hb]

theorem contains_merge (req : UpdateUserRequest) (u : User) : Contains req (merge req u) :=
  contains_iff.mpr (merge_merge req u)

end

/-! ## Sublists with two writes -/

section
variable {t t₁ t₂ : List (ℕ × Statement)}

def Unwritten (t : List (ℕ × Statement)) : Prop := ∀ i, (i, Statement.update) ∉ t

/-- Two writes are those there are. -/
theorem eq_of_crosses {i j i' j' : ℕ} (h₁ : Unwritten t₁) (h₂ : Unwritten t₂)
    (h : Crosses i' j' (t₁ ++ (j, .update) :: t₂ ++ [(i, .update)])) : i' = j ∧ j' = i := by
  have hupdates {t : List (ℕ × Statement)} (ht : Unwritten t) :
      t.filter (fun x => x.2 = Statement.update) = [] := by
    rw [List.filter_eq_nil_iff]
    rintro ⟨k, x⟩ hx hupdate
    obtain rfl : x = .update := by simpa using hupdate
    exact ht k hx
  have hsub := List.Sublist.filter (fun x : ℕ × Statement => x.2 = Statement.update) h
  simp only [List.filter_append, hupdates h₁, List.filter_cons, hupdates h₂] at hsub
  have heq := hsub.eq_of_length (by simp)
  simpa using heq

theorem not_crosses_of_unwritten {i j : ℕ} (h : Unwritten t) : ¬Crosses i j t :=
  fun hsub => h i (hsub.subset (by simp))

/-- One write is crossed by none. -/
theorem not_crosses_of_written {i j k : ℕ} (h₁ : Unwritten t₁) (h₂ : Unwritten t₂) :
    ¬Crosses i j (t₁ ++ (k, .update) :: t₂) := by
  intro h
  have hsub : Crosses i j (t₁ ++ (k, .update) :: t₂ ++ [(k + 1, .update)]) :=
    h.trans (List.sublist_append_left ..)
  have hsub' : Crosses i j (t₁ ++ (k, .update) :: t₂ ++ [(k + 2, .update)]) :=
    h.trans (List.sublist_append_left ..)
  have hj := (eq_of_crosses h₁ h₂ hsub).2
  have hj' := (eq_of_crosses h₁ h₂ hsub').2
  omega

/-- The later of two writes crosses the earlier exactly if it has read before it. -/
theorem crosses_iff {i j : ℕ} (hij : i ≠ j) (h₂ : Unwritten t₂) :
    Crosses j i (t₁ ++ (j, .update) :: t₂ ++ [(i, .update)]) ↔ (i, .select) ∈ t₁ := by
  constructor
  · intro h
    have hpair : [(i, Statement.select), (j, .update)].Sublist
        (t₁ ++ ((j, .update) :: (t₂ ++ [(i, .update)]))) := by
      refine List.Sublist.trans ?_ (by simpa [Crosses] using h)
      simp
    obtain ⟨x, y, hxy, hx, hy⟩ := List.sublist_append_iff.mp hpair
    match x with
    | [] =>
      obtain rfl : [(i, Statement.select), (j, .update)] = y := by simpa using hxy
      rw [List.cons_sublist_cons'] at hy
      rcases hy with hy | ⟨heq, -⟩
      · have hmem := hy.subset (List.mem_cons_of_mem _ List.mem_cons_self)
        rcases List.mem_append.mp hmem with hmem | hmem
        · exact absurd hmem (h₂ j)
        · exact absurd (by simpa using hmem) hij.symm
      · cases heq
    | z :: zs =>
      obtain rfl : (i, Statement.select) = z := by
        rw [List.cons_append] at hxy
        exact (List.cons.inj hxy).1
      exact hx.subset List.mem_cons_self
  · intro hmem
    have hfirst : [(i, Statement.select)].Sublist t₁ := List.singleton_sublist.mpr hmem
    have hrest : [(j, Statement.update)].Sublist ((j, Statement.update) :: t₂) := by simp
    exact (hfirst.append hrest).append (List.Sublist.refl [(i, Statement.update)])

end

/-! ## What the two processes have read -/

section
variable {req : UpdateUserRequest} {u v : User} {fresh : Prop}

/-- A request that has not written: it has not read either, or what it is going to write is merged
into a row that meets `V`. -/
inductive Waiting (id : ID) (req : UpdateUserRequest) (fresh : Prop) (V : User → Prop) : Proc → Prop
  | select (actor : Option ID) : fresh → Waiting id req fresh V (.updateSelect actor id req)
  | count (v : User) : V v → Waiting id req fresh V
      (.updateCount id (merge req v).email (merge req v).role (merge req v).enabled)
  | exec (v : User) : V v → Waiting id req fresh V
      (.updateExec id (merge req v).email (merge req v).role (merge req v).enabled)
  | refused (status : ℕ) (message : String) : Waiting id req fresh V (.error status message)

theorem Waiting.mono {id : ID} {fresh' : Prop} {V W : User → Prop} {p : Proc}
    (h : Waiting id req fresh V p) (hfresh : fresh → fresh') (hVW : ∀ v, V v → W v) :
    Waiting id req fresh' W p := by
  cases h with
  | select actor h => exact .select actor (hfresh h)
  | count v hv => exact .count v (hVW v hv)
  | exec v hv => exact .exec v (hVW v hv)
  | refused status message => exact .refused status message

theorem start_waiting (H : Hasher) (actor : Option ID) (id : ID) (req : UpdateUserRequest)
    (hfresh : fresh) (V : User → Prop) :
    Waiting id req fresh V (start H (.updateUser actor id (.ok req))) := by
  simp only [start, updateUser, Body.decode]
  split_ifs
  · exact .refused ..
  · exact .refused ..
  · exact .select actor hfresh

theorem updateSelect_some {s : Store} {id : ID} (actor : Option ID) (req : UpdateUserRequest)
    (h : s.users.select id = some u) : updateSelect s actor id req =
      if actor = some id ∧ !(merge req u).enabled then .error 400 "cannot disable your own account"
      else if removesAdmin u (merge req u).role (merge req u).enabled then
        .updateCount id (merge req u).email (merge req u).role (merge req u).enabled
      else .updateExec id (merge req u).email (merge req u).role (merge req u).enabled := by
  rw [updateSelect, h]
  rfl

/-- A request reads the row, or counts, or writes the three columns of what it has merged. -/
theorem Waiting.step {H : Hasher} {s s' : Store} {id : ID} {V : User → Prop} {p q : Proc}
    (h : Waiting id req fresh V p) (W : User → Prop) (hstep : step H s p = some (s', q))
    (hread : fresh → statementOf p = some .select → ∀ u ∈ s.users.select id, W u)
    (hVW : ∀ v, V v → W v) :
    (s' = s ∧ Waiting id req False W q ∧ statementOf p ≠ some .update) ∨
      ∃ v, V v ∧ p = .updateExec id (merge req v).email (merge req v).role (merge req v).enabled ∧
        s' = updateExec s id (merge req v).email (merge req v).role (merge req v).enabled ∧
        q = .done (.message "updated") := by
  cases h with
  | select actor hfresh =>
    cases hstep
    refine .inl ⟨rfl, ?_, nofun⟩
    cases hsel : s.users.select id with
    | none =>
      rw [updateSelect, hsel]
      exact .refused ..
    | some u =>
      have hu : W u := hread hfresh rfl u hsel
      rw [updateSelect_some actor req hsel]
      split_ifs
      · exact .refused ..
      · exact .count u hu
      · exact .exec u hu
  | count v hv =>
    simp only [Accounts.step] at hstep
    split_ifs at hstep <;> cases hstep
    · exact .inl ⟨rfl, .refused .., nofun⟩
    · exact .inl ⟨rfl, .exec v (hVW v hv), nofun⟩
  | exec v hv =>
    cases hstep
    exact .inr ⟨v, hv, rfl, rfl, rfl⟩
  | refused status message => cases hstep

end

/-! ## Runs of two requests -/

section
variable {H : Hasher} {s : Store} {id : ID} {reqs : List UpdateUserRequest} {before : Option User}
  {c : State} {t : List (ℕ × Statement)}

/-- Nobody has written, or one request has and the others wait, with what they have read before or
after it. -/
inductive Open (id : ID) (reqs : List UpdateUserRequest) (before : Option User) (c : State)
    (t : List (ℕ × Statement)) : Prop
  | unwritten : c.shared.users.select id = before → Unwritten t →
      (∀ (i : ℕ) (p : Proc) (req : UpdateUserRequest), c.procs[i]? = some p →
        reqs[i]? = some req → Waiting id req ((i, .select) ∉ t)
          (fun v => before = some v ∧ (i, .select) ∈ t) p) →
      Open id reqs before c t
  | written (x : User) (j : ℕ) (first : UpdateUserRequest) (t₁ t₂ : List (ℕ × Statement)) :
      before = some x → t = t₁ ++ (j, .update) :: t₂ → Unwritten t₁ → Unwritten t₂ →
      c.shared.users.select id = some (merge first x) → reqs[j]? = some first →
      c.procs[j]? = some (.done (.message "updated")) →
      (∀ (i : ℕ) (p : Proc) (req : UpdateUserRequest), i ≠ j → c.procs[i]? = some p →
        reqs[i]? = some req → Waiting id req ((i, .select) ∉ t₁)
          (fun v => v = x ∧ (i, .select) ∈ t₁ ∨ v = merge first x ∧ (i, .select) ∉ t₁) p) →
      Open id reqs before c t

theorem concurrent_open (H : Hasher) (s : Store) (id : ID) (a b : Edit) :
    Open id [a.req, b.req] (s.users.select id) (concurrent H s id a b) [] := by
  refine .unwritten rfl (fun _ => List.not_mem_nil) ?_
  intro i p req hp hreq
  match i with
  | 0 =>
    cases hp
    cases hreq
    exact start_waiting _ _ _ _ List.not_mem_nil _
  | 1 =>
    cases hp
    cases hreq
    exact start_waiting _ _ _ _ List.not_mem_nil _

theorem select_updateExec (email role : String) (enabled : Bool) :
    (updateExec s id email role enabled).users.select id =
      (s.users.select id).map fun u => { u with email := email, role := role, enabled := enabled } := by
  rw [updateExec, updateUsers, Table.select_update]
  cases hsel : s.users.select id with
  | none => rfl
  | some u =>
    have hid : u.id = id := (Table.select_eq_some.mp hsel).2
    simp [hid]

/-- When everybody is done nothing happens any more. -/
theorem settled (hc : Finished c) (is : List ℕ) :
    (machine H).run c (schedule is) = c ∧ statements H c is = [] := by
  induction is with
  | nil => exact ⟨rfl, rfl⟩
  | cons i is ih =>
    have hmove : (machine H).exec c (.run i ()) = c ∧ sent c i = [] := by
      simp only [Machine.exec, sent]
      cases hp : c.procs[i]? with
      | none => exact ⟨rfl, rfl⟩
      | some p =>
        obtain ⟨response, rfl⟩ := hc p (List.mem_of_getElem? hp)
        exact ⟨rfl, rfl⟩
    simp only [schedule, List.map_cons, Machine.run_cons, statements, hmove.1, hmove.2] at ih ⊢
    exact ⟨ih.1, ih.2⟩

/-- What was read before or after the first write differs from the row in the
three columns only. -/
theorem overwrite_eq {req first : UpdateUserRequest} {x v : User}
    (hv : v = x ∨ v = merge first x) :
    { merge first x with
      email := (merge req v).email, role := (merge req v).role, enabled := (merge req v).enabled } =
      merge req v := by
  rcases hv with rfl | rfl <;> rfl

/-- When a run is over, a request that was the only one to write is in the row. -/
theorem Open.kept (h : Open id reqs before c t) : Kept id reqs c := by
  intro i req hreq hp
  cases h with
  | unwritten _ _ hw => cases hw i _ req hp hreq
  | written x j first t₁ t₂ _ _ _ _ hsel hj hdone hw =>
    by_cases hij : i = j
    · subst hij
      obtain rfl := Option.some.inj (hj.symm.trans hreq)
      exact ⟨_, hsel, contains_merge first x⟩
    · cases hw i _ req hij hp hreq

theorem Open.harmless (h : Open id reqs before c t) : Harmless before reqs t := by
  intro i j req _ hcross
  cases h with
  | unwritten _ ht _ => exact absurd hcross (not_crosses_of_unwritten ht)
  | written x k first t₁ t₂ _ heq h₁ h₂ _ _ _ _ =>
    rw [heq] at hcross
    exact absurd hcross (not_crosses_of_written h₁ h₂)

/-- Moving one process keeps what holds of the others. -/
theorem waiting_set {V : ℕ → UpdateUserRequest → Proc → Prop} {l : List Proc} {i : ℕ} {q : Proc}
    {req : UpdateUserRequest} (W : ℕ → UpdateUserRequest → Proc → Prop)
    (hreq : reqs[i]? = some req) (hq : W i req q)
    (hVW : ∀ k r p, k ≠ i → V k r p → W k r p) (P : ℕ → Prop)
    (h : ∀ (k : ℕ) (p : Proc) (r : UpdateUserRequest), P k → l[k]? = some p → reqs[k]? = some r →
      V k r p) :
    ∀ (k : ℕ) (p : Proc) (r : UpdateUserRequest), P k → (l.set i q)[k]? = some p →
      reqs[k]? = some r → W k r p := by
  intro k p r hk hp hr
  by_cases hki : i = k
  · subst hki
    rw [List.getElem?_set, if_pos rfl] at hp
    obtain ⟨-, hqp⟩ := Option.ite_none_right_eq_some.mp hp
    obtain rfl := Option.some.inj hqp
    obtain rfl := Option.some.inj (hreq.symm.trans hr)
    exact hq
  · rw [List.getElem?_set_ne hki] at hp
    exact hVW k r p (Ne.symm hki) (h k p r hk hp hr)

theorem sent_eq {i : ℕ} {p : Proc} (hp : c.procs[i]? = some p) :
    sent c i = ((statementOf p).map fun x => (i, x)).toList := by
  simp [sent, hp]

theorem mem_sent {i k : ℕ} {x : Statement} (h : (k, x) ∈ sent c i) : k = i := by
  simp only [sent, Option.mem_toList, Option.map_eq_some_iff] at h
  obtain ⟨_, _, heq⟩ := h
  exact (Prod.mk.inj heq).1.symm

theorem unwritten_append {i : ℕ} {p : Proc} (ht : Unwritten t) (hp : c.procs[i]? = some p)
    (hread : statementOf p ≠ some .update) : Unwritten (t ++ sent c i) := by
  intro k hk
  rcases List.mem_append.mp hk with hk | hk
  · exact ht k hk
  · rw [sent_eq hp, Option.mem_toList, Option.map_eq_some_iff] at hk
    obtain ⟨x, hx, heq⟩ := hk
    rw [(Prod.mk.inj heq).2] at hx
    exact hread hx

/-- With one of two processes done, the response of the other leaves both done. -/
theorem done_second (hlen : c.procs.length = 2) {i j : ℕ} (hij : i ≠ j) (hi : i < 2) (hj : j < 2)
    {r : Response} (hdone : c.procs[j]? = some (.done r)) {k : ℕ} (hk : k < 2) :
    (c.procs.set i (.done r))[k]? = some (.done r) := by
  by_cases hki : i = k
  · rw [hki, List.getElem?_set, if_pos rfl, if_pos (by omega)]
  · have hkj : k = j := by omega
    rw [List.getElem?_set_ne hki, hkj, hdone]

theorem finished_second (hlen : c.procs.length = 2) {i j : ℕ} (hij : i ≠ j) (hi : i < 2)
    (hj : j < 2) {r : Response} (hdone : c.procs[j]? = some (.done r)) (s : Store) :
    Finished ⟨s, c.procs.set i (.done r)⟩ := by
  intro p hpmem
  obtain ⟨k, hk⟩ := List.mem_iff_getElem?.mp hpmem
  have hk2 : k < 2 := by
    have hlt := (List.getElem?_eq_some_iff.mp hk).choose
    simpa [hlen] using hlt
  rw [done_second hlen hij hi hj hdone hk2] at hk
  exact ⟨_, (Option.some.inj hk).symm⟩

/-- The second of two requests is in the row it has written, so what is kept is the first. -/
theorem kept_second_iff (hreqs : reqs.length = 2) {i j : ℕ} {req first : UpdateUserRequest}
    (hij : i ≠ j) (hi : reqs[i]? = some req) (hj : reqs[j]? = some first) {v : User} {s : Store}
    {procs : List Proc} (hdone : procs[j]? = some (.done (.message "updated")))
    (hrow : s.users.select id = some (merge req v)) :
    Kept id reqs ⟨s, procs⟩ ↔ Contains first (merge req v) := by
  have hi2 : i < 2 := hreqs ▸ (List.getElem?_eq_some_iff.mp hi).choose
  have hj2 : j < 2 := hreqs ▸ (List.getElem?_eq_some_iff.mp hj).choose
  constructor
  · intro hkept
    obtain ⟨u, hu, hin⟩ := hkept j first hj hdone
    obtain rfl := Option.some.inj (hrow.symm.trans hu)
    exact hin
  · intro hin k r hr _
    refine ⟨merge req v, hrow, ?_⟩
    by_cases hkj : k = j
    · subst hkj
      obtain rfl := Option.some.inj (hj.symm.trans hr)
      exact hin
    · have hk2 : k < 2 := hreqs ▸ (List.getElem?_eq_some_iff.mp hr).choose
      obtain rfl : k = i := by omega
      obtain rfl := Option.some.inj (hi.symm.trans hr)
      exact contains_merge req v

/-- After the second write it comes down to whether it has been read before the first. -/
theorem harmless_second_iff {i j : ℕ} {first : UpdateUserRequest} {x : User}
    {t₁ t₂ : List (ℕ × Statement)} (hij : i ≠ j) (hj : reqs[j]? = some first)
    (h₁ : Unwritten t₁) (h₂ : Unwritten t₂) :
    Harmless (some x) reqs (t₁ ++ (j, .update) :: t₂ ++ [(i, .update)]) ↔
      ((i, .select) ∈ t₁ → Contains first x) := by
  constructor
  · intro hharmless hread
    exact hharmless j i first hj ((crosses_iff hij h₂).mpr hread) x rfl
  · intro hin k l r hr hcross u hu
    obtain ⟨rfl, rfl⟩ := eq_of_crosses h₁ h₂ hcross
    obtain rfl := Option.some.inj hu
    obtain rfl := Option.some.inj (hj.symm.trans hr)
    exact hin ((crosses_iff hij h₂).mp hcross)

/-- The second write ends the run, and keeps the first unless it crosses it. -/
theorem kept_second (hreqs : reqs.length = 2) (hlen : c.procs.length = 2)
    (hdisj : ∀ (i j : ℕ) (a b : UpdateUserRequest), i ≠ j → reqs[i]? = some a →
      reqs[j]? = some b → DisjointFields a b) {i j : ℕ} {req first : UpdateUserRequest} {x v : User}
    {t₁ t₂ : List (ℕ × Statement)} (h₁ : Unwritten t₁) (h₂ : Unwritten t₂)
    (hij : i ≠ j) (hi : reqs[i]? = some req) (hj : reqs[j]? = some first)
    (hdone : c.procs[j]? = some (.done (.message "updated")))
    (hsel : c.shared.users.select id = some (merge first x))
    (hv : v = x ∧ (i, .select) ∈ t₁ ∨ v = merge first x ∧ (i, .select) ∉ t₁)
    (hp : c.procs[i]? =
      some (.updateExec id (merge req v).email (merge req v).role (merge req v).enabled)) :
    Finished ⟨updateExec c.shared id (merge req v).email (merge req v).role (merge req v).enabled,
        c.procs.set i (.done (.message "updated"))⟩ ∧
      (Kept id reqs ⟨updateExec c.shared id (merge req v).email (merge req v).role
          (merge req v).enabled, c.procs.set i (.done (.message "updated"))⟩ ↔
        Harmless (some x) reqs (t₁ ++ (j, .update) :: t₂ ++ sent c i)) := by
  have hi2 : i < 2 := hreqs ▸ (List.getElem?_eq_some_iff.mp hi).choose
  have hj2 : j < 2 := hreqs ▸ (List.getElem?_eq_some_iff.mp hj).choose
  refine ⟨finished_second hlen hij hi2 hj2 hdone _, ?_⟩
  have hrow : (updateExec c.shared id (merge req v).email (merge req v).role
      (merge req v).enabled).users.select id = some (merge req v) := by
    rw [select_updateExec, hsel, Option.map_some, overwrite_eq (hv.imp And.left And.left)]
  have hsent : sent c i = [(i, .update)] := sent_eq hp
  rw [kept_second_iff hreqs hij hi hj (done_second hlen hij hi2 hj2 hdone hj2) hrow, hsent,
    harmless_second_iff hij hj h₁ h₂, contains_merge_iff (hdisj j i first req hij.symm hj hi)]
  rcases hv with ⟨rfl, hread⟩ | ⟨rfl, hnot⟩
  · exact ⟨fun h _ => h, fun h => h hread⟩
  · exact iff_of_true (contains_merge first x) fun hread => absurd hread hnot

/-- A move leaves the run open, or it ends the run. -/
theorem Open.move (h : Open id reqs before c t) (hreqs : reqs.length = 2)
    (hlen : c.procs.length = 2)
    (hdisj : ∀ (i j : ℕ) (a b : UpdateUserRequest), i ≠ j → reqs[i]? = some a →
      reqs[j]? = some b → DisjointFields a b) {i : ℕ} {p q : Proc} {s' : Store}
    (hp : c.procs[i]? = some p) (hstep : step H c.shared p = some (s', q)) :
    Open id reqs before ⟨s', c.procs.set i q⟩ (t ++ sent c i) ∨
      Finished ⟨s', c.procs.set i q⟩ ∧
        (Kept id reqs ⟨s', c.procs.set i q⟩ ↔ Harmless before reqs (t ++ sent c i)) := by
  have hi : i < reqs.length := by
    have hlt := (List.getElem?_eq_some_iff.mp hp).choose
    omega
  have hreq : reqs[i]? = some reqs[i] := List.getElem?_eq_getElem hi
  generalize reqs[i] = req at hreq
  cases h with
  | unwritten hbefore ht hw =>
    left
    have hstays {k : ℕ} (hk : k ≠ i) : (k, Statement.select) ∈ t ++ sent c i ↔
        (k, Statement.select) ∈ t := by
      rw [List.mem_append]
      exact or_iff_left fun hsent => hk (mem_sent hsent)
    rcases (hw i p req hp hreq).step
        (fun v => before = some v ∧ (i, Statement.select) ∈ t ++ sent c i) hstep
        (fun _ hselect u hu => ⟨hbefore.symm.trans hu, by simp [sent_eq hp, hselect]⟩)
        (fun v hv => ⟨hv.1, List.mem_append_left _ hv.2⟩) with
      ⟨rfl, hq, hread⟩ | ⟨v, ⟨hv, hread⟩, rfl, rfl, rfl⟩
    · refine .unwritten hbefore (unwritten_append ht hp hread) ?_
      intro k p' r
      refine waiting_set (fun k r p => Waiting id r ((k, .select) ∉ t ++ sent c i)
        (fun v => before = some v ∧ (k, .select) ∈ t ++ sent c i) p) hreq
        (hq.mono False.elim fun _ h => h) (fun k r p hk hwait => ?_) (fun _ => True)
        (fun k p r _ => hw k p r) k p' r trivial
      exact hwait.mono (fun hfresh => by rwa [hstays hk]) fun v hv => by rwa [hstays hk]
    · have hsent : sent c i = [(i, .update)] := sent_eq hp
      rw [hsent]
      refine .written v i req t [] hv rfl ht (fun _ => List.not_mem_nil) ?_ hreq
        (List.getElem?_set_self ?_) ?_
      · rw [select_updateExec, hbefore, hv]
        rfl
      · omega
      · intro k p' r hki hp' hr
        rw [List.getElem?_set_ne hki.symm] at hp'
        refine (hw k p' r hp' hr).mono (fun h => h) fun w hw => .inl ⟨?_, hw.2⟩
        exact Option.some.inj (hw.1.symm.trans hv)
  | written x j first t₁ t₂ hbefore heq h₁ h₂ hsel hj hdone hw =>
    subst heq hbefore
    have hij : i ≠ j := by
      rintro rfl
      obtain rfl := Option.some.inj (hp.symm.trans hdone)
      cases hstep
    rcases (hw i p req hij hp hreq).step _ hstep
        (fun hfresh _ u hu => .inr ⟨Option.some.inj (hu.symm.trans hsel), hfresh⟩)
        (fun _ h => h) with ⟨rfl, hq, hread⟩ | ⟨v, hv, rfl, rfl, rfl⟩
    · left
      rw [List.append_assoc, List.cons_append]
      refine .written x j first t₁ _ rfl rfl h₁ (unwritten_append h₂ hp hread) hsel hj ?_ ?_
      · rw [List.getElem?_set_ne hij]
        exact hdone
      · exact waiting_set _ hreq (hq.mono False.elim fun _ h => h) (fun _ _ _ _ h => h) (· ≠ j) hw
    · exact .inr (kept_second hreqs hlen hdisj h₁ h₂ hij hreq hj hdone hsel hv hp)

theorem Open.exec (h : Open id reqs before c t) (hreqs : reqs.length = 2)
    (hlen : c.procs.length = 2)
    (hdisj : ∀ (i j : ℕ) (a b : UpdateUserRequest), i ≠ j → reqs[i]? = some a →
      reqs[j]? = some b → DisjointFields a b) (i : ℕ) :
    Open id reqs before ((machine H).exec c (.run i ())) (t ++ sent c i) ∨
      Finished ((machine H).exec c (.run i ())) ∧
        (Kept id reqs ((machine H).exec c (.run i ())) ↔ Harmless before reqs (t ++ sent c i)) := by
  cases hp : c.procs[i]? with
  | none =>
    have he : (machine H).exec c (.run i ()) = c := by simp only [Machine.exec, hp]
    have hsent : sent c i = [] := by simp [sent, hp]
    rw [he, hsent, List.append_nil]
    exact .inl h
  | some p =>
    cases hs : step H c.shared p with
    | none =>
      have he : (machine H).exec c (.run i ()) = c := by
        simp only [Machine.exec, machine, hp, hs]
      have hsent : sent c i = [] := by
        rw [sent_eq hp]
        cases p with
        | updateSelect _ _ _ | updateExec _ _ _ _ => cases hs
        | updateCount _ _ _ _ =>
          simp only [step] at hs
          split_ifs at hs
        | _ => rfl
      rw [he, hsent, List.append_nil]
      exact .inl h
    | some r =>
      have he : (machine H).exec c (.run i ()) = ⟨r.1, c.procs.set i r.2⟩ := by
        simp only [Machine.exec, machine, hp, hs]
      rw [he]
      exact h.move hreqs hlen hdisj hp hs

theorem kept_iff_of_open (hreqs : reqs.length = 2)
    (hdisj : ∀ (i j : ℕ) (a b : UpdateUserRequest), i ≠ j → reqs[i]? = some a →
      reqs[j]? = some b → DisjointFields a b)
    (is : List ℕ) (hlen : c.procs.length = 2) (h : Open id reqs before c t) :
    Finished ((machine H).run c (schedule is)) →
      (Kept id reqs ((machine H).run c (schedule is)) ↔
        Harmless before reqs (t ++ statements H c is)) := by
  induction is generalizing c t with
  | nil =>
    intro _
    rw [statements, List.append_nil]
    exact iff_of_true h.kept h.harmless
  | cons i is ih =>
    intro hend
    have hlen' : ((machine H).exec c (.run i ())).procs.length = 2 := by
      rcases (machine H).exec_cases c (.run i ()) with ⟨r, hr, -⟩ | ⟨_, _, _, _, _, _, _, _, he⟩ | he
      · cases hr
      · rw [he]
        simpa using hlen
      · rw [he]
        exact hlen
    rw [statements, ← List.append_assoc]
    rcases h.exec hreqs hlen hdisj i with hopen | ⟨hdone, hiff⟩
    · exact ih hlen' hopen hend
    · obtain ⟨hrun, hstatements⟩ : (machine H).run ((machine H).exec c (.run i ())) (schedule is) =
          (machine H).exec c (.run i ()) ∧
          statements H ((machine H).exec c (.run i ())) is = [] := settled hdone is
      show Kept id reqs ((machine H).run ((machine H).exec c (.run i ())) (schedule is)) ↔ _
      rw [hrun, hstatements, List.append_nil]
      exact hiff

end

/-- Two requests that set different fields of one user are both kept exactly if neither has read the
row before the other wrote it and writes it after, or what the other sets was in the row before. -/
theorem updates_kept_iff (H : Hasher) (s : Store) (id : ID) (a b : Edit)
    (hdisj : DisjointFields a.req b.req) (is : List ℕ)
    (hend : Finished ((machine H).run (concurrent H s id a b) (schedule is))) :
    Kept id [a.req, b.req] ((machine H).run (concurrent H s id a b) (schedule is)) ↔
      Harmless (s.users.select id) [a.req, b.req] (statements H (concurrent H s id a b) is) := by
  rw [← List.nil_append (statements H (concurrent H s id a b) is)]
  refine kept_iff_of_open rfl ?_ is rfl (concurrent_open H s id a b) hend
  intro i j x y hij hx hy
  match i, j with
  | 0, 0 => exact absurd rfl hij
  | 0, 1 =>
    cases hx
    cases hy
    exact hdisj
  | 1, 0 =>
    cases hx
    cases hy
    exact hdisj.symm
  | 1, 1 => exact absurd rfl hij

/-! ## An account that stays enabled -/

def viewer : User := ⟨"u", "t", "mallory", "m@example.org", "h", "viewer", true, false, "", true⟩

def accounts : Store := ⟨["t"], ⟨[viewer], List.nodup_singleton _⟩, Table.empty, Table.empty⟩

def disable : Edit := ⟨some "admin", ⟨"", "", some false⟩⟩

def promote : Edit := ⟨some "admin", ⟨"", "operator", none⟩⟩

theorem finished_of_procs {c : State} {x y : Response} (h : c.procs = [.done x, .done y]) :
    Finished c := by
  intro p hp
  rw [h, List.mem_cons, List.mem_singleton] at hp
  rcases hp with rfl | rfl
  · exact ⟨x, rfl⟩
  · exact ⟨y, rfl⟩

theorem updates_kept_iff_one_by_one :
    DisjointFields disable.req promote.req ∧
      Finished ((machine plainHasher).run (concurrent plainHasher accounts "u" disable promote)
        (schedule [0, 0, 1, 1])) ∧
      Kept "u" [disable.req, promote.req] ((machine plainHasher).run
        (concurrent plainHasher accounts "u" disable promote) (schedule [0, 0, 1, 1])) := by
  refine ⟨by decide, finished_of_procs rfl, (updates_kept_iff plainHasher accounts "u" disable
    promote (by decide) [0, 0, 1, 1] (finished_of_procs rfl)).mpr ?_⟩
  have hnone : Unwritten [(0, Statement.select)] ∧ Unwritten [(1, Statement.select)] := by
    simp [Unwritten]
  exact (harmless_second_iff one_ne_zero rfl hnone.1 hnone.2).mpr fun hread =>
    absurd hread (by decide)

/-- Both read; the account is disabled; then the role is changed, and the state
written back that was read before. -/
theorem disable_undone :
    ¬∀ (H : Hasher) (s : Store) (id : ID) (a b : Edit), DisjointFields a.req b.req →
      ∀ is, Finished ((machine H).run (concurrent H s id a b) (schedule is)) →
        Kept id [a.req, b.req] ((machine H).run (concurrent H s id a b) (schedule is)) := by
  intro h
  obtain ⟨u, hu, -, -, henabled⟩ := h plainHasher accounts "u" disable promote (by decide)
    [0, 1, 0, 1] (finished_of_procs rfl) 0 disable.req rfl rfl
  obtain rfl : { viewer with role := "operator" } = u := Option.some.inj hu
  exact absurd (henabled false rfl) (by decide)

end NetBerth.UserUpdates
