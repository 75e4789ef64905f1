import NetBerth.EngineInstances
import NetBerth.ModuleEvents

/-!
# The engines follow the tables

A handler writes to the table of its module and publishes an event, and the subscriber loads the
row of the event and gives it to the engine, or removes it there, before the handler returns. So
after any requests one after the other, an engine runs what its table asks for, except for the ids
it has missed.

Tunnels are missed from their creation to their next update. In every module an id is missed
whose deletion the database has refused: the handler has told of it all the same, and the instance
has ended while the row is still there. The watchdog of the forward engine finds such a rule again
at its next tick. Its ticks come between two requests here, with nothing between the loading of
the rules and the loop over them.
-/
namespace NetBerth.EnginesFollow
open SqlTable InstanceMap Instances ModuleEvents
open EngineInstances hiding forward ddns stun cron
open Keyed (key)

/-- How the row of an event is read. -/
structure Loader (β ν : Type) [Keyed ν ID] where
  load : Row β → ν
  key_load : ∀ row, key (load row) = row.id

/-- No column of a tunnel is nullable. -/
def tunnelLoader : Loader ModuleLoading.STUNTunnel ModuleLoading.STUNTunnel :=
  ⟨fun row => { row.content with id := row.id }, fun _ => rfl⟩

section
variable {β ν : Type} [Keyed ν ID] (L : Loader β ν) (E : Engine ν) (checks : Checks β) (m : Module)

/-- `GetRules`, `GetConfigs` and `GetTunnels`. -/
def Loader.all (t : Table (Row β)) : Table ν where
  rows := t.rows.map L.load
  nodup := by
    rw [List.map_map]
    exact (congrArg List.Nodup (List.map_congr_left fun row _ => L.key_load row)).mpr t.nodup

/-- What the subscriber of the module does with a call. -/
def callOf : EngineCall β → Option (Call ν)
  | .reload m' row => if m' = m then some (.reload (L.load row)) else none
  | .remove m' id => if m' = m then some (.remove id) else none

def callsOf (s : Store β) (l : List Effect) : List (Call ν) :=
  (engineCalls s l).filterMap (callOf L m)

structure World (β ν : Type) [Keyed ν ID] where
  store : Store β
  engine : Instances ID ν

/-- `Start` on the table as it is. -/
def World.start (s : Store β) : World β ν := ⟨s, E.start Instances.empty (some (L.all (s m)))⟩

/-- A handler, with the subscribers it calls. -/
def World.serve (w : World β ν) (x : Request β × Env) : World β ν :=
  let r := handle checks w.store x
  ⟨r.1, (callsOf L m r.1 r.2).foldl E.call w.engine⟩

/-- What comes after the start: a request, or a tick of the watchdog, whose loading of the rows may
fail. -/
inductive Turn (β : Type) where
  | request (x : Request β × Env)
  | tick (loads : Bool)

variable (tickRule : Option (Instances ID ν → ν → Instances ID ν))

/-- Without a watchdog there is nothing to a tick. -/
def World.turn (w : World β ν) : Turn β → World β ν
  | .request x => w.serve L E checks m x
  | .tick loads =>
    match tickRule, loads with
    | some rule, true => { w with engine := (L.all (w.store m)).rows.foldl rule w.engine }
    | _, _ => w

/-! ## What is missed -/

/-- The ids with a row that the engine does not have, after one more request. -/
def missedStep (s : Store β) (missed : ID → Bool) (x : Request β × Env) : ID → Bool :=
  match x.1 with
  | .create m' body =>
    if m' = m ∧ (body.filter fun b => (checkOf checks m b).isNone).isSome ∧ x.2.fails = false ∧
      (s m).select x.2.uuid = none
    then Function.update missed x.2.uuid (m = .stun) else missed
  | .update m' id body =>
    if m' = m ∧ body.isSome ∧ ((s m).select id).isSome ∧ (m = .stun ∨ x.2.fails = false)
    then Function.update missed id false else missed
  | .delete m' id => if m' = m then Function.update missed id x.2.fails else missed

/-- The watchdog finds again what was missed. -/
def missedTurn (s : Store β) (missed : ID → Bool) : Turn β → ID → Bool
  | .request x => missedStep checks m s missed x
  | .tick loads => if tickRule.isSome ∧ loads = true then fun _ => false else missed

/-- From the start on. -/
def missed (w : World β ν) : List (Turn β) → (ID → Bool) → ID → Bool
  | [], before => before
  | x :: xs, before =>
    missed (w.turn L E checks m tickRule x) xs (missedTurn checks m tickRule w.store before x)

/-- What the engine is to run for an id. -/
def view (missed : ID → Bool) (t : Table (Row β)) (id : ID) : Option ν :=
  if missed id then none else (t.select id).map L.load

end

/-! ## Changes of one table -/

section
variable {β ν : Type} [Keyed ν ID] {L : Loader β ν} {missed missed' : ID → Bool}
  {t t' : Table (Row β)} {id : ID} {row : Row β}

theorem view_reload (hrow : t'.select id = some row)
    (hother : ∀ k, k ≠ id → t'.select k = t.select k) :
    view L (Function.update missed id false) t' = giveCall (view L missed t) (.reload (L.load row)) := by
  have hid : row.id = id := (Table.select_eq_some.mp hrow).2
  funext k
  rw [giveCall, give, L.key_load, hid]
  by_cases hk : k = id
  · subst hk
    rw [view, Function.update_self, Function.update_self, hrow]
    rfl
  · rw [view, Function.update_of_ne hk, Function.update_of_ne hk, hother k hk, view]

theorem view_remove (hrow : t'.select id = none ∨ missed' id = true)
    (hother : ∀ k, k ≠ id → t'.select k = t.select k ∧ missed' k = missed k) :
    view L missed' t' = giveCall (view L missed t) (.remove id) := by
  funext k
  rw [giveCall]
  by_cases hk : k = id
  · subst hk
    rw [Function.update_self, view]
    split_ifs with hmissed
    · rfl
    · rw [hrow.resolve_right hmissed]
      rfl
  · obtain ⟨hselect, hsame⟩ := hother k hk
    rw [Function.update_of_ne hk, view, view, hselect, hsame]

/-- A row that was not there and is missed changes nothing. -/
theorem view_missed (hrow : t.select id = none) (hother : ∀ k, k ≠ id → t'.select k = t.select k) :
    view L (Function.update missed id true) t' = view L missed t := by
  funext k
  by_cases hk : k = id
  · subst hk
    rw [view, view, Function.update_self, hrow]
    simp
  · rw [view, view, Function.update_of_ne hk, hother k hk]

end

/-! ## What the subscriber is told -/

section
variable {β ν : Type} [Keyed ν ID] {L : Loader β ν} {m : Module} {s s' : Store β} {l : List Effect}
  {id : ID} {kind : Kind}

theorem callsOf_silent (h : published l = []) : callsOf L m s l = [] := by
  rw [callsOf, engineCalls, h]
  rfl

theorem callsOf_deleted (hm : subscribed m = true) (h : published l = [⟨m, .deleted, id⟩]) :
    callsOf L m s l = [.remove id] := by
  rw [callsOf, engineCalls, h, List.flatMap_singleton, deliver, if_pos hm]
  simp [callOf]

theorem callsOf_changed (hm : subscribed m = true) (hkind : kind ≠ .deleted)
    (h : published l = [⟨m, kind, id⟩]) :
    callsOf L m s l = ((s m).select id).toList.map fun row => .reload (L.load row) := by
  rw [callsOf, engineCalls, h, List.flatMap_singleton, deliver, if_pos hm]
  cases kind with
  | deleted => exact absurd rfl hkind
  | created | updated =>
    dsimp only
    cases (s m).select id <;> simp [callOf]

/-- Events of the other modules are for other engines. -/
theorem callsOf_other (h : ∀ e ∈ published l, e.resource ≠ m) : callsOf L m s l = [] := by
  rw [callsOf, engineCalls, List.filterMap_eq_nil_iff]
  intro call hcall
  obtain ⟨e, he, hcall⟩ := List.mem_flatMap.mp hcall
  have hne := h e he
  unfold deliver at hcall
  split_ifs at hcall with hsub
  · split at hcall
    · rw [List.mem_singleton.mp hcall, callOf, if_neg hne]
    · split at hcall
      · cases hcall
      · rw [List.mem_singleton.mp hcall, callOf, if_neg hne]
  · cases hcall

/-! ## Every handler is followed -/

/-- The calls take the engine to what it is to run after the request. -/
def Follows (L : Loader β ν) (checks : Checks β) (m : Module) (s : Store β) (missed : ID → Bool)
    (x : Request β × Env) (r : Result β) : Prop :=
  view L (missedStep checks m s missed x) (r.1 m) =
    (callsOf L m r.1 r.2).foldl giveCall (view L missed (s m))

variable {checks : Checks β} {missed : ID → Bool} {env : Env} {body : Option β}

theorem Follows.quiet {x : Request β × Env} (hmissed : missedStep checks m s missed x = missed)
    (h : published l = []) : Follows L checks m s missed x (s, l) := by
  rw [Follows, hmissed, callsOf_silent h]
  rfl

theorem follows_set {x : Request β × Env} {t : Table (Row β)} :
    Follows L checks m s missed x (s.set m t, l) ↔ view L (missedStep checks m s missed x) t =
      (callsOf L m (s.set m t) l).foldl giveCall (view L missed (s m)) := by
  unfold Follows
  dsimp only
  rw [set_same]

theorem select_insertRow_of_ne {t t' : Table (Row β)} {b : β} (h : insertRow env t b = some t')
    {k : ID} (hk : k ≠ env.uuid) : t'.select k = t.select k := by
  unfold insertRow at h
  split_ifs at h
  rw [Table.select_insert h]
  exact if_neg (Ne.symm hk)

/-- Whether the insertion of `Create` is reached and goes through. -/
theorem inserts_iff {b : β} (hcheck : checkOf checks m b = none) {t : Table (Row β)} :
    (m = m ∧ ((some b).filter fun b => (checkOf checks m b).isNone).isSome ∧ env.fails = false ∧
      t.select env.uuid = none) ↔ (insertRow env t b).isSome = true := by
  have hfilter : ((some b).filter fun b => (checkOf checks m b).isNone).isSome = true := by
    simp [hcheck]
  rw [eq_self_iff_true, true_and, and_iff_right hfilter]
  constructor
  · rintro ⟨hfails, hfree⟩
    by_contra hnone
    rw [Bool.not_eq_true, Option.isSome_eq_false_iff, Option.isNone_iff_eq_none] at hnone
    rcases insertRow_eq_none hnone with h | h
    · rw [hfails] at h
      cases h
    · exact h hfree
  · intro hsome
    obtain ⟨t', ht'⟩ := Option.isSome_iff_exists.mp hsome
    obtain ⟨hfails, hfree, -⟩ := select_insertRow ht'
    exact ⟨hfails, hfree⟩

theorem missedStep_inserts {b : β} (hcheck : checkOf checks m b = none) {t : Table (Row β)}
    (hinsert : insertRow env (s m) b = some t) :
    missedStep checks m s missed (.create m (some b), env) =
      Function.update missed env.uuid (m = .stun) :=
  if_pos ((inserts_iff hcheck).mpr (Option.isSome_of_eq_some hinsert))

theorem missedStep_refused {b : β} (h : checkOf checks m b = none → insertRow env (s m) b = none) :
    missedStep checks m s missed (.create m (some b), env) = missed := by
  refine if_neg fun hinserts => ?_
  have hcheck : checkOf checks m b = none := by
    have hfilter := hinserts.2.1
    simpa using hfilter
  have hsome := (inserts_iff hcheck).mp hinserts
  rw [h hcheck] at hsome
  cases hsome

/-- An insertion that is told of. -/
theorem reportingCreate_follows (hsub : subscribed m = true) (hstun : m ≠ .stun) :
    Follows L checks m s missed (.create m body, env)
      (reportingCreate m (checkOf checks m) env s body) := by
  have hwol : m ≠ .wol := by
    rintro rfl
    cases hsub
  cases body with
  | none => exact .quiet (if_neg (by simp)) rfl
  | some b =>
    cases hcheck : checkOf checks m b with
    | some message =>
      have hr : reportingCreate m (checkOf checks m) env s (some b) = (s, [.reply 400 message]) := by
        simp only [reportingCreate, hcheck]
      rw [hr]
      exact .quiet (missedStep_refused fun h => by rw [hcheck] at h; cases h) rfl
    | none =>
      cases hinsert : insertRow env (s m) b with
      | none =>
        have hr : reportingCreate m (checkOf checks m) env s (some b) =
            (s, [.exec 0, .reply 500 "create failed"]) := by
          simp only [reportingCreate, hcheck, hinsert]
        rw [hr]
        exact .quiet (missedStep_refused fun _ => hinsert) rfl
      | some t =>
        have hr : reportingCreate m (checkOf checks m) env s (some b) =
            (s.set m t, [.exec 1, .reply 201 ""] ++ notify ⟨m, .created, env.uuid⟩) := by
          simp only [reportingCreate, hcheck, hinsert]
        obtain ⟨row, hrow⟩ := Option.isSome_iff_exists.mp (select_insertRow hinsert).2.2
        rw [hr, follows_set, missedStep_inserts hcheck hinsert, decide_eq_false hstun,
          notify_of_ne hwol, callsOf_changed hsub (by decide) rfl, set_same, hrow]
        exact view_reload hrow fun k hk => select_insertRow_of_ne hinsert hk

/-- A new tunnel is missed. -/
theorem silentCreate_follows : Follows L checks .stun s missed (.create .stun body, env)
    (silentCreate .stun (checkOf checks .stun) env s body) := by
  cases body with
  | none => exact .quiet rfl rfl
  | some b =>
    cases hinsert : insertRow env (s .stun) b with
    | none =>
      have hr : silentCreate .stun (checkOf checks .stun) env s (some b) =
          (s, [.exec 0, .reply 201 ""]) := by
        simp only [silentCreate, checkOf, unchecked, hinsert]
      rw [hr]
      exact .quiet (missedStep_refused fun _ => hinsert) rfl
    | some t =>
      have hr : silentCreate .stun (checkOf checks .stun) env s (some b) =
          (s.set .stun t, [.exec 1, .reply 201 ""]) := by
        simp only [silentCreate, checkOf, unchecked, hinsert]
      rw [hr, follows_set, missedStep_inserts rfl hinsert, callsOf_silent rfl]
      exact view_missed (select_insertRow hinsert).2.1 fun k hk => select_insertRow_of_ne hinsert hk

theorem select_updateRow (t : Table (Row β)) (b : β) (k : ID) :
    (updateRow t id b).select k = (t.select k).map fun row =>
      if row.id = id then setContent b row else row := by
  rw [updateRow, Table.select_update]
  simp

theorem select_updateRow_of_ne (t : Table (Row β)) (b : β) {k : ID} (hk : k ≠ id) :
    (updateRow t id b).select k = t.select k := by
  rw [select_updateRow]
  cases hrow : t.select k with
  | none => rfl
  | some row =>
    have hid : row.id ≠ id := by
      rw [show row.id = k from (Table.select_eq_some.mp hrow).2]
      exact hk
    rw [Option.map_some, if_neg hid]

/-- An update that has reached the table, and is told of. -/
theorem updated_follows (hsub : subscribed m = true) {b : β} (hfails : env.fails = false)
    (hl : published l = [⟨m, .updated, id⟩]) :
    Follows L checks m s missed (.update m id (some b), env) (s.set m (updateRow (s m) id b), l) := by
  rw [follows_set, callsOf_changed hsub (by decide) hl, set_same]
  cases hrow : (s m).select id with
  | none =>
    have hmissed : missedStep checks m s missed (.update m id (some b), env) = missed :=
      if_neg (by simp [hrow])
    have hsame : ∀ k, (updateRow (s m) id b).select k = (s m).select k := by
      intro k
      by_cases hk : k = id
      · rw [hk, select_updateRow, hrow]
        rfl
      · exact select_updateRow_of_ne _ b hk
    rw [hmissed, hsame id, hrow]
    funext k
    rw [view, hsame k]
    rfl
  | some row =>
    have hmissed : missedStep checks m s missed (.update m id (some b), env) =
        Function.update missed id false := if_pos (by simp [hrow, hfails])
    have hrow' : (updateRow (s m) id b).select id = some (setContent b row) := by
      rw [select_updateRow, hrow, Option.map_some, if_pos]
      exact (Table.select_eq_some.mp hrow).2
    rw [hmissed, hrow']
    exact view_reload hrow' fun k hk => select_updateRow_of_ne _ b hk

theorem reportingUpdate_follows (hsub : subscribed m = true) (hstun : m ≠ .stun)
    {tell : Effect → List Effect → List Effect} (htell : tell = replyFirst ∨ tell = eventFirst) :
    Follows L checks m s missed (.update m id body, env) (reportingUpdate m tell env s id body) := by
  have hwol : m ≠ .wol := by
    rintro rfl
    cases hsub
  cases body with
  | none => exact .quiet (if_neg (by simp)) rfl
  | some b =>
    rw [reportingUpdate]
    split_ifs with hfails
    · exact .quiet (if_neg (by simp [hfails, hstun])) rfl
    · rw [notify_of_ne hwol]
      refine updated_follows hsub (by simpa using hfails) ?_
      rcases htell with rfl | rfl <;> rfl

/-- Tunnels are told of even if the database has refused the update. -/
theorem droppingUpdate_follows : Follows L checks .stun s missed (.update .stun id body, env)
    (droppingUpdate .stun (notify ⟨.stun, .updated, id⟩) env s id body) := by
  cases body with
  | none => exact .quiet rfl rfl
  | some b =>
    rw [droppingUpdate]
    split_ifs with hfails
    · rw [Follows, callsOf_changed rfl (by decide) rfl]
      cases hrow : (s .stun).select id with
      | none =>
        have hmissed : missedStep checks .stun s missed (.update .stun id (some b), env) = missed :=
          if_neg (by simp [hrow])
        rw [hmissed]
        rfl
      | some row =>
        have hmissed : missedStep checks .stun s missed (.update .stun id (some b), env) =
            Function.update missed id false := if_pos (by simp [hrow])
        rw [hmissed]
        exact view_reload hrow fun _ _ => rfl
    · exact updated_follows rfl (by simpa using hfails) rfl

/-- A deletion is told of even if the database has refused it. -/
theorem droppingDelete_follows (hsub : subscribed m = true)
    {tell : Effect → List Effect → List Effect} (htell : tell = replyFirst ∨ tell = eventFirst) :
    Follows L checks m s missed (.delete m id, env)
      (droppingDelete m (tell (.reply 200 "deleted") (notify ⟨m, .deleted, id⟩)) env s id) := by
  have hwol : m ≠ .wol := by
    rintro rfl
    cases hsub
  have hmissed : missedStep checks m s missed (.delete m id, env) =
      Function.update missed id env.fails := if_pos rfl
  have hpublished : ∀ rows, published (.exec rows ::
      tell (.reply 200 "deleted") [.publish ⟨m, .deleted, id⟩]) = [⟨m, .deleted, id⟩] := by
    rcases htell with rfl | rfl <;> exact fun _ => rfl
  rw [notify_of_ne hwol, droppingDelete]
  split_ifs with hfails
  · rw [Follows, callsOf_deleted hsub (hpublished _), hmissed]
    refine view_remove (.inr ?_) fun k hk => ⟨rfl, Function.update_of_ne hk _ _⟩
    rw [Function.update_self, hfails]
  · rw [follows_set, callsOf_deleted hsub (hpublished _), hmissed]
    refine view_remove (.inl ?_) fun k hk => ⟨?_, Function.update_of_ne hk _ _⟩
    · rw [deleteRow, Table.select_delete, Option.filter_eq_none_iff]
      intro row hrow
      have hid : row.id = id := (Table.select_eq_some.mp hrow).2
      simp [hid]
    · rw [deleteRow, Table.select_delete]
      cases hrow : (s m).select k with
      | none => rfl
      | some row =>
        have hid : row.id ≠ id := by
          rw [show row.id = k from (Table.select_eq_some.mp hrow).2]
          exact hk
        simp [Option.filter_some, hid]

end

/-! ## The other modules -/

def moduleOf {β : Type} : Request β → Module
  | .create m _ => m
  | .update m _ _ => m
  | .delete m _ => m

/-- No other table is written, and no other module told of. -/
structure Within {β : Type} (m : Module) (s : Store β) (r : Result β) : Prop where
  store : ∀ m' ≠ m, r.1 m' = s m'
  events : ∀ e ∈ published r.2, e.resource = m

section
variable {β : Type} {m : Module} {s : Store β} {l : List Effect} {env : Env} {id : ID}
  {body : Option β}

theorem published_exec (rows : ℕ) (l : List Effect) :
    published (.exec rows :: l) = published l := rfl

theorem published_notify {e : Event} : ∀ e' ∈ published (notify e), e' = e := by
  intro e' he'
  unfold notify at he'
  split at he'
  · cases he'
  · exact List.mem_singleton.mp he'

theorem Within.same (h : ∀ e ∈ published l, e.resource = m) : Within m s (s, l) :=
  ⟨fun _ _ => rfl, h⟩

theorem Within.set (t : Table (Row β)) (h : ∀ e ∈ published l, e.resource = m) :
    Within m s (s.set m t, l) := ⟨fun _ hne => Function.update_of_ne hne _ _, h⟩

theorem within_reportingCreate (check : β → Option String) :
    Within m s (reportingCreate m check env s body) := by
  unfold reportingCreate
  split
  · exact .same nofun
  · split
    · exact .same nofun
    · split
      · exact .same nofun
      · exact .set _ fun e he => congrArg Event.resource (published_notify e he)

theorem within_silentCreate (check : β → Option String) :
    Within m s (silentCreate m check env s body) := by
  unfold silentCreate
  split
  · exact .same nofun
  · split
    · exact .same nofun
    · split
      · exact .same nofun
      · exact .set _ nofun

theorem within_reportingUpdate {tell : Effect → List Effect → List Effect}
    (htell : tell = replyFirst ∨ tell = eventFirst) :
    Within m s (reportingUpdate m tell env s id body) := by
  unfold reportingUpdate
  split
  · exact .same nofun
  · split_ifs
    · exact .same nofun
    · refine .set _ fun e he => ?_
      rcases htell with rfl | rfl
      · exact congrArg Event.resource (published_notify e he)
      · rw [published_exec, eventFirst, published, List.filterMap_append, List.mem_append] at he
        rcases he with he | he
        · exact congrArg Event.resource (published_notify e he)
        · cases he

theorem within_droppingUpdate {tells : List Effect} (h : ∀ e ∈ published tells, e.resource = m) :
    Within m s (droppingUpdate m tells env s id body) := by
  unfold droppingUpdate
  split
  · exact .same nofun
  · split_ifs
    · exact .same h
    · exact .set _ h

theorem within_droppingDelete {tells : List Effect} (h : ∀ e ∈ published tells, e.resource = m) :
    Within m s (droppingDelete m tells env s id) := by
  unfold droppingDelete
  split_ifs
  · exact .same h
  · exact .set _ h

theorem resource_tell {tell : Effect → List Effect → List Effect}
    (htell : tell = replyFirst ∨ tell = eventFirst) {message : String} {e : Event} :
    ∀ e' ∈ published (tell (.reply 200 message) (notify e)), e'.resource = e.resource := by
  intro e' he'
  rcases htell with rfl | rfl
  · exact congrArg Event.resource (published_notify e' he')
  · rw [eventFirst, published, List.filterMap_append, List.mem_append] at he'
    rcases he' with he' | he'
    · exact congrArg Event.resource (published_notify e' he')
    · cases he'

theorem handle_within (checks : Checks β) (s : Store β) (x : Request β × Env) :
    Within (moduleOf x.1) s (handle checks s x) := by
  obtain ⟨req, env⟩ := x
  cases req with
  | create m body =>
    cases m with
    | forward => exact within_reportingCreate checks.forward
    | proxy => exact within_reportingCreate checks.proxy
    | ddns => exact within_reportingCreate unchecked
    | acme => exact within_silentCreate checks.acme
    | stun | wol | cron | storage => exact within_silentCreate unchecked
  | update m id body =>
    cases m with
    | forward | proxy => exact within_reportingUpdate (.inl rfl)
    | ddns => exact within_reportingUpdate (.inr rfl)
    | stun => exact within_droppingUpdate fun e he => congrArg Event.resource (published_notify e he)
    | wol | cron | acme | storage => exact within_droppingUpdate nofun
  | delete m id =>
    cases m with
    | forward | proxy | stun => exact within_droppingDelete (resource_tell (.inl rfl))
    | ddns => exact within_droppingDelete (resource_tell (.inr rfl))
    | wol | cron | acme | storage => exact within_droppingDelete nofun

end

/-! ## Any requests -/

section
variable {β ν : Type} [Keyed ν ID] {L : Loader β ν} {E : Engine ν} {checks : Checks β} {m : Module}

theorem handle_follows (hm : m ∈ [Module.forward, .proxy, .ddns, .stun]) (s : Store β)
    (missed : ID → Bool) (x : Request β × Env) :
    Follows L checks m s missed x (handle checks s x) := by
  by_cases hsame : moduleOf x.1 = m
  · obtain ⟨req, env⟩ := x
    cases req with
    | create m' body =>
      obtain rfl : m' = m := hsame
      cases m' with
      | forward | proxy | ddns => exact reportingCreate_follows rfl (by decide)
      | stun => exact silentCreate_follows
      | wol | cron | acme | storage => simp at hm
    | update m' id body =>
      obtain rfl : m' = m := hsame
      cases m' with
      | forward | proxy => exact reportingUpdate_follows rfl (by decide) (.inl rfl)
      | ddns => exact reportingUpdate_follows rfl (by decide) (.inr rfl)
      | stun => exact droppingUpdate_follows
      | wol | cron | acme | storage => simp at hm
    | delete m' id =>
      obtain rfl : m' = m := hsame
      cases m' with
      | forward | proxy | stun => exact droppingDelete_follows rfl (.inl rfl)
      | ddns => exact droppingDelete_follows rfl (.inr rfl)
      | wol | cron | acme | storage => simp at hm
  · have hwithin := handle_within checks s x
    have hmissed : missedStep checks m s missed x = missed := by
      obtain ⟨req, env⟩ := x
      cases req with
      | create m' body => exact if_neg fun h => hsame h.1
      | update m' id body => exact if_neg fun h => hsame h.1
      | delete m' id => exact if_neg hsame
    rw [Follows, hmissed, hwithin.store m (Ne.symm hsame),
      callsOf_other fun e he => (hwithin.events e he).symm ▸ hsame]
    rfl

theorem foldl_give (rows : List (Row β)) (hnodup : (rows.map Row.id).Nodup) (given : ID → Option ν)
    (id : ID) : (rows.map L.load).foldl give given id =
      ((rows.find? fun row => row.id = id).map L.load).or (given id) := by
  induction rows generalizing given with
  | nil => rfl
  | cons row rows ih =>
    rw [List.map_cons, List.nodup_cons] at hnodup
    rw [List.map_cons, List.foldl_cons, ih hnodup.2, give, L.key_load, List.find?_cons]
    by_cases hid : row.id = id
    · have hrest : rows.find? (fun row => row.id = id) = none := by
        rw [List.find?_eq_none]
        intro other hother heq
        refine hnodup.1 (List.mem_map.mpr ⟨other, hother, ?_⟩)
        rw [hid]
        exact of_decide_eq_true heq
      rw [hrest, decide_eq_true hid, hid, Function.update_self]
      rfl
    · rw [decide_eq_false hid, Function.update_of_ne (Ne.symm hid)]

/-- All that is in the table is given to the engine, and nothing else is left. -/
theorem foldl_give_all (missed : ID → Bool) (t : Table (Row β)) :
    (L.all t).rows.foldl give (view L missed t) = view L (fun _ => false) t := by
  funext id
  refine (foldl_give t.rows t.nodup (view L missed t) id).trans ?_
  change ((t.select id).map L.load).or (view L missed t id) = (t.select id).map L.load
  cases hrow : t.select id with
  | some row => rfl
  | none =>
    rw [view, hrow]
    split_ifs <;> rfl

/-- The engine has one instance for each id it is to run, with what the row says. -/
def Synced (L : Loader β ν) (E : Engine ν) (m : Module) (missed : ID → Bool) (w : World β ν) : Prop :=
  Owns (effective E.runs (view L missed (w.store m))) w.engine

theorem Synced.serve (hE : Disciplined E) (hm : m ∈ [Module.forward, .proxy, .ddns, .stun])
    {missed : ID → Bool} {w : World β ν} (h : Synced L E m missed w) (x : Request β × Env) :
    Synced L E m (missedStep checks m w.store missed x) (w.serve L E checks m x) := by
  have hcalls : ∀ (calls : List (Call ν)) (given : ID → Option ν) (e : Instances ID ν),
      Owns (effective E.runs given) e →
      Owns (effective E.runs (calls.foldl giveCall given)) (calls.foldl E.call e) := by
    intro calls
    induction calls with
    | nil => exact fun _ _ he => he
    | cons c calls ih => exact fun given e he => ih _ _ (hE.call_owns he c)
  rw [Synced, World.serve]
  dsimp only
  rw [handle_follows hm w.store missed x]
  exact hcalls _ _ _ h

/-- The loop of a watchdog, over rows of which those that run already run as they are. -/
def Repairs (E : Engine ν) (tickRule : Instances ID ν → ν → Instances ID ν) : Prop :=
  ∀ (l : List ν), (l.map key).Nodup → ∀ (given : ID → Option ν) (e : Instances ID ν),
    Owns (effective E.runs given) e → (∀ cfg ∈ l, ∀ v ∈ effective E.runs given (key cfg), v = cfg) →
      Owns (effective E.runs (l.foldl give given)) (l.foldl tickRule e)

variable {tickRule : Option (Instances ID ν → ν → Instances ID ν)}

theorem Synced.tick {rule : Instances ID ν → ν → Instances ID ν} (hrule : Repairs E rule)
    {missed : ID → Bool} {w : World β ν} (h : Synced L E m missed w) :
    Synced L E m (fun _ => false)
      { w with engine := (L.all (w.store m)).rows.foldl rule w.engine } := by
  rw [Synced]
  dsimp only
  rw [← foldl_give_all missed]
  refine hrule _ (L.all (w.store m)).nodup _ _ h fun cfg hcfg v hv => ?_
  obtain ⟨row, hrow, rfl⟩ := List.mem_map.mp hcfg
  have hselect : (w.store m).select row.id = some row := Table.select_eq_some.mpr ⟨hrow, rfl⟩
  obtain ⟨hview, -⟩ := Option.filter_eq_some_iff.mp hv
  rw [L.key_load, view, hselect] at hview
  split_ifs at hview
  exact (Option.some.inj hview).symm

theorem Synced.turn (hE : Disciplined E) (hm : m ∈ [Module.forward, .proxy, .ddns, .stun])
    (hrule : ∀ rule ∈ tickRule, Repairs E rule) {missed : ID → Bool} {w : World β ν}
    (h : Synced L E m missed w) (x : Turn β) :
    Synced L E m (missedTurn checks m tickRule w.store missed x)
      (w.turn L E checks m tickRule x) := by
  cases x with
  | request x => exact h.serve hE hm x
  | tick loads =>
    cases tickRule with
    | none => exact h
    | some rule =>
      cases loads with
      | false => exact h
      | true => exact h.tick (hrule rule rfl)

end

end NetBerth.EnginesFollow
