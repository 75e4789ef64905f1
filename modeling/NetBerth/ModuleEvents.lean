import NetBerth.SqlTable

/-!
# Events for changes of the modules

The handlers of the eight modules write to the table of their module, reply, and tell the
notifier, which publishes an event. The wiring has subscribed the engines of six modules:
they load what has been written, or remove it.

Not every handler does its part. Forward, proxy and DDNS tell of everything that did not
fail, also of updates and deletions that find no row; STUN is silent about new tunnels;
WOL, cron, ACME and storage are silent about everything.
-/
namespace NetBerth.ModuleEvents
open SqlTable

abbrev ID := String

inductive Module where
  | forward
  | proxy
  | ddns
  | stun
  | wol
  | cron
  | acme
  | storage
  deriving DecidableEq, Repr

inductive Kind where
  | created
  | updated
  | deleted
  deriving DecidableEq, Repr

/-- The type of an event is the name of the resource and the kind. -/
structure Event where
  resource : Module
  kind : Kind
  id : ID
  deriving DecidableEq, Repr

structure Row (β : Type*) where
  id : ID
  content : β
  deriving DecidableEq, Repr

instance {β : Type*} : Keyed (Row β) ID := ⟨Row.id⟩

abbrev Store (β : Type*) := Module → Table (Row β)

/-- What a handler does, in order: its statement and how many rows it changes, the reply
and the event. -/
inductive Effect where
  | exec (rows : ℕ)
  | reply (status : ℕ) (message : String)
  | publish (e : Event)
  deriving DecidableEq, Repr

/-- `none` is a body that does not decode. -/
inductive Request (β : Type*) where
  | create (m : Module) (body : Option β)
  | update (m : Module) (id : ID) (body : Option β)
  | delete (m : Module) (id : ID)

/-- What `generateUUID` returns, and whether the database refuses the statement. -/
structure Env where
  uuid : ID
  fails : Bool

/-- What is checked before an insertion, with the message of a refusal. -/
structure Checks (β : Type*) where
  forward : β → Option String
  proxy : β → Option String
  acme : β → Option String

section
variable {β : Type*}

/-! ## Statements -/

def Store.set (s : Store β) (m : Module) (t : Table (Row β)) : Store β := Function.update s m t

/-- `none` is an error of the statement. -/
def insertRow (env : Env) (t : Table (Row β)) (b : β) : Option (Table (Row β)) :=
  if env.fails then none else t.insert ⟨env.uuid, b⟩

def setContent (b : β) (row : Row β) : Row β := { row with content := b }

theorem id_setContent (b : β) (row : Row β) : (setContent b row).id = row.id := rfl

def updateRow (t : Table (Row β)) (id : ID) (b : β) : Table (Row β) :=
  t.update (fun row => row.id = id) (setContent b) (id_setContent b)

def deleteRow (t : Table (Row β)) (id : ID) : Table (Row β) := t.delete fun row => row.id = id

/-- The rows with an id, which is a primary key. -/
def rowsWith (t : Table (Row β)) (id : ID) : ℕ := if (t.select id).isSome then 1 else 0

/-! ## The handlers -/

/-- The router sets the notifiers of all handlers but the one for WOL. -/
def notify (e : Event) : List Effect :=
  match e.resource with
  | .wol => []
  | _ => [.publish e]

abbrev Result (β : Type*) := Store β × List Effect

/-- An insertion whose error is reported, and an event for it. -/
def reportingCreate (m : Module) (check : β → Option String) (env : Env) (s : Store β)
    (body : Option β) : Result β :=
  match body with
  | none => (s, [.reply 400 "invalid request body"])
  | some b =>
    match check b with
    | some message => (s, [.reply 400 message])
    | none =>
      match insertRow env (s m) b with
      | none => (s, [.exec 0, .reply 500 "create failed"])
      | some t => (s.set m t, [.exec 1, .reply 201 ""] ++ notify ⟨m, .created, env.uuid⟩)

/-- An insertion whose error is dropped, and no event. -/
def silentCreate (m : Module) (check : β → Option String) (env : Env) (s : Store β)
    (body : Option β) : Result β :=
  match body with
  | none => (s, [.reply 400 "invalid body"])
  | some b =>
    match check b with
    | some message => (s, [.reply 400 message])
    | none =>
      match insertRow env (s m) b with
      | none => (s, [.exec 0, .reply 201 ""])
      | some t => (s.set m t, [.exec 1, .reply 201 ""])

/-- An update whose error is reported; `tell` orders the reply and the event. -/
def reportingUpdate (m : Module) (tell : Effect → List Effect → List Effect) (env : Env)
    (s : Store β) (id : ID) (body : Option β) : Result β :=
  match body with
  | none => (s, [.reply 400 "invalid request body"])
  | some b =>
    if env.fails then (s, [.exec 0, .reply 500 "update failed"])
    else (s.set m (updateRow (s m) id b),
      .exec (rowsWith (s m) id) :: tell (.reply 200 "updated") (notify ⟨m, .updated, id⟩))

/-- An update whose error is dropped, and what is told of it. -/
def droppingUpdate (m : Module) (tells : List Effect) (env : Env) (s : Store β) (id : ID)
    (body : Option β) : Result β :=
  match body with
  | none => (s, [.reply 400 "invalid body"])
  | some b =>
    if env.fails then (s, [.exec 0, .reply 200 "updated"] ++ tells)
    else (s.set m (updateRow (s m) id b),
      [.exec (rowsWith (s m) id), .reply 200 "updated"] ++ tells)

/-- A deletion, whose error is dropped everywhere, and what is told of it. -/
def droppingDelete (m : Module) (tells : List Effect) (env : Env) (s : Store β) (id : ID) :
    Result β :=
  if env.fails then (s, .exec 0 :: tells)
  else (s.set m (deleteRow (s m) id), .exec (rowsWith (s m) id) :: tells)

def replyFirst (reply : Effect) (events : List Effect) : List Effect := reply :: events

def eventFirst (reply : Effect) (events : List Effect) : List Effect := events ++ [reply]

def unchecked (_ : β) : Option String := none

variable (checks : Checks β)

/-- What `Create` checks; only three modules check anything. -/
def checkOf : Module → β → Option String
  | .forward => checks.forward
  | .proxy => checks.proxy
  | .acme => checks.acme
  | _ => unchecked

def create (m : Module) : Env → Store β → Option β → Result β :=
  match m with
  | .forward => reportingCreate .forward checks.forward
  | .proxy => reportingCreate .proxy checks.proxy
  | .ddns => reportingCreate .ddns unchecked
  | .stun => silentCreate .stun unchecked
  | .wol => silentCreate .wol unchecked
  | .cron => silentCreate .cron unchecked
  | .acme => silentCreate .acme checks.acme
  | .storage => silentCreate .storage unchecked

def update (m : Module) (env : Env) (s : Store β) (id : ID) : Option β → Result β :=
  match m with
  | .forward => reportingUpdate .forward replyFirst env s id
  | .proxy => reportingUpdate .proxy replyFirst env s id
  | .ddns => reportingUpdate .ddns eventFirst env s id
  | .stun => droppingUpdate .stun (notify ⟨.stun, .updated, id⟩) env s id
  | .wol => droppingUpdate .wol [] env s id
  | .cron => droppingUpdate .cron [] env s id
  | .acme => droppingUpdate .acme [] env s id
  | .storage => droppingUpdate .storage [] env s id

def delete (m : Module) (env : Env) (s : Store β) (id : ID) : Result β :=
  let reply := Effect.reply 200 "deleted"
  match m with
  | .forward =>
    droppingDelete .forward (replyFirst reply (notify ⟨.forward, .deleted, id⟩)) env s id
  | .proxy => droppingDelete .proxy (replyFirst reply (notify ⟨.proxy, .deleted, id⟩)) env s id
  | .ddns => droppingDelete .ddns (eventFirst reply (notify ⟨.ddns, .deleted, id⟩)) env s id
  | .stun => droppingDelete .stun (replyFirst reply (notify ⟨.stun, .deleted, id⟩)) env s id
  | .wol => droppingDelete .wol [reply] env s id
  | .cron => droppingDelete .cron [reply] env s id
  | .acme => droppingDelete .acme [reply] env s id
  | .storage => droppingDelete .storage [reply] env s id

def handle (s : Store β) (x : Request β × Env) : Result β :=
  match x.1 with
  | .create m body => create checks m x.2 s body
  | .update m id body => update m x.2 s id body
  | .delete m id => delete m x.2 s id

/-! ## The wiring -/

inductive EngineCall (β : Type*) where
  | reload (m : Module) (row : Row β)
  | remove (m : Module) (id : ID)

/-- The modules of `setupEvents`. -/
def subscribed : Module → Bool
  | .forward | .proxy | .ddns | .stun | .cron | .storage => true
  | .wol | .acme => false

/-- What the subscribers of an event do, on the tables as they then are. -/
def deliver (s : Store β) (e : Event) : List (EngineCall β) :=
  if subscribed e.resource then
    match e.kind with
    | .deleted => [.remove e.resource e.id]
    | _ =>
      match (s e.resource).select e.id with
      | none => []
      | some row => [.reload e.resource row]
  else []

/-! ## What is to hold of a request -/

def published (l : List Effect) : List Event :=
  l.filterMap fun
    | .publish e => some e
    | _ => none

def affected (l : List Effect) : ℕ :=
  (l.map fun
    | .exec rows => rows
    | _ => 0).sum

def engineCalls (s : Store β) (l : List Effect) : List (EngineCall β) :=
  (published l).flatMap (deliver s)

/-- The event for a request. -/
def eventOf : Request β × Env → Event
  | (.create m _, env) => ⟨m, .created, env.uuid⟩
  | (.update m id _, _) => ⟨m, .updated, id⟩
  | (.delete m id, _) => ⟨m, .deleted, id⟩

/-- One event for a change and none without, behind the statement. -/
def Announced (e : Event) (l : List Effect) : Prop :=
  published l = (if affected l = 0 then [] else [e]) ∧
  l.Pairwise fun x y => ∀ e, x = .publish e → ∀ rows, y ≠ .exec rows

/-- A change of a subscribed module reaches its engine. -/
def Applied (s : Store β) (e : Event) (l : List Effect) : Prop :=
  subscribed e.resource = true → affected l ≠ 0 →
    match e.kind with
    | .deleted => engineCalls s l = [.remove e.resource e.id]
    | _ => ∃ row, (s e.resource).select e.id = some row ∧
        engineCalls s l = [.reload e.resource row]

def Told (e : Event) (r : Result β) : Prop := Announced e r.2 ∧ Applied r.1 e r.2

def AnnouncedOnce (s : Store β) (x : Request β × Env) : Prop :=
  Told (eventOf x) (handle checks s x)

/-! ## When it does -/

/-- The body decodes and passes what `Create` checks. -/
def Accepted (m : Module) (body : Option β) : Prop := ∃ b ∈ body, checkOf checks m b = none

/-- The insertion goes through. -/
def Inserts (s : Store β) (m : Module) (env : Env) : Prop :=
  env.fails = false ∧ (s m).select env.uuid = none

/-- The statement finds a row. -/
def Hits (s : Store β) (m : Module) (id : ID) (env : Env) : Prop :=
  env.fails = false ∧ ((s m).select id).isSome = true

def Proper (s : Store β) (x : Request β × Env) : Prop :=
  match x.1 with
  | .create m body =>
    match m with
    | .forward | .proxy | .ddns => True
    | m => Accepted checks m body → ¬Inserts s m x.2
  | .update m id body =>
    match m with
    | .forward | .proxy | .ddns => body.isSome → x.2.fails = false → Hits s m id x.2
    | .stun => body.isSome → Hits s m id x.2
    | m => body.isSome → ¬Hits s m id x.2
  | .delete m id =>
    match m with
    | .forward | .proxy | .ddns | .stun => Hits s m id x.2
    | m => ¬Hits s m id x.2

/-! ## A statement and what is told of it -/

variable {s s' : Store β} {m : Module} {id : ID} {env : Env} {e : Event} {l : List Effect}

/-- Who publishes nothing tells the truth exactly where nothing has changed. -/
theorem told_iff_of_silent (hl : published l = []) : Told e (s', l) ↔ affected l = 0 := by
  constructor
  · rintro ⟨⟨hpub, -⟩, -⟩
    by_contra hne
    rw [hl, if_neg hne] at hpub
    cases hpub
  · intro h
    refine ⟨⟨?_, ?_⟩, fun _ hne => absurd h hne⟩
    · rw [hl, if_pos h]
    · refine List.pairwise_of_forall_mem_list fun x hx _ _ e he => ?_
      have hmem : e ∈ published l := List.mem_filterMap.mpr ⟨x, hx, by rw [he]⟩
      rw [hl] at hmem
      cases hmem

/-- Who publishes the event behind the statement tells the truth exactly where a row has
changed. -/
theorem told_iff_of_published (hl : published l = [e])
    (horder : l.Pairwise fun x y => ∀ e, x = .publish e → ∀ rows, y ≠ .exec rows)
    (hrow : affected l ≠ 0 → e.kind ≠ .deleted → ((s' e.resource).select e.id).isSome) :
    Told e (s', l) ↔ affected l ≠ 0 := by
  constructor
  · rintro ⟨⟨hpub, -⟩, -⟩ h
    rw [hl, if_pos h] at hpub
    cases hpub
  · intro hne
    refine ⟨⟨?_, horder⟩, fun hsub _ => ?_⟩
    · rw [hl, if_neg hne]
    · have hcalls : engineCalls s' l = deliver s' e := by
        rw [engineCalls, hl, List.flatMap_singleton]
      rw [hcalls, deliver, if_pos hsub]
      obtain ⟨resource, kind, id⟩ := e
      cases kind with
      | deleted => rfl
      | created =>
        obtain ⟨row, hsel⟩ := Option.isSome_iff_exists.mp (hrow hne (by simp))
        exact ⟨row, hsel, by simp only [hsel]⟩
      | updated =>
        obtain ⟨row, hsel⟩ := Option.isSome_iff_exists.mp (hrow hne (by simp))
        exact ⟨row, hsel, by simp only [hsel]⟩

/-- The statement, the reply and the event, the last two in either order. -/
theorem told_iff_of_tell {tell : Effect → List Effect → List Effect}
    (htell : tell = replyFirst ∨ tell = eventFirst) {rows : ℕ} {message : String}
    (hrow : rows ≠ 0 → e.kind ≠ .deleted → ((s' e.resource).select e.id).isSome) :
    Told e (s', .exec rows :: tell (.reply 200 message) [.publish e]) ↔ rows ≠ 0 := by
  have haffected : affected (.exec rows :: tell (.reply 200 message) [.publish e]) = rows := by
    rcases htell with rfl | rfl <;> rfl
  have hpublished : published (.exec rows :: tell (.reply 200 message) [.publish e]) = [e] := by
    rcases htell with rfl | rfl <;> rfl
  rw [told_iff_of_published hpublished ?_ ?_, haffected]
  · rcases htell with rfl | rfl <;> simp [replyFirst, eventFirst]
  · rw [haffected]
    exact hrow

/-! ## Rows after a statement -/

@[simp] theorem set_same (s : Store β) (m : Module) (t : Table (Row β)) : s.set m t m = t :=
  Function.update_self ..

theorem select_insertRow {t t' : Table (Row β)} {b : β} (h : insertRow env t b = some t') :
    env.fails = false ∧ t.select env.uuid = none ∧ (t'.select env.uuid).isSome := by
  unfold insertRow at h
  split_ifs at h with hfails
  refine ⟨by simpa using hfails, Table.select_key_of_insert h, ?_⟩
  rw [Table.select_insert h]
  exact congrArg Option.isSome (if_pos rfl)

theorem insertRow_eq_none {t : Table (Row β)} {b : β} (h : insertRow env t b = none) :
    env.fails = true ∨ t.select env.uuid ≠ none := by
  unfold insertRow at h
  split_ifs at h with hfails
  · exact .inl hfails
  · right
    obtain ⟨row, hrow, hid⟩ := List.mem_map.mp (Table.insert_eq_none.mp h)
    exact fun hnone => Table.select_eq_none.mp hnone row hrow hid

theorem isSome_updateRow (t : Table (Row β)) (id k : ID) (b : β) :
    ((updateRow t id b).select k).isSome = (t.select k).isSome := by
  rw [updateRow, Table.select_update, Option.isSome_map]

theorem rowsWith_ne_zero {t : Table (Row β)} : rowsWith t id ≠ 0 ↔ (t.select id).isSome := by
  unfold rowsWith
  split_ifs with h <;> simp [h]

theorem notify_of_ne (h : e.resource ≠ .wol) : notify e = [.publish e] := by
  unfold notify
  split
  · next hwol => exact absurd hwol h
  · rfl

/-! ## The handlers -/

theorem reportingCreate_told (hm : m ≠ .wol) (check : β → Option String) (env : Env) (s : Store β)
    (body : Option β) : Told ⟨m, .created, env.uuid⟩ (reportingCreate m check env s body) := by
  cases body with
  | none => exact (told_iff_of_silent rfl).mpr rfl
  | some b =>
    simp only [reportingCreate]
    split
    · exact (told_iff_of_silent rfl).mpr rfl
    · split
      · exact (told_iff_of_silent rfl).mpr rfl
      · next t ht =>
        rw [notify_of_ne hm]
        refine (told_iff_of_published rfl (by simp) fun _ _ => ?_).mpr one_ne_zero
        rw [set_same]
        exact (select_insertRow ht).2.2

theorem silentCreate_told_iff (check : β → Option String) (body : Option β) :
    Told ⟨m, .created, env.uuid⟩ (silentCreate m check env s body) ↔
      ((∃ b ∈ body, check b = none) → ¬Inserts s m env) := by
  cases body with
  | none =>
    refine ⟨?_, fun _ => (told_iff_of_silent rfl).mpr rfl⟩
    rintro - ⟨b, hb, -⟩
    cases hb
  | some b =>
    simp only [silentCreate]
    split
    · next message hcheck =>
      refine ⟨?_, fun _ => (told_iff_of_silent rfl).mpr rfl⟩
      rintro - ⟨b', hb', hnone⟩
      cases hb'
      rw [hnone] at hcheck
      cases hcheck
    · next hcheck =>
      split
      · next hnone =>
        refine ⟨?_, fun _ => (told_iff_of_silent rfl).mpr rfl⟩
        rintro - - ⟨hfails, hfree⟩
        rcases insertRow_eq_none hnone with h | h
        · rw [hfails] at h
          cases h
        · exact h hfree
      · next t ht =>
        obtain ⟨hfails, hfree, -⟩ := select_insertRow ht
        rw [told_iff_of_silent rfl]
        constructor
        · intro h
          cases h
        · intro h
          exact absurd ⟨hfails, hfree⟩ (h ⟨b, rfl, hcheck⟩)

/-- The row that has been updated is there. -/
theorem isSome_set_updateRow (b : β) (h : rowsWith (s m) id ≠ 0) :
    ((s.set m (updateRow (s m) id b) m).select id).isSome := by
  rw [set_same, isSome_updateRow]
  exact rowsWith_ne_zero.mp h

theorem hits_iff (hfails : env.fails = false) : Hits s m id env ↔ rowsWith (s m) id ≠ 0 := by
  rw [rowsWith_ne_zero, Hits]
  exact and_iff_right hfails

theorem reportingUpdate_told_iff (hm : m ≠ .wol) {tell : Effect → List Effect → List Effect}
    (htell : tell = replyFirst ∨ tell = eventFirst) (body : Option β) :
    Told ⟨m, .updated, id⟩ (reportingUpdate m tell env s id body) ↔
      (body.isSome → env.fails = false → Hits s m id env) := by
  cases body with
  | none => exact ⟨nofun, fun _ => (told_iff_of_silent rfl).mpr rfl⟩
  | some b =>
    simp only [reportingUpdate]
    split_ifs with hfails
    · refine ⟨fun _ _ h => ?_, fun _ => (told_iff_of_silent rfl).mpr rfl⟩
      rw [hfails] at h
      cases h
    · have hruns : env.fails = false := by simpa using hfails
      rw [notify_of_ne hm, told_iff_of_tell htell fun h _ => isSome_set_updateRow b h,
        hits_iff hruns]
      simp [hruns]

theorem droppingUpdate_told_iff (hm : m ≠ .wol) (body : Option β) :
    Told ⟨m, .updated, id⟩ (droppingUpdate m (notify ⟨m, .updated, id⟩) env s id body) ↔
      (body.isSome → Hits s m id env) := by
  cases body with
  | none => exact ⟨nofun, fun _ => (told_iff_of_silent rfl).mpr rfl⟩
  | some b =>
    rw [notify_of_ne hm]
    simp only [droppingUpdate]
    split_ifs with hfails
    · change Told _ (s, .exec 0 :: replyFirst (.reply 200 "updated") [.publish _]) ↔ _
      rw [told_iff_of_tell (.inl rfl) (absurd rfl)]
      simp [Hits, hfails]
    · have hruns : env.fails = false := by simpa using hfails
      change Told _ (_, .exec _ :: replyFirst (.reply 200 "updated") [.publish _]) ↔ _
      rw [told_iff_of_tell (.inl rfl) fun h _ => isSome_set_updateRow b h, hits_iff hruns]
      simp

theorem silentUpdate_told_iff (body : Option β) :
    Told ⟨m, .updated, id⟩ (droppingUpdate m [] env s id body) ↔
      (body.isSome → ¬Hits s m id env) := by
  cases body with
  | none => exact ⟨nofun, fun _ => (told_iff_of_silent rfl).mpr rfl⟩
  | some b =>
    simp only [droppingUpdate]
    split_ifs with hfails
    · refine ⟨fun _ _ h => ?_, fun _ => (told_iff_of_silent rfl).mpr rfl⟩
      rw [h.1] at hfails
      cases hfails
    · have hruns : env.fails = false := by simpa using hfails
      rw [told_iff_of_silent rfl, hits_iff hruns]
      simp [affected]

theorem droppingDelete_told_iff (hm : m ≠ .wol) {tell : Effect → List Effect → List Effect}
    (htell : tell = replyFirst ∨ tell = eventFirst) :
    Told ⟨m, .deleted, id⟩ (droppingDelete m (tell (.reply 200 "deleted")
      (notify ⟨m, .deleted, id⟩)) env s id) ↔ Hits s m id env := by
  rw [notify_of_ne hm, droppingDelete]
  split_ifs with hfails
  · rw [told_iff_of_tell htell (absurd rfl)]
    simp [Hits, hfails]
  · have hruns : env.fails = false := by simpa using hfails
    rw [told_iff_of_tell htell fun _ h => absurd rfl h, hits_iff hruns]

theorem silentDelete_told_iff :
    Told ⟨m, .deleted, id⟩ (droppingDelete m [.reply 200 "deleted"] env s id) ↔
      ¬Hits s m id env := by
  rw [droppingDelete]
  split_ifs with hfails
  · rw [told_iff_of_silent rfl]
    simp [Hits, hfails, affected]
  · have hruns : env.fails = false := by simpa using hfails
    rw [told_iff_of_silent rfl, hits_iff hruns]
    simp [affected]

theorem announcedOnce_iff (checks : Checks β) (s : Store β) (x : Request β × Env) :
    AnnouncedOnce checks s x ↔ Proper checks s x := by
  obtain ⟨req, env⟩ := x
  cases req with
  | create m body =>
    cases m with
    | forward => exact iff_true_intro (reportingCreate_told (by decide) _ env s body)
    | proxy => exact iff_true_intro (reportingCreate_told (by decide) _ env s body)
    | ddns => exact iff_true_intro (reportingCreate_told (by decide) _ env s body)
    | stun => exact silentCreate_told_iff _ body
    | wol => exact silentCreate_told_iff _ body
    | cron => exact silentCreate_told_iff _ body
    | acme => exact silentCreate_told_iff _ body
    | storage => exact silentCreate_told_iff _ body
  | update m id body =>
    cases m with
    | forward => exact reportingUpdate_told_iff (by decide) (.inl rfl) body
    | proxy => exact reportingUpdate_told_iff (by decide) (.inl rfl) body
    | ddns => exact reportingUpdate_told_iff (by decide) (.inr rfl) body
    | stun => exact droppingUpdate_told_iff (by decide) body
    | wol => exact silentUpdate_told_iff body
    | cron => exact silentUpdate_told_iff body
    | acme => exact silentUpdate_told_iff body
    | storage => exact silentUpdate_told_iff body
  | delete m id =>
    cases m with
    | forward => exact droppingDelete_told_iff (by decide) (.inl rfl)
    | proxy => exact droppingDelete_told_iff (by decide) (.inl rfl)
    | ddns => exact droppingDelete_told_iff (by decide) (.inr rfl)
    | stun => exact droppingDelete_told_iff (by decide) (.inl rfl)
    | wol => exact silentDelete_told_iff
    | cron => exact silentDelete_told_iff
    | acme => exact silentDelete_told_iff
    | storage => exact silentDelete_told_iff

/-! ## The count of rows -/

theorem rows_set {t : Table (Row β)} (h : t.rows = (s m).rows) (k : Module) :
    (s.set m t k).rows = (s k).rows := by
  by_cases hk : k = m
  · rw [hk, set_same, h]
  · rw [Store.set, Function.update_of_ne hk]

theorem ne_of_rowsWith {t : Table (Row β)} (h : rowsWith t id = 0) :
    ∀ row ∈ t.rows, row.id ≠ id := by
  have hmissing : t.select id = none := by
    rw [← Option.not_isSome_iff_eq_none]
    exact fun hsome => rowsWith_ne_zero.mpr hsome h
  exact Table.select_eq_none.mp hmissing

theorem rows_updateRow {t : Table (Row β)} (h : rowsWith t id = 0) (b : β) :
    (updateRow t id b).rows = t.rows := by
  rw [updateRow, Table.update]
  conv_rhs => rw [← List.map_id t.rows]
  refine List.map_congr_left fun row hrow => ?_
  simp [ne_of_rowsWith h row hrow]

theorem rows_deleteRow {t : Table (Row β)} (h : rowsWith t id = 0) :
    (deleteRow t id).rows = t.rows := by
  rw [deleteRow, Table.delete, List.filter_eq_self]
  intro row hrow
  simpa using ne_of_rowsWith h row hrow

/-- What reports no row leaves the rows as they were. -/
def Counted (s : Store β) (r : Result β) : Prop :=
  affected r.2 = 0 → ∀ k, (r.1 k).rows = (s k).rows

theorem Counted.same (s : Store β) (l : List Effect) : Counted s (s, l) := fun _ _ => rfl

theorem Counted.inserted (s s' : Store β) (l : List Effect) : Counted s (s', .exec 1 :: l) := by
  intro h
  have hone : 1 + affected l = 0 := h
  omega

theorem Counted.found {t : Table (Row β)} (h : rowsWith (s m) id = 0 → t.rows = (s m).rows)
    (l : List Effect) : Counted s (s.set m t, .exec (rowsWith (s m) id) :: l) := by
  intro hnone
  have hsum : rowsWith (s m) id + affected l = 0 := hnone
  exact rows_set (h (Nat.add_eq_zero_iff.mp hsum).1)

theorem counted_reportingCreate (m : Module) (check : β → Option String) (body : Option β) :
    Counted s (reportingCreate m check env s body) := by
  unfold reportingCreate
  split
  · exact .same s _
  · split
    · exact .same s _
    · split
      · exact .same s _
      · exact .inserted s _ _

theorem counted_silentCreate (m : Module) (check : β → Option String) (body : Option β) :
    Counted s (silentCreate m check env s body) := by
  unfold silentCreate
  split
  · exact .same s _
  · split
    · exact .same s _
    · split
      · exact .same s _
      · exact .inserted s _ _

theorem counted_reportingUpdate (m : Module) (tell : Effect → List Effect → List Effect)
    (body : Option β) : Counted s (reportingUpdate m tell env s id body) := by
  unfold reportingUpdate
  split
  · exact .same s _
  · split_ifs
    · exact .same s _
    · exact .found (fun h => rows_updateRow h _) _

theorem counted_droppingUpdate (m : Module) (tells : List Effect) (body : Option β) :
    Counted s (droppingUpdate m tells env s id body) := by
  unfold droppingUpdate
  split
  · exact .same s _
  · split_ifs
    · exact .same s _
    · exact .found (fun h => rows_updateRow h _) _

theorem counted_droppingDelete (m : Module) (tells : List Effect) :
    Counted s (droppingDelete m tells env s id) := by
  unfold droppingDelete
  split_ifs
  · exact .same s _
  · exact .found rows_deleteRow _

/-- Where a request reports no row, the tables have the rows they had. -/
theorem counted_handle (checks : Checks β) (s : Store β) (x : Request β × Env) :
    Counted s (handle checks s x) := by
  obtain ⟨req, env⟩ := x
  cases req with
  | create m body =>
    cases m <;> first | exact counted_reportingCreate _ _ body | exact counted_silentCreate _ _ body
  | update m id body =>
    cases m <;> first | exact counted_reportingUpdate _ _ body | exact counted_droppingUpdate _ _ body
  | delete m id => cases m <;> exact counted_droppingDelete _ _

/-! ## Every run -/

/-- A condition on each request of a run, in the state the request finds. -/
def Along (checks : Checks β) (P : Store β → Request β × Env → Prop) :
    Store β → List (Request β × Env) → Prop
  | _, [] => True
  | s, x :: xs => P s x ∧ Along checks P (handle checks s x).1 xs

theorem along_congr {checks : Checks β} {P Q : Store β → Request β × Env → Prop}
    (h : ∀ s x, P s x ↔ Q s x) (s : Store β) (xs : List (Request β × Env)) :
    Along checks P s xs ↔ Along checks Q s xs := by
  induction xs generalizing s with
  | nil => rfl
  | cons x xs ih => exact and_congr (h s x) (ih _)

/-- In a run from any tables, every change is announced once, and nothing else is, and it
reaches the engine, exactly where each request is a proper one. -/
theorem changes_announced_iff (checks : Checks β) (s : Store β) (xs : List (Request β × Env)) :
    Along checks (AnnouncedOnce checks) s xs ↔ Along checks (Proper checks) s xs :=
  along_congr (announcedOnce_iff checks) s xs

end

def noChecks : Checks Unit := ⟨unchecked, unchecked, unchecked⟩

/-- A new cron job is not announced, and the deletion of a rule that is not there is. -/
def cronThenForward : List (Request Unit × Env) :=
  [(.create .cron (some ()), ⟨"j1", false⟩), (.delete .forward "f1", ⟨"", false⟩)]

theorem changes_unannounced :
    ¬Along noChecks (AnnouncedOnce noChecks) (fun _ => Table.empty) cronThenForward := by
  rintro ⟨hcron, -⟩
  have hproper := (announcedOnce_iff noChecks _ _).mp hcron
  exact hproper ⟨(), rfl, rfl⟩ ⟨rfl, rfl⟩

end NetBerth.ModuleEvents
