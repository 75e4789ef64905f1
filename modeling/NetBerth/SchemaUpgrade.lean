import NetBerth.Transitions
import NetBerth.WriteAheadLog

/-!
# The backup before an upgrade

`openSQLite` opens the database, makes sure of the table of versions, and if the version
is an old one copies the file of the database, and not its log, to `.pre-upgrade.bak`.
Then it runs the statements of the migration one by one, each of them a commit, and
records the version. An attempt that fails closes the database, which copies the log into
the file; one that is killed leaves both as they are. The next attempt starts over, and
copies again if no version has been recorded.

So a backup is good if, at some time before anything of the migration was committed, all of
the log was in the file, and from then until the copy nothing more was copied back into it.

What the statements do to the database is left to SQLite, which may also copy parts of
the log into the file at any time.
-/
namespace NetBerth.SchemaUpgrade
open Transitions WriteAheadLog

variable {Page α : Type*} [DecidableEq Page]

def SchemaVersion : ℕ := 4

def isFileBasedSQLite (path : String) : Bool :=
  path ≠ ":memory:" ∧ ¬"mode=memory".toList <:+: path.toList

/-- The frames that each statement commits, depending on what the database holds, and the
version that is read from it, which is 0 without a table of versions. -/
structure Engine (Page α : Type*) where
  ensureSchemaMigrations : (Page → α) → List (Page × α)
  currentSchemaVersion : (Page → α) → ℕ
  migrations : List ((Page → α) → List (Page × α))
  recordSchemaVersion : (Page → α) → List (Page × α)

/-- How far an attempt has come. -/
inductive Phase where
  | stopped
  | pinged
  | ensured
  | failing
  | migrating (executed : ℕ)
  | open
  deriving DecidableEq, Repr

/-- The database with its log, and what `.pre-upgrade.bak` holds if it is opened alone. -/
structure State (Page α : Type*) where
  store : Store Page α
  bak : Option (Page → α)
  phase : Phase

inductive Event (Page α : Type*) where
  | ping
  | ensure
  | skip
  | copy
  /-- The copy ends before all is copied. -/
  | tear (copied : Page → α)
  | execute
  | record
  /-- `db.Close()`, after an error or later. -/
  | close
  | kill
  | backfill (frame : Page × α)
  | checkpoint

section
variable [DecidableEq α] (E : Engine Page α) (path : String)

/-- Whether there is to be a backup. -/
def Outdated (s : State Page α) : Prop :=
  E.currentSchemaVersion s.store.content < SchemaVersion ∧ isFileBasedSQLite path = true

instance (s : State Page α) : Decidable (Outdated E path s) := inferInstanceAs (Decidable (_ ∧ _))

def step (s : State Page α) : Event Page α → Option (State Page α)
  | .ping => if s.phase = .stopped then some { s with phase := .pinged } else none
  | .ensure =>
    if s.phase = .pinged then
      some { s with
        store := s.store.commit (E.ensureSchemaMigrations s.store.content)
        phase := .ensured }
    else none
  | .skip =>
    if s.phase = .ensured ∧ ¬Outdated E path s then some { s with phase := .migrating 0 } else none
  | .copy =>
    if s.phase = .ensured ∧ Outdated E path s then
      some { s with bak := some s.store.main, phase := .migrating 0 }
    else none
  | .tear copied =>
    if s.phase = .ensured ∧ Outdated E path s then
      some { s with bak := some copied, phase := .failing }
    else none
  | .execute =>
    match s.phase with
    | .migrating executed => E.migrations[executed]?.map fun statement =>
        { s with store := s.store.commit (statement s.store.content), phase := .migrating (executed + 1) }
    | _ => none
  | .record =>
    if s.phase = .migrating E.migrations.length then
      some { s with store := s.store.commit (E.recordSchemaVersion s.store.content), phase := .open }
    else none
  | .close =>
    if s.phase ≠ .stopped then some { s with store := s.store.checkpoint, phase := .stopped } else none
  | .kill => some { s with phase := .stopped }
  | .backfill frame =>
    if s.phase ≠ .stopped ∧ frame ∈ s.store.log then
      some { s with store := s.store.backfill frame }
    else none
  | .checkpoint =>
    if s.phase ≠ .stopped then some { s with store := s.store.checkpoint } else none

end

/-- The events that write to the backup. -/
def Event.touches : Event Page α → Bool
  | .copy | .tear _ => true
  | _ => false

/-- The events that copy from the log into the file. -/
def Event.copiesBack : Event Page α → Bool
  | .close | .backfill _ | .checkpoint => true
  | _ => false

/-- Nothing of the migration is committed. -/
def idle (E : Engine Page α) (s : State Page α) : Event Page α → Bool
  | .execute =>
    match s.phase with
    | .migrating executed =>
      (E.migrations[executed]?).all fun statement => (statement s.store.content).isEmpty
    | _ => true
  | .record => (E.recordSchemaVersion s.store.content).isEmpty
  | _ => true

/-! ## Before there is a backup -/

/-- Nothing of the migration has run. -/
def Phase.early : Phase → Prop
  | .stopped => True
  | .pinged => True
  | .ensured => True
  | .failing => True
  | .migrating _ => False
  | .open => False

/-- The version is an old one, and nothing of the migration has run since. -/
structure Pending (E : Engine Page α) (s : State Page α) : Prop where
  version : E.currentSchemaVersion s.store.content < SchemaVersion
  early : s.phase.early

theorem Pending.not_open {E : Engine Page α} {s : State Page α} (h : Pending E s) :
    s.phase ≠ .open := by
  intro hopen
  have hearly := h.early
  rw [hopen] at hearly
  exact hearly

section
variable [DecidableEq α] {E : Engine Page α} {path : String} {s t : State Page α}

theorem execute_spec (hstep : step E path s .execute = some t) :
    ∃ executed statement, s.phase = .migrating executed ∧
      E.migrations[executed]? = some statement ∧ t = { s with
        store := s.store.commit (statement s.store.content), phase := .migrating (executed + 1) } := by
  simp only [step] at hstep
  split at hstep
  · rename_i executed hphase
    obtain ⟨statement, hstatement, rfl⟩ := Option.map_eq_some_iff.mp hstep
    exact ⟨executed, statement, hphase, hstatement, rfl⟩
  · cases hstep

/-- An attempt cannot get past the backup without making it. -/
theorem Pending.step
    (hensure : ∀ content, E.currentSchemaVersion (replay content (E.ensureSchemaMigrations content)) =
      E.currentSchemaVersion content)
    (hpath : isFileBasedSQLite path = true) (h : Pending E s) {e : Event Page α} (he : e ≠ .copy)
    (hstep : SchemaUpgrade.step E path s e = some t) : Pending E t := by
  have hearly := h.early
  cases e with
  | ping =>
    obtain ⟨-, rfl⟩ := of_guard hstep
    exact ⟨h.version, trivial⟩
  | ensure =>
    obtain ⟨-, rfl⟩ := of_guard hstep
    constructor
    · rw [Store.content_commit, hensure]
      exact h.version
    · trivial
  | skip =>
    obtain ⟨hguard, -⟩ := of_guard hstep
    exact absurd ⟨h.version, hpath⟩ hguard.2
  | copy => exact absurd rfl he
  | tear copied =>
    obtain ⟨-, rfl⟩ := of_guard hstep
    exact ⟨h.version, trivial⟩
  | execute =>
    obtain ⟨executed, statement, hphase, -, -⟩ := execute_spec hstep
    rw [hphase] at hearly
    exact hearly.elim
  | record =>
    obtain ⟨hguard, -⟩ := of_guard hstep
    rw [hguard] at hearly
    exact hearly.elim
  | close =>
    obtain ⟨-, rfl⟩ := of_guard hstep
    constructor
    · rw [Store.content_checkpoint]
      exact h.version
    · trivial
  | kill =>
    cases hstep
    exact ⟨h.version, trivial⟩
  | backfill frame =>
    obtain ⟨hguard, rfl⟩ := of_guard hstep
    constructor
    · rw [Store.content_backfill _ hguard.2]
      exact h.version
    · exact hearly
  | checkpoint =>
    obtain ⟨-, rfl⟩ := of_guard hstep
    constructor
    · rw [Store.content_checkpoint]
      exact h.version
    · exact hearly

/-! ## After the last copy -/

/-- The backup stays as it is, if the path is not taken for that of a file whatever happens. -/
theorem bak_eq {e : Event Page α} (he : e.touches = true → isFileBasedSQLite path = false)
    (hstep : step E path s e = some t) : t.bak = s.bak := by
  cases e with
  | copy | tear _ =>
    obtain ⟨hguard, -⟩ := of_guard hstep
    exact absurd hguard.2.2 (by simp [he rfl])
  | execute =>
    obtain ⟨executed, statement, -, -, rfl⟩ := execute_spec hstep
    rfl
  | kill =>
    cases hstep
    rfl
  | ping | ensure | skip | record | close | backfill _ | checkpoint =>
    obtain ⟨-, rfl⟩ := of_guard hstep
    rfl

theorem bak_eq_of_run {ok : State Page α → Event Page α → Prop}
    (hok : ∀ s e, ok s e → e.touches = true → isFileBasedSQLite path = false)
    (h : Run (step E path) ok s t) : t.bak = s.bak :=
  h.invariant (I := fun u => u.bak = s.bak)
    (fun _ e _ hs he hstep => (bak_eq (hok _ e he) hstep).trans hs) rfl

/-! ## Up to the last copy -/

theorem main_eq {e : Event Page α} (he : e.copiesBack = false) (hstep : step E path s e = some t) :
    t.store.main = s.store.main := by
  cases e with
  | execute =>
    obtain ⟨executed, statement, -, -, rfl⟩ := execute_spec hstep
    rfl
  | kill =>
    cases hstep
    rfl
  | close | backfill _ | checkpoint => cases he
  | ping | ensure | skip | copy | tear _ | record =>
    obtain ⟨-, rfl⟩ := of_guard hstep
    rfl

/-- The database holds what it did, perhaps with the table of versions. -/
def Held (E : Engine Page α) (before content : Page → α) : Prop :=
  content = before ∨ content = replay before (E.ensureSchemaMigrations before)

theorem Held.step {before : Page → α}
    (hagain : ∀ content,
      E.ensureSchemaMigrations (replay content (E.ensureSchemaMigrations content)) = [])
    (h : Held E before s.store.content) {e : Event Page α} (he : idle E s e = true)
    (hstep : SchemaUpgrade.step E path s e = some t) : Held E before t.store.content := by
  cases e with
  | ensure =>
    obtain ⟨-, rfl⟩ := of_guard hstep
    rw [Store.content_commit]
    rcases h with h | h
    · exact .inr (by rw [h])
    · exact .inr (by rw [h, hagain, replay_nil])
  | execute =>
    obtain ⟨executed, statement, hphase, hstatement, rfl⟩ := execute_spec hstep
    have hnothing : statement s.store.content = [] := by simpa [idle, hphase, hstatement] using he
    rw [Store.content_commit, hnothing]
    exact h
  | record =>
    obtain ⟨-, rfl⟩ := of_guard hstep
    have hnothing : E.recordSchemaVersion s.store.content = [] := List.isEmpty_iff.mp he
    rw [Store.content_commit, hnothing]
    exact h
  | backfill frame =>
    obtain ⟨hguard, rfl⟩ := of_guard hstep
    rw [Store.content_backfill _ hguard.2]
    exact h
  | kill =>
    cases hstep
    exact h
  | ping | skip | copy | tear _ | close | checkpoint =>
    obtain ⟨-, rfl⟩ := of_guard hstep
    exact h

end

/-- Before anything of the migration was committed, all of the log was in the file, and nothing has
been copied into the file since. -/
def Undisturbed [DecidableEq α] (E : Engine Page α) (path : String) (s : State Page α)
    (events : List (Event Page α)) : Prop :=
  ∃ early late mid, events = early ++ late ∧
    early.foldlM (fun s e => if idle E s e then step E path s e else none) s = some mid ∧
    Settled mid.store.main mid.store.log ∧ ∀ e ∈ late, e.copiesBack = false

/-- The file holds what the database held, perhaps with the table of versions. -/
def PreUpgrade {Content : Type*} (logical : (Page → α) → Content) (E : Engine Page α)
    (content file : Page → α) : Prop :=
  logical file = logical content ∨
    logical file = logical (replay content (E.ensureSchemaMigrations content))

section
variable [DecidableEq α] {E : Engine Page α} {path : String} {s t : State Page α}

/-- The file is as it was when all of the log was in it. -/
theorem Undisturbed.held {events : List (Event Page α)} {before : State Page α}
    (hagain : ∀ content,
      E.ensureSchemaMigrations (replay content (E.ensureSchemaMigrations content)) = [])
    (h : Undisturbed E path s events) (hrun : events.foldlM (step E path) s = some before) :
    Held E s.store.content before.store.main := by
  obtain ⟨early, late, mid, rfl, hearly, hsettled, hlate⟩ := h
  have hidle : Run (step E path) (fun s e => idle E s e = true) s mid := .of_foldlM_guarded hearly
  have hmid : early.foldlM (step E path) s = some mid := foldlM_of_guarded hearly
  rw [List.foldlM_append, hmid, Option.bind_eq_bind, Option.bind_some] at hrun
  have hquiet : Run (step E path) (fun _ e => e.copiesBack = false) mid before :=
    .of_foldlM_forall hrun fun e he _ => hlate e he
  have hkept : before.store.main = mid.store.main :=
    hquiet.invariant (I := fun u => u.store.main = mid.store.main)
      (fun _ _ _ hu he hstep => (main_eq he hstep).trans hu) rfl
  rw [hkept, ← hsettled]
  exact hidle.invariant (I := fun u => Held E s.store.content u.store.content)
    (fun _ _ _ hu he hstep => hu.step hagain he hstep) (.inl rfl)

end

/-- For every run of attempts on an old database that ends with one that succeeds: there is a last
time that the backup was made, after which nothing writes to it, and it keeps the data if the file
was undisturbed until then. -/
theorem backup_preserved [DecidableEq α] (E : Engine Page α)
    (hensure : ∀ content, E.currentSchemaVersion (replay content (E.ensureSchemaMigrations content)) =
      E.currentSchemaVersion content)
    (hagain : ∀ content,
      E.ensureSchemaMigrations (replay content (E.ensureSchemaMigrations content)) = [])
    {path : String} (hpath : isFileBasedSQLite path = true)
    {Content : Type*} (logical : (Page → α) → Content) {s t : State Page α}
    (hstopped : s.phase = .stopped)
    (hversion : E.currentSchemaVersion s.store.content < SchemaVersion)
    {events : List (Event Page α)} (hrun : events.foldlM (step E path) s = some t)
    (hopen : t.phase = .open) :
    (∃ before after, events = before ++ .copy :: after ∧ ∀ e ∈ after, e.touches = false) ∧
    ∀ before after, events = before ++ .copy :: after → (∀ e ∈ after, e.touches = false) →
      Undisturbed E path s before →
        ∃ file, t.bak = some file ∧ PreUpgrade logical E s.store.content file := by
  have hpending : Pending E s := by
    constructor
    · exact hversion
    · rw [hstopped]
      trivial
  have hkeep : ∀ {u v : State Page α} {es : List (Event Page α)}, Pending E u →
      (∀ e ∈ es, e ≠ .copy) → es.foldlM (step E path) u = some v → Pending E v := by
    intro u v es hu hes huv
    have hnone : Run (step E path) (fun _ e => e ≠ .copy) u v :=
      .of_foldlM_forall huv fun e he _ => hes e he
    exact hnone.invariant (fun _ _ _ hw he hmove => hw.step hensure hpath he hmove) hu
  have hneither : ∀ {es : List (Event Page α)}, (∀ e ∈ es, ¬e.touches = true) →
      ∀ e ∈ es, e ≠ .copy := by
    rintro es hes e he rfl
    exact hes _ he rfl
  constructor
  · obtain hnone | ⟨before, e, after, rfl, htouches, hafter⟩ :=
      exists_last (fun e : Event Page α => e.touches = true) events
    · exact absurd hopen (hkeep hpending (hneither hnone) hrun).not_open
    · cases e with
      | copy => exact ⟨before, after, rfl, fun e he => Bool.eq_false_iff.mpr (hafter e he)⟩
      | tear copied =>
        -- an attempt that is cut there is not the one that succeeds
        obtain ⟨u, -, hrest⟩ := foldlM_append_eq_some.mp hrun
        rw [List.foldlM_cons, Option.bind_eq_bind, Option.bind_eq_some_iff] at hrest
        obtain ⟨v, hcut, hlast⟩ := hrest
        obtain ⟨hguard, rfl⟩ := of_guard hcut
        have hfailing : Pending E { u with bak := some copied, phase := .failing } :=
          ⟨hguard.2.1, trivial⟩
        exact absurd hopen (hkeep hfailing (hneither hafter) hlast).not_open
      | _ => cases htouches
  · rintro before after rfl hafter hundisturbed
    obtain ⟨u, hbefore, hrest⟩ := foldlM_append_eq_some.mp hrun
    rw [List.foldlM_cons, Option.bind_eq_bind, Option.bind_eq_some_iff] at hrest
    obtain ⟨v, hcopy, hlast⟩ := hrest
    obtain ⟨-, rfl⟩ := of_guard hcopy
    have hbak : t.bak = some u.store.main :=
      bak_eq_of_run (fun _ e (he : e.touches = false) htouch => absurd htouch (by simp [he]))
        (Run.of_foldlM_forall hlast fun e he _ => hafter e he)
    exact ⟨_, hbak, (hundisturbed.held hagain hbefore).imp (congrArg logical) (congrArg logical)⟩

/-- Page 0 is the version, page 1 a row of the user's, page 2 the table of versions and page 3
a table that the migration makes. -/
def smallEngine : Engine ℕ ℕ where
  ensureSchemaMigrations content := if content 2 = 1 then [] else [(2, 1)]
  currentSchemaVersion content := content 0
  migrations := [fun content => if content 3 = 1 then [] else [(3, 1)]]
  recordSchemaVersion _ := [(0, SchemaVersion)]

/-- A row in the file or in the log. -/
def smallStart (main : List (ℕ × ℕ)) (log : List (ℕ × ℕ)) : State ℕ ℕ :=
  ⟨⟨replay (fun _ => 0) main, log⟩, none, .stopped⟩

def smallStep : State ℕ ℕ → Event ℕ ℕ → Option (State ℕ ℕ) := step smallEngine "./data/netberth.db"

/-- The log is copied back first. One attempt is killed after it has made its backup and executed
the statement of the migration. -/
def firstAttempt : List (Event ℕ ℕ) :=
  [.ping, .checkpoint, .ensure, .copy, .execute, .kill, .ping, .ensure]

def nextAttempt : List (Event ℕ ℕ) := .copy :: [.execute, .record]

/-- The next attempt makes the backup that stays. -/
theorem small_backup_kept :
    ∃ t file, (firstAttempt ++ nextAttempt).foldlM smallStep (smallStart [] [(1, 5)]) = some t ∧
      t.bak = some file ∧
        PreUpgrade id smallEngine (smallStart [] [(1, 5)]).store.content file := by
  obtain ⟨t, ht⟩ : ∃ t, (firstAttempt ++ nextAttempt).foldlM smallStep
    (smallStart [] [(1, 5)]) = some t := ⟨_, rfl⟩
  have hopen : t.phase = .open := by
    cases ht
    rfl
  have hensure (content : ℕ → ℕ) : smallEngine.currentSchemaVersion
      (replay content (smallEngine.ensureSchemaMigrations content)) =
        smallEngine.currentSchemaVersion content := by
    simp only [smallEngine]
    split <;> simp [write]
  have hagain (content : ℕ → ℕ) : smallEngine.ensureSchemaMigrations
      (replay content (smallEngine.ensureSchemaMigrations content)) = [] := by
    simp only [smallEngine]
    split <;> simp_all [write]
  have hfile : isFileBasedSQLite "./data/netberth.db" = true := by decide
  have hundisturbed : Undisturbed smallEngine "./data/netberth.db" (smallStart [] [(1, 5)])
      firstAttempt :=
    ⟨[.ping, .checkpoint], [.ensure, .copy, .execute, .kill, .ping, .ensure], _, rfl, rfl, rfl,
      by decide⟩
  obtain ⟨file, hkept⟩ := (backup_preserved smallEngine hensure hagain hfile id rfl (by decide) ht
    hopen).2 firstAttempt _ rfl (by decide) hundisturbed
  exact ⟨t, file, ht, hkept⟩

/-- A page of the database before the attempts and of the backup after them. -/
def pageKept (s : State ℕ ℕ) (events : List (Event ℕ ℕ)) (page : ℕ) : Option (ℕ × ℕ) := do
  let t ← events.foldlM smallStep s
  let bak ← t.bak
  if t.phase = .open then return (s.store.content page, bak page) else none

/-- A row that is in the log is not in the backup; and a retry after a failed attempt puts
the migration's table into it. -/
theorem upgrade_backup_spoiled :
    pageKept (smallStart [] [(1, 5)]) [.ping, .ensure, .copy, .execute, .record] 1 = some (5, 0) ∧
      pageKept (smallStart [(1, 5)] []) [.ping, .ensure, .copy, .execute, .close, .ping, .ensure,
        .copy, .execute, .record] 3 = some (0, 1) := by
  decide

end NetBerth.SchemaUpgrade
