import NetBerth.Restore
import NetBerth.Transitions
import NetBerth.WriteAheadLog

/-!
# A restored database at the next start

`Restore` moves files while the process has the database open. A connection keeps the
file it opened. The write-ahead log has a name of its own beside the path: it is not
moved, and belongs to whatever file is there. So files are numbers here, and what is in
them is kept apart from the directory.

The process goes on after the handler. Its pool opens and closes connections, which
commit, copy frames back and start the log anew, until the last one is closed or the
process is killed.
-/
namespace NetBerth.RestoreRestart
open Restore Transitions WriteAheadLog

variable {Page α : Type*}

/-- The directory, the files, the frames in `path-wal`, none if it does not exist, and the
file that each open connection has opened. -/
structure World (Page α : Type*) where
  dir : Disk ℕ
  files : ℕ → Page → α
  wal : List (Page × α)
  conns : List ℕ

namespace World
variable (w : World Page α)

/-- What a process that starts now finds at the path. -/
def nextOpen [DecidableEq Page] : Option (Page → α) := (w.dir .db).map fun file => replay (w.files file) w.wal

/-- The renames of the handler. -/
def restored (env : Env) (final : Path) : World Page α :=
  { w with dir := (swap env final ⟨w.dir, []⟩).2.disk }

end World

inductive Event (Page α : Type*) where
  | connect
  | commit (file : ℕ) (frames : List (Page × α))
  | backfill (file : ℕ) (frame : Page × α)
  | restart (file : ℕ)
  | disconnect (file : ℕ)
  | kill

/-- The number is the file of the connection that acts. A new log may be begun at any time:
what was copied back before, and into which file, is not looked at. -/
def step [DecidableEq Page] [DecidableEq α] (w : World Page α) : Event Page α → Option (World Page α)
  | .connect => (w.dir .db).map fun file => { w with conns := file :: w.conns }
  | .commit file frames =>
    if file ∈ w.conns then some { w with wal := w.wal ++ frames } else none
  | .backfill file frame =>
    if file ∈ w.conns ∧ frame ∈ w.wal then
      some { w with files := Function.update w.files file (write (w.files file) frame) }
    else none
  | .restart file => if file ∈ w.conns then some { w with wal := [] } else none
  | .disconnect file =>
    if w.conns = [file] then
      some { w with
        files := Function.update w.files file (replay (w.files file) w.wal), wal := [], conns := [] }
    else if file ∈ w.conns then some { w with conns := w.conns.erase file }
    else none
  | .kill => some { w with conns := [] }

/-- Nothing is written into the file at the path that is not there already, and no log is left
behind that would change it. -/
def Safe [DecidableEq Page] (w : World Page α) : Event Page α → Prop
  | .backfill file frame => w.dir .db = some file → w.files file frame.1 = frame.2
  | .disconnect file => w.conns = [file] → w.dir .db = some file → Settled (w.files file) w.wal
  | .kill => ∀ file, w.dir .db = some file → Settled (w.files file) w.wal
  | .connect => True
  | .commit _ _ => True
  | .restart _ => True

/-! ## The uploaded file -/

/-- The uploaded file is at the path, as it was uploaded. -/
structure Exposed (upload : ℕ) (content : Page → α) (w : World Page α) : Prop where
  dir : w.dir .db = some upload
  file : w.files upload = content

section
variable {w : World Page α} {upload : ℕ} {content : Page → α}

theorem Exposed.nextOpen_iff [DecidableEq Page] (h : Exposed upload content w) :
    w.nextOpen = some content ↔ Settled content w.wal := by
  rw [World.nextOpen, h.dir, Option.map_some, h.file, Option.some_inj, Settled]

/-- A write into another file, or one that changes nothing. -/
theorem Exposed.update (h : Exposed upload content w) {file : ℕ} {pages : Page → α}
    (hpages : w.dir .db = some file → pages = w.files file) :
    Function.update w.files file pages upload = content := by
  by_cases hfile : upload = file
  · subst hfile
    rw [Function.update_self, hpages h.dir, h.file]
  · rw [Function.update_of_ne hfile, h.file]

/-- After the renames, whatever the disk was before. -/
theorem exposed_restored {env : Env} {final : String} {orig : ℕ} (horig : w.dir .db = some orig)
    (hupload : w.dir (.temp final) = some upload)
    (hok : (swap env (.temp final) ⟨w.dir, []⟩).1.status = 200) :
    Exposed upload (w.files upload) (w.restored env (.temp final)) := by
  have hatomic : Atomic orig (· = upload) (swap env (.temp final) ⟨w.dir, []⟩) :=
    swap_atomic ⟨by simp, horig⟩ hupload rfl
  obtain ⟨file, hfile, rfl⟩ := hatomic.restored hok
  exact ⟨hfile, rfl⟩

end

/-! ## The process goes on -/

section
variable [DecidableEq Page] [DecidableEq α] {w v : World Page α} {e : Event Page α} {upload : ℕ}
  {content : Page → α}

/-- Closing a connection checkpoints if no other is left. -/
theorem disconnect_cases {file : ℕ} (hstep : step w (.disconnect file) = some v) :
    (w.conns = [file] ∧ v = { w with
      files := Function.update w.files file (replay (w.files file) w.wal), wal := [], conns := [] }) ∨
    (w.conns ≠ [file] ∧ file ∈ w.conns ∧ v = { w with conns := w.conns.erase file }) := by
  simp only [step] at hstep
  split_ifs at hstep with hlast hmem
  · cases hstep
    exact .inl ⟨hlast, rfl⟩
  · cases hstep
    exact .inr ⟨hlast, hmem, rfl⟩

/-- Every event that meets the condition leaves the file as it is. -/
theorem Exposed.step (h : Exposed upload content w) (hsafe : Safe w e)
    (hstep : RestoreRestart.step w e = some v) : Exposed upload content v := by
  cases e with
  | connect =>
    rw [RestoreRestart.step, h.dir, Option.map_some] at hstep
    cases hstep
    exact ⟨h.dir, h.file⟩
  | commit file frames =>
    obtain ⟨-, rfl⟩ := of_guard hstep
    exact ⟨h.dir, h.file⟩
  | backfill file frame =>
    obtain ⟨-, rfl⟩ := of_guard hstep
    exact ⟨h.dir, h.update fun hfile => write_eq_self (hsafe hfile)⟩
  | restart file =>
    obtain ⟨-, rfl⟩ := of_guard hstep
    exact ⟨h.dir, h.file⟩
  | disconnect file =>
    obtain ⟨hlast, rfl⟩ | ⟨-, -, rfl⟩ := disconnect_cases hstep
    · exact ⟨h.dir, h.update (hsafe hlast)⟩
    · exact ⟨h.dir, h.file⟩
  | kill =>
    cases hstep
    exact ⟨h.dir, h.file⟩

/-- The event that ends the process decides what is left behind. -/
theorem Exposed.stop_iff (h : Exposed upload content w) (hstep : RestoreRestart.step w e = some v)
    (hstopped : v.conns = []) : v.nextOpen = some content ↔ Safe w e := by
  cases e with
  | connect =>
    rw [RestoreRestart.step, h.dir, Option.map_some] at hstep
    cases hstep
    cases hstopped
  | commit file frames =>
    obtain ⟨hmem, rfl⟩ := of_guard hstep
    exact absurd hmem (hstopped ▸ List.not_mem_nil)
  | backfill file frame =>
    obtain ⟨hmem, rfl⟩ := of_guard hstep
    exact absurd hmem.1 (hstopped ▸ List.not_mem_nil)
  | restart file =>
    obtain ⟨hmem, rfl⟩ := of_guard hstep
    exact absurd hmem (hstopped ▸ List.not_mem_nil)
  | disconnect file =>
    obtain ⟨hlast, rfl⟩ | ⟨hlast, hmem, rfl⟩ := disconnect_cases hstep
    · simp only [World.nextOpen, Safe, h.dir, Option.map_some, Option.some_inj, replay_nil]
      by_cases hfile : upload = file
      · subst hfile
        rw [Function.update_self, h.file]
        simp [hlast, Settled]
      · rw [Function.update_of_ne hfile, h.file]
        simp [hfile]
    · rcases List.erase_eq_nil_iff.mp hstopped with hnil | hone
      · exact absurd hmem (hnil ▸ List.not_mem_nil)
      · exact absurd hone hlast
  | kill =>
    cases hstep
    have hkilled : Exposed upload content { w with conns := [] } := ⟨h.dir, h.file⟩
    rw [hkilled.nextOpen_iff, Safe, h.dir]
    simp [h.file]

end

/-- For every run of the process after the handler: as long as nothing changes the uploaded
file, the next start sees the upload if and only if the event that ends the process meets
the condition too. -/
theorem nextOpen_restored_iff [DecidableEq Page] [DecidableEq α] (env : Env) (w : World Page α)
    {final : String} {orig upload : ℕ} (horig : w.dir .db = some orig)
    (hupload : w.dir (.temp final) = some upload)
    (hok : (swap env (.temp final) ⟨w.dir, []⟩).1.status = 200) {last stopped : World Page α}
    (hrun : Run step Safe (w.restored env (.temp final)) last) {e : Event Page α}
    (hstep : step last e = some stopped) (hstopped : stopped.conns = []) :
    stopped.nextOpen = some (w.files upload) ↔ Safe last e := by
  have hlast : Exposed upload (w.files upload) last :=
    hrun.invariant (fun _ _ _ => Exposed.step) (exposed_restored horig hupload hok)
  exact hlast.stop_iff hstep hstopped

/-- The old file holds ones and has a frame in its log; what is uploaded holds twos. -/
def liveWorld : World ℕ ℕ where
  dir path := if path = .db then some 0 else if path = .temp "1" then some 1 else none
  files file _ := if file = 1 then 2 else 1
  wal := [(0, 3)]
  conns := [0]

def liveRestored : World ℕ ℕ := liveWorld.restored (smallEnv none) (.temp "1")

/-- A clean close of a connection to the old file takes the log with it. -/
theorem upload_exposed_after_close :
    ∃ stopped, step liveRestored (.disconnect 0) = some stopped ∧
      stopped.nextOpen = some (liveWorld.files 1) := by
  have hstep : step liveRestored (.disconnect 0) = some { liveRestored with
    files := Function.update liveRestored.files 0 (replay (liveRestored.files 0) liveRestored.wal)
    wal := []
    conns := [] } := rfl
  refine ⟨_, hstep, ?_⟩
  apply (nextOpen_restored_iff (smallEnv none) liveWorld rfl rfl (by decide) .refl hstep rfl).mpr
  intro _ hfile
  have hdir : liveRestored.dir .db = some 1 := by decide
  cases hdir.symm.trans hfile

/-- A page as the next start sees it after some events. -/
def pageAfter (events : List (Event ℕ ℕ)) (page : ℕ) : Option ℕ := do
  let stopped ← events.foldlM step liveRestored
  let content ← stopped.nextOpen
  return content page

/-- After a kill the frame of the old file is on a page of the upload. So is what the process
commits once it has closed all its connections and opened one again. -/
theorem stale_log_replayed :
    (swap (smallEnv none) (.temp "1") ⟨liveWorld.dir, []⟩).1.status = 200 ∧
      liveWorld.files 1 0 = 2 ∧ pageAfter [.kill] 0 = some 3 ∧
      pageAfter [.disconnect 0, .connect, .commit 1 [(0, 4)], .disconnect 1] 0 = some 4 := by
  decide

end NetBerth.RestoreRestart
