import NetBerth.BackupCanonical

/-!
# Restoring a backup

The upload goes to a temporary file, is decrypted into a second one if it has the
magic of an envelope, is opened once to see whether it is a database, and then takes
the place of the database in two renames, with a third to take the first one back.
The temporary files are removed when the handler returns, in either order of events.

Each operation on the file system is named, and at most one of them fails, some of
them in the middle. A machine keeps all the disks there have been. What happens
inside a temporary file between two operations is not among them.
-/
namespace NetBerth.Restore
open ByteStream BackupCrypto

/-! ## The disk -/

/-- The database, its `.bak`, and what `CreateTemp` makes beside them, which has a name
that is not taken. -/
inductive Path where
  | db
  | bak
  | temp (name : String)
  deriving DecidableEq, Repr

/-- The names of a directory; a file is its bytes, or whatever identifies it. -/
abbrev Disk (File : Type*) := Path → Option File

structure Machine (File : Type*) where
  disk : Disk File
  past : List (Disk File)

namespace Machine
variable {File : Type*} (m : Machine File)

/-- All disks, the present one included. -/
def points : List (Disk File) := m.past ++ [m.disk]

def become (disk : Disk File) : Machine File := ⟨disk, m.points⟩

def set (path : Path) (file : Option File) : Machine File :=
  m.become (Function.update m.disk path file)

@[simp] theorem disk_become (disk : Disk File) : (m.become disk).disk = disk := rfl

@[simp] theorem points_become (disk : Disk File) :
    (m.become disk).points = m.points ++ [disk] := rfl

end Machine

inductive Op where
  | createUpload
  | chmodUpload
  | writeUpload
  | syncUpload
  | openMagic
  | readMagic
  | createDecrypted
  | chmodDecrypted
  | openUpload
  | readUpload
  | writeDecrypted
  | syncDecrypted
  | validate
  | renameToBackup
  | renameFinal
  | renameBack
  | removeBackup
  | removeDecrypted
  | removeUpload
  deriving DecidableEq, Repr

/-- What is around the handler: the cipher, what opening a file as a database says and
makes of it, the names `CreateTemp` will draw, and the operation that fails, after so many
bytes or writes. -/
structure Env where
  primitives : Primitives
  validSQLiteFile : Bytes → Bool × Bytes
  uploadRandom : String
  decryptedRandom : String
  fault : Option (Op × ℕ)

namespace Env
variable {File : Type*} (env : Env)

def fault? (op : Op) : Option ℕ :=
  match env.fault with
  | some (o, amount) => if o = op then some amount else none
  | none => none

def fails (op : Op) : Bool := (env.fault? op).isSome

def uploadName : String := ".netberth-restore-" ++ env.uploadRandom

def decryptedName : String := ".netberth-decrypt-" ++ env.decryptedRandom

def upload : Path := .temp env.uploadName

def decrypted : Path := .temp env.decryptedName

theorem decryptedName_ne_uploadName : env.decryptedName ≠ env.uploadName := by
  unfold decryptedName uploadName
  intro h
  have hchars := congrArg String.toList h
  rw [String.toList_append, String.toList_append] at hchars
  have hpattern : ".netberth-decrypt-".toList = ".netberth-restore-".toList :=
    (List.append_inj hchars (by simp)).1
  exact absurd hpattern (by simp)

theorem decrypted_ne_upload : env.decrypted ≠ env.upload := by
  rw [decrypted, upload, Ne, Path.temp.injEq]
  exact env.decryptedName_ne_uploadName

/-- `os.Rename`: atomic, over what was there. -/
def rename (op : Op) (src dst : Path) (m : Machine File) : Option (Machine File) :=
  if env.fails op then none
  else (m.disk src).map fun file =>
    m.become (Function.update (Function.update m.disk dst (some file)) src none)

/-- `os.Remove`, its error ignored. -/
def remove (op : Op) (path : Path) (m : Machine File) : Machine File :=
  if env.fails op then m else m.set path none

end Env

/-! ## The handler -/

structure Response where
  status : ℕ
  message : String
  deriving DecidableEq, Repr

def badRequest (message : String) : Response := ⟨400, message⟩
def serverError (message : String) : Response := ⟨500, message⟩

def backupPasswordHeader : String := "X-NetBerth-Backup-Password"

/-- In bytes. -/
def maxUpload : ℕ := 100 * 2 ^ 20

section
variable {File : Type*} (env : Env) (pass : Bytes)

/-- The two renames, with the way back. -/
def swap (final : Path) (m : Machine File) : Response × Machine File :=
  let m := (env.rename .renameToBackup .db .bak m).getD m
  match env.rename .renameFinal final .db m with
  | none => (serverError "restore failed", (env.rename .renameBack .bak .db m).getD m)
  | some m =>
    (⟨200, "database restored. restart the service to apply changes."⟩,
      env.remove .removeBackup .bak m)

def install (final : Path) (m : Machine Bytes) : Response × Machine Bytes :=
  match m.disk final with
  | none => (badRequest "corrupt database file", m)
  | some file =>
    if env.fails .validate then (badRequest "corrupt database file", m)
    else
      let (valid, file) := env.validSQLiteFile file
      let m := m.set final (some file)
      if !valid then (badRequest "corrupt database file", m) else swap env final m

def decryptInto (m : Machine Bytes) : Response × Machine Bytes :=
  if env.fails .chmodDecrypted then (serverError "cannot secure temp file", m)
  else if env.fails .openUpload then (serverError "cannot open upload", m)
  else
    let file := (m.disk env.upload).getD []
    let src : Source := match env.fault? .readUpload with
      | some n => ⟨[file.take n], false, some "input/output error"⟩
      | none => .ofList file
    let dst : Dest := ⟨[], (env.fault? .writeDecrypted).map (·, "no space left on device")⟩
    let (dst, err) := decryptStream env.primitives dst src pass
    let m := m.set env.decrypted (some dst.written)
    if err.isSome then (badRequest "invalid encrypted backup", m)
    else if env.fails .syncDecrypted then (serverError "cannot flush decrypted backup", m)
    else install env env.decrypted m

def decryptUpload (m : Machine Bytes) : Response × Machine Bytes :=
  if env.fails .createDecrypted then (serverError "cannot create temp file", m)
  else
    let (response, m) := decryptInto env pass (m.set env.decrypted (some []))
    (response, env.remove .removeDecrypted env.decrypted m)

/-- No result when the file cannot be opened, or four bytes cannot be read. -/
def hasNBBKMagic (m : Machine Bytes) (path : Path) : Option Bool :=
  if env.fails .openMagic then none
  else (m.disk path).bind fun file =>
    if env.fails .readMagic ∨ file.length < 4 then none else some (file.take 4 = magic)

/-- `io.Copy` from a body that ends in an error after too many bytes: what was written, and
whether it went well. -/
def receive (body : Source) : Bytes × Bool :=
  let delivered := body.contents.take maxUpload
  let whole := body.contents.length ≤ maxUpload ∧ body.fault = none
  match env.fault? .writeUpload with
  | some n => if n < delivered.length then (delivered.take n, false) else (delivered, whole)
  | none => (delivered, whole)

def restoreUpload (body : Source) (m : Machine Bytes) : Response × Machine Bytes :=
  if env.fails .chmodUpload then (serverError "cannot secure temp file", m)
  else
    let (written, ok) := receive env body
    let m := m.set env.upload (some written)
    if !ok then (badRequest "upload failed", m)
    else if env.fails .syncUpload then (serverError "cannot flush upload", m)
    else
      match hasNBBKMagic env m env.upload with
      | none => (serverError "cannot inspect upload", m)
      | some encrypted =>
        if encrypted ∧ pass = [] then
          (badRequest ("encrypted backup requires " ++ backupPasswordHeader), m)
        else if !encrypted ∧ pass ≠ [] then
          (badRequest "password provided but backup is not encrypted", m)
        else if encrypted then decryptUpload env pass m
        else install env env.upload m

def restore (body : Source) (m : Machine Bytes) : Response × Machine Bytes :=
  if pass ≠ [] ∧ (pass.length < 8 ∨ 128 < pass.length) then
    (badRequest "backup password must be 8-128 characters", m)
  else if env.fails .createUpload then (serverError "cannot create temp file", m)
  else
    let (response, m) := restoreUpload env pass body (m.set env.upload (some []))
    (response, env.remove .removeUpload env.upload m)

end

/-! ## What holds of the database -/

section
variable {File : Type*}

/-- A whole database, the old one or a new one, is at the path or beside it. -/
def Kept (orig : File) (New : File → Prop) (disk : Disk File) : Prop :=
  ∃ file, (disk .db = some file ∨ disk .bak = some file) ∧ (file = orig ∨ New file)

/-- The database has not been moved. -/
structure Untouched (orig : File) (m : Machine File) : Prop where
  past : ∀ d ∈ m.past, d .db = some orig
  disk : m.disk .db = some orig

structure Atomic (orig : File) (New : File → Prop) (result : Response × Machine File) : Prop where
  refused : result.1.status ≠ 200 → result.2.disk .db = some orig
  restored : result.1.status = 200 → ∃ file, result.2.disk .db = some file ∧ New file
  kept : ∀ d ∈ result.2.points, Kept orig New d

variable {env : Env} {orig : File} {New : File → Prop} {m : Machine File}

theorem set_apply (m : Machine File) (path : Path) (file : Option File) :
    (m.set path file).disk path = file := Function.update_self ..

theorem set_apply_of_ne {path other : Path} (h : other ≠ path) (file : Option File) :
    (m.set path file).disk other = m.disk other := Function.update_of_ne h ..

theorem remove_apply_of_ne {op : Op} {path other : Path} (h : other ≠ path) :
    (env.remove op path m).disk other = m.disk other := by
  unfold Env.remove
  split
  · rfl
  · exact set_apply_of_ne h none

theorem remove_apply {op : Op} (h : env.fails op = false) (path : Path) :
    (env.remove op path m).disk path = none := by
  simp [Env.remove, h, set_apply]

/-- Removing a file adds at most the disk it leaves. -/
theorem mem_points_remove {op : Op} {path : Path} {d : Disk File}
    (h : d ∈ (env.remove op path m).points) : d ∈ m.points ∨ d = (env.remove op path m).disk := by
  unfold Env.remove at h ⊢
  split at h
  · exact .inl h
  · rename_i hfails
    rw [if_neg hfails]
    simpa [Machine.set, Machine.points_become] using h

namespace Untouched

theorem points (h : Untouched orig m) : ∀ d ∈ m.points, d .db = some orig := by
  intro d hd
  rcases List.mem_append.mp hd with hpast | hnow
  · exact h.past d hpast
  · rw [List.mem_singleton.mp hnow]
    exact h.disk

theorem set (h : Untouched orig m) (name : String) (file : Option File) :
    Untouched orig (m.set (.temp name) file) where
  past := h.points
  disk := (set_apply_of_ne (by simp) file).trans h.disk

/-- Whatever is refused before the renames leaves the database where it was. -/
theorem atomic (h : Untouched orig m) {response : Response} (hstatus : response.status ≠ 200) :
    Atomic orig New (response, m) where
  refused _ := h.disk
  restored hok := absurd hok hstatus
  kept d hd := ⟨orig, .inl (h.points d hd), .inl rfl⟩

/-- A refusal ahead of what the handler does next. -/
theorem guard (h : Untouched orig m) {p : Prop} [Decidable p] {response : Response}
    (hstatus : response.status ≠ 200) {result : Response × Machine File}
    (hresult : ¬p → Atomic orig New result) :
    Atomic orig New (if p then (response, m) else result) := by
  split_ifs with hp
  · exact h.atomic hstatus
  · exact hresult hp

end Untouched

/-- A temporary file may go at any time. -/
theorem Atomic.remove {response : Response} (h : Atomic orig New (response, m)) (op : Op)
    (name : String) : Atomic orig New (response, env.remove op (.temp name) m) := by
  have hdb : (env.remove op (.temp name) m).disk .db = m.disk .db := remove_apply_of_ne (by simp)
  have hbak : (env.remove op (.temp name) m).disk .bak = m.disk .bak := remove_apply_of_ne (by simp)
  constructor
  · intro hstatus
    exact hdb.trans (h.refused hstatus)
  · intro hstatus
    rw [hdb]
    exact h.restored hstatus
  · intro d hd
    rcases mem_points_remove hd with hbefore | rfl
    · exact h.kept d hbefore
    · unfold Kept
      rw [hdb, hbak]
      exact h.kept m.disk (List.mem_append_right _ (List.mem_singleton_self _))

/-! ## The renames -/

/-- One operation fails, not two. -/
theorem fails_unique {a b : Op} (ha : env.fails a = true) (hne : b ≠ a) : env.fails b = false := by
  unfold Env.fails Env.fault? at *
  cases hfault : env.fault with
  | none => rfl
  | some fault =>
    simp only [hfault] at ha ⊢
    split at ha
    · rename_i hop
      rw [if_neg (fun hb => hne (hb.symm.trans hop))]
      rfl
    · cases ha

theorem rename_of_fails {op : Op} (h : env.fails op = true) (src dst : Path) :
    env.rename op src dst m = none := if_pos h

theorem rename_of {op : Op} (h : env.fails op = false) {src : Path} {file : File}
    (hsrc : m.disk src = some file) (dst : Path) : env.rename op src dst m =
      some (m.become (Function.update (Function.update m.disk dst (some file)) src none)) := by
  simp [Env.rename, h, hsrc]

/-- A new disk with a whole database is one more. -/
theorem kept_become (h : ∀ d ∈ m.points, Kept orig New d) {disk : Disk File}
    (hdisk : Kept orig New disk) : ∀ d ∈ (m.become disk).points, Kept orig New d := by
  intro d hd
  rcases List.mem_append.mp hd with hbefore | hnow
  · exact h d hbefore
  · rw [List.mem_singleton.mp hnow]
    exact hdisk

/-- Once the new file is at the path the `.bak` may go. -/
theorem atomic_removeBackup (h : ∀ d ∈ m.points, Kept orig New d) {file : File}
    (hdb : m.disk .db = some file) (hnew : New file) {response : Response}
    (hstatus : response.status = 200) :
    Atomic orig New (response, env.remove .removeBackup .bak m) := by
  have hplace : (env.remove .removeBackup .bak m).disk .db = some file :=
    (remove_apply_of_ne (by decide)).trans hdb
  constructor
  · intro hrefused
    exact absurd hstatus hrefused
  · intro _
    exact ⟨file, hplace, hnew⟩
  · intro d hd
    rcases mem_points_remove hd with hbefore | rfl
    · exact h d hbefore
    · exact ⟨file, .inl hplace, .inr hnew⟩

/-- Moving the new file to the path, from a disk with a whole database. -/
theorem kept_renameFinal (h : ∀ d ∈ m.points, Kept orig New d) {name : String} {file : File}
    (hnew : New file) : ∀ d ∈ (m.become (Function.update (Function.update m.disk .db (some file))
      (.temp name) none)).points, Kept orig New d :=
  kept_become h ⟨file, .inl (by simp), .inr hnew⟩

theorem swap_atomic (h : Untouched orig m) {name : String} {file : File}
    (hfinal : m.disk (.temp name) = some file) (hnew : New file) :
    Atomic orig New (swap env (.temp name) m) := by
  have hbefore : ∀ d ∈ m.points, Kept orig New d :=
    fun d hd => ⟨orig, .inl (h.points d hd), .inl rfl⟩
  cases hbackup : env.fails .renameToBackup with
  | true =>
    -- the new file goes over the old one
    have hmove : env.fails .renameFinal = false := fails_unique hbackup (by decide)
    simp only [swap, rename_of_fails hbackup, Option.getD_none, rename_of hmove hfinal]
    exact atomic_removeBackup (kept_renameFinal hbefore hnew) (by simp) hnew rfl
  | false =>
    let aside := m.become (Function.update (Function.update m.disk .bak (some orig)) .db none)
    have hrename : env.rename .renameToBackup .db .bak m = some aside := rename_of hbackup h.disk .bak
    have hbak : aside.disk .bak = some orig := by simp [aside]
    have hold : aside.disk (.temp name) = some file := by simp [aside, hfinal]
    have haside : ∀ d ∈ aside.points, Kept orig New d :=
      kept_become hbefore ⟨orig, .inr hbak, .inl rfl⟩
    cases hmove : env.fails .renameFinal with
    | true =>
      have hback : env.fails .renameBack = false := fails_unique hmove (by decide)
      simp only [swap, hrename, Option.getD_some, rename_of_fails hmove, rename_of hback hbak]
      constructor
      · intro _
        simp
      · intro hok
        cases hok
      · exact kept_become haside ⟨orig, .inl (by simp), .inl rfl⟩
    | false =>
      simp only [swap, hrename, Option.getD_some, rename_of hmove hold]
      exact atomic_removeBackup (kept_renameFinal haside hnew) (by simp) hnew rfl

theorem rename_frame {op : Op} {src dst other : Path} (hsrc : other ≠ src) (hdst : other ≠ dst)
    {m' : Machine File} (h : env.rename op src dst m = some m') : m'.disk other = m.disk other := by
  unfold Env.rename at h
  split at h
  · cases h
  · obtain ⟨file, -, rfl⟩ := Option.map_eq_some_iff.mp h
    simp [Function.update_of_ne hsrc, Function.update_of_ne hdst]

theorem rename_frame_getD {op : Op} {src dst other : Path} (hsrc : other ≠ src)
    (hdst : other ≠ dst) : ((env.rename op src dst m).getD m).disk other = m.disk other := by
  cases h : env.rename op src dst m with
  | none => rfl
  | some m' => exact rename_frame hsrc hdst h

theorem swap_frame {name : String} {final : Path} (h : .temp name ≠ final) :
    (swap env final m).2.disk (.temp name) = m.disk (.temp name) := by
  unfold swap
  simp only
  split
  · exact (rename_frame_getD (by simp) (by simp)).trans (rename_frame_getD (by simp) (by simp))
  · rename_i m' hmove
    exact (remove_apply_of_ne (by simp)).trans
      ((rename_frame h (by simp) hmove).trans (rename_frame_getD (by simp) (by simp)))

end

/-! ## The handler keeps the database -/

section
variable {env : Env} {orig : Bytes} {New : Bytes → Prop} {m : Machine Bytes}

theorem install_atomic (h : Untouched orig m) {name : String}
    (hnew : ∀ file, m.disk (.temp name) = some file → New (env.validSQLiteFile file).2) :
    Atomic orig New (install env (.temp name) m) := by
  unfold install
  cases hfinal : m.disk (.temp name) with
  | none => exact h.atomic (by decide)
  | some file =>
    apply h.guard (by decide)
    intro _
    apply (h.set name _).guard (by decide)
    intro _
    exact swap_atomic (h.set name _) (set_apply ..) (hnew file hfinal)

variable {pass : Bytes} {body : Source}

/-- Whatever of the upload was read, what was decrypted without an error is the whole of it. -/
theorem decryptInto_atomic (h : Untouched orig m) {file : Bytes}
    (hupload : m.disk env.upload = some file)
    (hnew : ∀ text, decrypt env.primitives file pass = .ok text → New (env.validSQLiteFile text).2) :
    Atomic orig New (decryptInto env pass m) := by
  unfold decryptInto
  apply h.guard (by decide)
  intro _
  apply h.guard (by decide)
  intro _
  rw [hupload, Option.getD_some]
  simp only
  generalize hread : (match env.fault? .readUpload with
    | some n => (⟨[file.take n], false, some "input/output error"⟩ : Source)
    | none => .ofList file) = src
  generalize hwrite : (env.fault? .writeDecrypted).map (·, "no space left on device") = room
  have hbegins : src.contents <+: file := by
    subst hread
    cases env.fault? .readUpload with
    | none => rw [StreamReader.contents_ofList]
    | some n => simpa [StreamReader.contents] using List.take_prefix n file
  have hm := h.set env.decryptedName
    (some (decryptStream env.primitives ⟨[], room⟩ src pass).1.written)
  apply hm.guard (by decide)
  intro hnone
  have herr : (decryptStream env.primitives ⟨[], room⟩ src pass).2 = none := by simpa using hnone
  apply hm.guard (by decide)
  intro _
  apply install_atomic hm
  intro text htext
  rw [set_apply] at htext
  cases htext
  exact hnew _ (decrypt_of_decryptStream rfl herr hbegins)

theorem decryptUpload_atomic (h : Untouched orig m) {file : Bytes}
    (hupload : m.disk env.upload = some file)
    (hnew : ∀ text, decrypt env.primitives file pass = .ok text → New (env.validSQLiteFile text).2) :
    Atomic orig New (decryptUpload env pass m) := by
  unfold decryptUpload
  apply h.guard (by decide)
  intro _
  have hkeep : (m.set env.decrypted (some [])).disk env.upload = some file :=
    (set_apply_of_ne env.decrypted_ne_upload.symm _).trans hupload
  exact (decryptInto_atomic (h.set _ _) hkeep hnew).remove .removeDecrypted _

/-- A body taken without an error is all there. -/
theorem receive_eq {written : Bytes} (h : receive env body = (written, true)) :
    written = body.contents := by
  have hwhole : (body.contents.take maxUpload, decide (body.contents.length ≤ maxUpload ∧
      body.fault = none)) = (written, true) → written = body.contents := by
    rintro hdelivered
    obtain ⟨rfl, hwhole⟩ := Prod.ext_iff.mp hdelivered
    exact List.take_of_length_le (of_decide_eq_true hwhole).1
  unfold receive at h
  simp only at h
  split at h
  · split at h
    · cases h
    · exact hwhole h
  · exact hwhole h

theorem restoreUpload_atomic (h : Untouched orig m)
    (hplain : pass = [] → New (env.validSQLiteFile body.contents).2)
    (hencrypted : pass ≠ [] → ∀ text, decrypt env.primitives body.contents pass = .ok text →
      New (env.validSQLiteFile text).2) :
    Atomic orig New (restoreUpload env pass body m) := by
  unfold restoreUpload
  apply h.guard (by decide)
  intro _
  obtain ⟨⟨written, ok⟩, hreceive⟩ : ∃ received, receive env body = received := ⟨_, rfl⟩
  have hm := h.set env.uploadName (some written)
  rw [hreceive]
  apply hm.guard (by decide)
  intro hok
  obtain rfl : ok = true := by simpa using hok
  obtain rfl := receive_eq hreceive
  have hfile : (m.set env.upload (some body.contents)).disk env.upload = some body.contents :=
    set_apply ..
  apply hm.guard (by decide)
  intro _
  cases hasNBBKMagic env (m.set env.upload (some body.contents)) env.upload with
  | none => exact hm.atomic (by decide)
  | some encrypted =>
    apply hm.guard (by simp [badRequest])
    intro hneedless
    apply hm.guard (by decide)
    intro hplaintext
    cases encrypted with
    | true =>
      have hpass : pass ≠ [] := by simpa using hneedless
      rw [if_pos rfl]
      exact decryptUpload_atomic hm hfile (hencrypted hpass)
    | false =>
      have hpass : pass = [] := by simpa using hplaintext
      rw [if_neg (by simp)]
      apply install_atomic hm
      intro file hsame
      obtain rfl := Option.some.inj (hfile.symm.trans hsame)
      exact hplain hpass

/-! ## The temporary files -/

theorem install_frame {name : String} {final : Path} (h : .temp name ≠ final) :
    (install env final m).2.disk (.temp name) = m.disk (.temp name) := by
  unfold install
  split
  · rfl
  · split
    · rfl
    · simp only
      split
      · exact set_apply_of_ne h _
      · exact (swap_frame h).trans (set_apply_of_ne h _)

theorem decryptUpload_decrypted (h : m.disk env.decrypted = none)
    (hremove : env.fails .removeDecrypted = false) :
    (decryptUpload env pass m).2.disk env.decrypted = none := by
  unfold decryptUpload
  split
  · exact h
  · exact remove_apply hremove env.decrypted

/-- The second file is gone before the first one is. -/
theorem restoreUpload_decrypted (h : m.disk env.decrypted = none)
    (hremove : env.fails .removeDecrypted = false) :
    (restoreUpload env pass body m).2.disk env.decrypted = none := by
  have hset : ∀ file, (m.set env.upload file).disk env.decrypted = none :=
    fun file => (set_apply_of_ne env.decrypted_ne_upload file).trans h
  unfold restoreUpload
  split
  · exact h
  simp only
  split
  · exact hset _
  split
  · exact hset _
  split
  · exact hset _
  split
  · exact hset _
  split
  · exact hset _
  split
  · exact decryptUpload_decrypted (hset _) hremove
  · exact (install_frame env.decrypted_ne_upload).trans (hset _)

end

/-- The new database: what was uploaded or what it decrypts to, whatever a database does to
its file when it is opened. -/
def Uploaded {Content : Type*} (logical : Bytes → Content) (env : Env) (pass : Bytes)
    (body : Source) (file : Bytes) : Prop :=
  if pass = [] then logical file = logical body.contents
  else ∃ text, decrypt env.primitives body.contents pass = .ok text ∧ logical file = logical text

theorem restore_atomic {Content : Type*} (logical : Bytes → Content) (env : Env) (pass : Bytes)
    (body : Source) (disk : Disk Bytes) (orig : Bytes)
    (hlogical : ∀ file, logical (env.validSQLiteFile file).2 = logical file)
    (hdb : disk .db = some orig) (hupload : disk env.upload = none)
    (hdecrypted : disk env.decrypted = none) :
    Atomic orig (Uploaded logical env pass body) (restore env pass body ⟨disk, []⟩) ∧
      (env.fails .removeUpload = false → env.fails .removeDecrypted = false →
        (restore env pass body ⟨disk, []⟩).2.disk env.upload = none ∧
          (restore env pass body ⟨disk, []⟩).2.disk env.decrypted = none) := by
  have hm : Untouched orig ⟨disk, []⟩ := ⟨by simp, hdb⟩
  have hkeep : ((Machine.mk disk []).set env.upload (some [])).disk env.decrypted = none :=
    (set_apply_of_ne env.decrypted_ne_upload _).trans hdecrypted
  have hplain : pass = [] → Uploaded logical env pass body (env.validSQLiteFile body.contents).2 := by
    intro hpass
    rw [Uploaded, if_pos hpass]
    exact hlogical body.contents
  have hencrypted : pass ≠ [] → ∀ text, decrypt env.primitives body.contents pass = .ok text →
      Uploaded logical env pass body (env.validSQLiteFile text).2 := by
    intro hpass text htext
    rw [Uploaded, if_neg hpass]
    exact ⟨text, htext, hlogical text⟩
  unfold restore
  split
  · exact ⟨hm.atomic (by decide), fun _ _ => ⟨hupload, hdecrypted⟩⟩
  · split
    · exact ⟨hm.atomic (by decide), fun _ _ => ⟨hupload, hdecrypted⟩⟩
    · constructor
      · exact (restoreUpload_atomic (hm.set _ _) hplain hencrypted).remove .removeUpload _
      · intro hremove hremove'
        constructor
        · exact remove_apply hremove env.upload
        · exact (remove_apply_of_ne env.decrypted_ne_upload).trans
            (restoreUpload_decrypted hkeep hremove')

/-- The bytes `SQLite format 3` and a zero. -/
def sqliteHeader : Bytes := [83, 81, 76, 105, 116, 101, 32, 102, 111, 114, 109, 97, 116, 32, 51, 0]

/-- One page of 512 bytes, in WAL mode, with no tables. -/
def emptyDatabase (userVersion : UInt8) : Bytes :=
  sqliteHeader ++ [2, 0, 2, 2, 0, 64, 32, 32, 0, 0, 0, 1, 0, 0, 0, 1] ++ List.replicate 15 0 ++ [4] ++
    List.replicate 11 0 ++ [1, 0, 0, 0, userVersion] ++ List.replicate 31 0 ++ [1, 0, 0, 0, 0] ++
    [13, 0, 0, 0, 0, 2, 0, 0] ++ List.replicate 404 0

def smallDisk : Disk Bytes := fun path => if path = .db then some (emptyDatabase 1) else none

def smallEnv (fault : Option (Op × ℕ)) : Env :=
  ⟨saltedPrimitives, fun file => (file.take 16 = sqliteHeader, file), "1", "2", fault⟩

theorem small_restore_atomic :
    let upload := StreamReader.ofList (emptyDatabase 2)
    let ok := restore (smallEnv none) [] upload ⟨smallDisk, []⟩
    let failed := restore (smallEnv (some (.renameFinal, 0))) [] upload ⟨smallDisk, []⟩
    (ok.1.status = 200 ∧ ok.2.disk .db = some (emptyDatabase 2)) ∧
      failed.1.status = 500 ∧ failed.2.disk .db = some (emptyDatabase 1) := by
  have h := fun fault => (restore_atomic id (smallEnv fault) []
    (StreamReader.ofList (emptyDatabase 2)) smallDisk (emptyDatabase 1) (fun _ => rfl) rfl rfl
    rfl).1
  have hok : (restore (smallEnv none) [] (StreamReader.ofList (emptyDatabase 2))
    ⟨smallDisk, []⟩).1.status = 200 := by decide +kernel
  have hfailed : (restore (smallEnv (some (.renameFinal, 0))) []
    (StreamReader.ofList (emptyDatabase 2)) ⟨smallDisk, []⟩).1.status = 500 := by decide +kernel
  obtain ⟨file, hfile, hnew⟩ := (h none).restored hok
  have hcontents : file = emptyDatabase 2 := hnew.trans (StreamReader.contents_ofList _)
  rw [hcontents] at hfile
  exact ⟨⟨hok, hfile⟩, hfailed, (h _).refused (by rw [hfailed]; decide)⟩

end NetBerth.Restore
