import NetBerth.BackupDownload

/-!
# A backup is restored

What a download has delivered is taken back by a restore with the same password, if nothing
fails: what the database held at one moment of the download stands in its place. The password is
one that the restore accepts because the download did, and the two agree on what is encrypted.

An upload has a limit and a download has none, and an envelope is longer than the database in it.
So a database near the limit is delivered and is not taken back.
-/
namespace NetBerth.BackupRestore
open BackupCrypto BackupDownload ByteStream Restore Transitions WriteAheadLog

/-! ## If nothing fails -/

section
variable {env : Env} {m : Machine Bytes} {file : Bytes}

theorem fault?_of_none (h : env.fault = none) (op : Op) : env.fault? op = none := by
  rw [Env.fault?, h]

theorem fails_of_none (h : env.fault = none) (op : Op) : env.fails op = false := by
  rw [Env.fails, fault?_of_none h]
  rfl

theorem remove_of_none (h : env.fault = none) (op : Op) (path : Path) :
    env.remove op path m = m.set path none := by
  rw [Env.remove, fails_of_none h]
  rfl

def restored : Response := ⟨200, "database restored. restart the service to apply changes."⟩

/-- The file has taken the place of the database. -/
theorem swap_of_none (h : env.fault = none) {name : String} {orig : Bytes}
    (hdb : m.disk .db = some orig) (hfinal : m.disk (.temp name) = some file) :
    (swap env (.temp name) m).1 = restored ∧ (swap env (.temp name) m).2.disk = fun path =>
      if path = .db then some file else if path = .bak ∨ path = .temp name then none
      else m.disk path := by
  have hfirst := rename_of (fails_of_none h .renameToBackup) hdb .bak
  have hkeep : (m.become (Function.update (Function.update m.disk .bak (some orig)) .db none)).disk
      (.temp name) = some file := by simp [hfinal]
  have hsecond := rename_of (fails_of_none h .renameFinal) hkeep .db
  rw [swap, hfirst, Option.getD_some, hsecond]
  dsimp only
  rw [remove_of_none h]
  refine ⟨rfl, funext fun path => ?_⟩
  cases path with
  | db => simp [Machine.set]
  | bak => simp [Machine.set]
  | temp other =>
    by_cases heq : other = name
    · subst heq
      simp [Machine.set]
    · simp [Machine.set, heq]

theorem install_of_none (h : env.fault = none) {name : String} {orig : Bytes}
    (hdb : m.disk .db = some orig) (hfinal : m.disk (.temp name) = some file)
    (hvalid : (env.validSQLiteFile file).1 = true) :
    (install env (.temp name) m).1 = restored ∧ (install env (.temp name) m).2.disk = fun path =>
      if path = .db then some (env.validSQLiteFile file).2
      else if path = .bak ∨ path = .temp name then none else m.disk path := by
  have hkeep : (m.set (.temp name) (some (env.validSQLiteFile file).2)).disk .db = some orig :=
    (set_apply_of_ne (by simp) _).trans hdb
  obtain ⟨hresponse, hdisk⟩ := swap_of_none h hkeep (set_apply ..)
  rw [install, hfinal]
  dsimp only
  rw [fails_of_none h, if_neg Bool.false_ne_true, hvalid, Bool.not_true, if_neg Bool.false_ne_true]
  refine ⟨hresponse, hdisk.trans (funext fun path => ?_)⟩
  split_ifs with hpath hother
  · rfl
  · rfl
  · exact set_apply_of_ne (fun heq => hother (.inr heq)) _

/-! ## Uploads -/

variable {pass : Bytes} {src : Source} {orig : Bytes}

theorem receive_of_none (h : env.fault = none) (hsrc : src.fault = none) :
    receive env src =
      (src.contents.take maxUpload, decide (src.contents.length ≤ maxUpload)) := by
  rw [receive, fault?_of_none h]
  simp [hsrc]

theorem hasNBBKMagic_of_none (h : env.fault = none) {path : Path} (hfile : m.disk path = some file)
    (hlen : 4 ≤ file.length) : hasNBBKMagic env m path = some (decide (file.take 4 = magic)) := by
  rw [hasNBBKMagic, fails_of_none h, hfile]
  simp only [Bool.false_eq_true, if_false, Option.bind_some, fails_of_none h, false_or,
    if_neg (not_lt.mpr hlen)]

/-- The restore of a file, whatever it was before it was encrypted. -/
structure Replaces (env : Env) (m : Machine Bytes) (text : Bytes)
    (result : Response × Machine Bytes) : Prop where
  response : result.1 = restored
  db : result.2.disk .db = some (env.validSQLiteFile text).2
  bak : result.2.disk .bak = none
  frame : ∀ name, .temp name ≠ env.upload → .temp name ≠ env.decrypted →
    result.2.disk (.temp name) = m.disk (.temp name)

theorem decryptUpload_of_none (h : env.fault = none) (hdb : m.disk .db = some orig)
    (hupload : m.disk env.upload = some file) {text : Bytes}
    (hdec : decryptStream env.primitives StreamWriter.buffer (StreamReader.ofList file) pass =
      (⟨text, none⟩, none)) (hvalid : (env.validSQLiteFile text).1 = true) :
    Replaces env m text (decryptUpload env pass m) := by
  have hkeep : (m.set env.decrypted (some [])).disk env.upload = some file :=
    (set_apply_of_ne env.decrypted_ne_upload.symm _).trans hupload
  let m' := (m.set env.decrypted (some [])).set env.decrypted (some text)
  have hframe {path : Path} (hpath : path ≠ env.decrypted) : m'.disk path = m.disk path :=
    (set_apply_of_ne hpath _).trans (set_apply_of_ne hpath _)
  have hinto : decryptInto env pass (m.set env.decrypted (some [])) = install env env.decrypted m' := by
    rw [decryptInto, fails_of_none h, fails_of_none h, fails_of_none h, fault?_of_none h,
      fault?_of_none h, hkeep]
    simp only [Bool.false_eq_true, if_false, Option.getD_some, Option.map_none]
    rw [show (⟨[], none⟩ : Dest) = StreamWriter.buffer from rfl, hdec]
    rfl
  have hdecrypted : m'.disk (.temp env.decryptedName) = some text := set_apply ..
  obtain ⟨hresponse, hdisk⟩ := install_of_none h
    ((hframe (by simp [Env.decrypted])).trans hdb) hdecrypted hvalid
  rw [decryptUpload, fails_of_none h, if_neg Bool.false_ne_true, hinto]
  dsimp only
  rw [remove_of_none h, Env.decrypted] at *
  constructor
  · exact hresponse
  · rw [set_apply_of_ne (by simp), hdisk]
    rfl
  · rw [set_apply_of_ne (by simp), hdisk]
    rfl
  · intro name _ hname
    have hother : Path.temp name ≠ .temp env.decryptedName := hname
    rw [set_apply_of_ne hother, hdisk]
    dsimp only
    rw [if_neg (by simp), if_neg (by simpa using hother)]
    exact hframe hother

/-- The password is one that both handlers accept. -/
def Accepted (pass : Bytes) : Prop := ¬(pass ≠ [] ∧ (pass.length < 8 ∨ 128 < pass.length))

/-- A body that is too long leaves everything as it was. -/
theorem restore_long (h : env.fault = none) (hpass : Accepted pass) (hsrc : src.fault = none)
    (hlong : maxUpload < src.contents.length) (hdb : m.disk .db = some orig) :
    (restore env pass src m).1 = badRequest "upload failed" ∧
      (restore env pass src m).2.disk .db = some orig := by
  have hreceive : (receive env src).2 = false := by
    rw [receive_of_none h hsrc]
    simpa using hlong
  have hupload : restoreUpload env pass src (m.set env.upload (some [])) =
      (badRequest "upload failed",
        (m.set env.upload (some [])).set env.upload (some (receive env src).1)) := by
    rw [restoreUpload, fails_of_none h, if_neg Bool.false_ne_true]
    simp [hreceive]
  rw [restore, if_neg hpass, fails_of_none h, if_neg Bool.false_ne_true, hupload]
  dsimp only
  rw [remove_of_none h]
  refine ⟨rfl, ?_⟩
  rw [set_apply_of_ne (by simp [Env.upload]), set_apply_of_ne (by simp [Env.upload]),
    set_apply_of_ne (by simp [Env.upload]), hdb]

/-- What is uploaded is put in place, plain or decrypted. -/
theorem restore_short (h : env.fault = none) (hpass : Accepted pass) (hsrc : src.fault = none)
    (hshort : src.contents.length ≤ maxUpload) (hdb : m.disk .db = some orig)
    (hlen : 4 ≤ src.contents.length) {text : Bytes}
    (hplain : pass = [] → src.contents = text ∧ text.take 4 ≠ magic)
    (hencrypted : pass ≠ [] → src.contents.take 4 = magic ∧
      decryptStream env.primitives StreamWriter.buffer (StreamReader.ofList src.contents) pass =
        (⟨text, none⟩, none)) (hvalid : (env.validSQLiteFile text).1 = true) :
    Replaces env m text (restore env pass src m) := by
  let m' := (m.set env.upload (some [])).set env.upload (some src.contents)
  have hframe {path : Path} (hpath : path ≠ env.upload) : m'.disk path = m.disk path :=
    (set_apply_of_ne hpath _).trans (set_apply_of_ne hpath _)
  have hdb' : m'.disk .db = some orig := (hframe (by simp [Env.upload])).trans hdb
  have hupload : m'.disk env.upload = some src.contents := set_apply ..
  have hreceive : receive env src = (src.contents, true) := by
    rw [receive_of_none h hsrc, List.take_of_length_le hshort, decide_eq_true hshort]
  have hinner : Replaces env m' text
      (restoreUpload env pass src (m.set env.upload (some []))) := by
    rw [restoreUpload, fails_of_none h, if_neg Bool.false_ne_true, hreceive]
    dsimp only
    rw [fails_of_none h, Bool.not_true, if_neg Bool.false_ne_true, if_neg Bool.false_ne_true,
      hasNBBKMagic_of_none h hupload hlen]
    dsimp only
    by_cases hempty : pass = []
    · obtain ⟨hsame, hmagic⟩ := hplain hempty
      have huploaded : m'.disk (.temp env.uploadName) = some src.contents := hupload
      obtain ⟨hresponse, hdisk⟩ := install_of_none h hdb' huploaded (by rw [hsame]; exact hvalid)
      rw [← hsame] at hmagic ⊢
      simp only [hmagic, decide_false, hempty, Bool.false_eq_true, false_and, if_false, ne_eq,
        not_true_eq_false, and_false]
      constructor
      · exact hresponse
      · exact congrFun hdisk .db
      · exact congrFun hdisk .bak
      · intro name hname _
        have hother : Path.temp name ≠ .temp env.uploadName := hname
        refine (congrFun hdisk _).trans ?_
        rw [if_neg (by simp), if_neg (by simpa using hother)]
    · obtain ⟨hmagic, hdec⟩ := hencrypted hempty
      simp only [hmagic, decide_true, hempty, and_false, if_false, Bool.not_true,
        Bool.false_eq_true, false_and, if_true]
      exact decryptUpload_of_none h hdb' hupload hdec hvalid
  rw [restore, if_neg hpass, fails_of_none h, if_neg Bool.false_ne_true]
  dsimp only
  rw [remove_of_none h]
  constructor
  · exact hinner.response
  · rw [set_apply_of_ne (by simp [Env.upload]), hinner.db]
  · rw [set_apply_of_ne (by simp [Env.upload]), hinner.bak]
  · intro name hname hname'
    rw [set_apply_of_ne hname, hinner.frame name hname hname']
    exact hframe hname

end

/-! ## Downloads -/

section
variable {P : Primitives} {E : Entropy} {pass : Bytes}

/-- Before the password is checked nothing is copied. -/
def Checked (pass : Bytes) (s : State) : Prop :=
  Accepted pass ∨ s.phase = .received ∨ ∃ response, s.phase = .replied (.error response)

theorem Checked.step {s t : State} {e : BackupDownload.Event} (h : Checked pass s)
    (hstep : BackupDownload.step P E pass s e = some t) : Checked pass t := by
  rcases h with h | h
  · exact .inl h
  have hkeep : t.phase = s.phase → Checked pass t := fun hphase => .inr (hphase ▸ h)
  cases e with
  | check =>
    simp only [BackupDownload.step] at hstep
    split_ifs at hstep with hphase hbad
    · cases hstep
      exact .inr (.inr ⟨_, rfl⟩)
    · exact .inl hbad
  | checkpointFails | checkpoint | openFails | «open» =>
    simp only [BackupDownload.step] at hstep
    split_ifs at hstep with hphase
    all_goals
      rw [hphase] at h
      rcases h with h | ⟨response, h⟩ <;> cases h
  | read =>
    rcases h with h | ⟨response, h⟩
    all_goals
      simp only [BackupDownload.step, h] at hstep
      cases hstep
  | begin | commit | restart =>
    cases hstep
    exact hkeep rfl
  | finish | backfill =>
    obtain ⟨-, hstep⟩ := Option.ite_none_right_eq_some.mp hstep
    cases hstep
    exact hkeep rfl

/-- How long the envelope of a file is. -/
def envelopeLength (A : AEAD) (n : ℕ) : ℕ :=
  headerSize + n + (n + (maxChunkSize - 1)) / maxChunkSize * (4 + nonceSize + A.overhead) +
    (4 + nonceSize + 8 + A.overhead)

theorem length_dataRecords {A : AEAD} (hA : A.Lawful) (i : ℕ) (cs : List Bytes) :
    (((dataSeals A E i cs).map dataRecord).flatten).length =
      cs.flatten.length + cs.length * (4 + nonceSize + A.overhead) := by
  induction cs generalizing i with
  | nil => simp [dataSeals]
  | cons c cs ih =>
    have hrecord : (dataRecord (dataSeal A E i c)).length =
        c.length + (4 + nonceSize + A.overhead) := by
      simp only [dataRecord, dataSeal, List.length_append, length_putUint32, E.length_nonce,
        hA.length_sealText]
      omega
    rw [dataSeals, List.map_cons, List.flatten_cons, List.length_append, hrecord, ih,
      List.flatten_cons, List.length_append, List.length_cons, Nat.succ_mul]
    omega

theorem length_envelope (hA : (newAEAD P pass E.salt).Lawful) (hpass : pass ≠ []) (bytes : Bytes) :
    ((encryptStream P E StreamWriter.buffer (StreamReader.ofList bytes) pass).1.dst.written).length =
      envelopeLength (newAEAD P pass E.salt) bytes.length := by
  have hflatten : (chunks bytes).flatten = bytes := by rw [chunks, flatten_chunksOf]
  rw [encryptStream_of P E _ rfl hpass, StreamReader.contents_ofList]
  simp only [Sink.of, body, List.length_append, length_dataRecords hA, hflatten, length_chunks,
    length_header E.length_salt, footerRecord, footerSeal, length_putUint32, E.length_nonce,
    hA.length_sealText, length_putUint64, envelopeLength]
  omega

/-- A store without a log. -/
def settled (bytes : Bytes) : Store ℕ (Option UInt8) := ⟨fun i => bytes[i]?, []⟩

theorem eq_of_holds_settled {bytes copied : Bytes} (h : Holds (settled bytes).content copied) :
    copied = bytes := by
  obtain ⟨hbefore, hend⟩ := h
  change bytes[copied.length]? = none at hend
  have hle : bytes.length ≤ copied.length := List.getElem?_eq_none_iff.mp hend
  refine List.ext_getElem? fun i => ?_
  by_cases hi : i < copied.length
  · exact (hbefore i hi).symm
  · rw [List.getElem?_eq_none (not_lt.mp hi), List.getElem?_eq_none (by omega)]

theorem copying_run (bytes : Bytes) {n : ℕ} (hn : n ≤ bytes.length) :
    Run (step P E pass) Safe ⟨settled bytes, 0, .copying [], [(settled bytes).content]⟩
      ⟨settled bytes, 0, .copying (bytes.take n), [(settled bytes).content]⟩ := by
  induction n with
  | zero => exact .refl
  | succ n ih =>
    refine (ih (by omega)).tail ⟨.read, fun _ => List.mem_singleton.mpr rfl, ?_⟩
    have hlen : (bytes.take n).length = n := List.length_take_of_le (by omega)
    have hbyte : (settled bytes).main (bytes.take n).length = some bytes[n] := by
      rw [hlen]
      exact List.getElem?_eq_getElem (by omega)
    simp only [step, hbyte, List.take_append_getElem]

/-- If no one else is at the database all of it is delivered. -/
theorem undisturbed_run (hpass : Accepted pass) (bytes : Bytes) :
    Run (step P E pass) Safe (.start (settled bytes) 0)
      ⟨settled bytes, 0, .replied (deliver P E pass bytes), [(settled bytes).content]⟩ := by
  have hopened : Run (step P E pass) Safe (.start (settled bytes) 0)
      ⟨settled bytes, 0, .copying [], [(settled bytes).content]⟩ := by
    have hcheck : step P E pass (.start (settled bytes) 0) .check =
        some ⟨settled bytes, 0, .accepted, [(settled bytes).content]⟩ := if_neg hpass
    exact .head ⟨.check, trivial, hcheck⟩ (.head ⟨.checkpoint, trivial, rfl⟩
      (.tail .refl ⟨.open, trivial, rfl⟩))
  have hcopied : Run (step P E pass) Safe _ _ := copying_run bytes le_rfl
  rw [List.take_length] at hcopied
  refine (hopened.trans hcopied).tail ⟨.read, fun _ => List.mem_singleton.mpr rfl, ?_⟩
  have hend : (settled bytes).main bytes.length = none := List.getElem?_eq_none le_rfl
  simp only [step, hend]

/-- In every run of a download whose steps meet the condition, what is delivered holds what the
database did at one moment of it. A restore with the same password refuses it if it is longer than
an upload may be, and puts it in the place of the database otherwise. -/
theorem restore_of_download (hA : pass ≠ [] → (newAEAD P pass E.salt).Lawful)
    (store : Store ℕ (Option UInt8)) (blockers : ℕ) {t : State}
    (hrun : Run (step P E pass) Safe (.start store blockers) t) {ext : String} {body : Bytes}
    (hreplied : t.phase = .replied (.attachment ext body)) {env : Env} (hP : env.primitives = P)
    (hfault : env.fault = none) {m : Machine Bytes} {orig : Bytes} (hdb : m.disk .db = some orig)
    {src : Source} (hsrc : src.contents = body) (hwhole : src.fault = none) :
    ∃ u bytes, Run (step P E pass) Always (.start store blockers) u ∧
      Run (step P E pass) Always u t ∧ u.store.content ∈ t.instants ∧
      Holds u.store.content bytes ∧ body.length = (if pass = [] then bytes.length
        else envelopeLength (newAEAD P pass E.salt) bytes.length) ∧
      (maxUpload < body.length → (restore env pass src m).1 = badRequest "upload failed" ∧
        (restore env pass src m).2.disk .db = some orig) ∧
      (body.length ≤ maxUpload → sqliteHeader <+: bytes → (env.validSQLiteFile bytes).1 = true →
        Replaces env m bytes (restore env pass src m)) := by
  have hstart : Invariant P E pass (.start store blockers) := .of_quiet (by simp [State.start])
    (by simp [State.start])
  have hinv : Invariant P E pass t := hrun.invariant (fun _ _ _ h => h.step) hstart
  have hchecked : Checked pass t :=
    hrun.invariant (fun _ _ _ h _ hstep => h.step hstep) (.inr (.inl rfl))
  have haccepted : Accepted pass := by
    rcases hchecked with h | h | ⟨response, h⟩
    · exact h
    · cases h.symm.trans hreplied
    · cases h.symm.trans hreplied
  have halways : Run (step P E pass) Always (.start store blockers) t :=
    hrun.mono fun _ _ _ => trivial
  obtain ⟨c, hc, bytes, hholds, hdeliver⟩ := hinv.replied ext body hreplied
  obtain ⟨u, hu, hut, rfl⟩ := exists_instant halways rfl c hc
  refine ⟨u, bytes, hu, hut, hc, hholds, ?_, ?_, ?_⟩
  · unfold deliver at hdeliver
    split_ifs at hdeliver ⊢ with hempty
    · cases hdeliver
      rfl
    · cases hdeliver
      exact length_envelope (hA hempty) hempty bytes
  · intro hlong
    exact restore_long hfault haccepted hwhole (hsrc ▸ hlong) hdb
  · intro hshort hheader hvalid
    have hmagic : bytes.take 4 = sqliteHeader.take 4 := by
      obtain ⟨tail, rfl⟩ := hheader
      rfl
    subst hP hsrc
    unfold deliver at hdeliver
    by_cases hempty : pass = []
    · rw [if_pos hempty] at hdeliver
      cases hdeliver
      refine restore_short hfault haccepted hwhole hshort hdb ?_ (fun _ => ⟨rfl, ?_⟩)
        (fun hne => absurd hempty hne) hvalid
      · exact le_trans (by decide) hheader.length_le
      · rw [hmagic]
        decide
    · rw [if_neg hempty] at hdeliver
      injection hdeliver with _ hbody
      have hfaultless : (StreamReader.ofList bytes : Source).fault = none := rfl
      have hdec := decryptStream_of_written env.primitives E hempty (hA hempty) hfaultless
        ((StreamReader.contents_ofList src.contents).trans hbody.symm)
      rw [StreamReader.contents_ofList] at hdec
      have hbegins : src.contents.take 4 = magic := by
        rw [← hbody, encryptStream_of env.primitives E _ rfl hempty]
        rfl
      refine restore_short hfault haccepted hwhole hshort hdb ?_ (fun hno => absurd hno hempty)
        (fun _ => ⟨hbegins, hdec⟩) hvalid
      have hlen := congrArg List.length hbegins
      rw [List.length_take] at hlen
      exact min_eq_left_iff.mp hlen

end

def checksumEnv : Env :=
  ⟨checksumPrimitives, fun file => (file.take 16 = sqliteHeader, file), "1", "2", none⟩

/-- An encrypted backup, put in the place of another database. -/
theorem restore_of_download_header : ∃ body : Bytes,
    (∃ t : State, Run (step checksumPrimitives zeroEntropy smallPass) Safe
      (.start (settled sqliteHeader) 0) t ∧ t.phase = .replied (.attachment ".nbbk" body)) ∧
      (restore checksumEnv smallPass (StreamReader.ofList body) ⟨smallDisk, []⟩).2.disk .db =
        some sqliteHeader := by
  have hpass : smallPass ≠ [] := by decide
  have hrun : Run (step checksumPrimitives zeroEntropy smallPass) Safe _ _ :=
    undisturbed_run (by unfold Accepted; decide) sqliteHeader
  have hlawful : smallPass ≠ [] → (newAEAD checksumPrimitives smallPass zeroEntropy.salt).Lawful :=
    fun _ => checksumCipher_lawful
  rw [deliver, if_neg hpass] at hrun
  obtain ⟨u, bytes, -, -, hc, hholds, hlen, -, hrestore⟩ := restore_of_download hlawful
    (settled sqliteHeader) 0 hrun rfl (rfl : checksumEnv.primitives = checksumPrimitives) rfl
    (m := ⟨smallDisk, []⟩) rfl (StreamReader.contents_ofList _) rfl
  rw [List.mem_singleton.mp hc] at hholds
  obtain rfl := eq_of_holds_settled hholds
  rw [if_neg hpass] at hlen
  refine ⟨_, ⟨_, hrun, rfl⟩, (hrestore ?_ (List.prefix_refl _) (by decide)).db⟩
  rw [hlen]
  decide

end NetBerth.BackupRestore
