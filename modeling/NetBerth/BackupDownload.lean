import NetBerth.Restore
import NetBerth.Transitions
import NetBerth.WriteAheadLog

/-!
# Downloading a backup

`Download` asks for a checkpoint, opens the file of the database and copies it to the
client, in the clear or through `EncryptStream`. Everyone else goes on: transactions begin
and end, commits go to the log, frames are copied back into the file, and a log that is in
the file is begun anew. Between two bytes of the copy any of these may happen.

A checkpoint that another connection is in the way of returns without an error and is not
complete. The contents the database has had since the request came are kept in a list that
nothing reads.
-/
namespace NetBerth.BackupDownload
open BackupCrypto Restore ByteStream Transitions WriteAheadLog

/-- A byte for each offset, none behind the end. -/
abbrev Image := ℕ → Option UInt8

/-- The bytes are those of the image, up to its end. -/
def Holds (image : Image) (bytes : Bytes) : Prop :=
  (∀ i < bytes.length, image i = bytes[i]?) ∧ image bytes.length = none

inductive Reply where
  | error (response : Response)
  | attachment (ext : String) (body : Bytes)
  deriving DecidableEq, Repr

inductive Phase where
  | received
  | accepted
  | checkpointed
  | copying (copied : Bytes)
  | replied (reply : Reply)
  deriving DecidableEq, Repr

/-- The database, the number of connections that are in the way of a checkpoint, how far the
handler has come, and what the database has held since the request. -/
structure State where
  store : Store ℕ (Option UInt8)
  blockers : ℕ
  phase : Phase
  instants : List Image

def State.start (store : Store ℕ (Option UInt8)) (blockers : ℕ) : State :=
  ⟨store, blockers, .received, [store.content]⟩

/-- The handler's steps, then what the other connections do. -/
inductive Event where
  | check
  | checkpointFails
  | checkpoint
  | openFails
  | open
  | read
  | begin
  | finish
  | commit (frames : List (ℕ × Option UInt8))
  | backfill (frame : ℕ × Option UInt8)
  | restart
  deriving DecidableEq, Repr

section
variable (P : Primitives) (E : Entropy) (pass : Bytes)

/-- What is sent for the bytes of the file. -/
def deliver (bytes : Bytes) : Reply :=
  if pass = [] then .attachment ".db" bytes
  else .attachment ".nbbk"
    (encryptStream P E StreamWriter.buffer (StreamReader.ofList bytes) pass).1.dst.written

def step (s : State) : Event → Option State
  | .check =>
    if s.phase = .received then
      if pass ≠ [] ∧ (pass.length < 8 ∨ 128 < pass.length) then
        some { s with phase := .replied (.error
          (badRequest "backup password must be 8-128 characters")) }
      else some { s with phase := .accepted }
    else none
  | .checkpointFails =>
    if s.phase = .accepted then
      some { s with phase := .replied (.error (serverError "checkpoint failed")) }
    else none
  | .checkpoint =>
    if s.phase = .accepted then
      some { s with
        store := if s.blockers = 0 then s.store.checkpoint else s.store
        phase := .checkpointed }
    else none
  | .openFails =>
    if s.phase = .checkpointed then
      some { s with phase := .replied (.error (serverError "cannot open database")) }
    else none
  | .open => if s.phase = .checkpointed then some { s with phase := .copying [] } else none
  | .read =>
    match s.phase with
    | .copying copied =>
      match s.store.main copied.length with
      | some byte => some { s with phase := .copying (copied ++ [byte]) }
      | none => some { s with phase := .replied (deliver P E pass copied) }
    | _ => none
  | .begin => some { s with blockers := s.blockers + 1 }
  | .finish => if s.blockers ≠ 0 then some { s with blockers := s.blockers - 1 } else none
  | .commit frames =>
    some { s with
      store := s.store.commit frames
      instants := s.instants ++ [(s.store.commit frames).content] }
  | .backfill frame =>
    if frame ∈ s.store.log then some { s with store := s.store.backfill frame } else none
  | .restart => some { s with store := s.store.checkpoint }

end

/-- The copy begins on a file that is a whole content of the database since the request, and
from then on nothing changes a byte that is still to be copied. -/
def Safe (s : State) : Event → Prop
  | .read => s.phase = .copying [] → s.store.main ∈ s.instants
  | .backfill frame => ∀ copied, copied ≠ [] → s.phase = .copying copied →
      frame.1 < copied.length ∨ s.store.main frame.1 = frame.2
  | .restart => ∀ copied, copied ≠ [] → s.phase = .copying copied →
      ∀ i, copied.length ≤ i → s.store.content i = s.store.main i
  | .check => True
  | .checkpointFails => True
  | .checkpoint => True
  | .openFails => True
  | .open => True
  | .begin => True
  | .finish => True
  | .commit _ => True

/-! ## One instant -/

/-- What was copied and what is ahead belong to one content. -/
def Consistent (s : State) (copied : Bytes) : Prop :=
  ∃ c ∈ s.instants, (∀ i < copied.length, c i = copied[i]?) ∧
    ∀ i, copied.length ≤ i → s.store.main i = c i

structure Invariant (P : Primitives) (E : Entropy) (pass : Bytes) (s : State) : Prop where
  copying : ∀ copied, copied ≠ [] → s.phase = .copying copied → Consistent s copied
  replied : ∀ ext body, s.phase = .replied (.attachment ext body) →
    ∃ c ∈ s.instants, ∃ bytes, Holds c bytes ∧ deliver P E pass bytes = .attachment ext body

section
variable {P : Primitives} {E : Entropy} {pass : Bytes} {s t : State}

theorem consistent_nil (h : s.store.main ∈ s.instants) : Consistent s [] :=
  ⟨s.store.main, h, by simp, fun _ _ => rfl⟩

/-- A byte more, from the part ahead. -/
theorem Consistent.append {copied : Bytes} (h : Consistent s copied) {byte : UInt8}
    (hbyte : s.store.main copied.length = some byte) : Consistent s (copied ++ [byte]) := by
  obtain ⟨c, hc, hbefore, hahead⟩ := h
  refine ⟨c, hc, ?_, ?_⟩
  · intro i hi
    rw [List.length_append, List.length_singleton] at hi
    by_cases hlt : i < copied.length
    · rw [List.getElem?_append_left hlt]
      exact hbefore i hlt
    · obtain rfl : i = copied.length := by omega
      rw [List.getElem?_concat_length, ← hahead _ le_rfl, hbyte]
  · intro i hi
    rw [List.length_append] at hi
    exact hahead i (by omega)

theorem Consistent.holds {copied : Bytes} (h : Consistent s copied)
    (hend : s.store.main copied.length = none) : ∃ c ∈ s.instants, Holds c copied := by
  obtain ⟨c, hc, hbefore, hahead⟩ := h
  exact ⟨c, hc, hbefore, (hahead _ le_rfl).symm.trans hend⟩

theorem read_cases (hstep : step P E pass s .read = some t) :
    ∃ copied, s.phase = .copying copied ∧
      ((∃ byte, s.store.main copied.length = some byte ∧
          t = { s with phase := .copying (copied ++ [byte]) }) ∨
        (s.store.main copied.length = none ∧
          t = { s with phase := .replied (deliver P E pass copied) })) := by
  simp only [step] at hstep
  split at hstep
  · rename_i copied hphase
    split at hstep
    · rename_i byte hbyte
      cases hstep
      exact ⟨copied, hphase, .inl ⟨byte, hbyte, rfl⟩⟩
    · rename_i hend
      cases hstep
      exact ⟨copied, hphase, .inr ⟨hend, rfl⟩⟩
  · cases hstep

/-- Nothing is copied and nothing is sent yet. -/
theorem Invariant.of_quiet (hcopying : ∀ copied, copied ≠ [] → s.phase ≠ .copying copied)
    (hreplied : ∀ ext body, s.phase ≠ .replied (.attachment ext body)) : Invariant P E pass s where
  copying copied hne hphase := absurd hphase (hcopying copied hne)
  replied ext body hphase := absurd hphase (hreplied ext body)

/-- What the others do. -/
theorem Invariant.keep (h : Invariant P E pass s) (hphase : t.phase = s.phase)
    (hinstants : ∀ c ∈ s.instants, c ∈ t.instants)
    (hmain : ∀ copied, copied ≠ [] → s.phase = .copying copied →
      ∀ i, copied.length ≤ i → t.store.main i = s.store.main i) : Invariant P E pass t := by
  constructor
  · intro copied hne hcopying
    rw [hphase] at hcopying
    obtain ⟨c, hc, hbefore, hahead⟩ := h.copying copied hne hcopying
    refine ⟨c, hinstants c hc, hbefore, ?_⟩
    intro i hi
    rw [hmain copied hne hcopying i hi, hahead i hi]
  · intro ext body hreplied
    rw [hphase] at hreplied
    obtain ⟨c, hc, hbytes⟩ := h.replied ext body hreplied
    exact ⟨c, hinstants c hc, hbytes⟩

/-- One byte of the copy. -/
theorem Invariant.read (h : Invariant P E pass s) (hsafe : Safe s .read)
    (hstep : step P E pass s .read = some t) : Invariant P E pass t := by
  obtain ⟨copied, hphase, hcase⟩ := read_cases hstep
  have hconsistent : Consistent s copied := by
    by_cases hne : copied = []
    · subst hne
      exact consistent_nil (hsafe hphase)
    · exact h.copying copied hne hphase
  obtain ⟨byte, hbyte, rfl⟩ | ⟨hend, rfl⟩ := hcase
  · constructor
    · intro copied' hne hcopying
      cases hcopying
      exact hconsistent.append hbyte
    · intro ext body hreplied
      cases hreplied
  · constructor
    · intro copied' hne hcopying
      cases hcopying
    · intro ext body hreplied
      obtain ⟨c, hc, hholds⟩ := hconsistent.holds hend
      exact ⟨c, hc, copied, hholds, Phase.replied.inj hreplied⟩

theorem Invariant.step (h : Invariant P E pass s) {e : Event} (hsafe : Safe s e)
    (hstep : BackupDownload.step P E pass s e = some t) : Invariant P E pass t := by
  cases e with
  | check =>
    simp only [BackupDownload.step] at hstep
    split_ifs at hstep
    · cases hstep
      exact .of_quiet (by simp) (by simp)
    · cases hstep
      exact .of_quiet (by simp) (by simp)
  | checkpointFails | checkpoint | openFails =>
    obtain ⟨-, rfl⟩ := of_guard hstep
    exact .of_quiet (by simp) (by simp)
  | «open» =>
    obtain ⟨-, rfl⟩ := of_guard hstep
    exact .of_quiet (by simp) (by simp)
  | read => exact h.read hsafe hstep
  | begin =>
    cases hstep
    exact h.keep rfl (fun _ hc => hc) (fun _ _ _ _ _ => rfl)
  | finish =>
    obtain ⟨-, rfl⟩ := of_guard hstep
    exact h.keep rfl (fun _ hc => hc) (fun _ _ _ _ _ => rfl)
  | commit frames =>
    cases hstep
    exact h.keep rfl (fun _ hc => List.mem_append_left _ hc) (fun _ _ _ _ _ => rfl)
  | backfill frame =>
    obtain ⟨-, rfl⟩ := of_guard hstep
    refine h.keep rfl (fun _ hc => hc) ?_
    intro copied hne hphase i hi
    by_cases hpage : i = frame.1
    · subst hpage
      obtain hbehind | hsame := hsafe copied hne hphase
      · exact absurd hi (by omega)
      · exact congrFun (write_eq_self hsame) frame.1
    · exact Function.update_of_ne hpage _ _
  | restart =>
    cases hstep
    exact h.keep rfl (fun _ hc => hc) hsafe

theorem instants_step {e : Event} (hstep : BackupDownload.step P E pass s e = some t) :
    t.instants = s.instants ∨ t.instants = s.instants ++ [t.store.content] := by
  cases e with
  | check =>
    simp only [BackupDownload.step] at hstep
    split_ifs at hstep
    · cases hstep
      exact .inl rfl
    · cases hstep
      exact .inl rfl
  | checkpointFails | checkpoint | openFails | finish | backfill _ =>
    obtain ⟨-, rfl⟩ := of_guard hstep
    exact .inl rfl
  | «open» =>
    obtain ⟨-, rfl⟩ := of_guard hstep
    exact .inl rfl
  | read =>
    obtain ⟨copied, -, ⟨byte, -, rfl⟩ | ⟨-, rfl⟩⟩ := read_cases hstep
    · exact .inl rfl
    · exact .inl rfl
  | begin | restart =>
    cases hstep
    exact .inl rfl
  | commit frames =>
    cases hstep
    exact .inr rfl

/-- Each content in the list was there at some time of the run. -/
theorem exists_instant {ok : State → Event → Prop} (h : Run (BackupDownload.step P E pass) ok s t)
    (hs : s.instants = [s.store.content]) :
    ∀ c ∈ t.instants, ∃ u, Run (BackupDownload.step P E pass) ok s u ∧
      Run (BackupDownload.step P E pass) ok u t ∧ u.store.content = c := by
  induction h with
  | refl =>
    intro c hc
    rw [hs] at hc
    exact ⟨s, .refl, .refl, (List.mem_singleton.mp hc).symm⟩
  | tail hrun hlast ih =>
    obtain ⟨e, he, hmove⟩ := hlast
    have hstep : Step (BackupDownload.step P E pass) ok _ _ := ⟨e, he, hmove⟩
    intro c hc
    obtain hsame | hmore := instants_step hmove
    · rw [hsame] at hc
      obtain ⟨u, hu, hut, hcontent⟩ := ih c hc
      exact ⟨u, hu, hut.tail hstep, hcontent⟩
    · rw [hmore, List.mem_append, List.mem_singleton] at hc
      rcases hc with hbefore | rfl
      · obtain ⟨u, hu, hut, hcontent⟩ := ih c hbefore
        exact ⟨u, hu, hut.tail hstep, hcontent⟩
      · exact ⟨_, hrun.tail hstep, .refl, rfl⟩

end

/-- For every run whose steps meet the condition, from any database and any number of
connections in the way: what is delivered, once it is decrypted, is what the database held
at one time after the request had come. -/
theorem download_snapshot (P : Primitives) (E : Entropy) (pass : Bytes)
    (hA : pass ≠ [] → (newAEAD P pass E.salt).Lawful) (store : Store ℕ (Option UInt8)) (blockers : ℕ)
    {t : State} (hrun : Run (step P E pass) Safe (.start store blockers) t) {ext : String}
    {body : Bytes} (hreplied : t.phase = .replied (.attachment ext body)) :
    ∃ u bytes, Run (step P E pass) Always (.start store blockers) u ∧
      Run (step P E pass) Always u t ∧ u.store.content ∈ t.instants ∧
      Holds u.store.content bytes ∧ (pass = [] → body = bytes) ∧
      (pass ≠ [] → decrypt P body pass = .ok bytes) := by
  have hstart : Invariant P E pass (.start store blockers) := .of_quiet (by simp [State.start])
    (by simp [State.start])
  have hinv : Invariant P E pass t := hrun.invariant (fun _ _ _ h => h.step) hstart
  have halways : Run (step P E pass) Always (.start store blockers) t :=
    hrun.mono fun _ _ _ => trivial
  obtain ⟨c, hc, bytes, hholds, hdeliver⟩ := hinv.replied ext body hreplied
  obtain ⟨u, hu, hut, rfl⟩ := exists_instant halways rfl c hc
  refine ⟨u, bytes, hu, hut, hc, hholds, ?_, ?_⟩
  · intro hpass
    rw [deliver, if_pos hpass] at hdeliver
    cases hdeliver
    rfl
  · intro hpass
    rw [deliver, if_neg hpass] at hdeliver
    cases hdeliver
    have hfault : (StreamReader.ofList bytes : Source).fault = none := rfl
    have hdec := decryptStream_of_written P E hpass (hA hpass) hfault (StreamReader.contents_ofList _)
    rw [decrypt, hdec, StreamReader.contents_ofList]

/-- Two bytes of 1. -/
def ones : ℕ → Option UInt8 := fun i => if i < 2 then some 1 else none

/-- The log is empty, and the password is eight bytes. -/
def smallStore : Store ℕ (Option UInt8) := ⟨ones, []⟩

def smallPass : Bytes := List.replicate 8 112

/-- Between the two bytes another connection commits, and the byte that has been copied already is
copied back. -/
theorem small_download :
    ∃ (t u : State) (body bytes : Bytes),
      Run (step checksumPrimitives zeroEntropy smallPass) Safe (.start smallStore 0) t ∧
      t.phase = .replied (.attachment ".nbbk" body) ∧ t.store.main 0 = some 2 ∧
      t.instants.length = 2 ∧ u.store.content ∈ t.instants ∧
      Holds u.store.content bytes ∧ decrypt checksumPrimitives body smallPass = .ok bytes := by
  have hfirst : smallStore.main ∈ [smallStore.content] := by
    rw [List.mem_singleton]
    rfl
  have hlater (copied : Bytes) (byte : UInt8) : Phase.copying (copied ++ [byte]) ≠ .copying [] := by
    simp
  have hcopied (copied : Bytes) (h : Phase.copying [1] = .copying copied) : 0 < copied.length := by
    cases h
    decide
  have hrun : Run (step checksumPrimitives zeroEntropy smallPass) Safe (.start smallStore 0) _ :=
    .head ⟨.check, trivial, rfl⟩ (.head ⟨.checkpoint, trivial, rfl⟩ (.head ⟨.open, trivial, rfl⟩
      (.head ⟨.read, fun _ => hfirst, rfl⟩
      (.head ⟨.commit [(0, some 2), (1, some 2)], trivial, rfl⟩
      (.head ⟨.backfill (0, some 2), fun copied _ h => .inl (hcopied copied h), rfl⟩
      (.head ⟨.read, fun h => absurd h (hlater [] 1), rfl⟩
      (.head ⟨.read, fun h => absurd h (hlater [1] 1), rfl⟩ .refl)))))))
  obtain ⟨u, bytes, -, -, hinstant, hholds, -, hdec⟩ := download_snapshot checksumPrimitives
    zeroEntropy smallPass (fun _ => checksumCipher_lawful) smallStore 0 hrun rfl
  exact ⟨_, u, _, bytes, hrun, rfl, rfl, rfl, hinstant, hholds, hdec (by decide)⟩

/-- The reply after some events, and the first two bytes of each content since the request. -/
def outcome (start : State) (events : List Event) : Option (Phase × List (List (Option UInt8))) := do
  let t ← events.foldlM (step checksumPrimitives zeroEntropy []) start
  return (t.phase, t.instants.map fun c => [c 0, c 1])

/-- Between the two bytes a transaction is committed and copied back: the first byte is an old
one and the second a new one. And if someone is in the way of the checkpoint, a
transaction from before the request is missing. -/
theorem backup_torn :
    outcome (.start ⟨ones, []⟩ 0) [.check, .checkpoint, .open, .read,
        .commit [(0, some 2), (1, some 2)], .backfill (0, some 2), .backfill (1, some 2), .read,
        .read] =
      some (.replied (.attachment ".db" [1, 2]), [[some 1, some 1], [some 2, some 2]]) ∧
    outcome (.start ⟨ones, [(0, some 2), (1, some 2)]⟩ 1) [.check, .checkpoint, .open, .read, .read,
        .read] =
      some (.replied (.attachment ".db" [1, 1]), [[some 2, some 2]]) := by
  decide

end NetBerth.BackupDownload
