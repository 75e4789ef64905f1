import NetBerth.FileNames
import NetBerth.Goroutines

/-!
# The self-signed certificate

The server and `doctor` make a certificate with its key if the two cannot be loaded. Each is
written to a file of its own beside the old one and then takes its name, the certificate first;
what is returned is loaded again. Nothing keeps two processes apart, and each of them can be
killed at any point.

Where the processes come one after another, whatever killed them, the two files are never seen
half written and a process that all calls of the system have worked for never ends without a
pair. Once a pair is in place, any number of processes at a time return this pair. Only of two
that find none at the same time one may end up with what is not its own.
-/
namespace NetBerth.SelfSignedPair
open Interleaving Goroutines FileNames

inductive File where
  | cert
  | key
  deriving DecidableEq, Repr

/-- The name of a file, and this with `.tmp`. -/
inductive Name where
  | path (f : File)
  | tmp (f : File)
  deriving DecidableEq, Repr

/-- What is in a file: the certificate and the private key of a pair, by its number, or a part of
something. -/
inductive Blob where
  | empty
  | torn
  | certificate (pair : ℕ)
  | privateKey (pair : ℕ)
  deriving DecidableEq, Repr

def pem (pair : ℕ) : File → Blob
  | .cert => .certificate pair
  | .key => .privateKey pair

structure Store where
  disk : Disk Name Blob
  generated : ℕ

/-- Where a process is in `EnsureSelfSigned`. It loads the pair at first, and `again` at the end.
`shell` starts processes. A process has failed where a call of the system has; it is unmatched
where each has worked, but no pair is there. -/
inductive Phase where
  | shell
  | loadCert (again : Bool)
  | loadKey (again : Bool) (cert : Option Blob)
  | mkdir
  | generate
  | create (f : File) (pair : ℕ)
  | write (f : File) (pair file : ℕ)
  | rename (f : File) (pair : ℕ)
  | returned (pair : ℕ)
  | failed
  | unmatched
  | killed
  deriving DecidableEq, Repr

/-- A call works or fails, or the process is killed before it. What is written may also `tear`,
with the process killed, or be mixed with what another process writes to the same file. -/
inductive Choice where
  | go
  | fail
  | kill
  | tear
  | mix
  deriving DecidableEq, Repr

/-- `tls.X509KeyPair`. -/
def pairOf : Option Blob → Option Blob → Option ℕ
  | some (.certificate k), some (.privateKey k') => if k = k' then some k else none
  | _, _ => none

def Store.writes (s : Store) (file : ℕ) (x : Blob) : Store := { s with disk := s.disk.write file x }

/-- After a rename: the key is next, or the pair is loaded. -/
def Phase.renamed (pair : ℕ) : File → Phase
  | .cert => .create .key pair
  | .key => .loadCert true

def step (a : Choice) (s : Store) : Phase → Option (Store × Phase × List Phase)
  | .shell => if a = .go then some (s, .shell, [.loadCert false]) else none
  | .loadCert again =>
    match a with
    | .go => some (s, .loadKey again (s.disk.read (.path .cert)), [])
    | .fail => some (s, if again then .failed else .mkdir, [])
    | .kill => some (s, .killed, [])
    | _ => none
  | .loadKey again cert =>
    match a with
    | .go =>
      match pairOf cert (s.disk.read (.path .key)) with
      | some k => some (s, .returned k, [])
      | none => some (s, if again then .unmatched else .mkdir, [])
    | .fail => some (s, if again then .failed else .mkdir, [])
    | .kill => some (s, .killed, [])
    | _ => none
  | .mkdir =>
    match a with
    | .go => some (s, .generate, [])
    | .fail => some (s, .failed, [])
    | .kill => some (s, .killed, [])
    | _ => none
  | .generate =>
    match a with
    | .go => some ({ s with generated := s.generated + 1 }, .create .cert s.generated, [])
    | .fail => some (s, .failed, [])
    | .kill => some (s, .killed, [])
    | _ => none
  | .create f pair =>
    match a with
    | .go =>
      let d := s.disk.create (.tmp f) .empty
      some ({ s with disk := d.1 }, .write f pair d.2, [])
    | .fail => some (s, .failed, [])
    | .kill => some (s, .killed, [])
    | _ => none
  | .write f pair file =>
    match a with
    | .go => some (s.writes file (pem pair f), .rename f pair, [])
    | .mix =>
      if s.disk.contents file ≠ .empty then some (s.writes file .torn, .rename f pair, [])
      else none
    | .fail => some (s.writes file .torn, .failed, [])
    | .tear => some (s.writes file .torn, .killed, [])
    | .kill => some (s, .killed, [])
  | .rename f pair =>
    match a with
    | .go =>
      match s.disk.rename (.tmp f) (.path f) with
      | some d => some ({ s with disk := d }, .renamed pair f, [])
      | none => some (s, .unmatched, [])
    | .fail => some (s, .failed, [])
    | .kill => some (s, .killed, [])
    | _ => none
  | .returned _ | .failed | .unmatched | .killed => none

def program : Program Store Phase Choice := ⟨step⟩

/-- No process has been started. -/
def boot (disk : Disk Name Blob) : Config Store Phase := ⟨⟨disk, 0⟩, [.shell]⟩

/-! ## One process after another -/

def Phase.running : Phase → Bool
  | .shell | .returned _ | .failed | .unmatched | .killed => false
  | _ => true

/-- A process is started when no other is running. -/
def Alone (c : Config Store Phase) (m : Move Choice) : Prop :=
  c.procs[m.1]? = some .shell → ∀ p ∈ c.procs, p.running = false

instance (c : Config Store Phase) (m : Move Choice) : Decidable (Alone c m) :=
  inferInstanceAs (Decidable (_ → _))

/-- Each file is what it was at first, or the whole of what was to be written. -/
def Whole (disk : Disk Name Blob) (s : Store) : Prop :=
  ∀ f, s.disk.read (.path f) = disk.read (.path f) ∨
    ∃ k, s.disk.read (.path f) = some (pem k f)

/-- The certificate has been replaced when the key is written. -/
def First (s : Store) (pair : ℕ) : File → Prop
  | .cert => True
  | .key => s.disk.read (.path .cert) = some (.certificate pair)

/-- How far a process that runs alone has come on the disk. -/
def Local (s : Store) : Phase → Prop
  | .create f pair => First s pair f
  | .write f pair file => First s pair f ∧ s.disk.entries (.tmp f) = some file ∧
      s.disk.read (.tmp f) = some .empty
  | .rename f pair => First s pair f ∧ s.disk.read (.tmp f) = some (pem pair f)
  | .loadCert true => ∃ k, s.disk.read (.path .cert) = some (.certificate k) ∧
      s.disk.read (.path .key) = some (.privateKey k)
  | .loadKey again cert => cert = s.disk.read (.path .cert) ∧ (again = true →
      ∃ k, cert = some (.certificate k) ∧ s.disk.read (.path .key) = some (.privateKey k))
  | .unmatched => False
  | _ => True

section
variable {disk : Disk Name Blob} {a : Choice} {s s' : Store} {p q : Phase} {started : List Phase}
  {f : File} {pair file : ℕ}

theorem pairOf_pem (k : ℕ) : pairOf (some (.certificate k)) (some (.privateKey k)) = some k :=
  if_pos rfl

theorem pairOf_eq_some {c x : Option Blob} {k : ℕ} (h : pairOf c x = some k) :
    c = some (.certificate k) ∧ x = some (.privateKey k) := by
  unfold pairOf at h
  split at h
  · split_ifs at h with heq
    cases h
    exact ⟨rfl, by rw [heq]⟩
  · cases h

/-- Emptying or writing `.tmp` leaves what has its name alone. -/
theorem Whole.of_paths (h : Whole disk s)
    (hpaths : ∀ f, s'.disk.read (.path f) = s.disk.read (.path f)) : Whole disk s' := by
  intro f
  rw [hpaths]
  exact h f

theorem First.of_paths (h : First s pair f)
    (hpaths : ∀ f, s'.disk.read (.path f) = s.disk.read (.path f)) : First s' pair f := by
  cases f with
  | cert => trivial
  | key =>
    unfold First
    rw [hpaths]
    exact h

theorem read_path_create (s : Store) (f f' : File) :
    (s.disk.create (.tmp f) .empty).1.read (.path f') = s.disk.read (.path f') := by
  rw [(Disk.create_spec (d := s.disk) (.tmp f) .empty).2, if_neg nofun]

theorem read_path_writes (h : s.disk.entries (.tmp f) = some file) (x : Blob) (f' : File) :
    (s.writes file x).disk.read (.path f') = s.disk.read (.path f') := by
  rw [Store.writes, Disk.read_write h, if_neg nofun]

/-- After the rename the file is the new one, and the other is as before. -/
theorem read_path_rename {d : Disk Name Blob}
    (h : s.disk.rename (.tmp f) (.path f) = some d) (f' : File) :
    d.read (.path f') = if f' = f then s.disk.read (.tmp f) else s.disk.read (.path f') := by
  rw [Disk.read_rename h]
  by_cases hf : f' = f
  · rw [if_pos (congrArg Name.path hf), if_pos hf]
  · rw [if_neg fun heq => hf (Name.path.inj heq), if_neg nofun, if_neg hf]

theorem step_create (hp : First s pair f) (hs : Whole disk s) :
    Whole disk { s with disk := (s.disk.create (.tmp f) .empty).1 } ∧
      Local { s with disk := (s.disk.create (.tmp f) .empty).1 }
        (.write f pair (s.disk.create (.tmp f) .empty).2) := by
  obtain ⟨hentry, hread⟩ := Disk.create_spec (d := s.disk) (.tmp f) Blob.empty
  refine ⟨hs.of_paths (read_path_create s f), hp.of_paths (read_path_create s f), hentry, ?_⟩
  rw [hread, if_pos rfl]

theorem step_write (hp : Local s (.write f pair file)) (hs : Whole disk s) (x : Blob) :
    Whole disk (s.writes file x) ∧ First (s.writes file x) pair f ∧
      (s.writes file x).disk.read (.tmp f) = some x := by
  obtain ⟨hfirst, hentry, -⟩ := hp
  refine ⟨hs.of_paths (read_path_writes hentry x), hfirst.of_paths (read_path_writes hentry x), ?_⟩
  rw [Store.writes, Disk.read_write hentry, if_pos rfl]

theorem step_rename (hp : Local s (.rename f pair)) (hs : Whole disk s) {d : Disk Name Blob}
    (h : s.disk.rename (.tmp f) (.path f) = some d) :
    Whole disk { s with disk := d } ∧ Local { s with disk := d } (.renamed pair f) := by
  obtain ⟨hfirst, hread⟩ := hp
  refine ⟨fun f' => ?_, ?_⟩
  · show d.read _ = _ ∨ ∃ k, d.read _ = _
    rw [read_path_rename h]
    split_ifs with hf
    · subst hf
      exact .inr ⟨pair, hread⟩
    · exact hs f'
  · cases f with
    | cert =>
      show d.read _ = _
      rw [read_path_rename h, if_pos rfl]
      exact hread
    | key =>
      refine ⟨pair, ?_, ?_⟩
      · show d.read _ = _
        rw [read_path_rename h, if_neg nofun]
        exact hfirst
      · show d.read _ = _
        rw [read_path_rename h, if_pos rfl]
        exact hread

/-- A step of a process that runs alone. -/
theorem step_alone (h : step a s p = some (s', q, started)) (hp : Local s p)
    (hs : Whole disk s) : Whole disk s' ∧ Local s' q ∧ ∀ r ∈ started, Local s' r := by
  have hnone : ∀ r ∈ ([] : List Phase), Local s' r := List.forall_mem_nil _
  cases p with
  | shell =>
    simp only [step] at h
    split_ifs at h with ha
    cases h
    exact ⟨hs, trivial, by simp [Local]⟩
  | loadCert again =>
    cases a <;> cases again <;> cases h
    · exact ⟨hs, ⟨rfl, nofun⟩, hnone⟩
    · exact ⟨hs, ⟨rfl, fun _ => hp⟩, hnone⟩
    all_goals exact ⟨hs, trivial, hnone⟩
  | loadKey again cert =>
    cases a with
    | go =>
      cases hpair : pairOf cert (s.disk.read (.path .key)) with
      | some k =>
        simp only [step, hpair] at h
        cases h
        exact ⟨hs, trivial, hnone⟩
      | none =>
        cases again with
        | false =>
          simp only [step, hpair] at h
          cases h
          exact ⟨hs, trivial, hnone⟩
        | true =>
          obtain ⟨k, rfl, hkey⟩ := hp.2 rfl
          rw [hkey, pairOf_pem] at hpair
          cases hpair
    | fail =>
      cases again <;> cases h
      all_goals exact ⟨hs, trivial, hnone⟩
    | kill =>
      cases h
      exact ⟨hs, trivial, hnone⟩
    | tear | mix => cases h
  | mkdir | generate =>
    cases a <;> cases h
    all_goals exact ⟨hs, trivial, hnone⟩
  | create f pair =>
    cases a <;> cases h
    · obtain ⟨hwhole, hlocal⟩ := step_create hp hs
      exact ⟨hwhole, hlocal, hnone⟩
    all_goals exact ⟨hs, trivial, hnone⟩
  | write f pair file =>
    cases a with
    | go =>
      cases h
      obtain ⟨hwhole, hfirst, hread⟩ := step_write hp hs (pem pair f)
      exact ⟨hwhole, ⟨hfirst, hread⟩, hnone⟩
    | fail | tear =>
      cases h
      exact ⟨(step_write hp hs .torn).1, trivial, hnone⟩
    | kill =>
      cases h
      exact ⟨hs, trivial, hnone⟩
    | mix =>
      -- nobody else has written to the file
      have hempty : s.disk.contents file = .empty := by
        obtain ⟨-, hentry, hread⟩ := hp
        simpa [Disk.read, hentry] using hread
      simp only [step, hempty, ne_eq, not_true_eq_false, if_false] at h
      cases h
  | rename f pair =>
    cases a with
    | go =>
      obtain ⟨d, hrename⟩ := Disk.exists_rename hp.2 (.path f)
      simp only [step, hrename] at h
      cases h
      obtain ⟨hwhole, hlocal⟩ := step_rename hp hs hrename
      exact ⟨hwhole, hlocal, hnone⟩
    | fail | kill =>
      cases h
      exact ⟨hs, trivial, hnone⟩
    | tear | mix => cases h
  | returned _ | failed | unmatched | killed => cases h

/-- Only the shell starts anything, and only a process that is running makes another step. -/
theorem step_started (h : step a s p = some (s', q, started)) :
    p = .shell ∧ s' = s ∧ q = .shell ∧ started = [.loadCert false] ∨
      p.running = true ∧ started = [] := by
  cases p with
  | shell =>
    simp only [step] at h
    split_ifs at h with ha
    cases h
    exact .inl ⟨rfl, rfl, rfl, rfl⟩
  | loadCert again => cases a <;> cases h <;> exact .inr ⟨rfl, rfl⟩
  | loadKey again cert =>
    cases a with
    | go =>
      simp only [step] at h
      split at h <;> cases h <;> exact .inr ⟨rfl, rfl⟩
    | fail | kill =>
      cases h
      exact .inr ⟨rfl, rfl⟩
    | tear | mix => cases h
  | mkdir | generate => cases a <;> cases h <;> exact .inr ⟨rfl, rfl⟩
  | create f pair => cases a <;> cases h <;> exact .inr ⟨rfl, rfl⟩
  | write f pair file =>
    cases a with
    | mix =>
      simp only [step] at h
      split_ifs at h
      cases h
      exact .inr ⟨rfl, rfl⟩
    | _ =>
      cases h
      exact .inr ⟨rfl, rfl⟩
  | rename f pair =>
    cases a with
    | go =>
      simp only [step] at h
      split at h <;> cases h <;> exact .inr ⟨rfl, rfl⟩
    | fail | kill =>
      cases h
      exact .inr ⟨rfl, rfl⟩
    | tear | mix => cases h
  | returned _ | failed | unmatched | killed => cases h

/-- Who is not running has nothing to do with the disk. -/
theorem local_of_idle (hp : Local s p) (hidle : p.running = false) : Local s' p := by
  cases p <;> first | exact hp | cases hidle

/-- At most one process is running. -/
structure Sequential (disk : Disk Name Blob) (c : Config Store Phase) : Prop where
  whole : Whole disk c.shared
  procs : ∀ p ∈ c.procs, Local c.shared p
  alone : Pairs (fun p r => p.running = false ∨ r.running = false) c.procs

theorem boot_sequential (disk : Disk Name Blob) : Sequential disk (boot disk) where
  whole _ := .inl rfl
  procs p hp := by
    rw [List.mem_singleton.mp hp]
    trivial
  alone i j p r hij hi hj := by
    rw [List.mem_singleton.mp (List.mem_of_getElem? hi)]
    exact .inl rfl

theorem Sequential.exec {c : Config Store Phase} {m : Move Choice} (h : Sequential disk c)
    (halone : Alone c m) : Sequential disk (program.exec c m) := by
  rcases program.exec_cases c m with ⟨p, s, q, started, hp, hstep, he⟩ | he
  · rw [he]
    have hmem : p ∈ c.procs := List.mem_of_getElem? hp
    obtain ⟨hwhole, hlocal, hnew⟩ := step_alone hstep (h.procs p hmem) h.whole
    rcases step_started hstep with ⟨rfl, rfl, rfl, rfl⟩ | ⟨hrunning, rfl⟩
    · have hidle := halone hp
      have hset : c.procs.set m.1 Phase.shell = c.procs := by
        obtain ⟨hi, hself⟩ := List.getElem?_eq_some_iff.mp hp
        rw [← hself]
        exact List.set_getElem_self hi
      rw [hset]
      refine ⟨hwhole, fun r hr => ?_, h.alone.spawn fun r hr => ?_⟩
      · rcases List.mem_append.mp hr with hr | hr
        · exact h.procs r hr
        · exact hnew r hr
      · exact ⟨.inl (hidle r hr), .inr (hidle r hr)⟩
    · have hothers : ∀ (j : ℕ) (r : Phase), j ≠ m.1 → c.procs[j]? = some r → r.running = false := by
        intro j r hj hr
        rcases h.alone j m.1 r p hj hr hp with hidle | hidle
        · exact hidle
        · rw [hrunning] at hidle
          cases hidle
      rw [List.append_nil]
      refine ⟨hwhole, fun r hr => ?_, h.alone.set fun j r hj hr => ?_⟩
      · obtain ⟨j, hj⟩ := List.mem_iff_getElem?.mp hr
        rcases getElem?_set_cases hj with ⟨-, rfl⟩ | ⟨hne, hold⟩
        · exact hlocal
        · exact local_of_idle (h.procs r (List.mem_of_getElem? hold)) (hothers j r hne hold)
      · exact ⟨.inr (hothers j r hj hr), .inl (hothers j r hj hr)⟩
  · rw [he]
    exact h

end

/-! ## A pair in place -/

def Phase.looking : Phase → Bool
  | .loadCert false | .loadKey false _ => true
  | _ => false

/-- The first load does not fail but for what is on the disk. -/
def Loads (c : Config Store Phase) (m : Move Choice) : Prop :=
  m.2 = .fail → ∀ p ∈ c.procs[m.1]?, p.looking = false

instance (c : Config Store Phase) (m : Move Choice) : Decidable (Loads c m) :=
  inferInstanceAs (Decidable (_ → _))

/-- A process that has found the pair, or has yet to look. -/
def Settled (k : ℕ) : Phase → Prop
  | .shell | .loadCert false | .killed => True
  | .loadKey false cert => cert = some (.certificate k)
  | .returned k' => k' = k
  | _ => False

def InPlace (k : ℕ) (s : Store) : Prop :=
  s.disk.read (.path .cert) = some (.certificate k) ∧
    s.disk.read (.path .key) = some (.privateKey k)

section
variable {disk : Disk Name Blob} {a : Choice} {s s' : Store} {p q : Phase} {started : List Phase}
  {k : ℕ}

/-- Where the pair is in place it is what every process comes to, and no process writes. -/
theorem step_settled (h : step a s p = some (s', q, started)) (hpair : InPlace k s)
    (hp : Settled k p) (hloads : a = .fail → p.looking = false) :
    s' = s ∧ Settled k q ∧ ∀ r ∈ started, Settled k r := by
  have hnone : ∀ r ∈ ([] : List Phase), Settled k r := List.forall_mem_nil _
  cases p with
  | shell =>
    simp only [step] at h
    split_ifs at h with ha
    cases h
    exact ⟨rfl, trivial, by simp [Settled]⟩
  | loadCert again =>
    cases again with
    | true => exact hp.elim
    | false =>
      cases a with
      | go =>
        cases h
        exact ⟨rfl, hpair.1, hnone⟩
      | fail => cases hloads rfl
      | kill =>
        cases h
        exact ⟨rfl, trivial, hnone⟩
      | tear | mix => cases h
  | loadKey again cert =>
    cases again with
    | true => exact hp.elim
    | false =>
      obtain rfl : cert = some (.certificate k) := hp
      cases a with
      | go =>
        simp only [step, hpair.2, pairOf_pem] at h
        cases h
        exact ⟨rfl, rfl, hnone⟩
      | fail => cases hloads rfl
      | kill =>
        cases h
        exact ⟨rfl, trivial, hnone⟩
      | tear | mix => cases h
  | mkdir | generate | create _ _ | write _ _ _ | rename _ _ => exact hp.elim
  | returned _ | failed | unmatched | killed => cases h

/-- Only a process that has loaded a pair returns it. -/
theorem returned_of_step (h : step a s p = some (s', .returned k, started)) :
    s' = s ∧ ∃ again, p = .loadKey again (some (.certificate k)) ∧
      s.disk.read (.path .key) = some (.privateKey k) := by
  cases p with
  | shell =>
    simp only [step] at h
    split_ifs at h with ha
    cases h
  | loadCert again => cases a <;> cases again <;> cases h
  | loadKey again cert =>
    cases a with
    | go =>
      cases hfound : pairOf cert (s.disk.read (.path .key)) with
      | some k' =>
        simp only [step, hfound] at h
        cases h
        obtain ⟨rfl, hkey⟩ := pairOf_eq_some hfound
        exact ⟨rfl, again, rfl, hkey⟩
      | none =>
        simp only [step, hfound] at h
        cases again <;> cases h
    | fail => cases again <;> cases h
    | kill | tear | mix => cases h
  | mkdir | generate | create _ _ => cases a <;> cases h
  | write f pair file =>
    cases a with
    | mix =>
      simp only [step] at h
      split_ifs at h
      cases h
    | _ => cases h
  | rename f pair =>
    cases a with
    | go =>
      simp only [step] at h
      split at h
      · cases f <;> cases h
      · cases h
    | fail | kill | tear | mix => cases h
  | returned _ | failed | unmatched | killed => cases h

/-- Once a process has returned a pair it is in place, and the process that is running finds it. -/
def Agreed (c : Config Store Phase) : Prop :=
  ∀ k, .returned k ∈ c.procs → InPlace k c.shared ∧ ∀ p ∈ c.procs, p.running = true → Settled k p

theorem InPlace.unique {k' : ℕ} (h : InPlace k s) (h' : InPlace k' s) : k = k' := by
  have hcert := h.1.symm.trans h'.1
  simpa using hcert

theorem Settled.of_shell (k : ℕ) (h : p = .shell) : Settled k p := by
  rw [h]
  trivial

/-- While a process runs alone, nobody else is in the way. -/
theorem Sequential.others {c : Config Store Phase} (h : Sequential disk c) {i : ℕ}
    (hp : c.procs[i]? = some p) (hrunning : p.running = true) :
    ∀ r ∈ c.procs.set i q, r = q ∨ r.running = false := by
  intro r hr
  obtain ⟨j, hj⟩ := List.mem_iff_getElem?.mp hr
  rcases getElem?_set_cases hj with ⟨-, rfl⟩ | ⟨hne, hold⟩
  · exact .inl rfl
  · rcases h.alone j i r p hne hold hp with hidle | hidle
    · exact .inr hidle
    · rw [hrunning] at hidle
      cases hidle

theorem Sequential.agreed {c : Config Store Phase} {m : Move Choice} (h : Sequential disk c)
    (hagreed : Agreed c) (hloads : Loads c m) : Agreed (program.exec c m) := by
  rcases program.exec_cases c m with ⟨p, s, q, started, hp, hstep, he⟩ | he
  · rw [he]
    intro k hk
    change step m.2 c.shared p = some (s, q, started) at hstep
    have hmem : p ∈ c.procs := List.mem_of_getElem? hp
    have hnew : .returned k ∈ started → False := by
      rcases step_started hstep with ⟨-, -, -, rfl⟩ | ⟨-, rfl⟩ <;> simp
    have hset : .returned k ∈ c.procs.set m.1 q := (List.mem_append.mp hk).resolve_right hnew
    by_cases hbefore : ∃ k₀, .returned k₀ ∈ c.procs
    · obtain ⟨k₀, hk₀⟩ := hbefore
      obtain ⟨hpair, hsettled⟩ := hagreed k₀ hk₀
      have hmover : Settled k₀ p := by
        rcases step_started hstep with ⟨hshell, -⟩ | ⟨hrunning, -⟩
        · exact .of_shell k₀ hshell
        · exact hsettled p hmem hrunning
      obtain ⟨rfl, hq, hstarted⟩ := step_settled hstep hpair hmover fun ha => hloads ha p hp
      have hsame : k = k₀ := by
        rcases List.mem_or_eq_of_mem_set hset with hold | hnew
        · exact (hagreed k hold).1.unique hpair
        · rw [← hnew] at hq
          exact hq
      rw [hsame]
      refine ⟨hpair, fun r hr hrunning => ?_⟩
      rcases List.mem_append.mp hr with hr | hr
      · rcases List.mem_or_eq_of_mem_set hr with hold | rfl
        · exact hsettled r hold hrunning
        · exact hq
      · exact hstarted r hr
    · obtain rfl : .returned k = q :=
        (List.mem_or_eq_of_mem_set hset).resolve_left fun hold => hbefore ⟨k, hold⟩
      obtain ⟨rfl, again, rfl, hkey⟩ := returned_of_step hstep
      have hcert : some (Blob.certificate k) = c.shared.disk.read (.path .cert) :=
        (h.procs _ hmem).1
      refine ⟨⟨hcert.symm, hkey⟩, fun r hr hrunning => ?_⟩
      obtain rfl : started = [] := by
        rcases step_started hstep with ⟨hshell, -⟩ | ⟨-, hnone⟩
        · cases hshell
        · exact hnone
      rw [List.append_nil] at hr
      rcases h.others hp rfl r hr with rfl | hidle
      · cases hrunning
      · rw [hrunning] at hidle
        cases hidle
  · rw [he]
    exact hagreed

end

/-- However often the processes that come one after another fail or are killed, each of the two
files is what it was or the whole of what was to be written, and a process ends without a pair
only where a call of the system has failed. Where the first load of a process has not failed for
another reason, all that return a pair return the one that is in place. -/
theorem one_after_another (disk : Disk Name Blob) (ms : List (Move Choice))
    (h : program.Along Alone (boot disk) ms) :
    Whole disk (program.run (boot disk) ms).shared ∧
      .unmatched ∉ (program.run (boot disk) ms).procs ∧
      (program.Along Loads (boot disk) ms → ∀ k,
        .returned k ∈ (program.run (boot disk) ms).procs →
          InPlace k (program.run (boot disk) ms).shared) := by
  have hrun : Sequential disk (program.run (boot disk) ms) :=
    Program.run_invariant (fun _ _ => Sequential.exec) (boot_sequential disk) h
  refine ⟨hrun.whole, fun hp => hrun.procs .unmatched hp, fun hloads k hk => ?_⟩
  have hboth : Sequential disk (program.run (boot disk) ms) ∧
      Agreed (program.run (boot disk) ms) := by
    refine Program.run_invariant (I := fun c => Sequential disk c ∧ Agreed c)
      (fun c m hc hm => ⟨hc.1.exec hm.1, hc.1.agreed hc.2 hm.2⟩) ?_ (h.and hloads)
    exact ⟨boot_sequential disk, fun k hk => absurd hk (by simp [boot])⟩
  exact (hboth.2 k hk).1

def emptyDisk : Disk Name Blob := ⟨fun _ => none, fun _ => .empty, 0, nofun, nofun⟩

/-- The first process is killed while it writes the key, the second is not. -/
def killedThenNot : List (Move Choice) :=
  (0, .go) :: List.replicate 8 (1, .go) ++ [(1, .tear), (0, .go)] ++ List.replicate 12 (2, .go)

theorem one_after_another_killed :
    InPlace 1 (program.run (boot emptyDisk) killedThenNot).shared :=
  (one_after_another emptyDisk killedThenNot (by decide)).2.2 (by decide) 1 (by decide)

/-- Two that overlap: each has the name of one file last, and the first ends with none. -/
example : .unmatched ∈ (program.run (boot emptyDisk) ([(0, .go), (0, .go)] ++
    List.replicate 4 (1, .go) ++ List.replicate 4 (2, .go) ++ List.replicate 3 (1, .go) ++
    List.replicate 6 (2, .go) ++ List.replicate 5 (1, .go))).procs := by decide

/-- From a pair in place on, whatever processes overlap: who returns returns this pair, nobody
ends in another way than by being killed, and the disk stays as it is. -/
theorem pair_in_place_stays (disk : Disk Name Blob) (k : ℕ)
    (hcert : disk.read (.path .cert) = some (.certificate k))
    (hkey : disk.read (.path .key) = some (.privateKey k)) (ms : List (Move Choice))
    (h : program.Along Loads (boot disk) ms) :
    (program.run (boot disk) ms).shared.disk = disk ∧
      ∀ p ∈ (program.run (boot disk) ms).procs, p.running = false →
        p = .shell ∨ p = .killed ∨ p = .returned k := by
  have hrun : (program.run (boot disk) ms).shared = ⟨disk, 0⟩ ∧
      ∀ p ∈ (program.run (boot disk) ms).procs, Settled k p := by
    refine Program.run_invariant (I := fun c => c.shared = ⟨disk, 0⟩ ∧ ∀ p ∈ c.procs, Settled k p)
      (fun c m hc hm => ?_) ⟨rfl, by simp [boot, Settled]⟩ h
    obtain ⟨hshared, hsettled⟩ := hc
    rcases program.exec_cases c m with ⟨p, s, q, started, hp, hstep, he⟩ | he
    · have hpair : InPlace k c.shared := by
        rw [hshared]
        exact ⟨hcert, hkey⟩
      obtain ⟨rfl, hq, hstarted⟩ := step_settled hstep hpair
        (hsettled p (List.mem_of_getElem? hp)) fun ha => hm ha p hp
      rw [he]
      refine ⟨hshared, fun r hr => ?_⟩
      rcases List.mem_append.mp hr with hr | hr
      · exact forall_set hsettled hq r hr
      · exact hstarted r hr
    · rw [he]
      exact ⟨hshared, hsettled⟩
  refine ⟨by rw [hrun.1], fun p hp hidle => ?_⟩
  have hsettled := hrun.2 p hp
  cases p with
  | shell => exact .inl rfl
  | killed => exact .inr (.inl rfl)
  | returned k' =>
    obtain rfl : k' = k := hsettled
    exact .inr (.inr rfl)
  | failed | unmatched => exact hsettled.elim
  | loadCert _ | loadKey _ _ | mkdir | generate | create _ _ | write _ _ _ | rename _ _ => cases hidle

/-- A pair that belongs together. -/
def pairDisk : Disk Name Blob where
  entries
    | .path .cert => some 0
    | .path .key => some 1
    | .tmp _ => none
  contents
    | 0 => .certificate 7
    | _ => .privateKey 7
  made := 2
  bound := by
    rintro (_ | _) i h
    · rename_i f
      cases f <;> cases h <;> decide
    · cases h
  single := by
    rintro (_ | _) (_ | _) i h h'
    · rename_i f f'
      cases f <;> cases f' <;> cases h <;> cases h' <;> rfl
    all_goals first | cases h | cases h'

theorem pair_in_place_stays_two : (program.run (boot pairDisk)
    [(0, .go), (0, .go), (1, .go), (2, .go), (2, .go), (1, .go)]).shared.disk = pairDisk :=
  (pair_in_place_stays pairDisk 7 rfl rfl
    [(0, .go), (0, .go), (1, .go), (2, .go), (2, .go), (1, .go)] (by decide)).1

end NetBerth.SelfSignedPair
