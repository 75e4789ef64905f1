import NetBerth.RowUpdates

/-!
# Storage mounts

A mount is served by listeners of its own, on ports that follow from one number. The engine keeps
the mounts in a map; a listener that cannot be had is left out. Whatever is started, replaced and
taken away, and whoever else takes ports and gives them back in the meantime, the listeners that
are open for file browsers and WebDAV are those of the mounts in the map.

An FTP server opens its listener itself, in a goroutine that `Stop` does not wait for. So it counts
among the others here who take ports and give them back.

The FTP server of a mount asks for the user and the password of the row. A password is no part of
a request, so what the handlers have stored has none, and the user is all that is asked for.
-/
namespace NetBerth.StorageMounts
open SqlTable Rules ModuleLoading

inductive Kind where
  | filebrowser
  | webdav
  | ftp
  deriving DecidableEq, Repr

/-- `ftpMainDriver`, its address as the port. -/
structure FTPDriver where
  root : String
  username : String
  password : String
  port : ℤ
  deriving DecidableEq, Repr

/-- A service with the port of its listener; an FTP server opens its own. -/
structure Service where
  kind : Kind
  ln : Option ℕ
  ftpSrv : Option FTPDriver
  deriving DecidableEq, Repr

structure MountInstance where
  cfg : StorageMount
  root : String
  servers : List Service
  deriving DecidableEq, Repr

instance : Keyed MountInstance ID := ⟨fun inst => inst.cfg.id⟩

/-- The map, the ports of the open listeners for file browsers and WebDAV, and those that others
have. -/
structure Engine where
  mounts : Table MountInstance
  listening : Finset ℕ
  taken : Finset ℕ

/-- What the operating system does: the port for a listener that asks for none, and whether a
directory cannot be made. -/
structure System where
  ephemeral : Finset ℕ → Option ℕ
  fresh : ∀ used port, ephemeral used = some port → port ∉ used
  mkdirFails : String → Bool
  join : String → String → String

section
variable (os : System)

/-- `net.Listen` on `:port`. -/
def listen (e : Engine) (port : ℤ) : Option ℕ :=
  if port = 0 then os.ephemeral (e.listening ∪ e.taken)
  else if 0 < port ∧ port ≤ 65535 ∧ port.toNat ∉ e.listening ∪ e.taken then some port.toNat
  else none

/-- `fileBrowser` and `webdav`, which differ in the port. -/
def serveHTTP (kind : Kind) (port : ℤ) (e : Engine) : Option Service × Engine :=
  match listen os e port with
  | none => (none, e)
  | some p => (some ⟨kind, some p, none⟩, { e with listening := insert p e.listening })

def ftpDriver (m : StorageMount) : FTPDriver :=
  let port := m.ftpPort + 2
  ⟨m.source, m.username, m.password, if port > 65535 then 2121 else port⟩

/-- `AuthUser`: whether the client is let in. -/
def authUser (d : FTPDriver) (user pass : String) : Bool :=
  (d.username = "" ∧ d.password = "") ∨ (user = d.username ∧ pass = d.password)

def startService (m : StorageMount) (name : String) (e : Engine) : Option Service × Engine :=
  if name = "filebrowser" then serveHTTP os .filebrowser m.ftpPort e
  else if name = "webdav" then serveHTTP os .webdav (m.ftpPort + 1) e
  else if name = "ftp" then (some ⟨.ftp, none, some (ftpDriver m)⟩, e)
  else (none, e)

/-- The loop over the services of a mount. -/
def startServices (m : StorageMount) : List String → Engine → List Service × Engine
  | [], e => ([], e)
  | name :: names, e =>
    let s := startService os m name e
    let rest := startServices m names s.2
    (s.1.toList ++ rest.1, rest.2)

def startMount (m : StorageMount) (e : Engine) : Engine :=
  let root := mountRoot os.join m
  if m.type = "local" ∧ os.mkdirFails root = true then e
  else
    let s := startServices os { m with source := root } m.services e
    { s.2 with mounts := s.2.mounts.put ⟨m, root, s.1⟩ }

def closeListener (s : Service) (listening : Finset ℕ) : Finset ℕ :=
  match s.kind, s.ln with
  | .filebrowser, some p | .webdav, some p => listening.erase p
  | _, _ => listening

def stopMount (inst : MountInstance) (e : Engine) : Engine :=
  { e with listening := inst.servers.foldl (fun l s => closeListener s l) e.listening }

def remove (id : ID) (e : Engine) : Engine :=
  match e.mounts.select id with
  | none => e
  | some inst =>
    let e := stopMount inst e
    { e with mounts := e.mounts.delete fun i => i.cfg.id = id }

def reload (m : StorageMount) (e : Engine) : Engine :=
  let e := remove m.id e
  if m.enabled then startMount os m e else e

/-- `Stop` goes over the map and deletes each entry. -/
def stop (e : Engine) : Engine :=
  (e.mounts.rows.map fun inst => inst.cfg.id).foldl (fun e id => remove id e) e

def startAll (mounts : List StorageMount) (e : Engine) : Engine :=
  mounts.foldl (fun e m => if m.enabled then startMount os m e else e) e

/-- `Start`, which starts nothing where one row cannot be loaded. -/
def start (json : Unmarshal) (db : Content) (e : Engine) : Engine :=
  match getMounts json db with
  | none => e
  | some mounts => startAll os mounts e

inductive Event where
  | reload (m : StorageMount)
  | remove (id : ID)
  | stop
  | take (port : ℕ)
  | give (port : ℕ)
  deriving DecidableEq, Repr

def step (e : Engine) : Event → Engine
  | .reload m => reload os m e
  | .remove id => remove id e
  | .stop => stop e
  | .take port => if port ∈ e.listening then e else { e with taken := insert port e.taken }
  | .give port => { e with taken := e.taken.erase port }

/-- The engine of a new process. -/
def begin (json : Unmarshal) (db : Content) (taken : Finset ℕ) : Engine :=
  start os json db ⟨Table.empty, ∅, taken⟩

end

/-! ## The listeners -/

/-- The port that the engine has a listener on for the service. -/
def Service.port (s : Service) : Option ℕ :=
  match s.kind with
  | .ftp => none
  | _ => s.ln

def portsOf (servers : List Service) : List ℕ := servers.filterMap Service.port

/-- The service is one that the mount asks for, on the port that follows from its number or on
any one where this is 0. -/
def Serves (cfg : StorageMount) (root : String) (s : Service) : Prop :=
  match s.kind with
  | .filebrowser => "filebrowser" ∈ cfg.services ∧ s.ftpSrv = none ∧
      ∃ p : ℕ, s.ln = some p ∧ (cfg.ftpPort = p ∨ cfg.ftpPort = 0)
  | .webdav => "webdav" ∈ cfg.services ∧ s.ftpSrv = none ∧
      ∃ p : ℕ, s.ln = some p ∧ (cfg.ftpPort + 1 = p ∨ cfg.ftpPort + 1 = 0)
  | .ftp => "ftp" ∈ cfg.services ∧ s.ftpSrv = some (ftpDriver { cfg with source := root })

/-- Each listener that is open for a file browser or WebDAV belongs to one service of one mount in
the map. -/
structure Accounted (os : System) (e : Engine) : Prop where
  nodup : (e.mounts.rows.flatMap fun inst => portsOf inst.servers).Nodup
  listening : ∀ p, p ∈ e.listening ↔ ∃ inst ∈ e.mounts.rows, p ∈ portsOf inst.servers
  apart : ∀ p ∈ e.listening, p ∉ e.taken
  served : ∀ inst ∈ e.mounts.rows, inst.cfg.enabled = true ∧
    inst.root = mountRoot os.join inst.cfg ∧ ∀ s ∈ inst.servers, Serves inst.cfg inst.root s

section
variable {os : System} {e e' e'' : Engine} {m : StorageMount} {inst : MountInstance}
  {s t : List Service}

/-- What a call has opened, and that nothing else has changed. -/
structure Opened (e : Engine) (s : List Service) (e' : Engine) : Prop where
  mounts : e'.mounts = e.mounts
  taken : e'.taken = e.taken
  nodup : (portsOf s).Nodup
  fresh : ∀ p ∈ portsOf s, p ∉ e.listening ∧ p ∉ e.taken
  listening : ∀ p, p ∈ e'.listening ↔ p ∈ e.listening ∨ p ∈ portsOf s

theorem Opened.nothing (h : portsOf s = []) : Opened e s e :=
  ⟨rfl, rfl, by rw [h]; exact List.nodup_nil, by simp [h], by simp [h]⟩

theorem portsOf_append : portsOf (s ++ t) = portsOf s ++ portsOf t := List.filterMap_append

theorem Opened.append (h : Opened e s e') (h' : Opened e' t e'') : Opened e (s ++ t) e'' := by
  refine ⟨h'.mounts.trans h.mounts, h'.taken.trans h.taken, ?_, ?_, ?_⟩
  · rw [portsOf_append, List.nodup_append]
    refine ⟨h.nodup, h'.nodup, ?_⟩
    rintro p hp _ hq rfl
    exact (h'.fresh p hq).1 ((h.listening p).mpr (.inr hp))
  · intro p hp
    rw [portsOf_append] at hp
    rcases List.mem_append.mp hp with hp | hp
    · exact h.fresh p hp
    · obtain ⟨hlistening, htaken⟩ := h'.fresh p hp
      rw [h.taken] at htaken
      exact ⟨fun hin => hlistening ((h.listening p).mpr (.inl hin)), htaken⟩
  · intro p
    rw [h'.listening, h.listening, portsOf_append, List.mem_append, or_assoc]

theorem listen_spec {port : ℤ} {p : ℕ} (h : listen os e port = some p) :
    p ∉ e.listening ∧ p ∉ e.taken ∧ (port = p ∨ port = 0) := by
  unfold listen at h
  split_ifs at h with hzero hport
  · have hfresh := os.fresh _ _ h
    rw [Finset.mem_union, not_or] at hfresh
    exact ⟨hfresh.1, hfresh.2, .inr hzero⟩
  · cases h
    obtain ⟨hpos, -, hfree⟩ := hport
    rw [Finset.mem_union, not_or] at hfree
    exact ⟨hfree.1, hfree.2, .inl (Int.toNat_of_nonneg hpos.le).symm⟩

variable (os) in
theorem serveHTTP_opened {kind : Kind} (hkind : kind ≠ .ftp) (port : ℤ) (e : Engine) :
    Opened e (serveHTTP os kind port e).1.toList (serveHTTP os kind port e).2 ∧
      ∀ x ∈ (serveHTTP os kind port e).1, x.kind = kind ∧ x.ftpSrv = none ∧
        ∃ p : ℕ, x.ln = some p ∧ (port = p ∨ port = 0) := by
  unfold serveHTTP
  cases hlisten : listen os e port with
  | none => exact ⟨.nothing rfl, nofun⟩
  | some p =>
    obtain ⟨hlistening, htaken, hport⟩ := listen_spec hlisten
    have hports : portsOf [⟨kind, some p, none⟩] = [p] := by
      cases kind with
      | ftp => exact absurd rfl hkind
      | _ => rfl
    refine ⟨⟨rfl, rfl, ?_, ?_, ?_⟩, ?_⟩
    · rw [Option.toList_some, hports]
      exact List.nodup_singleton p
    · intro q hq
      rw [Option.toList_some, hports] at hq
      obtain rfl := List.mem_singleton.mp hq
      exact ⟨hlistening, htaken⟩
    · intro q
      rw [Option.toList_some, hports, Finset.mem_insert, List.mem_singleton, or_comm]
    · intro x hx
      cases hx
      exact ⟨rfl, rfl, p, rfl, hport⟩

variable (os) in
theorem startService_opened (m : StorageMount) {name : String} (hname : name ∈ m.services)
    (e : Engine) : Opened e (startService os m name e).1.toList (startService os m name e).2 ∧
      ∀ x ∈ (startService os m name e).1, Serves m m.source x := by
  unfold startService
  split_ifs with hfile hdav hftp
  · obtain ⟨hopened, hserves⟩ := serveHTTP_opened os (nofun : Kind.filebrowser ≠ .ftp) m.ftpPort e
    refine ⟨hopened, fun x hx => ?_⟩
    obtain ⟨hkind, hport⟩ := hserves x hx
    simp only [Serves, hkind]
    exact ⟨hfile ▸ hname, hport⟩
  · obtain ⟨hopened, hserves⟩ :=
      serveHTTP_opened os (nofun : Kind.webdav ≠ .ftp) (m.ftpPort + 1) e
    refine ⟨hopened, fun x hx => ?_⟩
    obtain ⟨hkind, hport⟩ := hserves x hx
    simp only [Serves, hkind]
    exact ⟨hdav ▸ hname, hport⟩
  · refine ⟨.nothing rfl, fun x hx => ?_⟩
    cases hx
    have hmem : "ftp" ∈ m.services := hftp ▸ hname
    exact ⟨hmem, rfl⟩
  · exact ⟨.nothing rfl, nofun⟩

variable (os) in
theorem startServices_opened (m : StorageMount) {names : List String}
    (hnames : ∀ name ∈ names, name ∈ m.services) (e : Engine) :
    Opened e (startServices os m names e).1 (startServices os m names e).2 ∧
      ∀ x ∈ (startServices os m names e).1, Serves m m.source x := by
  induction names generalizing e with
  | nil => exact ⟨.nothing rfl, nofun⟩
  | cons name names ih =>
    obtain ⟨hfirst, hserves⟩ := startService_opened os m (hnames name List.mem_cons_self) e
    obtain ⟨hrest, hserves'⟩ := ih (fun n hn => hnames n (List.mem_cons_of_mem name hn))
      (startService os m name e).2
    refine ⟨hfirst.append hrest, fun x hx => ?_⟩
    rcases List.mem_append.mp hx with hx | hx
    · exact hserves x (Option.mem_toList.mp hx)
    · exact hserves' x hx

/-- A mount whose id is not in the map is added to it with what it has opened. -/
theorem Accounted.startMount (h : Accounted os e) (hid : e.mounts.select m.id = none)
    (henabled : m.enabled = true) : Accounted os (startMount os m e) := by
  unfold StorageMounts.startMount
  dsimp only
  split_ifs with hmkdir
  · exact h
  obtain ⟨hopened, hserves⟩ := startServices_opened os
    { m with source := mountRoot os.join m } (fun _ hn => hn : ∀ n ∈ m.services, n ∈ m.services) e
  generalize startServices os { m with source := mountRoot os.join m } m.services e = r at *
  obtain ⟨servers, e'⟩ := r
  have hrows : (e'.mounts.put ⟨m, mountRoot os.join m, servers⟩).rows =
      e.mounts.rows ++ [⟨m, mountRoot os.join m, servers⟩] := by
    have hother : ∀ inst ∈ e.mounts.rows, inst.cfg.id ≠ m.id := Table.select_eq_none.mp hid
    rw [hopened.mounts]
    refine congrArg (· ++ _) (List.filter_eq_self.mpr fun inst hinst => ?_)
    simpa [Keyed.key] using hother inst hinst
  constructor
  · show ((e'.mounts.put _).rows.flatMap fun inst => portsOf inst.servers).Nodup
    rw [hrows, List.flatMap_append, List.nodup_append]
    refine ⟨h.nodup, by simpa using hopened.nodup, ?_⟩
    rintro p hp _ hq rfl
    obtain ⟨inst, hinst, hp⟩ := List.mem_flatMap.mp hp
    exact (hopened.fresh p (by simpa using hq)).1 ((h.listening p).mpr ⟨inst, hinst, hp⟩)
  · intro p
    show p ∈ e'.listening ↔ ∃ inst ∈ (e'.mounts.put _).rows, _
    rw [hrows, hopened.listening, h.listening]
    simp [or_and_right, exists_or]
  · intro p hp htaken
    change p ∈ e'.listening at hp
    change p ∈ e'.taken at htaken
    rw [hopened.taken] at htaken
    rcases (hopened.listening p).mp hp with hp | hp
    · exact h.apart p hp htaken
    · exact (hopened.fresh p hp).2 htaken
  · intro inst hinst
    change inst ∈ (e'.mounts.put _).rows at hinst
    rw [hrows] at hinst
    rcases List.mem_append.mp hinst with hinst | hinst
    · exact h.served inst hinst
    · obtain rfl := List.mem_singleton.mp hinst
      exact ⟨henabled, rfl, hserves⟩

theorem mem_foldl_closeListener (servers : List Service) (listening : Finset ℕ) (p : ℕ) :
    p ∈ servers.foldl (fun l s => closeListener s l) listening ↔
      p ∈ listening ∧ p ∉ portsOf servers := by
  induction servers generalizing listening with
  | nil => simp [portsOf]
  | cons x servers ih =>
    have hx : p ∈ closeListener x listening ↔ p ∈ listening ∧ x.port ≠ some p := by
      obtain ⟨kind, ln⟩ := x
      cases kind <;> cases ln <;>
        simp [closeListener, Service.port, Finset.mem_erase, and_comm, eq_comm]
    rw [List.foldl_cons, ih, hx, and_assoc]
    refine and_congr_right fun _ => ?_
    cases hport : x.port with
    | none => simp [portsOf, hport]
    | some q => simp [portsOf, hport, eq_comm]

/-- A port belongs to one element only. -/
theorem eq_of_mem_flatMap {α β : Type} {f : α → List β} {l : List α} (h : (l.flatMap f).Nodup)
    {a b : α} (ha : a ∈ l) (hb : b ∈ l) {x : β} (hxa : x ∈ f a) (hxb : x ∈ f b) : a = b := by
  induction l with
  | nil => cases ha
  | cons c l ih =>
    rw [List.flatMap_cons, List.nodup_append] at h
    obtain ⟨-, hrest, hapart⟩ := h
    rcases List.mem_cons.mp ha with hac | hal <;> rcases List.mem_cons.mp hb with hbc | hbl
    · exact hac.trans hbc.symm
    · exact absurd rfl (hapart x (hac ▸ hxa) x (List.mem_flatMap.mpr ⟨b, hbl, hxb⟩))
    · exact absurd rfl (hapart x (hbc ▸ hxb) x (List.mem_flatMap.mpr ⟨a, hal, hxa⟩))
    · exact ih hrest hal hbl

/-- What is removed gives its ports back, and leaves those of the others alone. -/
theorem Accounted.remove (h : Accounted os e) (id : ID) :
    Accounted os (remove id e) ∧ (StorageMounts.remove id e).mounts.select id = none := by
  unfold StorageMounts.remove
  cases hsel : e.mounts.select id with
  | none => exact ⟨h, hsel⟩
  | some inst =>
    obtain ⟨hinst, hid⟩ := Table.select_eq_some.mp hsel
    have hmem : ∀ i, i ∈ (e.mounts.delete fun i => i.cfg.id = id).rows ↔
        i ∈ e.mounts.rows ∧ i.cfg.id ≠ id := by
      intro i
      rw [Table.mem_delete, decide_eq_false_iff_not]
    refine ⟨⟨?_, ?_, ?_, ?_⟩, ?_⟩
    · exact h.nodup.sublist (List.Sublist.flatMap List.filter_sublist _)
    · intro p
      show p ∈ inst.servers.foldl (fun l s => closeListener s l) e.listening ↔
        ∃ i ∈ (e.mounts.delete fun i => i.cfg.id = id).rows, _
      rw [mem_foldl_closeListener, h.listening]
      constructor
      · rintro ⟨⟨i, hi, hp⟩, hnot⟩
        refine ⟨i, (hmem i).mpr ⟨hi, fun heq => hnot ?_⟩, hp⟩
        rwa [← Table.eq_of_key hi hinst (heq.trans hid.symm)]
      · rintro ⟨i, hi, hp⟩
        obtain ⟨hi, hne⟩ := (hmem i).mp hi
        refine ⟨⟨i, hi, hp⟩, fun hp' => hne ?_⟩
        rw [eq_of_mem_flatMap h.nodup hi hinst hp hp']
        exact hid
    · intro p hp
      exact h.apart p ((mem_foldl_closeListener _ _ p).mp hp).1
    · intro i hi
      exact h.served i ((hmem i).mp hi).1
    · exact Table.select_eq_none.mpr fun i hi => ((hmem i).mp hi).2

theorem mem_remove {id : ID} : inst ∈ (remove id e).mounts.rows ↔
    inst ∈ e.mounts.rows ∧ inst.cfg.id ≠ id := by
  unfold StorageMounts.remove
  cases hsel : e.mounts.select id with
  | none =>
    have hother := Table.select_eq_none.mp hsel
    exact ⟨fun hinst => ⟨hinst, hother inst hinst⟩, And.left⟩
  | some other =>
    show inst ∈ (e.mounts.delete fun i => i.cfg.id = id).rows ↔ _
    rw [Table.mem_delete, decide_eq_false_iff_not]

theorem Accounted.reload (h : Accounted os e) (m : StorageMount) :
    Accounted os (reload os m e) := by
  obtain ⟨hremoved, hid⟩ := h.remove m.id
  unfold StorageMounts.reload
  dsimp only
  split_ifs with henabled
  · exact hremoved.startMount hid henabled
  · exact hremoved

theorem Accounted.removeAll (h : Accounted os e) (ids : List ID) :
    Accounted os (ids.foldl (fun e id => StorageMounts.remove id e) e) ∧
      ∀ inst, inst ∈ (ids.foldl (fun e id => StorageMounts.remove id e) e).mounts.rows ↔
        inst ∈ e.mounts.rows ∧ inst.cfg.id ∉ ids := by
  induction ids generalizing e with
  | nil => exact ⟨h, fun inst => by simp⟩
  | cons id ids ih =>
    obtain ⟨haccounted, hrows⟩ := ih (h.remove id).1
    refine ⟨haccounted, fun inst => ?_⟩
    rw [List.foldl_cons, hrows, mem_remove, List.mem_cons, not_or, and_assoc]

theorem Accounted.stop (h : Accounted os e) : Accounted os (stop e) ∧
    (StorageMounts.stop e).mounts.rows = [] ∧ (StorageMounts.stop e).listening = ∅ := by
  obtain ⟨haccounted, hrows⟩ := h.removeAll (e.mounts.rows.map fun inst => inst.cfg.id)
  have hempty : (StorageMounts.stop e).mounts.rows = [] := by
    refine List.eq_nil_iff_forall_not_mem.mpr fun inst hinst => ?_
    obtain ⟨hmem, hid⟩ := (hrows inst).mp hinst
    exact hid (List.mem_map_of_mem (f := fun inst => inst.cfg.id) hmem)
  refine ⟨haccounted, hempty, Finset.eq_empty_of_forall_notMem fun p hp => ?_⟩
  obtain ⟨inst, hinst, -⟩ := (haccounted.listening p).mp hp
  change inst ∈ (StorageMounts.stop e).mounts.rows at hinst
  rw [hempty] at hinst
  cases hinst

theorem Accounted.step (h : Accounted os e) (a : Event) : Accounted os (step os e a) := by
  cases a with
  | reload m => exact h.reload m
  | remove id => exact (h.remove id).1
  | stop => exact h.stop.1
  | take port =>
    unfold StorageMounts.step
    dsimp only
    split_ifs with hport
    · exact h
    · refine ⟨h.nodup, h.listening, fun p hp htaken => ?_, h.served⟩
      rcases Finset.mem_insert.mp htaken with rfl | htaken
      · exact hport hp
      · exact h.apart p hp htaken
  | give port =>
    exact ⟨h.nodup, h.listening, fun p hp htaken => h.apart p hp (Finset.mem_of_mem_erase htaken),
      h.served⟩

/-! ## The start -/

variable (os) in
theorem startMount_mounts : (startMount os m e).mounts = e.mounts ∨
    ∃ servers, (startMount os m e).mounts =
      e.mounts.put ⟨m, mountRoot os.join m, servers⟩ := by
  unfold StorageMounts.startMount
  dsimp only
  split_ifs with hmkdir
  · exact .inl rfl
  · have hopened := (startServices_opened os { m with source := mountRoot os.join m }
      (fun _ hn => hn : ∀ n ∈ m.services, n ∈ m.services) e).1
    exact .inr ⟨_, congrArg (Table.put · _) hopened.mounts⟩

theorem Accounted.startAll {mounts : List StorageMount} (h : Accounted os e)
    (hids : (mounts.map StorageMount.id).Nodup)
    (hfresh : ∀ m ∈ mounts, e.mounts.select m.id = none) :
    Accounted os (startAll os mounts e) := by
  induction mounts generalizing e with
  | nil => exact h
  | cons m mounts ih =>
    obtain ⟨hm, hids⟩ := List.nodup_cons.mp hids
    refine ih ?_ hids fun n hn => ?_
    · dsimp only
      split_ifs with henabled
      · exact h.startMount (hfresh m List.mem_cons_self) henabled
      · exact h
    · have hne : m.id ≠ n.id := fun heq => hm (heq ▸ List.mem_map_of_mem hn)
      dsimp only
      split_ifs with henabled
      · obtain hsame | ⟨servers, hput⟩ := startMount_mounts os (m := m) (e := e)
        · rw [hsame]
          exact hfresh n (List.mem_cons_of_mem m hn)
        · rw [hput, Table.select_put]
          exact (if_neg hne).trans (hfresh n (List.mem_cons_of_mem m hn))
      · exact hfresh n (List.mem_cons_of_mem m hn)

theorem ids_of_getMounts {json : Unmarshal} {db : Content} {mounts : List StorageMount}
    (h : getMounts json db = some mounts) : (mounts.map StorageMount.id).Nodup := by
  have hids : db.storageMounts.rows.map Keyed.key = mounts.map StorageMount.id := by
    have hscanned : db.storageMounts.rows.map (scanStorageMount json) = mounts.map some :=
      mapM_eq_some_iff.mp h
    refine Option.some_injective _ |>.list_map ?_
    rw [List.map_map, List.map_map]
    calc db.storageMounts.rows.map (some ∘ Keyed.key)
        = (db.storageMounts.rows.map (scanStorageMount json)).map
            (Option.map StorageMount.id) := by
          rw [List.map_map]
          refine List.map_congr_left fun c hc => ?_
          have hmem : scanStorageMount json c ∈ mounts.map some := by
            rw [← hscanned]
            exact List.mem_map_of_mem hc
          obtain ⟨m, -, hm⟩ := List.mem_map.mp hmem
          rw [Function.comp_apply, Function.comp_apply, ← hm, Option.map_some]
          exact congrArg some (of_scanStorageMount hm.symm).1.symm
      _ = mounts.map (some ∘ StorageMount.id) := by
          rw [hscanned, List.map_map]
          rfl
  rw [← hids]
  exact db.storageMounts.nodup

theorem Accounted.begin (json : Unmarshal) (db : Content) (taken : Finset ℕ) :
    Accounted os (begin os json db taken) := by
  have hempty : Accounted os ⟨Table.empty, ∅, taken⟩ :=
    ⟨List.nodup_nil, by simp [Table.empty], by simp, List.forall_mem_nil _⟩
  unfold StorageMounts.begin StorageMounts.start
  cases hmounts : getMounts json db with
  | none => exact hempty
  | some mounts => exact hempty.startAll (ids_of_getMounts hmounts) fun _ _ => rfl

end

/-- After any run, the listeners that are open for file browsers and WebDAV are those of the mounts
in the map, each on a port of its own that nobody else has, and a mount in the map is enabled and
served as its row asks. `Stop` leaves no mount and none of these listeners. -/
theorem accounted_run (os : System) (json : Unmarshal) (db : Content) (taken : Finset ℕ)
    (as : List Event) : Accounted os (as.foldl (step os) (begin os json db taken)) ∧
      (stop (as.foldl (step os) (begin os json db taken))).mounts.rows = [] ∧
      (stop (as.foldl (step os) (begin os json db taken))).listening = ∅ := by
  have haccounted : Accounted os (as.foldl (step os) (begin os json db taken)) :=
    List.foldlRecOn as (step os) (.begin json db taken) fun _ h a _ => h.step a
  exact ⟨haccounted, haccounted.stop.2⟩

/-! ## The FTP server of a stored mount -/

section
open RowUpdates JSONDecode

variable (codec : Codec) (json : Unmarshal) (os : System)

def StorageMountRow.create (now : Models.Time) (id : ID) (m : Models.StorageMount) :
    StorageMountRow :=
  { id, tenantID := "", name := m.name, type := m.type, source := m.source,
    username := some m.username, password := some m.password,
    services := codec.marshalStrings m.services, ftpPort := some m.ftpPort, enabled := m.enabled,
    createdAt := now, updatedAt := now }

/-- `Create` of the module: whether the statement has worked is not looked at. -/
def createMount (env : Env) (body : Option JSON) (t : Table StorageMountRow) :
    Table StorageMountRow :=
  match StorageHandler.decode codec body with
  | none => t
  | some m =>
    if env.fails 0 then t else t.insertIgnore (StorageMountRow.create codec env.now (env.uuid 0) m)

/-- `Update`. -/
def updateMount (env : Env) (id : ID) (body : Option JSON) (t : Table StorageMountRow) :
    Table StorageMountRow :=
  ((StorageHandler.written codec env id body t).map Prod.snd).getD t

/-- `Delete`. -/
def deleteMount (env : Env) (id : ID) (t : Table StorageMountRow) : Table StorageMountRow :=
  if env.fails 0 then t else t.delete fun row => row.id = id

def columns (t : Table StorageMountRow) : Table StorageColumns where
  rows := t.rows.map StorageMountRow.toStorageColumns
  nodup := by
    rw [List.map_map]
    exact t.nodup

inductive Request where
  | create (env : Env) (body : Option JSON)
  | update (env : Env) (id : ID) (body : Option JSON)
  | delete (env : Env) (id : ID)
  /-- The process is started again, with the other tables as they are. -/
  | restart (db : Content) (taken : Finset ℕ)

structure Server where
  table : Table StorageMountRow
  engine : Engine

/-- The handlers publish no event, so the engine takes the rows up when it starts. -/
def Server.serve (w : Server) : Request → Server
  | .create env body => { w with table := createMount codec env body w.table }
  | .update env id body => { w with table := updateMount codec env id body w.table }
  | .delete env id => { w with table := deleteMount env id w.table }
  | .restart db taken =>
    { w with engine := begin os json { db with storageMounts := columns w.table } taken }

/-- Before the first mount is created. -/
def Server.fresh (taken : Finset ℕ) : Server := ⟨Table.empty, ⟨Table.empty, ∅, taken⟩⟩

end

section
open RowUpdates JSONDecode

variable {codec : Codec} {json : Unmarshal} {os : System} {t : Table StorageMountRow} {env : Env}
  {body : Option JSON} {id : ID} {mounts : List StorageMount} {e : Engine} {inst : MountInstance}

/-- No row and no FTP server has a password. -/
structure Unsecured (os : System) (w : Server) : Prop where
  rows : ∀ row ∈ w.table.rows, row.password = some ""
  accounted : Accounted os w.engine
  mounts : ∀ inst ∈ w.engine.mounts.rows, inst.cfg.password = ""

theorem createMount_password (h : ∀ row ∈ t.rows, row.password = some "") :
    ∀ row ∈ (createMount codec env body t).rows, row.password = some "" := by
  unfold createMount
  cases hdecode : StorageHandler.decode codec body with
  | none => exact h
  | some m =>
    dsimp only
    split_ifs with hfails
    · exact h
    intro row hrow
    have hsel : (t.insertIgnore (StorageMountRow.create codec env.now (env.uuid 0) m)).select
        row.id = some row := Table.select_eq_some.mpr ⟨hrow, rfl⟩
    rw [Table.select_insertIgnore] at hsel
    split_ifs at hsel with hnew
    · cases hsel
      exact congrArg some (password_of_decode hdecode)
    · exact h row (Table.select_eq_some.mp hsel).1

theorem updateMount_password (h : ∀ row ∈ t.rows, row.password = some "") :
    ∀ row ∈ (updateMount codec env id body t).rows, row.password = some "" := by
  unfold updateMount
  cases hwritten : StorageHandler.written codec env id body t with
  | none => exact h
  | some x =>
    obtain ⟨hdecode, -, htable⟩ := written_eq_some.mp hwritten
    intro row hrow
    rw [Option.map_some, Option.getD_some, htable] at hrow
    obtain ⟨old, hold, hset⟩ := Table.mem_update.mp hrow
    split_ifs at hset with hid
    · rw [← hset]
      exact congrArg some (password_of_decode hdecode)
    · rw [← hset]
      exact h old hold

theorem cfg_of_startAll (h : inst ∈ (startAll os mounts e).mounts.rows) :
    inst ∈ e.mounts.rows ∨ inst.cfg ∈ mounts := by
  induction mounts generalizing e with
  | nil => exact .inl h
  | cons m mounts ih =>
    rcases ih h with hin | hin
    · dsimp only at hin
      split_ifs at hin with henabled
      · obtain hsame | ⟨servers, hput⟩ := startMount_mounts os (m := m) (e := e)
        · rw [hsame] at hin
          exact .inl hin
        · rw [hput] at hin
          rcases Table.mem_put.mp hin with ⟨hin, -⟩ | rfl
          · exact .inl hin
          · exact .inr List.mem_cons_self
      · exact .inl hin
    · exact .inr (List.mem_cons_of_mem m hin)

theorem password_of_scan {c : StorageColumns} {m : StorageMount}
    (h : scanStorageMount json c = some m) : c.password = some m.password := by
  obtain ⟨_, _, password, hpassword, _, _, rfl⟩ := by
    simpa [scanStorageMount, Option.bind_eq_some_iff] using h
  exact hpassword

/-- What is started is what has been loaded. -/
theorem cfg_of_begin {db : Content} {taken : Finset ℕ}
    (h : inst ∈ (begin os json db taken).mounts.rows) :
    ∃ c ∈ db.storageMounts.rows, scanStorageMount json c = some inst.cfg := by
  unfold begin start at h
  cases hmounts : getMounts json db with
  | none =>
    rw [hmounts] at h
    cases h
  | some mounts =>
    rw [hmounts] at h
    rcases cfg_of_startAll h with hin | hin
    · cases hin
    · exact (mem_of_queryAll hmounts).mp hin

theorem Unsecured.serve {w : Server} (h : Unsecured os w) (r : Request) :
    Unsecured os (w.serve codec json os r) := by
  cases r with
  | create env body => exact ⟨createMount_password h.rows, h.accounted, h.mounts⟩
  | update env id body => exact ⟨updateMount_password h.rows, h.accounted, h.mounts⟩
  | delete env id =>
    refine ⟨fun row hrow => h.rows row ?_, h.accounted, h.mounts⟩
    change row ∈ (deleteMount env id w.table).rows at hrow
    unfold deleteMount at hrow
    split_ifs at hrow with hfails
    · exact hrow
    · exact (Table.mem_delete.mp hrow).1
  | restart db taken =>
    refine ⟨h.rows, .begin json _ taken, fun inst hinst => ?_⟩
    obtain ⟨c, hc, hscan⟩ := cfg_of_begin hinst
    obtain ⟨row, hrow, rfl⟩ := List.mem_map.mp hc
    have hstored : row.password = some inst.cfg.password := password_of_scan hscan
    rw [h.rows row hrow] at hstored
    exact (Option.some.inj hstored).symm

theorem Unsecured.fresh (taken : Finset ℕ) : Unsecured os (.fresh taken) where
  rows := List.forall_mem_nil _
  accounted := ⟨List.nodup_nil, by simp [Server.fresh, Table.empty], by simp [Server.fresh],
    List.forall_mem_nil _⟩
  mounts := List.forall_mem_nil _

/-- The driver of a service is the one that its mount asks for. -/
theorem Accounted.driver (h : Accounted os e) (hinst : inst ∈ e.mounts.rows) {s : Service}
    (hs : s ∈ inst.servers) {d : FTPDriver} (hd : s.ftpSrv = some d) :
    d = ftpDriver { inst.cfg with source := inst.root } := by
  have hserves := (h.served inst hinst).2.2 s hs
  unfold Serves at hserves
  split at hserves
  · rw [hserves.2.1] at hd
    cases hd
  · rw [hserves.2.1] at hd
    cases hd
  · rw [hserves.2] at hd
    exact (Option.some.inj hd).symm

end

/-- Whatever has been created, changed and deleted, and whenever the process was started again, an
FTP server of a mount lets everybody in where the mount has no user, and otherwise whoever gives
the name of the user and an empty password. -/
theorem authUser_of_stored (codec : RowUpdates.Codec) (json : Unmarshal) (os : System)
    (taken : Finset ℕ) (rs : List Request) :
    ∀ inst ∈ (rs.foldl (Server.serve codec json os) (.fresh taken)).engine.mounts.rows,
      ∀ s ∈ inst.servers, ∀ d ∈ s.ftpSrv, ∀ user pass : String, authUser d user pass = true ↔
        inst.cfg.username = "" ∨ (user = inst.cfg.username ∧ pass = "") := by
  have hrun : Unsecured os (rs.foldl (Server.serve codec json os) (.fresh taken)) :=
    List.foldlRecOn rs (Server.serve codec json os) (.fresh taken) fun _ h r _ => h.serve r
  intro inst hinst s hs d hd user pass
  have hdriver := hrun.accounted.driver hinst hs hd
  have hpassword : d.password = "" := by
    rw [hdriver]
    exact hrun.mounts inst hinst
  have husername : d.username = inst.cfg.username := by
    rw [hdriver]
    rfl
  simp [authUser, hpassword, husername]

/-! ## A mount with a user -/

/-- A machine without ports of its own choice. -/
def plainSystem : System :=
  ⟨fun _ => none, nofun, fun _ => false, fun dir name => dir ++ "/" ++ name⟩

def ftpServices : String := "[\"ftp\"]"

def ftpCodec : RowUpdates.Codec := ⟨fun _ => none, fun _ => ftpServices, fun _ => "\x7b\x7d"⟩

def ftpUnmarshal : Unmarshal where
  credentials _ _ := none
  services text := if text = ftpServices then ["ftp"] else []

/-- The body names a password. -/
def annsMount : JSONDecode.JSON :=
  .object [("name", .string "share"), ("type", .string "local"), ("source", .string "/srv"),
    ("username", .string "ann"), ("password", .string "secret"),
    ("services", .array [.string "ftp"]), ("ftp_port", .number (some 2100)), ("enabled", .bool true)]

def otherTables : Content :=
  ⟨Table.empty, Table.empty, Table.empty, Table.empty, Table.empty, Table.empty, Table.empty,
    Table.empty, Table.empty, Table.empty, Table.empty, Table.empty, Table.empty⟩

def annsRequests : List Request :=
  [.create RowUpdates.quietEnv (some annsMount), .restart otherTables ∅]

def annsDriver : FTPDriver := ⟨"/srv", "ann", "", 2102⟩

def annsInstance : MountInstance :=
  ⟨⟨"0", "", "share", "local", "/srv", "ann", "", ["ftp"], 2100, true⟩, "/srv",
    [⟨.ftp, none, some annsDriver⟩]⟩

/-- The password of the body is refused, and the empty one is not. -/
theorem authUser_of_stored_ann :
    annsInstance ∈ (annsRequests.foldl (Server.serve ftpCodec ftpUnmarshal plainSystem)
        (.fresh ∅)).engine.mounts.rows ∧
      authUser annsDriver "ann" "secret" = false ∧ authUser annsDriver "ann" "" = true := by
  have hinst : annsInstance ∈ (annsRequests.foldl
      (Server.serve ftpCodec ftpUnmarshal plainSystem) (.fresh ∅)).engine.mounts.rows := by
    decide +kernel
  have hlets := authUser_of_stored ftpCodec ftpUnmarshal plainSystem ∅ annsRequests annsInstance
    hinst _ List.mem_cons_self annsDriver rfl
  refine ⟨hinst, ?_, (hlets "ann" "").mpr (.inr ⟨rfl, rfl⟩)⟩
  rw [← Bool.not_eq_true, hlets]
  decide

end NetBerth.StorageMounts
