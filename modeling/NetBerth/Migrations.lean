import NetBerth.Rebind
import NetBerth.RestartableScript

/-!
# Migrations

Every start executes the whole script: the table of versions, the tables and the indexes that are
not there yet, the column `users.enabled` of a database older than it, and the version at the end.
SQLite and Postgres each have a script of their own. An attempt may fail or be killed anywhere,
and several may run at the same time.
-/
namespace NetBerth.Migrations
open Rebind (Dialect)
open RestartableScript Interleaving

structure Column where
  name : String
  decl : String
  deriving DecidableEq, Repr

/-- What a column refers to is the `id` of the table. -/
structure Reference where
  column : String
  table : String
  onDelete : String
  deriving DecidableEq, Repr

inductive Statement where
  | createTable (name : String) (columns : List Column) (references : List Reference)
  | createIndex (name table : String) (columns : List String)
  | addColumn (table : String) (column : Column)
  | readVersion
  | recordVersion (v : ℕ)
  deriving DecidableEq, Repr

/-- An index is its table and the columns in it. -/
structure Schema where
  tables : String → Option (List Column)
  indexes : String → Option (String × List String)
  versions : Finset ℕ

def Schema.columns (s : Schema) (table : String) : List String :=
  ((s.tables table).getD []).map Column.name

/-! ## The two scripts -/

def schemaVersion : ℕ := 4

def datetime : Dialect → String
  | .sqlite => "DATETIME"
  | .postgres => "TIMESTAMP"

def now (d : Dialect) (name : String) : Column :=
  ⟨name, datetime d ++ " NOT NULL DEFAULT CURRENT_TIMESTAMP"⟩

def key : Column := ⟨"id", "TEXT PRIMARY KEY"⟩
def text (name : String) : Column := ⟨name, "TEXT NOT NULL DEFAULT ''"⟩
def enabledColumn : Column := ⟨"enabled", "INTEGER NOT NULL DEFAULT 1"⟩

/-- The lists that belong to a rule. -/
def ruleValues (name rules : String) : Statement :=
  .createTable name [key, ⟨"rule_id", "TEXT NOT NULL"⟩, ⟨"value", "TEXT NOT NULL"⟩]
    [⟨"rule_id", rules, "ON DELETE CASCADE"⟩]

def tenants (d : Dialect) : Statement :=
  .createTable "tenants"
    [key, ⟨"name", "TEXT NOT NULL"⟩, ⟨"plan", "TEXT NOT NULL DEFAULT 'free'"⟩,
    now d "created_at"] []

def users (d : Dialect) (enabled : List Column) : Statement :=
  .createTable "users"
    ([key, text "tenant_id", ⟨"username", "TEXT UNIQUE NOT NULL"⟩, ⟨"email", "TEXT DEFAULT ''"⟩,
      ⟨"password_hash", "TEXT NOT NULL"⟩,
      ⟨"role", "TEXT NOT NULL DEFAULT 'admin'"⟩] ++ enabled ++
      [⟨"otp_enabled", "INTEGER NOT NULL DEFAULT 0"⟩, ⟨"otp_secret", "TEXT DEFAULT ''"⟩,
       ⟨"password_changed", "INTEGER NOT NULL DEFAULT 0"⟩, now d "created_at",
       now d "updated_at"]) [⟨"tenant_id", "tenants", ""⟩]

/-- What is created after the users, in both dialects alike. -/
def others (d : Dialect) (auditID : String) : List Statement :=
  [.createTable "forward_rules"
      [key, text "tenant_id", text "owner_id", ⟨"name", "TEXT NOT NULL"⟩,
       ⟨"protocol", "TEXT NOT NULL DEFAULT 'tcp'"⟩, text "listen_addr",
       ⟨"listen_port", "INTEGER NOT NULL"⟩, ⟨"target_addr", "TEXT NOT NULL"⟩,
       ⟨"target_port", "INTEGER NOT NULL"⟩, ⟨"enable_ipv6", "INTEGER NOT NULL DEFAULT 1"⟩,
       ⟨"max_conns", "INTEGER NOT NULL DEFAULT 0"⟩, ⟨"enabled", "INTEGER NOT NULL DEFAULT 0"⟩,
       ⟨"schedule_on", "TEXT DEFAULT ''"⟩, ⟨"schedule_off", "TEXT DEFAULT ''"⟩,
       now d "created_at", now d "updated_at"] [],
   ruleValues "forward_whitelist" "forward_rules",
   ruleValues "forward_blacklist" "forward_rules",
   .createIndex "idx_fwd_tenant" "forward_rules" ["tenant_id"],
   .createIndex "idx_fwd_wl_rule" "forward_whitelist" ["rule_id"],
   .createIndex "idx_fwd_bl_rule" "forward_blacklist" ["rule_id"],
   .createTable "proxy_rules"
      [key, text "tenant_id", text "owner_id", ⟨"name", "TEXT NOT NULL"⟩,
       ⟨"target_url", "TEXT NOT NULL"⟩, ⟨"tls_enabled", "INTEGER NOT NULL DEFAULT 0"⟩,
       ⟨"cert_id", "TEXT DEFAULT ''"⟩, ⟨"force_https", "INTEGER NOT NULL DEFAULT 0"⟩,
       ⟨"http2", "INTEGER NOT NULL DEFAULT 1"⟩, ⟨"websocket", "INTEGER NOT NULL DEFAULT 0"⟩,
       ⟨"url_rewrite", "TEXT DEFAULT ''"⟩, ⟨"basic_auth_user", "TEXT DEFAULT ''"⟩,
       ⟨"basic_auth_hash", "TEXT DEFAULT ''"⟩, ⟨"max_conns", "INTEGER NOT NULL DEFAULT 0"⟩,
       ⟨"enabled", "INTEGER NOT NULL DEFAULT 0"⟩, now d "created_at", now d "updated_at"] [],
   .createTable "proxy_domains"
      [key, ⟨"rule_id", "TEXT NOT NULL"⟩,
       ⟨"domain", "TEXT NOT NULL"⟩] [⟨"rule_id", "proxy_rules", "ON DELETE CASCADE"⟩],
   ruleValues "proxy_ip_whitelist" "proxy_rules",
   ruleValues "proxy_ip_blacklist" "proxy_rules",
   ruleValues "proxy_ua_whitelist" "proxy_rules",
   ruleValues "proxy_ua_blacklist" "proxy_rules",
   .createIndex "idx_prx_tenant" "proxy_rules" ["tenant_id"],
   .createIndex "idx_prx_dom" "proxy_domains" ["rule_id"],
   .createIndex "idx_prx_iwl" "proxy_ip_whitelist" ["rule_id"],
   .createIndex "idx_prx_ibl" "proxy_ip_blacklist" ["rule_id"],
   .createTable "ddns_configs"
      [key, text "tenant_id", ⟨"name", "TEXT NOT NULL"⟩, ⟨"provider", "TEXT NOT NULL"⟩,
       ⟨"domain", "TEXT NOT NULL"⟩, ⟨"sub_domain", "TEXT NOT NULL DEFAULT '@'"⟩,
       ⟨"record_type", "TEXT NOT NULL DEFAULT 'A'"⟩, ⟨"ttl", "INTEGER NOT NULL DEFAULT 600"⟩,
       ⟨"credentials", "TEXT NOT NULL DEFAULT '\x7b\x7d'"⟩, ⟨"get_ip_url", "TEXT DEFAULT ''"⟩,
       ⟨"get_ip_type", "TEXT NOT NULL DEFAULT 'url'"⟩, ⟨"net_interface", "TEXT DEFAULT ''"⟩,
       ⟨"interval_seconds", "INTEGER NOT NULL DEFAULT 300"⟩,
       ⟨"enabled", "INTEGER NOT NULL DEFAULT 0"⟩, now d "created_at", now d "updated_at"] [],
   .createTable "stun_tunnels"
      [key, text "tenant_id", ⟨"name", "TEXT NOT NULL"⟩,
       ⟨"protocol", "TEXT NOT NULL DEFAULT 'tcp'"⟩, ⟨"local_port", "INTEGER NOT NULL"⟩,
       ⟨"remote_port", "INTEGER NOT NULL"⟩,
       ⟨"stun_server", "TEXT NOT NULL DEFAULT 'stun.l.google.com:19302'"⟩,
       ⟨"target_addr", "TEXT NOT NULL"⟩, ⟨"target_port", "INTEGER NOT NULL"⟩,
       ⟨"enabled", "INTEGER NOT NULL DEFAULT 0"⟩, now d "created_at", now d "updated_at"] [],
   .createTable "wol_devices"
      [key, text "tenant_id", ⟨"name", "TEXT NOT NULL"⟩, ⟨"mac", "TEXT NOT NULL"⟩,
       ⟨"broadcast", "TEXT NOT NULL DEFAULT '255.255.255.255'"⟩,
       ⟨"port", "INTEGER NOT NULL DEFAULT 9"⟩, ⟨"platform", "TEXT DEFAULT ''"⟩,
       ⟨"platform_key", "TEXT DEFAULT ''"⟩, now d "created_at", now d "updated_at"] [],
   .createTable "cron_jobs"
      [key, text "tenant_id", ⟨"name", "TEXT NOT NULL"⟩, ⟨"schedule", "TEXT NOT NULL"⟩,
       ⟨"type", "TEXT NOT NULL DEFAULT 'command'"⟩, ⟨"command", "TEXT DEFAULT ''"⟩,
       ⟨"module_id", "TEXT DEFAULT ''"⟩, ⟨"module_type", "TEXT DEFAULT ''"⟩,
       ⟨"enabled", "INTEGER NOT NULL DEFAULT 1"⟩, ⟨"last_run", datetime d⟩,
       ⟨"next_run", datetime d⟩, now d "created_at", now d "updated_at"] [],
   .createTable "acme_certificates"
      [key, text "tenant_id", ⟨"name", "TEXT NOT NULL"⟩,
       ⟨"domains", "TEXT NOT NULL DEFAULT '[]'"⟩,
       ⟨"provider", "TEXT NOT NULL DEFAULT 'letsencrypt'"⟩, text "dns_provider",
       ⟨"dns_config", "TEXT NOT NULL DEFAULT '\x7b\x7d'"⟩, text "email",
       ⟨"auto_renew", "INTEGER NOT NULL DEFAULT 1"⟩,
       ⟨"renew_days", "INTEGER NOT NULL DEFAULT 30"⟩, ⟨"cert_path", "TEXT DEFAULT ''"⟩,
       ⟨"key_path", "TEXT DEFAULT ''"⟩, ⟨"expires_at", datetime d⟩,
       ⟨"status", "TEXT NOT NULL DEFAULT 'pending'"⟩, ⟨"error", "TEXT DEFAULT ''"⟩,
       now d "created_at", now d "updated_at"] [],
   .createTable "storage_mounts"
      [key, text "tenant_id", ⟨"name", "TEXT NOT NULL"⟩,
       ⟨"type", "TEXT NOT NULL DEFAULT 'local'"⟩, ⟨"source", "TEXT NOT NULL"⟩,
       ⟨"username", "TEXT DEFAULT ''"⟩, ⟨"password", "TEXT DEFAULT ''"⟩,
       ⟨"services", "TEXT NOT NULL DEFAULT '[\"filebrowser\"]'"⟩,
       ⟨"ftp_port", "INTEGER DEFAULT 2121"⟩, ⟨"enabled", "INTEGER NOT NULL DEFAULT 0"⟩,
       now d "created_at", now d "updated_at"] [],
   .createTable "settings"
      [⟨"key", "TEXT PRIMARY KEY"⟩, ⟨"value", "TEXT NOT NULL"⟩, now d "updated_at"] [],
   .createTable "refresh_tokens"
      [key, ⟨"user_id", "TEXT NOT NULL"⟩, ⟨"token_hash", "TEXT NOT NULL UNIQUE"⟩,
       ⟨"expires_at", datetime d ++ " NOT NULL"⟩, ⟨"revoked_at", datetime d⟩,
       now d "created_at"] [],
   .createTable "audit_events"
      [⟨"id", auditID⟩, text "tenant_id", text "user_id", text "username", text "action",
       text "resource_type", text "resource_id", text "changes", text "remote_addr",
       now d "created_at"] [],
   .createIndex "idx_audit_resource" "audit_events" ["resource_type", "resource_id"],
   .createIndex "idx_audit_tenant" "audit_events" ["tenant_id"],
   .createIndex "idx_audit_created" "audit_events" ["created_at"],
   .createTable "webhook_endpoints"
      [key, text "tenant_id", ⟨"name", "TEXT NOT NULL"⟩, ⟨"url", "TEXT NOT NULL"⟩, text "secret",
       ⟨"events", "TEXT NOT NULL DEFAULT '[]'"⟩, ⟨"enabled", "INTEGER NOT NULL DEFAULT 1"⟩,
       now d "created_at", now d "updated_at"] []]

def sqliteMigrations : List Statement :=
  tenants .sqlite :: users .sqlite [] :: others .sqlite "INTEGER PRIMARY KEY AUTOINCREMENT"

def postgresMigrations : List Statement :=
  tenants .postgres :: users .postgres [enabledColumn] :: others .postgres "BIGSERIAL PRIMARY KEY"

def migrations : Dialect → List Statement
  | .sqlite => sqliteMigrations
  | .postgres => postgresMigrations

def ensureSchemaMigrations : Statement :=
  .createTable "schema_migrations" [⟨"version", "INTEGER PRIMARY KEY"⟩,
    ⟨"applied_at", "TIMESTAMP NOT NULL DEFAULT CURRENT_TIMESTAMP"⟩] []

/-- What comes before the version is recorded. -/
def upgrade (d : Dialect) : List Statement :=
  ensureSchemaMigrations :: .readVersion :: migrations d ++ [.addColumn "users" enabledColumn]

/-- What `openSQLite` and `openPostgres` execute. -/
def script (d : Dialect) : List Statement := upgrade d ++ [.recordVersion schemaVersion]

/-! ## What a statement does -/

/-- Only Postgres looks up the tables that are referred to. -/
def Accepts (d : Dialect) (s : Schema) : Statement → Prop
  | .createTable name _ references =>
    (s.tables name).isSome ∨ d = .sqlite ∨ ∀ r ∈ references, "id" ∈ s.columns r.table
  | .createIndex name table columns =>
    (s.tables table).isSome ∧
      ((d = .sqlite ∧ (s.indexes name).isSome) ∨ ∀ c ∈ columns, c ∈ s.columns table)
  | .addColumn table _ => (s.tables table).isSome
  | .readVersion => "version" ∈ s.columns "schema_migrations"
  | .recordVersion _ => "version" ∈ s.columns "schema_migrations"

instance (d : Dialect) (s : Schema) (i : Statement) : Decidable (Accepts d s i) := by
  cases i <;> unfold Accepts <;> infer_instance

def withColumn (column : Column) (columns : List Column) : List Column :=
  if column.name ∈ columns.map Column.name then columns else columns ++ [column]

/-- What is there already is left as it is. SQLite looks for the column first and adds it then;
if another has added it in between, the statement fails. -/
def apply (s : Schema) : Statement → Schema
  | .createTable name columns _ =>
    { s with tables := Function.update s.tables name ((s.tables name).or (some columns)) }
  | .createIndex name table columns =>
    { s with indexes :=
        Function.update s.indexes name ((s.indexes name).or (some (table, columns))) }
  | .addColumn table column =>
    { s with tables := Function.update s.tables table ((s.tables table).map (withColumn column)) }
  | .readVersion => s
  | .recordVersion v => { s with versions := insert v s.versions }

def exec (d : Dialect) (i : Statement) (s : Schema) : Option Schema :=
  if Accepts d s i then some (apply s i) else none

/-- `OpenDatabase`, of a database that nobody else has open. -/
def openDatabase (d : Dialect) (s : Schema) : Option Schema := runAll (exec d) (script d) s

def empty : Schema := ⟨fun _ => none, fun _ => none, ∅⟩

/-! ## Only what is missing is added -/

theorem exec_eq_some {d : Dialect} {i : Statement} {s s' : Schema} :
    exec d i s = some s' ↔ Accepts d s i ∧ apply s i = s' := by
  unfold exec
  split_ifs with h
  · simp [h]
  · simp [h]

/-- What becomes of one table. -/
def Statement.onTable (t : String) : Statement → Option (List Column) → Option (List Column)
  | .createTable name columns _, cs => if t = name then cs.or (some columns) else cs
  | .addColumn table column, cs => if t = table then cs.map (withColumn column) else cs
  | _, cs => cs

theorem apply_tables (s : Schema) (i : Statement) (t : String) :
    (apply s i).tables t = i.onTable t (s.tables t) := by
  cases i with
  | createIndex | readVersion | recordVersion => rfl
  | createTable name | addColumn name =>
    by_cases hname : t = name
    · subst hname
      simp [apply, Statement.onTable]
    · simp [apply, Statement.onTable, hname]

/-- What is there stays, and tables only get further columns. -/
structure Grown (s s' : Schema) : Prop where
  tables : ∀ {t cs}, s.tables t = some cs → ∃ more, s'.tables t = some (cs ++ more)
  indexes : ∀ {i x}, s.indexes i = some x → s'.indexes i = some x
  versions : s.versions ⊆ s'.versions

theorem Grown.isSome {s s' : Schema} (h : Grown s s') {t : String} (ht : (s.tables t).isSome) :
    (s'.tables t).isSome := by
  obtain ⟨cs, hcs⟩ := Option.isSome_iff_exists.mp ht
  obtain ⟨more, hmore⟩ := h.tables hcs
  rw [hmore]
  rfl

theorem Grown.index {s s' : Schema} (h : Grown s s') {i : String} (hi : (s.indexes i).isSome) :
    (s'.indexes i).isSome := by
  obtain ⟨x, hx⟩ := Option.isSome_iff_exists.mp hi
  rw [h.indexes hx]
  rfl

theorem Grown.column {s s' : Schema} (h : Grown s s') {t c : String} (hc : c ∈ s.columns t) :
    c ∈ s'.columns t := by
  cases ht : s.tables t with
  | none =>
    rw [Schema.columns, ht] at hc
    cases hc
  | some cs =>
    obtain ⟨more, hmore⟩ := h.tables ht
    rw [Schema.columns, ht] at hc
    rw [Schema.columns, hmore, Option.getD_some, List.map_append]
    exact List.mem_append_left _ hc

theorem withColumn_eq (c : Column) (cs : List Column) :
    withColumn c cs = cs ∨ (c.name ∉ cs.map Column.name ∧ withColumn c cs = cs ++ [c]) := by
  unfold withColumn
  split_ifs with h
  · exact .inl rfl
  · exact .inr ⟨h, rfl⟩

theorem mem_withColumn (c : Column) (cs : List Column) (n : String) :
    n ∈ (withColumn c cs).map Column.name ↔ n ∈ cs.map Column.name ∨ n = c.name := by
  rcases withColumn_eq c cs with h | ⟨-, h⟩
  · rw [h]
    refine ⟨.inl, ?_⟩
    rintro (hn | rfl)
    · exact hn
    · unfold withColumn at h
      split_ifs at h with hc
      · exact hc
      · simp at h
  · simp [h]

theorem onTable_some (t : String) (i : Statement) (cs : List Column) :
    ∃ more, i.onTable t (some cs) = some (cs ++ more) := by
  cases i with
  | createIndex | readVersion | recordVersion => exact ⟨[], by simp [Statement.onTable]⟩
  | createTable name => exact ⟨[], by simp [Statement.onTable]⟩
  | addColumn table column =>
    rcases withColumn_eq column cs with h | ⟨-, h⟩
    · exact ⟨[], by simp [Statement.onTable, h]⟩
    · by_cases ht : t = table
      · exact ⟨[column], by simp [Statement.onTable, ht, h]⟩
      · exact ⟨[], by simp [Statement.onTable, ht]⟩

theorem grown_apply (s : Schema) (i : Statement) : Grown s (apply s i) where
  tables {t cs} ht := by
    rw [apply_tables, ht]
    exact onTable_some t i cs
  indexes {n x} hn := by
    cases i with
    | createTable | addColumn | readVersion | recordVersion => exact hn
    | createIndex name =>
      by_cases hname : n = name
      · subst hname
        simp [apply, hn]
      · simp [apply, hname, hn]
  versions := by
    cases i with
    | createTable | createIndex | addColumn | readVersion => exact subset_rfl
    | recordVersion v => exact Finset.subset_insert v _

/-- What a statement would add is there. -/
def Settled (s : Schema) : Statement → Prop
  | .createTable name _ _ => (s.tables name).isSome
  | .createIndex name _ _ => (s.indexes name).isSome
  | .addColumn table column => column.name ∈ s.columns table
  | .readVersion => True
  | .recordVersion v => v ∈ s.versions

theorem apply_settled {s : Schema} {i : Statement} (h : Settled s i) : apply s i = s := by
  cases i with
  | createTable name =>
    obtain ⟨cs, hcs⟩ := Option.isSome_iff_exists.mp h
    rw [apply, hcs, Option.some_or, ← hcs, Function.update_eq_self]
  | createIndex name =>
    obtain ⟨x, hx⟩ := Option.isSome_iff_exists.mp h
    rw [apply, hx, Option.some_or, ← hx, Function.update_eq_self]
  | addColumn table column =>
    have hsame : (s.tables table).map (withColumn column) = s.tables table := by
      cases ht : s.tables table with
      | none => rfl
      | some cs =>
        rw [Settled, Schema.columns, ht] at h
        exact congrArg some (if_pos h)
    rw [apply, hsame, Function.update_eq_self]
  | readVersion => rfl
  | recordVersion v => rw [apply, Finset.insert_eq_of_mem h]

theorem settled_apply {d : Dialect} {s : Schema} {i : Statement} (h : Accepts d s i) :
    Settled (apply s i) i := by
  cases i with
  | createTable | createIndex => simp [apply, Settled]
  | addColumn table column =>
    obtain ⟨cs, hcs⟩ := Option.isSome_iff_exists.mp h
    rw [Settled, Schema.columns, apply_tables, hcs]
    simp only [Statement.onTable, if_true, Option.map_some, Option.getD_some]
    exact (mem_withColumn column cs _).mpr (.inr rfl)
  | readVersion => trivial
  | recordVersion v => exact Finset.mem_insert_self v _

theorem Grown.settled {s s' : Schema} (h : Grown s s') {i : Statement} (hi : Settled s i) :
    Settled s' i := by
  cases i with
  | createTable => exact h.isSome hi
  | createIndex => exact h.index hi
  | addColumn => exact h.column hi
  | readVersion => trivial
  | recordVersion v => exact h.versions hi

theorem Grown.accepts {s s' : Schema} (h : Grown s s') {d : Dialect} {i : Statement}
    (hi : Accepts d s i) : Accepts d s' i := by
  cases i with
  | createTable =>
    rcases hi with hthere | hsqlite | hreferences
    · exact .inl (h.isSome hthere)
    · exact .inr (.inl hsqlite)
    · exact .inr (.inr fun r hr => h.column (hreferences r hr))
  | createIndex =>
    refine ⟨h.isSome hi.1, ?_⟩
    rcases hi.2 with ⟨hsqlite, hthere⟩ | hcolumns
    · exact .inl ⟨hsqlite, h.index hthere⟩
    · exact .inr fun c hc => h.column (hcolumns c hc)
  | addColumn => exact h.isSome hi
  | readVersion | recordVersion => exact h.column hi

theorem settling (d : Dialect) :
    Settling (exec d) (fun i s => Accepts d s i ∧ Settled s i) where
  settles {i s s'} h := by
    obtain ⟨haccepts, rfl⟩ := exec_eq_some.mp h
    exact ⟨(grown_apply s i).accepts haccepts, settled_apply haccepts⟩
  keeps {i j s s'} h hi := by
    obtain ⟨-, rfl⟩ := exec_eq_some.mp h
    exact ⟨(grown_apply s j).accepts hi.1, (grown_apply s j).settled hi.2⟩
  idle h := exec_eq_some.mpr ⟨h.1, apply_settled h.2⟩

/-! ## Attempts -/

/-- No table is changed but `users`, which may get its column. -/
def Kept (s s' : Schema) : Prop :=
  ∀ ⦃t cs⦄, s.tables t = some cs → s'.tables t = some cs ∨
    (t = "users" ∧ "enabled" ∉ cs.map Column.name ∧ s'.tables t = some (cs ++ [enabledColumn]))

theorem Kept.trans {s s' s'' : Schema} (h : Kept s s') (h' : Kept s' s'') : Kept s s'' := by
  intro t cs ht
  rcases h ht with hsame | ⟨rfl, hnew, hadded⟩
  · exact h' hsame
  · refine .inr ⟨rfl, hnew, ?_⟩
    rcases h' hadded with hsame | ⟨-, hnot, -⟩
    · exact hsame
    · exact absurd (by simp [enabledColumn]) hnot

/-- The only column added to a table is that of the users. -/
def AddsOnly : Statement → Prop
  | .addColumn table column => table = "users" ∧ column = enabledColumn
  | _ => True

instance : DecidablePred AddsOnly := fun i => by
  cases i <;> unfold AddsOnly <;> infer_instance

theorem script_addsOnly (d : Dialect) : ∀ i ∈ script d, AddsOnly i := by
  cases d <;> decide

theorem AddsOnly.kept {i : Statement} (h : AddsOnly i) (s : Schema) : Kept s (apply s i) := by
  intro t cs ht
  rw [apply_tables, ht]
  cases i with
  | createIndex | readVersion | recordVersion => exact .inl rfl
  | createTable => exact .inl (by simp [Statement.onTable])
  | addColumn table column =>
    obtain ⟨rfl, rfl⟩ := h
    by_cases hname : t = "users"
    · subst hname
      rcases withColumn_eq enabledColumn cs with hsame | ⟨hnew, hadded⟩
      · exact .inl (by simp [Statement.onTable, hsame])
      · exact .inr ⟨rfl, hnew, by simp [Statement.onTable, hadded]⟩
    · exact .inl (by simp [Statement.onTable, hname])

theorem kept_run {d : Dialect} {is : List Statement} {s s' : Schema}
    (his : ∀ i ∈ is, AddsOnly i) (hrun : runAll (exec d) is s = some s') : Kept s s' :=
  runAll_rel (R := Kept) (fun _ _ _ => .inl) Kept.trans
    (fun i hi {s _} hexec => (exec_eq_some.mp hexec).2 ▸ (his i hi).kept s) hrun

def Statement.records : Statement → Bool
  | .recordVersion _ => true
  | _ => false

theorem upgrade_records (d : Dialect) : ∀ i ∈ upgrade d, i.records = false := by
  cases d <;> decide

theorem versions_run {d : Dialect} {is : List Statement} {s s' : Schema}
    (his : ∀ i ∈ is, i.records = false) (hrun : runAll (exec d) is s = some s') :
    s'.versions = s.versions := by
  refine runAll_rel (R := fun s s' : Schema => s'.versions = s.versions) (fun _ => rfl)
    (fun h h' => Eq.trans h' h) (fun i hi {s s'} hexec => ?_) hrun
  obtain ⟨-, rfl⟩ := exec_eq_some.mp hexec
  cases i with
  | createTable | createIndex | addColumn | readVersion => rfl
  | recordVersion => cases his _ hi

/-- The version is recorded last. -/
theorem versions_part {d : Dialect} {k : ℕ} {s s' : Schema}
    (hrun : runAll (exec d) ((script d).take k) s = some s') :
    s'.versions = s.versions ∨ openDatabase d s = some s' := by
  by_cases hk : k ≤ (upgrade d).length
  · rw [script, List.take_append_of_le_length hk] at hrun
    exact .inl (versions_run (fun i hi => upgrade_records d i (List.mem_of_mem_take hi)) hrun)
  · have hall : (script d).length ≤ k := by
      rw [script, List.length_append, List.length_singleton]
      omega
    rw [List.take_of_length_le hall] at hrun
    exact .inr hrun

/-- Of any number of starts, one after another or at once, failed and killed wherever: the
database is as a first part of the script leaves it, no table of before is changed but for the
column of the users, the version is there only if the whole script is through, as it is once a
start is, and the next start that is left alone ends as if it had been the first. -/
theorem attempts (d : Dialect) (s₀ : Schema) (as : List (Act Unit Choice)) :
    let c := (machine (exec d) (script d)).run ⟨s₀, []⟩ as
    (∃ k, runAll (exec d) ((script d).take k) s₀ = some c.shared) ∧ Kept s₀ c.shared ∧
      (c.shared.versions = s₀.versions ∨ openDatabase d s₀ = some c.shared) ∧
      (.todo [] ∈ c.procs → openDatabase d s₀ = some c.shared) ∧
      openDatabase d c.shared = openDatabase d s₀ := by
  obtain ⟨⟨k, hrun⟩, hthrough, hagain⟩ := (settling d).run_behind (script d) s₀ as
  refine ⟨⟨k, hrun⟩, ?_, versions_part hrun, hthrough, hagain⟩
  exact kept_run (fun i hi => script_addsOnly d i (List.mem_of_mem_take hi)) hrun

/-! ## The two dialects -/

/-- The same tables, columns, indexes and versions, whatever the columns are declared as, and
wherever they stand. -/
structure SameNames (s t : Schema) : Prop where
  tables : ∀ n, (s.tables n).isSome ↔ (t.tables n).isSome
  columns : ∀ n c, c ∈ s.columns n ↔ c ∈ t.columns n
  indexes : s.indexes = t.indexes
  versions : s.versions = t.versions

/-- All but the column of the users. -/
structure Alike (s t : Schema) : Prop where
  tables : ∀ n, (s.tables n).isSome ↔ (t.tables n).isSome
  columns : ∀ n c, (n, c) ≠ ("users", "enabled") → (c ∈ s.columns n ↔ c ∈ t.columns n)
  indexes : s.indexes = t.indexes
  versions : s.versions = t.versions

/-- Two statements that add the same, all but the column of the users. -/
inductive Correspond : Statement → Statement → Prop
  | createTable {name cs ds rs rs'} (h : ∀ c, (name, c) ≠ ("users", "enabled") →
      (c ∈ cs.map Column.name ↔ c ∈ ds.map Column.name)) :
      Correspond (.createTable name cs rs) (.createTable name ds rs')
  | refl (i) : Correspond i i

theorem isSome_createTable (s : Schema) (name : String) (cs : List Column) (rs : List Reference)
    (n : String) : ((apply s (.createTable name cs rs)).tables n).isSome ↔
      (s.tables n).isSome ∨ n = name := by
  rw [apply_tables, Statement.onTable]
  split_ifs with hn <;> simp [hn]

theorem isSome_addColumn (s : Schema) (table : String) (column : Column) (n : String) :
    ((apply s (.addColumn table column)).tables n).isSome ↔ (s.tables n).isSome := by
  rw [apply_tables, Statement.onTable]
  split_ifs with hn <;> simp

theorem mem_createTable (s : Schema) (name : String) (cs : List Column) (rs : List Reference)
    (n c : String) : c ∈ (apply s (.createTable name cs rs)).columns n ↔
      c ∈ s.columns n ∨ (n = name ∧ ¬(s.tables n).isSome ∧ c ∈ cs.map Column.name) := by
  rw [Schema.columns, Schema.columns, apply_tables, Statement.onTable]
  cases s.tables n with
  | none => split_ifs with hn <;> simp [hn]
  | some ds => split_ifs with hn <;> simp

theorem mem_addColumn (s : Schema) (table : String) (column : Column) (n c : String) :
    c ∈ (apply s (.addColumn table column)).columns n ↔
      c ∈ s.columns n ∨ (n = table ∧ (s.tables n).isSome ∧ c = column.name) := by
  rw [Schema.columns, Schema.columns, apply_tables, Statement.onTable]
  cases s.tables n with
  | none => split_ifs with hn <;> simp
  | some ds =>
    split_ifs with hn
    · rw [Option.map_some, Option.getD_some, Option.getD_some, mem_withColumn]
      simp [hn]
    · simp [hn]

theorem Alike.createTable {s t : Schema} (h : Alike s t) {name : String} {cs ds : List Column}
    (rs rs' : List Reference) (hnames : ∀ c, (name, c) ≠ ("users", "enabled") →
      (c ∈ cs.map Column.name ↔ c ∈ ds.map Column.name)) :
    Alike (apply s (.createTable name cs rs)) (apply t (.createTable name ds rs')) where
  tables n := by
    rw [isSome_createTable, isSome_createTable, h.tables n]
  columns n c hnc := by
    rw [mem_createTable, mem_createTable, h.columns n c hnc, h.tables n]
    refine or_congr_right (and_congr_right ?_)
    rintro rfl
    exact and_congr_right fun _ => hnames c hnc
  indexes := h.indexes
  versions := h.versions

theorem Alike.apply {s t : Schema} (h : Alike s t) {i j : Statement} (hij : Correspond i j) :
    Alike (apply s i) (apply t j) := by
  cases hij with
  | createTable hnames => exact h.createTable _ _ hnames
  | refl =>
    cases i with
    | createTable => exact h.createTable _ _ fun _ _ => Iff.rfl
    | createIndex name =>
      refine ⟨h.tables, h.columns, ?_, h.versions⟩
      change Function.update s.indexes name _ = Function.update t.indexes name _
      rw [h.indexes]
    | addColumn table column =>
      refine ⟨fun n => ?_, fun n c hnc => ?_, h.indexes, h.versions⟩
      · rw [isSome_addColumn, isSome_addColumn, h.tables n]
      · rw [mem_addColumn, mem_addColumn, h.columns n c hnc, h.tables n]
    | readVersion => exact h
    | recordVersion v => exact ⟨h.tables, h.columns, h.indexes, congrArg (insert v) h.versions⟩

/-- A statement without what the columns are declared as. -/
def Statement.names : Statement → Statement
  | .createTable name cs _ => .createTable name (cs.map fun c => ⟨c.name, ""⟩) []
  | i => i

theorem correspond_of_names {i j : Statement} (h : i.names = j.names) : Correspond i j := by
  cases i with
  | createTable name cs =>
    cases j with
    | createTable name' ds =>
      obtain ⟨rfl, hmap, -⟩ := Statement.createTable.inj h
      have hnames : cs.map Column.name = ds.map Column.name := by
        simpa [List.map_map, Function.comp_def] using congrArg (List.map Column.name) hmap
      exact .createTable fun c _ => by rw [hnames]
    | createIndex | addColumn | readVersion | recordVersion => cases h
  | createIndex | addColumn | readVersion | recordVersion =>
    cases j <;> cases h
    exact .refl _

theorem others_correspond (a b : String) :
    List.Forall₂ Correspond (others .sqlite a) (others .postgres b) := by
  have hnames : (others .sqlite a).map Statement.names = (others .postgres b).map Statement.names :=
    rfl
  rw [← List.forall₂_eq_eq_eq, List.forall₂_map_left_iff, List.forall₂_map_right_iff] at hnames
  exact hnames.imp fun _ _ => correspond_of_names

theorem users_correspond :
    Correspond (users .sqlite []) (users .postgres [enabledColumn]) := by
  refine .createTable fun c hc => ?_
  have hne : c ≠ "enabled" := fun h => hc (h ▸ rfl)
  simp [enabledColumn, now, hne]

theorem script_correspond :
    List.Forall₂ Correspond (script .sqlite) (script .postgres) := by
  refine List.rel_append (List.rel_append (.cons (.refl _) (.cons (.refl _) ?_)) ?_) ?_
  · exact .cons (correspond_of_names rfl) (.cons users_correspond (others_correspond _ _))
  · exact .cons (.refl _) .nil
  · exact .cons (.refl _) .nil

/-- From schemas that may differ in the column of the users, both dialects come to the same. -/
theorem opened_alike {s t s' t' : Schema} (hst : Alike s t)
    (hs : openDatabase .sqlite s = some s') (ht : openDatabase .postgres t = some t') :
    SameNames s' t' := by
  have halike : Alike s' t' := by
    refine runAll_related (fun hij hst hs ht => ?_) script_correspond hst hs ht
    obtain ⟨-, rfl⟩ := exec_eq_some.mp hs
    obtain ⟨-, rfl⟩ := exec_eq_some.mp ht
    exact hst.apply hij
  refine ⟨halike.tables, fun n c => ?_, halike.indexes, halike.versions⟩
  by_cases hnc : (n, c) = ("users", "enabled")
  · cases hnc
    have hadds (d : Dialect) : Statement.addColumn "users" enabledColumn ∈ script d := by
      simp [script, upgrade]
    exact iff_of_true ((settling .sqlite).all_done hs _ (hadds .sqlite)).2
      ((settling .postgres).all_done ht _ (hadds .postgres)).2
  · exact halike.columns n c hnc

theorem opened_alike_new :
    SameNames ((openDatabase .sqlite empty).get (by decide))
      ((openDatabase .postgres empty).get (by decide)) :=
  opened_alike ⟨fun _ => Iff.rfl, fun _ _ _ => Iff.rfl, rfl, rfl⟩ (Option.some_get _).symm
    (Option.some_get _).symm

end NetBerth.Migrations
