import NetBerth.RuleLoading

/-!
# Loading a table whole or one record of it

An engine reads its table whole when the program starts, and a single row when an event
tells of a change. Each of the two loaders names the columns it reads, so what an engine
does after an edit and after a restart is the same only as far as the two lists agree.

A column that the schema leaves nullable may hold a NULL, which no field of a record takes:
the scan of such a row fails, and with it the load of the whole table.
-/
namespace NetBerth.ModuleLoading
open SqlTable SqlCursor Rules
open Keyed (key)

/-! ## Pairs of loaders -/

section
variable {ρ κ α : Type*} [Keyed ρ κ]

/-- `Query` and the loop over its rows, which ends with the first error of a `Scan`. -/
def queryAll (scan : ρ → Option α) (t : Table ρ) : Option (List α) := t.rows.mapM scan

/-- Every row is loaded both ways as one record, the only one with its key among all, and
this record carries what is stored. -/
def Faithful (all : Option (List α)) (one : κ → Option α) (keyOf : α → κ)
    (carries : ρ → α → Prop) (t : Table ρ) : Prop :=
  ∀ row ∈ t.rows, ∃ records r, all = some records ∧ one (key row) = some r ∧
    (∀ r', r' ∈ records ∧ keyOf r' = key row ↔ r' = r) ∧ carries row r

theorem mapM_eq_some_iff {scan : ρ → Option α} {rows : List ρ} {records : List α} :
    rows.mapM scan = some records ↔ rows.map scan = records.map some := by
  induction rows generalizing records with
  | nil => cases records <;> simp
  | cons row rows ih =>
    rw [List.mapM_cons, List.map_cons]
    cases hrow : scan row with
    | none => cases records <;> simp
    | some r =>
      simp only [Option.bind_eq_bind, Option.bind_some, Option.bind_eq_some_iff, Option.pure_def,
        Option.some.injEq, ih]
      cases records with
      | nil => simp
      | cons r' records => simp [and_comm, eq_comm]

theorem mem_of_queryAll {scan : ρ → Option α} {t : Table ρ} {records : List α}
    (h : queryAll scan t = some records) {r : α} :
    r ∈ records ↔ ∃ row ∈ t.rows, scan row = some r := by
  rw [← List.mem_map, mapM_eq_some_iff.mp h,
    List.mem_map_of_injective (Option.some_injective α)]

theorem scanned_of_queryAll {scan : ρ → Option α} {t : Table ρ} {records : List α}
    (h : queryAll scan t = some records) {row : ρ} (hrow : row ∈ t.rows) :
    ∃ r ∈ records, scan row = some r := by
  have hmem : scan row ∈ records.map some := by
    rw [← mapM_eq_some_iff.mp h]
    exact List.mem_map_of_mem hrow
  obtain ⟨r, hr, he⟩ := List.mem_map.mp hmem
  exact ⟨r, hr, he.symm⟩

/-- One row that does not scan is enough for a loop over rows to fail, and nothing else is. -/
theorem exists_mapM_iff {scan : ρ → Option α} {rows : List ρ} :
    (∃ records, rows.mapM scan = some records) ↔ ∀ row ∈ rows, (scan row).isSome := by
  constructor
  · rintro ⟨records, h⟩ row hrow
    have hmem : scan row ∈ records.map some := by
      rw [← mapM_eq_some_iff.mp h]
      exact List.mem_map_of_mem hrow
    obtain ⟨r, -, hr⟩ := List.mem_map.mp hmem
    rw [← hr]
    rfl
  · intro h
    refine ⟨rows.filterMap scan, mapM_eq_some_iff.mpr ?_⟩
    rw [List.map_filterMap_some_eq_filter_map_isSome, eq_comm, List.filter_eq_self]
    simpa using h

theorem queryAll_eq_some {scan : ρ → Option α} {t : Table ρ} :
    (∃ records, queryAll scan t = some records) ↔ ∀ row ∈ t.rows, (scan row).isSome :=
  exists_mapM_iff

/-- A bulk load fails as a whole, but where it does not, each row can be looked at alone. -/
theorem faithful_iff {scan : ρ → Option α} {one : κ → Option α} {keyOf : α → κ}
    {carries : ρ → α → Prop} {t : Table ρ} (hkey : ∀ row r, scan row = some r → keyOf r = key row) :
    Faithful (queryAll scan t) one keyOf carries t ↔
      ∀ row ∈ t.rows, ∃ r, scan row = some r ∧ one (key row) = some r ∧ carries row r := by
  constructor
  · intro h row hrow
    obtain ⟨records, r, hall, hone, honly, hcarries⟩ := h row hrow
    obtain ⟨r', hmem, hr'⟩ := scanned_of_queryAll hall hrow
    have he : r' = r := (honly r').mp ⟨hmem, hkey row r' hr'⟩
    exact ⟨r, he ▸ hr', hone, hcarries⟩
  · intro h row hrow
    obtain ⟨r, hr, hone, hcarries⟩ := h row hrow
    have hscanned : ∀ s ∈ t.rows, (scan s).isSome := by
      intro s hs
      obtain ⟨_, hr', -⟩ := h s hs
      rw [hr']
      rfl
    obtain ⟨records, hall⟩ := queryAll_eq_some.mpr hscanned
    refine ⟨records, r, hall, hone, fun r' => ?_, hcarries⟩
    constructor
    · rintro ⟨hmem, hk⟩
      obtain ⟨s, hs, hr'⟩ := (mem_of_queryAll hall).mp hmem
      have he : s = row := Table.eq_of_key hs hrow ((hkey s r' hr').symm.trans hk)
      subst he
      exact Option.some.inj (hr'.symm.trans hr)
    · rintro rfl
      exact ⟨(mem_of_queryAll hall).mpr ⟨row, hrow, hr⟩, hkey row r' hr⟩

variable {σ : Type*} [Keyed σ κ]

/-- A table that holds what rows of another type are stored as. -/
theorem queryAll_of_stored {t : Table ρ} {u : Table σ} {store : σ → ρ} {scan : ρ → Option α}
    {make : σ → α} (hrows : t.rows = u.rows.map store)
    (hscan : ∀ s, scan (store s) = some (make s)) : queryAll scan t = some (u.rows.map make) := by
  rw [queryAll, mapM_eq_some_iff, hrows, List.map_map, List.map_map]
  exact List.map_congr_left fun s _ => hscan s

variable [DecidableEq κ]

/-- `QueryRow` and its `Scan`: no row is an error too. -/
def queryRow (scan : ρ → Option α) (t : Table ρ) (k : κ) : Option α := (t.select k).bind scan

theorem queryRow_of_mem {scan : ρ → Option α} {t : Table ρ} {row : ρ} (h : row ∈ t.rows) :
    queryRow scan t (key row) = scan row := by
  rw [queryRow, Table.select_eq_some.mpr ⟨h, rfl⟩, Option.bind_some]

theorem queryRow_of_stored {t : Table ρ} {u : Table σ} {store : σ → ρ}
    (hrows : t.rows = u.rows.map store) (hkey : ∀ s, key (store s) = key s) (scan : ρ → Option α)
    (k : κ) : queryRow scan t k = (u.select k).bind fun s => scan (store s) := by
  unfold queryRow Table.select
  rw [hrows, List.find?_map, Option.bind_map]
  simp only [Function.comp_def, hkey]

end

/-! ## Rows and records

A row is what a table holds, with `none` for a NULL in a nullable column; a record is what a
loader hands to an engine. -/

structure ForwardColumns where
  id : ID
  tenantID : ID
  ownerID : ID
  name : String
  protocol : String
  listenAddr : String
  listenPort : Int
  targetAddr : String
  targetPort : Int
  enableIPv6 : Bool
  maxConns : Int
  enabled : Bool
  scheduleOn : Option String
  scheduleOff : Option String
  deriving DecidableEq, Repr

instance : Keyed ForwardColumns ID := ⟨ForwardColumns.id⟩

structure ProxyColumns where
  id : ID
  tenantID : ID
  ownerID : ID
  name : String
  targetURL : String
  tlsEnabled : Bool
  certID : Option String
  forceHTTPS : Bool
  http2 : Bool
  websocket : Bool
  urlRewrite : Option String
  basicAuthUser : Option String
  basicAuthHash : Option String
  maxConns : Int
  enabled : Bool
  deriving DecidableEq, Repr

instance : Keyed ProxyColumns ID := ⟨ProxyColumns.id⟩

/-- The credentials are stored as the text of a JSON object. -/
structure DDNSColumns where
  id : ID
  name : String
  provider : String
  domain : String
  subDomain : String
  recordType : String
  ttl : Int
  credentials : String
  getIPURL : Option String
  getIPType : String
  netInterface : Option String
  interval : Int
  enabled : Bool
  deriving DecidableEq, Repr

instance : Keyed DDNSColumns ID := ⟨DDNSColumns.id⟩

abbrev Credentials := String → Option String

structure DDNSConfig where
  id : ID
  name : String
  provider : String
  domain : String
  subDomain : String
  recordType : String
  ttl : Int
  credentials : Credentials
  getIPURL : String
  getIPType : String
  netInterface : String
  interval : Int
  enabled : Bool

/-- No column of `stun_tunnels` is nullable, so a row is a record. -/
structure STUNTunnel where
  id : ID
  name : String
  protocol : String
  localPort : Int
  remotePort : Int
  stunServer : String
  targetAddr : String
  targetPort : Int
  enabled : Bool
  deriving DecidableEq, Repr

instance : Keyed STUNTunnel ID := ⟨STUNTunnel.id⟩

structure CronColumns where
  id : ID
  name : String
  schedule : String
  type : String
  command : Option String
  moduleID : Option String
  moduleType : Option String
  enabled : Bool
  deriving DecidableEq, Repr

instance : Keyed CronColumns ID := ⟨CronColumns.id⟩

structure CronJob where
  id : ID
  name : String
  schedule : String
  type : String
  command : String
  moduleID : String
  moduleType : String
  enabled : Bool
  deriving DecidableEq, Repr

/-- The services are stored as the text of a JSON array. -/
structure StorageColumns where
  id : ID
  tenantID : ID
  name : String
  type : String
  source : String
  username : Option String
  password : Option String
  services : String
  ftpPort : Option Int
  enabled : Bool
  deriving DecidableEq, Repr

instance : Keyed StorageColumns ID := ⟨StorageColumns.id⟩

structure StorageMount where
  id : ID
  tenantID : ID
  name : String
  type : String
  source : String
  username : String
  password : String
  services : List String
  ftpPort : Int
  enabled : Bool
  deriving DecidableEq, Repr

/-- What `json.Unmarshal` leaves in a field; an error of it is ignored. -/
structure Unmarshal where
  credentials : String → Credentials
  services : String → List String

/-- The tables the loaders read. -/
structure Content where
  forwardRules : Table ForwardColumns
  forwardWhitelist : Table ListRow
  forwardBlacklist : Table ListRow
  proxyRules : Table ProxyColumns
  proxyDomains : Table ListRow
  proxyIPWhitelist : Table ListRow
  proxyIPBlacklist : Table ListRow
  proxyUAWhitelist : Table ListRow
  proxyUABlacklist : Table ListRow
  ddnsConfigs : Table DDNSColumns
  stunTunnels : Table STUNTunnel
  cronJobs : Table CronColumns
  storageMounts : Table StorageColumns

/-! ## Scans

Where the two loaders of a table name the same columns there is one scan for both. -/

def scanForwardRow (c : ForwardColumns) : Option ForwardRow := do
  let scheduleOn ← c.scheduleOn
  let scheduleOff ← c.scheduleOff
  return {
    id := c.id, tenantID := c.tenantID, ownerID := c.ownerID, name := c.name,
    protocol := c.protocol, listenAddr := c.listenAddr, listenPort := c.listenPort,
    targetAddr := c.targetAddr, targetPort := c.targetPort, enableIPv6 := c.enableIPv6,
    maxConns := c.maxConns, enabled := c.enabled, scheduleOn, scheduleOff }

def scanProxyRow (c : ProxyColumns) : Option ProxyRow := do
  let certID ← c.certID
  let urlRewrite ← c.urlRewrite
  let basicAuthUser ← c.basicAuthUser
  let basicAuthHash ← c.basicAuthHash
  return {
    id := c.id, tenantID := c.tenantID, ownerID := c.ownerID, name := c.name,
    targetURL := c.targetURL, tlsEnabled := c.tlsEnabled, certID, forceHTTPS := c.forceHTTPS,
    http2 := c.http2, websocket := c.websocket, urlRewrite, basicAuthUser, basicAuthHash,
    maxConns := c.maxConns, enabled := c.enabled }

/-- The columns of the single load, which leave out `cert_id`. -/
def scanSingleProxyRow (c : ProxyColumns) : Option ProxyRow := do
  let urlRewrite ← c.urlRewrite
  let basicAuthUser ← c.basicAuthUser
  let basicAuthHash ← c.basicAuthHash
  return {
    id := c.id, tenantID := c.tenantID, ownerID := c.ownerID, name := c.name,
    targetURL := c.targetURL, tlsEnabled := c.tlsEnabled, certID := "",
    forceHTTPS := c.forceHTTPS, http2 := c.http2, websocket := c.websocket, urlRewrite,
    basicAuthUser, basicAuthHash, maxConns := c.maxConns, enabled := c.enabled }

def scanDDNSConfig (json : Unmarshal) (c : DDNSColumns) : Option DDNSConfig := do
  let getIPURL ← c.getIPURL
  let netInterface ← c.netInterface
  return {
    id := c.id, name := c.name, provider := c.provider, domain := c.domain,
    subDomain := c.subDomain, recordType := c.recordType, ttl := c.ttl,
    credentials := json.credentials c.credentials, getIPURL, getIPType := c.getIPType,
    netInterface, interval := c.interval, enabled := c.enabled }

def scanCronJob (c : CronColumns) : Option CronJob := do
  let command ← c.command
  let moduleID ← c.moduleID
  let moduleType ← c.moduleType
  return {
    id := c.id, name := c.name, schedule := c.schedule, type := c.type, command, moduleID,
    moduleType, enabled := c.enabled }

/-- Neither loader of storage mounts names `tenant_id`. -/
def scanStorageMount (json : Unmarshal) (c : StorageColumns) : Option StorageMount := do
  let username ← c.username
  let password ← c.password
  let ftpPort ← c.ftpPort
  return {
    id := c.id, tenantID := "", name := c.name, type := c.type, source := c.source, username,
    password, services := json.services c.services, ftpPort, enabled := c.enabled }

/-! ## The loaders -/

def Content.forwardListsOf (db : Content) (id : ID) : ForwardLists :=
  ⟨entriesOf db.forwardWhitelist id, entriesOf db.forwardBlacklist id⟩

def Content.proxyListsOf (db : Content) (id : ID) : ProxyLists :=
  ⟨valuesOf db.proxyDomains id, entriesOf db.proxyIPWhitelist id,
    entriesOf db.proxyIPBlacklist id, valuesOf db.proxyUAWhitelist id,
    valuesOf db.proxyUABlacklist id⟩

/-- `forwardDB.GetRules`. -/
def forwardGetRules (db : Content) : Option (List ForwardRule) :=
  queryAll (fun c => (scanForwardRow c).map fun r => ⟨r, db.forwardListsOf r.id⟩) db.forwardRules

/-- `proxyDB.GetRules`. -/
def proxyGetRules (db : Content) : Option (List ProxyRule) :=
  queryAll (fun c => (scanProxyRow c).map fun r => ⟨r, db.proxyListsOf r.id⟩) db.proxyRules

def getConfigs (json : Unmarshal) (db : Content) : Option (List DDNSConfig) :=
  queryAll (scanDDNSConfig json) db.ddnsConfigs

def getTunnels (db : Content) : Option (List STUNTunnel) := queryAll some db.stunTunnels

def getJobs (db : Content) : Option (List CronJob) := queryAll scanCronJob db.cronJobs

def getMounts (json : Unmarshal) (db : Content) : Option (List StorageMount) :=
  queryAll (scanStorageMount json) db.storageMounts

def loadForwardRule (db : Content) (id : ID) : Option ForwardRule :=
  queryRow (fun c => (scanForwardRow c).map fun r => ⟨r, db.forwardListsOf id⟩) db.forwardRules id

def loadProxyRule (db : Content) (id : ID) : Option ProxyRule :=
  queryRow (fun c => (scanSingleProxyRow c).map fun r => ⟨r, db.proxyListsOf id⟩) db.proxyRules id

def loadDDNSConfig (json : Unmarshal) (db : Content) (id : ID) : Option DDNSConfig :=
  queryRow (scanDDNSConfig json) db.ddnsConfigs id

def loadSTUNTunnel (db : Content) (id : ID) : Option STUNTunnel :=
  queryRow some db.stunTunnels id

def loadCronJob (db : Content) (id : ID) : Option CronJob := queryRow scanCronJob db.cronJobs id

def loadStorageMount (json : Unmarshal) (db : Content) (id : ID) : Option StorageMount :=
  queryRow (scanStorageMount json) db.storageMounts id

/-- The root directory that `startMount` serves, given `filepath.Join`. -/
def mountRoot (join : String → String → String) (m : StorageMount) : String :=
  if m.tenantID ≠ "" then join m.source m.tenantID else m.source

/-! ## What a record has to carry

The columns that an engine reads or a handler sets: all that the rows here have. -/

/-- The row in which the values of a rule are stored. -/
def columnsOfForward (r : ForwardRow) : ForwardColumns :=
  ⟨r.id, r.tenantID, r.ownerID, r.name, r.protocol, r.listenAddr, r.listenPort, r.targetAddr,
    r.targetPort, r.enableIPv6, r.maxConns, r.enabled, some r.scheduleOn, some r.scheduleOff⟩

def columnsOfProxy (r : ProxyRow) : ProxyColumns :=
  ⟨r.id, r.tenantID, r.ownerID, r.name, r.targetURL, r.tlsEnabled, some r.certID, r.forceHTTPS,
    r.http2, r.websocket, some r.urlRewrite, some r.basicAuthUser, some r.basicAuthHash,
    r.maxConns, r.enabled⟩

def carriesForward (db : Content) (c : ForwardColumns) (r : ForwardRule) : Prop :=
  c = columnsOfForward r.toForwardRow ∧ r.toForwardLists = db.forwardListsOf c.id

def carriesProxy (db : Content) (c : ProxyColumns) (r : ProxyRule) : Prop :=
  c = columnsOfProxy r.toProxyRow ∧ r.toProxyLists = db.proxyListsOf c.id

def carriesDDNS (json : Unmarshal) (c : DDNSColumns) (r : DDNSConfig) : Prop :=
  c = ⟨r.id, r.name, r.provider, r.domain, r.subDomain, r.recordType, r.ttl, c.credentials,
    some r.getIPURL, r.getIPType, some r.netInterface, r.interval, r.enabled⟩ ∧
  r.credentials = json.credentials c.credentials

def carriesCron (c : CronColumns) (r : CronJob) : Prop :=
  c = ⟨r.id, r.name, r.schedule, r.type, some r.command, some r.moduleID, some r.moduleType,
    r.enabled⟩

def carriesStorage (json : Unmarshal) (c : StorageColumns) (r : StorageMount) : Prop :=
  c = ⟨r.id, r.tenantID, r.name, r.type, r.source, some r.username, some r.password, c.services,
    some r.ftpPort, r.enabled⟩ ∧
  r.services = json.services c.services

/-- Both loaders of all six tables. -/
structure Content.Faithful (json : Unmarshal) (db : Content) : Prop where
  forward : ModuleLoading.Faithful (forwardGetRules db) (loadForwardRule db) (fun r => r.id)
    (carriesForward db) db.forwardRules
  proxy : ModuleLoading.Faithful (proxyGetRules db) (loadProxyRule db) (fun r => r.id)
    (carriesProxy db) db.proxyRules
  ddns : ModuleLoading.Faithful (getConfigs json db) (loadDDNSConfig json db) DDNSConfig.id
    (carriesDDNS json) db.ddnsConfigs
  stun : ModuleLoading.Faithful (getTunnels db) (loadSTUNTunnel db) STUNTunnel.id Eq
    db.stunTunnels
  cron : ModuleLoading.Faithful (getJobs db) (loadCronJob db) CronJob.id carriesCron db.cronJobs
  storage : ModuleLoading.Faithful (getMounts json db) (loadStorageMount json db)
    StorageMount.id (carriesStorage json) db.storageMounts

/-! ## When they do -/

def ForwardColumns.Loadable (c : ForwardColumns) : Prop :=
  c.scheduleOn.isSome ∧ c.scheduleOff.isSome

/-- The single load has no certificate to tell of, so there must be none. -/
def ProxyColumns.Loadable (c : ProxyColumns) : Prop :=
  c.certID = some "" ∧ c.urlRewrite.isSome ∧ c.basicAuthUser.isSome ∧ c.basicAuthHash.isSome

def DDNSColumns.Loadable (c : DDNSColumns) : Prop := c.getIPURL.isSome ∧ c.netInterface.isSome

def CronColumns.Loadable (c : CronColumns) : Prop :=
  c.command.isSome ∧ c.moduleID.isSome ∧ c.moduleType.isSome

/-- Neither load has a tenant to tell of. -/
def StorageColumns.Loadable (c : StorageColumns) : Prop :=
  c.tenantID = "" ∧ c.username.isSome ∧ c.password.isSome ∧ c.ftpPort.isSome

structure Content.Loadable (db : Content) : Prop where
  forward : ∀ c ∈ db.forwardRules.rows, c.Loadable
  proxy : ∀ c ∈ db.proxyRules.rows, c.Loadable
  ddns : ∀ c ∈ db.ddnsConfigs.rows, c.Loadable
  cron : ∀ c ∈ db.cronJobs.rows, c.Loadable
  storage : ∀ c ∈ db.storageMounts.rows, c.Loadable

/-! ### Forward rules -/

theorem id_of_scanForwardRow {c : ForwardColumns} {r : ForwardRow}
    (h : scanForwardRow c = some r) : r.id = c.id := by
  obtain ⟨_, _, _, _, rfl⟩ := by simpa [scanForwardRow, Option.bind_eq_some_iff] using h
  rfl

theorem forward_faithful_iff (db : Content) :
    Faithful (forwardGetRules db) (loadForwardRule db) (fun r => r.id) (carriesForward db)
      db.forwardRules ↔ ∀ c ∈ db.forwardRules.rows, c.Loadable := by
  rw [forwardGetRules, faithful_iff ?key]
  case key =>
    intro c r h
    obtain ⟨row, hrow, rfl⟩ := Option.map_eq_some_iff.mp h
    exact id_of_scanForwardRow hrow
  refine forall₂_congr fun c hc => ?_
  rw [loadForwardRule, queryRow_of_mem hc]
  constructor
  · rintro ⟨r, -, -, hcolumns, -⟩
    rw [hcolumns]
    exact ⟨rfl, rfl⟩
  · rintro ⟨hon, hoff⟩
    obtain ⟨scheduleOn, hon⟩ := Option.isSome_iff_exists.mp hon
    obtain ⟨scheduleOff, hoff⟩ := Option.isSome_iff_exists.mp hoff
    cases c
    subst hon hoff
    exact ⟨_, rfl, rfl, rfl, rfl⟩

/-! ### Proxy rules -/

theorem id_of_scanProxyRow {c : ProxyColumns} {r : ProxyRow} (h : scanProxyRow c = some r) :
    r.id = c.id := by
  obtain ⟨_, _, _, _, _, _, _, _, rfl⟩ := by
    simpa [scanProxyRow, Option.bind_eq_some_iff] using h
  rfl

/-- The two scans differ in the certificate only. -/
theorem scanSingleProxyRow_of_scanProxyRow {c : ProxyColumns} {r : ProxyRow}
    (h : scanProxyRow c = some r) : scanSingleProxyRow c = some { r with certID := "" } := by
  obtain ⟨_, _, _, hrewrite, _, huser, _, hhash, rfl⟩ := by
    simpa [scanProxyRow, Option.bind_eq_some_iff] using h
  rw [scanSingleProxyRow, hrewrite, huser, hhash]
  rfl

theorem proxy_faithful_iff (db : Content) :
    Faithful (proxyGetRules db) (loadProxyRule db) (fun r => r.id) (carriesProxy db)
      db.proxyRules ↔ ∀ c ∈ db.proxyRules.rows, c.Loadable := by
  rw [proxyGetRules, faithful_iff ?key]
  case key =>
    intro c r h
    obtain ⟨row, hrow, rfl⟩ := Option.map_eq_some_iff.mp h
    exact id_of_scanProxyRow hrow
  refine forall₂_congr fun c hc => ?_
  rw [loadProxyRule, queryRow_of_mem hc]
  constructor
  · rintro ⟨r, hall, hone, hcolumns, -⟩
    obtain ⟨row, hrow, rfl⟩ := Option.map_eq_some_iff.mp hall
    rw [scanSingleProxyRow_of_scanProxyRow hrow] at hone
    have hcert : "" = row.certID := congrArg (fun r => r.certID) (Option.some.inj hone)
    rw [hcolumns]
    exact ⟨congrArg some hcert.symm, rfl, rfl, rfl⟩
  · rintro ⟨hcert, hrewrite, huser, hhash⟩
    obtain ⟨urlRewrite, hrewrite⟩ := Option.isSome_iff_exists.mp hrewrite
    obtain ⟨basicAuthUser, huser⟩ := Option.isSome_iff_exists.mp huser
    obtain ⟨basicAuthHash, hhash⟩ := Option.isSome_iff_exists.mp hhash
    cases c
    subst hcert hrewrite huser hhash
    exact ⟨_, rfl, rfl, rfl, rfl⟩

/-! ### The other modules -/

theorem id_of_scanDDNSConfig {json : Unmarshal} {c : DDNSColumns} {r : DDNSConfig}
    (h : scanDDNSConfig json c = some r) : r.id = c.id := by
  obtain ⟨_, _, _, _, rfl⟩ := by simpa [scanDDNSConfig, Option.bind_eq_some_iff] using h
  rfl

theorem id_of_scanCronJob {c : CronColumns} {r : CronJob} (h : scanCronJob c = some r) :
    r.id = c.id := by
  obtain ⟨_, _, _, _, _, _, rfl⟩ := by simpa [scanCronJob, Option.bind_eq_some_iff] using h
  rfl

theorem ddns_faithful_iff (json : Unmarshal) (db : Content) :
    Faithful (getConfigs json db) (loadDDNSConfig json db) DDNSConfig.id (carriesDDNS json)
      db.ddnsConfigs ↔ ∀ c ∈ db.ddnsConfigs.rows, c.Loadable := by
  rw [getConfigs, faithful_iff fun c r h => id_of_scanDDNSConfig h]
  refine forall₂_congr fun c hc => ?_
  rw [loadDDNSConfig, queryRow_of_mem hc]
  constructor
  · rintro ⟨r, -, -, hcolumns, -⟩
    rw [hcolumns]
    exact ⟨rfl, rfl⟩
  · rintro ⟨hurl, hinterface⟩
    obtain ⟨getIPURL, hurl⟩ := Option.isSome_iff_exists.mp hurl
    obtain ⟨netInterface, hinterface⟩ := Option.isSome_iff_exists.mp hinterface
    cases c
    subst hurl hinterface
    exact ⟨_, rfl, rfl, rfl, rfl⟩

theorem stun_faithful (db : Content) :
    Faithful (getTunnels db) (loadSTUNTunnel db) STUNTunnel.id Eq db.stunTunnels := by
  rw [getTunnels, faithful_iff fun c r h => congrArg STUNTunnel.id (Option.some.inj h).symm]
  intro c hc
  rw [loadSTUNTunnel, queryRow_of_mem hc]
  exact ⟨c, rfl, rfl, rfl⟩

theorem cron_faithful_iff (db : Content) :
    Faithful (getJobs db) (loadCronJob db) CronJob.id carriesCron db.cronJobs ↔
      ∀ c ∈ db.cronJobs.rows, c.Loadable := by
  rw [getJobs, faithful_iff fun c r h => id_of_scanCronJob h]
  refine forall₂_congr fun c hc => ?_
  rw [loadCronJob, queryRow_of_mem hc]
  constructor
  · rintro ⟨r, -, -, hcolumns⟩
    rw [hcolumns]
    exact ⟨rfl, rfl, rfl⟩
  · rintro ⟨hcommand, hid, htype⟩
    obtain ⟨command, hcommand⟩ := Option.isSome_iff_exists.mp hcommand
    obtain ⟨moduleID, hid⟩ := Option.isSome_iff_exists.mp hid
    obtain ⟨moduleType, htype⟩ := Option.isSome_iff_exists.mp htype
    cases c
    subst hcommand hid htype
    exact ⟨_, rfl, rfl, rfl⟩

/-! ### Storage mounts -/

theorem of_scanStorageMount {json : Unmarshal} {c : StorageColumns} {m : StorageMount}
    (h : scanStorageMount json c = some m) : m.id = c.id ∧ m.tenantID = "" := by
  obtain ⟨_, _, _, _, _, _, rfl⟩ := by simpa [scanStorageMount, Option.bind_eq_some_iff] using h
  exact ⟨rfl, rfl⟩

/-- Whatever tenant a mount belongs to, what is loaded serves its source as the root. -/
theorem mountRoot_of_loaded {json : Unmarshal} {db : Content} {m : StorageMount}
    (h : (∃ mounts, getMounts json db = some mounts ∧ m ∈ mounts) ∨
      ∃ id, loadStorageMount json db id = some m) (join : String → String → String) :
    mountRoot join m = m.source := by
  have hscan : ∃ c, scanStorageMount json c = some m := by
    obtain ⟨mounts, hall, hm⟩ | ⟨id, hone⟩ := h
    · obtain ⟨c, -, hc⟩ := (mem_of_queryAll hall).mp hm
      exact ⟨c, hc⟩
    · obtain ⟨c, -, hc⟩ := Option.bind_eq_some_iff.mp hone
      exact ⟨c, hc⟩
  obtain ⟨c, hc⟩ := hscan
  rw [mountRoot, if_neg (not_not.mpr (of_scanStorageMount hc).2)]

theorem storage_faithful_iff (json : Unmarshal) (db : Content) :
    Faithful (getMounts json db) (loadStorageMount json db) StorageMount.id (carriesStorage json)
      db.storageMounts ↔ ∀ c ∈ db.storageMounts.rows, c.Loadable := by
  rw [getMounts, faithful_iff fun c r h => (of_scanStorageMount h).1]
  refine forall₂_congr fun c hc => ?_
  rw [loadStorageMount, queryRow_of_mem hc]
  constructor
  · rintro ⟨r, hall, -, hcolumns, -⟩
    rw [hcolumns]
    exact ⟨(of_scanStorageMount hall).2, rfl, rfl, rfl⟩
  · rintro ⟨htenant, huser, hpassword, hport⟩
    obtain ⟨username, huser⟩ := Option.isSome_iff_exists.mp huser
    obtain ⟨password, hpassword⟩ := Option.isSome_iff_exists.mp hpassword
    obtain ⟨ftpPort, hport⟩ := Option.isSome_iff_exists.mp hport
    cases c
    subst htenant huser hpassword hport
    exact ⟨_, rfl, rfl, rfl, rfl⟩

/-- For every content of the tables: each row is loaded alone as it is loaded among all, with
all that is stored, exactly when there is no NULL, no certificate of a proxy rule and no
tenant of a storage mount. -/
theorem loaders_faithful_iff (json : Unmarshal) (db : Content) :
    db.Faithful json ↔ db.Loadable := by
  constructor
  · intro h
    exact ⟨(forward_faithful_iff db).mp h.forward, (proxy_faithful_iff db).mp h.proxy,
      (ddns_faithful_iff json db).mp h.ddns, (cron_faithful_iff db).mp h.cron,
      (storage_faithful_iff json db).mp h.storage⟩
  · intro h
    exact ⟨(forward_faithful_iff db).mpr h.forward, (proxy_faithful_iff db).mpr h.proxy,
      (ddns_faithful_iff json db).mpr h.ddns, stun_faithful db, (cron_faithful_iff db).mpr h.cron,
      (storage_faithful_iff json db).mpr h.storage⟩

/-- One proxy rule with a certificate, one mount of a tenant. -/
def sampleContent : Content where
  forwardRules := Table.empty
  forwardWhitelist := Table.empty
  forwardBlacklist := Table.empty
  proxyRules := ⟨[⟨"p1", "", "", "web", "http://10.0.0.2", true, some "c1", false, true, false,
    some "", some "", some "", 0, true⟩], List.nodup_singleton _⟩
  proxyDomains := Table.empty
  proxyIPWhitelist := Table.empty
  proxyIPBlacklist := Table.empty
  proxyUAWhitelist := Table.empty
  proxyUABlacklist := Table.empty
  ddnsConfigs := Table.empty
  stunTunnels := Table.empty
  cronJobs := Table.empty
  storageMounts := ⟨[⟨"s1", "tenantA", "files", "local", "/srv", some "u", some "p",
    "[\"ftp\"]", some 2121, true⟩], List.nodup_singleton _⟩

/-- The certificate is there after a restart and gone after a reload; the tenant, and with it
the directory of its own, is never there. -/
theorem certificate_and_tenant_lost :
    ¬ sampleContent.Faithful ⟨fun _ _ => none, fun _ => ["ftp"]⟩ ∧
    (proxyGetRules sampleContent).map (List.map fun r => r.certID) = some ["c1"] ∧
    (loadProxyRule sampleContent "p1").map (fun r => r.certID) = some "" ∧
    (loadStorageMount ⟨fun _ _ => none, fun _ => ["ftp"]⟩ sampleContent "s1").map
      (fun m => mountRoot (fun dir tenant => dir ++ "/" ++ tenant) m) = some "/srv" := by
  refine ⟨fun h => ?_, rfl, rfl, rfl⟩
  have hrow := (storage_faithful_iff _ _).mp h.storage _ (List.mem_singleton.mpr rfl)
  exact absurd hrow.1 (by decide)

/-! ## Rules without a NULL

On tables that hold no NULL the loaders of the rules are those whose queries can fail, in a
run in which none does. -/

structure StoresForward (db : Content) (t : ForwardTables) : Prop where
  rules : db.forwardRules.rows = t.rules.rows.map columnsOfForward
  whitelist : db.forwardWhitelist = t.whitelist
  blacklist : db.forwardBlacklist = t.blacklist

structure StoresProxy (db : Content) (t : ProxyTables) : Prop where
  rules : db.proxyRules.rows = t.rules.rows.map columnsOfProxy
  domains : db.proxyDomains = t.domains
  ipWhitelist : db.proxyIPWhitelist = t.ipWhitelist
  ipBlacklist : db.proxyIPBlacklist = t.ipBlacklist
  uaWhitelist : db.proxyUAWhitelist = t.uaWhitelist
  uaBlacklist : db.proxyUABlacklist = t.uaBlacklist

abbrev noForwardFaults : RuleLoading.ForwardFaults := ⟨Fault.none, Fault.none⟩

abbrev noProxyFaults : RuleLoading.ProxyFaults :=
  ⟨Fault.none, Fault.none, Fault.none, Fault.none, Fault.none⟩

theorem StoresForward.listsOf {db : Content} {t : ForwardTables} (h : StoresForward db t)
    (id : ID) : RuleLoading.forwardListsOf noForwardFaults t id = db.forwardListsOf id := by
  simp only [RuleLoading.forwardListsOf, RuleLoading.loadWireACL, readRows_without_fault,
    Option.getD_some, Content.forwardListsOf, h.whitelist, h.blacklist]

theorem StoresProxy.listsOf {db : Content} {t : ProxyTables} (h : StoresProxy db t) (id : ID) :
    RuleLoading.proxyListsOf noProxyFaults t id = db.proxyListsOf id := by
  simp only [RuleLoading.proxyListsOf, RuleLoading.loadWireACL, RuleLoading.loadWireStrings,
    RuleLoading.loadWireDomains, readRows_without_fault, Option.getD_some, Content.proxyListsOf,
    h.domains, h.ipWhitelist, h.ipBlacklist, h.uaWhitelist, h.uaBlacklist]

theorem StoresForward.loadForwardRule_eq {db : Content} {t : ForwardTables}
    (h : StoresForward db t) (id : ID) :
    loadForwardRule db id = RuleLoading.loadForwardRule Fault.none noForwardFaults t id := by
  rw [loadForwardRule, queryRow_of_stored h.rules fun _ => rfl, RuleLoading.loadForwardRule,
    readRow_without_fault, h.listsOf]
  cases t.rules.select id <;> rfl

theorem StoresForward.forwardGetRules_eq {db : Content} {t : ForwardTables}
    (h : StoresForward db t) :
    forwardGetRules db = RuleLoading.forwardGetRules Fault.none (fun _ => noForwardFaults) t := by
  have hscan (row : ForwardRow) : (scanForwardRow (columnsOfForward row)).map
      (fun r => (⟨r, db.forwardListsOf r.id⟩ : ForwardRule)) =
        some ⟨row, db.forwardListsOf row.id⟩ := rfl
  rw [forwardGetRules, queryAll_of_stored h.rules hscan, RuleLoading.forwardGetRules,
    readRows_without_fault, Option.map_some]
  simp only [h.listsOf]

theorem StoresProxy.loadProxyRule_eq {db : Content} {t : ProxyTables} (h : StoresProxy db t)
    (id : ID) :
    loadProxyRule db id = RuleLoading.loadProxyRule Fault.none noProxyFaults t id := by
  rw [loadProxyRule, queryRow_of_stored h.rules fun _ => rfl, RuleLoading.loadProxyRule,
    readRow_without_fault, h.listsOf]
  cases t.rules.select id <;> rfl

theorem StoresProxy.proxyGetRules_eq {db : Content} {t : ProxyTables} (h : StoresProxy db t) :
    proxyGetRules db = RuleLoading.proxyGetRules Fault.none (fun _ => noProxyFaults) t := by
  have hscan (row : ProxyRow) : (scanProxyRow (columnsOfProxy row)).map
      (fun r => (⟨r, db.proxyListsOf r.id⟩ : ProxyRule)) =
        some ⟨row, db.proxyListsOf row.id⟩ := rfl
  rw [proxyGetRules, queryAll_of_stored h.rules hscan, RuleLoading.proxyGetRules,
    readRows_without_fault, Option.map_some]
  simp only [h.listsOf]

end NetBerth.ModuleLoading
