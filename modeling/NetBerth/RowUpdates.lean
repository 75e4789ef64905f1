import NetBerth.Models
import NetBerth.ModuleEvents
import NetBerth.ModuleLoading

/-!
# The updates of the modules

`Update` of each module decodes the body into an empty record and sets columns of
the row to its fields. The columns it does not name keep what they hold: the id, the
tenant, the owner and the time of creation in every module.

Two of the statements name a column that no body can fill, the hash of the basic
authentication of a proxy rule and the password of a storage mount. Whatever the
body says, the row is left with an empty secret.
-/
namespace NetBerth.RowUpdates
open SqlTable JSONDecode Models
open Rules (ID ACLEntry ListRow)
open ModuleEvents (Module)
open ModuleLoading (ForwardColumns ProxyColumns DDNSColumns CronColumns StorageColumns)
open Keyed (key)

/-! ## Rows -/

structure ForwardRuleRow extends ForwardColumns where
  createdAt : Time
  updatedAt : Time
  deriving DecidableEq, Repr

structure ProxyRuleRow extends ProxyColumns where
  createdAt : Time
  updatedAt : Time
  deriving DecidableEq, Repr

structure DDNSConfigRow extends DDNSColumns where
  tenantID : ID
  createdAt : Time
  updatedAt : Time
  deriving DecidableEq, Repr

structure STUNTunnelRow extends ModuleLoading.STUNTunnel where
  tenantID : ID
  createdAt : Time
  updatedAt : Time
  deriving DecidableEq, Repr

structure WOLDeviceRow where
  id : ID
  tenantID : ID
  name : String
  mac : String
  broadcast : String
  port : ℤ
  platform : Option String
  platformKey : Option String
  createdAt : Time
  updatedAt : Time
  deriving DecidableEq, Repr

structure CronJobRow extends CronColumns where
  tenantID : ID
  lastRun : Option Time
  nextRun : Option Time
  createdAt : Time
  updatedAt : Time
  deriving DecidableEq, Repr

structure ACMECertificateRow where
  id : ID
  tenantID : ID
  name : String
  domains : String
  provider : String
  dnsProvider : String
  dnsConfig : String
  email : String
  autoRenew : Bool
  renewDays : ℤ
  certPath : Option String
  keyPath : Option String
  expiresAt : Option Time
  status : String
  error : Option String
  createdAt : Time
  updatedAt : Time
  deriving DecidableEq, Repr

structure StorageMountRow extends StorageColumns where
  createdAt : Time
  updatedAt : Time
  deriving DecidableEq, Repr

instance : Keyed ForwardRuleRow ID := ⟨fun row => row.id⟩
instance : Keyed ProxyRuleRow ID := ⟨fun row => row.id⟩
instance : Keyed DDNSConfigRow ID := ⟨fun row => row.id⟩
instance : Keyed STUNTunnelRow ID := ⟨fun row => row.id⟩
instance : Keyed WOLDeviceRow ID := ⟨fun row => row.id⟩
instance : Keyed CronJobRow ID := ⟨fun row => row.id⟩
instance : Keyed ACMECertificateRow ID := ⟨fun row => row.id⟩
instance : Keyed StorageMountRow ID := ⟨fun row => row.id⟩

/-- The tables of the lists that belong to a rule. -/
inductive ListTable where
  | forwardWhitelist
  | forwardBlacklist
  | proxyDomains
  | proxyIPWhitelist
  | proxyIPBlacklist
  | proxyUAWhitelist
  | proxyUABlacklist
  deriving DecidableEq, Repr

abbrev Lists := ListTable → Table ListRow

structure Database where
  forwardRules : Table ForwardRuleRow
  proxyRules : Table ProxyRuleRow
  ddnsConfigs : Table DDNSConfigRow
  stunTunnels : Table STUNTunnelRow
  wolDevices : Table WOLDeviceRow
  cronJobs : Table CronJobRow
  acmeCertificates : Table ACMECertificateRow
  storageMounts : Table StorageMountRow
  lists : Lists

/-! ## Statements -/

/-- What the handler does not decide: the clock, what `generateUUID` returns, and which
of its statements the database refuses. The statements are counted. -/
structure Env where
  now : Time
  uuid : ℕ → ID
  fails : ℕ → Bool

/-- What `time.Time` reads and `json.Marshal` writes. -/
structure Codec where
  parseTime : String → Option Time
  marshalStrings : Option (List String) → String
  marshalPairs : Option (List (String × String)) → String

structure Reply where
  status : ℕ
  message : String
  deriving DecidableEq, Repr

/-- The empty record, its fields in a body, and the columns that are set. -/
structure Handler (ρ μ : Type) [Keyed ρ ID] where
  zero : μ
  fields : (String → Option Time) → List (TaggedField μ)
  set : Codec → Time → μ → ρ → ρ
  key_set : ∀ codec now record row, key (set codec now record row) = key row

section
variable {ρ μ : Type} [Keyed ρ ID] (h : Handler ρ μ) (codec : Codec)

/-- `none` is a text that is not JSON. -/
def Handler.decode (body : Option JSON) : Option μ :=
  body.bind fun j => struct (h.fields codec.parseTime) j h.zero

/-- `UPDATE ... WHERE id=?`. -/
def Handler.exec (env : Env) (id : ID) (record : μ) (t : Table ρ) : Option (Table ρ) :=
  if env.fails 0 then none
  else some (t.update (fun row => key row = id) (h.set codec env.now record)
    (h.key_set codec env.now record))

end

/-- The statements on the lists after the update; an error of one is not looked at. -/
def runLists (env : Env) (statements : List (ℕ → Lists → Lists)) (lists : Lists) : Lists :=
  (statements.zipIdx 1).foldl
    (fun lists x => if env.fails x.2 then lists else x.1 x.2 lists) lists

/-- `DELETE FROM ... WHERE rule_id = ?`. -/
def clearList (table : ListTable) (ruleID : ID) (_ : ℕ) (lists : Lists) : Lists :=
  Function.update lists table ((lists table).delete fun row => row.ruleID = ruleID)

/-- The foreign key refuses an entry of a rule that is not there. -/
def insertEntry (ruleExists : Bool) (table : ListTable) (row : ListRow) (lists : Lists) : Lists :=
  if ruleExists then Function.update lists table ((lists table).insertIgnore row) else lists

def saveACLEntries (env : Env) (ruleExists : Bool) (table : ListTable) (ruleID : ID)
    (entries : Option (List ACLEntry)) : List (ℕ → Lists → Lists) :=
  (entries.getD []).map fun e n =>
    insertEntry ruleExists table ⟨if e.id = "" then env.uuid n else e.id, ruleID, e.value⟩

def saveStringList (env : Env) (ruleExists : Bool) (table : ListTable) (ruleID : ID)
    (list : Option (List String)) : List (ℕ → Lists → Lists) :=
  (list.getD []).map fun v n => insertEntry ruleExists table ⟨env.uuid n, ruleID, v⟩

/-! ## The handlers -/

def ForwardHandler : Handler ForwardRuleRow ForwardRule where
  zero := ForwardRule.zero
  fields := ForwardRule.fields
  set _ now rule row := { row with
    name := rule.name, protocol := rule.protocol, listenAddr := rule.listenAddr,
    listenPort := rule.listenPort, targetAddr := rule.targetAddr, targetPort := rule.targetPort,
    enableIPv6 := rule.enableIPv6, maxConns := rule.maxConns, enabled := rule.enabled,
    scheduleOn := some rule.scheduleOn, scheduleOff := some rule.scheduleOff, updatedAt := now }
  key_set _ _ _ _ := rfl

def ProxyHandler : Handler ProxyRuleRow ProxyRule where
  zero := ProxyRule.zero
  fields := ProxyRule.fields
  set _ now rule row := { row with
    name := rule.name, targetURL := rule.targetURL, tlsEnabled := rule.tlsEnabled,
    certID := some rule.certID, forceHTTPS := rule.forceHTTPS, http2 := rule.http2,
    websocket := rule.websocket, urlRewrite := some rule.urlRewrite,
    basicAuthUser := some rule.basicAuthUser, basicAuthHash := some rule.basicAuthHash,
    maxConns := rule.maxConns, enabled := rule.enabled, updatedAt := now }
  key_set _ _ _ _ := rfl

def DDNSHandler : Handler DDNSConfigRow DDNSConfig where
  zero := DDNSConfig.zero
  fields := DDNSConfig.fields
  set codec now c row := { row with
    name := c.name, provider := c.provider, domain := c.domain, subDomain := c.subDomain,
    recordType := c.recordType, ttl := c.ttl, credentials := codec.marshalPairs c.credentials,
    getIPURL := some c.getIPURL, getIPType := c.getIPType, netInterface := some c.netInterface,
    interval := c.interval, enabled := c.enabled, updatedAt := now }
  key_set _ _ _ _ := rfl

def STUNHandler : Handler STUNTunnelRow STUNTunnel where
  zero := STUNTunnel.zero
  fields := STUNTunnel.fields
  set _ now t row := { row with
    name := t.name, protocol := t.protocol, localPort := t.localPort,
    remotePort := t.remotePort, stunServer := t.stunServer, targetAddr := t.targetAddr,
    targetPort := t.targetPort, enabled := t.enabled, updatedAt := now }
  key_set _ _ _ _ := rfl

def WOLHandler : Handler WOLDeviceRow WOLDevice where
  zero := WOLDevice.zero
  fields := WOLDevice.fields
  set _ now d row := { row with
    name := d.name, mac := d.mac, broadcast := d.broadcast, port := d.port,
    platform := some d.platform, platformKey := some d.platformKey, updatedAt := now }
  key_set _ _ _ _ := rfl

def CronHandler : Handler CronJobRow CronJob where
  zero := CronJob.zero
  fields := CronJob.fields
  set _ now j row := { row with
    name := j.name, schedule := j.schedule, type := j.type, command := some j.command,
    moduleID := some j.moduleID, moduleType := some j.moduleType, enabled := j.enabled,
    updatedAt := now }
  key_set _ _ _ _ := rfl

def ACMEHandler : Handler ACMECertificateRow ACMECertificate where
  zero := ACMECertificate.zero
  fields := ACMECertificate.fields
  set codec now c row := { row with
    name := c.name, domains := codec.marshalStrings c.domains, provider := c.provider,
    dnsProvider := c.dnsProvider, dnsConfig := codec.marshalPairs c.dnsConfig, email := c.email,
    autoRenew := c.autoRenew, renewDays := c.renewDays, updatedAt := now }
  key_set _ _ _ _ := rfl

def StorageHandler : Handler StorageMountRow StorageMount where
  zero := StorageMount.zero
  fields := StorageMount.fields
  set codec now m row := { row with
    name := m.name, type := m.type, source := m.source, username := some m.username,
    password := some m.password, services := codec.marshalStrings m.services,
    ftpPort := some m.ftpPort, enabled := m.enabled, updatedAt := now }
  key_set _ _ _ _ := rfl

section
variable {ρ μ : Type} [Keyed ρ ID] (h : Handler ρ μ) (codec : Codec) (env : Env) (id : ID)
  (body : Option JSON) (db : Database)

/-- An update whose error is reported, with what follows it. -/
def reportingUpdate (table : Table ρ) (store : Table ρ → μ → Database) : Database × Reply :=
  match h.decode codec body with
  | none => (db, ⟨400, "invalid request body"⟩)
  | some record =>
    match h.exec codec env id record table with
    | none => (db, ⟨500, "update failed"⟩)
    | some t => (store t record, ⟨200, "updated"⟩)

/-- An update whose error is dropped. -/
def droppingUpdate (table : Table ρ) (store : Table ρ → Database) : Database × Reply :=
  match h.decode codec body with
  | none => (db, ⟨400, "invalid body"⟩)
  | some record =>
    match h.exec codec env id record table with
    | none => (db, ⟨200, "updated"⟩)
    | some t => (store t, ⟨200, "updated"⟩)

def replaceForwardLists (rules : Table ForwardRuleRow) (rule : ForwardRule) (lists : Lists) :
    Lists :=
  let ruleExists := (rules.select id).isSome
  runLists env
    ([clearList .forwardWhitelist id, clearList .forwardBlacklist id] ++
      saveACLEntries env ruleExists .forwardWhitelist id rule.whitelist ++
      saveACLEntries env ruleExists .forwardBlacklist id rule.blacklist) lists

def replaceProxyLists (rules : Table ProxyRuleRow) (rule : ProxyRule) (lists : Lists) : Lists :=
  let ruleExists := (rules.select id).isSome
  runLists env
    ([clearList .proxyDomains id, clearList .proxyIPWhitelist id, clearList .proxyIPBlacklist id,
        clearList .proxyUAWhitelist id, clearList .proxyUABlacklist id] ++
      saveStringList env ruleExists .proxyDomains id rule.domains ++
      saveACLEntries env ruleExists .proxyIPWhitelist id rule.ipWhitelist ++
      saveACLEntries env ruleExists .proxyIPBlacklist id rule.ipBlacklist ++
      saveStringList env ruleExists .proxyUAWhitelist id rule.uaWhitelist ++
      saveStringList env ruleExists .proxyUABlacklist id rule.uaBlacklist) lists

/-- `Update` of the module. -/
def update (m : Module) : Database × Reply :=
  match m with
  | .forward =>
    reportingUpdate ForwardHandler codec env id body db db.forwardRules fun t rule =>
      { db with forwardRules := t, lists := replaceForwardLists env id t rule db.lists }
  | .proxy =>
    reportingUpdate ProxyHandler codec env id body db db.proxyRules fun t rule =>
      { db with proxyRules := t, lists := replaceProxyLists env id t rule db.lists }
  | .ddns =>
    reportingUpdate DDNSHandler codec env id body db db.ddnsConfigs fun t _ =>
      { db with ddnsConfigs := t }
  | .stun =>
    droppingUpdate STUNHandler codec env id body db db.stunTunnels fun t =>
      { db with stunTunnels := t }
  | .wol =>
    droppingUpdate WOLHandler codec env id body db db.wolDevices fun t =>
      { db with wolDevices := t }
  | .cron =>
    droppingUpdate CronHandler codec env id body db db.cronJobs fun t =>
      { db with cronJobs := t }
  | .acme =>
    droppingUpdate ACMEHandler codec env id body db db.acmeCertificates fun t =>
      { db with acmeCertificates := t }
  | .storage =>
    droppingUpdate StorageHandler codec env id body db db.storageMounts fun t =>
      { db with storageMounts := t }

end

/-! ## What an update leaves alone -/

def ForwardRuleRow.fixed (row : ForwardRuleRow) : ID × ID × ID × Time :=
  (row.id, row.tenantID, row.ownerID, row.createdAt)

def ProxyRuleRow.fixed (row : ProxyRuleRow) : ID × ID × ID × Time × Option String :=
  (row.id, row.tenantID, row.ownerID, row.createdAt, row.basicAuthHash)

def DDNSConfigRow.fixed (row : DDNSConfigRow) : ID × ID × Time :=
  (row.id, row.tenantID, row.createdAt)

def STUNTunnelRow.fixed (row : STUNTunnelRow) : ID × ID × Time :=
  (row.id, row.tenantID, row.createdAt)

def WOLDeviceRow.fixed (row : WOLDeviceRow) : ID × ID × Time :=
  (row.id, row.tenantID, row.createdAt)

def CronJobRow.fixed (row : CronJobRow) : ID × ID × Time :=
  (row.id, row.tenantID, row.createdAt)

def ACMECertificateRow.fixed (row : ACMECertificateRow) : ID × ID × Time :=
  (row.id, row.tenantID, row.createdAt)

def StorageMountRow.fixed (row : StorageMountRow) : ID × ID × Time × Option String :=
  (row.id, row.tenantID, row.createdAt, row.password)

/-- Row by row, the columns hold what they held. -/
def Keeps {ρ τ : Type} [Keyed ρ ID] (columns : ρ → τ) (t t' : Table ρ) : Prop :=
  t'.rows.map columns = t.rows.map columns

/-- The columns that are not for an update to change hold what they held. -/
structure SecretsKept (db db' : Database) : Prop where
  forwardRules : Keeps ForwardRuleRow.fixed db.forwardRules db'.forwardRules
  proxyRules : Keeps ProxyRuleRow.fixed db.proxyRules db'.proxyRules
  ddnsConfigs : Keeps DDNSConfigRow.fixed db.ddnsConfigs db'.ddnsConfigs
  stunTunnels : Keeps STUNTunnelRow.fixed db.stunTunnels db'.stunTunnels
  wolDevices : Keeps WOLDeviceRow.fixed db.wolDevices db'.wolDevices
  cronJobs : Keeps CronJobRow.fixed db.cronJobs db'.cronJobs
  acmeCertificates : Keeps ACMECertificateRow.fixed db.acmeCertificates db'.acmeCertificates
  storageMounts : Keeps StorageMountRow.fixed db.storageMounts db'.storageMounts

theorem secretsKept_self (db : Database) : SecretsKept db db :=
  ⟨rfl, rfl, rfl, rfl, rfl, rfl, rfl, rfl⟩

section
variable {ρ μ τ : Type} [Keyed ρ ID] {h : Handler ρ μ} {codec : Codec} {env : Env} {id : ID}
  {body : Option JSON} {db : Database} {table t : Table ρ} {record : μ}

/-- The record and the table with it, if the body decodes and the statement runs. -/
def Handler.written (h : Handler ρ μ) (codec : Codec) (env : Env) (id : ID) (body : Option JSON)
    (table : Table ρ) : Option (μ × Table ρ) :=
  (h.decode codec body).bind fun record => (h.exec codec env id record table).map (record, ·)

theorem reportingUpdate_fst (store : Table ρ → μ → Database) :
    (reportingUpdate h codec env id body db table store).1 =
      ((h.written codec env id body table).map fun x => store x.2 x.1).getD db := by
  unfold reportingUpdate Handler.written
  cases h.decode codec body with
  | none => rfl
  | some record =>
    cases hexec : h.exec codec env id record table <;> simp [hexec]

theorem droppingUpdate_fst (store : Table ρ → Database) :
    (droppingUpdate h codec env id body db table store).1 =
      ((h.written codec env id body table).map fun x => store x.2).getD db := by
  unfold droppingUpdate Handler.written
  cases h.decode codec body with
  | none => rfl
  | some record =>
    cases hexec : h.exec codec env id record table <;> simp [hexec]

theorem written_eq_some : h.written codec env id body table = some (record, t) ↔
    h.decode codec body = some record ∧ env.fails 0 = false ∧
      t = table.update (fun row => key row = id) (h.set codec env.now record)
        (h.key_set codec env.now record) := by
  simp only [Handler.written, Handler.exec, Option.bind_eq_some_iff, Option.map_eq_some_iff]
  cases env.fails 0 <;> simp [eq_comm]

theorem written_eq_none : h.written codec env id body table = none ↔
    ¬((h.decode codec body).isSome ∧ env.fails 0 = false) := by
  unfold Handler.written Handler.exec
  cases h.decode codec body <;> cases env.fails 0 <;> simp

/-- The statement keeps the columns that it keeps in the rows with the id. -/
theorem keeps_iff_of_written {columns : ρ → τ}
    (hw : h.written codec env id body table = some (record, t)) :
    Keeps columns table t ↔ ∀ row ∈ table.rows, key row = id →
      columns (h.set codec env.now record row) = columns row := by
  obtain ⟨-, -, rfl⟩ := written_eq_some.mp hw
  simp only [Keeps, Table.update, List.map_map]
  rw [List.map_inj_left]
  refine forall₂_congr fun row _ => ?_
  by_cases hid : key row = id
  · simp [hid]
  · simp [hid]

/-- A statement that names none of the columns, whatever becomes of it. -/
theorem secretsKept_of_written (columns : ρ → τ) {store : μ × Table ρ → Database}
    (hset : ∀ now record row, columns (h.set codec now record row) = columns row)
    (hstore : ∀ x, Keeps columns table x.2 → SecretsKept db (store x)) :
    SecretsKept db (((h.written codec env id body table).map store).getD db) := by
  cases hw : h.written codec env id body table with
  | none => exact secretsKept_self db
  | some x =>
    apply hstore
    exact (keeps_iff_of_written hw).mpr fun row _ _ => hset env.now x.1 row

end

/-! ## The two secrets -/

section
variable {codec : Codec} {body : Option JSON}

/-- What no field of a record sets, a body leaves empty. -/
theorem decode_spares {ρ μ τ : Type} [Keyed ρ ID] {h : Handler ρ μ} {π : μ → τ} {record : μ}
    (hspares : ∀ f ∈ h.fields codec.parseTime, Spares π f)
    (hdecode : h.decode codec body = some record) : π record = π h.zero := by
  obtain ⟨j, -, hj⟩ := Option.bind_eq_some_iff.mp hdecode
  exact struct_spares hspares hj

theorem basicAuthHash_of_decode {rule : ProxyRule}
    (hdecode : ProxyHandler.decode codec body = some rule) : rule.basicAuthHash = "" := by
  apply decode_spares (h := ProxyHandler) (π := ProxyRule.basicAuthHash) _ hdecode
  simp only [ProxyHandler, ProxyRule.fields, List.forall_mem_cons, List.not_mem_nil,
    IsEmpty.forall_iff, implies_true, and_true]
  and_intros <;> exact spares_field fun _ _ => rfl

theorem password_of_decode {m : StorageMount}
    (hdecode : StorageHandler.decode codec body = some m) : m.password = "" := by
  apply decode_spares (h := StorageHandler) (π := StorageMount.password) _ hdecode
  simp only [StorageHandler, StorageMount.fields, List.forall_mem_cons, List.not_mem_nil,
    IsEmpty.forall_iff, implies_true, and_true]
  and_intros <;> exact spares_field fun _ _ => rfl

end

/-- The columns of a row's secret that the update empties: those of its module, if the
body decodes, the statement runs and a row with the id has one. -/
def Wipes (codec : Codec) (env : Env) (id : ID) (body : Option JSON) (db : Database) :
    Module → Prop
  | .proxy => (ProxyHandler.decode codec body).isSome ∧ env.fails 0 = false ∧
      ∃ row ∈ db.proxyRules.rows, row.id = id ∧ row.basicAuthHash ≠ some ""
  | .storage => (StorageHandler.decode codec body).isSome ∧ env.fails 0 = false ∧
      ∃ row ∈ db.storageMounts.rows, row.id = id ∧ row.password ≠ some ""
  | _ => False

section
variable {codec : Codec} {env : Env} {id : ID} {body : Option JSON} {db : Database}

theorem proxyRules_keeps_iff {rule : ProxyRule} {t : Table ProxyRuleRow}
    (hw : ProxyHandler.written codec env id body db.proxyRules = some (rule, t)) :
    Keeps ProxyRuleRow.fixed db.proxyRules t ↔ ¬Wipes codec env id body db .proxy := by
  obtain ⟨hdecode, hruns, -⟩ := written_eq_some.mp hw
  have hset : ∀ row, (ProxyHandler.set codec env.now rule row).fixed = row.fixed ↔
      row.basicAuthHash = some "" := by
    intro row
    simp [ProxyHandler, ProxyRuleRow.fixed, basicAuthHash_of_decode hdecode, eq_comm]
  rw [keeps_iff_of_written hw]
  simp only [hset, Wipes, hdecode, hruns, Option.isSome_some, true_and, not_exists, not_and,
    not_not]
  rfl

theorem storageMounts_keeps_iff {m : StorageMount} {t : Table StorageMountRow}
    (hw : StorageHandler.written codec env id body db.storageMounts = some (m, t)) :
    Keeps StorageMountRow.fixed db.storageMounts t ↔ ¬Wipes codec env id body db .storage := by
  obtain ⟨hdecode, hruns, -⟩ := written_eq_some.mp hw
  have hset : ∀ row, (StorageHandler.set codec env.now m row).fixed = row.fixed ↔
      row.password = some "" := by
    intro row
    simp [StorageHandler, StorageMountRow.fixed, password_of_decode hdecode, eq_comm]
  rw [keeps_iff_of_written hw]
  simp only [hset, Wipes, hdecode, hruns, Option.isSome_some, true_and, not_exists, not_and,
    not_not]
  rfl

/-- An update leaves the secrets alone exactly if it is none of a proxy rule or a storage
mount that has one. -/
theorem secretsKept_iff (m : Module) :
    SecretsKept db (update codec env id body db m).1 ↔ ¬Wipes codec env id body db m := by
  cases m with
  | forward =>
    simp only [update, reportingUpdate_fst, Wipes, not_false_eq_true, iff_true]
    apply secretsKept_of_written ForwardRuleRow.fixed (fun _ _ _ => rfl)
    exact fun x hx => { secretsKept_self db with forwardRules := hx }
  | proxy =>
    simp only [update, reportingUpdate_fst]
    cases hw : ProxyHandler.written codec env id body db.proxyRules with
    | none =>
      refine iff_of_true (secretsKept_self db) ?_
      rintro ⟨hdecode, hruns, -⟩
      exact written_eq_none.mp hw ⟨hdecode, hruns⟩
    | some x =>
      rw [← proxyRules_keeps_iff hw]
      exact ⟨fun h => h.proxyRules, fun h => { secretsKept_self db with proxyRules := h }⟩
  | ddns =>
    simp only [update, reportingUpdate_fst, Wipes, not_false_eq_true, iff_true]
    apply secretsKept_of_written DDNSConfigRow.fixed (fun _ _ _ => rfl)
    exact fun x hx => { secretsKept_self db with ddnsConfigs := hx }
  | stun =>
    simp only [update, droppingUpdate_fst, Wipes, not_false_eq_true, iff_true]
    apply secretsKept_of_written STUNTunnelRow.fixed (fun _ _ _ => rfl)
    exact fun x hx => { secretsKept_self db with stunTunnels := hx }
  | wol =>
    simp only [update, droppingUpdate_fst, Wipes, not_false_eq_true, iff_true]
    apply secretsKept_of_written WOLDeviceRow.fixed (fun _ _ _ => rfl)
    exact fun x hx => { secretsKept_self db with wolDevices := hx }
  | cron =>
    simp only [update, droppingUpdate_fst, Wipes, not_false_eq_true, iff_true]
    apply secretsKept_of_written CronJobRow.fixed (fun _ _ _ => rfl)
    exact fun x hx => { secretsKept_self db with cronJobs := hx }
  | acme =>
    simp only [update, droppingUpdate_fst, Wipes, not_false_eq_true, iff_true]
    apply secretsKept_of_written ACMECertificateRow.fixed (fun _ _ _ => rfl)
    exact fun x hx => { secretsKept_self db with acmeCertificates := hx }
  | storage =>
    simp only [update, droppingUpdate_fst]
    cases hw : StorageHandler.written codec env id body db.storageMounts with
    | none =>
      refine iff_of_true (secretsKept_self db) ?_
      rintro ⟨hdecode, hruns, -⟩
      exact written_eq_none.mp hw ⟨hdecode, hruns⟩
    | some x =>
      rw [← storageMounts_keeps_iff hw]
      exact ⟨fun h => h.storageMounts, fun h => { secretsKept_self db with storageMounts := h }⟩

end

/-! ## A rule gets a new name -/

def plainCodec : Codec := ⟨fun _ => none, fun _ => "[]", fun _ => "{}"⟩

def quietEnv : Env := ⟨7, fun n => String.ofList (Nat.toDigits 10 n), fun _ => false⟩

def newName : JSON := .object [("name", .string "office")]

def guardedRule : ProxyRuleRow :=
  { id := "p", tenantID := "t", ownerID := "o", name := "home", targetURL := "http://a",
    tlsEnabled := false, certID := some "", forceHTTPS := false, http2 := true,
    websocket := false, urlRewrite := some "", basicAuthUser := some "admin",
    basicAuthHash := some "$argon2id$", maxConns := 0, enabled := true, createdAt := 1,
    updatedAt := 1 }

def guardedDatabase : Database :=
  ⟨Table.empty, ⟨[guardedRule], List.nodup_singleton _⟩, Table.empty, Table.empty, Table.empty,
    Table.empty, Table.empty, Table.empty, fun _ => Table.empty⟩

/-- The new name takes the hash away. -/
theorem newName_wipes_hash :
    ¬SecretsKept guardedDatabase
      (update plainCodec quietEnv "p" (some newName) guardedDatabase .proxy).1 := by
  intro h
  have hkept := h.proxyRules
  revert hkept
  unfold Keeps
  decide

end NetBerth.RowUpdates
