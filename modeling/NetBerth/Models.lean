import NetBerth.JSONDecode
import NetBerth.Rules

/-!
# The records of the requests

The bodies of the requests are decoded into these records. Each field has the tag
of its JSON member; two of them, the hash of a proxy rule's basic authentication
and the password of a storage mount, are tagged `-` and have none.
-/
namespace NetBerth.Models
open JSONDecode
open Rules (ACLEntry)

/-- An instant, in nanoseconds. -/
abbrev Time := ℤ

def aclEntryFields : List (TaggedField ACLEntry) :=
  [field "id" string (·.id) fun e v => { e with id := v },
    field "value" string (·.value) fun e v => { e with value := v }]

def acl : Decoder (Option (List ACLEntry)) := slice ⟨"", ""⟩ (struct aclEntryFields)

def strings : Decoder (Option (List String)) := slice "" string

def pairs : Decoder (Option (List (String × String))) := map "" string

structure ForwardRule where
  id : String
  tenantID : String
  ownerID : String
  name : String
  protocol : String
  listenAddr : String
  listenPort : ℤ
  targetAddr : String
  targetPort : ℤ
  enableIPv6 : Bool
  whitelist : Option (List ACLEntry)
  blacklist : Option (List ACLEntry)
  maxConns : ℤ
  enabled : Bool
  scheduleOn : String
  scheduleOff : String
  createdAt : Time
  updatedAt : Time
  deriving DecidableEq, Repr

def ForwardRule.zero : ForwardRule :=
  ⟨"", "", "", "", "", "", 0, "", 0, false, none, none, 0, false, "", "", 0, 0⟩

def ForwardRule.fields (parseTime : String → Option Time) : List (TaggedField ForwardRule) :=
  [field "id" string (·.id) fun r v => { r with id := v },
    field "tenant_id" string (·.tenantID) fun r v => { r with tenantID := v },
    field "owner_id" string (·.ownerID) fun r v => { r with ownerID := v },
    field "name" string (·.name) fun r v => { r with name := v },
    field "protocol" string (·.protocol) fun r v => { r with protocol := v },
    field "listen_addr" string (·.listenAddr) fun r v => { r with listenAddr := v },
    field "listen_port" int (·.listenPort) fun r v => { r with listenPort := v },
    field "target_addr" string (·.targetAddr) fun r v => { r with targetAddr := v },
    field "target_port" int (·.targetPort) fun r v => { r with targetPort := v },
    field "enable_ipv6" bool (·.enableIPv6) fun r v => { r with enableIPv6 := v },
    field "whitelist" acl (·.whitelist) fun r v => { r with whitelist := v },
    field "blacklist" acl (·.blacklist) fun r v => { r with blacklist := v },
    field "max_conns" int (·.maxConns) fun r v => { r with maxConns := v },
    field "enabled" bool (·.enabled) fun r v => { r with enabled := v },
    field "schedule_on" string (·.scheduleOn) fun r v => { r with scheduleOn := v },
    field "schedule_off" string (·.scheduleOff) fun r v => { r with scheduleOff := v },
    field "created_at" (text parseTime) (·.createdAt) fun r v => { r with createdAt := v },
    field "updated_at" (text parseTime) (·.updatedAt) fun r v => { r with updatedAt := v }]

structure ProxyRule where
  id : String
  tenantID : String
  ownerID : String
  name : String
  domains : Option (List String)
  targetURL : String
  tlsEnabled : Bool
  certID : String
  forceHTTPS : Bool
  http2 : Bool
  websocket : Bool
  urlRewrite : String
  basicAuthUser : String
  basicAuthHash : String
  ipWhitelist : Option (List ACLEntry)
  ipBlacklist : Option (List ACLEntry)
  uaWhitelist : Option (List String)
  uaBlacklist : Option (List String)
  enabled : Bool
  maxConns : ℤ
  createdAt : Time
  updatedAt : Time
  deriving DecidableEq, Repr

def ProxyRule.zero : ProxyRule :=
  ⟨"", "", "", "", none, "", false, "", false, false, false, "", "", "", none, none, none, none,
    false, 0, 0, 0⟩

def ProxyRule.fields (parseTime : String → Option Time) : List (TaggedField ProxyRule) :=
  [field "id" string (·.id) fun r v => { r with id := v },
    field "tenant_id" string (·.tenantID) fun r v => { r with tenantID := v },
    field "owner_id" string (·.ownerID) fun r v => { r with ownerID := v },
    field "name" string (·.name) fun r v => { r with name := v },
    field "domains" strings (·.domains) fun r v => { r with domains := v },
    field "target_url" string (·.targetURL) fun r v => { r with targetURL := v },
    field "tls_enabled" bool (·.tlsEnabled) fun r v => { r with tlsEnabled := v },
    field "cert_id" string (·.certID) fun r v => { r with certID := v },
    field "force_https" bool (·.forceHTTPS) fun r v => { r with forceHTTPS := v },
    field "http2" bool (·.http2) fun r v => { r with http2 := v },
    field "websocket" bool (·.websocket) fun r v => { r with websocket := v },
    field "url_rewrite" string (·.urlRewrite) fun r v => { r with urlRewrite := v },
    field "basic_auth_user" string (·.basicAuthUser) fun r v => { r with basicAuthUser := v },
    field "ip_whitelist" acl (·.ipWhitelist) fun r v => { r with ipWhitelist := v },
    field "ip_blacklist" acl (·.ipBlacklist) fun r v => { r with ipBlacklist := v },
    field "ua_whitelist" strings (·.uaWhitelist) fun r v => { r with uaWhitelist := v },
    field "ua_blacklist" strings (·.uaBlacklist) fun r v => { r with uaBlacklist := v },
    field "enabled" bool (·.enabled) fun r v => { r with enabled := v },
    field "max_conns" int (·.maxConns) fun r v => { r with maxConns := v },
    field "created_at" (text parseTime) (·.createdAt) fun r v => { r with createdAt := v },
    field "updated_at" (text parseTime) (·.updatedAt) fun r v => { r with updatedAt := v }]

structure DDNSConfig where
  id : String
  tenantID : String
  name : String
  provider : String
  domain : String
  subDomain : String
  recordType : String
  ttl : ℤ
  credentials : Option (List (String × String))
  getIPURL : String
  getIPType : String
  netInterface : String
  interval : ℤ
  enabled : Bool
  createdAt : Time
  updatedAt : Time
  deriving DecidableEq, Repr

def DDNSConfig.zero : DDNSConfig :=
  ⟨"", "", "", "", "", "", "", 0, none, "", "", "", 0, false, 0, 0⟩

def DDNSConfig.fields (parseTime : String → Option Time) : List (TaggedField DDNSConfig) :=
  [field "id" string (·.id) fun r v => { r with id := v },
    field "tenant_id" string (·.tenantID) fun r v => { r with tenantID := v },
    field "name" string (·.name) fun r v => { r with name := v },
    field "provider" string (·.provider) fun r v => { r with provider := v },
    field "domain" string (·.domain) fun r v => { r with domain := v },
    field "sub_domain" string (·.subDomain) fun r v => { r with subDomain := v },
    field "record_type" string (·.recordType) fun r v => { r with recordType := v },
    field "ttl" int (·.ttl) fun r v => { r with ttl := v },
    field "credentials" pairs (·.credentials) fun r v => { r with credentials := v },
    field "get_ip_url" string (·.getIPURL) fun r v => { r with getIPURL := v },
    field "get_ip_type" string (·.getIPType) fun r v => { r with getIPType := v },
    field "net_interface" string (·.netInterface) fun r v => { r with netInterface := v },
    field "interval" int (·.interval) fun r v => { r with interval := v },
    field "enabled" bool (·.enabled) fun r v => { r with enabled := v },
    field "created_at" (text parseTime) (·.createdAt) fun r v => { r with createdAt := v },
    field "updated_at" (text parseTime) (·.updatedAt) fun r v => { r with updatedAt := v }]

structure STUNTunnel where
  id : String
  tenantID : String
  name : String
  protocol : String
  localPort : ℤ
  remotePort : ℤ
  stunServer : String
  targetAddr : String
  targetPort : ℤ
  enabled : Bool
  createdAt : Time
  updatedAt : Time
  deriving DecidableEq, Repr

def STUNTunnel.zero : STUNTunnel :=
  ⟨"", "", "", "", 0, 0, "", "", 0, false, 0, 0⟩

def STUNTunnel.fields (parseTime : String → Option Time) : List (TaggedField STUNTunnel) :=
  [field "id" string (·.id) fun r v => { r with id := v },
    field "tenant_id" string (·.tenantID) fun r v => { r with tenantID := v },
    field "name" string (·.name) fun r v => { r with name := v },
    field "protocol" string (·.protocol) fun r v => { r with protocol := v },
    field "local_port" int (·.localPort) fun r v => { r with localPort := v },
    field "remote_port" int (·.remotePort) fun r v => { r with remotePort := v },
    field "stun_server" string (·.stunServer) fun r v => { r with stunServer := v },
    field "target_addr" string (·.targetAddr) fun r v => { r with targetAddr := v },
    field "target_port" int (·.targetPort) fun r v => { r with targetPort := v },
    field "enabled" bool (·.enabled) fun r v => { r with enabled := v },
    field "created_at" (text parseTime) (·.createdAt) fun r v => { r with createdAt := v },
    field "updated_at" (text parseTime) (·.updatedAt) fun r v => { r with updatedAt := v }]

structure WOLDevice where
  id : String
  tenantID : String
  name : String
  mac : String
  broadcast : String
  port : ℤ
  platform : String
  platformKey : String
  createdAt : Time
  updatedAt : Time
  deriving DecidableEq, Repr

def WOLDevice.zero : WOLDevice :=
  ⟨"", "", "", "", "", 0, "", "", 0, 0⟩

def WOLDevice.fields (parseTime : String → Option Time) : List (TaggedField WOLDevice) :=
  [field "id" string (·.id) fun r v => { r with id := v },
    field "tenant_id" string (·.tenantID) fun r v => { r with tenantID := v },
    field "name" string (·.name) fun r v => { r with name := v },
    field "mac" string (·.mac) fun r v => { r with mac := v },
    field "broadcast" string (·.broadcast) fun r v => { r with broadcast := v },
    field "port" int (·.port) fun r v => { r with port := v },
    field "platform" string (·.platform) fun r v => { r with platform := v },
    field "platform_key" string (·.platformKey) fun r v => { r with platformKey := v },
    field "created_at" (text parseTime) (·.createdAt) fun r v => { r with createdAt := v },
    field "updated_at" (text parseTime) (·.updatedAt) fun r v => { r with updatedAt := v }]

structure CronJob where
  id : String
  tenantID : String
  name : String
  schedule : String
  type : String
  command : String
  moduleID : String
  moduleType : String
  enabled : Bool
  lastRun : Option Time
  nextRun : Option Time
  createdAt : Time
  updatedAt : Time
  deriving DecidableEq, Repr

def CronJob.zero : CronJob :=
  ⟨"", "", "", "", "", "", "", "", false, none, none, 0, 0⟩

def CronJob.fields (parseTime : String → Option Time) : List (TaggedField CronJob) :=
  [field "id" string (·.id) fun r v => { r with id := v },
    field "tenant_id" string (·.tenantID) fun r v => { r with tenantID := v },
    field "name" string (·.name) fun r v => { r with name := v },
    field "schedule" string (·.schedule) fun r v => { r with schedule := v },
    field "type" string (·.type) fun r v => { r with type := v },
    field "command" string (·.command) fun r v => { r with command := v },
    field "module_id" string (·.moduleID) fun r v => { r with moduleID := v },
    field "module_type" string (·.moduleType) fun r v => { r with moduleType := v },
    field "enabled" bool (·.enabled) fun r v => { r with enabled := v },
    field "last_run" (pointer 0 (text parseTime)) (·.lastRun) fun r v => { r with lastRun := v },
    field "next_run" (pointer 0 (text parseTime)) (·.nextRun) fun r v => { r with nextRun := v },
    field "created_at" (text parseTime) (·.createdAt) fun r v => { r with createdAt := v },
    field "updated_at" (text parseTime) (·.updatedAt) fun r v => { r with updatedAt := v }]

structure ACMECertificate where
  id : String
  tenantID : String
  name : String
  domains : Option (List String)
  provider : String
  dnsProvider : String
  dnsConfig : Option (List (String × String))
  email : String
  autoRenew : Bool
  renewDays : ℤ
  certPath : String
  keyPath : String
  expiresAt : Option Time
  status : String
  error : String
  createdAt : Time
  updatedAt : Time
  deriving DecidableEq, Repr

def ACMECertificate.zero : ACMECertificate :=
  ⟨"", "", "", none, "", "", none, "", false, 0, "", "", none, "", "", 0, 0⟩

def ACMECertificate.fields (parseTime : String → Option Time) :
    List (TaggedField ACMECertificate) :=
  [field "id" string (·.id) fun r v => { r with id := v },
    field "tenant_id" string (·.tenantID) fun r v => { r with tenantID := v },
    field "name" string (·.name) fun r v => { r with name := v },
    field "domains" strings (·.domains) fun r v => { r with domains := v },
    field "provider" string (·.provider) fun r v => { r with provider := v },
    field "dns_provider" string (·.dnsProvider) fun r v => { r with dnsProvider := v },
    field "dns_config" pairs (·.dnsConfig) fun r v => { r with dnsConfig := v },
    field "email" string (·.email) fun r v => { r with email := v },
    field "auto_renew" bool (·.autoRenew) fun r v => { r with autoRenew := v },
    field "renew_days" int (·.renewDays) fun r v => { r with renewDays := v },
    field "cert_path" string (·.certPath) fun r v => { r with certPath := v },
    field "key_path" string (·.keyPath) fun r v => { r with keyPath := v },
    field "expires_at" (pointer 0 (text parseTime)) (·.expiresAt) fun r v =>
      { r with expiresAt := v },
    field "status" string (·.status) fun r v => { r with status := v },
    field "error" string (·.error) fun r v => { r with error := v },
    field "created_at" (text parseTime) (·.createdAt) fun r v => { r with createdAt := v },
    field "updated_at" (text parseTime) (·.updatedAt) fun r v => { r with updatedAt := v }]

structure StorageMount where
  id : String
  tenantID : String
  name : String
  type : String
  source : String
  username : String
  password : String
  services : Option (List String)
  ftpPort : ℤ
  enabled : Bool
  createdAt : Time
  updatedAt : Time
  deriving DecidableEq, Repr

def StorageMount.zero : StorageMount :=
  ⟨"", "", "", "", "", "", "", none, 0, false, 0, 0⟩

def StorageMount.fields (parseTime : String → Option Time) : List (TaggedField StorageMount) :=
  [field "id" string (·.id) fun r v => { r with id := v },
    field "tenant_id" string (·.tenantID) fun r v => { r with tenantID := v },
    field "name" string (·.name) fun r v => { r with name := v },
    field "type" string (·.type) fun r v => { r with type := v },
    field "source" string (·.source) fun r v => { r with source := v },
    field "username" string (·.username) fun r v => { r with username := v },
    field "services" strings (·.services) fun r v => { r with services := v },
    field "ftp_port" int (·.ftpPort) fun r v => { r with ftpPort := v },
    field "enabled" bool (·.enabled) fun r v => { r with enabled := v },
    field "created_at" (text parseTime) (·.createdAt) fun r v => { r with createdAt := v },
    field "updated_at" (text parseTime) (·.updatedAt) fun r v => { r with updatedAt := v }]

end NetBerth.Models
