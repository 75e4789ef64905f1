import Mathlib
import NetBerth.AliyunQuery
import NetBerth.ClientCalls

/-!
# The nine providers

An update asks the API of its provider, once or up to three times, and takes an answer for a
success in one of several ways: by its status, by the first bytes of its body, by a member of a
JSON body, or in any case. Bodies are bytes; JSON is parsed elsewhere. Where the error of
`json.Unmarshal` is dropped, what could be decoded counts.

An answer is what `client.Do` returns, after redirects. That a body could not be read to its end
is an error for one of the nine, and for the others what was read is the body.
-/
namespace NetBerth.DDNSProviders
open AliyunQuery (AliyunRequest Params Ranging aliyunBuildQuery signed utf8)
open ClientCalls JSONDecode
open Models (DDNSConfig)

abbrev Bytes := List UInt8

/-! ## Requests and answers -/

structure Request where
  method : String
  url : Bytes
  headers : List (String × Bytes)
  body : Bytes
  deriving DecidableEq, Repr

/-- The bytes of the body that were read, and the error that ended the reading. -/
structure Response where
  status : ℕ
  body : Bytes
  readError : Option Bytes
  deriving DecidableEq, Repr

/-- Without a response there is the text of an error. -/
abbrev Answer := Except Bytes Response

inductive Failure where
  | err (text : Bytes)
  | panic
  deriving DecidableEq, Repr

abbrev Client (α : Type) := Program Request Answer (Except Failure α)

def fail {α : Type} (text : Bytes) : Client α := .done (.error (.err text))

def succeed {α : Type} (a : α) : Client α := .done (.ok a)

/-- A call; its error is returned as it is. -/
def send {α : Type} (req : Request) (next : Response → Client α) : Client α :=
  .call req fun
    | .error err => fail err
    | .ok resp => next resp

/-- An error with what was being done. -/
def labelled {α : Type} (label : String) (p : Client α) : Client α :=
  p.bind fun
    | .error (.err text) => .done (.error (.err (utf8 label ++ text)))
    | result => .done result

/-- The readings of the clock and of the random source for a request. -/
structure Moment where
  timestamp : String
  date : String
  unix : ℤ
  nonce : ℕ

/-- What an update uses of the standard library and of its engine. -/
structure Library where
  rewriteURL : Bytes → Bytes
  /-- `http.NewRequest` makes a request with this URL. -/
  validURL : Bytes → Bool
  parseJSON : Bytes → Option JSON
  /-- The text of the error of `json.Unmarshal`. -/
  unmarshalError : Bytes → Bytes
  marshal : List (String × JSON) → Bytes
  /-- The text that `json.Marshal` takes bytes for. -/
  validText : Bytes → String
  sha256 : Bytes → Bytes
  hmacSHA256 : Bytes → Bytes → Bytes
  hmacSHA1 : Bytes → Bytes → Bytes
  range : (params : Params) → Ranging params
  moment : ℕ → Moment

def credential (cfg : DDNSConfig) (key : String) : String :=
  ((cfg.credentials.getD []).lookup key).getD ""

/-- A decimal number. -/
def decimal (n : ℤ) : Bytes := utf8 (toString n)

section
variable (lib : Library) (cfg : DDNSConfig) (ip : Bytes)

/-- A request whose error is not looked at: without one its headers are set all the same. -/
def sendRequest {α : Type} (req : Request) (next : Response → Client α) : Client α :=
  if lib.validURL req.url then send req next else .done (.error .panic)

/-- `http.Get`. -/
def get {α : Type} (url : Bytes) (next : Response → Client α) : Client α :=
  send ⟨"GET", lib.rewriteURL url, [], []⟩ next

/-! ## Cloudflare -/

/-- The first position of a text in another. -/
def stringsIndex (s substr : Bytes) : Option ℕ :=
  (List.range (s.length + 1 - substr.length)).find? fun i => (s.drop i).take substr.length = substr

/-- The first ID in a body. -/
def recordIDIn (body : Bytes) : Except Bytes Bytes :=
  match stringsIndex body (utf8 "\"id\":\"") with
  | none => .error (utf8 "record not found in: " ++ body)
  | some idStart =>
    let rest := body.drop (idStart + 6)
    match stringsIndex rest (utf8 "\"") with
    | none => .error (utf8 "malformed response")
    | some idEnd => .ok (rest.take idEnd)

def cloudflareName : Bytes :=
  if cfg.subDomain ≠ "@" then utf8 (cfg.subDomain ++ "." ++ cfg.domain) else utf8 cfg.domain

def cloudflareRecords : Bytes :=
  utf8 ("https://api.cloudflare.com/client/v4/zones/" ++ credential cfg "zone_id" ++ "/dns_records")

def cloudflareLookup : Request where
  method := "GET"
  url := lib.rewriteURL (cloudflareRecords cfg ++ utf8 "?type=A&name=" ++ cloudflareName cfg)
  headers := [("Authorization", utf8 ("Bearer " ++ credential cfg "api_token"))]
  body := []

def cloudflareGetRecordID : Client Bytes :=
  sendRequest lib (cloudflareLookup lib cfg) fun resp =>
    match recordIDIn resp.body with
    | .error text => fail text
    | .ok id => succeed id

def cloudflareBody : Bytes :=
  utf8 ("\x7b\"type\":\"" ++ cfg.recordType ++ "\",\"name\":\"" ++ cfg.subDomain ++ "." ++
    cfg.domain ++ "\",\"content\":\"") ++ ip ++ utf8 "\",\"ttl\":" ++ decimal cfg.ttl ++
    utf8 ",\"proxied\":false\x7d"

def cloudflarePut (recordID : Bytes) : Request where
  method := "PUT"
  url := lib.rewriteURL (cloudflareRecords cfg ++ utf8 "/" ++ recordID)
  headers := [("Authorization", utf8 ("Bearer " ++ credential cfg "api_token")),
    ("Content-Type", utf8 "application/json")]
  body := cloudflareBody cfg ip

def updateCloudflare : Client Unit :=
  if credential cfg "api_token" = "" ∨ credential cfg "zone_id" = "" then
    fail (utf8 "missing cloudflare credentials: api_token, zone_id")
  else
    (labelled "get record: " (cloudflareGetRecordID lib cfg)).andThen fun recordID =>
      sendRequest lib (cloudflarePut lib cfg ip recordID) fun resp =>
        if resp.status ≥ 400 then
          fail (utf8 ("cloudflare API error " ++ toString resp.status ++ ": ") ++ resp.body)
        else succeed ()

/-! ## Aliyun -/

/-- The record IDs of an answer to the lookup. -/
def aliyunRecords : Decoder (Option (List String)) :=
  let record : Decoder String := struct [field "RecordId" string id fun _ v => v]
  struct [field "DomainRecords"
    (struct [field "Record" (slice "" record) id fun _ v => v]) id fun _ v => v]

/-- What there is of a text in a member, whatever is wrong with the rest. -/
def stringLeft : JSON → String → String
  | .string s, _ => s
  | _, old => old

/-- What is left of a record whose decoding goes on after an error. -/
def structLeft {ρ : Type} (fields : List (String × (JSON → ρ → ρ))) : JSON → ρ → ρ
  | .object members, old =>
    members.foldl (fun r m =>
      match (fields.find? fun f => f.1 = m.1).orElse fun _ =>
          fields.find? fun f => foldName f.1 = foldName m.1 with
      | none => r
      | some f => f.2 m.2 r) old
  | _, old => old

def createdRecordID (body : Bytes) : String :=
  match lib.parseJSON body with
  | none => ""
  | some j => structLeft [("RecordId", stringLeft)] j ""

def aliyunSigned (i : ℕ) (req : AliyunRequest) : Params :=
  let params := req.params cfg (credential cfg "access_key_id") (lib.moment i).timestamp
    (lib.moment i).nonce
  signed lib.hmacSHA1 params (lib.range params) (utf8 (credential cfg "access_key_secret"))

/-- The URL of the `i`-th request. -/
def aliyunURL (i : ℕ) (req : AliyunRequest) : Bytes :=
  let params := aliyunSigned lib cfg i req
  utf8 "https://alidns.aliyuncs.com/?" ++ aliyunBuildQuery params (lib.range params)

def aliyunCreateRecord (i : ℕ) : Client String :=
  get lib (aliyunURL lib cfg i .create) fun resp =>
    let recordID := createdRecordID lib resp.body
    if recordID = "" then fail (utf8 "failed to create aliyun record: " ++ resp.body)
    else succeed recordID

/-- The record found or created, with the number of the next request. -/
def aliyunGetRecord : Client (String × ℕ) :=
  get lib (aliyunURL lib cfg 0 .describe) fun resp =>
    match (lib.parseJSON resp.body).bind fun j => aliyunRecords j none with
    | none => fail (utf8 "parse aliyun response: " ++ lib.unmarshalError resp.body)
    | some records =>
      match records.getD [] with
      | [] => (aliyunCreateRecord lib cfg 1).andThen fun recordID => succeed (recordID, 2)
      | recordID :: _ => succeed (recordID, 1)

def aliyunUpdateRecord (i : ℕ) (recordID : String) : Client Unit :=
  get lib (aliyunURL lib cfg i (.update recordID ip)) fun resp =>
    if resp.status ≥ 400 then fail (utf8 "aliyun update failed: " ++ resp.body) else succeed ()

def updateAliyun : Client Unit :=
  if credential cfg "access_key_id" = "" ∨ credential cfg "access_key_secret" = "" then
    fail (utf8 "missing aliyun credentials: access_key_id, access_key_secret")
  else
    (labelled "aliyun get record: " (aliyunGetRecord lib cfg)).andThen fun found =>
      aliyunUpdateRecord lib cfg ip found.2 found.1

/-! ## DNSPod -/

/-- The records of an answer to the lookup, with their values. -/
def dnspodRecords : Decoder (Option (List (ℤ × String))) :=
  let record : Decoder (ℤ × String) :=
    struct [field "RecordId" int Prod.fst fun r v => (v, r.2),
      field "Value" string Prod.snd fun r v => (r.1, v)]
  struct [field "Response"
    (struct [field "RecordList" (slice (0, "") record) id fun _ v => v]) id fun _ v => v]

/-- The code and the message of the error in a body. -/
def dnspodError (body : Bytes) : String × String :=
  match lib.parseJSON body with
  | none => ("", "")
  | some j =>
    structLeft [("Response", structLeft [("Error", structLeft
      [("Code", fun j e => (stringLeft j e.1, e.2)),
        ("Message", fun j e => (e.1, stringLeft j e.2))])])] j ("", "")

def dnspodHost : String := "dnspod.tencentcloudapi.com"

def hex (bytes : Bytes) : Bytes :=
  utf8 (String.ofList (bytes.flatMap fun b =>
    [(b.toNat / 16).digitChar, (b.toNat % 16).digitChar]))

/-- The header `Authorization`. -/
def dnspodAuthorization (now : Moment) (body : Bytes) : Bytes :=
  let canonicalReq := utf8 ("POST\n/\n\ncontent-type:application/json\nhost:" ++ dnspodHost ++
    "\n\ncontent-type;host\n") ++ hex (lib.sha256 body)
  let credentialScope := now.date ++ "/dnspod/tc3_request"
  let strToSign := utf8 ("TC3-HMAC-SHA256\n" ++ toString now.unix ++ "\n" ++ credentialScope ++
    "\n") ++ hex (lib.sha256 canonicalReq)
  let secretDate := lib.hmacSHA256 (utf8 ("TC3" ++ credential cfg "secret_key")) (utf8 now.date)
  let secretService := lib.hmacSHA256 secretDate (utf8 "dnspod")
  let secretSigning := lib.hmacSHA256 secretService (utf8 "tc3_request")
  utf8 ("TC3-HMAC-SHA256 Credential=" ++ credential cfg "secret_id" ++ "/" ++ credentialScope ++
    ", SignedHeaders=content-type;host, Signature=") ++ hex (lib.hmacSHA256 secretSigning strToSign)

def dnspodRequest (i : ℕ) (action : String) (payload : List (String × JSON)) : Request :=
  let body := lib.marshal payload
  { method := "POST"
    url := lib.rewriteURL (utf8 ("https://" ++ dnspodHost ++ "/"))
    headers := [("Content-Type", utf8 "application/json"), ("Host", utf8 dnspodHost),
      ("X-TC-Action", utf8 action), ("X-TC-Version", utf8 "2021-03-23"),
      ("X-TC-Timestamp", decimal (lib.moment i).unix),
      ("Authorization", dnspodAuthorization lib cfg (lib.moment i) body)]
    body := body }

def dnspodCall {α : Type} (i : ℕ) (action : String) (payload : List (String × JSON))
    (next : Bytes → Client α) : Client α :=
  sendRequest lib (dnspodRequest lib cfg i action payload) fun resp =>
    match resp.readError with
    | some err => fail err
    | none => next resp.body

/-- The ID of the first record, or zero. -/
def dnspodGetRecord : Client ℤ :=
  dnspodCall lib cfg 0 "DescribeRecordList"
    [("Domain", .string cfg.domain), ("Subdomain", .string cfg.subDomain),
      ("RecordType", .string cfg.recordType)] fun body =>
    match (lib.parseJSON body).bind fun j => dnspodRecords j none with
    | none => fail (utf8 "parse dnspod response: " ++ lib.unmarshalError body)
    | some records => succeed ((records.getD []).head?.elim 0 Prod.fst)

/-- What a record is created or modified with. -/
def dnspodPayload (value : String) : List (String × JSON) :=
  [("Domain", .string cfg.domain), ("SubDomain", .string cfg.subDomain),
    ("RecordType", .string cfg.recordType), ("RecordLine", .string "默认"),
    ("Value", .string value), ("TTL", .number (some cfg.ttl))]

def dnspodCreateRecord : Client Unit :=
  dnspodCall lib cfg 1 "CreateRecord" (dnspodPayload cfg (lib.validText ip)) fun body =>
    if (dnspodError lib body).1 ≠ "" then
      fail (utf8 ("dnspod create error: " ++ (dnspodError lib body).2))
    else succeed ()

def dnspodUpdateRecord (recordID : ℤ) : Client Unit :=
  dnspodCall lib cfg 1 "ModifyRecord"
    (dnspodPayload cfg (lib.validText ip) ++ [("RecordId", .number (some recordID))]) fun body =>
    if (dnspodError lib body).1 ≠ "" then fail (utf8 "dnspod update failed") else succeed ()

def updateDNSPod : Client Unit :=
  if credential cfg "secret_id" = "" ∨ credential cfg "secret_key" = "" then
    fail (utf8 "missing dnspod credentials: secret_id, secret_key")
  else
    (labelled "dnspod get record: " (dnspodGetRecord lib cfg)).andThen fun recordID =>
      if recordID = 0 then dnspodCreateRecord lib cfg ip
      else dnspodUpdateRecord lib cfg ip recordID

/-! ## The others -/

def godaddyPut : Request where
  method := "PUT"
  url := lib.rewriteURL (utf8 ("https://api.godaddy.com/v1/domains/" ++ cfg.domain ++ "/records/" ++
    cfg.recordType ++ "/" ++ cfg.subDomain))
  headers := [("Authorization",
      utf8 ("sso-key " ++ credential cfg "api_key" ++ ":" ++ credential cfg "api_secret")),
    ("Content-Type", utf8 "application/json")]
  body := utf8 "[\x7b\"data\":\"" ++ ip ++ utf8 "\",\"ttl\":" ++ decimal cfg.ttl ++ utf8 "\x7d]"

def godaddyUpdate : Client Unit :=
  if credential cfg "api_key" = "" ∨ credential cfg "api_secret" = "" then
    fail (utf8 "godaddy: need api_key and api_secret")
  else
    sendRequest lib (godaddyPut lib cfg ip) fun resp =>
      if resp.status ≥ 400 then fail (utf8 ("godaddy API: " ++ toString resp.status))
      else succeed ()

/-- The answer is a success if it begins with one of these texts. -/
def expectPrefix (label : String) (prefixes : List String) (resp : Response) : Client Unit :=
  if prefixes.any fun p => (utf8 p).isPrefixOf resp.body then succeed ()
  else fail (utf8 label ++ resp.body)

def duckdnsURL : Bytes :=
  let domains := if cfg.subDomain = "@" then cfg.domain else cfg.subDomain
  utf8 ("https://www.duckdns.org/update?domains=" ++ domains ++ "&token=" ++
    credential cfg "token" ++ "&ip=") ++ ip

def duckdnsUpdate : Client Unit :=
  if credential cfg "token" = "" then fail (utf8 "duckdns: need token")
  else get lib (duckdnsURL cfg ip) (expectPrefix "duckdns: " ["OK"])

/-- The sub-domain with its domain; the domain itself for the apex. -/
def hostname : String :=
  if cfg.subDomain = "@" then cfg.domain else cfg.subDomain ++ "." ++ cfg.domain

def noipGet : Request where
  method := "GET"
  url := lib.rewriteURL (utf8 ("https://dynupdate.no-ip.com/nic/update?hostname=" ++ hostname cfg ++
    "&myip=") ++ ip)
  headers := [("Authorization", utf8 "Basic " ++ AliyunQuery.encodeToString
      (utf8 (credential cfg "username" ++ ":" ++ credential cfg "password"))),
    ("User-Agent", utf8 "NetBerth/0.1")]
  body := []

def noipUpdate : Client Unit :=
  if credential cfg "username" = "" ∨ credential cfg "password" = "" then
    fail (utf8 "noip: need username and password")
  else sendRequest lib (noipGet lib cfg ip) (expectPrefix "noip: " ["good ", "nochg "])

def dynv6URL : Bytes :=
  utf8 ("https://dynv6.com/api/update?zone=" ++ hostname cfg ++ "&token=" ++
    credential cfg "token" ++ "&ipv4=") ++ ip

def dynv6Update : Client Unit :=
  if credential cfg "token" = "" then fail (utf8 "dynv6: need token")
  else
    get lib (dynv6URL cfg ip)
      (expectPrefix "dynv6: " ["addresses updated", "addresses unchanged"])

def namecheapURL : Bytes :=
  let host := if cfg.subDomain = "@" then "" else cfg.subDomain
  utf8 ("https://dynamicdns.park-your-domain.com/update?host=" ++ host ++ "&domain=" ++
    cfg.domain ++ "&password=" ++ credential cfg "password" ++ "&ip=") ++ ip

def namecheapUpdate : Client Unit :=
  if credential cfg "password" = "" then
    fail (utf8 "namecheap: need password (Dynamic DNS Password from dashboard)")
  else get lib (namecheapURL cfg ip) fun _ => succeed ()

/-- The address is not in it. -/
def cloudnsURL : Bytes :=
  let authID := credential cfg "auth_id"
  let query :=
    if credential cfg "sub_auth_id" ≠ "" then credential cfg "sub_auth_id"
    else authID ++ "&auth-id=" ++ authID ++ "&auth-password=" ++ credential cfg "auth_password"
  utf8 ("https://ipv4.cloudns.net/api/dynamicURL/?q=" ++ query)

def cloudnsUpdate : Client Unit :=
  if credential cfg "auth_id" = "" then fail (utf8 "cloudns: need auth_id or sub_auth_id")
  else get lib (cloudnsURL cfg) fun _ => succeed ()

/-! ## The switch -/

inductive Provider where
  | cloudflare
  | aliyun
  | dnspod
  | godaddy
  | duckdns
  | noip
  | dynv6
  | namecheap
  | cloudns
  deriving DecidableEq, Repr

def providerOf (name : String) : Option Provider :=
  [("cloudflare", Provider.cloudflare), ("aliyun", .aliyun), ("dnspod", .dnspod),
    ("tencent", .dnspod), ("godaddy", .godaddy), ("duckdns", .duckdns), ("noip", .noip),
    ("dynv6", .dynv6), ("namecheap", .namecheap), ("cloudns", .cloudns)].lookup name

def Provider.update : Provider → Client Unit
  | cloudflare => updateCloudflare lib cfg ip
  | aliyun => updateAliyun lib cfg ip
  | dnspod => updateDNSPod lib cfg ip
  | godaddy => godaddyUpdate lib cfg ip
  | duckdns => duckdnsUpdate lib cfg ip
  | noip => noipUpdate lib cfg ip
  | dynv6 => dynv6Update lib cfg ip
  | namecheap => namecheapUpdate lib cfg ip
  | cloudns => cloudnsUpdate lib cfg

def updateDNS : Client Unit :=
  match providerOf cfg.provider with
  | some provider => provider.update lib cfg ip
  | none => fail (utf8 ("unsupported provider: " ++ cfg.provider))

end

end NetBerth.DDNSProviders
