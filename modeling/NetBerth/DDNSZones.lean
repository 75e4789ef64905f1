import NetBerth.DDNSProviders
import NetBerth.SqlTable

/-!
# The record that is written

An update looks a record up and then writes to the one it found. At Cloudflare the lookup asks for
records of type A whatever type is configured, and names the apex by the domain where the write
puts an `@` before it. At Aliyun the lookup asks for every host record that has the sub-domain in
it, and the first of them is written to.

What a service reads in a request is an argument. Of a query that is escaped it is the query. A
text that is put into a path or a body as it is reads as itself if it has no sign with a meaning
there, and one that is put into a query is unescaped. With a control character in it a request is
not sent. Of other texts nothing is known.
-/
namespace NetBerth.DDNSZones
open AliyunQuery (AliyunRequest Params aliyunBuildQuery decode rr signatureKey utf8)
open ClientCalls ClientCalls.Program DDNSProviders JSONDecode SqlTable
open Models (DDNSConfig)

/-! ## Zones -/

/-- A record before and after it is modified. -/
structure Write (ρ : Type) where
  before : ρ
  after : ρ

/-- The records of a zone, and what was modified so far. -/
structure Zone (ρ : Type) {κ : Type} [Keyed ρ κ] where
  records : Table ρ
  writes : List (Write ρ)

section
variable {ρ κ : Type} [Keyed ρ κ]

/-- `none` if there is no such record. -/
def Zone.modify [DecidableEq κ] (z : Zone ρ) (id : κ) (f : ρ → ρ)
    (hf : ∀ r, Keyed.key (f r) = Keyed.key r) : Option (Zone ρ) :=
  (z.records.select id).map fun r =>
    ⟨z.records.update (fun s => Keyed.key s = id) f hf, z.writes ++ [⟨r, f r⟩]⟩

/-- Only a record that is configured is modified, and it stays one; all others stay as they are. -/
def OnTarget (configured : ρ → Prop) (records : Table ρ) (z : Zone ρ) : Prop :=
  (∀ w ∈ z.writes, configured w.before ∧ configured w.after) ∧
    ∀ r ∈ records.rows, ¬configured r → r ∈ z.records.rows

variable {configured : ρ → Prop} {records : Table ρ}

theorem onTarget_unmodified : OnTarget configured records ⟨records, []⟩ :=
  ⟨by simp, fun _ hr _ => hr⟩

/-- After one write it comes down to the record and what it became. -/
theorem onTarget_modify_iff [DecidableEq κ] {z z' : Zone ρ} {id : κ} {f : ρ → ρ}
    {hf : ∀ r, Keyed.key (f r) = Keyed.key r} {target : ρ} (hwrites : z.writes = [])
    (hrecords : ∀ r ∈ records.rows, r ∈ z.records.rows)
    (htarget : z.records.select id = some target) (hmodify : z.modify id f hf = some z') :
    OnTarget configured records z' ↔ configured target ∧ configured (f target) := by
  rw [Zone.modify, htarget, Option.map_some, Option.some.injEq] at hmodify
  subst hmodify
  unfold OnTarget
  rw [hwrites]
  simp only [List.nil_append, List.mem_singleton, forall_eq]
  apply and_iff_left_of_imp
  rintro ⟨hbefore, -⟩ r hr hother
  obtain ⟨hmem, hkey⟩ := Table.select_eq_some.mp htarget
  rw [Table.mem_update]
  refine ⟨r, hrecords r hr, if_neg ?_⟩
  rw [decide_eq_true_iff]
  intro hid
  rw [Table.eq_of_key (hrecords r hr) hmem (hid.trans hkey.symm)] at hother
  exact hother hbefore

end

/-- Where a lookup fails, what follows it is not run. -/
theorem run_lookup {σ α β : Type} {serve : σ → Request → Answer × σ} {label : String}
    (p : Client α) (f : α → Client β) (s : σ) :
    (((labelled label p).andThen f).run serve s).2 =
      match (p.run serve s).1.toOption with
      | none => (p.run serve s).2
      | some a => ((f a).run serve (p.run serve s).2).2 := by
  rw [andThen, run_bind, labelled, run_bind]
  rcases p.run serve s with ⟨(text | _) | a, t⟩ <;> rfl

/-! ## Cloudflare -/

/-- Letters, digits, and signs that mean nothing in a path or in a JSON string. -/
def Plain (text : Bytes) : Prop :=
  ∀ b ∈ text, URLQuery.unreserved b = true ∨ b = 0x3a ∨ b = 0x40

/-- The signs of a value in a query, those of an escape and those that are not ASCII included. -/
def QueryText (text : Bytes) : Prop :=
  ∀ b ∈ text, URLQuery.unreserved b = true ∨ 0x80 ≤ b ∨ b ∈ [0x21, 0x24, 0x25, 0x27, 0x28, 0x29,
    0x2a, 0x2b, 0x2c, 0x2f, 0x3a, 0x3d, 0x3f, 0x40]

/-- Signs that stand for themselves in a JSON string. -/
def StringText (text : Bytes) : Prop := ∀ b ∈ text, 0x20 ≤ b ∧ b ≠ 0x22 ∧ b ≠ 0x5c

def controlByte (b : UInt8) : Bool := b < 0x20 || b = 0x7f

/-- What `net/http` sends in a header. -/
def HeaderText (text : Bytes) : Prop := ∀ b ∈ text, controlByte b = false ∨ b = 0x09

instance decidablePlain (text : Bytes) : Decidable (Plain text) := List.decidableBAll _ text

instance decidableQueryText (text : Bytes) : Decidable (QueryText text) :=
  List.decidableBAll _ text

instance decidableStringText (text : Bytes) : Decidable (StringText text) :=
  List.decidableBAll _ text

instance decidableHeaderText (text : Bytes) : Decidable (HeaderText text) :=
  List.decidableBAll _ text

structure CloudflareRecord where
  id : Bytes
  type : Bytes
  name : Bytes
  content : Bytes
  plainID : Plain id

instance keyedCloudflare : Keyed CloudflareRecord Bytes := ⟨CloudflareRecord.id⟩

/-- What a `PUT` asks a record to be. -/
structure CloudflarePut where
  id : Bytes
  type : Bytes
  name : Bytes
  content : Bytes
  deriving DecidableEq, Repr

/-- The name in the body of an update. -/
def writtenName (cfg : DDNSConfig) : Bytes := utf8 (cfg.subDomain ++ "." ++ cfg.domain)

theorem writtenName_eq_iff (cfg : DDNSConfig) :
    writtenName cfg = cloudflareName cfg ↔ cfg.subDomain ≠ "@" := by
  unfold writtenName cloudflareName
  split_ifs with hsub
  · exact iff_of_true rfl hsub
  · refine iff_of_false ?_ hsub
    rw [not_not.mp hsub, AliyunQuery.utf8_injective.eq_iff]
    intro heq
    have hlength := congrArg String.length heq
    simp at hlength

/-- The lookup can be read, and asks for this name. -/
structure Asks (cfg : DDNSConfig) (asked : Bytes) : Prop where
  apiToken : HeaderText (utf8 (credential cfg "api_token"))
  zoneID : Plain (utf8 (credential cfg "zone_id"))
  name : QueryText (cloudflareName cfg)
  unescaped : URLQuery.queryUnescape (cloudflareName cfg) = some asked

/-- The lookup and the body of the update can be read. -/
structure Readable (cfg : DDNSConfig) (ip asked : Bytes) : Prop extends Asks cfg asked where
  recordType : StringText (utf8 cfg.recordType)
  written : StringText (writtenName cfg)
  content : StringText ip
  ascii : ∀ b ∈ ip, b < 0x80

/-- No request is sent. -/
def Unsent (cfg : DDNSConfig) : Prop :=
  credential cfg "api_token" = "" ∨ credential cfg "zone_id" = "" ∨
    (∃ b ∈ utf8 (credential cfg "zone_id") ++ cloudflareName cfg, controlByte b = true) ∨
    ¬HeaderText (utf8 (credential cfg "api_token"))

/-- What becomes of requests: the type and the name a lookup asks for, and the record a `PUT` is
for with what it is to be; `none` is a request that is refused or cannot be sent. -/
structure CloudflareService (lib : Library) where
  lookupOf : Request → Option (Bytes × Bytes)
  putOf : Request → Option CloudflarePut
  answer : List CloudflareRecord → Bytes
  /-- The first ID in an answer is that of the first record. -/
  recordIDIn_answer : ∀ records,
    (recordIDIn (answer records)).toOption = records.head?.map CloudflareRecord.id
  lookup_asks : ∀ cfg asked, Asks cfg asked →
    lib.validURL (cloudflareLookup lib cfg).url = true ∧
      lookupOf (cloudflareLookup lib cfg) = some (utf8 "A", asked)
  put_readable : ∀ cfg ip asked id, Readable cfg ip asked → Plain id →
    lib.validURL (cloudflarePut lib cfg ip id).url = true ∧
      putOf (cloudflarePut lib cfg ip id) = some ⟨id, utf8 cfg.recordType, writtenName cfg, ip⟩
  /-- `http.NewRequest` takes no control character in a URL, and `client.Do` none in a header. -/
  url_control : ∀ cfg,
    (∃ b ∈ utf8 (credential cfg "zone_id") ++ cloudflareName cfg, controlByte b = true) →
      lib.validURL (cloudflareLookup lib cfg).url = false
  header_control : ∀ cfg, ¬HeaderText (utf8 (credential cfg "api_token")) →
    lookupOf (cloudflareLookup lib cfg) = none

def refuse (status : ℕ) : Answer := .ok ⟨status, [], none⟩

/-- The record takes over all but its ID. -/
def overwrite (put : CloudflarePut) (r : CloudflareRecord) : CloudflareRecord :=
  { r with type := put.type, name := put.name, content := put.content }

theorem key_overwrite (put : CloudflarePut) (r : CloudflareRecord) :
    Keyed.key (overwrite put r) = Keyed.key r := rfl

def matching (records : Table CloudflareRecord) (asked : Bytes × Bytes) : List CloudflareRecord :=
  records.selectWhere fun r => r.type = asked.1 ∧ r.name = asked.2

/-- A record of the configured name and type. -/
def isConfigured (cfg : DDNSConfig) (r : CloudflareRecord) : Prop :=
  r.name = cloudflareName cfg ∧ r.type = utf8 cfg.recordType

namespace CloudflareService
variable {lib : Library} (svc : CloudflareService lib) (cfg : DDNSConfig) (ip : Bytes)

def serve (z : Zone CloudflareRecord) (req : Request) : Answer × Zone CloudflareRecord :=
  if req.method = "GET" then
    match svc.lookupOf req with
    | none => (refuse 400, z)
    | some asked => (.ok ⟨200, svc.answer (matching z.records asked), none⟩, z)
  else
    match svc.putOf req with
    | none => (refuse 400, z)
    | some put =>
      match z.modify put.id (overwrite put) (key_overwrite put) with
      | none => (refuse 404, z)
      | some z' => (.ok ⟨200, [], none⟩, z')

/-- The zone after an update. -/
def updated (records : Table CloudflareRecord) : Zone CloudflareRecord :=
  ((updateCloudflare lib cfg ip).run svc.serve ⟨records, []⟩).2

/-- What is put, if the update gets as far. -/
def planned (records : Table CloudflareRecord) : Option CloudflarePut :=
  if credential cfg "api_token" = "" ∨ credential cfg "zone_id" = "" then none
  else if lib.validURL (cloudflareLookup lib cfg).url then do
    let asked ← svc.lookupOf (cloudflareLookup lib cfg)
    let found ← (matching records asked).head?
    if lib.validURL (cloudflarePut lib cfg ip found.id).url then
      svc.putOf (cloudflarePut lib cfg ip found.id)
    else none
  else none

theorem run_getRecordID {z : Zone CloudflareRecord}
    (hvalid : lib.validURL (cloudflareLookup lib cfg).url = true) :
    ((cloudflareGetRecordID lib cfg).run svc.serve z).2 = z ∧
      ((cloudflareGetRecordID lib cfg).run svc.serve z).1.toOption =
        ((svc.lookupOf (cloudflareLookup lib cfg)).bind fun asked =>
          (matching z.records asked).head?).map CloudflareRecord.id := by
  have hget : (cloudflareLookup lib cfg).method = "GET" := rfl
  rw [cloudflareGetRecordID, sendRequest, if_pos hvalid, send, run, serve, if_pos hget]
  cases svc.lookupOf (cloudflareLookup lib cfg) with
  | none => exact ⟨rfl, rfl⟩
  | some asked =>
    rw [Option.bind_some, ← svc.recordIDIn_answer]
    cases hid : recordIDIn (svc.answer (matching z.records asked)) <;>
      simp [hid, fail, succeed, run, Except.toOption]

theorem run_put {z : Zone CloudflareRecord} (id : Bytes) :
    ((sendRequest lib (cloudflarePut lib cfg ip id) fun resp =>
      if resp.status ≥ 400 then
        fail (utf8 ("cloudflare API error " ++ toString resp.status ++ ": ") ++ resp.body)
      else succeed ()).run svc.serve z).2 =
    if lib.validURL (cloudflarePut lib cfg ip id).url then
      ((svc.putOf (cloudflarePut lib cfg ip id)).bind fun put =>
        z.modify put.id (overwrite put) (key_overwrite put)).getD z
    else z := by
  have hput : (cloudflarePut lib cfg ip id).method ≠ "GET" := by simp [cloudflarePut]
  rw [sendRequest]
  split_ifs with hvalid
  · rw [send, run, serve, if_neg hput]
    cases svc.putOf (cloudflarePut lib cfg ip id) with
    | none => rfl
    | some put =>
      cases hmodify : z.modify put.id (overwrite put) (key_overwrite put) <;>
        simp [hmodify, refuse, succeed, fail, run]
  · rfl

theorem updated_eq (records : Table CloudflareRecord) :
    svc.updated cfg ip records =
      ((svc.planned cfg ip records).bind fun put =>
        (Zone.mk records []).modify put.id (overwrite put) (key_overwrite put)).getD ⟨records, []⟩ := by
  unfold updated planned updateCloudflare
  split_ifs with hmissing hvalid
  · rfl
  · obtain ⟨hzone, hid⟩ := svc.run_getRecordID cfg (z := ⟨records, []⟩) hvalid
    rw [run_lookup, hzone, hid]
    cases svc.lookupOf (cloudflareLookup lib cfg) with
    | none => rfl
    | some asked =>
      simp only [Option.bind_some, Option.bind_eq_bind]
      cases (matching records asked).head? with
      | none => rfl
      | some found =>
        simp only [Option.map_some, Option.bind_some]
        rw [run_put]
        split_ifs <;> rfl
  · have hpanic : (cloudflareGetRecordID lib cfg).run svc.serve ⟨records, []⟩ =
        (.error .panic, ⟨records, []⟩) := by
      rw [cloudflareGetRecordID, sendRequest, if_neg hvalid, run]
    rw [run_lookup, hpanic]
    rfl

/-- An update writes to the configured record only, if what it puts names one and leaves it one. -/
theorem onTarget_iff_planned (records : Table CloudflareRecord) :
    OnTarget (isConfigured cfg) records (svc.updated cfg ip records) ↔
      ∀ put ∈ svc.planned cfg ip records, ∀ r ∈ records.select put.id,
        isConfigured cfg r ∧ isConfigured cfg (overwrite put r) := by
  rw [updated_eq]
  cases svc.planned cfg ip records with
  | none => simpa using onTarget_unmodified
  | some put =>
    rw [Option.bind_some]
    simp only [Option.mem_some, forall_eq']
    cases hselect : records.select put.id with
    | none => simpa [Zone.modify, hselect] using onTarget_unmodified
    | some r =>
      simp only [Option.mem_some, forall_eq']
      apply @onTarget_modify_iff _ _ _ _ _ _ ⟨records, []⟩ _ put.id _ (key_overwrite put) _ rfl
        (fun _ hr => hr) hselect
      simp [Zone.modify, hselect]

variable {cfg ip}

theorem planned_unsent {records : Table CloudflareRecord} (h : Unsent cfg) :
    svc.planned cfg ip records = none := by
  unfold planned
  split_ifs with hmissing hvalid
  · rfl
  · rcases h with h | h | h | h
    · exact absurd (.inl h) hmissing
    · exact absurd (.inr h) hmissing
    · rw [svc.url_control cfg h] at hvalid
      cases hvalid
    · rw [svc.header_control cfg h]
      rfl
  · rfl

theorem planned_unmatched {records : Table CloudflareRecord} {asked : Bytes} (h : Asks cfg asked)
    (hnone : matching records (utf8 "A", asked) = []) : svc.planned cfg ip records = none := by
  obtain ⟨hvalid, hasked⟩ := svc.lookup_asks cfg asked h
  rw [planned, if_pos hvalid, hasked]
  simp [hnone]

/-- Where the requests can be read, it is asked for type A, and for the apex by another name. -/
theorem planned_readable {records : Table CloudflareRecord} {asked : Bytes}
    (h : Readable cfg ip asked)
    (hcredentials : credential cfg "api_token" ≠ "" ∧ credential cfg "zone_id" ≠ "") :
    svc.planned cfg ip records =
      (matching records (utf8 "A", asked)).head?.map fun r =>
        ⟨r.id, utf8 cfg.recordType, writtenName cfg, ip⟩ := by
  obtain ⟨hvalid, hasked⟩ := svc.lookup_asks cfg asked h.toAsks
  rw [planned, if_neg (by simp [hcredentials]), if_pos hvalid, hasked]
  simp only [Option.bind_eq_bind, Option.bind_some]
  cases (matching records (utf8 "A", asked)).head? with
  | none => rfl
  | some r =>
    obtain ⟨hvalid', hput⟩ := svc.put_readable cfg ip asked r.id h r.plainID
    rw [Option.bind_some, if_pos hvalid', hput, Option.map_some]

/-- Of the requests that can be read, those go wrong that find a record, unless they are for the
type A and not for the apex, and have no escapes. -/
theorem onTarget_iff_readable {records : Table CloudflareRecord} {asked : Bytes}
    (h : Readable cfg ip asked) :
    OnTarget (isConfigured cfg) records (svc.updated cfg ip records) ↔
      credential cfg "api_token" = "" ∨ credential cfg "zone_id" = "" ∨
        matching records (utf8 "A", asked) = [] ∨
        cfg.recordType = "A" ∧ cfg.subDomain ≠ "@" ∧ asked = cloudflareName cfg := by
  rw [onTarget_iff_planned]
  by_cases hcredentials : credential cfg "api_token" ≠ "" ∧ credential cfg "zone_id" ≠ ""
  · rw [svc.planned_readable h hcredentials]
    simp only [hcredentials.1, hcredentials.2, false_or]
    cases hmatching : matching records (utf8 "A", asked) with
    | nil => simp
    | cons r rest =>
      have hr : r ∈ matching records (utf8 "A", asked) := by simp [hmatching]
      obtain ⟨hmem, hmatch⟩ := Table.mem_selectWhere.mp hr
      obtain ⟨htype, hname⟩ := of_decide_eq_true hmatch
      have hselect : records.select r.id = some r := Table.select_eq_some.mpr ⟨hmem, rfl⟩
      simp only [List.head?_cons, Option.map_some, Option.mem_some, forall_eq', hselect]
      simp only [isConfigured, overwrite, htype, hname, writtenName_eq_iff, reduceCtorEq,
        false_or, and_true]
      rw [AliyunQuery.utf8_injective.eq_iff]
      tauto
  · have hmissing : svc.planned cfg ip records = none := by
      rw [planned, if_pos (by tauto)]
    rw [hmissing]
    simp only [Option.mem_def, reduceCtorEq, false_imp_iff, implies_true, true_iff]
    tauto

/-- Of any others, those do no harm that are not sent or find nothing. -/
theorem onTarget_of_unsent {records : Table CloudflareRecord}
    (h : Unsent cfg ∨ ∃ asked, Asks cfg asked ∧ matching records (utf8 "A", asked) = []) :
    OnTarget (isConfigured cfg) records (svc.updated cfg ip records) := by
  have hnothing : svc.planned cfg ip records = none := by
    obtain hunsent | ⟨asked, hasks, hnone⟩ := h
    · exact svc.planned_unsent hunsent
    · exact svc.planned_unmatched hasks hnone
  rw [onTarget_iff_planned, hnothing]
  exact nofun

end CloudflareService

/-! ## Aliyun -/

structure AliyunRecord where
  recordID : String
  domainName : Bytes
  rr : Bytes
  type : Bytes
  value : Bytes
  deriving DecidableEq, Repr

instance keyedAliyun : Keyed AliyunRecord Bytes := ⟨fun r => utf8 r.recordID⟩

/-- What is assigned to a record. -/
structure AliyunValues where
  rr : Bytes
  type : Bytes
  value : Bytes
  deriving DecidableEq, Repr

def assign (values : AliyunValues) (r : AliyunRecord) : AliyunRecord :=
  { r with rr := values.rr, type := values.type, value := values.value }

theorem key_assign (values : AliyunValues) (r : AliyunRecord) :
    Keyed.key (assign values r) = Keyed.key r := rfl

/-- How requests are read, and what the service makes of the empty host record: it may be another
way to write the apex, or refused. -/
structure AliyunService (lib : Library) where
  paramsOf : Request → Option Params
  storedRR : Bytes → Option Bytes
  freshID : Table AliyunRecord → String
  describeAnswer : List AliyunRecord → Bytes
  createAnswer : String → Bytes
  paramsOf_query : ∀ query,
    paramsOf ⟨"GET", lib.rewriteURL (utf8 "https://alidns.aliyuncs.com/?" ++ query), [], []⟩ =
      AliyunQuery.decode query
  storedRR_of_ne : ∀ rr, rr ≠ [] → storedRR rr = some rr
  fresh : ∀ records : Table AliyunRecord, ∀ r ∈ records.rows, utf8 r.recordID ≠ utf8 (freshID records)
  freshID_ne : ∀ records, freshID records ≠ ""
  records_describeAnswer : ∀ records,
    ((lib.parseJSON (describeAnswer records)).bind fun j => aliyunRecords j none) =
      some (some (records.map AliyunRecord.recordID))
  created_createAnswer : ∀ id, createdRecordID lib (createAnswer id) = id

/-- A parameter that is missing is empty. -/
def param (params : Params) (key : String) : Bytes := (params.lookup (utf8 key)).getD []

/-- The host records that have the keyword in them, of the domain and the type. -/
def described (records : Table AliyunRecord) (domainName keyWord type : Bytes) :
    List AliyunRecord :=
  records.selectWhere fun r => r.domainName = domainName ∧ keyWord <:+: r.rr ∧ r.type = type

namespace AliyunService
variable {lib : Library} (svc : AliyunService lib) (cfg : DDNSConfig) (ip : Bytes)

def created (records : Table AliyunRecord) (domainName : Bytes) (values : AliyunValues) :
    AliyunRecord :=
  ⟨svc.freshID records, domainName, values.rr, values.type, values.value⟩

/-- The values a request assigns. -/
def valuesOf (params : Params) : Option AliyunValues :=
  (svc.storedRR (param params "RR")).map fun rr => ⟨rr, param params "Type", param params "Value"⟩

def serve (z : Zone AliyunRecord) (req : Request) : Answer × Zone AliyunRecord :=
  match svc.paramsOf req with
  | none => (refuse 400, z)
  | some params =>
    if param params "Action" = utf8 "DescribeDomainRecords" then
      (.ok ⟨200, svc.describeAnswer (described z.records (param params "DomainName")
        (param params "RRKeyWord") (param params "TypeKeyWord")), none⟩, z)
    else if param params "Action" = utf8 "AddDomainRecord" then
      match (svc.valuesOf params).bind fun values =>
          z.records.insert (svc.created z.records (param params "DomainName") values) with
      | none => (refuse 400, z)
      | some records =>
        (.ok ⟨200, svc.createAnswer (svc.freshID z.records), none⟩, { z with records := records })
    else if param params "Action" = utf8 "UpdateDomainRecord" then
      match (svc.valuesOf params).bind fun values =>
          z.modify (param params "RecordId") (assign values) (key_assign values) with
      | none => (refuse 400, z)
      | some z' => (.ok ⟨200, [], none⟩, z')
    else (refuse 400, z)

/-- The zone after an update. -/
def updated (records : Table AliyunRecord) : Zone AliyunRecord :=
  ((updateAliyun lib cfg ip).run svc.serve ⟨records, []⟩).2

/-! ### What is read in the requests -/

/-- What `http.Get` sends for a request. -/
def sent (lib : Library) (cfg : DDNSConfig) (i : ℕ) (req : AliyunRequest) : Request :=
  ⟨"GET", lib.rewriteURL (aliyunURL lib cfg i req), [], []⟩

theorem paramsOf_sent (i : ℕ) (req : AliyunRequest) :
    svc.paramsOf (sent lib cfg i req) = some (aliyunSigned lib cfg i req) := by
  rw [sent, aliyunURL, svc.paramsOf_query]
  exact AliyunQuery.decode_sortedQuery _ _

/-- The signature is in nobody's way. -/
theorem param_signed {i : ℕ} {req : AliyunRequest} {key : String} (hkey : key ≠ "Signature") :
    param (aliyunSigned lib cfg i req) key =
      ((req.entries cfg ++ AliyunQuery.commonEntries (credential cfg "access_key_id")
        (lib.moment i).timestamp (lib.moment i).nonce).lookup key).getD [] := by
  have hne : utf8 key ≠ signatureKey := fun h => hkey (AliyunQuery.utf8_injective h)
  rw [param, aliyunSigned, AliyunQuery.signed, Finmap.lookup_insert_of_ne _ hne,
    AliyunRequest.params, AliyunQuery.lookup_ofEntries]

/-- What the lookup finds. -/
def found (cfg : DDNSConfig) (records : Table AliyunRecord) : List AliyunRecord :=
  described records (utf8 cfg.domain) (utf8 cfg.subDomain) (utf8 cfg.recordType)

/-- What a record is to be with this value. -/
def planned (value : Bytes) : Option AliyunValues :=
  (svc.storedRR (utf8 (rr cfg))).map fun stored => ⟨stored, utf8 cfg.recordType, value⟩

variable (z : Zone AliyunRecord) (i : ℕ)

theorem serve_describe :
    svc.serve z (sent lib cfg i .describe) =
      (.ok ⟨200, svc.describeAnswer (found cfg z.records), none⟩, z) := by
  have haction : param (aliyunSigned lib cfg i .describe) "Action" =
      utf8 "DescribeDomainRecords" := param_signed cfg (by decide)
  rw [serve, paramsOf_sent]
  simp only [haction, if_true]
  rw [param_signed cfg (by decide), param_signed cfg (by decide), param_signed cfg (by decide)]
  rfl

theorem serve_create :
    svc.serve z (sent lib cfg i .create) =
      match (svc.planned cfg (utf8 "0.0.0.0")).bind fun values =>
          z.records.insert (svc.created z.records (utf8 cfg.domain) values) with
      | none => (refuse 400, z)
      | some records =>
        (.ok ⟨200, svc.createAnswer (svc.freshID z.records), none⟩, { z with records := records }) := by
  have haction : param (aliyunSigned lib cfg i .create) "Action" = utf8 "AddDomainRecord" :=
    param_signed cfg (by decide)
  have hother : utf8 "AddDomainRecord" ≠ utf8 "DescribeDomainRecords" := by
    simp [AliyunQuery.utf8_injective.eq_iff]
  have hvalues : svc.valuesOf (aliyunSigned lib cfg i .create) =
      svc.planned cfg (utf8 "0.0.0.0") := by
    rw [valuesOf, param_signed cfg (by decide), param_signed cfg (by decide),
      param_signed cfg (by decide)]
    rfl
  rw [serve, paramsOf_sent]
  simp only [haction, hother, if_false, if_true]
  rw [hvalues, param_signed cfg (by decide)]
  rfl

theorem serve_update (id : String) :
    svc.serve z (sent lib cfg i (.update id ip)) =
      match (svc.planned cfg ip).bind fun values =>
          z.modify (utf8 id) (assign values) (key_assign values) with
      | none => (refuse 400, z)
      | some z' => (.ok ⟨200, [], none⟩, z') := by
  have haction : param (aliyunSigned lib cfg i (.update id ip)) "Action" =
      utf8 "UpdateDomainRecord" := param_signed cfg (by decide)
  have hother : utf8 "UpdateDomainRecord" ≠ utf8 "DescribeDomainRecords" ∧
      utf8 "UpdateDomainRecord" ≠ utf8 "AddDomainRecord" := by
    simp [AliyunQuery.utf8_injective.eq_iff]
  have hvalues : svc.valuesOf (aliyunSigned lib cfg i (.update id ip)) = svc.planned cfg ip := by
    rw [valuesOf, param_signed cfg (by decide), param_signed cfg (by decide),
      param_signed cfg (by decide)]
    rfl
  have hid : param (aliyunSigned lib cfg i (.update id ip)) "RecordId" = utf8 id :=
    param_signed cfg (by decide)
  rw [serve, paramsOf_sent]
  simp only [haction, hother, if_false, if_true]
  rw [hvalues, hid]

/-! ### Runs -/

theorem run_get {α : Type} {req : AliyunRequest} {next : Response → Client α} {resp : Response}
    {z' : Zone AliyunRecord} (hserve : svc.serve z (sent lib cfg i req) = (.ok resp, z')) :
    (DDNSProviders.get lib (aliyunURL lib cfg i req) next).run svc.serve z =
      (next resp).run svc.serve z' := by
  unfold sent at hserve
  rw [DDNSProviders.get, send, run, hserve]

theorem run_update (id : String) :
    ((aliyunUpdateRecord lib cfg ip i id).run svc.serve z).2 =
      ((svc.planned cfg ip).bind fun values =>
        z.modify (utf8 id) (assign values) (key_assign values)).getD z := by
  have hserve := svc.serve_update cfg ip z i id
  cases hmodify : (svc.planned cfg ip).bind fun values =>
      z.modify (utf8 id) (assign values) (key_assign values) with
  | none =>
    rw [hmodify] at hserve
    rw [aliyunUpdateRecord, svc.run_get cfg z i hserve]
    rfl
  | some z' =>
    rw [hmodify] at hserve
    rw [aliyunUpdateRecord, svc.run_get cfg z i hserve]
    rfl

/-- A record that is found is taken as it is. -/
theorem run_getRecord_found {r : AliyunRecord} (hfound : (found cfg z.records).head? = some r) :
    (aliyunGetRecord lib cfg).run svc.serve z = (.ok (r.recordID, 1), z) := by
  rw [aliyunGetRecord, svc.run_get cfg z 0 (svc.serve_describe cfg z 0)]
  simp only [svc.records_describeAnswer]
  cases hrecords : found cfg z.records with
  | nil => simp [hrecords] at hfound
  | cons r' rest =>
    rw [hrecords, List.head?_cons, Option.some.injEq] at hfound
    rw [hfound]
    rfl

theorem run_create {records : Table AliyunRecord}
    (hinsert : ((svc.planned cfg (utf8 "0.0.0.0")).bind fun values =>
      z.records.insert (svc.created z.records (utf8 cfg.domain) values)) = some records) :
    (aliyunCreateRecord lib cfg i).run svc.serve z =
      (.ok (svc.freshID z.records), { z with records := records }) := by
  have hserve := svc.serve_create cfg z i
  rw [hinsert] at hserve
  rw [aliyunCreateRecord, svc.run_get cfg z i hserve]
  simp [svc.created_createAnswer, svc.freshID_ne, succeed, run]

theorem zone_create_refused (hplanned : svc.planned cfg (utf8 "0.0.0.0") = none) :
    ((aliyunCreateRecord lib cfg i).run svc.serve z).2 = z := by
  have hserve := svc.serve_create cfg z i
  rw [hplanned] at hserve
  rw [aliyunCreateRecord, svc.run_get cfg z i hserve]
  dsimp only
  split_ifs <;> rfl

theorem run_getRecord_none (hfound : found cfg z.records = []) :
    (aliyunGetRecord lib cfg).run svc.serve z =
      ((aliyunCreateRecord lib cfg 1).andThen fun recordID => succeed (recordID, 2)).run
        svc.serve z := by
  rw [aliyunGetRecord, svc.run_get cfg z 0 (svc.serve_describe cfg z 0)]
  simp only [svc.records_describeAnswer, hfound, List.map_nil, Option.getD_some]

/-- Where nothing is found, a record is created with what it is then updated with. -/
theorem run_getRecord_created {records : Table AliyunRecord} {stored : Bytes}
    (hstored : svc.storedRR (utf8 (rr cfg)) = some stored) (hfound : found cfg records = []) :
    ∃ records', (aliyunGetRecord lib cfg).run svc.serve ⟨records, []⟩ =
        (.ok (svc.freshID records, 2), ⟨records', []⟩) ∧
      records'.select (utf8 (svc.freshID records)) = some (svc.created records (utf8 cfg.domain)
        ⟨stored, utf8 cfg.recordType, utf8 "0.0.0.0"⟩) ∧ ∀ r ∈ records.rows, r ∈ records'.rows := by
  let target := svc.created records (utf8 cfg.domain) ⟨stored, utf8 cfg.recordType, utf8 "0.0.0.0"⟩
  cases hinsert : records.insert target with
  | none =>
    obtain ⟨r, hr, hid⟩ := List.mem_map.mp (Table.insert_eq_none.mp hinsert)
    exact absurd hid (svc.fresh records r hr)
  | some records' =>
    have hcreate : (aliyunCreateRecord lib cfg 1).run svc.serve ⟨records, []⟩ =
        (.ok (svc.freshID records), ⟨records', []⟩) := by
      apply svc.run_create cfg ⟨records, []⟩ 1
      rw [planned, hstored]
      exact hinsert
    refine ⟨records', ?_, ?_, fun r hr => ?_⟩
    · rw [svc.run_getRecord_none cfg ⟨records, []⟩ hfound, andThen, run_bind, hcreate]
      rfl
    · rw [Table.select_insert hinsert]
      exact if_pos rfl
    · rw [Table.rows_insert hinsert]
      exact List.mem_append_left _ hr

/-- Where the host record is refused, nothing changes. -/
theorem updated_refused {records : Table AliyunRecord} (hstored : svc.storedRR (utf8 (rr cfg)) = none) :
    svc.updated cfg ip records = ⟨records, []⟩ := by
  have hplanned (value : Bytes) : svc.planned cfg value = none := by rw [planned, hstored]; rfl
  have hget : ((aliyunGetRecord lib cfg).run svc.serve ⟨records, []⟩).2 = ⟨records, []⟩ := by
    cases hfound : found cfg records with
    | nil =>
      rw [svc.run_getRecord_none cfg ⟨records, []⟩ hfound, andThen, run_bind,
        svc.zone_create_refused cfg _ _ (hplanned _)]
      rcases ((aliyunCreateRecord lib cfg 1).run svc.serve ⟨records, []⟩).1 with e | id <;> rfl
    | cons r rest =>
      have hhead : (found cfg records).head? = some r := by rw [hfound, List.head?_cons]
      rw [svc.run_getRecord_found cfg ⟨records, []⟩ hhead]
  rw [updated, updateAliyun]
  split_ifs
  · rfl
  · rw [run_lookup, hget]
    cases ((aliyunGetRecord lib cfg).run svc.serve ⟨records, []⟩).1.toOption with
    | none => rfl
    | some id =>
      simp only [run_update, hplanned]
      rfl

/-- A record of the configured domain, name and type. -/
def isTarget (cfg : DDNSConfig) (r : AliyunRecord) : Prop :=
  r.domainName = utf8 cfg.domain ∧ r.rr = utf8 cfg.subDomain ∧ r.type = utf8 cfg.recordType

/-- The last request of an update writes to the record with the ID that was got. -/
theorem onTarget_of_lookup {records : Table AliyunRecord} {z : Zone AliyunRecord} {id : String}
    {next : ℕ} {target : AliyunRecord} {stored : Bytes}
    (hcredentials : ¬(credential cfg "access_key_id" = "" ∨ credential cfg "access_key_secret" = ""))
    (hstored : svc.storedRR (utf8 (rr cfg)) = some stored)
    (hlookup : (aliyunGetRecord lib cfg).run svc.serve ⟨records, []⟩ = (.ok (id, next), z))
    (hwrites : z.writes = []) (hrecords : ∀ r ∈ records.rows, r ∈ z.records.rows)
    (htarget : z.records.select (utf8 id) = some target) :
    OnTarget (isTarget cfg) records (svc.updated cfg ip records) ↔
      isTarget cfg target ∧ isTarget cfg (assign ⟨stored, utf8 cfg.recordType, ip⟩ target) := by
  have hplanned : svc.planned cfg ip = some ⟨stored, utf8 cfg.recordType, ip⟩ := by
    rw [planned, hstored, Option.map_some]
  have hupdated : svc.updated cfg ip records =
      (z.modify (utf8 id) (assign ⟨stored, utf8 cfg.recordType, ip⟩) (key_assign _)).getD z := by
    rw [updated, updateAliyun, if_neg hcredentials, run_lookup, hlookup]
    simp only [Except.toOption, run_update, hplanned, Option.bind_some]
  rw [hupdated]
  apply @onTarget_modify_iff _ _ _ _ _ _ z _ (utf8 id) _ (key_assign _) _ hwrites hrecords htarget
  simp [Zone.modify, htarget]

theorem onTarget_iff {records : Table AliyunRecord} :
    OnTarget (isTarget cfg) records (svc.updated cfg ip records) ↔
      credential cfg "access_key_id" = "" ∨ credential cfg "access_key_secret" = "" ∨
        ∀ stored ∈ svc.storedRR (utf8 (rr cfg)), stored = utf8 cfg.subDomain ∧
          ∀ r ∈ (found cfg records).head?, r.rr = utf8 cfg.subDomain := by
  by_cases hcredentials :
      credential cfg "access_key_id" = "" ∨ credential cfg "access_key_secret" = ""
  · have hupdated : svc.updated cfg ip records = ⟨records, []⟩ := by
      rw [updated, updateAliyun, if_pos hcredentials]
      rfl
    rw [hupdated]
    exact iff_of_true onTarget_unmodified (hcredentials.imp_right .inl)
  have hpresent := not_or.mp hcredentials
  simp only [hpresent.1, hpresent.2, false_or]
  cases hstored : svc.storedRR (utf8 (rr cfg)) with
  | none => simpa [svc.updated_refused cfg ip hstored] using onTarget_unmodified
  | some stored =>
    simp only [Option.mem_some, forall_eq']
    cases hfound : found cfg records with
    | nil =>
      obtain ⟨records', hlookup, hselect, hkept⟩ := svc.run_getRecord_created cfg hstored hfound
      rw [svc.onTarget_of_lookup cfg ip hcredentials hstored hlookup rfl hkept hselect]
      simp [isTarget, created, assign]
    | cons r rest =>
      have hhead : (found cfg records).head? = some r := by rw [hfound, List.head?_cons]
      obtain ⟨hmem, hasked⟩ := Table.mem_selectWhere.mp (List.mem_of_head? hhead)
      obtain ⟨hdomain, -, htype⟩ := of_decide_eq_true hasked
      have hlookup := svc.run_getRecord_found cfg ⟨records, []⟩ hhead
      have hselect : records.select (utf8 r.recordID) = some r :=
        Table.select_eq_some.mpr ⟨hmem, rfl⟩
      rw [svc.onTarget_of_lookup cfg ip hcredentials hstored hlookup rfl (fun _ hr => hr) hselect]
      simp only [isTarget, assign, hdomain, htype, List.head?_cons, Option.mem_some, forall_eq',
        true_and, and_true]
      exact and_comm

end AliyunService

end NetBerth.DDNSZones
