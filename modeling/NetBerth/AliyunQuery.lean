import Mathlib
import NetBerth.Base64
import NetBerth.Models
import NetBerth.URLQuery

/-!
# Signed queries

A request to Aliyun is a map of parameters. Its canonical query is signed, the signature is put
into the map, and the map is written again for the URL. Both times the keys are sorted, so that
the order in which the map is gone through does not matter, and taking the signature out of what
is sent leaves what was signed, byte for byte.
-/
namespace NetBerth.AliyunQuery
open Models (DDNSConfig)
open URLQuery

/-- The bytes of a string. -/
def utf8 (s : String) : Bytes := s.toUTF8.data.toList

theorem utf8_injective : Function.Injective utf8 := by
  intro s t h
  have hbytes : s.toUTF8 = t.toUTF8 := ByteArray.ext (Array.ext' h)
  exact String.toByteArray_inj.mp hbytes

abbrev Params := Finmap fun _ : Bytes => Bytes

def ofEntries (entries : List (Bytes × Bytes)) : Params :=
  (entries.map fun e => (⟨e.1, e.2⟩ : Sigma fun _ : Bytes => Bytes)).toFinmap

/-- The keys of a map in the order of one `range` over it. -/
structure Ranging (params : Params) where
  keys : List Bytes
  nodup : keys.Nodup
  mem_iff : ∀ k, k ∈ keys ↔ k ∈ params

instance transBytes : IsTrans Bytes (· ≤ ·) := ⟨fun _ _ _ => List.le_trans⟩

instance antisymmBytes : Std.Antisymm (fun a b : Bytes => a ≤ b) := ⟨fun _ _ => List.le_antisymm⟩

instance totalBytes : Std.Total (fun a b : Bytes => a ≤ b) := ⟨fun _ _ => List.le_total ..⟩

/-- A `range` that happens to go through the keys in their order. -/
def sortedRange (params : Params) : Ranging params where
  keys := params.keys.sort fun a b : Bytes => a ≤ b
  nodup := Finset.sort_nodup ..
  mem_iff k := by rw [Finset.mem_sort, Finmap.mem_keys]

/-- `sort.Strings`. -/
def sortStrings (keys : List Bytes) : List Bytes := keys.mergeSort (· ≤ ·)

def entriesIn (params : Params) (keys : List Bytes) : List (Bytes × Bytes) :=
  keys.map fun k => (k, (params.lookup k).getD [])

def aliyunSortedQuery (params : Params) (range : Ranging params) : Bytes :=
  encodeQuery (entriesIn params (sortStrings range.keys))

def aliyunBuildQuery (params : Params) (range : Ranging params) : Bytes :=
  encodeQuery (entriesIn params (sortStrings range.keys))

/-- `base64.StdEncoding.EncodeToString`. -/
def encodeToString (mac : Bytes) : Bytes :=
  let symbols := (Base64.encodeToString mac).toList
  utf8 (String.ofList (symbols ++ List.replicate ((4 - symbols.length % 4) % 4) '='))

section
variable (hmacSHA1 : Bytes → Bytes → Bytes)

def aliyunSign (params : Params) (range : Ranging params) (keySecret method : Bytes) : Bytes :=
  let strToSign := method ++ 0x26 :: queryEscape (utf8 "/") ++ 0x26 ::
    queryEscape (aliyunSortedQuery params range)
  encodeToString (hmacSHA1 (keySecret ++ utf8 "&") strToSign)

def signatureKey : Bytes := utf8 "Signature"

/-- The parameters with their signature. -/
def signed (params : Params) (range : Ranging params) (keySecret : Bytes) : Params :=
  params.insert signatureKey (aliyunSign hmacSHA1 params range keySecret (utf8 "GET"))

end

/-! ## The requests -/

/-- What the requests have in common; the nonce is random. -/
def commonEntries (keyID timestamp : String) (nonce : ℕ) : List (String × Bytes) :=
  [("Format", utf8 "JSON"), ("Version", utf8 "2015-01-09"), ("AccessKeyId", utf8 keyID),
    ("SignatureMethod", utf8 "HMAC-SHA1"), ("Timestamp", utf8 timestamp),
    ("SignatureVersion", utf8 "1.0"), ("SignatureNonce", utf8 (toString nonce))]

inductive AliyunRequest where
  | describe
  | create
  | update (recordID : String) (ip : Bytes)
  deriving DecidableEq, Repr

/-- The host record that is written; the lookup asks for the sub-domain itself. -/
def rr (cfg : DDNSConfig) : String := if cfg.subDomain = "@" then "" else cfg.subDomain

def AliyunRequest.entries (cfg : DDNSConfig) : AliyunRequest → List (String × Bytes)
  | describe =>
    [("Action", utf8 "DescribeDomainRecords"), ("DomainName", utf8 cfg.domain),
      ("RRKeyWord", utf8 cfg.subDomain), ("TypeKeyWord", utf8 cfg.recordType)]
  | create =>
    [("Action", utf8 "AddDomainRecord"), ("DomainName", utf8 cfg.domain), ("RR", utf8 (rr cfg)),
      ("Type", utf8 cfg.recordType), ("Value", utf8 "0.0.0.0"), ("TTL", utf8 (toString cfg.ttl))]
  | update recordID ip =>
    [("Action", utf8 "UpdateDomainRecord"), ("RecordId", utf8 recordID), ("RR", utf8 (rr cfg)),
      ("Type", utf8 cfg.recordType), ("Value", ip), ("TTL", utf8 (toString cfg.ttl))]

def AliyunRequest.params (cfg : DDNSConfig) (keyID timestamp : String) (nonce : ℕ)
    (req : AliyunRequest) : Params :=
  ofEntries ((req.entries cfg ++ commonEntries keyID timestamp nonce).map fun e =>
    (utf8 e.1, e.2))

theorem lookup_ofEntries (entries : List (String × Bytes)) (k : String) :
    (ofEntries (entries.map fun e => (utf8 e.1, e.2))).lookup (utf8 k) = entries.lookup k := by
  rw [ofEntries, Finmap.dlookup_list_toFinmap]
  induction entries with
  | nil => rfl
  | cons e entries ih =>
    simp only [List.map_cons]
    by_cases hk : k = e.1
    · subst hk
      simp [List.lookup]
    · have hne : utf8 k ≠ utf8 e.1 := fun h => hk (utf8_injective h)
      rw [List.dlookup_cons_ne _ _ hne, ih]
      simp [List.lookup, beq_false_of_ne hk]

/-- How the other side reads a query. -/
def decode (query : Bytes) : Option Params := (parseQuery query).map ofEntries

/-! ## Sorted keys -/

theorem sortStrings_perm (keys : List Bytes) : (sortStrings keys).Perm keys :=
  List.mergeSort_perm keys _

namespace Ranging

variable {params : Params}

theorem mem_sorted_iff (range : Ranging params) {k : Bytes} :
    k ∈ sortStrings range.keys ↔ k ∈ params := by
  rw [(sortStrings_perm range.keys).mem_iff, range.mem_iff]

end Ranging

theorem dlookup_map (f : Bytes → Bytes) (keys : List Bytes) (k : Bytes) :
    List.dlookup k ((keys.map fun x => (x, f x)).map fun e =>
      (⟨e.1, e.2⟩ : Sigma fun _ : Bytes => Bytes)) = if k ∈ keys then some (f k) else none := by
  induction keys with
  | nil => rfl
  | cons x keys ih =>
    simp only [List.map_cons]
    by_cases hk : k = x
    · subst hk
      simp
    · rw [List.dlookup_cons_ne _ _ hk, ih]
      simp [hk]

/-- The entries of a map are the map. -/
theorem ofEntries_entriesIn {params : Params} {keys : List Bytes}
    (hkeys : ∀ k, k ∈ keys ↔ k ∈ params) : ofEntries (entriesIn params keys) = params := by
  apply Finmap.ext_lookup
  intro k
  rw [ofEntries, Finmap.dlookup_list_toFinmap, entriesIn, dlookup_map]
  split_ifs with hk
  · obtain ⟨v, hv⟩ := Finmap.mem_iff.mp ((hkeys k).mp hk)
    rw [hv, Option.getD_some]
  · exact (Finmap.lookup_eq_none.mpr fun hmem => hk ((hkeys k).mpr hmem)).symm

/-! ## What is signed and what is sent -/

theorem decode_sortedQuery (params : Params) (range : Ranging params) :
    decode (aliyunSortedQuery params range) = some params := by
  rw [decode, aliyunSortedQuery, parseQuery_encodeQuery, Option.map_some]
  exact congrArg some (ofEntries_entriesIn fun _ => range.mem_sorted_iff)

end NetBerth.AliyunQuery
