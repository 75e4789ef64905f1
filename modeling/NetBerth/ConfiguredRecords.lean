import NetBerth.DDNSZones
import NetBerth.ProviderAnswers

/-!
# The configured record

Which updates write to nothing but the record of the configured name and type, at Cloudflare and at
Aliyun. There are services whose requests and answers can be read as they are meant: they take a
request apart at the signs that separate its texts, and answer with JSON.
-/
namespace NetBerth.ConfiguredRecords
open AliyunQuery (utf8)
open DDNSProviders DDNSZones JSONDecode SqlTable
open Models (DDNSConfig)

/-! ## Texts in requests

A lookup is read as a query is, and of a body that has no other quotes the strings are between
them. -/

theorem utf8_append (s t : String) : utf8 (s ++ t) = utf8 s ++ utf8 t := by
  simp [utf8, String.toUTF8, String.toByteArray_append, ByteArray.data_append]

section
variable {text : Bytes}

theorem not_mem_of_plain (h : Plain text) {b : UInt8}
    (hb : URLQuery.unreserved b = false ∧ b ≠ 0x3a ∧ b ≠ 0x40) : b ∉ text := by
  intro hmem
  rcases h b hmem with hplain | hcolon | hat
  · exact Bool.false_ne_true (hb.1.symm.trans hplain)
  · exact hb.2.1 hcolon
  · exact hb.2.2 hat

theorem not_mem_of_queryText (h : QueryText text) {b : UInt8}
    (hb : URLQuery.unreserved b = false ∧ b < 0x80 ∧ b ∉ [0x21, 0x24, 0x25, 0x27, 0x28, 0x29, 0x2a,
      0x2b, 0x2c, 0x2f, 0x3a, 0x3d, 0x3f, 0x40]) : b ∉ text := by
  intro hmem
  rcases h b hmem with hplain | hhigh | hsign
  · exact Bool.false_ne_true (hb.1.symm.trans hplain)
  · exact absurd hb.2.1 (UInt8.not_lt.mpr hhigh)
  · exact hb.2.2 hsign

theorem quote_not_mem (h : StringText text) : (0x22 : UInt8) ∉ text := fun hmem =>
  (h _ hmem).2.1 rfl

/-- A control character stands for nothing else. -/
theorem sign_of_control {b : UInt8} (h : controlByte b = true) :
    URLQuery.unreserved b = false ∧ b < 0x80 ∧ b ∉ [0x21, 0x24, 0x25, 0x27, 0x28, 0x29, 0x2a, 0x2b,
      0x2c, 0x2f, 0x3a, 0x3d, 0x3f, 0x40] := by
  simp only [controlByte, Bool.or_eq_true, decide_eq_true_iff] at h
  rcases h with h | rfl
  · simp [URLQuery.unreserved, UInt8.lt_iff_toNat_lt, UInt8.le_iff_toNat_le,
      ← UInt8.toNat_inj] at *
    omega
  · decide

theorem control_of_plain (h : Plain text) : ∀ b ∈ text, controlByte b = false := by
  intro b hb
  rw [← Bool.not_eq_true]
  intro hcontrol
  obtain ⟨hplain, -, hsign⟩ := sign_of_control hcontrol
  exact not_mem_of_plain h ⟨hplain, fun he => hsign (by simp [he]), fun he => hsign (by simp [he])⟩ hb

theorem control_of_all (h : (text.all fun b => !controlByte b) = true) :
    ∀ b ∈ text, controlByte b = false := by
  simpa only [List.all_eq_true, Bool.not_eq_true'] using h

theorem control_of_queryText (h : QueryText text) : ∀ b ∈ text, controlByte b = false := by
  intro b hb
  rw [← Bool.not_eq_true]
  intro hcontrol
  exact not_mem_of_queryText h (sign_of_control hcontrol) hb

end

/-- `http.NewRequest` takes no control character in a URL. -/
def readingLibrary : Library :=
  { ProviderAnswers.plainLibrary with validURL := fun url => url.all fun b => !controlByte b }

theorem validURL_eq_true_iff (url : Bytes) :
    readingLibrary.validURL url = true ↔ ∀ b ∈ url, controlByte b = false := by
  simp only [readingLibrary, List.all_eq_true, Bool.not_eq_true']

def readLookup (req : Request) : Option (Bytes × Bytes) :=
  if ∀ header ∈ req.headers, HeaderText header.2 then do
    let entries ← URLQuery.parseQuery ((req.url.dropWhile (· ≠ 0x3f)).drop 1)
    return (← entries.lookup (utf8 "type"), ← entries.lookup (utf8 "name"))
  else none

def readPut (req : Request) : Option CloudflarePut :=
  match req.body.splitOn 0x22 with
  | _ :: _ :: _ :: type :: _ :: _ :: _ :: name :: _ :: _ :: _ :: content :: _ =>
    some ⟨(req.url.reverse.takeWhile (· ≠ 0x2f)).reverse, type, name, content⟩
  | _ => none

def answerText (records : List CloudflareRecord) : Bytes :=
  match records with
  | [] => utf8 "\x7b\"result\":[]\x7d"
  | r :: _ => utf8 "\x7b\"result\":[\x7b" ++ (utf8 "\"id\":\"" ++ (r.id ++ 0x22 :: utf8 "\x7d]\x7d"))

theorem stringsIndex_eq_some {s substr : Bytes} {i : ℕ} (hlen : i + substr.length ≤ s.length)
    (hi : (s.drop i).take substr.length = substr)
    (hfirst : ∀ j < i, (s.drop j).take substr.length ≠ substr) : stringsIndex s substr = some i := by
  rw [stringsIndex, List.find?_range_eq_some]
  refine ⟨by simpa using hi, ?_, fun j hj => by simpa using hfirst j hj⟩
  rw [List.mem_range]
  omega

theorem recordIDIn_answerText (records : List CloudflareRecord) :
    (recordIDIn (answerText records)).toOption = records.head?.map CloudflareRecord.id := by
  cases records with
  | nil => decide
  | cons r records =>
    have hquote : (0x22 : UInt8) ∉ r.id := not_mem_of_plain r.plainID (by decide)
    have hstart : stringsIndex (answerText (r :: records)) (utf8 "\"id\":\"") = some 12 := by
      have hbefore : ∀ j < 12,
          ((utf8 "\x7b\"result\":[\x7b\"id\":\"").drop j).take 6 ≠ utf8 "\"id\":\"" := by decide
      have htext : answerText (r :: records) =
          utf8 "\x7b\"result\":[\x7b\"id\":\"" ++ (r.id ++ 0x22 :: utf8 "\x7d]\x7d") := rfl
      have hlength : (utf8 "\x7b\"result\":[\x7b\"id\":\"").length = 18 := by decide
      rw [htext]
      apply stringsIndex_eq_some
      · rw [List.length_append, hlength]
        exact Nat.le_add_right 18 _
      · rfl
      · intro j hj
        change ((_ : Bytes).drop j).take 6 ≠ _
        rw [List.drop_append_of_le_length (by omega), List.take_append_of_le_length]
        · exact hbefore j hj
        · rw [List.length_drop]
          omega
    have hend : stringsIndex (r.id ++ 0x22 :: utf8 "\x7d]\x7d") (utf8 "\"") = some r.id.length := by
      apply stringsIndex_eq_some
      · rw [List.length_append]
        exact Nat.add_le_add_left (by decide) _
      · rw [List.drop_left]
        rfl
      · intro j hj heq
        apply hquote
        rw [List.drop_append_of_le_length hj.le, List.drop_eq_getElem_cons hj] at heq
        have hbyte : r.id[j] = 0x22 := List.head_eq_of_cons_eq heq
        rw [← hbyte]
        exact List.getElem_mem hj
    have hrest : (answerText (r :: records)).drop 18 = r.id ++ 0x22 :: utf8 "\x7d]\x7d" := by
      rfl
    simp [recordIDIn, hstart, hrest, hend, Except.toOption]

section
variable {cfg : DDNSConfig}

theorem control_cloudflareRecords (h : Plain (utf8 (credential cfg "zone_id"))) :
    ∀ b ∈ cloudflareRecords cfg, controlByte b = false := by
  intro b hb
  rw [cloudflareRecords, utf8_append, utf8_append, List.mem_append, List.mem_append] at hb
  rcases hb with (hb | hb) | hb
  · exact control_of_all (by decide) b hb
  · exact control_of_plain h b hb
  · exact control_of_all (by decide) b hb

theorem readLookup_cloudflareLookup {asked : Bytes} (h : Asks cfg asked) :
    readLookup (cloudflareLookup readingLibrary cfg) = some (utf8 "A", asked) := by
  have hheaders : ∀ header ∈ (cloudflareLookup readingLibrary cfg).headers, HeaderText header.2 := by
    intro header hheader
    rw [List.mem_singleton.mp hheader]
    intro b hb
    rw [utf8_append, List.mem_append] at hb
    rcases hb with hb | hb
    · exact .inl (control_of_all (by decide) b hb)
    · exact h.apiToken b hb
  have hpath : ∀ b ∈ cloudflareRecords cfg, (b ≠ 0x3f : Bool) = true := by
    intro b hb
    rw [decide_eq_true_iff]
    rintro rfl
    rw [cloudflareRecords, utf8_append, utf8_append, List.mem_append, List.mem_append] at hb
    rcases hb with (hb | hb) | hb
    · revert hb
      decide
    · exact not_mem_of_plain h.zoneID (by decide) hb
    · revert hb
      decide
  have hquery : ((cloudflareLookup readingLibrary cfg).url.dropWhile (· ≠ 0x3f)).drop 1 =
      utf8 "type=A" ++ 0x26 :: (utf8 "name=" ++ cloudflareName cfg) := by
    change ((cloudflareRecords cfg ++ utf8 "?type=A&name=" ++ cloudflareName cfg).dropWhile _).drop 1 = _
    rw [List.append_assoc, List.dropWhile_append_of_pos hpath]
    rfl
  have hparts : URLQuery.parts (utf8 "type=A" ++ 0x26 :: (utf8 "name=" ++ cloudflareName cfg)) =
      [utf8 "type=A", utf8 "name=" ++ cloudflareName cfg] := by
    have hlast : (0x26 : UInt8) ∉ utf8 "name=" ++ cloudflareName cfg := by
      rw [List.mem_append]
      rintro (hb | hb)
      · revert hb
        decide
      · exact not_mem_of_queryText h.name (by decide) hb
    rw [URLQuery.parts, List.splitOn_append_cons_self_of_not_mem (by decide),
      List.splitOn_eq_singleton hlast]
    rfl
  have htype : URLQuery.parsePart (utf8 "type=A") = some (utf8 "type", utf8 "A") := by decide
  have hnamed : URLQuery.parsePart (utf8 "name=" ++ cloudflareName cfg) =
      some (utf8 "name", asked) := by
    have hkey : URLQuery.queryUnescape (utf8 "name") = some (utf8 "name") := by decide
    change ((URLQuery.queryUnescape (utf8 "name")).bind fun key =>
      (URLQuery.queryUnescape (cloudflareName cfg)).bind fun value => some (key, value)) = _
    rw [hkey, h.unescaped]
    rfl
  rw [readLookup, if_pos hheaders, hquery, URLQuery.parseQuery, hparts, List.mapM_cons,
    List.mapM_cons, htype, hnamed]
  rfl

theorem validURL_cloudflareLookup {asked : Bytes} (h : Asks cfg asked) :
    readingLibrary.validURL (cloudflareLookup readingLibrary cfg).url = true := by
  rw [validURL_eq_true_iff]
  intro b hb
  change b ∈ cloudflareRecords cfg ++ utf8 "?type=A&name=" ++ cloudflareName cfg at hb
  rw [List.mem_append, List.mem_append] at hb
  rcases hb with (hb | hb) | hb
  · exact control_cloudflareRecords h.zoneID b hb
  · exact control_of_all (by decide) b hb
  · exact control_of_queryText h.name b hb

theorem validURL_control
    (h : ∃ b ∈ utf8 (credential cfg "zone_id") ++ cloudflareName cfg, controlByte b = true) :
    readingLibrary.validURL (cloudflareLookup readingLibrary cfg).url = false := by
  obtain ⟨b, hb, hcontrol⟩ := h
  rw [← Bool.not_eq_true, validURL_eq_true_iff]
  intro hall
  have hfree : controlByte b = false := by
    apply hall
    change b ∈ cloudflareRecords cfg ++ utf8 "?type=A&name=" ++ cloudflareName cfg
    rw [cloudflareRecords, utf8_append, utf8_append]
    rcases List.mem_append.mp hb with hb | hb <;> simp [hb]
  rw [hcontrol] at hfree
  cases hfree

theorem readLookup_header (h : ¬HeaderText (utf8 (credential cfg "api_token"))) :
    readLookup (cloudflareLookup readingLibrary cfg) = none := by
  refine if_neg fun hheaders => h fun b hb => ?_
  apply hheaders _ (List.mem_singleton_self _)
  rw [utf8_append]
  exact List.mem_append_right _ hb

variable {ip id : Bytes}

theorem validURL_cloudflarePut (h : Plain (utf8 (credential cfg "zone_id"))) (hid : Plain id) :
    readingLibrary.validURL (cloudflarePut readingLibrary cfg ip id).url = true := by
  rw [validURL_eq_true_iff]
  intro b hb
  change b ∈ cloudflareRecords cfg ++ utf8 "/" ++ id at hb
  rw [List.mem_append, List.mem_append] at hb
  rcases hb with (hb | hb) | hb
  · exact control_cloudflareRecords h b hb
  · rw [List.mem_singleton.mp hb]
    rfl
  · exact control_of_plain hid b hb

theorem readPut_cloudflarePut {asked : Bytes} (h : Readable cfg ip asked) (hid : Plain id) :
    readPut (cloudflarePut readingLibrary cfg ip id) =
      some ⟨id, utf8 cfg.recordType, writtenName cfg, ip⟩ := by
  have hbody : (cloudflarePut readingLibrary cfg ip id).body =
      utf8 "\x7b" ++ 0x22 :: (utf8 "type" ++ 0x22 :: (utf8 ":" ++ 0x22 :: (utf8 cfg.recordType ++
        0x22 :: (utf8 "," ++ 0x22 :: (utf8 "name" ++ 0x22 :: (utf8 ":" ++ 0x22 :: (writtenName cfg ++
        0x22 :: (utf8 "," ++ 0x22 :: (utf8 "content" ++ 0x22 :: (utf8 ":" ++ 0x22 :: (ip ++
        0x22 :: (utf8 ",\"ttl\":" ++ decimal cfg.ttl ++ utf8 ",\"proxied\":false\x7d")))))))))))) := by
    simp only [cloudflarePut, cloudflareBody, writtenName, utf8_append]
    simp only [List.append_assoc]
    rfl
  have hurl : ((cloudflarePut readingLibrary cfg ip id).url.reverse.takeWhile
      (· ≠ 0x2f)).reverse = id := by
    have hall : ∀ b ∈ id.reverse, (b ≠ 0x2f : Bool) = true := by
      intro b hb
      rw [decide_eq_true_iff]
      rintro rfl
      exact not_mem_of_plain hid (by decide) (List.mem_reverse.mp hb)
    change ((cloudflareRecords cfg ++ utf8 "/" ++ id).reverse.takeWhile _).reverse = _
    rw [List.reverse_append, List.takeWhile_append_of_pos hall, List.reverse_append,
      List.reverse_append]
    have hslash : (utf8 "/").reverse = [0x2f] := by decide
    rw [hslash]
    simp
  rw [readPut, hbody, hurl, List.splitOn_append_cons_self_of_not_mem (by decide),
    List.splitOn_append_cons_self_of_not_mem (by decide),
    List.splitOn_append_cons_self_of_not_mem (by decide),
    List.splitOn_append_cons_self_of_not_mem (quote_not_mem h.recordType),
    List.splitOn_append_cons_self_of_not_mem (by decide),
    List.splitOn_append_cons_self_of_not_mem (by decide),
    List.splitOn_append_cons_self_of_not_mem (by decide),
    List.splitOn_append_cons_self_of_not_mem (quote_not_mem h.written),
    List.splitOn_append_cons_self_of_not_mem (by decide),
    List.splitOn_append_cons_self_of_not_mem (by decide),
    List.splitOn_append_cons_self_of_not_mem (by decide),
    List.splitOn_append_cons_self_of_not_mem (quote_not_mem h.content)]

end

def readingService : CloudflareService readingLibrary where
  lookupOf := readLookup
  putOf := readPut
  answer := answerText
  recordIDIn_answer := recordIDIn_answerText
  lookup_asks _ _ h := ⟨validURL_cloudflareLookup h, readLookup_cloudflareLookup h⟩
  put_readable _ _ _ _ h hid := ⟨validURL_cloudflarePut h.zoneID hid, readPut_cloudflarePut h hid⟩
  url_control _ h := validURL_control h
  header_control _ h := readLookup_header h

/-! ## Answers of Aliyun

The strings of an answer are all that is read in it. -/

/-- A text between quotes. -/
def quoted (text : Bytes) : Bytes :=
  0x22 :: ((text.flatMap fun b => if b = 0x22 ∨ b = 0x5c then [0x5c, b] else [b]) ++ [0x22])

/-- The strings of a text. Of one that is open there is what has been read, and whether the next
sign is escaped. -/
def stringsIn : Option (Bytes × Bool) → Bytes → List Bytes
  | _, [] => []
  | none, b :: text => stringsIn (if b = 0x22 then some ([], false) else none) text
  | some (read, true), b :: text => stringsIn (some (read ++ [b], false)) text
  | some (read, false), b :: text =>
    if b = 0x22 then read :: stringsIn none text
    else if b = 0x5c then stringsIn (some (read, true)) text
    else stringsIn (some (read ++ [b], false)) text

theorem stringsIn_gap {gap : Bytes} (hgap : (0x22 : UInt8) ∉ gap) (rest : Bytes) :
    stringsIn none (gap ++ rest) = stringsIn none rest := by
  induction gap with
  | nil => rfl
  | cons b gap ih =>
    rw [List.mem_cons, not_or] at hgap
    rw [List.cons_append, stringsIn, if_neg (Ne.symm hgap.1), ih hgap.2]

theorem stringsIn_quoted (text rest : Bytes) :
    stringsIn none (quoted text ++ rest) = text :: stringsIn none rest := by
  have hopen (read : Bytes) : stringsIn (some (read, false))
      ((text.flatMap fun b => if b = 0x22 ∨ b = 0x5c then [0x5c, b] else [b]) ++ 0x22 :: rest) =
        (read ++ text) :: stringsIn none rest := by
    induction text generalizing read with
    | nil =>
      rw [List.flatMap_nil, List.nil_append, stringsIn, if_pos rfl, List.append_nil]
    | cons b text ih =>
      rw [List.flatMap_cons, List.append_assoc]
      split_ifs with hescaped
      · rw [List.cons_append, List.singleton_append, stringsIn, if_neg (by decide), if_pos rfl,
          stringsIn, ih, List.append_assoc, List.singleton_append]
      · rw [not_or] at hescaped
        rw [List.singleton_append, stringsIn, if_neg hescaped.1, if_neg hescaped.2, ih,
          List.append_assoc, List.singleton_append]
  rw [quoted, List.cons_append, List.append_assoc, List.singleton_append, stringsIn, if_pos rfl, hopen,
    List.nil_append]

def ofBytes (text : Bytes) : String := (String.fromUTF8? ⟨text.toArray⟩).getD ""

theorem ofBytes_utf8 (s : String) : ofBytes (utf8 s) = s := by
  have hbytes : (⟨(utf8 s).toArray⟩ : ByteArray) = s.toByteArray := by
    ext1
    simp [utf8]
  rw [ofBytes, hbytes, String.fromUTF8?, dif_pos s.isValidUTF8]
  rfl

/-- The objects with one member each. -/
def readObjects : List String → List JSON
  | key :: value :: rest => .object [(key, .string value)] :: readObjects rest
  | _ => []

def readAnswer (text : Bytes) : Option JSON :=
  match (stringsIn none text).map ofBytes with
  | key :: value :: rest =>
    if key = "RecordId" then some (.object [(key, .string value)])
    else some (.object [(key, .object [(value, .array (readObjects rest))])])
  | _ => none

def recordText (id : String) : Bytes :=
  utf8 "\x7b" ++ (quoted (utf8 "RecordId") ++ (utf8 ":" ++ (quoted (utf8 id) ++ utf8 "\x7d")))

def describeText (records : List AliyunRecord) : Bytes :=
  utf8 "\x7b" ++ (quoted (utf8 "DomainRecords") ++ (utf8 ":\x7b" ++ (quoted (utf8 "Record") ++
    (utf8 ":[" ++ ((utf8 ",").intercalate (records.map fun r => recordText r.recordID) ++
      utf8 "]\x7d\x7d")))))

theorem stringsIn_recordText (id : String) (rest : Bytes) :
    stringsIn none (recordText id ++ rest) = utf8 "RecordId" :: utf8 id :: stringsIn none rest := by
  simp only [recordText, List.append_assoc]
  rw [stringsIn_gap (by decide), stringsIn_quoted, stringsIn_gap (by decide), stringsIn_quoted,
    stringsIn_gap (by decide)]

theorem stringsIn_records (records : List AliyunRecord) :
    stringsIn none ((utf8 ",").intercalate (records.map fun r => recordText r.recordID) ++
      utf8 "]\x7d\x7d") = records.flatMap fun r => [utf8 "RecordId", utf8 r.recordID] := by
  induction records with
  | nil => decide
  | cons r records ih =>
    cases records with
    | nil =>
      rw [List.map_cons, List.map_nil, List.intercalate_singleton, stringsIn_recordText]
      rfl
    | cons r' records =>
      rw [List.map_cons] at ih ⊢
      rw [List.map_cons, List.intercalate_cons_cons, List.append_assoc, List.append_assoc,
        stringsIn_recordText, stringsIn_gap (by decide), ih]
      rfl

theorem readAnswer_recordText (id : String) :
    readAnswer (recordText id) = some (.object [("RecordId", .string id)]) := by
  have hstrings := stringsIn_recordText id []
  rw [List.append_nil, stringsIn] at hstrings
  rw [readAnswer, hstrings]
  simp only [List.map_cons, ofBytes_utf8, if_true]

theorem readObjects_records (records : List AliyunRecord) :
    readObjects ((records.flatMap fun r => [utf8 "RecordId", utf8 r.recordID]).map ofBytes) =
      records.map fun r => .object [("RecordId", .string r.recordID)] := by
  induction records with
  | nil => rfl
  | cons r records ih =>
    rw [List.flatMap_cons, List.map_append, List.map_cons, List.map_cons, List.map_nil,
      ofBytes_utf8, ofBytes_utf8, List.map_cons, ← ih]
    rfl

theorem readAnswer_describeText (records : List AliyunRecord) :
    readAnswer (describeText records) = some (.object [("DomainRecords",
      .object [("Record", .array (records.map fun r => .object [("RecordId", .string r.recordID)]))])]) := by
  have hstrings : stringsIn none (describeText records) = utf8 "DomainRecords" :: utf8 "Record" ::
      records.flatMap fun r => [utf8 "RecordId", utf8 r.recordID] := by
    rw [describeText, stringsIn_gap (by decide), stringsIn_quoted, stringsIn_gap (by decide),
      stringsIn_quoted, stringsIn_gap (by decide), stringsIn_records]
  rw [readAnswer, hstrings, List.map_cons, List.map_cons, ofBytes_utf8, ofBytes_utf8]
  change some (JSON.object [("DomainRecords", .object [("Record", .array (readObjects _))])]) = _
  rw [readObjects_records]

/-- A record that is no more than its only field. -/
theorem struct_one {α : Type} (tag : String) (decode : Decoder α) (j : JSON) (old : α) :
    struct [field tag decode id fun _ v => v] (.object [(tag, j)]) old = decode j old := by
  simp [struct, findField, field]

/-- Every record is decoded to its ID. -/
theorem aliyunRecords_object (records : List AliyunRecord) :
    aliyunRecords (.object [("DomainRecords",
      .object [("Record", .array (records.map fun r => .object [("RecordId", .string r.recordID)]))])])
        none = some (some (records.map AliyunRecord.recordID)) := by
  have hrecords (i : ℕ) : ((records.map fun r => JSON.object [("RecordId", .string r.recordID)]).zipIdx
      i).mapM (fun x => struct [field "RecordId" string id fun _ v => v] x.1
        (([] : List String)[x.2]?.getD "")) = some (records.map AliyunRecord.recordID) := by
    induction records generalizing i with
    | nil => rfl
    | cons r records ih =>
      rw [List.map_cons, List.zipIdx_cons, List.mapM_cons, struct_one, ih]
      rfl
  rw [aliyunRecords, struct_one, struct_one]
  exact congrArg (Option.map some) (hrecords 0)

def answerLibrary : Library := { ProviderAnswers.plainLibrary with parseJSON := readAnswer }

theorem length_foldr_pos (ids : List String) : 0 < (ids.foldr (· ++ ·) "x").length := by
  induction ids with
  | nil => decide
  | cons id ids ih =>
    rw [List.foldr_cons, String.length_append]
    omega

theorem length_lt_foldr {ids : List String} {id : String} (h : id ∈ ids) :
    id.length < (ids.foldr (· ++ ·) "x").length := by
  induction ids with
  | nil => cases h
  | cons other ids ih =>
    have hrest := length_foldr_pos ids
    rw [List.foldr_cons, String.length_append]
    rcases List.mem_cons.mp h with rfl | h
    · omega
    · have hlt := ih h
      omega

/-- The parameters are read after the host, and an empty host record is refused. -/
def answeringService : AliyunService answerLibrary where
  paramsOf req := AliyunQuery.decode (req.url.drop 29)
  storedRR rr := if rr = [] then none else some rr
  freshID records := (records.rows.map AliyunRecord.recordID).foldr (· ++ ·) "x"
  describeAnswer := describeText
  createAnswer := recordText
  paramsOf_query query := rfl
  storedRR_of_ne rr hrr := if_neg hrr
  fresh records r hr heq := by
    have hlt := length_lt_foldr (List.mem_map_of_mem (f := AliyunRecord.recordID) hr)
    rw [← AliyunQuery.utf8_injective heq] at hlt
    exact lt_irrefl _ hlt
  freshID_ne records heq := by
    have hpos := length_foldr_pos (records.rows.map AliyunRecord.recordID)
    rw [heq] at hpos
    exact lt_irrefl 0 hpos
  records_describeAnswer records := by
    have hparse : answerLibrary.parseJSON (describeText records) = _ := readAnswer_describeText records
    rw [hparse, Option.bind_some, aliyunRecords_object]
  created_createAnswer id := by
    have hparse : answerLibrary.parseJSON (recordText id) = _ := readAnswer_recordText id
    rw [createdRecordID, hparse]
    rfl

/-! ## The configured record -/

/-- At Cloudflare an update whose requests can be read writes to nothing but the configured record
exactly if it finds nothing, or its type is A, it is not for the apex and its name has no escapes;
any other does if it is not sent or finds nothing. At Aliyun the first host record that has the
sub-domain in it has to be the sub-domain, and so has what is made of the host record that is
sent. -/
theorem onTarget_exact_iff (lib : Library) (cfg : DDNSConfig) (ip : Bytes) :
    (∀ (svc : CloudflareService lib) (records : Table CloudflareRecord),
      (∀ asked, Readable cfg ip asked →
        (OnTarget (isConfigured cfg) records (svc.updated cfg ip records) ↔
          credential cfg "api_token" = "" ∨ credential cfg "zone_id" = "" ∨
            matching records (utf8 "A", asked) = [] ∨
            cfg.recordType = "A" ∧ cfg.subDomain ≠ "@" ∧ asked = cloudflareName cfg)) ∧
      ((Unsent cfg ∨ ∃ asked, Asks cfg asked ∧ matching records (utf8 "A", asked) = []) →
        OnTarget (isConfigured cfg) records (svc.updated cfg ip records))) ∧
    ∀ (svc : AliyunService lib) (records : Table AliyunRecord),
      OnTarget (AliyunService.isTarget cfg) records (svc.updated cfg ip records) ↔
        credential cfg "access_key_id" = "" ∨ credential cfg "access_key_secret" = "" ∨
          ∀ stored ∈ svc.storedRR (utf8 (AliyunQuery.rr cfg)), stored = utf8 cfg.subDomain ∧
            ∀ r ∈ (AliyunService.found cfg records).head?, r.rr = utf8 cfg.subDomain :=
  ⟨fun svc _ => ⟨fun _ => svc.onTarget_iff_readable, svc.onTarget_of_unsent⟩,
    fun svc _ => svc.onTarget_iff cfg ip⟩

/-- A host with an address of each family. -/
def dualConfig : DDNSConfig :=
  { DDNSConfig.zero with
    provider := "cloudflare", domain := "example.com", subDomain := "www", recordType := "AAAA",
    credentials := some [("api_token", "token"), ("zone_id", "zone")] }

def dualRecords : Table CloudflareRecord where
  rows := [⟨utf8 "1", utf8 "A", utf8 "www.example.com", utf8 "192.0.2.1", by decide⟩,
    ⟨utf8 "2", utf8 "AAAA", utf8 "www.example.com", utf8 "2001:db8::1", by decide⟩,
    ⟨utf8 "3", utf8 "A", utf8 "*.example.com", utf8 "192.0.2.1", by decide⟩]
  nodup := by decide

set_option maxRecDepth 2000 in
theorem readable_dual :
    Readable dualConfig (utf8 "2001:db8::2") (utf8 "www.example.com") := by
  refine ⟨⟨?_, ?_, ?_, ?_⟩, ?_, ?_, ?_, ?_⟩ <;> decide

/-- The update for the type AAAA turns the record of type A into another one. -/
theorem address_record_lost :
    ¬OnTarget (isConfigured dualConfig) dualRecords
      (readingService.updated dualConfig (utf8 "2001:db8::2") dualRecords) := by
  rw [readingService.onTarget_iff_readable readable_dual]
  decide

/-- All names that have no record. -/
def wildcardConfig : DDNSConfig := { dualConfig with subDomain := "*", recordType := "A" }

set_option maxRecDepth 2000 in
theorem readable_wildcard :
    Readable wildcardConfig (utf8 "192.0.2.2") (utf8 "*.example.com") := by
  refine ⟨⟨?_, ?_, ?_, ?_⟩, ?_, ?_, ?_, ?_⟩ <;> decide

/-- A sub-domain with a line feed at its end. -/
def brokenConfig : DDNSConfig := { dualConfig with subDomain := "www\n" }

/-- A host with its record. -/
def hostConfig : DDNSConfig :=
  { DDNSConfig.zero with
    provider := "aliyun", domain := "example.com", subDomain := "www", recordType := "A",
    credentials := some [("access_key_id", "id"), ("access_key_secret", "secret")] }

def hostRecords : Table AliyunRecord where
  rows := [⟨"1", utf8 "example.com", utf8 "www", utf8 "A", utf8 "192.0.2.1"⟩]
  nodup := by decide

theorem onTarget_dual :
    OnTarget (isConfigured wildcardConfig) dualRecords
        (readingService.updated wildcardConfig (utf8 "192.0.2.2") dualRecords) ∧
      OnTarget (isConfigured brokenConfig) dualRecords
        (readingService.updated brokenConfig (utf8 "192.0.2.2") dualRecords) ∧
      OnTarget (AliyunService.isTarget hostConfig) hostRecords
        (answeringService.updated hostConfig (utf8 "192.0.2.2") hostRecords) :=
  ⟨(((onTarget_exact_iff _ wildcardConfig _).1 readingService dualRecords).1 _
      readable_wildcard).mpr (by decide),
    ((onTarget_exact_iff _ brokenConfig _).1 readingService dualRecords).2
      (.inl (.inr (.inr (.inl ⟨0x0a, by decide, rfl⟩)))),
    ((onTarget_exact_iff _ hostConfig _).2 answeringService hostRecords).mpr
      (.inr (.inr (by decide)))⟩

end NetBerth.ConfiguredRecords
