import NetBerth.DDNSProviders

/-!
# What the providers answered

An update that succeeds has taken its last answer for a success. Each of the nine has its own way
to tell, and none of them looks at all that its provider may say: three look at the status and not
at the body, five at the body and not at the status, or at neither. So an update is a success that
the provider has confirmed exactly if the answer to its last request, where it is one that is taken
for a success, has a status below 400 and is no error of the API.

What is an error of an API is an argument.
-/
namespace NetBerth.ProviderAnswers
open AliyunQuery (utf8)
open ClientCalls ClientCalls.Program DDNSProviders
open Models (DDNSConfig)

/-- The client ends in success after it has taken answers from the `i`-th on, and this response
was the last. -/
def Ends (answers : ℕ → Answer) (i : ℕ) (p : Client Unit) (resp : Response) : Prop :=
  ∃ n, i ≤ n ∧ p.run (given answers) i = (.ok (), n + 1) ∧ answers n = .ok resp

section
variable {answers : ℕ → Answer} {i : ℕ} {resp : Response}

theorem not_ends_done (r : Except Failure Unit) : ¬Ends answers i (.done r) resp := by
  rintro ⟨n, hle, hrun, -⟩
  have hend : i = n + 1 := congrArg Prod.snd hrun
  omega

theorem run_send {α : Type} (req : Request) (next : Response → Client α) :
    (send req next).run (given answers) i =
      match answers i with
      | .error err => (.error (.err err), i + 1)
      | .ok resp => (next resp).run (given answers) (i + 1) := by
  rw [send, run, given]
  cases answers i <;> rfl

theorem run_send_ok {α : Type} {req : Request} {next : Response → Client α} {a : α} {j : ℕ} :
    (send req next).run (given answers) i = (.ok a, j) ↔
      ∃ r, answers i = .ok r ∧ (next r).run (given answers) (i + 1) = (.ok a, j) := by
  rw [run_send]
  cases answers i <;> simp

theorem ends_send {req : Request} {next : Response → Client Unit} :
    Ends answers i (send req next) resp ↔
      ∃ r, answers i = .ok r ∧
        (next r = succeed () ∧ r = resp ∨ Ends answers (i + 1) (next r) resp) := by
  unfold Ends
  simp only [run_send_ok]
  constructor
  · rintro ⟨n, hle, ⟨r, hr, hrun⟩, hresp⟩
    refine ⟨r, hr, ?_⟩
    rcases hle.eq_or_lt with rfl | hlt
    · rw [hr] at hresp
      exact .inl ⟨eq_done_of_run_given hrun, Except.ok.inj hresp⟩
    · exact .inr ⟨n, hlt, hrun, hresp⟩
  · rintro ⟨r, hr, ⟨hnext, rfl⟩ | ⟨n, hle, hrun, hresp⟩⟩
    · refine ⟨i, le_rfl, ⟨r, hr, ?_⟩, hr⟩
      rw [hnext]
      rfl
    · exact ⟨n, by omega, ⟨r, hr, hrun⟩, hresp⟩

/-- One request, and a check of its answer. -/
theorem ends_check {req : Request} {next : Response → Client Unit} {good : Response → Prop}
    (hgood : ∀ r, good r → next r = succeed ())
    (hbad : ∀ r, ¬good r → ∃ text, next r = fail text) :
    Ends answers i (send req next) resp ↔ answers i = .ok resp ∧ good resp := by
  rw [ends_send]
  constructor
  · rintro ⟨r, hr, hnext⟩
    by_cases hcheck : good r
    · rcases hnext with ⟨-, rfl⟩ | hends
      · exact ⟨hr, hcheck⟩
      · rw [hgood r hcheck] at hends
        exact (not_ends_done _ hends).elim
    · obtain ⟨text, hfail⟩ := hbad r hcheck
      rw [hfail] at hnext
      rcases hnext with ⟨hok, -⟩ | hends
      · cases hok
      · exact (not_ends_done _ hends).elim
  · rintro ⟨hr, hcheck⟩
    exact ⟨resp, hr, .inl ⟨hgood resp hcheck, rfl⟩⟩

theorem run_andThen {α β : Type} (p : Client α) (f : α → Client β) :
    (p.andThen f).run (given answers) i =
      match p.run (given answers) i with
      | (.error e, j) => (.error e, j)
      | (.ok a, j) => (f a).run (given answers) j := by
  rw [andThen, run_bind]
  rcases p.run (given answers) i with ⟨a | a, j⟩ <;> rfl

theorem run_andThen_ok {α β : Type} {p : Client α} {f : α → Client β} {b : β} {j : ℕ} :
    (p.andThen f).run (given answers) i = (.ok b, j) ↔
      ∃ a k, p.run (given answers) i = (.ok a, k) ∧ (f a).run (given answers) k = (.ok b, j) := by
  rw [run_andThen]
  rcases p.run (given answers) i with ⟨e | a, k⟩ <;> simp

theorem run_labelled_ok {α : Type} {label : String} {p : Client α} {a : α} {j : ℕ} :
    (labelled label p).run (given answers) i = (.ok a, j) ↔
      p.run (given answers) i = (.ok a, j) := by
  rw [labelled, run_bind]
  rcases p.run (given answers) i with ⟨(text | _) | b, k⟩ <;> simp [run]

/-- A lookup and what follows it, which does not end at once. -/
theorem ends_andThen {α : Type} {p : Client α} {f : α → Client Unit}
    (hf : ∀ a, f a ≠ succeed ()) :
    Ends answers i (p.andThen f) resp ↔
      ∃ a j, p.run (given answers) i = (.ok a, j) ∧ Ends answers j (f a) resp := by
  unfold Ends
  rw [run_andThen]
  rcases hlookup : p.run (given answers) i with ⟨e | a, j⟩
  · simp
  · have hij : i ≤ j := by
      have hle := le_run_given answers p i
      rwa [hlookup] at hle
    constructor
    · rintro ⟨n, hle, hrun, hresp⟩
      refine ⟨a, j, rfl, n, ?_, hrun, hresp⟩
      by_contra hlt
      have hle' := le_run_given answers (f a) j
      have hend : ((f a).run (given answers) j).2 = n + 1 := congrArg Prod.snd hrun
      obtain rfl : j = n + 1 := by omega
      exact hf a (eq_done_of_run_given hrun)
    · rintro ⟨a', j', heq, n, hle, hrun, hresp⟩
      cases heq
      exact ⟨n, hij.trans hle, hrun, hresp⟩

end

/-! ## What the clients look at -/

section
variable (lib : Library) (cfg : DDNSConfig) (ip : Bytes) (answers : ℕ → Answer)

/-- What is taken for a success. -/
def accepted : Provider → Response → Prop
  | .cloudflare, resp | .aliyun, resp | .godaddy, resp => resp.status < 400
  | .dnspod, resp => resp.readError = none ∧ (dnspodError lib resp.body).1 = ""
  | .duckdns, resp => utf8 "OK" <+: resp.body
  | .noip, resp => utf8 "good " <+: resp.body ∨ utf8 "nochg " <+: resp.body
  | .dynv6, resp => utf8 "addresses updated" <+: resp.body ∨
      utf8 "addresses unchanged" <+: resp.body
  | .namecheap, _ | .cloudns, _ => True

/-- The credentials without which nothing is asked. -/
def credentials : Provider → List String
  | .cloudflare => ["api_token", "zone_id"]
  | .aliyun => ["access_key_id", "access_key_secret"]
  | .dnspod => ["secret_id", "secret_key"]
  | .godaddy => ["api_key", "api_secret"]
  | .duckdns | .dynv6 => ["token"]
  | .noip => ["username", "password"]
  | .namecheap => ["password"]
  | .cloudns => ["auth_id"]

/-- The lookups go well, and this is the answer to the request that modifies. -/
def modified : Provider → Response → Prop
  | .cloudflare, resp =>
    lib.validURL (cloudflareLookup lib cfg).url = true ∧
      ∃ found id, answers 0 = .ok found ∧ recordIDIn found.body = .ok id ∧
        lib.validURL (cloudflarePut lib cfg ip id).url = true ∧ answers 1 = .ok resp
  | .aliyun, resp =>
    ∃ found records, answers 0 = .ok found ∧
      ((lib.parseJSON found.body).bind fun j => aliyunRecords j none) = some records ∧
      (records.getD [] ≠ [] ∧ answers 1 = .ok resp ∨
        records.getD [] = [] ∧ ∃ created, answers 1 = .ok created ∧
          createdRecordID lib created.body ≠ "" ∧ answers 2 = .ok resp)
  | .dnspod, resp =>
    lib.validURL (lib.rewriteURL (utf8 ("https://" ++ dnspodHost ++ "/"))) = true ∧
      ∃ found, answers 0 = .ok found ∧ found.readError = none ∧
        ((lib.parseJSON found.body).bind fun j => dnspodRecords j none).isSome = true ∧
        answers 1 = .ok resp
  | .godaddy, resp => lib.validURL (godaddyPut lib cfg ip).url = true ∧ answers 0 = .ok resp
  | .noip, resp => lib.validURL (noipGet lib cfg ip).url = true ∧ answers 0 = .ok resp
  | .duckdns, resp | .dynv6, resp | .namecheap, resp | .cloudns, resp => answers 0 = .ok resp

/-- The update gets to its last request, and this is the answer. -/
def Reached (provider : Provider) (resp : Response) : Prop :=
  (∀ key ∈ credentials provider, credential cfg key ≠ "") ∧ modified lib cfg ip answers provider resp

end

section
variable {lib : Library} {cfg : DDNSConfig} {ip : Bytes} {answers : ℕ → Answer} {resp : Response}

theorem ends_sendRequest {i : ℕ} {req : Request} {next : Response → Client Unit} :
    Ends answers i (sendRequest lib req next) resp ↔
      lib.validURL req.url = true ∧ Ends answers i (send req next) resp := by
  unfold sendRequest
  split_ifs with hvalid
  · exact (and_iff_right hvalid).symm
  · exact iff_of_false (not_ends_done _) fun h => hvalid h.1

theorem run_sendRequest_ok {α : Type} {i j : ℕ} {req : Request} {next : Response → Client α}
    {a : α} :
    (sendRequest lib req next).run (given answers) i = (.ok a, j) ↔
      lib.validURL req.url = true ∧
        (send req next).run (given answers) i = (.ok a, j) := by
  unfold sendRequest
  split_ifs with hvalid <;> simp [run, hvalid]

/-- Without the credentials the update fails before it asks. -/
theorem ends_credentials {i : ℕ} {missing : Prop} [Decidable missing] {text : Bytes}
    {p : Client Unit} :
    Ends answers i (if missing then fail text else p) resp ↔ ¬missing ∧ Ends answers i p resp := by
  split_ifs with hmissing
  · exact iff_of_false (not_ends_done _) fun h => h.1 hmissing
  · exact (and_iff_right hmissing).symm

theorem ends_status {i : ℕ} {req : Request} {text : Response → Bytes} :
    Ends answers i (send req fun r => if r.status ≥ 400 then fail (text r) else succeed ()) resp ↔
      answers i = .ok resp ∧ resp.status < 400 :=
  ends_check (fun _ hgood => if_neg (not_le.mpr hgood))
    fun r hbad => ⟨text r, if_pos (not_lt.mp hbad)⟩

theorem ends_prefix {i : ℕ} {req : Request} {label : String} {prefixes : List String} :
    Ends answers i (send req (expectPrefix label prefixes)) resp ↔
      answers i = .ok resp ∧ ∃ p ∈ prefixes, utf8 p <+: resp.body := by
  have hany (r : Response) : (prefixes.any fun p => (utf8 p).isPrefixOf r.body) = true ↔
      ∃ p ∈ prefixes, utf8 p <+: r.body := by
    simp [List.any_eq_true]
  exact ends_check (fun r hgood => if_pos ((hany r).mpr hgood))
    fun r hbad => ⟨utf8 label ++ r.body, if_neg fun h => hbad ((hany r).mp h)⟩

theorem ends_any {i : ℕ} {req : Request} :
    Ends answers i (send req fun _ => succeed ()) resp ↔ answers i = .ok resp := by
  have hcheck := @ends_check answers i resp req (fun _ => succeed ()) (fun _ => True)
    (fun _ _ => rfl) fun _ hbad => (hbad trivial).elim
  exact hcheck.trans (and_iff_left trivial)

/-- Both of two credentials are there. -/
theorem two_credentials {first second : String} :
    ¬(credential cfg first = "" ∨ credential cfg second = "") ↔
      ∀ key ∈ [first, second], credential cfg key ≠ "" := by
  simp [not_or]

theorem send_ne_succeed {α : Type} {req : Request} {next : Response → Client α} {a : α} :
    send req next ≠ succeed a := by simp [send, succeed]

theorem sendRequest_ne_succeed {α : Type} {req : Request} {next : Response → Client α} {a : α} :
    sendRequest lib req next ≠ succeed a := by
  unfold sendRequest
  split_ifs
  · exact send_ne_succeed
  · simp [succeed]

/-! ## One lemma a provider -/

theorem ends_godaddy :
    Ends answers 0 (godaddyUpdate lib cfg ip) resp ↔
      Reached lib cfg ip answers .godaddy resp ∧ accepted lib .godaddy resp := by
  rw [godaddyUpdate, ends_credentials, ends_sendRequest, ends_status]
  simp [Reached, credentials, modified, accepted, and_assoc]

theorem ends_duckdns :
    Ends answers 0 (duckdnsUpdate lib cfg ip) resp ↔
      Reached lib cfg ip answers .duckdns resp ∧ accepted lib .duckdns resp := by
  rw [duckdnsUpdate, ends_credentials, DDNSProviders.get, ends_prefix]
  simp [Reached, credentials, modified, accepted, and_assoc]

theorem ends_noip :
    Ends answers 0 (noipUpdate lib cfg ip) resp ↔
      Reached lib cfg ip answers .noip resp ∧ accepted lib .noip resp := by
  rw [noipUpdate, ends_credentials, ends_sendRequest, ends_prefix]
  simp [Reached, credentials, modified, accepted, and_assoc]

theorem ends_dynv6 :
    Ends answers 0 (dynv6Update lib cfg ip) resp ↔
      Reached lib cfg ip answers .dynv6 resp ∧ accepted lib .dynv6 resp := by
  rw [dynv6Update, ends_credentials, DDNSProviders.get, ends_prefix]
  simp [Reached, credentials, modified, accepted, and_assoc]

theorem ends_namecheap :
    Ends answers 0 (namecheapUpdate lib cfg ip) resp ↔
      Reached lib cfg ip answers .namecheap resp ∧ accepted lib .namecheap resp := by
  rw [namecheapUpdate, ends_credentials, DDNSProviders.get, ends_any]
  simp [Reached, credentials, modified, accepted]

theorem ends_cloudns :
    Ends answers 0 (cloudnsUpdate lib cfg) resp ↔
      Reached lib cfg ip answers .cloudns resp ∧ accepted lib .cloudns resp := by
  rw [cloudnsUpdate, ends_credentials, DDNSProviders.get, ends_any]
  simp [Reached, credentials, modified, accepted]

theorem run_cloudflareGetRecordID {id : Bytes} {j : ℕ} :
    (cloudflareGetRecordID lib cfg).run (given answers) 0 = (.ok id, j) ↔
      lib.validURL (cloudflareLookup lib cfg).url = true ∧
        ∃ found, answers 0 = .ok found ∧ recordIDIn found.body = .ok id ∧ j = 1 := by
  rw [cloudflareGetRecordID, run_sendRequest_ok, run_send_ok]
  apply and_congr_right
  intro _
  apply exists_congr
  intro found
  apply and_congr_right
  intro _
  cases recordIDIn found.body with
  | error text => simp [fail, run]
  | ok id' => simp [succeed, run, eq_comm]

theorem ends_cloudflare :
    Ends answers 0 (updateCloudflare lib cfg ip) resp ↔
      Reached lib cfg ip answers .cloudflare resp ∧ accepted lib .cloudflare resp := by
  rw [updateCloudflare, ends_credentials, ends_andThen fun _ => sendRequest_ne_succeed,
    two_credentials]
  simp only [run_labelled_ok, run_cloudflareGetRecordID, ends_sendRequest, ends_status]
  constructor
  · rintro ⟨hkeys, id, -, ⟨hlookup, found, hfound, hid, rfl⟩, hput, hresp, hstatus⟩
    exact ⟨⟨hkeys, hlookup, found, id, hfound, hid, hput, hresp⟩, hstatus⟩
  · rintro ⟨⟨hkeys, hlookup, found, id, hfound, hid, hput, hresp⟩, hstatus⟩
    exact ⟨hkeys, id, 1, ⟨hlookup, found, hfound, hid, rfl⟩, hput, hresp, hstatus⟩

theorem run_aliyunCreateRecord {recordID : String} {i j : ℕ} :
    (aliyunCreateRecord lib cfg 1).run (given answers) i = (.ok recordID, j) ↔
      ∃ created, answers i = .ok created ∧ createdRecordID lib created.body = recordID ∧
        recordID ≠ "" ∧ j = i + 1 := by
  rw [aliyunCreateRecord, DDNSProviders.get, run_send_ok]
  apply exists_congr
  intro created
  apply and_congr_right
  intro _
  dsimp only
  split_ifs with hempty
  · simp only [fail, run, Prod.mk.injEq, reduceCtorEq, false_and, false_iff]
    rintro ⟨rfl, hne, -⟩
    exact hne hempty
  · simp only [succeed, run, Prod.mk.injEq, Except.ok.injEq]
    constructor
    · rintro ⟨rfl, rfl⟩
      exact ⟨rfl, hempty, rfl⟩
    · rintro ⟨rfl, -, rfl⟩
      exact ⟨rfl, rfl⟩

/-- The record is the first one found, or one that was created. -/
theorem run_aliyunGetRecord {found : String × ℕ} {j : ℕ} :
    (aliyunGetRecord lib cfg).run (given answers) 0 = (.ok found, j) ↔
      ∃ listed records, answers 0 = .ok listed ∧
        ((lib.parseJSON listed.body).bind fun k => aliyunRecords k none) = some records ∧
        ((∃ rest, records.getD [] = found.1 :: rest) ∧ found.2 = 1 ∧ j = 1 ∨
          records.getD [] = [] ∧ ∃ created, answers 1 = .ok created ∧
            createdRecordID lib created.body = found.1 ∧ found.1 ≠ "" ∧ found.2 = 2 ∧ j = 2) := by
  rw [aliyunGetRecord, DDNSProviders.get, run_send_ok]
  apply exists_congr
  intro listed
  rw [exists_and_left]
  apply and_congr_right
  intro _
  cases hparse : (lib.parseJSON listed.body).bind fun k => aliyunRecords k none with
  | none => simp [fail, run]
  | some records =>
    simp only [Option.some.injEq]
    cases hlist : records.getD [] with
    | nil =>
      rw [run_andThen_ok]
      simp only [run_aliyunCreateRecord, succeed, run, Prod.mk.injEq, Except.ok.injEq]
      constructor
      · rintro ⟨recordID, k, ⟨created, hcreated, hid, hne, rfl⟩, rfl, rfl⟩
        exact ⟨records, rfl, .inr ⟨hlist, created, hcreated, hid, hne, rfl, rfl⟩⟩
      · rintro ⟨_, rfl, ⟨⟨rest, hrest⟩, -⟩ | ⟨-, created, hcreated, hid, hne, hnext, rfl⟩⟩
        · cases hlist.symm.trans hrest
        · exact ⟨found.1, 2, ⟨created, hcreated, hid, hne, rfl⟩, Prod.ext rfl hnext.symm, rfl⟩
    | cons recordID rest =>
      simp only [succeed, run, Prod.mk.injEq, Except.ok.injEq]
      constructor
      · rintro ⟨rfl, rfl⟩
        exact ⟨records, rfl, .inl ⟨⟨rest, hlist⟩, rfl, rfl⟩⟩
      · rintro ⟨_, rfl, ⟨⟨rest', hrest⟩, hnext, rfl⟩ | ⟨hnil, -⟩⟩
        · have hid : recordID = found.1 := (List.cons.inj (hlist.symm.trans hrest)).1
          exact ⟨Prod.ext hid hnext.symm, rfl⟩
        · cases hlist.symm.trans hnil

theorem ends_aliyun :
    Ends answers 0 (updateAliyun lib cfg ip) resp ↔
      Reached lib cfg ip answers .aliyun resp ∧ accepted lib .aliyun resp := by
  have hasks (found : String × ℕ) :
      aliyunUpdateRecord lib cfg ip found.2 found.1 ≠ succeed () := send_ne_succeed
  have hupdate (j : ℕ) (found : String × ℕ) :
      Ends answers j (aliyunUpdateRecord lib cfg ip found.2 found.1) resp ↔
        answers j = .ok resp ∧ resp.status < 400 := ends_status
  rw [updateAliyun, ends_credentials, ends_andThen hasks, two_credentials, Reached, and_assoc]
  simp only [run_labelled_ok, run_aliyunGetRecord, hupdate]
  apply and_congr_right
  intro _
  constructor
  · rintro ⟨found, j, ⟨listed, records, hlisted, hrecords, hcase⟩, hresp, hstatus⟩
    refine ⟨⟨listed, records, hlisted, hrecords, ?_⟩, hstatus⟩
    rcases hcase with ⟨⟨rest, hlist⟩, -, rfl⟩ | ⟨hnil, created, hcreated, hid, hne, -, rfl⟩
    · exact .inl ⟨by simp [hlist], hresp⟩
    · exact .inr ⟨hnil, created, hcreated, hid ▸ hne, hresp⟩
  · rintro ⟨⟨listed, records, hlisted, hrecords, hcase⟩, hstatus⟩
    rcases hcase with ⟨hlist, hresp⟩ | ⟨hnil, created, hcreated, hne, hresp⟩
    · obtain ⟨recordID, rest, hcons⟩ := List.exists_cons_of_ne_nil hlist
      exact ⟨(recordID, 1), 1, ⟨listed, records, hlisted, hrecords,
        .inl ⟨⟨rest, hcons⟩, rfl, rfl⟩⟩, hresp, hstatus⟩
    · exact ⟨(createdRecordID lib created.body, 2), 2, ⟨listed, records, hlisted, hrecords,
        .inr ⟨hnil, created, hcreated, rfl, hne, rfl, rfl⟩⟩, hresp, hstatus⟩

theorem run_dnspodGetRecord {recordID : ℤ} {j : ℕ} :
    (dnspodGetRecord lib cfg).run (given answers) 0 = (.ok recordID, j) ↔
      lib.validURL (lib.rewriteURL (utf8 ("https://" ++ dnspodHost ++ "/"))) = true ∧
        ∃ found, answers 0 = .ok found ∧ found.readError = none ∧
          ∃ records, ((lib.parseJSON found.body).bind fun k => dnspodRecords k none) =
            some records ∧ recordID = (records.getD []).head?.elim 0 Prod.fst ∧ j = 1 := by
  rw [dnspodGetRecord, dnspodCall, run_sendRequest_ok, run_send_ok]
  apply and_congr_right
  intro _
  apply exists_congr
  intro found
  apply and_congr_right
  intro _
  cases found.readError with
  | some err => simp [fail, run]
  | none =>
    cases (lib.parseJSON found.body).bind fun k => dnspodRecords k none with
    | none => simp [fail, run]
    | some records => simp [succeed, run, eq_comm]

/-- Whether the record is created or modified makes no difference to what is taken for a success. -/
theorem ends_dnspodCall {i j : ℕ} {action : String} {payload : List (String × JSONDecode.JSON)}
    {text : Bytes → Bytes} :
    Ends answers j (dnspodCall lib cfg i action payload fun body =>
        if (dnspodError lib body).1 ≠ "" then fail (text body) else succeed ()) resp ↔
      lib.validURL (lib.rewriteURL (utf8 ("https://" ++ dnspodHost ++ "/"))) = true ∧
        answers j = .ok resp ∧ resp.readError = none ∧ (dnspodError lib resp.body).1 = "" := by
  rw [dnspodCall, ends_sendRequest]
  apply and_congr_right
  intro _
  apply ends_check
  · rintro r ⟨hread, hcode⟩
    rw [hread]
    exact if_neg (not_not_intro hcode)
  · intro r hbad
    cases hread : r.readError with
    | some err => exact ⟨err, rfl⟩
    | none => exact ⟨text r.body, if_pos fun hcode => hbad ⟨hread, hcode⟩⟩

theorem ends_dnspod :
    Ends answers 0 (updateDNSPod lib cfg ip) resp ↔
      Reached lib cfg ip answers .dnspod resp ∧ accepted lib .dnspod resp := by
  have hcall (recordID : ℤ) (j : ℕ) :
      Ends answers j (if recordID = 0 then dnspodCreateRecord lib cfg ip
          else dnspodUpdateRecord lib cfg ip recordID) resp ↔
        lib.validURL (lib.rewriteURL (utf8 ("https://" ++ dnspodHost ++ "/"))) = true ∧
          answers j = .ok resp ∧ resp.readError = none ∧ (dnspodError lib resp.body).1 = "" := by
    split_ifs
    · exact ends_dnspodCall
    · exact ends_dnspodCall
  have hasks (recordID : ℤ) : (if recordID = 0 then dnspodCreateRecord lib cfg ip
      else dnspodUpdateRecord lib cfg ip recordID) ≠ succeed () := by
    split_ifs
    · exact sendRequest_ne_succeed
    · exact sendRequest_ne_succeed
  rw [updateDNSPod, ends_credentials, ends_andThen hasks, two_credentials, Reached, and_assoc]
  simp only [run_labelled_ok, run_dnspodGetRecord, hcall]
  apply and_congr_right
  intro _
  constructor
  · rintro ⟨recordID, _, ⟨hvalid, found, hfound, hread, records, hrecords, -, rfl⟩, -, hresp, hok⟩
    exact ⟨⟨hvalid, found, hfound, hread, hrecords ▸ rfl, hresp⟩, hok⟩
  · rintro ⟨⟨hvalid, found, hfound, hread, hsome, hresp⟩, hok⟩
    obtain ⟨records, hrecords⟩ := Option.isSome_iff_exists.mp hsome
    exact ⟨_, 1, ⟨hvalid, found, hfound, hread, records, hrecords, rfl, rfl⟩, hvalid, hresp, hok⟩

/-- An update ends in success on the answer to its last request, if that is one that is taken for
a success. -/
theorem ends_update (provider : Provider) :
    Ends answers 0 (provider.update lib cfg ip) resp ↔
      Reached lib cfg ip answers provider resp ∧ accepted lib provider resp := by
  cases provider with
  | cloudflare => exact ends_cloudflare
  | aliyun => exact ends_aliyun
  | dnspod => exact ends_dnspod
  | godaddy => exact ends_godaddy
  | duckdns => exact ends_duckdns
  | noip => exact ends_noip
  | dynv6 => exact ends_dynv6
  | namecheap => exact ends_namecheap
  | cloudns => exact ends_cloudns

end

/-! ## No success without an answer -/

/-- An answer that is an error ends the client in a failure. -/
inductive Heeds {α : Type} : Client α → Prop
  | done (r : Except Failure α) : Heeds (.done r)
  | call (req : Request) {next : Answer → Client α}
      (herror : ∀ err, ∃ e, next (.error err) = .done (.error e))
      (hok : ∀ resp, Heeds (next (.ok resp))) : Heeds (.call req next)

namespace Heeds

variable {α β : Type}

theorem send {req : Request} {next : Response → Client α} (h : ∀ resp, Heeds (next resp)) :
    Heeds (DDNSProviders.send req next) :=
  call req (fun err => ⟨.err err, rfl⟩) h

theorem sendRequest {lib : Library} {req : Request} {next : Response → Client α}
    (h : ∀ resp, Heeds (next resp)) : Heeds (DDNSProviders.sendRequest lib req next) := by
  unfold DDNSProviders.sendRequest
  split_ifs
  · exact send h
  · exact done _

theorem bind {p : Client α} {f : Except Failure α → Client β} (hp : Heeds p)
    (herror : ∀ e, ∃ e', f (.error e) = .done (.error e')) (hf : ∀ r, Heeds (f r)) :
    Heeds (p.bind f) := by
  induction hp with
  | done r => exact hf r
  | @call req next hnext _ ih =>
    refine call req (fun err => ?_) ih
    obtain ⟨e, he⟩ := hnext err
    obtain ⟨e', he'⟩ := herror e
    refine ⟨e', ?_⟩
    rw [he]
    exact he'

theorem andThen {p : Client α} {f : α → Client β} (hp : Heeds p) (hf : ∀ a, Heeds (f a)) :
    Heeds (p.andThen f) := by
  refine hp.bind (fun e => ⟨e, rfl⟩) fun r => ?_
  cases r with
  | error e => exact done _
  | ok a => exact hf a

theorem labelled {label : String} {p : Client α} (hp : Heeds p) :
    Heeds (DDNSProviders.labelled label p) := by
  refine hp.bind (fun e => ?_) fun r => ?_
  · cases e with
    | err text => exact ⟨.err (utf8 label ++ text), rfl⟩
    | panic => exact ⟨.panic, rfl⟩
  · cases r with
    | error e => cases e <;> exact done _
    | ok a => exact done _

theorem ite {c : Prop} [Decidable c] {p q : Client α} (hp : Heeds p) (hq : Heeds q) :
    Heeds (if c then p else q) := by
  split_ifs
  · exact hp
  · exact hq

theorem expectPrefix (label : String) (prefixes : List String) (resp : Response) :
    Heeds (DDNSProviders.expectPrefix label prefixes resp) := (done _).ite (done _)

/-- What such a client succeeds with comes after a response. -/
theorem response {answers : ℕ → Answer} {p : Client α} (hp : Heeds p) {i j : ℕ} {a : α}
    (hrun : p.run (given answers) i = (.ok a, j)) (hne : p ≠ succeed a) :
    ∃ n resp, i ≤ n ∧ j = n + 1 ∧ answers n = .ok resp := by
  induction hp generalizing i with
  | done r =>
    have hr : r = .ok a := congrArg Prod.fst hrun
    exact (hne (congrArg Program.done hr)).elim
  | @call req next hnext hok ih =>
    change (next (answers i)).run (given answers) (i + 1) = (.ok a, j) at hrun
    cases hanswer : answers i with
    | error err =>
      obtain ⟨e, he⟩ := hnext err
      rw [hanswer, he] at hrun
      cases hrun
    | ok resp =>
      rw [hanswer] at hrun
      by_cases hlast : next (.ok resp) = succeed a
      · rw [hlast] at hrun
        have hend : j = i + 1 := (congrArg Prod.snd hrun).symm
        exact ⟨i, resp, le_rfl, hend, hanswer⟩
      · obtain ⟨n, resp', hle, hj, hn⟩ := ih resp hrun hlast
        exact ⟨n, resp', by omega, hj, hn⟩

end Heeds

section
variable {lib : Library} {cfg : DDNSConfig} {ip : Bytes}

theorem heeds_aliyunGetRecord : Heeds (aliyunGetRecord lib cfg) := by
  refine .send fun resp => ?_
  split
  · exact .done _
  · split
    · have hcreate : Heeds (aliyunCreateRecord lib cfg 1) := .send fun _ => (Heeds.done _).ite (.done _)
      exact hcreate.andThen fun _ => .done _
    · exact .done _

theorem heeds_dnspodCall {α : Type} {i : ℕ} {action : String}
    {payload : List (String × JSONDecode.JSON)} {next : Bytes → Client α}
    (h : ∀ body, Heeds (next body)) : Heeds (dnspodCall lib cfg i action payload next) := by
  refine .sendRequest fun resp => ?_
  split
  · exact .done _
  · exact h _

theorem heeds_update (provider : Provider) : Heeds (provider.update lib cfg ip) := by
  cases provider with
  | cloudflare =>
    have hget : Heeds (cloudflareGetRecordID lib cfg) := by
      refine .sendRequest fun resp => ?_
      split <;> exact .done _
    exact (Heeds.done _).ite (hget.labelled.andThen fun _ =>
      .sendRequest fun _ => (Heeds.done _).ite (.done _))
  | aliyun =>
    exact (Heeds.done _).ite (heeds_aliyunGetRecord.labelled.andThen fun _ =>
      .send fun _ => (Heeds.done _).ite (.done _))
  | dnspod =>
    have hget : Heeds (dnspodGetRecord lib cfg) := by
      refine heeds_dnspodCall fun body => ?_
      split <;> exact .done _
    have hcall (i : ℕ) (action : String) (payload : List (String × JSONDecode.JSON))
        (text : Bytes → Bytes) : Heeds (dnspodCall lib cfg i action payload fun body =>
          if (dnspodError lib body).1 ≠ "" then fail (text body) else succeed ()) :=
      heeds_dnspodCall fun _ => (Heeds.done _).ite (.done _)
    exact (Heeds.done _).ite (hget.labelled.andThen fun _ => (hcall _ _ _ _).ite (hcall _ _ _ _))
  | godaddy => exact (Heeds.done _).ite (.sendRequest fun _ => (Heeds.done _).ite (.done _))
  | noip => exact (Heeds.done _).ite (.sendRequest (.expectPrefix _ _))
  | duckdns | dynv6 => exact (Heeds.done _).ite (.send (.expectPrefix _ _))
  | namecheap | cloudns => exact (Heeds.done _).ite (.send fun _ => .done _)

/-! Nothing is asked only where the update fails. -/

theorem ite_fail_ne_succeed {c : Prop} [Decidable c] {text : Bytes} {p : Client Unit}
    (hp : p ≠ succeed ()) : (if c then fail text else p) ≠ succeed () := by
  split_ifs
  · simp [fail, succeed]
  · exact hp

theorem bind_ne_succeed {α β : Type} {p : Client α} {f : Except Failure α → Client β} {b : β}
    (hp : ∀ a, p ≠ succeed a) (herror : ∀ e, f (.error e) ≠ succeed b) : p.bind f ≠ succeed b := by
  cases p with
  | done r =>
    cases r with
    | error e => exact herror e
    | ok a => exact (hp a rfl).elim
  | call req next => simp [Program.bind, succeed]

theorem lookup_ne_succeed {α : Type} {label : String} {p : Client α} {f : α → Client Unit}
    (hp : ∀ a, p ≠ succeed a) : (labelled label p).andThen f ≠ succeed () := by
  refine bind_ne_succeed (fun a => bind_ne_succeed hp fun e => ?_) fun e => ?_
  · cases e <;> simp [succeed]
  · simp [succeed]

theorem update_ne_succeed (provider : Provider) : provider.update lib cfg ip ≠ succeed () := by
  cases provider with
  | cloudflare => exact ite_fail_ne_succeed (lookup_ne_succeed fun _ => sendRequest_ne_succeed)
  | aliyun => exact ite_fail_ne_succeed (lookup_ne_succeed fun _ => send_ne_succeed)
  | dnspod => exact ite_fail_ne_succeed (lookup_ne_succeed fun _ => sendRequest_ne_succeed)
  | godaddy | noip => exact ite_fail_ne_succeed sendRequest_ne_succeed
  | duckdns | dynv6 | namecheap | cloudns => exact ite_fail_ne_succeed send_ne_succeed

/-- An update succeeds if it gets to its last request and the answer is taken for a success. -/
theorem update_ok_iff {answers : ℕ → Answer} (provider : Provider) :
    ((provider.update lib cfg ip).run (given answers) 0).1 = .ok () ↔
      ∃ resp, Reached lib cfg ip answers provider resp ∧ accepted lib provider resp := by
  simp only [← ends_update]
  constructor
  · intro hok
    have hrun : (provider.update lib cfg ip).run (given answers) 0 =
        (.ok (), ((provider.update lib cfg ip).run (given answers) 0).2) := Prod.ext hok rfl
    obtain ⟨n, resp, hle, hj, hn⟩ :=
      (heeds_update provider).response hrun (update_ne_succeed provider)
    rw [hj] at hrun
    exact ⟨resp, n, hle, hrun, hn⟩
  · rintro ⟨resp, n, -, hrun, -⟩
    exact congrArg Prod.fst hrun

end

/-! ## What the provider said -/

section
variable (isError : Provider → Bytes → Prop)
variable (lib : Library) (cfg : DDNSConfig) (ip : Bytes) (answers : ℕ → Answer)

/-- A success has been confirmed by the answer to the last request. -/
def Confirmed : Prop :=
  ((updateDNS lib cfg ip).run (given answers) 0).1 = .ok () →
    ∃ provider req resp, providerOf cfg.provider = some provider ∧
      ((updateDNS lib cfg ip).exchanges (given answers) 0).getLast? = some (req, .ok resp) ∧
      resp.status < 400 ∧ ¬isError provider resp.body

/-- A success is confirmed exactly if no answer that is taken for one is an error. -/
theorem confirmed_iff :
    Confirmed isError lib cfg ip answers ↔
      ∀ provider resp, providerOf cfg.provider = some provider →
        Reached lib cfg ip answers provider resp → accepted lib provider resp →
          resp.status < 400 ∧ ¬isError provider resp.body := by
  unfold Confirmed updateDNS
  cases hprovider : providerOf cfg.provider with
  | none => simp [fail, run]
  | some provider =>
    simp only [Option.some.injEq]
    rw [update_ok_iff]
    constructor
    · rintro hconfirmed _ resp rfl hreached haccepted
      obtain ⟨_, req, resp', rfl, hlast, hsaid⟩ := hconfirmed ⟨resp, hreached, haccepted⟩
      obtain ⟨n, hle, hrun, hresp⟩ := (ends_update provider).mpr ⟨hreached, haccepted⟩
      obtain ⟨req', hlast'⟩ := getLast?_exchanges_given hrun hle
      rw [hresp] at hlast'
      cases hlast.symm.trans hlast'
      exact hsaid
    · rintro hcondition ⟨resp, hreached, haccepted⟩
      obtain ⟨n, hle, hrun, hresp⟩ := (ends_update provider).mpr ⟨hreached, haccepted⟩
      obtain ⟨req, hlast⟩ := getLast?_exchanges_given hrun hle
      rw [hresp] at hlast
      exact ⟨provider, req, resp, rfl, hlast, hcondition provider resp rfl hreached haccepted⟩

end

/-- No JSON is parsed, and every digest is empty. -/
def plainLibrary : Library where
  rewriteURL url := url
  validURL _ := true
  parseJSON _ := none
  unmarshalError _ := []
  marshal _ := []
  validText _ := ""
  sha256 _ := []
  hmacSHA256 _ _ := []
  hmacSHA1 _ _ := []
  range := AliyunQuery.sortedRange
  moment _ := ⟨"2025-01-01T00:00:00Z", "2025-01-01", 1735689600, 0⟩

def namecheapConfig : DDNSConfig :=
  { DDNSConfig.zero with
    provider := "namecheap", domain := "example.com", subDomain := "www", recordType := "A",
    credentials := some [("password", "secret")] }

theorem server_error_unconfirmed :
    ¬Confirmed (fun _ _ => False) plainLibrary namecheapConfig (utf8 "192.0.2.1")
      fun _ => .ok ⟨500, [], none⟩ := by
  intro hconfirmed
  obtain ⟨_, req, resp, -, hlast, hstatus, -⟩ := hconfirmed rfl
  have hanswer := congrArg (Option.map Prod.snd) hlast
  change some (Except.ok (⟨500, [], none⟩ : Response)) = some (.ok resp) at hanswer
  cases hanswer
  exact absurd hstatus (by decide)

end NetBerth.ProviderAnswers
