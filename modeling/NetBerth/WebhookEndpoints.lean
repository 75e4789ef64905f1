import NetBerth.Accounts
import NetBerth.WebhookDispatch

/-!
# The endpoints of the webhooks

An endpoint is created and updated with what has been trimmed and checked, and listed without its
secret. An update that gives no secret keeps the one there is: it reads the row and writes the
secret back with the rest. So every row is one that would be accepted again, and what is listed
can be sent back as it is. But a secret that is given between the read and the write of another
update is lost, and nothing else loses one.
-/
namespace NetBerth.WebhookEndpoints
open Interleaving SqlTable JSONDecode
open Accounts (trimSpace isSpace)
open WebhookDispatch (allEventTypes)

abbrev ID := String
abbrev Time := ℤ

structure WebhookRequest where
  name : String
  url : String
  secret : String
  events : Option (List String)
  enabled : Option Bool
  deriving DecidableEq, Repr

structure EndpointRow extends WebhookDispatch.Row where
  createdAt : Time
  updatedAt : Time

instance : Keyed EndpointRow ID := ⟨fun row => row.id⟩

/-- An endpoint as it is sent. -/
structure Shown where
  id : ID
  name : String
  url : String
  hasSecret : Bool
  events : Option (List String)
  enabled : Bool
  createdAt : Time
  updatedAt : Time
  deriving DecidableEq, Repr

/-! ## The checks -/

/-- The scheme and the host of `url.Parse`. -/
abbrev ParseURL := String → Option (String × String)

section
variable (parse : ParseURL)

/-- What `validateWebhookRequest` leaves in the request. -/
def trimmed (req : WebhookRequest) : WebhookRequest :=
  { req with name := trimSpace req.name, url := trimSpace req.url }

def httpURL (url : String) : Bool :=
  (parse url).any fun u => (u.1 = "http" ∨ u.1 = "https") ∧ u.2 ≠ ""

/-- The message of the first check that fails. -/
def validateWebhookRequest (req : WebhookRequest) : Option String :=
  let req := trimmed req
  if req.name = "" then some "name required"
  else if req.name.utf8ByteSize > 64 then some "name too long"
  else if httpURL parse req.url = false then some "url must be a valid http(s) URL"
  else if req.url.utf8ByteSize > 1024 then some "url too long"
  else if req.secret ≠ "" ∧ req.secret.utf8ByteSize > 128 then some "secret too long"
  else ((req.events.getD []).find? fun e => e ∉ allEventTypes).map ("unknown event type: " ++ ·)

end

/-- `json.Marshal` of the events. -/
def eventsJSON : Option (List String) → JSON
  | none => .null
  | some events => .array (events.map .string)

/-- `json.Unmarshal` of the column, with its error. -/
def scanEvents (events : Option JSON) : Option (List String) :=
  (events.bind fun j => slice "" JSONDecode.string j none).getD none

def boolInt (b : Bool) : ℤ := if b then 1 else 0

/-! ## The handlers -/

/-- The rows, and the secret that was last given for each id, which no statement reads. -/
structure Store where
  rows : Table EndpointRow
  given : ID → String

inductive Response where
  | error (status : ℕ) (message : String)
  | listed (endpoints : List Shown)
  | created (endpoint : Shown) (secret : String)
  | message (text : String)
  deriving DecidableEq, Repr

/-- A body that is not decoded is `none`; a creation comes with what `generateUUID` returns. -/
inductive Request where
  | list
  | create (body : Option WebhookRequest) (uuid : ID)
  | update (id : ID) (body : Option WebhookRequest)
  | delete (id : ID)
  deriving DecidableEq, Repr

/-- The columns an update sets, and whether the secret is that of the request. -/
structure Setting where
  name : String
  url : String
  secret : String
  events : Option (List String)
  enabled : Bool
  named : Bool
  deriving DecidableEq, Repr

/-- The statement a handler is about to send. -/
inductive Proc where
  | done (response : Response)
  | listQuery
  | createExec (req : WebhookRequest) (uuid : ID)
  | updateQuery (id : ID) (req : WebhookRequest)
  | updateExec (id : ID) (setting : Setting)
  | deleteExec (id : ID)
  deriving DecidableEq, Repr

/-- The statement is executed at this time, or fails. -/
inductive Choice where
  | go (now : Time)
  | fail
  deriving DecidableEq, Repr

abbrev State := Config Store Proc
abbrev Action := Act Request Choice

def EndpointRow.shown (row : EndpointRow) : Shown :=
  ⟨row.id, row.name, row.url, row.secret ≠ "", scanEvents row.events, row.enabled = 1,
    row.createdAt, row.updatedAt⟩

/-- `ORDER BY created_at DESC`. -/
def listed (t : Table EndpointRow) : List Shown :=
  (t.rows.mergeSort fun a b => b.createdAt ≤ a.createdAt).map EndpointRow.shown

def newRow (req : WebhookRequest) (uuid : ID) (now : Time) : EndpointRow where
  id := uuid
  name := trimSpace req.name
  url := trimSpace req.url
  secret := req.secret
  events := some (eventsJSON req.events)
  enabled := boolInt (req.enabled.getD true)
  createdAt := now
  updatedAt := now

/-- What an update sets in the row that it has read. -/
def setting (req : WebhookRequest) (current : EndpointRow) : Setting where
  name := trimSpace req.name
  url := trimSpace req.url
  secret := if req.secret ≠ "" then req.secret else current.secret
  events := req.events
  enabled := req.enabled.getD (current.enabled = 1)
  named := req.secret ≠ ""

def EndpointRow.set (x : Setting) (now : Time) (row : EndpointRow) : EndpointRow :=
  { row with
    name := x.name, url := x.url, secret := x.secret, events := some (eventsJSON x.events),
    enabled := boolInt x.enabled, updatedAt := now }

/-- `INSERT`, `none` where the id is taken. -/
def insertRow (s : Store) (row : EndpointRow) : Option Store :=
  (s.rows.insert row).map fun t => ⟨t, Function.update s.given row.id row.secret⟩

/-- `UPDATE ... WHERE id=?`. -/
def updateRow (s : Store) (id : ID) (x : Setting) (now : Time) : Store where
  rows := s.rows.update (fun row => row.id = id) (EndpointRow.set x now) fun _ => rfl
  given := if x.named then Function.update s.given id x.secret else s.given

section
variable (parse : ParseURL)

def start : Request → Proc
  | .list => .listQuery
  | .create none _ | .update _ none => .done (.error 400 "invalid request body")
  | .create (some req) uuid =>
    match validateWebhookRequest parse req with
    | some msg => .done (.error 400 msg)
    | none => .createExec (trimmed req) uuid
  | .update id (some req) =>
    match validateWebhookRequest parse req with
    | some msg => .done (.error 400 msg)
    | none => .updateQuery id (trimmed req)
  | .delete id => .deleteExec id

/-- A statement, and what the handler does up to the next. -/
def step (a : Choice) (s : Store) : Proc → Option (Store × Proc)
  | .done _ => none
  | .listQuery =>
    match a with
    | .go _ => some (s, .done (.listed (listed s.rows)))
    | .fail => some (s, .done (.error 500 "query failed"))
  | .createExec req uuid =>
    match a with
    | .go now =>
      let row := newRow req uuid now
      match insertRow s row with
      | some s' => some (s', .done (.created row.shown req.secret))
      | none => some (s, .done (.error 500 "create failed"))
    | .fail => some (s, .done (.error 500 "create failed"))
  | .updateQuery id req =>
    match a with
    | .go _ =>
      match s.rows.select id with
      | some row => some (s, .updateExec id (setting req row))
      | none => some (s, .done (.error 404 "webhook endpoint not found"))
    | .fail => some (s, .done (.error 500 "query failed"))
  | .updateExec id x =>
    match a with
    | .go now => some (updateRow s id x now, .done (.message "updated"))
    | .fail => some (s, .done (.error 500 "update failed"))
  | .deleteExec id =>
    match a with
    | .go _ =>
      if (s.rows.select id).isSome then
        some ({ s with rows := s.rows.delete fun row => row.id = id }, .done (.message "deleted"))
      else some (s, .done (.error 404 "webhook endpoint not found"))
    | .fail => some (s, .done (.error 500 "delete failed"))

def machine : Machine Store Proc Request Choice := ⟨start parse, step⟩

end

/-! ## What is in the rows -/

/-- What passes the checks. -/
structure Valid (parse : ParseURL) (name url secret : String) (events : Option (List String)) :
    Prop where
  name : trimSpace name = name ∧ name ≠ "" ∧ name.utf8ByteSize ≤ 64
  url : trimSpace url = url ∧ httpURL parse url = true ∧ url.utf8ByteSize ≤ 1024
  secret : secret.utf8ByteSize ≤ 128
  events : ∀ e ∈ events.getD [], e ∈ allEventTypes

theorem trimSpace_trimSpace (s : String) : trimSpace (trimSpace s) = trimSpace s := by
  have hrdrop : ∀ l : List Char, (l.reverse.dropWhile isSpace).reverse = l.rdropWhile isSpace :=
    fun _ => rfl
  unfold trimSpace
  rw [String.toList_ofList, hrdrop, hrdrop]
  generalize hl : s.toList.dropWhile isSpace = l
  have hstart : l.dropWhile isSpace = l := by
    rw [← hl]
    exact List.dropWhile_idempotent _ _
  have hkept : (l.rdropWhile isSpace).dropWhile isSpace = l.rdropWhile isSpace := by
    rw [List.dropWhile_eq_self_iff] at hstart ⊢
    intro hpos
    have hpre := List.rdropWhile_prefix isSpace l
    have hlen : 0 < l.length := lt_of_lt_of_le hpos hpre.length_le
    rw [hpre.getElem hpos]
    exact hstart hlen
  rw [hkept, List.rdropWhile_idempotent]

theorem mapM_string (events : List String) (n : ℕ) :
    ((events.map JSON.string).zipIdx n).mapM
      (fun x => JSONDecode.string x.1 (((([] : List String))[x.2]?).getD "")) = some events := by
  induction events generalizing n with
  | nil => rfl
  | cons e events ih =>
    rw [List.map_cons, List.zipIdx_cons, List.mapM_cons, ih]
    rfl

theorem scanEvents_eventsJSON (events : Option (List String)) :
    scanEvents (some (eventsJSON events)) = events := by
  cases events with
  | none => rfl
  | some events =>
    show (Option.map some (((events.map JSON.string).zipIdx 0).mapM _)).getD none = _
    rw [Option.getD_none, mapM_string]
    rfl

section
variable {parse : ParseURL} {req : WebhookRequest} {s s' : Store} {p q : Proc} {a : Choice}
  {row : EndpointRow} {id : ID} {x : Setting}

theorem valid_of_validate (h : validateWebhookRequest parse req = none) :
    Valid parse (trimmed req).name (trimmed req).url req.secret req.events := by
  unfold validateWebhookRequest at h
  dsimp only at h
  split_ifs at h with hempty hname hurl hlong hsecret
  refine ⟨⟨trimSpace_trimSpace _, hempty, not_lt.mp hname⟩,
    ⟨trimSpace_trimSpace _, by simpa using hurl, not_lt.mp hlong⟩, ?_, fun e he => ?_⟩
  · by_cases hnone : req.secret = ""
    · rw [hnone]
      decide
    · exact not_lt.mp fun hlt => hsecret ⟨hnone, hlt⟩
  · have hfind := List.find?_eq_none.mp (Option.map_eq_none_iff.mp h) e he
    simpa using hfind

/-- What has passed the checks passes them again. -/
theorem Valid.validate {name url secret : String} {events : Option (List String)}
    (h : Valid parse name url secret events) (enabled : Option Bool) :
    validateWebhookRequest parse ⟨name, url, "", events, enabled⟩ = none := by
  obtain ⟨hname, hne, hshort⟩ := h.name
  obtain ⟨hurl, hhttp, hbound⟩ := h.url
  simp only [validateWebhookRequest, trimmed, hname, hurl, hhttp]
  rw [if_neg hne, if_neg (not_lt.mpr hshort), if_neg (by simp), if_neg (not_lt.mpr hbound),
    if_neg (by simp), Option.map_eq_none_iff, List.find?_eq_none]
  intro e he
  simpa using h.events e he

/-- A row that would be accepted as it is. -/
structure ValidRow (parse : ParseURL) (row : EndpointRow) : Prop where
  valid : Valid parse row.name row.url row.secret (scanEvents row.events)
  events : row.events = some (eventsJSON (scanEvents row.events))
  enabled : row.enabled = boolInt (row.enabled = 1)

def ValidRows (parse : ParseURL) (s : Store) : Prop := ∀ row ∈ s.rows.rows, ValidRow parse row

/-- What a handler is about to store. -/
def Checked (parse : ParseURL) : Proc → Prop
  | .createExec req _ => Valid parse req.name req.url req.secret req.events
  | .updateQuery _ req => Valid parse req.name req.url req.secret req.events
  | .updateExec _ x => Valid parse x.name x.url x.secret x.events
  | _ => True

theorem start_checked (parse : ParseURL) (r : Request) : Checked parse (start parse r) := by
  cases r with
  | list | delete id => trivial
  | create body uuid =>
    cases body with
    | none => trivial
    | some req =>
      cases hcheck : validateWebhookRequest parse req with
      | some msg => simp [start, hcheck, Checked]
      | none =>
        simp only [start, hcheck]
        exact valid_of_validate hcheck
  | update id body =>
    cases body with
    | none => trivial
    | some req =>
      cases hcheck : validateWebhookRequest parse req with
      | some msg => simp [start, hcheck, Checked]
      | none =>
        simp only [start, hcheck]
        exact valid_of_validate hcheck

theorem boolInt_eq_one (b : Bool) : (decide (boolInt b = 1)) = b := by cases b <;> rfl

theorem newRow_valid (h : Valid parse req.name req.url req.secret req.events) (uuid : ID)
    (now : Time) : ValidRow parse (newRow req uuid now) where
  valid := by
    show Valid parse (trimSpace req.name) (trimSpace req.url) req.secret
      (scanEvents (some (eventsJSON req.events)))
    rw [h.name.1, h.url.1, scanEvents_eventsJSON]
    exact h
  events := by
    show some _ = some (eventsJSON (scanEvents (some (eventsJSON req.events))))
    rw [scanEvents_eventsJSON]
  enabled := by
    show boolInt _ = boolInt (decide (boolInt _ = 1))
    rw [boolInt_eq_one]

theorem set_valid (h : Valid parse x.name x.url x.secret x.events) (now : Time)
    (row : EndpointRow) : ValidRow parse (row.set x now) where
  valid := by
    show Valid parse x.name x.url x.secret (scanEvents (some (eventsJSON x.events)))
    rw [scanEvents_eventsJSON]
    exact h
  events := by
    show some _ = some (eventsJSON (scanEvents (some (eventsJSON x.events))))
    rw [scanEvents_eventsJSON]
  enabled := by
    show boolInt _ = boolInt (decide (boolInt _ = 1))
    rw [boolInt_eq_one]

/-- The secret that is kept is one that has been accepted before. -/
theorem setting_valid (h : Valid parse req.name req.url req.secret req.events)
    (hrow : ValidRow parse row) :
    Valid parse (setting req row).name (setting req row).url (setting req row).secret
      (setting req row).events := by
  have hsecret : (setting req row).secret.utf8ByteSize ≤ 128 := by
    unfold setting
    dsimp only
    split_ifs
    · exact h.secret
    · exact hrow.valid.secret
  show Valid parse (trimSpace req.name) (trimSpace req.url) _ req.events
  rw [h.name.1, h.url.1]
  exact ⟨h.name, h.url, hsecret, h.events⟩

theorem rows_insertRow (h : insertRow s row = some s') : ∀ r ∈ s'.rows.rows, r ∈ s.rows.rows ∨ r = row := by
  obtain ⟨t, hinsert, rfl⟩ := Option.map_eq_some_iff.mp h
  intro r hr
  change r ∈ t.rows at hr
  rw [Table.rows_insert hinsert] at hr
  exact (List.mem_append.mp hr).imp_right List.mem_singleton.mp

theorem rows_updateRow {now : Time} : ∀ r ∈ (updateRow s id x now).rows.rows,
    r ∈ s.rows.rows ∨ ∃ old ∈ s.rows.rows, r = old.set x now := by
  intro r hr
  change r ∈ (s.rows.update (fun row => row.id = id) (EndpointRow.set x now) fun _ => rfl).rows at hr
  obtain ⟨old, hold, hset⟩ := Table.mem_update.mp hr
  split_ifs at hset with hid
  · exact .inr ⟨old, hold, hset.symm⟩
  · exact .inl (hset ▸ hold)

/-- Everything a statement can do. -/
theorem step_cases (h : step a s p = some (s', q)) :
    (s' = s ∧ ∃ resp, q = .done resp) ∨
    (∃ id req row, p = .updateQuery id req ∧ s.rows.select id = some row ∧ s' = s ∧
      q = .updateExec id (setting req row)) ∨
    (∃ req uuid now resp, p = .createExec req uuid ∧ insertRow s (newRow req uuid now) = some s' ∧
      q = .done resp) ∨
    (∃ id x now resp, a = .go now ∧ p = .updateExec id x ∧ s' = updateRow s id x now ∧
      q = .done resp) ∨
    (∃ id resp, p = .deleteExec id ∧
      s' = { s with rows := s.rows.delete fun row => row.id = id } ∧ q = .done resp) := by
  cases p with
  | done resp => cases h
  | listQuery =>
    cases a <;> cases h
    all_goals exact .inl ⟨rfl, _, rfl⟩
  | createExec req uuid =>
    cases a with
    | fail =>
      cases h
      exact .inl ⟨rfl, _, rfl⟩
    | go now =>
      simp only [step] at h
      split at h
      · rename_i s₁ hinsert
        cases h
        exact .inr (.inr (.inl ⟨req, uuid, now, _, rfl, hinsert, rfl⟩))
      · cases h
        exact .inl ⟨rfl, _, rfl⟩
  | updateQuery id req =>
    cases a with
    | fail =>
      cases h
      exact .inl ⟨rfl, _, rfl⟩
    | go now =>
      simp only [step] at h
      split at h
      · rename_i row hsel
        cases h
        exact .inr (.inl ⟨id, req, row, rfl, hsel, rfl, rfl⟩)
      · cases h
        exact .inl ⟨rfl, _, rfl⟩
  | updateExec id x =>
    cases a with
    | fail =>
      cases h
      exact .inl ⟨rfl, _, rfl⟩
    | go now =>
      cases h
      exact .inr (.inr (.inr (.inl ⟨id, x, now, _, rfl, rfl, rfl, rfl⟩)))
  | deleteExec id =>
    cases a with
    | fail =>
      cases h
      exact .inl ⟨rfl, _, rfl⟩
    | go now =>
      simp only [step] at h
      split_ifs at h with hsome
      · cases h
        exact .inr (.inr (.inr (.inr ⟨id, _, rfl, rfl, rfl⟩)))
      · cases h
        exact .inl ⟨rfl, _, rfl⟩

theorem valid_kept (parse : ParseURL) :
    Kept (machine parse) (ValidRows parse) (Checked parse) fun _ => True where
  start r _ := start_checked parse r
  step a s p s' q hs hp h := by
    rcases step_cases h with ⟨rfl, resp, rfl⟩ | ⟨id, req, row, rfl, hsel, rfl, rfl⟩ |
      ⟨req, uuid, now, resp, rfl, hinsert, rfl⟩ | ⟨id, x, now, resp, -, rfl, rfl, rfl⟩ |
      ⟨id, resp, rfl, rfl, rfl⟩
    · exact ⟨hs, trivial⟩
    · exact ⟨hs, setting_valid hp (hs row (Table.select_eq_some.mp hsel).1)⟩
    · refine ⟨fun r hr => ?_, trivial⟩
      rcases rows_insertRow hinsert r hr with hold | rfl
      · exact hs r hold
      · exact newRow_valid hp uuid now
    · refine ⟨fun r hr => ?_, trivial⟩
      rcases rows_updateRow r hr with hold | ⟨old, hold, rfl⟩
      · exact hs r hold
      · exact set_valid hp now old
    · exact ⟨fun r hr => hs r (Table.mem_delete.mp hr).1, trivial⟩

/-! ## What is listed can be sent back -/

/-- The body of an update with what is shown. -/
def Shown.body (e : Shown) : WebhookRequest := ⟨e.name, e.url, "", e.events, some e.enabled⟩

theorem set_shown (h : ValidRow parse row) (now : Time) :
    row.set (setting (trimmed row.shown.body) row) now = { row with updatedAt := now } := by
  have hname : trimSpace (trimSpace row.name) = row.name := by
    rw [trimSpace_trimSpace, h.valid.name.1]
  have hurl : trimSpace (trimSpace row.url) = row.url := by
    rw [trimSpace_trimSpace, h.valid.url.1]
  simp [EndpointRow.set, setting, trimmed, Shown.body, EndpointRow.shown, hname, hurl,
    ← h.events, ← h.enabled]

/-- The two statements of the update, with no other in between. -/
theorem update_shown (hs : ValidRows parse s) (hrow : row ∈ s.rows.rows) (now : Time) :
    ∃ s', (machine parse).alone (.go now) 2 s (start parse (.update row.id (some row.shown.body))) =
        some (s', .done (.message "updated")) ∧
      s'.rows.rows = s.rows.rows.map fun r => if r.id = row.id then { r with updatedAt := now } else r := by
  have hvalid := hs row hrow
  have hcheck : validateWebhookRequest parse row.shown.body = none :=
    hvalid.valid.validate (some (row.enabled = 1))
  have hsel : s.rows.select row.id = some row := Table.select_eq_some.mpr ⟨hrow, rfl⟩
  have hstart : start parse (.update row.id (some row.shown.body)) =
      .updateQuery row.id (trimmed row.shown.body) := by
    simp only [start, hcheck]
  refine ⟨updateRow s row.id (setting (trimmed row.shown.body) row) now, ?_, ?_⟩
  · rw [hstart]
    simp [Machine.alone, machine, step, hsel]
  · refine List.map_congr_left fun r hr => ?_
    by_cases hid : r.id = row.id
    · obtain rfl : r = row := Table.eq_of_key hr hrow hid
      simp only [decide_true, if_true, set_shown hvalid]
    · simp [hid]

end

/-- Whatever has been asked of the handlers, and however their statements are interleaved, each row
is one that would be accepted again, and who sends what is shown of it back in an update that
nothing comes between changes nothing but the time of the update. -/
theorem shown_sent_back (parse : ParseURL) (as : List Action) :
    ∀ row ∈ ((machine parse).run ⟨⟨Table.empty, fun _ => ""⟩, []⟩ as).shared.rows.rows,
      ValidRow parse row ∧ ∀ now, ∃ s', (machine parse).alone (.go now) 2
          ((machine parse).run ⟨⟨Table.empty, fun _ => ""⟩, []⟩ as).shared
          (start parse (.update row.id (some row.shown.body))) =
            some (s', .done (.message "updated")) ∧
        s'.rows.rows = ((machine parse).run ⟨⟨Table.empty, fun _ => ""⟩, []⟩ as).shared.rows.rows.map
          fun r => if r.id = row.id then { r with updatedAt := now } else r := by
  have hrun : ValidRows parse ((machine parse).run ⟨⟨Table.empty, fun _ => ""⟩, []⟩ as).shared :=
    ((valid_kept parse).throughout (c := ⟨⟨Table.empty, fun _ => ""⟩, []⟩)
      ⟨List.forall_mem_nil _, List.forall_mem_nil _⟩ fun _ _ => trivial).last
  exact fun row hrow => ⟨hrun row hrow, update_shown hrun hrow⟩

/-- Every URL is one of a server. -/
def everyURL : ParseURL := fun _ => some ("https", "hooks.example")

def deploys : WebhookRequest :=
  ⟨"deploys ", "https://hooks.example/deploys", "key", some ["proxy:updated"], none⟩

/-- One endpoint is created. -/
def deploysCreated : List Action := [.spawn (.create (some deploys) "w1"), .run 0 (.go 5)]

def deploysStore : Store :=
  ((machine everyURL).run ⟨⟨Table.empty, fun _ => ""⟩, []⟩ deploysCreated).shared

/-- Its secret is kept in an update that leaves it out. -/
theorem shown_sent_back_deploys : ∃ row ∈ deploysStore.rows.rows, row.secret = "key" ∧
    ∃ s', (machine everyURL).alone (.go 9) 2 deploysStore
        (start everyURL (.update row.id (some row.shown.body))) =
          some (s', .done (.message "updated")) ∧
      s'.rows.rows = deploysStore.rows.rows.map fun r =>
        if r.id = row.id then { r with updatedAt := 9 } else r := by
  have hrows : deploysStore.rows.rows = [newRow (trimmed deploys) "w1" 5] := rfl
  have hrow : newRow (trimmed deploys) "w1" 5 ∈ deploysStore.rows.rows := by
    rw [hrows]
    exact List.mem_singleton_self _
  exact ⟨_, hrow, rfl, (shown_sent_back everyURL deploysCreated _ hrow).2 9⟩

/-! ## The secret that was given -/

/-- Each endpoint signs with the secret that was last given for it. -/
def Named (s : Store) : Prop := ∀ row ∈ s.rows.rows, row.secret = s.given row.id

/-- An update that gives no secret writes back the one that is there. -/
def Undisturbed (s : Store) : Choice → Proc → Prop
  | .go _, .updateExec id x =>
    x.named = false → ∀ row ∈ s.rows.rows, row.id = id → row.secret = x.secret
  | _, _ => True

def WritesUndisturbed (c : State) : Action → Prop
  | .spawn _ => True
  | .run i a => ∀ p ∈ c.procs[i]?, Undisturbed c.shared a p

section
variable {parse : ParseURL} {s s' : Store} {p q : Proc} {a : Choice} {c : State}

theorem named_insertRow {row : EndpointRow} (hs : Named s) (h : insertRow s row = some s') :
    Named s' := by
  obtain ⟨t, hinsert, rfl⟩ := Option.map_eq_some_iff.mp h
  intro r hr
  have hsel : t.select r.id = some r := Table.select_eq_some.mpr ⟨hr, rfl⟩
  rw [Table.select_insert hinsert] at hsel
  by_cases hid : row.id = r.id
  · obtain rfl : row = r := by simpa [Keyed.key, hid] using hsel
    show row.secret = Function.update s.given row.id row.secret row.id
    rw [Function.update_self]
  · have hold : s.rows.select r.id = some r := by simpa [Keyed.key, hid] using hsel
    show r.secret = Function.update s.given row.id row.secret r.id
    rw [Function.update_of_ne (Ne.symm hid)]
    exact hs r (Table.select_eq_some.mp hold).1

theorem named_updateRow_iff (hs : Named s) (id : ID) (x : Setting) (now : Time) :
    Named (updateRow s id x now) ↔
      (x.named = false → ∀ row ∈ s.rows.rows, row.id = id → row.secret = x.secret) := by
  have hrows : ∀ row ∈ s.rows.rows, (if row.id = id then row.set x now else row) ∈
      (updateRow s id x now).rows.rows := by
    intro row hrow
    refine List.mem_map.mpr ⟨row, hrow, ?_⟩
    by_cases hid : row.id = id <;> simp [hid]
  constructor
  · intro hnamed hkept row hrow hid
    have hset := hnamed _ (hrows row hrow)
    rw [if_pos hid] at hset
    rw [hs row hrow]
    simpa [updateRow, hkept, EndpointRow.set] using hset.symm
  · intro hkept r hr
    change r ∈ (s.rows.update (fun row => row.id = id) (EndpointRow.set x now) fun _ => rfl).rows
      at hr
    obtain ⟨row, hrow, rfl⟩ := Table.mem_update.mp hr
    by_cases hid : row.id = id
    · cases hnamed : x.named with
      | true => simp [hid, updateRow, hnamed, EndpointRow.set]
      | false =>
        have hgiven := hs row hrow
        rw [hkept hnamed row hrow hid, hid] at hgiven
        simpa [hid, updateRow, hnamed, EndpointRow.set] using hgiven
    · have hgiven := hs row hrow
      cases hnamed : x.named <;> simpa [hid, updateRow, hnamed, Function.update_of_ne hid] using hgiven

/-- One statement. -/
theorem named_step_iff (hs : Named s) (h : step a s p = some (s', q)) :
    Named s' ↔ Undisturbed s a p := by
  by_cases hwrites : ∃ id x now, p = .updateExec id x ∧ a = .go now
  · obtain ⟨id, x, now, rfl, rfl⟩ := hwrites
    cases h
    exact named_updateRow_iff hs id x now
  · have hquiet : Undisturbed s a p := by
      cases a with
      | fail => trivial
      | go now =>
        cases p with
        | updateExec id x => exact absurd ⟨id, x, now, rfl, rfl⟩ hwrites
        | _ => trivial
    refine iff_of_true ?_ hquiet
    rcases step_cases h with ⟨rfl, -⟩ | ⟨id, req, row, rfl, hsel, rfl, rfl⟩ |
      ⟨req, uuid, now, resp, rfl, hinsert, -⟩ | ⟨id, x, now, resp, rfl, rfl, -⟩ |
      ⟨id, resp, rfl, rfl, -⟩
    · exact hs
    · exact hs
    · exact named_insertRow hs hinsert
    · exact absurd ⟨id, x, now, rfl, rfl⟩ hwrites
    · exact fun row hrow => hs row (Table.mem_delete.mp hrow).1

theorem exec_named (hc : Named c.shared) (b : Action) :
    Named ((machine parse).exec c b).shared ↔ WritesUndisturbed c b := by
  cases b with
  | spawn r => exact iff_of_true hc trivial
  | run i a =>
    cases hp : c.procs[i]? with
    | none =>
      have hexec : (machine parse).exec c (.run i a) = c := by simp only [Machine.exec, hp]
      rw [hexec]
      exact iff_of_true hc (by simp [WritesUndisturbed, hp])
    | some p =>
      cases hstep : step a c.shared p with
      | none =>
        have hexec : (machine parse).exec c (.run i a) = c := by
          simp only [Machine.exec, hp, machine, hstep]
        rw [hexec]
        refine iff_of_true hc ?_
        intro p' hp'
        rw [hp] at hp'
        cases hp'
        cases a with
        | fail => trivial
        | go now =>
          cases p with
          | updateExec id x => cases hstep
          | _ => trivial
      | some t =>
        have hexec : ((machine parse).exec c (.run i a)).shared = t.1 := by
          simp only [Machine.exec, hp, machine, hstep]
        rw [hexec, named_step_iff hc hstep]
        simp [WritesUndisturbed, hp]

end

/-! ## Updates that are overtaken -/

/-- What a statement that is executed is about, as far as secrets go: an update that gives none
reads the row of an endpoint, a secret is given for one, and such an update writes the row. -/
inductive Note where
  | read (i : ℕ) (id : ID)
  | give (id : ID) (secret : String)
  | write (i : ℕ) (id : ID)
  deriving DecidableEq, Repr

/-- What there is to note of the next statement of request `i`. -/
def noteOf (i : ℕ) (s : Store) : Choice → Proc → List Note
  | .go _, .createExec req uuid =>
    if (s.rows.select uuid).isSome then [] else [.give uuid req.secret]
  | .go _, .updateQuery id req =>
    if req.secret = "" ∧ (s.rows.select id).isSome then [.read i id] else []
  | .go _, .updateExec id x =>
    if x.named then [.give id x.secret] else if (s.rows.select id).isSome then [.write i id] else []
  | _, _ => []

def noted (c : State) : Action → List Note
  | .spawn _ => []
  | .run i a => c.procs[i]?.elim [] (noteOf i c.shared a)

/-- The notes of a run. -/
def notes (parse : ParseURL) : State → List Action → List Note
  | _, [] => []
  | c, b :: as => noted c b ++ notes parse ((machine parse).exec c b) as

def Note.apply (given : ID → String) : Note → ID → String
  | .give id secret => Function.update given id secret
  | _ => given

/-- The secret that was last given for each endpoint. -/
def lastGiven (t : List Note) : ID → String := t.foldl Note.apply fun _ => ""

/-- Where an update that gives no secret writes the row, the one that was last given is still the
one that it was when the update read the row. -/
def NoneOvertaken (t : List Note) : Prop :=
  ∀ (before between after : List Note) (i : ℕ) (id : ID),
    t = before ++ .read i id :: between ++ .write i id :: after →
      lastGiven (before ++ .read i id :: between) id = lastGiven before id

theorem lastGiven_append (t : List Note) (n : Note) :
    lastGiven (t ++ [n]) = n.apply (lastGiven t) := by
  rw [lastGiven, List.foldl_append]
  rfl

theorem append_singleton_eq {t before after : List Note} {n m : Note}
    (h : t ++ [n] = before ++ m :: after) :
    (t = before ∧ n = m ∧ after = []) ∨ ∃ rest, after = rest ++ [n] ∧ t = before ++ m :: rest := by
  rcases List.eq_nil_or_concat after with rfl | ⟨rest, last, rfl⟩
  · obtain ⟨rfl, hlast⟩ := List.append_inj' h rfl
    exact .inl ⟨rfl, List.head_eq_of_cons_eq hlast, rfl⟩
  · rw [List.concat_eq_append, ← List.cons_append, ← List.append_assoc] at h
    obtain ⟨rfl, hlast⟩ := List.append_inj' h rfl
    obtain rfl := List.head_eq_of_cons_eq hlast
    exact .inr ⟨rest, List.concat_eq_append, rfl⟩

/-- What is not among the later notes is among the earlier ones. -/
theorem of_append_eq {t u before after : List Note} {m : Note}
    (h : t ++ u = before ++ m :: after) (hm : m ∉ u) : ∃ rest, t = before ++ m :: rest := by
  rcases List.append_eq_append_iff.mp h with ⟨mid, rfl, hu⟩ | ⟨mid, rfl, hmid⟩
  · rw [hu] at hm
    exact absurd (by simp) hm
  · cases mid with
    | nil =>
      rw [List.nil_append] at hmid
      rw [← hmid] at hm
      exact absurd (List.mem_cons_self ..) hm
    | cons m' rest =>
      obtain rfl := List.head_eq_of_cons_eq hmid
      exact ⟨rest, rfl⟩

theorem NoneOvertaken.of_append {t u : List Note} (h : NoneOvertaken (t ++ u)) : NoneOvertaken t := by
  rintro before between after i id rfl
  exact h before between (after ++ u) i id (by simp)

/-- One more note: only a write can be overtaken. -/
theorem noneOvertaken_append_iff {t : List Note} (ht : NoneOvertaken t) (n : Note) :
    NoneOvertaken (t ++ [n]) ↔ ∀ i id before between, n = .write i id →
      t = before ++ .read i id :: between → lastGiven t id = lastGiven before id := by
  constructor
  · rintro h i id before between rfl rfl
    exact h before between [] i id rfl
  · intro h before between after i id heq
    rcases append_singleton_eq heq with ⟨rfl, rfl, rfl⟩ | ⟨rest, rfl, rfl⟩
    · exact h i id before between rfl rfl
    · exact ht before between rest i id rfl

section
variable {parse : ParseURL} {s s' : Store} {p q : Proc} {a : Choice} {c : State} {i : ℕ}
  {t : List Note}

/-- What a statement does to the secrets that were given, beside its note. -/
theorem note_cases (h : step a s p = some (s', q)) :
    (noteOf i s a p = [] ∧ s'.given = s.given ∧ ((∃ resp, q = .done resp) ∨
      ∃ id x, q = .updateExec id x ∧ x.named = true)) ∨
    (∃ id req row, p = .updateQuery id req ∧ s.rows.select id = some row ∧ req.secret = "" ∧
      noteOf i s a p = [.read i id] ∧ s' = s ∧ q = .updateExec id (setting req row)) ∨
    (∃ id secret resp, noteOf i s a p = [.give id secret] ∧
      s'.given = Function.update s.given id secret ∧ q = .done resp) ∨
    ∃ id x resp, p = .updateExec id x ∧ x.named = false ∧ noteOf i s a p = [.write i id] ∧
      s'.given = s.given ∧ q = .done resp := by
  cases a with
  | fail =>
    cases p with
    | done resp => cases h
    | _ =>
      cases h
      exact .inl ⟨rfl, rfl, .inl ⟨_, rfl⟩⟩
  | go now =>
    cases p with
    | done resp => cases h
    | listQuery =>
      cases h
      exact .inl ⟨rfl, rfl, .inl ⟨_, rfl⟩⟩
    | createExec req uuid =>
      cases hselect : s.rows.select uuid with
      | some row =>
        have hinsert : insertRow s (newRow req uuid now) = none := by
          rw [insertRow, Option.map_eq_none_iff, Table.insert_eq_none]
          obtain ⟨hmem, hkey⟩ := Table.select_eq_some.mp hselect
          exact List.mem_map.mpr ⟨row, hmem, hkey⟩
        simp only [step, hinsert] at h
        cases h
        exact .inl ⟨by simp [noteOf, hselect], rfl, .inl ⟨_, rfl⟩⟩
      | none =>
        simp only [step] at h
        split at h
        · rename_i s₁ hinsert
          cases h
          obtain ⟨rows, -, rfl⟩ := Option.map_eq_some_iff.mp hinsert
          exact .inr (.inr (.inl ⟨uuid, req.secret, _, by simp [noteOf, hselect], rfl, rfl⟩))
        · rename_i hinsert
          rw [insertRow, Option.map_eq_none_iff, Table.insert_eq_none] at hinsert
          obtain ⟨row, hrow, hkey⟩ := List.mem_map.mp hinsert
          exact absurd hkey (Table.select_eq_none.mp hselect row hrow)
    | updateQuery id req =>
      cases hselect : s.rows.select id with
      | none =>
        simp only [step, hselect] at h
        cases h
        exact .inl ⟨by simp [noteOf, hselect], rfl, .inl ⟨_, rfl⟩⟩
      | some row =>
        simp only [step, hselect] at h
        cases h
        by_cases hsecret : req.secret = ""
        · exact .inr (.inl ⟨id, req, row, rfl, hselect, hsecret, by simp [noteOf, hsecret, hselect],
            rfl, rfl⟩)
        · exact .inl ⟨by simp [noteOf, hsecret], rfl,
            .inr ⟨id, _, rfl, by simp [setting, hsecret]⟩⟩
    | updateExec id x =>
      cases h
      cases hnamed : x.named with
      | true =>
        exact .inr (.inr (.inl ⟨id, x.secret, _, by simp [noteOf, hnamed],
          by simp [updateRow, hnamed], rfl⟩))
      | false =>
        have hgiven : (updateRow s id x now).given = s.given := by simp [updateRow, hnamed]
        cases hselect : s.rows.select id with
        | none => exact .inl ⟨by simp [noteOf, hnamed, hselect], hgiven, .inl ⟨_, rfl⟩⟩
        | some row =>
          exact .inr (.inr (.inr ⟨id, x, _, rfl, hnamed, by simp [noteOf, hnamed, hselect], hgiven,
            rfl⟩))
    | deleteExec id =>
      simp only [step] at h
      split_ifs at h
      · cases h
        exact .inl ⟨rfl, rfl, .inl ⟨_, rfl⟩⟩
      · cases h
        exact .inl ⟨rfl, rfl, .inl ⟨_, rfl⟩⟩

/-- The request has sent its first statement, if it is an update. -/
def HasRead : Proc → Prop
  | .done _ => True
  | .updateExec _ _ => True
  | _ => False

/-- The notes up to now. What an update is about to write back is what was given when it read. -/
structure Tracks (c : State) (t : List Note) : Prop where
  given : c.shared.given = lastGiven t
  reads : ∀ i id, .read i id ∈ t → ∃ p, c.procs[i]? = some p ∧ HasRead p
  pending : ∀ i id x, c.procs[i]? = some (.updateExec id x) → x.named = false →
    .read i id ∈ t ∧ ∀ before between k, t = before ++ .read i k :: between →
      k = id ∧ lastGiven before id = x.secret

theorem Tracks.start : Tracks ⟨⟨Table.empty, fun _ => ""⟩, []⟩ [] where
  given := rfl
  reads i id h := by cases h
  pending i id x h := by cases h

theorem HasRead.of_step (h : step a s p = some (s', q)) : HasRead q := by
  rcases note_cases (i := 0) h with ⟨-, -, ⟨resp, rfl⟩ | ⟨id, x, rfl, -⟩⟩ |
    ⟨id, req, row, -, -, -, -, -, rfl⟩ | ⟨id, secret, resp, -, -, rfl⟩ |
    ⟨id, x, resp, -, -, -, -, rfl⟩ <;> trivial

/-- What is noted of a request is not about the reading of another. -/
theorem read_of_noteOf {j : ℕ} {id : ID} (h : .read j id ∈ noteOf i s a p) : j = i := by
  unfold noteOf at h
  split at h
  · split_ifs at h <;> simp at h
  · split_ifs at h <;> simp at h
    exact h.1
  · split_ifs at h <;> simp at h
  · cases h

theorem Tracks.step (h : Tracks c t) (hnamed : Named c.shared) (hp : c.procs[i]? = some p)
    (hstep : WebhookEndpoints.step a c.shared p = some (s', q)) :
    Tracks ⟨s', c.procs.set i q⟩ (t ++ noteOf i c.shared a p) where
  given := by
    rcases note_cases (i := i) hstep with ⟨hnote, hgiven, -⟩ | ⟨id, req, row, -, -, -, hnote, rfl, -⟩ |
      ⟨id, secret, resp, hnote, hgiven, -⟩ | ⟨id, x, resp, -, -, hnote, hgiven, -⟩
    · rw [hnote, List.append_nil, hgiven, h.given]
    · rw [hnote, lastGiven_append, h.given]
      rfl
    · rw [hnote, lastGiven_append, hgiven, h.given]
      rfl
    · rw [hnote, lastGiven_append, hgiven, h.given]
      rfl
  reads := by
    intro j id hj
    by_cases hji : j = i
    · subst hji
      exact ⟨q, List.getElem?_set_self (List.getElem?_eq_some_iff.mp hp).choose, .of_step hstep⟩
    · have hold : .read j id ∈ t := by
        rcases List.mem_append.mp hj with hj | hj
        · exact hj
        · exact absurd (read_of_noteOf hj) hji
      obtain ⟨r, hr, hread⟩ := h.reads j id hold
      exact ⟨r, by rwa [List.getElem?_set_ne (Ne.symm hji)], hread⟩
  pending := by
    intro j id x hj hx
    rcases getElem?_set_cases hj with ⟨rfl, hq⟩ | ⟨hji, hold⟩
    · -- only the `SELECT` of the update has just been sent
      rcases note_cases (i := j) hstep with ⟨-, -, ⟨resp, rfl⟩ | ⟨id', x', rfl, hx'⟩⟩ |
        ⟨id', req, row, rfl, hselect, hsecret, hnote, rfl, rfl⟩ | ⟨id', secret, resp, -, -, rfl⟩ |
        ⟨id', x', resp, -, -, -, -, rfl⟩
      · cases hq
      · cases hq
        rw [hx] at hx'
        cases hx'
      · cases hq
        rw [hnote]
        refine ⟨by simp, fun before between k heq => ?_⟩
        rcases append_singleton_eq heq with ⟨rfl, hk, -⟩ | ⟨rest, -, rfl⟩
        · cases hk
          obtain ⟨hmem, hkey⟩ := Table.select_eq_some.mp hselect
          have hsame : (setting req row).secret = row.secret := if_neg (not_not.mpr hsecret)
          rw [hsame, hnamed row hmem, ← h.given]
          exact ⟨rfl, congrArg c.shared.given hkey.symm⟩
        · obtain ⟨r, hr, hread⟩ := h.reads j k (by simp)
          rw [hp] at hr
          cases hr
          exact hread.elim
      · cases hq
      · cases hq
    · obtain ⟨hmem, hpending⟩ := h.pending j id x hold hx
      refine ⟨List.mem_append_left _ hmem, fun before between k heq => ?_⟩
      obtain ⟨rest, hrest⟩ := of_append_eq heq fun hread => hji (read_of_noteOf hread)
      exact hpending before rest k hrest

/-- A statement loses a secret exactly if it is the writing of an update that is overtaken. -/
theorem Tracks.undisturbed_iff (h : Tracks c t) (hnamed : Named c.shared) (ht : NoneOvertaken t)
    (hp : c.procs[i]? = some p) :
    Undisturbed c.shared a p ↔ NoneOvertaken (t ++ noteOf i c.shared a p) := by
  have hquiet : ∀ n : Note, (∀ i id, n ≠ .write i id) → NoneOvertaken (t ++ [n]) := fun n hn =>
    (noneOvertaken_append_iff ht n).mpr fun i id _ _ heq => absurd heq (hn i id)
  cases a with
  | fail =>
    have hnote : noteOf i c.shared .fail p = [] := by cases p <;> rfl
    rw [hnote, List.append_nil]
    exact iff_of_true trivial ht
  | go now =>
    cases p with
    | updateExec id x =>
      rw [noteOf]
      cases hx : x.named with
      | true =>
        rw [if_pos rfl]
        exact iff_of_true (fun hfalse => by rw [hx] at hfalse; cases hfalse) (hquiet _ (by simp))
      | false =>
        obtain ⟨hmem, hpending⟩ := h.pending i id x hp hx
        rw [if_neg Bool.false_ne_true]
        cases hselect : c.shared.rows.select id with
        | none =>
          rw [Option.isSome_none, if_neg Bool.false_ne_true, List.append_nil]
          exact iff_of_true (fun _ row hrow hid =>
            absurd hid (Table.select_eq_none.mp hselect row hrow)) ht
        | some row =>
          obtain ⟨hrow, hkey⟩ := Table.select_eq_some.mp hselect
          have hgiven : lastGiven t id = row.secret := by
            rw [← h.given, hnamed row hrow]
            exact congrArg c.shared.given hkey.symm
          rw [Option.isSome_some, if_pos rfl, noneOvertaken_append_iff ht]
          constructor
          · rintro hsame j id' before between hwrite heq
            cases hwrite
            rw [(hpending before between id heq).2, hgiven]
            exact hsame hx row hrow hkey
          · rintro hlast - other hother hid
            obtain ⟨before, between, heq⟩ := List.append_of_mem hmem
            obtain rfl : other = row := Table.eq_of_key hother hrow (hid.trans hkey.symm)
            rw [← hgiven, hlast i id before between rfl heq, (hpending before between id heq).2]
    | createExec req uuid =>
      refine iff_of_true trivial ?_
      rw [noteOf]
      split_ifs
      · rwa [List.append_nil]
      · exact hquiet _ (by simp)
    | updateQuery id req =>
      refine iff_of_true trivial ?_
      rw [noteOf]
      split_ifs
      · exact hquiet _ (by simp)
      · rwa [List.append_nil]
    | done _ | listQuery | deleteExec _ =>
      refine iff_of_true trivial ?_
      change NoneOvertaken (t ++ [])
      rwa [List.append_nil]

theorem Tracks.writes_iff (h : Tracks c t) (hnamed : Named c.shared) (ht : NoneOvertaken t)
    (b : Action) : WritesUndisturbed c b ↔ NoneOvertaken (t ++ noted c b) := by
  cases b with
  | spawn r =>
    rw [noted, List.append_nil]
    exact iff_of_true trivial ht
  | run i a =>
    rw [noted, WritesUndisturbed]
    cases hp : c.procs[i]? with
    | none =>
      rw [Option.elim_none, List.append_nil]
      exact iff_of_true (by simp) ht
    | some p =>
      rw [Option.elim_some, ← h.undisturbed_iff hnamed ht hp]
      simp

theorem start_ne_updateExec (r : Request) (id : ID) (x : Setting) :
    start parse r ≠ .updateExec id x := by
  unfold start
  split
  · exact nofun
  · exact nofun
  · exact nofun
  · split <;> exact nofun
  · split <;> exact nofun
  · exact nofun

/-- A handler that cannot go on is through. -/
theorem done_of_stuck (h : step a s p = none) : ∃ resp, p = .done resp := by
  cases p with
  | done resp => exact ⟨resp, rfl⟩
  | listQuery => cases a <;> cases h
  | createExec req uuid =>
    cases a with
    | fail => cases h
    | go now =>
      simp only [step] at h
      split at h <;> cases h
  | updateQuery id req =>
    cases a with
    | fail => cases h
    | go now =>
      simp only [step] at h
      split at h <;> cases h
  | updateExec id x => cases a <;> cases h
  | deleteExec id =>
    cases a with
    | fail => cases h
    | go now =>
      simp only [step] at h
      split_ifs at h

theorem Tracks.exec (h : Tracks c t) (hnamed : Named c.shared) (b : Action) :
    Tracks ((machine parse).exec c b) (t ++ noted c b) := by
  cases b with
  | spawn r =>
    rw [noted, List.append_nil]
    refine ⟨h.given, fun i id hi => ?_, fun i id x hi hx => ?_⟩
    · obtain ⟨p, hp, hread⟩ := h.reads i id hi
      exact ⟨p, by rw [Machine.exec, List.getElem?_append_left (List.getElem?_eq_some_iff.mp hp).choose,
        hp], hread⟩
    · rcases lt_or_ge i c.procs.length with hlt | hge
      · rw [Machine.exec, List.getElem?_append_left hlt] at hi
        exact h.pending i id x hi hx
      · rw [Machine.exec, List.getElem?_append_right hge, List.getElem?_singleton] at hi
        split_ifs at hi
        exact absurd (Option.some.inj hi) (start_ne_updateExec r id x)
  | run i a =>
    rw [noted]
    cases hp : c.procs[i]? with
    | none =>
      have hexec : (machine parse).exec c (.run i a) = c := by simp only [Machine.exec, hp]
      rw [hexec, Option.elim_none, List.append_nil]
      exact h
    | some p =>
      rw [Option.elim_some]
      cases hstep : WebhookEndpoints.step a c.shared p with
      | none =>
        obtain ⟨resp, rfl⟩ := done_of_stuck hstep
        have hexec : (machine parse).exec c (.run i a) = c := by
          simp only [Machine.exec, hp, machine, hstep]
        have hnote : noteOf i c.shared a (.done resp) = [] := by cases a <;> rfl
        rw [hexec, hnote, List.append_nil]
        exact h
      | some r =>
        have hexec : (machine parse).exec c (.run i a) = ⟨r.1, c.procs.set i r.2⟩ := by
          simp only [Machine.exec, hp, machine, hstep]
        rw [hexec]
        exact h.step hnamed hp hstep

theorem Tracks.along_iff (h : Tracks c t) (hnamed : Named c.shared) (ht : NoneOvertaken t)
    (as : List Action) :
    (machine parse).Along WritesUndisturbed c as ↔ NoneOvertaken (t ++ notes parse c as) := by
  induction as generalizing c t with
  | nil =>
    rw [notes, List.append_nil]
    exact iff_of_true trivial ht
  | cons b as ih =>
    have hstep := h.writes_iff hnamed ht b
    rw [Machine.Along, notes, ← List.append_assoc]
    by_cases hok : WritesUndisturbed c b
    · rw [and_iff_right hok]
      exact ih (h.exec hnamed b) ((exec_named hnamed b).mpr hok) (hstep.mp hok)
    · exact iff_of_false (fun hboth => hok hboth.1) fun hall => hok (hstep.mpr hall.of_append)

end

/-- Throughout a run each endpoint signs with the secret that was last given for it, exactly if no
update that gives none is overtaken by one that gives another. -/
theorem secrets_kept_iff (parse : ParseURL) (as : List Action) :
    (machine parse).Throughout (fun c => Named c.shared) ⟨⟨Table.empty, fun _ => ""⟩, []⟩ as ↔
      NoneOvertaken (notes parse ⟨⟨Table.empty, fun _ => ""⟩, []⟩ as) := by
  have hempty : Named ⟨Table.empty, fun _ => ""⟩ := List.forall_mem_nil _
  have hnone : NoneOvertaken [] := by
    intro before between after i id heq
    simp at heq
  rw [Machine.throughout_iff_along (fun _ b hc => exec_named hc b) as hempty]
  exact Tracks.start.along_iff hempty hnone as

end NetBerth.WebhookEndpoints
