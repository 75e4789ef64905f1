import Mathlib

/-!
# Deliveries of a webhook

A delivery posts one body to its endpoint, up to a number of times, until an attempt ends in a
status of success. An attempt is one call of the HTTP client, which follows redirects: for some
of them it asks again with another method and no body. So there may be more requests than
attempts; but all of them carry the signature of the delivery, those of the attempts themselves
its body too, and the first success ends it.

Of the headers only the signature is here.
-/
namespace NetBerth.WebhookDelivery

abbrev Bytes := List UInt8

/-! ## The client -/

structure Request where
  method : String
  url : String
  signature : Option String
  body : Option Bytes
  deriving DecidableEq, Repr

/-- What the network has to say to a request: nothing within the time limit, or an error, or a
response with its `Location`. -/
inductive Answer where
  | none
  | response (status : ℕ) (location : String)
  deriving DecidableEq, Repr

/-- A request that was sent, and the status it was answered with. -/
structure Exchange where
  request : Request
  status : Option ℕ
  deriving DecidableEq, Repr

def success (status : ℕ) : Bool := 200 ≤ status ∧ status < 300

/-- The request was answered with a status of success. -/
def Exchange.succeeded (e : Exchange) : Bool := e.status.any success

/-- The method of the next request, and whether the body goes with it. -/
def redirectBehavior (method : String) (status : ℕ) : Option (String × Bool) :=
  if status = 301 ∨ status = 302 ∨ status = 303 then
    some (if method ≠ "GET" ∧ method ≠ "HEAD" then "GET" else method, false)
  else if status = 307 ∨ status = 308 then some (method, true)
  else none

/-- How many requests `checkRedirect` lets through. -/
def maxRequests : ℕ := 10

section
variable (parse : String → String → Option String)

/-- The next request of `Client.Do`, and whether it and those after it may have the body; or the
result: the status of the response, or an error. -/
def redirect (first req : Request) (sent : ℕ) (includeBody : Bool) (status : ℕ)
    (location : String) : Except (Option ℕ) (Request × Bool) :=
  match redirectBehavior req.method status with
  | none => .error status
  | some (method, keepsBody) =>
    if location = "" then .error status
    else
      match parse req.url location with
      | none => .error none
      | some url =>
        if maxRequests ≤ sent then .error none
        else
          let includeBody := includeBody && keepsBody
          .ok (⟨method, url, first.signature, if includeBody then first.body else none⟩,
            includeBody)

/-- The loop of `Client.Do`, which has sent so many requests and sends this one. -/
def clientDo (first : Request) : ℕ → Bool → Request → List Answer → List Exchange × Option ℕ
  | _, _, req, [] => ([⟨req, none⟩], none)
  | _, _, req, .none :: _ => ([⟨req, none⟩], none)
  | sent, includeBody, req, .response status location :: answers =>
    match redirect parse first req (sent + 1) includeBody status location with
    | .error result => ([⟨req, some status⟩], result)
    | .ok (next, includeBody) =>
      let rest := clientDo first (sent + 1) includeBody next answers
      (⟨req, some status⟩ :: rest.1, rest.2)

end

/-! ## One delivery -/

structure Event where
  type : String
  id : String
  deriving DecidableEq, Repr

/-- The timestamp is in nanoseconds. -/
structure WebhookPayload where
  id : String
  event : String
  resource : String
  resourceID : String
  timestamp : ℤ
  deriving DecidableEq, Repr

def resourceFromEvent (type : String) : String := String.ofList (type.toList.takeWhile (· ≠ ':'))

def Event.payload (event : Event) (now : ℤ) : WebhookPayload :=
  ⟨event.type ++ "/" ++ event.id, event.type, resourceFromEvent event.type, event.id, now⟩

/-- What the standard library does: `json.Marshal`, `url.Parse`, a reference to a URL, and the
MAC. -/
structure Library where
  marshal : WebhookPayload → Option Bytes
  parseURL : String → Option String
  parse : String → String → Option String
  hmacSHA256 : Bytes → Bytes → Bytes

/-- An endpoint as the dispatcher loads it. -/
structure WebhookEndpoint where
  id : String
  name : String
  url : String
  secret : String
  events : List String
  enabled : Bool
  deriving DecidableEq, Repr

section
variable (lib : Library)

def encodeToString (bytes : Bytes) : String :=
  String.ofList (bytes.flatMap fun b => [(b.toNat / 16).digitChar, (b.toNat % 16).digitChar])

def signHMACSHA256 (secret : String) (message : Bytes) : String :=
  encodeToString (lib.hmacSHA256 secret.toUTF8.toList message)

/-- The header `X-NetBerth-Signature`. -/
def signWebhook (secret : String) (body : Bytes) : Option String :=
  if secret = "" then none else some ("sha256=" ++ signHMACSHA256 lib secret body)

/-- The request of an attempt. -/
def newRequest (ep : WebhookEndpoint) (body : Bytes) : Option Request :=
  (lib.parseURL ep.url).map fun url => ⟨"POST", url, signWebhook lib ep.secret body, some body⟩

/-- The requests of one attempt, and whether it has succeeded. -/
def send (ep : WebhookEndpoint) (body : Bytes) (answers : List Answer) : List Exchange × Bool :=
  match newRequest lib ep body with
  | none => ([], false)
  | some req =>
    let result := clientDo lib.parse req 0 true req answers
    (result.1, result.2.any success)

end

/-! ## What the client sends -/

section
variable {parse : String → String → Option String} {first req next : Request} {sent : ℕ}
  {includeBody includeBody' : Bool} {answers : List Answer}

theorem not_success_of_redirectBehavior {method : String} {status : ℕ} {next : String × Bool}
    (h : redirectBehavior method status = some next) : success status = false := by
  unfold redirectBehavior at h
  by_cases hpost : status = 301 ∨ status = 302 ∨ status = 303
  · obtain rfl | rfl | rfl := hpost <;> rfl
  · rw [if_neg hpost] at h
    by_cases hkeep : status = 307 ∨ status = 308
    · obtain rfl | rfl := hkeep <;> rfl
    · rw [if_neg hkeep] at h
      contradiction

/-- Everything a redirect can do. -/
theorem redirect_cases (parse : String → String → Option String) (first req : Request) (sent : ℕ)
    (includeBody : Bool) (status : ℕ) (location : String) :
    (∃ next inc, redirect parse first req sent includeBody status location = .ok (next, inc) ∧
      success status = false ∧ sent < maxRequests ∧ next.signature = first.signature ∧
      next.body ∈ [none, first.body]) ∨
    ∃ result, redirect parse first req sent includeBody status location = .error result ∧
      result.any success = success status := by
  unfold redirect
  cases hbehavior : redirectBehavior req.method status with
  | none => exact .inr ⟨_, rfl, rfl⟩
  | some target =>
    obtain ⟨method, keepsBody⟩ := target
    have hstatus := not_success_of_redirectBehavior hbehavior
    dsimp only
    by_cases hlocation : location = ""
    · rw [if_pos hlocation]
      exact .inr ⟨_, rfl, rfl⟩
    · rw [if_neg hlocation]
      cases parse req.url location with
      | none => exact .inr ⟨_, rfl, hstatus.symm⟩
      | some url =>
        dsimp only
        by_cases hmany : maxRequests ≤ sent
        · rw [if_pos hmany]
          exact .inr ⟨_, rfl, hstatus.symm⟩
        · rw [if_neg hmany]
          refine .inl ⟨_, _, rfl, hstatus, not_le.mp hmany, rfl, ?_⟩
          dsimp only
          split_ifs <;> simp

/-- What is so of the requests of one call of the client. -/
structure Redirected (first req : Request) (sent : ℕ) (result : List Exchange × Option ℕ) :
    Prop where
  head : ∃ status rest, result.1 = ⟨req, status⟩ :: rest
  few : sent + result.1.length ≤ maxRequests ∨ result.1.length = 1
  signature : ∀ e ∈ result.1.tail, e.request.signature = first.signature
  body : ∀ e ∈ result.1.tail, e.request.body ∈ [none, first.body]
  -- only the last one is answered with success, and then the call succeeds
  settled : ∀ e ∈ result.1.dropLast, e.succeeded = false
  result : result.1.getLast?.any Exchange.succeeded = result.2.any success

theorem redirected_single (first req : Request) (sent : ℕ) (status : Option ℕ) (result : Option ℕ)
    (h : status.any success = result.any success) :
    Redirected first req sent ([⟨req, status⟩], result) where
  head := ⟨status, [], rfl⟩
  few := .inr rfl
  signature := by simp
  body := by simp
  settled := by simp
  result := h

/-- One more request before them. -/
theorem Redirected.cons {status : ℕ} {result : List Exchange × Option ℕ}
    (h : Redirected first next (sent + 1) result) (hstatus : success status = false)
    (hmany : sent + 1 < maxRequests) (hsignature : next.signature = first.signature)
    (hbody : next.body ∈ [none, first.body]) :
    Redirected first req sent (⟨req, some status⟩ :: result.1, result.2) := by
  obtain ⟨exchanges, result⟩ := result
  obtain ⟨status', rest, rfl⟩ := h.head
  constructor
  case head => exact ⟨some status, _, rfl⟩
  case few =>
    refine .inl ?_
    have hfew := h.few
    simp only [List.length_cons] at hfew ⊢
    omega
  case signature => exact List.forall_mem_cons.mpr ⟨hsignature, h.signature⟩
  case body => exact List.forall_mem_cons.mpr ⟨hbody, h.body⟩
  case settled => exact List.forall_mem_cons.mpr ⟨hstatus, h.settled⟩
  case result => exact h.result

theorem clientDo_redirected (parse : String → String → Option String) (first req : Request)
    (sent : ℕ) (includeBody : Bool) (answers : List Answer) :
    Redirected first req sent (clientDo parse first sent includeBody req answers) := by
  induction answers generalizing req sent includeBody with
  | nil => exact redirected_single first req sent none none rfl
  | cons answer answers ih =>
    cases answer with
    | none => exact redirected_single first req sent none none rfl
    | response status location =>
      rw [clientDo]
      obtain ⟨next, inc, hok, hstatus, hmany, hsignature, hbody⟩ | ⟨result, herror, hresult⟩ :=
        redirect_cases parse first req (sent + 1) includeBody status location
      · rw [hok]
        exact (ih next (sent + 1) inc).cons hstatus hmany hsignature hbody
      · rw [herror]
        exact redirected_single first req sent (some status) result hresult.symm

end

/-! ## What a delivery sends -/

/-- What is so of the requests of an attempt. -/
structure Attempted (lib : Library) (ep : WebhookEndpoint) (body : Bytes) (es : List Exchange) :
    Prop where
  own : ∀ e ∈ es.head?, newRequest lib ep body = some e.request
  few : es.length ≤ maxRequests
  signature : ∀ e ∈ es, e.request.signature = signWebhook lib ep.secret body
  body : ∀ e ∈ es, e.request.body ∈ [none, some body]
  settled : ∀ e ∈ es.dropLast, e.succeeded = false

/-- What is so of the attempts of a delivery. -/
structure Delivered (lib : Library) (maxAttempts : ℕ) (ep : WebhookEndpoint) (body : Bytes)
    (sends : List (List Exchange)) : Prop where
  attempts : sends.length ≤ maxAttempts
  each : ∀ es ∈ sends, Attempted lib ep body es
  settled : ∀ e ∈ sends.flatten.dropLast, e.succeeded = false

section
variable {lib : Library} {maxAttempts : ℕ} {ep : WebhookEndpoint} {body : Bytes}
  {sends : List (List Exchange)} {es : List Exchange}

theorem newRequest_eq_some {req : Request} (h : newRequest lib ep body = some req) :
    req.signature = signWebhook lib ep.secret body ∧ req.body = some body := by
  obtain ⟨url, -, rfl⟩ := Option.map_eq_some_iff.mp h
  exact ⟨rfl, rfl⟩

theorem send_attempted (lib : Library) (ep : WebhookEndpoint) (body : Bytes)
    (answers : List Answer) : Attempted lib ep body (send lib ep body answers).1 := by
  unfold send
  cases hreq : newRequest lib ep body with
  | none => constructor <;> simp
  | some req =>
    obtain ⟨hsignature, hbody⟩ := newRequest_eq_some hreq
    obtain ⟨⟨status, rest, hhead⟩, hfew, hsignatures, hbodies, hsettled, -⟩ :=
      clientDo_redirected lib.parse req req 0 true answers
    dsimp only
    rw [hhead] at hfew hsignatures hbodies hsettled ⊢
    rw [hsignature] at hsignatures
    rw [hbody] at hbodies
    constructor
    case own =>
      intro e he
      cases he
      exact hreq
    case few =>
      rw [zero_add] at hfew
      exact hfew.elim id fun hone => hone.trans_le (by decide)
    case signature => exact List.forall_mem_cons.mpr ⟨hsignature, hsignatures⟩
    case body => exact List.forall_mem_cons.mpr ⟨by simp [hbody], hbodies⟩
    case settled => exact hsettled

/-- The requests of an attempt that has failed have no success. -/
theorem send_failed {answers : List Answer} (h : (send lib ep body answers).2 = false) :
    ∀ e ∈ (send lib ep body answers).1, e.succeeded = false := by
  unfold send at h ⊢
  cases hreq : newRequest lib ep body with
  | none => simp
  | some req =>
    rw [hreq] at h
    have hsent := clientDo_redirected lib.parse req req 0 true answers
    dsimp only at h ⊢
    have hlast := hsent.result.trans h
    intro e he
    by_cases hend : some e = (clientDo lib.parse req 0 true req answers).1.getLast?
    · rwa [← hend, Option.any_some] at hlast
    · exact hsent.settled e (List.mem_dropLast_of_mem_of_ne_getLast? he hend)

theorem delivered_nil (lib : Library) (maxAttempts : ℕ) (ep : WebhookEndpoint) (body : Bytes) :
    Delivered lib maxAttempts ep body [] := by
  constructor <;> simp

/-- One more attempt, after others that have all failed. -/
theorem Delivered.snoc (h : Delivered lib maxAttempts ep body sends)
    (hmore : sends.length < maxAttempts) (hfailed : ∀ e ∈ sends.flatten, e.succeeded = false)
    (hes : Attempted lib ep body es) : Delivered lib maxAttempts ep body (sends ++ [es]) := by
  constructor
  case attempts =>
    rw [List.length_append]
    exact hmore
  case each => exact List.forall_mem_append.mpr ⟨h.each, List.forall_mem_singleton.mpr hes⟩
  case settled =>
    rw [List.flatten_append, List.flatten_singleton, List.dropLast_append]
    split_ifs with hempty
    · exact h.settled
    · exact List.forall_mem_append.mpr ⟨hfailed, hes.settled⟩

end

end NetBerth.WebhookDelivery
