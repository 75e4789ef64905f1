import NetBerth.PasswordHash
import NetBerth.ProxyHandler

/-!
# Basic authentication at the proxy

The column `basic_auth_hash` is for an Argon2id hash, never for a password. The handler of a rule
compares what a request carries with the column, so it is the text of the hash that opens the
upstream, and the password behind it does not.
-/
namespace NetBerth.ProxyBasicAuth
open Rules HTTPRequest ProxyHandler PasswordHash

variable (H : NetHTTP) (idKey : IDKey)

/-- The handler of the rule hands the request over. -/
def Passes (rule : ProxyRule) (r : Request) : Prop :=
  (buildHandler H rule).serveHTTP H r = .forwarded rule.targetURL

/-- The request carries the user name and a password that the hash verifies. -/
def Verified (user encoded : String) (r : Request) : Prop :=
  ∃ q : String, basicAuth H r = some (user, q) ∧ verifyPassword idKey q encoded = some true

/-- A password that is the text of the hash, or else has the key of the hash, and not both. -/
def Confused (encoded q : String) : Prop :=
  ¬(q = encoded ↔ verifyPassword idKey q encoded = some true)

variable {H idKey}

section
variable {rule : ProxyRule} {r : Request} (hurl : H.parseURL rule.targetURL = true)
  (hws : rule.websocket = false) (hip : IPPasses rule (clientIP r))
include hurl hws hip

/-- Where the lists let a request through, the comparison with the column decides. -/
theorem passes_iff : Passes H rule r ↔
    rule.basicAuthUser = "" ∨ basicAuth H r = some (rule.basicAuthUser, rule.basicAuthHash) := by
  rw [Passes, forwarded_iff]
  simp only [hurl, hws, hip, true_and, Bool.false_eq_true, false_or, Credentialed]
  exact ⟨fun h => or_iff_not_imp_left.mpr h, fun h huser => h.resolve_left huser⟩

/-- The text of the hash is a password for the rule. -/
theorem stored_hash_passes
    (hcarried : basicAuth H r = some (rule.basicAuthUser, rule.basicAuthHash)) :
    Passes H rule r := (passes_iff hurl hws hip).mpr (.inr hcarried)

/-- The password behind the hash is none. -/
theorem password_refused {password : String} (huser : rule.basicAuthUser ≠ "")
    (hcarried : basicAuth H r = some (rule.basicAuthUser, password))
    (hother : password ≠ rule.basicAuthHash) : ¬Passes H rule r := by
  rw [passes_iff hurl hws hip, hcarried]
  simp [huser, hother]

/-- For every user name, password and salt, and every request to a rule without a websocket: the
handler lets exactly the verified ones through, when the rule has a user name and the request
carries no confused password with it; without one it does for a request that is verified. -/
theorem verified_passes_iff {password : String} {salt : List UInt8}
    (hhash : rule.basicAuthHash = hashPassword idKey salt password) :
    (Passes H rule r ↔ Verified H idKey rule.basicAuthUser rule.basicAuthHash r) ↔
      if rule.basicAuthUser = "" then Verified H idKey "" (hashPassword idKey salt password) r
      else ∀ q : String, basicAuth H r = some (rule.basicAuthUser, q) →
        ¬Confused idKey (hashPassword idKey salt password) q := by
  rw [passes_iff hurl hws hip, hhash]
  split_ifs with huser
  · simp [huser]
  · simp only [huser, false_or, Verified, Confused, not_not]
    constructor
    · intro hiff q hcarried
      simpa [hcarried] using hiff
    · intro hclear
      cases hcarried : basicAuth H r with
      | none => simp
      | some credentials =>
        obtain ⟨user, q⟩ := credentials
        by_cases hname : user = rule.basicAuthUser
        · subst hname
          simpa using hclear q hcarried
        · simp [hname]

end

/-! ## A rule with a password -/

def salt : List UInt8 := (List.range 16).map UInt8.ofNat

/-- The keys of three passwords: `secret`, `guess` and the text of the hash of the first. -/
def keys : IDKey := fun password salt time memory threads keyLen =>
  if (salt, time, memory, threads, keyLen) = (ProxyBasicAuth.salt, 3, 65536, 4, 32) then
    if password = bytes "secret" then
      [33, 216, 144, 212, 65, 9, 162, 161, 192, 207, 204, 25, 70, 29, 111, 184, 213, 129, 90, 136,
        148, 171, 230, 182, 177, 188, 22, 20, 154, 129, 147, 22]
    else if password = bytes "guess" then
      [113, 71, 100, 225, 138, 223, 10, 65, 221, 227, 169, 79, 188, 140, 0, 173, 61, 191, 125, 75,
        34, 251, 52, 147, 116, 213, 175, 161, 246, 164, 22, 18]
    else
      [99, 216, 181, 141, 155, 140, 37, 88, 205, 132, 199, 176, 29, 129, 166, 138, 185, 174, 99, 57,
        202, 231, 121, 3, 49, 96, 92, 54, 171, 52, 86, 118]
  else []

/-- What is stored for the password `secret`. -/
def stored : String :=
  "$argon2id$v=19$m=65536,t=3,p=4$AAECAwQFBgcICQoLDA0ODw$IdiQ1EEJoqHAz8wZRh1vuNWBWoiUq+a2sbwWFJqBkxY"

theorem hashPassword_secret : hashPassword keys salt "secret" = stored := by decide

/-- The header with the stored text as the password. -/
def storedHeader : String :=
  "Basic b3BzOiRhcmdvbjJpZCR2PTE5JG09NjU1MzYsdD0zLHA9NCRBQUVDQXdRRkJnY0lDUW9MREEwT0R3JElkaVExRUVK" ++
    "b3FIQXo4d1pSaDF2dU5XQldvaVVxK2Eyc2J3V0ZKcUJreFk="

def opsHTTP : NetHTTP where
  parseURL _ := true
  parseBasicAuth header :=
    if header = "Basic b3BzOnNlY3JldA==" then some ("ops", "secret")
    else if header = "Basic b3BzOmd1ZXNz" then some ("ops", "guess")
    else if header = storedHeader then some ("ops", stored)
    else none

def opsRule : ProxyRule :=
  ⟨⟨"p1", "t", "o", "app", "http://10.0.0.2:8080", false, "", false, true, false, "", "ops", stored,
    0, true⟩, ⟨["app.example"], [], [], [], []⟩⟩

def carrying (header : String) : Request :=
  ⟨"app.example", "10.0.0.9:4000", fun key => if key = "Authorization" then [header] else []⟩

theorem verified_passes_guess :
    Passes opsHTTP opsRule (carrying "Basic b3BzOmd1ZXNz") ↔
      Verified opsHTTP keys "ops" stored (carrying "Basic b3BzOmd1ZXNz") := by
  have hcarried : basicAuth opsHTTP (carrying "Basic b3BzOmd1ZXNz") = some ("ops", "guess") := by
    decide
  have hclear : ¬Confused keys (hashPassword keys salt "secret") "guess" := by
    unfold Confused
    decide
  have hip : IPPasses opsRule (clientIP (carrying "Basic b3BzOmd1ZXNz")) := by
    unfold IPPasses
    decide
  have hhash : opsRule.basicAuthHash = hashPassword keys salt "secret" := hashPassword_secret.symm
  have hurl : opsHTTP.parseURL opsRule.targetURL = true := rfl
  apply (verified_passes_iff hurl rfl hip hhash).mpr
  rw [if_neg (by decide)]
  intro q hq
  obtain rfl : "guess" = q := by simpa [hcarried, opsRule] using hq
  exact hclear

/-- The password is refused, and the text that is stored for it is not. -/
theorem stored_text_opens :
    Verified opsHTTP keys "ops" stored (carrying "Basic b3BzOnNlY3JldA==") ∧
      ¬Passes opsHTTP opsRule (carrying "Basic b3BzOnNlY3JldA==") ∧
      Passes opsHTTP opsRule (carrying storedHeader) ∧
      ¬Verified opsHTTP keys "ops" stored (carrying storedHeader) := by
  refine ⟨⟨"secret", by decide, by decide +kernel⟩, ?_, ?_, ?_⟩
  · unfold Passes
    decide
  · unfold Passes
    decide +kernel
  · rintro ⟨q, hcarried, hverified⟩
    have hstored : basicAuth opsHTTP (carrying storedHeader) = some ("ops", stored) := by
      decide +kernel
    obtain rfl : stored = q := by simpa [hstored] using hcarried
    revert hverified
    decide

end NetBerth.ProxyBasicAuth
