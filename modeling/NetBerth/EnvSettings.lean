import NetBerth.Accounts
import NetBerth.IPNetwork

/-!
# Settings from the environment

`Load` starts from the defaults, reads the configuration file over them, lets the environment
override both and checks the result. A number in the environment is read by a fold over the
text that skips every character but the digits and keeps 64 bits. So the number of the digits is
what is configured as long as it fits, and a text that is a numeral means what it says if it has no
minus sign.
-/
namespace NetBerth.EnvSettings
open Accounts IPAddress

/-! ## Configuration -/

structure ServerConfig where
  host : String
  port : ℤ
  rateLimitRate : ℤ
  rateLimitBurst : ℤ
  trustedProxies : List String
  tlsEnabled : Bool
  tlsCert : String
  tlsKey : String
  deriving DecidableEq, Repr

structure DatabaseConfig where
  path : String
  driver : String
  dsn : String
  deriving DecidableEq, Repr

structure Config where
  server : ServerConfig
  database : DatabaseConfig
  jwtSecret : String
  logLevel : String
  deriving DecidableEq, Repr

/-- `Default`. -/
def defaults : Config where
  server := ⟨"0.0.0.0", 8443, 100, 200, [], false, "", ""⟩
  database := ⟨"./data/netberth.db", "", ""⟩
  jwtSecret := ""
  logLevel := "info"

inductive File where
  | data (bytes : List UInt8)
  | missing
  | failed

/-- What `Load` takes from outside: the files, the YAML reader, which sets fields of a
configuration, the environment, and Unicode lower case. -/
structure System where
  readFile : String → File
  unmarshal : List UInt8 → Config → Option Config
  getenv : String → String
  toLower : String → String

inductive LoadError where
  | read
  | yaml
  | rateLimit (rate burst : ℤ)
  | trustedCIDR (s : String)
  | trustedIP (s : String)
  deriving DecidableEq, Repr

/-! ## Reading the environment -/

/-- The digits of a text as a number of 64 bits, everything else skipped. -/
def parseInt (v : String) : ℤ :=
  v.toList.foldl (fun n c =>
    if '0' ≤ c ∧ c ≤ '9' then (n * 10 + ((c.toNat : ℤ) - 48)).bmod (2 ^ 64) else n) 0

/-- The same fold; zero is the default port. -/
def parsePort (v : String) : ℤ :=
  let port := parseInt v
  if port = 0 then 8443 else port

def parseBool (toLower : String → String) (v : String) : Bool :=
  toLower (trimSpace v) ∈ ["1", "true", "yes", "on"]

def splitList (v : String) : List String :=
  ((v.toList.splitOn ',').map fun p => trimSpace (String.ofList p)).filter (· ≠ "")

/-- An empty variable overrides nothing. -/
def override (v : String) (set : String → Config → Config) (c : Config) : Config :=
  if v = "" then c else set v c

def applyEnv (sys : System) (c : Config) : Config :=
  let c := override (sys.getenv "NB_SERVER_HOST") (fun v c => { c with server.host := v }) c
  let c := override (sys.getenv "NB_SERVER_PORT")
    (fun v c => { c with server.port := parsePort v }) c
  let c := override (sys.getenv "NB_DB_PATH") (fun v c => { c with database.path := v }) c
  let c := override (sys.getenv "NB_DB_DRIVER")
    (fun v c => { c with database.driver := sys.toLower (trimSpace v) }) c
  let c := override (sys.getenv "NB_DB_DSN") (fun v c => { c with database.dsn := v }) c
  let c := override (sys.getenv "NB_JWT_SECRET") (fun v c => { c with jwtSecret := v }) c
  let c := override (sys.getenv "NB_LOG_LEVEL") (fun v c => { c with logLevel := v }) c
  let c := override (sys.getenv "NB_TLS_ENABLED")
    (fun v c => { c with server.tlsEnabled := parseBool sys.toLower v }) c
  let c := override (sys.getenv "NB_TLS_CERT") (fun v c => { c with server.tlsCert := v }) c
  let c := override (sys.getenv "NB_TLS_KEY") (fun v c => { c with server.tlsKey := v }) c
  let c := override (sys.getenv "NB_RATE_LIMIT_RATE")
    (fun v c => { c with server.rateLimitRate := parseInt v }) c
  let c := override (sys.getenv "NB_RATE_LIMIT_BURST")
    (fun v c => { c with server.rateLimitBurst := parseInt v }) c
  override (sys.getenv "NB_TRUSTED_PROXIES")
    (fun v c => { c with server.trustedProxies := splitList v }) c

/-! ## The check -/

def checkProxies : List String → Except LoadError Unit
  | [] => .ok ()
  | s :: rest =>
    let s := trimSpace s
    if s = "" then checkProxies rest
    else if '/' ∈ s.toList then
      if parseCIDR s = none then .error (.trustedCIDR s) else checkProxies rest
    else if parseIP s = none then .error (.trustedIP s)
    else checkProxies rest

def validate (c : Config) : Except LoadError Unit :=
  if c.server.rateLimitRate < 1 ∨ c.server.rateLimitBurst < 1 then
    .error (.rateLimit c.server.rateLimitRate c.server.rateLimitBurst)
  else checkProxies c.server.trustedProxies

/-- The defaults with the file read over them; a file that is not there changes nothing. -/
def readConfig (sys : System) (path : String) : Except LoadError Config :=
  match sys.readFile path with
  | .failed => .error .read
  | .missing => .ok defaults
  | .data bytes =>
    match sys.unmarshal bytes defaults with
    | none => .error .yaml
    | some cfg => .ok cfg

def load (sys : System) (path : String) : Except LoadError Config := do
  let path := if path = "" then "config/netberth.yaml" else path
  let cfg ← readConfig sys path
  let cfg := applyEnv sys cfg
  validate cfg
  return cfg

/-! ## The numbers in the environment -/

inductive Setting where
  | port
  | rateLimitRate
  | rateLimitBurst
  deriving DecidableEq, Repr

namespace Setting

def name : Setting → String
  | port => "NB_SERVER_PORT"
  | rateLimitRate => "NB_RATE_LIMIT_RATE"
  | rateLimitBurst => "NB_RATE_LIMIT_BURST"

def field (c : Config) : Setting → ℤ
  | port => c.server.port
  | rateLimitRate => c.server.rateLimitRate
  | rateLimitBurst => c.server.rateLimitBurst

def parse : Setting → String → ℤ
  | port => parsePort
  | rateLimitRate => parseInt
  | rateLimitBurst => parseInt

/-- A port has 16 bits, a rate is an integer. -/
def limit : Setting → ℕ
  | port => 65535
  | rateLimitRate => 2 ^ 63 - 1
  | rateLimitBurst => 2 ^ 63 - 1

end Setting

/-- Digits with a sign or none, between blanks. -/
def Numeral (v : String) (z : ℤ) : Prop :=
  ∃ front sign digits back, v.toList = front ++ (sign ++ (digits ++ back)) ∧
    (∀ c ∈ front ++ back, isSpace c = true) ∧ (sign = [] ∨ sign = ['+'] ∨ sign = ['-']) ∧
    digits ≠ [] ∧ (∀ c ∈ digits, c.isDigit = true) ∧
    z = (if sign = ['-'] then -1 else 1) * (value 10 (digits.map fun c => c.toNat - 48) : ℤ)

/-- The number of all the digits in a text. -/
def digitsNumber (v : String) : ℕ :=
  value 10 ((v.toList.filter Char.isDigit).map fun c => c.toNat - 48)

/-- The text is the numeral of a number in range and this number is configured, or the default is. -/
def MeansWhatItSays (s : Setting) (v : String) (configured : ℤ) : Prop :=
  (∃ z, Numeral v z ∧ configured = z ∧ (s = .port → 1 ≤ z ∧ z ≤ 65535)) ∨
    configured = s.field defaults

/-! ## What is read -/

theorem isDigit_iff {c : Char} : c.isDigit = true ↔ '0' ≤ c ∧ c ≤ '9' := by
  simp only [Char.isDigit, Bool.and_eq_true, decide_eq_true_eq]
  exact Iff.rfl

theorem bmod_step (x d : ℤ) (n : ℕ) : (x.bmod n * 10 + d).bmod n = (x * 10 + d).bmod n := by
  rw [← Int.bmod_add_bmod, Int.bmod_mul_bmod, Int.bmod_add_bmod]

/-- What is kept at every step is what is left of the whole number. -/
theorem foldl_digits (l : List Char) (m : ℕ) :
    l.foldl (fun n c =>
      if '0' ≤ c ∧ c ≤ '9' then (n * 10 + ((c.toNat : ℤ) - 48)).bmod (2 ^ 64) else n)
        ((m : ℤ).bmod (2 ^ 64)) =
      ((((l.filter Char.isDigit).map fun c => c.toNat - 48).foldl (fun v d => v * 10 + d) m : ℕ) :
        ℤ).bmod (2 ^ 64) := by
  induction l generalizing m with
  | nil => rw [List.filter_nil, List.map_nil, List.foldl_nil, List.foldl_nil]
  | cons c l ih =>
    by_cases hc : '0' ≤ c ∧ c ≤ '9'
    · have hnat : 48 ≤ c.toNat := UInt32.le_iff_toNat_le.mp hc.1
      have hcast : (m : ℤ) * 10 + ((c.toNat : ℤ) - 48) = ((m * 10 + (c.toNat - 48) : ℕ) : ℤ) := by
        omega
      rw [List.foldl_cons, if_pos hc, bmod_step, hcast, ih,
        List.filter_cons_of_pos (isDigit_iff.mpr hc), List.map_cons, List.foldl_cons]
    · rw [List.foldl_cons, if_neg hc, ih,
        List.filter_cons_of_neg fun hdigit => hc (isDigit_iff.mp hdigit)]

theorem parseInt_eq (v : String) : parseInt v = (digitsNumber v : ℤ).bmod (2 ^ 64) :=
  foldl_digits v.toList 0

theorem parseInt_of_lt {v : String} (h : digitsNumber v < 2 ^ 63) :
    parseInt v = (digitsNumber v : ℤ) := by
  rw [parseInt_eq]
  exact Int.bmod_eq_of_le (by omega) (by omega)

/-- A blank is no digit. -/
theorem isDigit_of_isSpace {c : Char} (h : isSpace c = true) : c.isDigit = false := by
  by_contra hdigit
  rw [Bool.not_eq_false] at hdigit
  have hrange : 48 ≤ c.toNat ∧ c.toNat ≤ 57 := Char.isDigit_iff_toNat.mp hdigit
  simp only [isSpace, List.mem_cons, List.not_mem_nil, or_false, Bool.or_eq_true,
    decide_eq_true_eq, Bool.and_eq_true] at h
  omega

theorem filter_isDigit_eq_nil {l : List Char} (h : ∀ c ∈ l, isSpace c = true) :
    l.filter Char.isDigit = [] := by
  rw [List.filter_eq_nil_iff]
  intro c hc
  rw [isDigit_of_isSpace (h c hc)]
  exact Bool.false_ne_true

/-- A numeral has the digits of its number. -/
theorem digitsNumber_of_numeral {v : String} {z : ℤ} (h : Numeral v z) :
    digitsNumber v = z.natAbs := by
  obtain ⟨front, sign, digits, back, hv, hblanks, hsign, -, hdigits, rfl⟩ := h
  have hfront := filter_isDigit_eq_nil fun c hc => hblanks c (List.mem_append_left back hc)
  have hback := filter_isDigit_eq_nil fun c hc => hblanks c (List.mem_append_right front hc)
  have hnone : sign.filter Char.isDigit = [] := by
    obtain rfl | rfl | rfl := hsign
    · rfl
    · rfl
    · rfl
  rw [digitsNumber, hv, List.filter_append, List.filter_append, List.filter_append, hfront, hnone,
    hback, List.filter_eq_self.mpr hdigits, List.nil_append, List.nil_append, List.append_nil]
  split
  · rw [neg_one_mul, Int.natAbs_neg, Int.natAbs_natCast]
  · rw [one_mul, Int.natAbs_natCast]

theorem mem_numeral {v : String} {z : ℤ} (h : Numeral v z) :
    ∀ c ∈ v.toList, isSpace c = true ∨ c = '+' ∨ c = '-' ∨ c.isDigit = true := by
  obtain ⟨front, sign, digits, back, hv, hblanks, hsign, -, hdigits, -⟩ := h
  intro c hc
  simp only [hv, List.mem_append] at hc
  obtain hc | hc | hc | hc := hc
  · exact .inl (hblanks c (List.mem_append_left back hc))
  · obtain rfl | rfl | rfl := hsign
    · cases hc
    · exact .inr (.inl (List.mem_singleton.mp hc))
    · exact .inr (.inr (.inl (List.mem_singleton.mp hc)))
  · exact .inr (.inr (.inr (hdigits c hc)))
  · exact .inl (hblanks c (List.mem_append_right front hc))

/-! ## What is loaded -/

theorem apply_override {α : Type} (f : Config → α) (v : String) (set : String → Config → Config)
    (c : Config) : f (override v set c) = if v = "" then f c else f (set v c) :=
  apply_ite f (v = "") c (set v c)

/-- A variable that is not empty sets its own field, and no other variable does. -/
theorem field_applyEnv {sys : System} {c : Config} {s : Setting} (h : sys.getenv s.name ≠ "") :
    s.field (applyEnv sys c) = s.parse (sys.getenv s.name) := by
  cases s with
  | port =>
    have hv : sys.getenv "NB_SERVER_PORT" ≠ "" := h
    simp [Setting.field, Setting.parse, Setting.name, applyEnv, apply_override fun c => c.server.port,
      hv]
  | rateLimitRate =>
    have hv : sys.getenv "NB_RATE_LIMIT_RATE" ≠ "" := h
    simp [Setting.field, Setting.parse, Setting.name, applyEnv,
      apply_override fun c => c.server.rateLimitRate, hv]
  | rateLimitBurst =>
    have hv : sys.getenv "NB_RATE_LIMIT_BURST" ≠ "" := h
    simp [Setting.field, Setting.parse, Setting.name, applyEnv,
      apply_override fun c => c.server.rateLimitBurst, hv]

theorem bind_eq_ok {ε α β : Type} {x : Except ε α} {f : α → Except ε β} {b : β}
    (h : (x >>= f) = .ok b) : ∃ a, x = .ok a ∧ f a = .ok b := by
  cases x with
  | error e => cases h
  | ok a => exact ⟨a, rfl, h⟩

/-- What is loaded has been overridden and checked, whatever the file says. -/
theorem validate_of_load {sys : System} {path : String} {cfg : Config}
    (h : load sys path = .ok cfg) : (∃ c, cfg = applyEnv sys c) ∧ validate cfg = .ok () := by
  obtain ⟨c, -, hchecked⟩ := bind_eq_ok h
  obtain ⟨_, hvalid, hcfg⟩ := bind_eq_ok hchecked
  obtain rfl := Except.ok.inj hcfg
  exact ⟨⟨c, rfl⟩, hvalid⟩

theorem one_le_of_validate {c : Config} (h : validate c = .ok ()) :
    1 ≤ c.server.rateLimitRate ∧ 1 ≤ c.server.rateLimitBurst := by
  rw [validate] at h
  split at h
  · cases h
  · omega

/-- The default stands for a port whose digits make zero. -/
theorem parsePort_of_lt {v : String} (h : digitsNumber v < 2 ^ 63) :
    parsePort v = if digitsNumber v = 0 then 8443 else (digitsNumber v : ℤ) := by
  rw [parsePort, parseInt_of_lt h]
  simp only [Nat.cast_eq_zero]

theorem Setting.limit_lt (s : Setting) : s.limit < 2 ^ 63 := by
  cases s <;> decide

theorem Setting.parse_of_lt {v : String} (h : digitsNumber v < 2 ^ 63) (s : Setting) :
    s.parse v = if s = .port ∧ digitsNumber v = 0 then s.field defaults
      else (digitsNumber v : ℤ) := by
  cases s with
  | port =>
    rw [parse, parsePort_of_lt h]
    simp [field, defaults]
  | rateLimitRate =>
    rw [parse, parseInt_of_lt h]
    simp
  | rateLimitBurst =>
    rw [parse, parseInt_of_lt h]
    simp

/-- In a configuration that is accepted a number from the environment is the number of its digits,
where an `int` can be that number, it is in the range of the setting where that number is, and the
number is that of a numeral without a minus sign. -/
theorem load_digits {sys : System} {path : String} {cfg : Config} (h : load sys path = .ok cfg)
    (s : Setting) (hset : sys.getenv s.name ≠ "") :
    (digitsNumber (sys.getenv s.name) < 2 ^ 63 →
      s.field cfg = if s = .port ∧ digitsNumber (sys.getenv s.name) = 0 then s.field defaults
        else (digitsNumber (sys.getenv s.name) : ℤ)) ∧
    (digitsNumber (sys.getenv s.name) ≤ s.limit → 1 ≤ s.field cfg ∧ s.field cfg ≤ s.limit) ∧
    (s ≠ .port → 1 ≤ s.field cfg) ∧
    ∀ z, Numeral (sys.getenv s.name) z → 0 ≤ z → (digitsNumber (sys.getenv s.name) : ℤ) = z := by
  obtain ⟨⟨c, rfl⟩, hvalid⟩ := validate_of_load h
  obtain ⟨hrate, hburst⟩ := one_le_of_validate hvalid
  have hfield := field_applyEnv (c := c) hset
  have hnumeral : ∀ z, Numeral (sys.getenv s.name) z → 0 ≤ z →
      (digitsNumber (sys.getenv s.name) : ℤ) = z := by
    intro z hz hsign
    rw [digitsNumber_of_numeral hz, Int.natAbs_of_nonneg hsign]
  have hexact : digitsNumber (sys.getenv s.name) < 2 ^ 63 → s.field (applyEnv sys c) =
      if s = .port ∧ digitsNumber (sys.getenv s.name) = 0 then s.field defaults
        else (digitsNumber (sys.getenv s.name) : ℤ) :=
    fun hlt => hfield.trans (Setting.parse_of_lt hlt s)
  have hpositive : s ≠ .port → 1 ≤ s.field (applyEnv sys c) := by
    intro hport
    cases s with
    | port => exact absurd rfl hport
    | rateLimitRate => exact hrate
    | rateLimitBurst => exact hburst
  refine ⟨hexact, fun hle => ?_, hpositive, hnumeral⟩
  rw [hexact (hle.trans_lt s.limit_lt)] at hpositive ⊢
  split_ifs at hpositive ⊢ with hdefault
  · rw [hdefault.1]
    decide
  · refine ⟨?_, by exact_mod_cast hle⟩
    by_cases hport : s = .port
    · have hne : digitsNumber (sys.getenv s.name) ≠ 0 := fun hzero => hdefault ⟨hport, hzero⟩
      omega
    · exact hpositive hport

/-- Only the rate is set, to a number with a sign and blanks. -/
theorem load_signed_rate : ∃ (sys : System) (cfg : Config),
    load sys "" = .ok cfg ∧ digitsNumber (sys.getenv "NB_RATE_LIMIT_RATE") = 50 ∧
      cfg.server.rateLimitRate = 50 := by
  let sys : System := ⟨fun _ => .missing, fun _ c => some c,
    fun name => if name = "NB_RATE_LIMIT_RATE" then " +50 " else "", id⟩
  have hload : load sys "" =
      .ok { defaults with server.rateLimitRate := 50 } := by decide
  have hdigits : digitsNumber (sys.getenv Setting.rateLimitRate.name) = 50 := by decide
  have hfield := (load_digits hload .rateLimitRate (by decide)).1 (by rw [hdigits]; decide)
  exact ⟨sys, _, hload, hdigits, hfield.trans (by rw [hdigits]; rfl)⟩

/-- The port of a text that is no numeral is neither rejected nor the default. -/
theorem digits_among_letters : ¬∀ (sys : System) (path : String) (cfg : Config),
    load sys path = .ok cfg → ∀ s : Setting, sys.getenv s.name ≠ "" →
      MeansWhatItSays s (sys.getenv s.name) (s.field cfg) := by
  intro h
  let sys : System := ⟨fun _ => .missing, fun _ c => some c,
    fun name => if name = "NB_SERVER_PORT" then "80extra" else "", id⟩
  have hload : load sys "" = .ok { defaults with server.port := 80 } := by decide
  have htext : sys.getenv Setting.port.name = "80extra" := by decide
  cases h sys "" _ hload .port (by decide) with
  | inl hnumeral =>
    obtain ⟨z, hz, -⟩ := hnumeral
    have hletter := mem_numeral hz 'x' (by rw [htext]; decide)
    revert hletter
    decide
  | inr hdefault =>
    revert hdefault
    decide

end NetBerth.EnvSettings
