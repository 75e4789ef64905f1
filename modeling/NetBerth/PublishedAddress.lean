import NetBerth.Accounts
import NetBerth.IPNetwork
import NetBerth.ProviderAnswers

/-!
# The address that is published

An update asks for its own address and gives what it is told to a provider. From an interface this
is the first public IPv4 address. From a URL it is the first 64 bytes of the body, whatever the
status is, with the white space and all: nothing looks at whether they are an address, or one of
the family of the record.
-/
namespace NetBerth.PublishedAddress
open AliyunQuery (utf8 utf8_injective)
open Accounts (isSpace)
open ClientCalls ClientCalls.Program DDNSProviders IPAddress
open Models (DDNSConfig)

/-! ## Lookups -/

inductive NetAddr where
  | ipNet (ip : IP)
  | other
  deriving DecidableEq, Repr

/-- `IsGlobalUnicast`. -/
def isGlobalUnicast (ip : IP) : Bool :=
  match to4 ip with
  | some a =>
    a ≠ 0xffffffff && a ≠ 0 && a >>> 24 ≠ 127 && a >>> 28 ≠ 0xe && a >>> 16 ≠ 0xa9fe
  | none => ip ≠ 0 && ip ≠ 1 && ip >>> 120 ≠ 0xff && ip >>> 118 ≠ 0x3fa

def publicIPv4 : NetAddr → Option (BitVec 32)
  | .ipNet ip => if isGlobalUnicast ip then to4 ip else none
  | .other => none

/-- `io.ReadAll` of an `io.LimitReader`: an error counts if it comes before the limit. -/
def readLimited (limit : ℕ) (resp : Response) : Except Bytes Bytes :=
  match resp.readError with
  | some err => if resp.body.length < limit then .error err else .ok (resp.body.take limit)
  | none => .ok (resp.body.take limit)

section
variable (addrsOf : String → Except Bytes (List NetAddr)) (cfg : DDNSConfig)

def getInterfaceIP (name : String) : Except Bytes Bytes :=
  match addrsOf name with
  | .error err => .error err
  | .ok addrs =>
    match addrs.findSome? publicIPv4 with
    | none => .error (utf8 ("no public IPv4 found on interface " ++ name))
    | some a => .ok (utf8 (ipv4String a))

/-- The address is that of an interface. -/
def byInterface (cfg : DDNSConfig) : Prop := cfg.getIPType = "interface" ∧ cfg.netInterface ≠ ""

instance decidableByInterface (cfg : DDNSConfig) : Decidable (byInterface cfg) :=
  inferInstanceAs (Decidable (_ ∧ _))

def getPublicIP : Client Bytes :=
  if byInterface cfg then
    match getInterfaceIP addrsOf cfg.netInterface with
    | .error err => fail err
    | .ok ip => succeed ip
  else
    let url := if cfg.getIPURL = "" then "https://api.ipify.org" else cfg.getIPURL
    send ⟨"GET", utf8 url, [], []⟩ fun resp =>
      match readLimited 64 resp with
      | .error err => fail err
      | .ok body => succeed body

/-- What is stored in the end: the ID with the address. Errors are only logged. -/
def update (lib : Library) : Client (Option (String × Bytes)) :=
  (getPublicIP addrsOf cfg).bind fun
    | .error .panic => .done (.error .panic)
    | .error (.err _) => succeed none
    | .ok ip =>
      if ip = [] then succeed none
      else
        (updateDNS lib cfg ip).bind fun
          | .error .panic => .done (.error .panic)
          | .error (.err _) => succeed none
          | .ok () => succeed (some (cfg.id, ip))

/-- The provider that is called, and the text it is called with. -/
def called (answers : ℕ → Answer) : Option (Provider × Bytes) :=
  match ((getPublicIP addrsOf cfg).run (given answers) 0).1 with
  | .error _ => none
  | .ok ip => if ip = [] then none else (providerOf cfg.provider).map fun provider => (provider, ip)

end

section
variable {addrsOf : String → Except Bytes (List NetAddr)} {cfg : DDNSConfig}

/-- After the lookup an update asks what the provider asks that is called. -/
theorem exchanges_update (lib : Library) (answers : ℕ → Answer) :
    (update addrsOf cfg lib).exchanges (given answers) 0 =
      (getPublicIP addrsOf cfg).exchanges (given answers) 0 ++
        match called addrsOf cfg answers with
        | none => []
        | some (provider, ip) =>
          (provider.update lib cfg ip).exchanges (given answers)
            ((getPublicIP addrsOf cfg).run (given answers) 0).2 := by
  rw [update, exchanges_bind, called]
  congr 1
  rcases (getPublicIP addrsOf cfg).run (given answers) 0 with ⟨(text | _) | ip, i⟩
  · rfl
  · rfl
  · dsimp only
    split_ifs with hempty
    · rfl
    · have hend (r : Except Failure Unit) (j : ℕ) : (match r with
          | .error .panic => (Program.done (.error .panic) : Client (Option (String × Bytes)))
          | .error (.err _) => succeed none
          | .ok () => succeed (some (cfg.id, ip))).exchanges (given answers) j = [] := by
        rcases r with (text | _) | _ <;> rfl
      rw [exchanges_bind, hend, List.append_nil, updateDNS]
      cases providerOf cfg.provider <;> rfl

end

/-! ## Addresses in bytes -/

/-- An A record has an IPv4 address, an AAAA record an IPv6 address. -/
def inFamily (recordType : String) : Addr → Prop
  | .v4 _ => recordType = "A"
  | .v6 _ zone => recordType = "AAAA" ∧ zone = ""

def IsAddress (recordType : String) (text : Bytes) : Prop :=
  ∃ s a, text = utf8 s ∧ parseAddr s = some a ∧ inFamily recordType a

/-- What `strings.TrimSpace` leaves of a body, if this is an address. -/
def TrimsTo (body text : Bytes) : Prop :=
  ∃ before after : String, (∀ c ∈ before.toList, isSpace c = true) ∧
    (∀ c ∈ after.toList, isSpace c = true) ∧ body = utf8 before ++ text ++ utf8 after

theorem utf8_eq_flatMap (s : String) : utf8 s = s.toList.flatMap String.utf8EncodeChar := by
  rw [utf8, String.toUTF8, ← String.utf8Encode_toList]
  induction s.toList with
  | nil => simp
  | cons c cs ih =>
    rw [List.utf8Encode_cons, List.utf8Encode_singleton, ByteArray.data_append, Array.toList_append, ih,
      List.flatMap_cons, List.toList_data_toByteArray]

/-- A byte of an address without a zone. -/
def isAddrByte (b : UInt8) : Bool := 46 ≤ b && b ≤ 102

theorem encode_addrChar {c : Char} (h : isAddrChar c = true) :
    ∃ b, String.utf8EncodeChar c = [b] ∧ isAddrByte b = true := by
  obtain ⟨hlow, hhigh⟩ := toNat_of_isAddrChar h
  have hc : c.val.toNat = c.toNat := rfl
  refine ⟨UInt8.ofNat c.toNat, ?_, ?_⟩
  · rw [String.utf8EncodeChar, if_pos (by omega)]
    rfl
  · have hb : (UInt8.ofNat c.toNat).toNat = c.toNat := by simp; omega
    simp only [isAddrByte, UInt8.le_iff_toNat_le, hb, Bool.and_eq_true, decide_eq_true_iff]
    exact ⟨hlow, hhigh⟩

theorem encode_space {c : Char} (h : isSpace c = true) :
    ∃ b rest, String.utf8EncodeChar c = b :: rest ∧ isAddrByte b = false := by
  have hc : c.val.toNat = c.toNat := rfl
  have hcases : c.toNat ≤ 32 ∨ 128 ≤ c.toNat ∧ c.toNat ≤ 65535:= by
    simp [isSpace] at h
    omega
  rw [String.utf8EncodeChar]
  simp only [hc]
  rcases hcases with hlow | ⟨hmid, hhigh⟩
  · rw [if_pos (by omega)]
    refine ⟨_, _, rfl, ?_⟩
    have hb : (UInt8.ofNat c.toNat).toNat = c.toNat := by simp; omega
    simp [isAddrByte, UInt8.le_iff_toNat_le, hb]
    omega
  · rw [if_neg (by omega)]
    split_ifs with h1
    · refine ⟨_, _, rfl, ?_⟩
      have hb : (UInt8.ofNat (c.toNat / 64 % 32 + 192)).toNat = c.toNat / 64 % 32 + 192 := by simp; omega
      simp only [isAddrByte, UInt8.le_iff_toNat_le, hb]
      simp
    · refine ⟨_, _, rfl, ?_⟩
      have hb : (UInt8.ofNat (c.toNat / 4096 % 16 + 224)).toNat = c.toNat / 4096 % 16 + 224 := by simp; omega
      simp only [isAddrByte, UInt8.le_iff_toNat_le, hb]
      simp

theorem parseAddr_inFamily {recordType s : String} {a : Addr} (h : parseAddr s = some a)
    (hfamily : inFamily recordType a) :
    (∀ c ∈ s.toList, isAddrChar c = true) ∧ s.toList.length < 64 := by
  unfold parseAddr at h
  split at h
  · obtain ⟨fs, hfs, -⟩ := Option.map_eq_some_iff.mp h
    have hle := length_le_of_ipv4Fields hfs (by omega) (by omega) (by simp)
    exact ⟨ipv4Fields_chars hfs, by simp at hle ⊢; omega⟩
  · unfold parseIPv6 at h
    split at h
    · obtain ⟨gs, hgs, -⟩ := Option.map_eq_some_iff.mp h
      exact ⟨ipv6Groups_chars hgs, length_lt_of_ipv6Groups hgs⟩
    · contradiction
    · rename_i zone hne hcut
      obtain ⟨gs, -, rfl⟩ := Option.map_eq_some_iff.mp h
      have hzone := congrArg String.toList hfamily.2
      rw [String.toList_ofList] at hzone
      exact (hne hzone).elim
  · contradiction

theorem IsAddress.bytes {recordType : String} {text : Bytes} (h : IsAddress recordType text) :
    (∀ b ∈ text, isAddrByte b = true) ∧ text.length < 64 ∧ text ≠ [] := by
  obtain ⟨s, a, rfl, hparse, hfamily⟩ := h
  obtain ⟨hchars, hlt⟩ := parseAddr_inFamily hparse hfamily
  have hbytes : ∀ cs : List Char, (∀ c ∈ cs, isAddrChar c = true) →
      (∀ b ∈ cs.flatMap String.utf8EncodeChar, isAddrByte b = true) ∧
        (cs.flatMap String.utf8EncodeChar).length = cs.length := by
    intro cs hcs
    induction cs with
    | nil => simp
    | cons c cs ih =>
      rw [List.forall_mem_cons] at hcs
      obtain ⟨b, hb, haddr⟩ := encode_addrChar hcs.1
      obtain ⟨hrest, hlength⟩ := ih hcs.2
      rw [List.flatMap_cons, hb, List.singleton_append, List.forall_mem_cons, List.length_cons,
        List.length_cons, hlength]
      exact ⟨⟨haddr, hrest⟩, rfl⟩
  obtain ⟨hall, hlength⟩ := hbytes _ hchars
  rw [utf8_eq_flatMap]
  refine ⟨hall, hlength ▸ hlt, fun hnil => ?_⟩
  rw [hnil, List.length_nil, eq_comm, List.length_eq_zero_iff] at hlength
  rw [String.toList_eq_nil_iff.mp hlength] at hparse
  cases hparse

/-- Where the first 64 bytes of a body are an address, nothing is trimmed and nothing cut off. -/
theorem take_eq_of_trimsTo {recordType : String} {body text : Bytes}
    (hhead : ∀ b ∈ body.take 64, isAddrByte b = true) (htrim : TrimsTo body text)
    (htext : IsAddress recordType text) : body.take 64 = text := by
  obtain ⟨before, after, hbefore, hafter, rfl⟩ := htrim
  obtain ⟨-, hlt, -⟩ := htext.bytes
  have hnil (s : String) (hs : ∀ c ∈ s.toList, isSpace c = true)
      (hbytes : ∀ b ∈ (utf8 s).head?, isAddrByte b = true) : utf8 s = [] := by
    rw [utf8_eq_flatMap] at hbytes ⊢
    cases hlist : s.toList with
    | nil => rfl
    | cons c cs =>
      rw [hlist] at hs hbytes
      obtain ⟨b, rest, hb, hspace⟩ := encode_space (hs c List.mem_cons_self)
      rw [List.flatMap_cons, hb] at hbytes
      rw [hbytes b rfl] at hspace
      contradiction
  have hempty : utf8 before = [] := by
    refine hnil before hbefore fun b hb => hhead b ?_
    cases hlist : utf8 before with
    | nil => simp [hlist] at hb
    | cons c cs =>
      rw [hlist, List.head?_cons, Option.mem_some] at hb
      simp [hb]
  rw [hempty, List.nil_append] at hhead ⊢
  have hempty' : utf8 after = [] := by
    refine hnil after hafter fun b hb => hhead b ?_
    cases hlist : utf8 after with
    | nil => simp [hlist] at hb
    | cons c cs =>
      rw [hlist, List.head?_cons, Option.mem_some] at hb
      rw [List.take_append, List.mem_append]
      refine .inr ?_
      rw [show 64 - text.length = (63 - text.length) + 1 by omega, List.take_succ_cons, hb]
      exact List.mem_cons_self
  rw [hempty', List.append_nil, List.take_of_length_le (by omega)]

/-! ## What is published -/

section
variable (addrsOf : String → Except Bytes (List NetAddr)) (cfg : DDNSConfig)
variable (answers : ℕ → Answer)

/-- A provider is called with an address of the family of the record only, and with the address
that the lookup URL answers with status 200, white space aside. -/
structure PublishesAddress : Prop where
  only : ∀ provider text, called addrsOf cfg answers = some (provider, text) →
    IsAddress cfg.recordType text
  every : ∀ provider, providerOf cfg.provider = some provider → ¬byInterface cfg →
    ∀ resp text, answers 0 = .ok resp → resp.status = 200 → resp.readError = none →
      TrimsTo resp.body text → IsAddress cfg.recordType text →
        called addrsOf cfg answers = some (provider, text)

/-- Nothing is given to a provider, or it is an address. -/
def Harmless : Prop :=
  providerOf cfg.provider = none ∨
    if byInterface cfg then
      ∀ addrs, addrsOf cfg.netInterface = .ok addrs →
        (∃ addr ∈ addrs, (publicIPv4 addr).isSome = true) → cfg.recordType = "A"
    else
      ∀ resp, answers 0 = .ok resp →
        (resp.readError ≠ none ∧ resp.body.length < 64) ∨ resp.body = [] ∨
          IsAddress cfg.recordType (resp.body.take 64)

end

section
variable {addrsOf : String → Except Bytes (List NetAddr)} {cfg : DDNSConfig}
variable {answers : ℕ → Answer}

theorem isAddress_ipv4String {recordType : String} {a : BitVec 32} :
    IsAddress recordType (utf8 (ipv4String a)) ↔ recordType = "A" := by
  constructor
  · rintro ⟨s, b, heq, hparse, hfamily⟩
    rw [← utf8_injective heq, parseAddr_ipv4String, Option.some.injEq] at hparse
    subst hparse
    exact hfamily
  · exact fun h => ⟨_, _, rfl, parseAddr_ipv4String a, h⟩

theorem called_eq_some {provider : Provider} {text : Bytes} :
    called addrsOf cfg answers = some (provider, text) ↔
      ((getPublicIP addrsOf cfg).run (given answers) 0).1 = .ok text ∧ text ≠ [] ∧
        providerOf cfg.provider = some provider := by
  unfold called
  cases ((getPublicIP addrsOf cfg).run (given answers) 0).1 with
  | error e => simp
  | ok ip =>
    dsimp only
    split_ifs with hempty
    · subst hempty
      simp only [Except.ok.injEq, false_iff, not_and]
      exact fun heq hne => (hne heq.symm).elim
    · rw [Option.map_eq_some_iff, Except.ok.injEq]
      constructor
      · rintro ⟨provider', hprovider, heq⟩
        cases heq
        exact ⟨rfl, hempty, hprovider⟩
      · rintro ⟨rfl, -, hprovider⟩
        exact ⟨provider, hprovider, rfl⟩

theorem readLimited_eq_ok {resp : Response} {text : Bytes} :
    readLimited 64 resp = .ok text ↔
      ¬(resp.readError ≠ none ∧ resp.body.length < 64) ∧ resp.body.take 64 = text := by
  unfold readLimited
  cases resp.readError with
  | none => simp
  | some err =>
    dsimp only
    split_ifs with hshort <;> simp [hshort]

theorem run_getPublicIP_url (hmode : ¬byInterface cfg) {text : Bytes} :
    ((getPublicIP addrsOf cfg).run (given answers) 0).1 = .ok text ↔
      ∃ resp, answers 0 = .ok resp ∧ ¬(resp.readError ≠ none ∧ resp.body.length < 64) ∧
        resp.body.take 64 = text := by
  rw [getPublicIP, if_neg hmode, ProviderAnswers.run_send]
  cases answers 0 with
  | error err => simp
  | ok resp =>
    simp only [Except.ok.injEq, exists_eq_left']
    rw [← readLimited_eq_ok]
    cases readLimited 64 resp <;> simp [fail, succeed, run]

theorem run_getPublicIP_interface (hmode : byInterface cfg) {text : Bytes} :
    ((getPublicIP addrsOf cfg).run (given answers) 0).1 = .ok text ↔
      ∃ addrs a, addrsOf cfg.netInterface = .ok addrs ∧ addrs.findSome? publicIPv4 = some a ∧
        utf8 (ipv4String a) = text := by
  rw [getPublicIP, if_pos hmode, getInterfaceIP]
  cases addrsOf cfg.netInterface with
  | error err => simp [fail, run]
  | ok addrs =>
    cases hfound : addrs.findSome? publicIPv4 <;> simp [hfound, fail, succeed, run]

theorem publishesAddress_interface {provider : Provider}
    (hprovider : providerOf cfg.provider = some provider) (hmode : byInterface cfg) :
    PublishesAddress addrsOf cfg answers ↔
      ∀ addrs, addrsOf cfg.netInterface = .ok addrs →
        (∃ addr ∈ addrs, (publicIPv4 addr).isSome = true) → cfg.recordType = "A" := by
  constructor
  · rintro ⟨honly, -⟩ addrs haddrs ⟨addr, hmem, hpublic⟩
    cases hfound : addrs.findSome? publicIPv4 with
    | none =>
      rw [List.findSome?_eq_none_iff.mp hfound addr hmem] at hpublic
      cases hpublic
    | some a =>
      have hne : utf8 (ipv4String a) ≠ [] := (isAddress_ipv4String.mpr rfl).bytes.2.2
      exact isAddress_ipv4String.mp (honly provider _ (called_eq_some.mpr
        ⟨(run_getPublicIP_interface hmode).mpr ⟨addrs, a, haddrs, hfound, rfl⟩, hne, hprovider⟩))
  · intro hcondition
    refine ⟨fun provider' text hcalled => ?_, fun _ _ hurl => (hurl hmode).elim⟩
    obtain ⟨addrs, a, haddrs, hfound, rfl⟩ :=
      (run_getPublicIP_interface hmode).mp (called_eq_some.mp hcalled).1
    obtain ⟨addr, hmem, hpublic⟩ := List.exists_of_findSome?_eq_some hfound
    exact isAddress_ipv4String.mpr (hcondition addrs haddrs ⟨addr, hmem, by rw [hpublic]; rfl⟩)

theorem publishesAddress_url {provider : Provider}
    (hprovider : providerOf cfg.provider = some provider) (hmode : ¬byInterface cfg) :
    PublishesAddress addrsOf cfg answers ↔
      ∀ resp, answers 0 = .ok resp →
        (resp.readError ≠ none ∧ resp.body.length < 64) ∨ resp.body = [] ∨
          IsAddress cfg.recordType (resp.body.take 64) := by
  constructor
  · rintro ⟨honly, -⟩ resp hresp
    by_cases hread : resp.readError ≠ none ∧ resp.body.length < 64
    · exact .inl hread
    · by_cases hempty : resp.body = []
      · exact .inr (.inl hempty)
      · have hne : resp.body.take 64 ≠ [] := by simpa using hempty
        exact .inr (.inr (honly provider _ (called_eq_some.mpr
          ⟨(run_getPublicIP_url hmode).mpr ⟨resp, hresp, hread, rfl⟩, hne, hprovider⟩)))
  · intro hcondition
    constructor
    · intro provider' text hcalled
      obtain ⟨hrun, hne, -⟩ := called_eq_some.mp hcalled
      obtain ⟨resp, hresp, hread, rfl⟩ := (run_getPublicIP_url hmode).mp hrun
      rcases hcondition resp hresp with hfail | hempty | haddress
      · exact (hread hfail).elim
      · rw [hempty] at hne
        exact (hne rfl).elim
      · exact haddress
    · intro provider' hprovider' _ resp text hresp _ hwhole htrim htext
      have hread : ¬(resp.readError ≠ none ∧ resp.body.length < 64) := fun h => h.1 hwhole
      have hbody : resp.body ≠ [] := by
        rintro hempty
        obtain ⟨before, after, -, -, hparts⟩ := htrim
        rw [hempty] at hparts
        simp only [List.append_assoc, List.nil_eq_append_iff] at hparts
        exact htext.bytes.2.2 (List.append_eq_nil_iff.mp hparts.2).1
      have haddress := ((hcondition resp hresp).resolve_left hread).resolve_left hbody
      have heq := take_eq_of_trimsTo haddress.bytes.1 htrim htext
      exact called_eq_some.mpr ⟨(run_getPublicIP_url hmode).mpr ⟨resp, hresp, hread, heq⟩,
        htext.bytes.2.2, hprovider'⟩

/-- After the lookup an update asks what the provider asks that is called. Only an address is
published, and every one that is answered, exactly if the lookup tells nothing else: no page, no
white space, no address of the other family. -/
theorem publishesAddress_iff (addrsOf : String → Except Bytes (List NetAddr)) (cfg : DDNSConfig)
    (answers : ℕ → Answer) :
    (∀ lib, (update addrsOf cfg lib).exchanges (given answers) 0 =
      (getPublicIP addrsOf cfg).exchanges (given answers) 0 ++
        match called addrsOf cfg answers with
        | none => []
        | some (provider, ip) =>
          (provider.update lib cfg ip).exchanges (given answers)
            ((getPublicIP addrsOf cfg).run (given answers) 0).2) ∧
      (PublishesAddress addrsOf cfg answers ↔ Harmless addrsOf cfg answers) := by
  refine ⟨fun lib => exchanges_update lib answers, ?_⟩
  unfold Harmless
  cases hprovider : providerOf cfg.provider with
  | none =>
    refine iff_of_true ⟨fun provider text hcalled => ?_, fun provider hsome => ?_⟩ (.inl rfl)
    · rw [called_eq_some, hprovider] at hcalled
      cases hcalled.2.2
    · rw [hprovider] at hsome
      cases hsome
  | some provider =>
    simp only [reduceCtorEq, false_or]
    split_ifs with hmode
    · exact publishesAddress_interface hprovider hmode
    · exact publishesAddress_url hprovider hmode

end

/-- The page of a captive portal, with status 200. -/
def portalPage : Bytes :=
  utf8 "<html><head><title>Sign in to the network</title></head><body>Please sign in.</body></html>"

def duckdnsConfig : DDNSConfig :=
  { DDNSConfig.zero with
    provider := "duckdns", domain := "example", subDomain := "@", recordType := "A",
    credentials := some [("token", "secret")] }

theorem page_is_published :
    ¬PublishesAddress (fun _ => .ok []) duckdnsConfig fun _ => .ok ⟨200, portalPage, none⟩ := by
  rintro ⟨honly, -⟩
  have hbytes := (honly .duckdns (portalPage.take 64) (by rfl)).bytes.1
  revert hbytes
  decide

end NetBerth.PublishedAddress
