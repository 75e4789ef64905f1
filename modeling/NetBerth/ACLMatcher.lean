import NetBerth.RuleLoading
import NetBerth.ForwardEngine
import NetBerth.IPNetwork

/-!
# The matcher on addresses and networks

What an entry of a list denotes, in the reading of `net/netip`, and when the
matcher admits a client. It drops the entries it cannot read, and a whitelist of
which nothing is left admits everyone. The validator lets text through that only
the `net` package reads, or reads as another set.
-/
namespace NetBerth.ACLMatcher
open RuleLoading IPAddress

def netip : Netip Addr :=
  ⟨parseAddr, fun s => (parsePrefix s).map Prefix.contains, fun s => (splitHostPort s).map Prod.fst⟩

/-- The set of addresses of an entry, empty where the entry is no address and no prefix. -/
def denotes (v : String) : Set Addr :=
  {a | (∃ p, parsePrefix v = some p ∧ p.contains a = true) ∨ parseAddr v = some a}

theorem mem_denotes_iff {v : String} {a : Addr} :
    a ∈ denotes v ↔ ∃ m, parseEntry netip v = some m ∧ m a = true := by
  cases hp : parsePrefix v with
  | none => simp [denotes, parseEntry, netip, hp]
  | some p => simp [denotes, parseEntry, netip, hp, (parsePrefix_spec hp).1]

instance (v : String) (a : Addr) : Decidable (a ∈ denotes v) :=
  decidable_of_iff ((parseEntry netip v).any (· a) = true) <| by
    rw [mem_denotes_iff]
    cases parseEntry netip v <;> simp

theorem Prefix.contains_self {p : Prefix} (h : p.addr.zone = "") : p.contains p.addr = true := by
  obtain ⟨a | ⟨a, zone⟩, n⟩ := p
  · simp [Prefix.contains]
  · simpa [Prefix.contains, Addr.zone] using h

theorem denotes_nonempty_iff {v : String} :
    (denotes v).Nonempty ↔ ∃ m, parseEntry netip v = some m := by
  constructor
  · rintro ⟨a, ha⟩
    obtain ⟨m, hm, -⟩ := mem_denotes_iff.mp ha
    exact ⟨m, hm⟩
  · rintro ⟨m, hm⟩
    cases hp : parsePrefix v with
    | some p => exact ⟨p.addr, .inl ⟨p, hp, Prefix.contains_self (parsePrefix_spec hp).2⟩⟩
    | none =>
      obtain ⟨a, ha, -⟩ : ∃ a, parseAddr v = some a ∧ _ := by
        simpa [parseEntry, netip, hp] using hm
      exact ⟨a, .inr ha⟩

/-- The address of a client, alone or with a port. -/
def clientAddr (ipStr : String) : Option Addr :=
  (netip.parseAddr ipStr).orElse fun _ => (netip.splitHostPort ipStr).bind netip.parseAddr

theorem any_filterMap_iff {l : List String} {a : Addr} :
    ((l.filterMap (parseEntry netip)).any (· a)) = true ↔ ∃ v ∈ l, a ∈ denotes v := by
  simp only [List.any_eq_true, List.mem_filterMap, mem_denotes_iff]
  constructor
  · rintro ⟨m, ⟨v, hv, hm⟩, ha⟩
    exact ⟨v, hv, m, hm, ha⟩
  · rintro ⟨v, hv, m, hm, ha⟩
    exact ⟨m, ⟨v, hv, hm⟩, ha⟩

theorem filterMap_eq_nil_iff {l : List String} :
    l.filterMap (parseEntry netip) = [] ↔ ∀ v ∈ l, ¬(denotes v).Nonempty := by
  simp only [List.filterMap_eq_nil_iff, denotes_nonempty_iff, ← Option.isSome_iff_exists,
    Option.not_isSome_iff_eq_none]

/-- An entry that is read admits what it denotes; the others count for nothing. -/
theorem isAllowed_load_iff {wl bl : List String} {ipStr : String} {a : Addr}
    (h : clientAddr ipStr = some a) :
    (Matcher.load netip wl bl).isAllowed netip ipStr = true ↔
      (∀ v ∈ bl, a ∉ denotes v) ∧
        ((∃ v ∈ wl, (denotes v).Nonempty) → ∃ v ∈ wl, a ∈ denotes v) := by
  rw [clientAddr] at h
  simp only [Matcher.isAllowed, h]
  split_ifs with hbl hwl
  · obtain ⟨v, hv, ha⟩ := any_filterMap_iff.mp hbl
    simp only [false_iff, not_and]
    exact fun hnone => absurd ha (hnone v hv)
  · have hnot := mt any_filterMap_iff.mpr hbl
    push Not at hnot
    have hread : ∃ v ∈ wl, (denotes v).Nonempty := by
      by_contra hnone
      push Not at hnone
      have hnil : wl.filterMap (parseEntry netip) = [] :=
        filterMap_eq_nil_iff.mpr fun v hv => by simp [hnone v hv]
      simp [Matcher.load, hnil] at hwl
    exact any_filterMap_iff.trans ⟨fun ha => ⟨hnot, fun _ => ha⟩, fun ha => ha.2 hread⟩
  · have hnot := mt any_filterMap_iff.mpr hbl
    push Not at hnot
    have hunread := filterMap_eq_nil_iff.mp (by simpa [Matcher.load] using hwl)
    simp only [true_iff]
    refine ⟨hnot, ?_⟩
    rintro ⟨v, hv, hne⟩
    exact absurd hne (hunread v hv)

theorem isAllowed_of_clientAddr {m : Matcher Addr} {ipStr : String} (h : clientAddr ipStr = none) :
    m.isAllowed netip ipStr = false := by
  rw [clientAddr] at h
  simp only [Matcher.isAllowed, h]

/-! ## Loads one after the other -/

/-- The matcher of `NewMatcher` after these calls of `Load`. -/
def afterLoads (loads : List (List String × List String)) : Matcher Addr :=
  loads.foldl (fun _ lists => .load netip lists.1 lists.2) ⟨[], []⟩

def lastLoaded (loads : List (List String × List String)) : List String × List String :=
  loads.getLast?.getD ([], [])

/-- No entry of the blacklist denotes the address, and one of the whitelist does
unless there is none. -/
def Permits (lists : List String × List String) (a : Addr) : Prop :=
  (∀ v ∈ lists.2, a ∉ denotes v) ∧ (lists.1 ≠ [] → ∃ v ∈ lists.1, a ∈ denotes v)

theorem afterLoads_eq (loads : List (List String × List String)) :
    afterLoads loads = .load netip (lastLoaded loads).1 (lastLoaded loads).2 := by
  induction loads using List.reverseRecOn with
  | nil => rfl
  | append_singleton loads lists _ => simp [afterLoads, lastLoaded]

/-- For every sequence of loads and every client: what the matcher admits is
permitted, exactly when the whitelist is empty, or one of its entries can be
read, or the client has no address or is on the blacklist. -/
theorem allowed_permits_iff (loads : List (List String × List String)) (ipStr : String) :
    ((afterLoads loads).isAllowed netip ipStr = true →
        ∃ a, clientAddr ipStr = some a ∧ Permits (lastLoaded loads) a) ↔
      (lastLoaded loads).1 = [] ∨ (∃ v ∈ (lastLoaded loads).1, (denotes v).Nonempty) ∨
        ∀ a, clientAddr ipStr = some a → ∃ v ∈ (lastLoaded loads).2, a ∈ denotes v := by
  rw [afterLoads_eq]
  generalize lastLoaded loads = lists
  cases hclient : clientAddr ipStr with
  | none => simp [isAllowed_of_clientAddr hclient]
  | some a =>
    simp only [isAllowed_load_iff hclient, Permits, Option.some.injEq, exists_eq_left', forall_eq']
    constructor
    · intro h
      by_contra hcond
      push Not at hcond
      obtain ⟨hne, hunread, hbl⟩ := hcond
      have hnone : ∀ v ∈ lists.1, ¬(denotes v).Nonempty := fun v hv => by simp [hunread v hv]
      obtain ⟨v, hv, ha⟩ := (h ⟨hbl, fun ⟨v, hv, hread⟩ => absurd hread (hnone v hv)⟩).2 hne
      exact hnone v hv ⟨a, ha⟩
    · rintro hcond ⟨hbl, hwl⟩
      refine ⟨hbl, fun hne => ?_⟩
      obtain hempty | hread | ⟨v, hv, ha⟩ := hcond
      · contradiction
      · exact hwl hread
      · exact absurd ha (hbl v hv)

/-- One entry that is no address. -/
def hostnameOnly : List (List String × List String) := [(["office.example"], [])]

/-- The whitelist is not empty and admits everyone. -/
theorem unread_whitelist_admits_all :
    ¬((afterLoads hostnameOnly).isAllowed netip "10.0.0.1" = true →
        ∃ a, clientAddr "10.0.0.1" = some a ∧ Permits (lastLoaded hostnameOnly) a) := by
  intro h
  have hallowed : (afterLoads hostnameOnly).isAllowed netip "10.0.0.1" = true := by decide +kernel
  have hunread : parsePrefix "office.example" = none ∧ parseAddr "office.example" = none := by
    decide +kernel
  obtain ⟨a, -, -, hwl⟩ := h hallowed
  obtain ⟨v, hv, ha⟩ := hwl (by decide)
  obtain rfl : v = "office.example" := by simpa [lastLoaded, hostnameOnly] using hv
  simp [denotes, hunread] at ha

/-! ## What the validator lets through -/

/-- The two parsers of `validator.IPOrCIDR`. -/
def parses (v : String) : Bool := (parseCIDR v).isSome || (parseIP v).isSome

def accepted (v : String) : Bool := ForwardEngine.ipOrCIDR parses v

/-- The mask has no leading zero, and a mapped address has a mask that leaves the
mapped range. -/
def Unambiguous (v : String) : Bool :=
  match cut '/' v.toList with
  | none => !(parseAddr v).any Addr.isMapped
  | some (addr, mask) =>
    plainBits mask &&
      (!(parseAddr (String.ofList addr)).any Addr.isMapped || (atoi mask).any (· < 96))

/-- The entry denotes the clients of the set the `net` package reads. -/
def Faithful (v : String) : Prop := ∀ x : IP, Addr.ofIP x ∈ denotes v ↔ netContains v x = true

theorem faithful_cidr {v : String} {net : IPNet} (h : parseCIDR v = some net) :
    Faithful v ∧ (denotes v).Nonempty ↔ Unambiguous v = true := by
  obtain ⟨addr, mask, ip, n, hcut, hip, hzone, hn, rfl, hprefix, haddr⟩ := parsePrefix_of_parseCIDR h
  have hunambiguous : Unambiguous v = (plainBits mask && (!ip.isMapped || n < 96)) := by
    simp [Unambiguous, hcut, hip, hn]
  have hnet : ∀ x, netContains v x = (ip.network n).contains x := by simp [netContains, h]
  rw [hunambiguous]
  by_cases hplain : plainBits mask = true
  · rw [if_pos hplain] at hprefix
    have hdenotes : ∀ a, a ∈ denotes v ↔ (⟨ip, n⟩ : Prefix).contains a = true := by
      simp [denotes, hprefix, haddr]
    have hne : (denotes v).Nonempty := ⟨ip, (hdenotes ip).mpr (Prefix.contains_self hzone)⟩
    simp only [hplain, hne, Faithful, hdenotes, hnet, Bool.true_and, and_true]
    constructor
    · intro hfaithful
      by_contra hmapped
      simp at hmapped
      obtain ⟨hin, hout⟩ := network_contains_mapped hmapped.1 hmapped.2
      rw [(hfaithful ip.as16).mpr hin] at hout
      contradiction
    · intro hcond x
      rw [network_contains (by simpa using hcond)]
  · rw [if_neg hplain] at hprefix
    simp [denotes, hprefix, haddr, hplain]

theorem faithful_single {v : String} {x : IP} (h : parseIP v = some x) :
    Faithful v ∧ (denotes v).Nonempty ↔ Unambiguous v = true := by
  obtain ⟨a, ha, hzone, rfl, hcut, hprefix, hcidr⟩ := parsePrefix_of_parseIP h
  have hunambiguous : Unambiguous v = !a.isMapped := by simp [Unambiguous, hcut, ha]
  have hnet : ∀ x, netContains v x = decide (a.as16 = x) := by simp [netContains, hcidr, h]
  have hdenotes : ∀ b, b ∈ denotes v ↔ b = a := by
    intro b
    simp [denotes, hprefix, ha]
  have hne : (denotes v).Nonempty := ⟨a, (hdenotes a).mpr rfl⟩
  rw [hunambiguous, Bool.not_eq_true', ← Addr.ofIP_as16_iff hzone]
  simp only [hne, Faithful, hdenotes, hnet, and_true, decide_eq_true_iff]
  constructor
  · intro hfaithful
    exact (hfaithful a.as16).mpr rfl
  · intro ha x
    constructor
    · rintro rfl
      exact Addr.as16_ofIP x
    · rintro rfl
      exact ha

/-- A client in the form the engine hands over is read as the same address. -/
theorem clientAddr_ipString (x : IP) : clientAddr (ipString x) = some (.ofIP x) := by
  simp [clientAddr, netip]

/-- For every entry the validator accepts: the matcher with the entry as its
whitelist admits, and with the entry as its blacklist refuses, exactly the
clients of the set that the `net` package reads, if and only if the entry has
no mask with a leading zero and is not in the mapped range. -/
theorem entry_enforced_iff (v : String) (hv : accepted v = true) :
    (∀ x : IP,
      ((Matcher.load netip [v] []).isAllowed netip (ipString x) = true ↔ netContains v x = true) ∧
      ((Matcher.load netip [] [v]).isAllowed netip (ipString x) = false ↔ netContains v x = true)) ↔
      Unambiguous v = true := by
  have hfaithful : Faithful v ∧ (denotes v).Nonempty ↔ Unambiguous v = true := by
    cases hcidr : parseCIDR v with
    | some net => exact faithful_cidr hcidr
    | none =>
      obtain ⟨x, hx⟩ : ∃ x, parseIP v = some x := by
        simpa [accepted, ForwardEngine.ipOrCIDR, parses, hcidr, Option.isSome_iff_exists] using
          (Bool.and_eq_true_iff.mp hv).2
      exact faithful_single hx
  have hwhite : ∀ x, (Matcher.load netip [v] []).isAllowed netip (ipString x) = true ↔
      ((denotes v).Nonempty → Addr.ofIP x ∈ denotes v) := by
    intro x
    simp [isAllowed_load_iff (clientAddr_ipString x)]
  have hblack : ∀ x, (Matcher.load netip [] [v]).isAllowed netip (ipString x) = false ↔
      Addr.ofIP x ∈ denotes v := by
    intro x
    rw [← Bool.not_eq_true, isAllowed_load_iff (clientAddr_ipString x)]
    simp
  simp only [← hfaithful, hwhite, hblack]
  constructor
  · intro h
    have hagree : Faithful v := fun x => (h x).2
    refine ⟨hagree, ?_⟩
    -- an entry that denotes nothing would admit everyone and refuse no one
    by_contra hempty
    have hin := (h 0).1.mp fun hne => absurd hne hempty
    exact hempty ⟨_, (hagree 0).mpr hin⟩
  · rintro ⟨hagree, hne⟩ x
    refine ⟨?_, hagree x⟩
    rw [← hagree x]
    exact ⟨fun h => h hne, fun h _ => h⟩

/-- A network in the spelling of the documentation, and a client in it. -/
theorem entry_enforced_private :
    ((Matcher.load netip ["10.0.0.0/8"] []).isAllowed netip (ipString (mapped 0x0a010203)) = true ↔
      netContains "10.0.0.0/8" (mapped 0x0a010203) = true) ∧
    ((Matcher.load netip [] ["10.0.0.0/8"]).isAllowed netip (ipString (mapped 0x0a010203)) = false ↔
      netContains "10.0.0.0/8" (mapped 0x0a010203) = true) :=
  (entry_enforced_iff "10.0.0.0/8" (by decide +kernel)).mpr (by decide +kernel) (mapped 0x0a010203)

/-- Two entries the validator accepts: the one admits a client outside of its set,
the other does not refuse the only client in its set. -/
theorem accepted_entries_not_enforced :
    (accepted "10.0.0.0/08" = true ∧ netContains "10.0.0.0/08" (mapped 0x08080808) = false ∧
      (Matcher.load netip ["10.0.0.0/08"] []).isAllowed netip (ipString (mapped 0x08080808)) =
        true) ∧
    accepted "::ffff:10.0.0.1" = true ∧
      netContains "::ffff:10.0.0.1" (mapped 0x0a000001) = true ∧
      (Matcher.load netip [] ["::ffff:10.0.0.1"]).isAllowed netip
        (ipString (mapped 0x0a000001)) = true := by
  decide +kernel

end NetBerth.ACLMatcher
