import Mathlib.Data.List.MinMax
import NetBerth.ProxyHandler
import NetBerth.StoredRules

/-!
# The entry a request finds

The table of the proxy is keyed by the domain as it is written, and a reload deletes by the key
without a look at the rule the entry is for. A host is looked up as it comes, less its port;
where it has no entry of its own, the first wildcard for it that the map's iteration meets takes
the request.

Against that stand what the table is for: the entries of a rule are the rule's own, the most
specific domain decides, and two spellings of a host are one host.
-/
namespace NetBerth.ProxyRouting
open SqlTable Rules HTTPRequest ProxyRoutes ProxyHandler StoredRules

/-! ## Neighbours -/

/-- The entries for a rule are still there, each with the handler built for it. -/
def Keeps (id : ID) (routes routes' : Table Route) : Prop :=
  ∀ e ∈ routes.rows, e.rule.id = id → routes'.select e.domain = some e

theorem select_of_mem {routes : Table Route} {e : Route} (he : e ∈ routes.rows) :
    routes.select e.domain = some e := Table.select_eq_some.mpr ⟨he, rfl⟩

/-- What is kept answers the requests for its domain as before. -/
theorem Keeps.serveHTTP {id : ID} {routes routes' : Table Route} (h : Keeps id routes routes')
    {e : Route} (he : e ∈ routes.rows) (hid : e.rule.id = id) (H : NetHTTP) (choice choice' : ℕ)
    {r : Request} (hhost : hostOf r = e.domain) :
    serveHTTP H routes' choice' r = serveHTTP H routes choice r := by
  unfold ProxyHandler.serveHTTP findRoute
  rw [hhost, h e he hid, select_of_mem he]
  rfl

/-- A removal deletes an entry of the rule with the id. -/
theorem keeps_remove {id id' : ID} (hne : id ≠ id') (routes : Table Route) (choice : ℕ) :
    Keeps id routes (remove routes id' choice) := by
  intro e he hid
  obtain ⟨hsame, -⟩ | ⟨first, hfirst, hown, hdelete⟩ := remove_cases routes id' choice
  · rw [hsame]
    exact select_of_mem he
  · have hdomain : e.domain ≠ first.domain := by
      intro heq
      rw [Table.eq_of_key he hfirst heq] at hid
      exact hne (hid.symm.trans hown)
    rw [hdelete]
    apply select_of_mem
    simpa using ⟨he, hdomain⟩

theorem keeps_reload_iff {id : ID} {rule : ProxyRule} (hdisabled : rule.enabled = false)
    (routes : Table Route) :
    Keeps id routes (reload routes rule) ↔
      ∀ e ∈ routes.rows, e.rule.id = id → e.domain ≠ ruleKey rule := by
  have hmem : ∀ e, (reload routes rule).select e.domain = some e ↔
      e ∈ routes.rows ∧ e.domain ≠ ruleKey rule := by
    intro e
    rw [Table.select_eq_some, mem_reload]
    simp [hdisabled, Keyed.key]
  unfold Keeps
  constructor
  · intro hkeeps e he hid
    exact ((hmem e).mp (hkeeps e he hid)).2
  · intro hkey e he hid
    exact (hmem e).mpr ⟨he, hkey e he hid⟩

/-- For every table: switching a rule off and removing it leave the entries of another rule
alone, exactly when the other one has no entry at the key that the reload deletes. -/
theorem neighbour_kept_iff {id : ID} {rule : ProxyRule} (hdisabled : rule.enabled = false)
    (hne : id ≠ rule.id) (routes : Table Route) :
    (Keeps id routes (reload routes rule) ∧
      ∀ choice : ℕ, Keeps id routes (remove routes rule.id choice)) ↔
    ∀ e ∈ routes.rows, e.rule.id = id → e.domain ≠ ruleKey rule := by
  rw [keeps_reload_iff hdisabled]
  exact and_iff_left fun choice => keeps_remove hne routes choice

/-- Rules that list no domain together keep apart. -/
theorem keeps_of_serves {id : ID} {rule : ProxyRule} {routes : Table Route}
    {versions : Table ProxyRule} (hserves : Serves routes versions)
    (hdisjoint : DisjointDomains versions) (hrule : rule ∈ versions.rows) (hne : id ≠ rule.id)
    (hdomains : rule.domains ≠ []) :
    ∀ e ∈ routes.rows, e.rule.id = id → e.domain ≠ ruleKey rule := by
  intro e he hid
  obtain ⟨hversion, -, hdomain⟩ := (hserves e).mp he
  have hkey : ruleKey rule ∈ rule.domains := by
    cases hds : rule.domains with
    | nil => contradiction
    | cons d ds => simp [ruleKey, hds]
  rintro heq
  exact hdisjoint e.rule hversion rule hrule (hid ▸ hne) _ hdomain (heq ▸ hkey)

/-- A rule with one website. -/
def site (id : ID) (domain : String) : ProxyRule :=
  ⟨⟨id, "t", "o", id, "http://10.0.0.2:8080", false, "", false, true, false, "", "", "", 0, true⟩,
    ⟨[domain], [], [], [], []⟩⟩

/-- The table that the rules of two tenants start with. -/
def twoSites (domain domain' : String) : Table Route :=
  start ⟨[site "a" domain, site "b" domain'], by simp [site, Keyed.key]⟩

def off (rule : ProxyRule) : ProxyRule :=
  ⟨{ rule.toProxyRow with enabled := false }, rule.toProxyLists⟩

theorem neighbour_kept_apart :
    Keeps "b" (twoSites "a.example" "b.example")
        (reload (twoSites "a.example" "b.example") (off (site "a" "a.example"))) ∧
      ∀ choice : ℕ, Keeps "b" (twoSites "a.example" "b.example")
        (remove (twoSites "a.example" "b.example") "a" choice) := by
  have hkeys : ∀ e ∈ (twoSites "a.example" "b.example").rows, e.rule.id = "b" →
      e.domain ≠ ruleKey (off (site "a" "a.example")) := by decide
  exact (neighbour_kept_iff rfl (by decide) _).mpr hkeys

/-- The second rule took the domain over; the first is switched off, and the domain is gone. -/
theorem neighbour_taken_down :
    (site "b" "blog.example").enabled = true ∧
      (twoSites "blog.example" "blog.example").select "blog.example" =
        some ⟨"blog.example", site "b" "blog.example"⟩ ∧
      (reload (twoSites "blog.example" "blog.example") (off (site "a" "blog.example"))).rows = [] ∧
      ¬Keeps "b" (twoSites "blog.example" "blog.example")
        (reload (twoSites "blog.example" "blog.example") (off (site "a" "blog.example"))) := by
  unfold Keeps
  decide

/-! ## The most specific domain -/

/-- The entry of the host, or else the longest of the wildcards for it. -/
def mostSpecific (routes : Table Route) (host : String) : Option Route :=
  (routes.select host).orElse fun _ =>
    (routes.selectWhere (isWildcardFor host)).argmax fun e => e.domain.length

/-- Wildcards for one host are told apart by their length. -/
theorem eq_of_isWildcardFor {routes : Table Route} {host : String} {e e' : Route}
    (he : e ∈ routes.rows) (he' : e' ∈ routes.rows) (h : isWildcardFor host e = true)
    (h' : isWildcardFor host e' = true) (hlen : e.domain.length = e'.domain.length) : e = e' := by
  apply Table.eq_of_key he he'
  simp only [isWildcardFor, Bool.and_eq_true, List.isPrefixOf_iff_prefix,
    List.isSuffixOf_iff_suffix] at h h'
  have hstar : e.domain.toList.head? = some '*' ∧ e'.domain.toList.head? = some '*' := by
    obtain ⟨t, ht⟩ := h.1
    obtain ⟨t', ht'⟩ := h'.1
    simp [← ht, ← ht']
  have htail : e.domain.toList.tail = e'.domain.toList.tail := by
    rw [← List.drop_one, ← List.drop_one]
    have hdrop : (e.domain.toList.drop 1).length = (e'.domain.toList.drop 1).length := by
      rw [List.length_drop, List.length_drop, String.length_toList, String.length_toList, hlen]
    exact (List.suffix_of_suffix_length_le h.2 h'.2 hdrop.le).eq_of_length hdrop
  have hchars : e.domain.toList = e'.domain.toList := by
    rw [← List.cons_head?_tail hstar.1, ← List.cons_head?_tail hstar.2, htail]
  exact String.toList_inj.mp hchars

/-- Where the host has no entry, the most specific one is the longest of its wildcards. -/
theorem mostSpecific_eq_some_iff {routes : Table Route} {host : String}
    (hexact : routes.select host = none) {e : Route} :
    mostSpecific routes host = some e ↔ e ∈ routes.rows ∧ isWildcardFor host e = true ∧
      ∀ e' ∈ routes.rows, isWildcardFor host e' = true → e'.domain.length ≤ e.domain.length := by
  rw [mostSpecific, hexact, Option.orElse_none]
  constructor
  · intro hmax
    obtain ⟨hmem, hlongest, -⟩ := List.mem_argmax_iff.mp hmax
    obtain ⟨he, hwild⟩ := Table.mem_selectWhere.mp hmem
    exact ⟨he, hwild, fun e' he' hwild' => hlongest e' (Table.mem_selectWhere.mpr ⟨he', hwild'⟩)⟩
  · rintro ⟨he, hwild, hlongest⟩
    have hmem : e ∈ routes.selectWhere (isWildcardFor host) :=
      Table.mem_selectWhere.mpr ⟨he, hwild⟩
    cases hmax : (routes.selectWhere (isWildcardFor host)).argmax fun e => e.domain.length with
    | none =>
      rw [List.argmax_eq_none.mp hmax] at hmem
      cases hmem
    | some e' =>
      obtain ⟨hmem', hlongest', -⟩ := List.mem_argmax_iff.mp hmax
      obtain ⟨he', hwild'⟩ := Table.mem_selectWhere.mp hmem'
      have hlen := le_antisymm (hlongest e' he' hwild') (hlongest' e hmem)
      rw [eq_of_isWildcardFor he' he hwild' hwild hlen]

theorem findRoute_none {routes : Table Route} {host : String} (h : routes.select host = none)
    (choice : ℕ) :
    findRoute routes choice host =
      (routes.selectWhere (isWildcardFor host))[
        choice % (routes.selectWhere (isWildcardFor host)).length]? := by
  simp [findRoute, h]

/-- For every table and host: whatever the order of the map's iteration, the most specific entry
is chosen, exactly when the host has an entry of its own or one wildcard for it at most. -/
theorem mostSpecific_chosen_iff (routes : Table Route) (host : String) :
    (∀ choice : ℕ, findRoute routes choice host = mostSpecific routes host) ↔
      (routes.select host).isSome = true ∨ routes.count (isWildcardFor host) ≤ 1 := by
  cases hexact : routes.select host with
  | some e => simp [findRoute, mostSpecific, hexact]
  | none =>
    have hcount : routes.count (isWildcardFor host) =
        (routes.selectWhere (isWildcardFor host)).length := List.countP_eq_length_filter
    have hnodup : (routes.selectWhere (isWildcardFor host)).Nodup :=
      (List.Nodup.of_map Keyed.key routes.nodup).filter _
    simp only [findRoute_none hexact, mostSpecific, hexact, Option.orElse_none, hcount,
      Option.isSome_none, Bool.false_eq_true, false_or]
    generalize routes.selectWhere (isWildcardFor host) = wildcards at hnodup
    constructor
    · intro hchosen
      by_contra hmany
      have hfirst := hchosen 0
      have hsecond := hchosen 1
      rw [Nat.mod_eq_of_lt (by omega)] at hfirst hsecond
      have hsame := (List.getElem?_inj (by omega) hnodup).mp (hfirst.trans hsecond.symm)
      contradiction
    · intro hone choice
      cases wildcards with
      | nil => rfl
      | cons e rest =>
        obtain rfl := List.length_eq_zero_iff.mp (Nat.le_zero.mp (Nat.le_of_succ_le_succ hone))
        simp [Nat.mod_one]

/-- One wildcard lies below the other: a request goes to either. -/
theorem wildcards_at_random :
    findRoute (twoSites "*.example.com" "*.b.example.com") 0 "x.b.example.com" =
        some ⟨"*.example.com", site "a" "*.example.com"⟩ ∧
      findRoute (twoSites "*.example.com" "*.b.example.com") 1 "x.b.example.com" =
        some ⟨"*.b.example.com", site "b" "*.b.example.com"⟩ ∧
      mostSpecific (twoSites "*.example.com" "*.b.example.com") "x.b.example.com" =
        some ⟨"*.b.example.com", site "b" "*.b.example.com"⟩ := by
  decide

/-! ## Spellings of a host -/

/-- The letters of a host and of a domain are ASCII letters. -/
def lower (s : String) : String := String.ofList (s.toList.map Char.toLower)

def upper (s : String) : String := String.ofList (s.toList.map Char.toUpper)

/-- `strings.EqualFold`. -/
def EqualFold (s s' : String) : Prop := lower s = lower s'

theorem equalFold_lower (s : String) : EqualFold s (lower s) := by
  simp [EqualFold, lower, Function.comp_def]

theorem equalFold_upper (s : String) : EqualFold s (upper s) := by
  simp [EqualFold, lower, upper, Function.comp_def]

/-- A text of a `Host` header: the host, or the host with a port. -/
def Carries (text host : String) : Prop := text = host ∨ ∃ port : String, text = host ++ ":" ++ port

/-- The requests are for one host, up to the case of letters and a port. -/
def SameHost (r r' : Request) : Prop :=
  ∃ host host' : String, Carries r.host host ∧ Carries r'.host host' ∧ EqualFold host host'

/-- The rules are the same, up to the case of letters in their domains. -/
def Respelled (rule rule' : ProxyRule) : Prop :=
  ∃ domains : List String, List.Forall₂ EqualFold rule.domains domains ∧
    rule' = { rule with domains := domains }

/-- The table of rules that are added one after the other. -/
def built (rules : List ProxyRule) : Table Route := rules.foldl addRoute Table.empty

/-- The rules that may be chosen for a request, for all orders of the map's iteration. -/
def chosen (rules : List ProxyRule) (r : Request) : Set (Option ID) :=
  Set.range fun choice : ℕ => (findRoute (built rules) choice (hostOf r)).map fun e => e.rule.id

/-- The domain is the host, or a wildcard for it. -/
def Matches (host domain : String) : Prop :=
  domain = host ∨ ['*', '.'] <+: domain.toList ∧ domain.toList.drop 1 <:+ host.toList

instance (host domain : String) : Decidable (Matches host domain) :=
  inferInstanceAs (Decidable (_ ∨ _ ∧ _))

/-- The domain is the host or a wildcard for it, with the case of letters aside. -/
def MatchesFold (host domain : String) : Prop := Matches (lower host) (lower domain)

instance (host domain : String) : Decidable (MatchesFold host domain) :=
  inferInstanceAs (Decidable (Matches _ _))

theorem Matches.fold {host domain : String} (h : Matches host domain) : MatchesFold host domain := by
  obtain rfl | ⟨hstar, hsuffix⟩ := h
  · exact .inl rfl
  · refine .inr ⟨?_, ?_⟩
    · have hmap := hstar.map Char.toLower
      simpa [lower] using hmap
    · have hmap := hsuffix.map Char.toLower
      simpa [lower, List.map_drop] using hmap

theorem MatchesFold.congr {host host' domain domain' : String} (h : MatchesFold host domain)
    (hhost : EqualFold host host') (hdomain : EqualFold domain domain') :
    MatchesFold host' domain' := by
  unfold MatchesFold
  rw [← hhost, ← hdomain]
  exact h

/-! ### The host of a request -/

/-- `strings.Split(s, ":")[0]`. -/
def hostPart (s : String) : String := String.ofList (s.toList.takeWhile (· ≠ ':'))

theorem hostOf_eq (r : Request) : hostOf r = hostPart r.host := by
  have hsplit : ∀ s : List Char, (s.splitOn ':').head? = some (s.takeWhile (· ≠ ':')) := by
    intro s
    induction s with
    | nil => rfl
    | cons c s ih =>
      rw [List.splitOn_cons_eq_if_modifyHead]
      by_cases hc : c = ':'
      · simp [hc]
      · cases hs : s.splitOn ':' with
        | nil => simp at hs
        | cons l ls =>
          rw [hs, List.head?_cons, Option.some.injEq] at ih
          simp [hc, ih]
  simp [hostOf, split, hostPart, List.headD_eq_head?_getD, hsplit]

/-- A port makes no difference. -/
theorem hostPart_port (host port : String) : hostPart (host ++ ":" ++ port) = hostPart host := by
  have htake : ∀ s t : List Char, (s ++ ':' :: t).takeWhile (· ≠ ':') = s.takeWhile (· ≠ ':') := by
    intro s t
    induction s with
    | nil => simp
    | cons c s ih =>
      by_cases hc : c = ':'
      · simp [hc]
      · simpa [hc] using ih
  simpa [hostPart] using congrArg String.ofList (htake host.toList port.toList)

theorem Carries.hostPart_eq {text host : String} (h : Carries text host) :
    hostPart text = hostPart host := by
  obtain rfl | ⟨port, rfl⟩ := h
  · rfl
  · exact hostPart_port host port

theorem hostPart_lower (s : String) : hostPart (lower s) = lower (hostPart s) := by
  have hcolon : ∀ c : Char, c.toLower = ':' ↔ c = ':' := by
    intro c
    by_cases hc : c.isUpper = true
    · have hlower : c.toLower.isLower = true := by simp [Char.isAlpha, hc]
      constructor
      · intro h
        rw [h] at hlower
        contradiction
      · rintro rfl
        contradiction
    · rw [Char.toLower_eq_of_not_isUpper hc]
  simp [hostPart, lower, List.takeWhile_map, Function.comp_def, hcolon]

theorem SameHost.equalFold {r r' : Request} (h : SameHost r r') :
    EqualFold (hostOf r) (hostOf r') := by
  obtain ⟨host, host', hr, hr', hfold⟩ := h
  rw [hostOf_eq, hostOf_eq, hr.hostPart_eq, hr'.hostPart_eq, EqualFold, ← hostPart_lower,
    ← hostPart_lower, hfold]

/-! ### What the table has for a host -/

theorem isWildcardFor_iff {host : String} {e : Route} : isWildcardFor host e = true ↔
    ['*', '.'] <+: e.domain.toList ∧ e.domain.toList.drop 1 <:+ host.toList := by
  rw [isWildcardFor, Bool.and_eq_true, List.isPrefixOf_iff_prefix, List.isSuffixOf_iff_suffix]

theorem findRoute_eq_none_iff {routes : Table Route} {choice : ℕ} {host : String} :
    findRoute routes choice host = none ↔ ∀ e ∈ routes.rows, ¬Matches host e.domain := by
  simp only [Matches, ← isWildcardFor_iff, not_or]
  cases hexact : routes.select host with
  | some e =>
    obtain ⟨he, hdomain⟩ := Table.select_eq_some.mp hexact
    have hfound : findRoute routes choice host = some e := by simp [findRoute, hexact]
    rw [hfound]
    exact iff_of_false (Option.some_ne_none e) fun h => (h e he).1 hdomain
  | none =>
    have hother : ∀ e ∈ routes.rows, e.domain ≠ host := Table.select_eq_none.mp hexact
    have hempty : findRoute routes choice host = none ↔
        routes.selectWhere (isWildcardFor host) = [] := by
      rw [findRoute_none hexact, List.getElem?_eq_none_iff]
      cases routes.selectWhere (isWildcardFor host) with
      | nil => simp
      | cons e es => simpa using Nat.mod_lt choice (Nat.succ_pos es.length)
    rw [hempty, Table.selectWhere, List.filter_eq_nil_iff]
    exact forall₂_congr fun e he => (and_iff_right (hother e he)).symm

theorem exists_built_iff {rules : List ProxyRule} {domain : String} :
    (∃ e ∈ (built rules).rows, e.domain = domain) ↔ ∃ rule ∈ rules, domain ∈ rule.domains := by
  induction rules using List.reverseRecOn with
  | nil => simp [built, Table.empty]
  | append_singleton rules rule ih =>
    have hsplit : built (rules ++ [rule]) = addRoute (built rules) rule := by simp [built]
    simp only [hsplit, mem_addRoute, List.mem_append, List.mem_singleton, or_and_right, exists_or,
      ← ih, exists_eq_left]
    constructor
    · rintro (⟨e, ⟨he, -⟩, hdomain⟩ | ⟨e, ⟨-, hmem⟩, rfl⟩)
      · exact .inl ⟨e, he, hdomain⟩
      · exact .inr hmem
    · intro h
      by_cases hmem : domain ∈ rule.domains
      · exact .inr ⟨⟨domain, rule⟩, ⟨rfl, hmem⟩, rfl⟩
      · obtain ⟨e, he, rfl⟩ := h.resolve_right hmem
        exact .inl ⟨e, ⟨he, hmem⟩, rfl⟩

/-- A request may be left without an entry exactly when no domain matches. -/
theorem none_mem_chosen_iff {rules : List ProxyRule} {r : Request} :
    none ∈ chosen rules r ↔ ∀ rule ∈ rules, ∀ d ∈ rule.domains, ¬Matches (hostOf r) d := by
  have hmatches : (∀ e ∈ (built rules).rows, ¬Matches (hostOf r) e.domain) ↔
      ∀ rule ∈ rules, ∀ d ∈ rule.domains, ¬Matches (hostOf r) d := by
    constructor
    · intro h rule hrule d hd
      obtain ⟨e, he, rfl⟩ := exists_built_iff.mpr ⟨rule, hrule, hd⟩
      exact h e he
    · intro h e he
      obtain ⟨rule, hrule, hd⟩ := exists_built_iff.mp ⟨e, he, rfl⟩
      exact h rule hrule _ hd
  simp [chosen, findRoute_eq_none_iff, hmatches]

theorem chosen_of_none_mem {rules : List ProxyRule} {r : Request} (h : none ∈ chosen rules r) :
    chosen rules r = {none} := by
  obtain ⟨choice, hchoice⟩ := h
  have hrows := findRoute_eq_none_iff.mp (Option.map_eq_none_iff.mp hchoice)
  have hall : ∀ choice : ℕ, findRoute (built rules) choice (hostOf r) = none :=
    fun _ => findRoute_eq_none_iff.mpr hrows
  simp [chosen, hall, Set.range_const]

/-! ### Domains in capitals -/

theorem exists_intercalate_append {sep : List Char} {ls : List (List Char)} {last : List Char}
    (h : ls.getLast? = some last) : ∃ pre, sep.intercalate ls = pre ++ last := by
  induction ls with
  | nil => contradiction
  | cons l ls ih =>
    cases ls with
    | nil =>
      obtain rfl : l = last := by simpa using h
      exact ⟨[], by simp⟩
    | cons l' ls =>
      obtain ⟨pre, hpre⟩ := ih (by simpa using h)
      exact ⟨l ++ sep ++ pre, by simp [List.intercalate_cons_cons, hpre]⟩

/-- A domain ends in a letter. -/
theorem last_of_validDomain {d : String} (h : validDomain d = true) :
    ∃ pre c, d.toList = pre ++ [c] ∧ c.isAlpha = true := by
  have hregex : domainRegex d.toList = true := by
    unfold validDomain at h
    split_ifs at h
    exact h
  have hbody : ∀ body : List Char, (body.splitOn '.').getLast?.any topLevel = true →
      ∃ pre c, body = pre ++ [c] ∧ c.isAlpha = true := by
    intro body htop
    cases hlast : (body.splitOn '.').getLast? with
    | none => simp [hlast] at htop
    | some last =>
      simp only [hlast, Option.any_some, topLevel, Bool.and_eq_true, decide_eq_true_eq,
        List.all_eq_true] at htop
      obtain ⟨pre, hpre⟩ : ∃ pre, ['.'].intercalate (body.splitOn '.') = pre ++ last :=
        exists_intercalate_append hlast
      rw [List.intercalate_splitOn] at hpre
      obtain rfl | ⟨front, c, rfl⟩ := List.eq_nil_or_concat' last
      · simp at htop
      · exact ⟨pre ++ front, c, by simp [hpre], htop.2 c (by simp)⟩
  simp only [domainRegex, Bool.and_eq_true] at hregex
  obtain ⟨-, htop⟩ := hregex
  split at htop
  · rename_i rest hd
    obtain ⟨pre, c, rfl, hc⟩ := hbody rest htop
    exact ⟨'*' :: '.' :: pre, c, hd, hc⟩
  · exact hbody d.toList htop

/-- A domain in capitals matches no host in small letters. -/
theorem not_matches_upper {d : String} (h : validDomain d = true) (host : String) :
    ¬Matches (lower host) (upper d) := by
  obtain ⟨pre, c, hd, hc⟩ := last_of_validDomain h
  have hupper : (upper d).toList = pre.map Char.toUpper ++ [c.toUpper] := by simp [upper, hd]
  have hnot : c.toUpper ∉ (lower host).toList := by
    intro hmem
    obtain ⟨c', -, hc'⟩ := List.mem_map.mp (by simpa [lower] using hmem)
    have hcase : c.toUpper.isUpper = false := hc' ▸ Char.isUpper_toLower_eq_false c'
    simp [hc] at hcase
  rintro (heq | ⟨hstar, hsuffix⟩)
  · exact hnot (heq ▸ by simp [hupper])
  · apply hnot
    apply hsuffix.subset
    rw [hupper] at hstar ⊢
    cases pre with
    | nil =>
      have hlen := hstar.length_le
      simp at hlen
    | cons a pre => simp

/-! ### Respelled rules -/

/-- The rules with every domain written by a function. -/
def rewritten (f : String → String) (rules : List ProxyRule) : List ProxyRule :=
  rules.map fun rule => { rule with domains := rule.domains.map f }

theorem respelled_rewritten {f : String → String} (hf : ∀ s, EqualFold s (f s))
    (rules : List ProxyRule) : List.Forall₂ Respelled rules (rewritten f rules) := by
  rw [rewritten, List.forall₂_map_right_iff, List.forall₂_same]
  intro rule _
  refine ⟨rule.domains.map f, ?_, rfl⟩
  rw [List.forall₂_map_right_iff, List.forall₂_same]
  exact fun d _ => hf d

theorem exists_of_mem_forall₂ {α β : Type*} {R : α → β → Prop} {l : List α} {l' : List β}
    (h : List.Forall₂ R l l') {b : β} (hb : b ∈ l') : ∃ a ∈ l, R a b := by
  induction h with
  | nil => cases hb
  | cons hab _ ih =>
    obtain rfl | hb := List.mem_cons.mp hb
    · exact ⟨_, List.mem_cons_self, hab⟩
    · obtain ⟨a, ha, hr⟩ := ih hb
      exact ⟨a, List.mem_cons_of_mem _ ha, hr⟩

theorem sameHost_lower (r : Request) : SameHost r { r with host := lower r.host } :=
  ⟨r.host, lower r.host, .inl rfl, .inl rfl, equalFold_lower r.host⟩

/-- No variant of the rules has a domain for a variant of the host, when no domain matches it
with the case of letters aside. -/
theorem none_mem_chosen_of_not_matchesFold {rules rules' : List ProxyRule} {r r' : Request}
    (h : ∀ rule ∈ rules, ∀ d ∈ rule.domains, ¬MatchesFold (hostOf r) d)
    (hrules : List.Forall₂ Respelled rules rules') (hhost : SameHost r r') :
    none ∈ chosen rules' r' := by
  rw [none_mem_chosen_iff]
  intro rule' hrule' d' hd' hmatch
  obtain ⟨rule, hrule, domains, hdomains, rfl⟩ := exists_of_mem_forall₂ hrules hrule'
  obtain ⟨d, hd, hfold⟩ := exists_of_mem_forall₂ hdomains hd'
  exact h rule hrule d hd (hmatch.fold.congr hhost.equalFold.symm hfold.symm)

theorem hostOf_lower (r : Request) : hostOf { r with host := lower r.host } = lower (hostOf r) := by
  rw [hostOf_eq, hostOf_eq, hostPart_lower]

/-- For every list of rules with valid domains and every request: the rule that is chosen does
not change with the case of letters in the host or the domains, nor with a port, exactly when no
domain is the host or a wildcard for it in any spelling. -/
theorem respelled_unchanged_iff {rules : List ProxyRule} (r : Request)
    (hvalid : ∀ rule ∈ rules, ∀ d ∈ rule.domains, validDomain d = true) :
    (∀ (rules' : List ProxyRule) (r' : Request), List.Forall₂ Respelled rules rules' →
      SameHost r r' → chosen rules' r' = chosen rules r) ↔
    ∀ rule ∈ rules, ∀ d ∈ rule.domains, ¬MatchesFold (hostOf r) d := by
  constructor
  · intro hsame rule hrule d hd hmatch
    -- In small letters the domain takes the request, in capitals none does.
    have hsmall := hsame _ _ (respelled_rewritten equalFold_lower rules) (sameHost_lower r)
    have hcapital := hsame _ _ (respelled_rewritten equalFold_upper rules) (sameHost_lower r)
    have hnone : none ∈ chosen (rewritten upper rules) { r with host := lower r.host } := by
      rw [none_mem_chosen_iff, hostOf_lower]
      intro rule' hrule' d' hd'
      obtain ⟨rule, hrule, rfl⟩ := List.mem_map.mp hrule'
      obtain ⟨d, hd, rfl⟩ := List.mem_map.mp hd'
      exact not_matches_upper (hvalid rule hrule d hd) (hostOf r)
    rw [hcapital, ← hsmall, none_mem_chosen_iff, hostOf_lower] at hnone
    exact hnone _ (List.mem_map_of_mem hrule) _ (List.mem_map_of_mem hd) hmatch
  · intro hnone rules' r' hrules hhost
    have hbefore : none ∈ chosen rules r := by
      rw [none_mem_chosen_iff]
      exact fun rule hrule d hd hmatch => hnone rule hrule d hd hmatch.fold
    rw [chosen_of_none_mem (none_mem_chosen_of_not_matchesFold hnone hrules hhost),
      chosen_of_none_mem hbefore]

def requestFor (host : String) : Request := ⟨host, "10.0.0.9:4000", fun _ => []⟩

theorem respelled_unchanged_stranger :
    (∀ rule ∈ [site "a" "*.Blog.example"], ∀ d ∈ rule.domains, validDomain d = true) ∧
      ∀ (rules' : List ProxyRule) (r' : Request),
        List.Forall₂ Respelled [site "a" "*.Blog.example"] rules' →
        SameHost (requestFor "shop.example:8080") r' →
        chosen rules' r' = chosen [site "a" "*.Blog.example"] (requestFor "shop.example:8080") := by
  have hvalid : ∀ rule ∈ [site "a" "*.Blog.example"], ∀ d ∈ rule.domains,
      validDomain d = true := by decide
  have hnone : ∀ rule ∈ [site "a" "*.Blog.example"], ∀ d ∈ rule.domains,
      ¬MatchesFold (hostOf (requestFor "shop.example:8080")) d := by decide
  exact ⟨hvalid, (respelled_unchanged_iff _ hvalid).mpr hnone⟩

/-- A domain with a capital takes the requests that spell it so, and no other. -/
theorem capital_not_found :
    validDomain "Blog.example" = true ∧
      SameHost (requestFor "Blog.example") (requestFor "blog.example") ∧
      none ∉ chosen [site "a" "Blog.example"] (requestFor "Blog.example") ∧
      chosen [site "a" "Blog.example"] (requestFor "blog.example") = {none} ∧
      chosen [site "a" "Blog.example"] (requestFor "blog.example") ≠
        chosen [site "a" "Blog.example"] (requestFor "Blog.example") := by
  have hspelled : none ∉ chosen [site "a" "Blog.example"] (requestFor "Blog.example") := by
    rw [none_mem_chosen_iff]
    decide
  have hother : none ∈ chosen [site "a" "Blog.example"] (requestFor "blog.example") := by
    rw [none_mem_chosen_iff]
    decide
  have hhost : SameHost (requestFor "Blog.example") (requestFor "blog.example") :=
    ⟨"Blog.example", "blog.example", .inl rfl, .inl rfl, by unfold EqualFold; decide⟩
  exact ⟨by decide, hhost, hspelled, chosen_of_none_mem hother,
    fun heq => hspelled (heq ▸ hother)⟩

/-- A port alone changes nothing. -/
theorem chosen_port (rules : List ProxyRule) (r : Request) (port : String) :
    chosen rules { r with host := r.host ++ ":" ++ port } = chosen rules r := by
  simp only [chosen, hostOf_eq, hostPart_port]

end NetBerth.ProxyRouting
