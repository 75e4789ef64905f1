import NetBerth.SqlTable
import NetBerth.Rules

/-!
# The route table of the reverse proxy

The engine keeps one entry for each domain, with the rule it was made for.
`Reload` deletes the entry of one domain, the first that the new version of the
rule lists, and then adds the version's domains; `Remove` deletes one entry of
the rule. Both run under the engine's lock, so a history of the table is a list
of calls.

The table should hold the domains of the latest versions of the enabled rules
and nothing else. It does as long as a reload drops no domain but the one it
deletes, and a removed rule has one domain at most.
-/
namespace NetBerth.ProxyRoutes
open SqlTable Rules

instance : Keyed ProxyRule ID := ⟨fun rule => rule.id⟩

/-- The entry of a domain; its handler is the one built for the rule. -/
structure Route where
  domain : String
  rule : ProxyRule
  deriving DecidableEq, Repr

instance : Keyed Route String := ⟨Route.domain⟩

def addRoute (routes : Table Route) (rule : ProxyRule) : Table Route :=
  rule.domains.foldl (fun routes domain => routes.put ⟨domain, rule⟩) routes

def ruleKey (rule : ProxyRule) : String := rule.domains.headD rule.id

/-- The rules that `GetRules` hands over, in any order. -/
def start (rules : Table ProxyRule) : Table Route :=
  (rules.selectWhere fun rule => rule.enabled).foldl addRoute Table.empty

def reload (routes : Table Route) (rule : ProxyRule) : Table Route :=
  let routes := routes.delete fun e => e.domain = ruleKey rule
  if rule.enabled then addRoute routes rule else routes

/-- The map is gone through in any order; the choice is the entry met first. -/
def remove (routes : Table Route) (id : ID) (choice : ℕ) : Table Route :=
  let owned := routes.selectWhere fun e => e.rule.id = id
  match owned[choice % owned.length]? with
  | none => routes
  | some first => routes.delete fun e => e.domain = first.domain

inductive Call where
  | reload (rule : ProxyRule)
  | remove (id : ID) (choice : ℕ)
  deriving DecidableEq, Repr

def Call.apply (routes : Table Route) : Call → Table Route
  | .reload rule => ProxyRoutes.reload routes rule
  | .remove id choice => ProxyRoutes.remove routes id choice

def routesAfter (rules : Table ProxyRule) (calls : List Call) : Table Route :=
  calls.foldl Call.apply (start rules)

/-! ## What the table is for -/

def Call.record (latest : Table ProxyRule) : Call → Table ProxyRule
  | .reload rule => latest.put rule
  | .remove id _ => latest.delete fun rule => rule.id = id

/-- The latest version of each rule that is not removed. -/
def latest (rules : Table ProxyRule) (calls : List Call) : Table ProxyRule :=
  calls.foldl Call.record rules

/-- The entries are the domains of the enabled versions, each with its version. -/
def Serves (routes : Table Route) (versions : Table ProxyRule) : Prop :=
  ∀ e : Route, e ∈ routes.rows ↔
    e.rule ∈ versions.rows ∧ e.rule.enabled = true ∧ e.domain ∈ e.rule.domains

/-- Two versions of distinct rules list no domain together. -/
def DisjointDomains (versions : Table ProxyRule) : Prop :=
  ∀ r ∈ versions.rows, ∀ r' ∈ versions.rows, r.id ≠ r'.id → ∀ d ∈ r.domains, d ∉ r'.domains

/-- A reload finds no domain of its rule that it neither deletes nor adds again,
and deletes no domain of another rule; a removal finds one domain at most. -/
def Clears (routes : Table Route) : Call → Prop
  | .reload rule => ∀ e ∈ routes.rows,
      if e.rule.id = rule.id then e.domain = ruleKey rule ∨ rule.enabled = true ∧ e.domain ∈ rule.domains
      else e.domain ≠ ruleKey rule
  | .remove id _ => routes.count (fun e => e.rule.id = id) ≤ 1

/-! ## What one call does to the entries -/

theorem mem_foldl_put (rule : ProxyRule) (domains : List String) (routes : Table Route) (e : Route) :
    e ∈ (domains.foldl (fun routes domain => routes.put ⟨domain, rule⟩) routes).rows ↔
      e ∈ routes.rows ∧ e.domain ∉ domains ∨ e.rule = rule ∧ e.domain ∈ domains := by
  induction domains generalizing routes with
  | nil => simp
  | cons d ds ih =>
    rw [List.foldl_cons, ih, Table.mem_put]
    obtain ⟨domain, r⟩ := e
    simp only [Keyed.key, Route.mk.injEq, List.mem_cons]
    tauto

theorem mem_addRoute {rule : ProxyRule} {routes : Table Route} {e : Route} :
    e ∈ (addRoute routes rule).rows ↔
      e ∈ routes.rows ∧ e.domain ∉ rule.domains ∨ e.rule = rule ∧ e.domain ∈ rule.domains :=
  mem_foldl_put rule rule.domains routes e

theorem mem_reload {routes : Table Route} {rule : ProxyRule} {e : Route} :
    e ∈ (reload routes rule).rows ↔
      e ∈ routes.rows ∧ e.domain ≠ ruleKey rule ∧
        ¬(rule.enabled = true ∧ e.domain ∈ rule.domains) ∨
      e.rule = rule ∧ rule.enabled = true ∧ e.domain ∈ rule.domains := by
  unfold reload
  split_ifs with h
  · simp only [mem_addRoute, Table.mem_delete, h, decide_eq_false_iff_not]
    tauto
  · simp [Table.mem_delete, h]

theorem mem_record_reload {versions : Table ProxyRule} {rule r : ProxyRule} :
    r ∈ ((Call.reload rule).record versions).rows ↔ r ∈ versions.rows ∧ r.id ≠ rule.id ∨ r = rule :=
  Table.mem_put

/-- After a reload the table is right exactly when the reload clears it. -/
theorem serves_reload {routes : Table Route} {versions : Table ProxyRule} {rule : ProxyRule}
    (h : Serves routes versions) (hdisjoint : DisjointDomains ((Call.reload rule).record versions)) :
    Serves (reload routes rule) ((Call.reload rule).record versions) ↔
      Clears routes (.reload rule) := by
  have hother : ∀ e ∈ routes.rows, e.rule.id ≠ rule.id → e.domain ∉ rule.domains := by
    intro e he hid
    obtain ⟨hrule, -, hdomain⟩ := (h e).mp he
    exact hdisjoint e.rule (mem_record_reload.mpr (.inl ⟨hrule, hid⟩)) rule
      (mem_record_reload.mpr (.inr rfl)) hid e.domain hdomain
  have hspec : ∀ e : Route, (e.rule ∈ ((Call.reload rule).record versions).rows ∧
      e.rule.enabled = true ∧ e.domain ∈ e.rule.domains) ↔
      e ∈ routes.rows ∧ e.rule.id ≠ rule.id ∨
        e.rule = rule ∧ rule.enabled = true ∧ e.domain ∈ rule.domains := by
    intro e
    rw [mem_record_reload, h e]
    constructor
    · rintro ⟨⟨hrule, hid⟩ | hrule, henabled, hdomain⟩
      · exact .inl ⟨⟨hrule, henabled, hdomain⟩, hid⟩
      · exact .inr ⟨hrule, hrule ▸ henabled, hrule ▸ hdomain⟩
    · rintro (⟨⟨hrule, henabled, hdomain⟩, hid⟩ | ⟨rfl, henabled, hdomain⟩)
      · exact ⟨.inl ⟨hrule, hid⟩, henabled, hdomain⟩
      · exact ⟨.inr rfl, henabled, hdomain⟩
  simp only [Serves, hspec, mem_reload, Clears]
  refine forall_congr' fun e => ?_
  constructor
  · intro he hmem
    split_ifs with hid
    · by_contra hkept
      push Not at hkept
      obtain ⟨-, hne⟩ | ⟨-, henabled, hdomain⟩ := he.mp (.inl ⟨hmem, hkept.1, fun h => hkept.2 h.1 h.2⟩)
      · exact hne hid
      · exact hkept.2 henabled hdomain
    · obtain ⟨-, hkey, -⟩ | ⟨hrule, -⟩ := he.mpr (.inl ⟨hmem, hid⟩)
      · exact hkey
      · exact absurd (congrArg (fun r : ProxyRule => r.id) hrule) hid
  · intro hclears
    apply or_congr_left'
    rintro -
    constructor
    · rintro ⟨hmem, hkey, hdropped⟩
      refine ⟨hmem, fun hid => ?_⟩
      have hkept := hclears hmem
      rw [if_pos hid] at hkept
      exact hkept.elim hkey hdropped
    · rintro ⟨hmem, hid⟩
      have hkey := hclears hmem
      rw [if_neg hid] at hkey
      exact ⟨hmem, hkey, fun h => hother e hmem hid h.2⟩

theorem remove_cases (routes : Table Route) (id : ID) (choice : ℕ) :
    (remove routes id choice = routes ∧ ∀ e ∈ routes.rows, e.rule.id ≠ id) ∨
      ∃ first ∈ routes.rows, first.rule.id = id ∧
        remove routes id choice = routes.delete fun e => e.domain = first.domain := by
  unfold remove
  have howned : ∀ e, e ∈ (routes.selectWhere fun e => e.rule.id = id) ↔
      e ∈ routes.rows ∧ e.rule.id = id := by simp [Table.mem_selectWhere]
  generalize (routes.selectWhere fun e => e.rule.id = id) = owned at howned ⊢
  cases hfirst : owned[choice % owned.length]? with
  | none =>
    refine .inl ⟨by simp only [hfirst], fun e he hid => ?_⟩
    have hpos : 0 < owned.length := List.length_pos_of_mem ((howned e).mpr ⟨he, hid⟩)
    exact absurd (List.getElem?_eq_none_iff.mp hfirst) (Nat.mod_lt _ hpos).not_ge
  | some first =>
    obtain ⟨hmem, hid⟩ := (howned first).mp (List.mem_of_getElem? hfirst)
    exact .inr ⟨first, hmem, hid, by simp only [hfirst]⟩

/-- After a removal the table is right exactly when there was one entry at most. -/
theorem serves_remove {routes : Table Route} {versions : Table ProxyRule} {id : ID} {choice : ℕ}
    (h : Serves routes versions) :
    Serves (remove routes id choice) ((Call.remove id choice).record versions) ↔
      Clears routes (.remove id choice) := by
  have hspec : ∀ e : Route, (e.rule ∈ ((Call.remove id choice).record versions).rows ∧
      e.rule.enabled = true ∧ e.domain ∈ e.rule.domains) ↔ e ∈ routes.rows ∧ e.rule.id ≠ id := by
    intro e
    rw [h e]
    simp only [Call.record, Table.mem_delete, decide_eq_false_iff_not]
    tauto
  simp only [Serves, hspec, Clears]
  obtain ⟨hsame, hnone⟩ | ⟨first, hfirst, hid, hdelete⟩ := remove_cases routes id choice
  · rw [hsame]
    have hzero : routes.count (fun e => e.rule.id = id) = 0 := by
      simpa [Table.count, List.countP_eq_zero] using hnone
    rw [hzero]
    exact ⟨fun _ => Nat.zero_le 1, fun _ e => ⟨fun he => ⟨he, hnone e he⟩, And.left⟩⟩
  · simp only [hdelete, Table.mem_delete, decide_eq_false_iff_not]
    constructor
    · intro hright
      by_contra hmany
      obtain ⟨e, he, heid, hdomain⟩ := Table.exists_other (not_le.mp hmany) first.domain
      exact ((hright e).mp ⟨he, hdomain⟩).2 (by simpa using heid)
    · intro hone e
      apply and_congr_right
      intro he
      apply not_congr
      constructor
      · intro hdomain
        rwa [Table.eq_of_key he hfirst hdomain]
      · intro heid
        rw [Table.eq_of_count_le_one hone he hfirst (by simpa using heid) (by simpa using hid)]

theorem serves_apply {routes : Table Route} {versions : Table ProxyRule} {call : Call}
    (h : Serves routes versions) (hdisjoint : DisjointDomains (call.record versions)) :
    Serves (call.apply routes) (call.record versions) ↔ Clears routes call := by
  cases call with
  | reload rule => exact serves_reload h hdisjoint
  | remove id choice => exact serves_remove h

/-! ## Histories -/

theorem mem_foldl_addRoute {rules : Table ProxyRule} (hdisjoint : DisjointDomains rules)
    (l : List ProxyRule) (hl : l.Sublist rules.rows) (e : Route) :
    e ∈ (l.foldl addRoute Table.empty).rows ↔ e.rule ∈ l ∧ e.domain ∈ e.rule.domains := by
  induction l using List.reverseRecOn with
  | nil => simp [Table.empty]
  | append_singleton l r ih =>
    have hnodup := (hl.map fun r : ProxyRule => r.id).nodup rules.nodup
    rw [List.map_append, List.map_singleton, List.nodup_append] at hnodup
    have hother : e.rule ∈ l → e.domain ∈ e.rule.domains → e.domain ∉ r.domains := by
      intro hrule hdomain
      have hid : e.rule.id ≠ r.id := hnodup.2.2 _ (List.mem_map_of_mem hrule) _ (by simp)
      exact hdisjoint e.rule (hl.subset (by simp [hrule])) r (hl.subset (by simp)) hid _ hdomain
    rw [List.foldl_append, List.foldl_cons, List.foldl_nil, mem_addRoute,
      ih ((List.sublist_append_left l [r]).trans hl), List.mem_append, List.mem_singleton]
    constructor
    · rintro (⟨⟨hrule, hdomain⟩, -⟩ | ⟨rfl, hdomain⟩)
      · exact ⟨.inl hrule, hdomain⟩
      · exact ⟨.inr rfl, hdomain⟩
    · rintro ⟨hrule | rfl, hdomain⟩
      · exact .inl ⟨⟨hrule, hdomain⟩, hother hrule hdomain⟩
      · exact .inr ⟨rfl, hdomain⟩

/-- The table that `Start` builds is right. -/
theorem serves_start {rules : Table ProxyRule} (hdisjoint : DisjointDomains rules) :
    Serves (start rules) rules := by
  intro e
  have hsub : (rules.selectWhere fun rule => rule.enabled).Sublist rules.rows := List.filter_sublist
  rw [start, mem_foldl_addRoute hdisjoint _ hsub, Table.mem_selectWhere, and_assoc]

/-- For every history in which the latest versions of distinct rules never list
a domain together: the table is right after each call exactly when each call
clears what it finds. -/
theorem routes_right_iff (rules : Table ProxyRule) (calls : List Call)
    (hdisjoint : ∀ cs, cs <+: calls → DisjointDomains (latest rules cs)) :
    (∀ cs, cs <+: calls → Serves (routesAfter rules cs) (latest rules cs)) ↔
      ∀ cs call, cs ++ [call] <+: calls → Clears (routesAfter rules cs) call := by
  have hstep : ∀ cs call, cs ++ [call] <+: calls → Serves (routesAfter rules cs) (latest rules cs) →
      (Serves (routesAfter rules (cs ++ [call])) (latest rules (cs ++ [call])) ↔
        Clears (routesAfter rules cs) call) := by
    intro cs call hprefix hserves
    have hafter := hdisjoint _ hprefix
    simp only [routesAfter, latest, List.foldl_append, List.foldl_cons, List.foldl_nil] at hafter ⊢
    exact serves_apply hserves hafter
  constructor
  · intro hright cs call hprefix
    have hbefore := hright cs ((List.prefix_append cs [call]).trans hprefix)
    exact (hstep cs call hprefix hbefore).mp (hright _ hprefix)
  · intro hclears cs
    induction cs using List.reverseRecOn with
    | nil => exact fun _ => serves_start (hdisjoint [] List.nil_prefix)
    | append_singleton cs call ih =>
      intro hprefix
      have hbefore := ih ((List.prefix_append cs [call]).trans hprefix)
      exact (hstep cs call hprefix hbefore).mpr (hclears cs call hprefix)

instance (versions : Table ProxyRule) : Decidable (DisjointDomains versions) :=
  inferInstanceAs (Decidable (∀ r ∈ versions.rows, ∀ r' ∈ versions.rows, _))

instance (routes : Table Route) (call : Call) : Decidable (Clears routes call) := by
  cases call <;> unfold Clears <;> infer_instance

/-- A rule with the given domains. -/
def blog (enabled : Bool) (domains : List String) : ProxyRule :=
  ⟨⟨"p1", "t", "o", "blog", "http://10.0.0.2:8080", false, "", false, true, false, "", "", "", 0,
    enabled⟩, ⟨domains, [], [], [], []⟩⟩

def oneRule (rule : ProxyRule) : Table ProxyRule := ⟨[rule], by simp⟩

/-- The rule is disabled, and enabled again with a domain before its first. -/
def addedDomain : List Call :=
  [.reload (blog false ["blog.example"]), .reload (blog true ["new.example", "blog.example"])]

theorem added_domain_served :
    Serves (routesAfter (oneRule (blog true ["blog.example"])) addedDomain)
      (latest (oneRule (blog true ["blog.example"])) addedDomain) := by
  have hdisjoint : ∀ cs ∈ addedDomain.inits,
      DisjointDomains (latest (oneRule (blog true ["blog.example"])) cs) := by decide
  have hclears : ∀ cs ∈ addedDomain.inits, ∀ call ∈ cs.getLast?,
      Clears (routesAfter (oneRule (blog true ["blog.example"])) cs.dropLast) call := by decide
  refine (routes_right_iff _ addedDomain fun cs h => hdisjoint cs ((List.mem_inits cs _).mpr h)).mpr ?_
    addedDomain List.prefix_rfl
  intro cs call h
  simpa using hclears _ ((List.mem_inits _ _).mpr h) call (by simp)

/-- No call makes two rules list a domain together, and some call leaves the table wrong. -/
def GoesWrong (rules : Table ProxyRule) (calls : List Call) : Prop :=
  (∀ cs, cs <+: calls → DisjointDomains (latest rules cs)) ∧
    ¬∀ cs, cs <+: calls → Serves (routesAfter rules cs) (latest rules cs)

theorem goesWrong_of_stale {rules : Table ProxyRule} {calls : List Call} {e : Route}
    (hdisjoint : ∀ cs ∈ calls.inits, DisjointDomains (latest rules cs))
    (hroute : e ∈ (routesAfter rules calls).rows) (hversion : e.rule ∉ (latest rules calls).rows) :
    GoesWrong rules calls := by
  refine ⟨fun cs h => hdisjoint cs ((List.mem_inits cs _).mpr h), fun hright => ?_⟩
  exact hversion ((hright calls List.prefix_rfl e).mp hroute).1

/-- A rule with two domains: after a removal the second routes on, and so it does
after a reload that drops it. -/
theorem dropped_domains_still_route :
    GoesWrong (oneRule (blog true ["blog.example", "www.blog.example"])) [.remove "p1" 0] ∧
      GoesWrong (oneRule (blog true ["blog.example", "www.blog.example"]))
        [.reload (blog true ["blog.example"])] := by
  let stale : Route := ⟨"www.blog.example", blog true ["blog.example", "www.blog.example"]⟩
  constructor
  · have hroute : stale ∈ (routesAfter (oneRule stale.rule) [.remove "p1" 0]).rows := by decide
    exact goesWrong_of_stale (by decide) hroute (by decide)
  · have hroute : stale ∈
        (routesAfter (oneRule stale.rule) [.reload (blog true ["blog.example"])]).rows := by decide
    exact goesWrong_of_stale (by decide) hroute (by decide)

end NetBerth.ProxyRoutes
