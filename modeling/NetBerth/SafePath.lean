import NetBerth.LexicalPath

/-!
# Targets inside a base

The validator refuses a target that could lead out of its base before it looks at the cleaned join.
A target without two dots in a row has no parent element, so that the join of what is let through
is below the base, whatever the base is; the last check has nothing left to refuse.
-/
namespace NetBerth.SafePath
open LexicalPath

def safePath (base target : Path) : Bool :=
  if target = [] then false
  else if 0 ∈ target then false
  else if [0x2e, 0x2e] <:+: target ∨ [0x5c] <:+: target then false
  else if isAbs target then false
  else
    let baseClean := clean base
    let joined := join [baseClean, target]
    match rel baseClean joined with
    | none => false
    | some r => !(r = dotdot ∨ dotdot ++ [separator] <+: r)

/-- What a target is refused for. -/
structure Plain (target : Path) : Prop where
  nonempty : target ≠ []
  noNul : 0 ∉ target
  noDots : ¬dotdot <:+: target
  noBackslash : 0x5c ∉ target
  relative : isAbs target = false

variable {base target : Path}

theorem Plain.no_parents (h : Plain target) : dotdot ∉ target.splitOn separator :=
  fun hmem => h.noDots (infix_of_mem_splitOn hmem)

theorem Plain.within (h : Plain target) : Within (clean base) (join [base, target]) := by
  rw [within_clean_left]
  cases base with
  | nil =>
    rw [join_nil_left, if_neg h.nonempty, within_clean_right]
    refine ⟨h.relative, (target.splitOn separator).filter fun e => e ≠ [] ∧ e ≠ dot, ?_, ?_⟩
    · rw [elements, foldl_of_no_parents h.no_parents, List.append_nil, List.reverse_reverse]
      rfl
    · exact fun hmem => h.no_parents (List.mem_of_mem_filter hmem)
  | cons b base =>
    rw [join_pair (List.cons_ne_nil b base), within_clean_right]
    exact within_append (List.cons_ne_nil b base) h.no_parents

/-- The way into the base does not begin with a parent. -/
theorem Plain.rel_safe (h : Plain target) :
    ∃ r, rel (clean base) (join [clean base, target]) = some r ∧
      ¬(r = dotdot ∨ dotdot ++ [separator] <+: r) := by
  have hwithin : Within (clean base) (join [clean base, target]) := by
    rw [← within_clean_left]
    exact h.within
  obtain ⟨r, hr, hparents⟩ := rel_of_within hwithin
  refine ⟨r, hr, ?_⟩
  rintro (rfl | ⟨rest, rfl⟩)
  · exact hparents (by decide)
  · rw [List.append_assoc, List.singleton_append, List.splitOn_append_cons_self] at hparents
    exact hparents (List.mem_append_left _ (by decide))

theorem not_mem_iff_not_infix {b : UInt8} : ¬[b] <:+: target ↔ b ∉ target := by
  rw [List.singleton_infix_iff]

/-- What is let through is what the checks of the target alone let through. -/
theorem safePath_iff : safePath base target = true ↔ Plain target := by
  constructor
  · intro h
    unfold safePath at h
    split_ifs at h with hempty hnul hdots habs
    rw [not_or, not_mem_iff_not_infix] at hdots
    exact ⟨hempty, hnul, hdots.1, hdots.2, by simpa using habs⟩
  · intro h
    obtain ⟨r, hr, hsafe⟩ := @Plain.rel_safe base target h
    have hdots : ¬([0x2e, 0x2e] <:+: target ∨ [0x5c] <:+: target) := by
      rw [not_or, not_mem_iff_not_infix]
      exact ⟨h.noDots, h.noBackslash⟩
    rw [safePath, if_neg h.nonempty, if_neg h.noNul, if_neg hdots, if_neg (by simp [h.relative])]
    dsimp only
    rw [hr]
    simpa using hsafe

/-- What is let through stays in the base. -/
theorem safePath_confines (h : safePath base target = true) :
    Within (clean base) (join [base, target]) ∧ 0 ∉ target ∧ 0x5c ∉ target ∧
      isAbs target = false := by
  have hplain := safePath_iff.mp h
  exact ⟨hplain.within, hplain.noNul, hplain.noBackslash, hplain.relative⟩

/-- `../srv/`. -/
def servedBase : Path := [0x2e, 0x2e, 0x2f, 0x73, 0x72, 0x76, 0x2f]

/-- `d/./f`. -/
def servedTarget : Path := [0x64, 0x2f, 0x2e, 0x2f, 0x66]

theorem safePath_served : safePath servedBase servedTarget = true ∧
    Within (clean servedBase) (join [servedBase, servedTarget]) ∧ 0 ∉ servedTarget ∧
      0x5c ∉ servedTarget ∧ isAbs servedTarget = false := by
  have hsafe : safePath servedBase servedTarget = true := by decide
  exact ⟨hsafe, safePath_confines hsafe⟩

end NetBerth.SafePath
