import Mathlib

/-!
# Fields between separators

A text is cut at every sign that a predicate picks, and what is empty is dropped. A separator
cuts the text in two that are independent of each other, and a field is a part without any.
-/
namespace TextFields

variable {α : Type*} {p : α → Bool}

/-- `strings.FieldsFunc`. -/
def fieldsFunc (p : α → Bool) (s : List α) : List (List α) :=
  (s.splitOnP p).filter fun field => !field.isEmpty

@[simp] theorem fieldsFunc_nil : fieldsFunc p [] = [] := by simp [fieldsFunc]

theorem fieldsFunc_append_cons {c : α} (hc : p c = true) (s t : List α) :
    fieldsFunc p (s ++ c :: t) = fieldsFunc p s ++ fieldsFunc p t := by
  rw [fieldsFunc, List.splitOnP_append_cons s t hc, List.filter_append]
  rfl

theorem fieldsFunc_separators {s : List α} (hs : ∀ c ∈ s, p c = true) : fieldsFunc p s = [] := by
  induction s with
  | nil => exact fieldsFunc_nil
  | cons c s ih =>
    rw [List.forall_mem_cons] at hs
    have hcut := fieldsFunc_append_cons hs.1 [] s
    rw [List.nil_append] at hcut
    rw [hcut, fieldsFunc_nil, List.nil_append, ih hs.2]

/-- Separators at the two ends make no difference. -/
theorem fieldsFunc_trim {before after : List α} (hbefore : ∀ c ∈ before, p c = true)
    (hafter : ∀ c ∈ after, p c = true) (s : List α) :
    fieldsFunc p (before ++ s ++ after) = fieldsFunc p s := by
  have hleft (t : List α) : fieldsFunc p (before ++ t) = fieldsFunc p t := by
    induction before with
    | nil => rfl
    | cons c before ih =>
      rw [List.forall_mem_cons] at hbefore
      have hcut := fieldsFunc_append_cons hbefore.1 [] (before ++ t)
      rw [fieldsFunc_nil, List.nil_append, List.nil_append] at hcut
      rw [List.cons_append, hcut, ih hbefore.2]
  rw [List.append_assoc, hleft]
  cases after with
  | nil => rw [List.append_nil]
  | cons c after =>
    rw [List.forall_mem_cons] at hafter
    rw [fieldsFunc_append_cons hafter.1, fieldsFunc_separators hafter.2, List.append_nil]

theorem fieldsFunc_field {field : List α} (hne : field ≠ []) (hfield : ∀ c ∈ field, p c = false) :
    fieldsFunc p field = [field] := by
  rw [fieldsFunc, List.splitOnP_eq_singleton hfield]
  simp [hne]

/-- Fields with separators between them. -/
theorem fieldsFunc_chain {first : List α} {rest : List (List α × List α)}
    (hfirst : first ≠ [] ∧ ∀ c ∈ first, p c = false)
    (hrest : ∀ r ∈ rest, (r.1 ≠ [] ∧ ∀ c ∈ r.1, p c = true) ∧ r.2 ≠ [] ∧ ∀ c ∈ r.2, p c = false) :
    fieldsFunc p (first ++ rest.flatMap fun r => r.1 ++ r.2) = first :: rest.map Prod.snd := by
  induction rest generalizing first with
  | nil => simpa using fieldsFunc_field hfirst.1 hfirst.2
  | cons r rest ih =>
    obtain ⟨⟨⟨hne, hseparators⟩, hfield⟩, hrest⟩ := List.forall_mem_cons.mp hrest
    obtain ⟨c, separators, hcons⟩ := List.exists_cons_of_ne_nil hne
    rw [hcons, List.forall_mem_cons] at hseparators
    have htrim := fieldsFunc_trim hseparators.2 (fun _ h => absurd h List.not_mem_nil)
      (r.2 ++ rest.flatMap fun r => r.1 ++ r.2)
    rw [List.append_nil] at htrim
    rw [List.flatMap_cons, hcons, List.cons_append, List.cons_append, fieldsFunc_append_cons
      hseparators.1, fieldsFunc_field hfirst.1 hfirst.2, List.append_assoc, htrim, ih hfield hrest]
    rfl

/-- A part is made of what was cut, less the separators. -/
theorem mem_of_mem_splitOnP {s part : List α} (h : part ∈ s.splitOnP p) :
    ∀ c ∈ part, c ∈ s ∧ p c = false := by
  induction s generalizing part with
  | nil =>
    rw [List.splitOnP_nil, List.mem_singleton] at h
    simp [h]
  | cons d s ih =>
    rw [List.splitOnP_cons_eq_if_modifyHead] at h
    obtain ⟨head, parts, hparts⟩ := List.exists_cons_of_ne_nil (List.splitOnP_ne_nil p s)
    have hlater {part : List α} (hpart : part ∈ s.splitOnP p) :
        ∀ c ∈ part, c ∈ d :: s ∧ p c = false :=
      fun c hc => ⟨List.mem_cons_of_mem d (ih hpart c hc).1, (ih hpart c hc).2⟩
    split_ifs at h with hd
    · rcases List.mem_cons.mp h with rfl | h
      · simp
      · exact hlater h
    · rw [hparts, List.modifyHead_cons, List.mem_cons] at h
      rcases h with rfl | h
      · rw [List.forall_mem_cons]
        refine ⟨⟨List.mem_cons_self, by simpa using hd⟩, hlater ?_⟩
        rw [hparts]
        exact List.mem_cons_self
      · apply hlater
        rw [hparts]
        exact List.mem_cons_of_mem head h

theorem mem_of_mem_fieldsFunc {s field : List α} (h : field ∈ fieldsFunc p s) :
    field ≠ [] ∧ ∀ c ∈ field, c ∈ s ∧ p c = false := by
  obtain ⟨hmem, hne⟩ := List.mem_filter.mp h
  exact ⟨by simpa using hne, mem_of_mem_splitOnP hmem⟩

end TextFields
