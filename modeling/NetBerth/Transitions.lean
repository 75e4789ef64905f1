import Mathlib

/-!
# Runs of a machine that takes one event at a time

A machine is a function that says what an event makes of a state, if it can happen there.
A run meets a condition if every event meets it in the state it finds; without a
condition it is `Always`. The rules are the ones for guards, for invariants, for lists of
events and for the last event of a kind.
-/
namespace Transitions
open Relation

variable {σ ε : Type*} {step : σ → ε → Option σ} {ok ok' : σ → ε → Prop}

/-- Some event that meets the condition leads from one state to the other. -/
def Step (step : σ → ε → Option σ) (ok : σ → ε → Prop) (s t : σ) : Prop :=
  ∃ e, ok s e ∧ step s e = some t

abbrev Run (step : σ → ε → Option σ) (ok : σ → ε → Prop) : σ → σ → Prop :=
  ReflTransGen (Step step ok)

def Always (_ : σ) (_ : ε) : Prop := True

/-- An event that can only happen under a condition, and did. -/
theorem of_guard {p : Prop} [Decidable p] {t u : σ} (h : (if p then some t else none) = some u) :
    p ∧ u = t := by
  obtain ⟨hp, htu⟩ := Option.ite_none_right_eq_some.mp h
  exact ⟨hp, (Option.some.inj htu).symm⟩

theorem Step.mono (h : ∀ s e, ok s e → ok' s e) {s t : σ} (hst : Step step ok s t) :
    Step step ok' s t := by
  obtain ⟨e, he, hstep⟩ := hst
  exact ⟨e, h s e he, hstep⟩

theorem Run.mono (h : ∀ s e, ok s e → ok' s e) {s t : σ} (hst : Run step ok s t) :
    Run step ok' s t :=
  ReflTransGen.mono (fun _ _ => Step.mono h) _ _ hst

/-- What every event keeps, a run keeps. -/
theorem Run.invariant {I : σ → Prop} (hstep : ∀ s e t, I s → ok s e → step s e = some t → I t)
    {s t : σ} (h : Run step ok s t) (hs : I s) : I t := by
  induction h with
  | refl => exact hs
  | tail _ hlast ih =>
    obtain ⟨e, he, hmove⟩ := hlast
    exact hstep _ e _ ih he hmove

/-- The events of a list, one after the other, where the condition is about the events
themselves. -/
theorem Run.of_foldlM_forall {s t : σ} {es : List ε} (h : es.foldlM step s = some t)
    (hok : ∀ e ∈ es, ∀ s, ok s e) : Run step ok s t := by
  induction es generalizing s with
  | nil =>
    cases h
    exact .refl
  | cons e es ih =>
    rw [List.foldlM_cons] at h
    obtain ⟨u, hu, hrest⟩ := Option.bind_eq_some_iff.mp h
    have hfirst := hok e (List.mem_cons_self ..) s
    exact .head ⟨e, hfirst, hu⟩ (ih hrest fun x hx => hok x (List.mem_cons_of_mem e hx))

/-- The events of a list, where each of them is looked at before it happens. -/
theorem Run.of_foldlM_guarded [∀ s e, Decidable (ok s e)] {s t : σ} {es : List ε}
    (h : es.foldlM (fun s e => if ok s e then step s e else none) s = some t) :
    Run step ok s t := by
  induction es generalizing s with
  | nil =>
    cases h
    exact .refl
  | cons e es ih =>
    rw [List.foldlM_cons] at h
    obtain ⟨u, hu, hrest⟩ := Option.bind_eq_some_iff.mp h
    obtain ⟨he, hmove⟩ := Option.ite_none_right_eq_some.mp hu
    exact .head ⟨e, he, hmove⟩ (ih hrest)

theorem Run.of_foldlM {s t : σ} {es : List ε} (h : es.foldlM step s = some t) :
    Run step Always s t := Run.of_foldlM_forall h fun _ _ _ => trivial

theorem foldlM_append_eq_some {s u : σ} {es fs : List ε} :
    (es ++ fs).foldlM step s = some u ↔
      ∃ t, es.foldlM step s = some t ∧ fs.foldlM step t = some u := by
  rw [List.foldlM_append, Option.bind_eq_bind, Option.bind_eq_some_iff]

/-- Looking at the events does not change where they lead. -/
theorem foldlM_of_guarded [∀ s e, Decidable (ok s e)] {s t : σ} {es : List ε}
    (h : es.foldlM (fun s e => if ok s e then step s e else none) s = some t) :
    es.foldlM step s = some t := by
  induction es generalizing s with
  | nil => exact h
  | cons e es ih =>
    rw [List.foldlM_cons] at h ⊢
    obtain ⟨u, hu, hrest⟩ := Option.bind_eq_some_iff.mp h
    rw [(Option.ite_none_right_eq_some.mp hu).2]
    exact ih hrest

/-- A list has no event of a kind, or it is cut at the last one. -/
theorem exists_last (kind : ε → Prop) (es : List ε) :
    (∀ e ∈ es, ¬kind e) ∨
      ∃ before e after, es = before ++ e :: after ∧ kind e ∧ ∀ x ∈ after, ¬kind x := by
  induction es with
  | nil => exact .inl (List.forall_mem_nil _)
  | cons e es ih =>
    rcases ih with hnone | ⟨before, f, after, rfl, hf, hafter⟩
    · by_cases he : kind e
      · exact .inr ⟨[], e, es, rfl, he, hnone⟩
      · exact .inl (List.forall_mem_cons.mpr ⟨he, hnone⟩)
    · exact .inr ⟨e :: before, f, after, rfl, hf, hafter⟩

end Transitions
