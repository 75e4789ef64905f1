import Mathlib

/-!
# Programs that call a service

A program asks and goes on with the answer, which may be a failure; in the end it has a result.
It is run against a service that has a state of its own, or against answers that are given in
advance. What was asked, with the answers, is a list in the order of the calls.
-/
namespace ClientCalls

variable {Q A ε α β σ : Type}

inductive Program (Q A α : Type) where
  | done (a : α)
  | call (q : Q) (next : A → Program Q A α)

namespace Program

def bind : Program Q A α → (α → Program Q A β) → Program Q A β
  | done a, f => f a
  | call q next, f => call q fun a => bind (next a) f

/-- Go on only after a success. -/
def andThen (p : Program Q A (Except ε α)) (f : α → Program Q A (Except ε β)) :
    Program Q A (Except ε β) :=
  p.bind fun
    | .error e => done (.error e)
    | .ok a => f a

section
variable (serve : σ → Q → A × σ)

def run : Program Q A α → σ → α × σ
  | done a, s => (a, s)
  | call q next, s => run (next (serve s q).1) (serve s q).2

/-- What is asked, and the answers. -/
def exchanges : Program Q A α → σ → List (Q × A)
  | done _, _ => []
  | call q next, s => (q, (serve s q).1) :: exchanges (next (serve s q).1) (serve s q).2

theorem run_bind (p : Program Q A α) (f : α → Program Q A β) (s : σ) :
    (p.bind f).run serve s = (f (p.run serve s).1).run serve (p.run serve s).2 := by
  induction p generalizing s with
  | done a => rfl
  | call q next ih => exact ih _ _

theorem exchanges_bind (p : Program Q A α) (f : α → Program Q A β) (s : σ) :
    (p.bind f).exchanges serve s =
      p.exchanges serve s ++ (f (p.run serve s).1).exchanges serve (p.run serve s).2 := by
  induction p generalizing s with
  | done a => rfl
  | call q next ih => exact congrArg _ (ih _ _)

end

/-! ## Answers given in advance -/

/-- The answers come in their order, whatever is asked. -/
def given (answers : ℕ → A) (i : ℕ) (_ : Q) : A × ℕ := (answers i, i + 1)

theorem le_run_given (answers : ℕ → A) (p : Program Q A α) (i : ℕ) : i ≤ (p.run (given answers) i).2 := by
  induction p generalizing i with
  | done a => exact le_rfl
  | call q next ih => exact (Nat.le_succ i).trans (ih _ (i + 1))

section
variable {answers : ℕ → A}

/-- A program that takes no answer has asked nothing. -/
theorem eq_done_of_run_given {p : Program Q A α} {i : ℕ} {a : α}
    (h : p.run (given answers) i = (a, i)) : p = done a := by
  cases p with
  | done b => exact congrArg done (congrArg Prod.fst h)
  | call q next =>
    have hle := le_run_given answers (next (answers i)) (i + 1)
    have hend : ((next (answers i)).run (given answers) (i + 1)).2 = i := congrArg Prod.snd h
    omega

/-- The last answer that was taken is the last one given. -/
theorem getLast?_exchanges_given {p : Program Q A α} {i n : ℕ} {a : α}
    (h : p.run (given answers) i = (a, n + 1)) (hle : i ≤ n) :
    ∃ q, (p.exchanges (given answers) i).getLast? = some (q, answers n) := by
  induction p generalizing i with
  | done b =>
    have hend : i = n + 1 := congrArg Prod.snd h
    omega
  | call q next ih =>
    rcases hle.eq_or_lt with rfl | hlt
    · have hdone := eq_done_of_run_given (p := next (answers i)) h
      refine ⟨q, ?_⟩
      rw [exchanges, given, hdone]
      rfl
    · obtain ⟨q', hlast⟩ := ih (answers i) h hlt
      refine ⟨q', ?_⟩
      change ((q, answers i) :: (next (answers i)).exchanges (given answers) (i + 1)).getLast? = _
      change ((next (answers i)).exchanges (given answers) (i + 1)).getLast? = _ at hlast
      rw [List.getLast?_cons, hlast]
      rfl

end

end Program

end ClientCalls
