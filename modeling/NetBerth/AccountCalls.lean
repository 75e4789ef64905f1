import NetBerth.Accounts

/-!
# A handler with nothing in between

Where only one request is under way, the statements of its handler follow each other.
There are at most four of them, so four steps bring every handler to its end; it gets
stuck before only if the ids that were drawn for a pair of tokens have been signed.
-/
namespace NetBerth.AccountCalls
open Accounts

def runHandler (H : Hasher) : ℕ → Store → Proc → Store × Proc
  | 0, s, p => (s, p)
  | n + 1, s, p =>
    match step H s p with
    | none => (s, p)
    | some (s', q) => runHandler H n s' q

/-- A request from its start to its end. -/
def call (H : Hasher) (s : Store) (r : Request) : Store × Proc := runHandler H 4 s (start H r)

/-- The statements a handler still has before it, if nothing goes wrong. -/
def remaining : Proc → ℕ
  | .done _ | .refreshed .. => 0
  | .loginStore .. | .refreshStore .. | .logoutRevoke _ | .changeRevokeAll _ | .createInsert _
  | .updateExec .. | .deleteExec _ | .resetExec .. => 1
  | .loginSelect .. | .refreshRevoke .. | .changeUpdate .. | .createTenant .. | .updateCount ..
  | .deleteCount _ | .resetExists .. => 2
  | .refreshLookup .. | .changeSelect .. | .updateSelect .. | .deleteSelect _ => 3
  | .refreshCheck .. => 4

section
variable {H : Hasher} {s s' : Store} {p q : Proc}

theorem step_remaining (h : step H s p = some (s', q)) : remaining q < remaining p := by
  cases p with
  | loginSelect req ids =>
    obtain ⟨-, rfl⟩ | ⟨user, t, -, -, -, rfl⟩ := loginSelect_eq h <;> simp [remaining, Proc.error]
  | refreshCheck token ids =>
    cases h
    obtain herror | ⟨claims, rfl, -, -, hlookup⟩ := refreshCheck_eq s token ids
    · simp [herror, remaining, Proc.error]
    · simp [hlookup, remaining]
  | refreshLookup claims ids =>
    obtain ⟨-, -, rfl⟩ | ⟨user, t, -, -, rfl⟩ := refreshLookup_eq h <;> simp [remaining, Proc.error]
  | changeSelect userID req salt =>
    cases h
    unfold changeSelect
    split
    · simp [remaining, Proc.error]
    · split_ifs <;> simp [remaining, Proc.error]
  | createTenant actor req uuid salt =>
    cases h
    unfold createTenant
    split <;> simp [remaining, Proc.error]
  | createInsert user =>
    obtain ⟨⟨response, rfl⟩, -⟩ := createInsert_eq (Option.some.inj h)
    simp [remaining]
  | updateSelect actor id req =>
    cases h
    unfold updateSelect
    split
    · simp [remaining, Proc.error]
    · dsimp only
      split_ifs <;> simp [remaining, Proc.error]
  | updateCount id email role enabled =>
    obtain ⟨-, rfl | rfl⟩ := count_eq h <;> simp [remaining, Proc.error]
  | deleteSelect id =>
    cases h
    unfold deleteSelect
    split
    · simp [remaining, Proc.error]
    · split_ifs <;> simp [remaining]
  | deleteCount id => obtain ⟨-, rfl | rfl⟩ := count_eq h <;> simp [remaining, Proc.error]
  | resetExists id newPassword salt =>
    cases h
    unfold resetExists
    split_ifs <;> simp [remaining, Proc.error]
  | done response => cases h
  | refreshed claims tokens => cases h
  | _ =>
    cases h
    simp [remaining]

/-- With a step for each statement that is left, the handler can go no further. -/
theorem runHandler_stopped {n : ℕ} (h : remaining p ≤ n) :
    step H (runHandler H n s p).1 (runHandler H n s p).2 = none := by
  induction n generalizing s p with
  | zero =>
    cases hstep : step H s p with
    | none => exact hstep
    | some t =>
      have hlt := step_remaining (q := t.2) hstep
      omega
  | succ n ih =>
    unfold runHandler
    cases hstep : step H s p with
    | none => exact hstep
    | some t =>
      have hlt := step_remaining (q := t.2) hstep
      exact ih (by omega)

theorem call_stopped (H : Hasher) (s : Store) (r : Request) :
    step H (call H s r).1 (call H s r).2 = none := by
  apply runHandler_stopped
  have hfresh := start_fresh H r
  generalize start H r = p at hfresh
  cases p <;> simp_all [Proc.fresh, remaining]

/-- What every statement keeps, a handler keeps. -/
theorem runHandler_keeps {I : Store → Proc → Prop}
    (hstep : ∀ s p s' q, I s p → step H s p = some (s', q) → I s' q) {n : ℕ} (h : I s p) :
    I (runHandler H n s p).1 (runHandler H n s p).2 := by
  induction n generalizing s p with
  | zero => exact h
  | succ n ih =>
    unfold runHandler
    cases hs : step H s p with
    | none => exact h
    | some t => exact ih (hstep s p t.1 t.2 h hs)

end

end NetBerth.AccountCalls
