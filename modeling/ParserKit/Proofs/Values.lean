import ParserKit.Parser.Combine
import ParserKit.Proofs.Meaning

/-!
A value is passed on and never looked at by the parser that delivers it: to do something with
the value of a run is to do it with its outcome. What a repetition has collected before is
therefore no part of what it does next, and only stands in front of what it collects.
-/

namespace ParserKit

variable {α β γ : Type}

namespace Outcome

/-- The same outcome with another value. -/
def map (f : α → β) : Outcome α → Outcome β
  | .success value => .success (f value)
  | .failure cause => .failure cause

@[simp] theorem map_success (f : α → β) (value : α) :
    (success value).map f = .success (f value) := rfl

@[simp] theorem map_failure (f : α → β) (cause : Failure) :
    (failure cause).map f = .failure cause := rfl

@[simp] theorem map_map (f : α → β) (g : β → γ) (outcome : Outcome α) :
    (outcome.map f).map g = outcome.map fun value => g (f value) := by
  cases outcome <;> rfl

end Outcome

namespace Action

/-- Runs an action and does something with its value. -/
def mapped (x : Action α) (f : α → β) : Action β := fun s => do
  let (outcome, after) ← x s
  .done (outcome.map f, after)

theorem mapped_mapped (x : Action α) (f : α → β) (g : β → γ) :
    (x.mapped f).mapped g = x.mapped fun value => g (f value) := by
  funext s
  simp only [mapped]
  cases x s with
  | fault cause => rfl
  | timeout => rfl
  | done result => simp only [Result.done_bind, Outcome.map_map]

theorem repeatFrom_append (x : Action α) (fuel : Nat) (recent earlier : List α) (s : State) :
    x.repeatFrom fuel (recent ++ earlier) s =
      (x.repeatFrom fuel recent).mapped (earlier.reverse ++ ·) s := by
  induction fuel generalizing recent s with
  | zero => rfl
  | succ fuel ih =>
    simp only [mapped, repeatFrom] at ih ⊢
    cases x s with
    | fault cause => rfl
    | timeout => rfl
    | done result =>
      obtain ⟨outcome, after⟩ := result
      cases outcome with
      | success value =>
        simp only [Result.done_bind, Turn.next, Turn.ofValue, Result.ofExcept_ok]
        by_cases hmoved : after.position = s.position
        · simp [if_pos hmoved]
        · simp only [if_neg hmoved]
          exact ih (value :: recent) after
      | failure cause =>
        simp only [Result.done_bind, Turn.next]
        by_cases hc : cause.consumed = true
        · simp [hc]
        · simp only [hc]
          cases after.jumpTo s.position with
          | error cause => rfl
          | ok back =>
            rw [List.reverse_append]
            rfl

/-- What was collected before stands in front of what a repetition collects. -/
theorem repeated_values (x : Action α) (values : List α) :
    x.repeated values = (x.repeated []).mapped (values.reverse ++ ·) := by
  funext s
  have hsettles : Result.Settles (fun fuel => (x.repeatFrom fuel []).mapped (values.reverse ++ ·) s)
      ((x.repeated []).mapped (values.reverse ++ ·) s) :=
    (repeatFrom_settles x [] s).bind fun _ _ => .const _
  have hsame : (fun fuel => x.repeatFrom fuel values s) =
      fun fuel => (x.repeatFrom fuel []).mapped (values.reverse ++ ·) s :=
    funext fun fuel => x.repeatFrom_append fuel [] values s
  refine (repeatFrom_settles x values s).unique ?_
  rw [hsame]
  exact hsettles

end Action

namespace Parser

theorem meaning_map {a b : Ty} (scope : Scope) (p : Parser a) (f : a.Elem → b.Elem) :
    (p.map f).meaning scope = (p.meaning scope).mapped f := by
  rw [map, meaning_wrap]
  funext s
  simp only [Action.wrapped, Action.mapped]
  cases p.meaning scope s with
  | fault cause => rfl
  | timeout => rfl
  | done result =>
    obtain ⟨outcome, after⟩ := result
    cases outcome <;> rfl

end Parser

end ParserKit
