import ParserKit.Expectation

/-!
The result of one attempt: a value, or a failure together with whether the
attempt had already consumed input when it failed.
-/

namespace ParserKit

structure Failure where
  expected : Expectation
  consumed : Bool
deriving Repr, Inhabited

inductive Outcome (α : Type) where
  | success (value : α)
  | failure (cause : Failure)
deriving Repr, Inhabited

namespace Outcome

variable {α β : Type}

/-- A failure that consumed nothing. -/
def fail (expected : Expectation) : Outcome α :=
  .failure { expected, consumed := false }

def isSuccess : Outcome α → Bool
  | .success _ => true
  | .failure _ => false

/-- A failure counts as consuming when the enclosing attempt has moved. -/
def consumedIf (outcome : Outcome α) (moved : Bool) : Outcome α :=
  match outcome with
  | .success value => .success value
  | .failure cause => .failure { cause with consumed := cause.consumed || moved }

end Outcome

end ParserKit
