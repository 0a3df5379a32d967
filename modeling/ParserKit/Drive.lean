/-!
Driving a computation that is given by its single steps, without a pause or in
slices between which others get their turn. The number of steps and the end are
the same.
-/

namespace ParserKit

variable {σ : Type}

/-- What a computation does at a state: it ends there or goes on at another one. -/
inductive Step (σ : Type) where
  | done (s : σ)
  | next (s : σ)

namespace Step

/-- A step in words. -/
def describe : Step σ → String
  | .done _ => "Step::Done"
  | .next _ => "Step::Next(<thunk>)"

end Step

/-- Takes steps until the computation ends, and counts them. -/
def drive (step : σ → Step σ) : (fuel steps : Nat) → σ → Option (Nat × σ)
  | 0, _, _ => none
  | fuel + 1, steps, s =>
    match step s with
    | .done s => some (steps, s)
    | .next s => drive step fuel (steps + 1) s

/-- The state after a slice. -/
inductive Slice (σ : Type) where
  | finished (steps : Nat) (s : σ)
  | paused (steps : Nat) (s : σ)

/-- Takes at most `count` steps. -/
def driveSlice (step : σ → Step σ) : (count steps : Nat) → σ → Slice σ
  | 0, steps, s => .paused steps s
  | count + 1, steps, s =>
    match step s with
    | .done s => .finished steps s
    | .next s => driveSlice step count (steps + 1) s

/-- Takes slices of `interval` steps, at least one, until the computation ends. -/
def driveSliced (step : σ → Step σ) (interval : Nat) :
    (fuel steps : Nat) → σ → Option (Nat × σ)
  | 0, _, _ => none
  | fuel + 1, steps, s =>
    match driveSlice step (max interval 1) steps s with
    | .finished steps s => some (steps, s)
    | .paused steps s => driveSliced step interval fuel steps s

end ParserKit
