/-!
The ways a run can break off without an outcome. A fault is a mistake in the
grammar or a number out of range, never an answer about the input.
-/

namespace ParserKit

inductive Fault where
  | jumpPastEnd (position length : Nat)
  | addOverflow
  | subOverflow
  | sliceOutOfRange (start stop length : Nat)
  | indexOutOfBounds (index length : Nat)
  | noOutcome
  | ruleDropped
deriving DecidableEq, Repr

def Fault.message : Fault → String
  | .jumpPastEnd position length =>
    s!"cannot jump to position {position} of an input of length {length}"
  | .addOverflow => "attempt to add with overflow"
  | .subOverflow => "attempt to subtract with overflow"
  | .sliceOutOfRange start stop length =>
    if length < stop then s!"range end index {stop} out of range for slice of length {length}"
    else s!"slice index starts at {start} but ends at {stop}"
  | .indexOutOfBounds index length =>
    s!"index out of bounds: the len is {length} but the index is {index}"
  | .noOutcome => "parser returned control to the driver without producing an outcome"
  | .ruleDropped =>
    "recursive parser used before its definition was complete or after it was dropped"

end ParserKit
