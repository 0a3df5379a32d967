import ParserKit.Cursor
import ParserKit.Drive

/-!
The simplest computation in steps: a cursor that moves one character at a time,
for a given number of steps.
-/

namespace ParserKit

structure Walk where
  left : Nat
  cursor : Cursor

def Walk.step (walk : Walk) : Step Walk :=
  match walk.left with
  | 0 => .done walk
  | left + 1 =>
    match walk.cursor.advance 1 with
    | .ok cursor => .next { left, cursor }
    | .error _ => .done walk

end ParserKit
