import ParserKit.Parser

/-!
Hand-written parsers: a fixed number of characters, a scripted motion with a
scripted outcome, and a parser that never delivers one.
-/

namespace ParserKit.Parser

variable {t : Ty}

/-- The next `count` characters, if there are as many. -/
def take (count : Nat) : Parser .text :=
  .atom <| .custom fun input position =>
    if position + count ≤ input.size then
      let chars := (input.extract position (position + count)).toList
      .deliver (t := .text) (.success (String.ofList chars)) (position + count)
    else .deliver (.fail (.message s!"{count} characters")) position

/-- Where a motion forward and a jump, each of them optional, lead. -/
def target (input : Array Char) (position : Nat) (advance jump : Option Nat) :
    Except Fault Nat := do
  let cursor : Cursor := { input, position }
  let cursor ← match advance with
    | some count => cursor.advance count
    | none => pure cursor
  let cursor ← match jump with
    | some position => cursor.jumpTo position
    | none => pure cursor
  return cursor.position

/-- Moves, and then has exactly the given outcome. -/
def scripted (advance jump : Option Nat) (outcome : Outcome t.Elem) : Parser t :=
  .atom <| .custom fun input position =>
    match target input position advance jump with
    | .ok position => .deliver outcome position
    | .error cause => .fault cause

/-- Stops the run without an outcome. -/
def abandon : Parser t :=
  .atom (.custom fun _ _ => .abandon)

end ParserKit.Parser
