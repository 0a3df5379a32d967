import ParserKit.Word

/-!
Lines of a text. A line ends at a line feed, at a carriage return, or at the
two together, which count once, at the line feed. Lines and columns are counted
from one, and the counters are offsets, so that they can overflow.
-/

namespace ParserKit.Lines

/-- The character at `i`, which has to lie in the text. -/
def charAt (input : Array Char) (i : Nat) : Except Fault Char :=
  match input[i]? with
  | some c => .ok c
  | none => .error (.indexOutOfBounds i input.size)

/-- Whether the character at `i` is the last one of a line terminator. -/
def isBreak (input : Array Char) (i : Nat) : Except Fault Bool := do
  match ← charAt input i with
  | '\n' => return true
  | '\r' => return input[← Index.add i 1]? != some '\n'
  | _ => return false

/-- The line reached and the offset at which it starts. -/
structure Mark where
  line : Nat
  start : Nat

/-- Passes the character at `i`, starting a new line after a terminator. -/
def Mark.pass (input : Array Char) (mark : Mark) (i : Nat) : Except Fault Mark := do
  if ← isBreak input i then
    return { line := ← Index.add mark.line 1, start := ← Index.add i 1 }
  else
    return mark

/-- The line and column of an offset; an offset past the end counts as the end. -/
def lineAndColumn (input : Array Char) (offset : Nat) : Except Fault (Nat × Nat) := do
  let offset := min offset input.size
  let mark ← (List.range offset).foldlM (Mark.pass input) { line := 1, start := 0 }
  let column ← Index.add (← Index.sub offset mark.start) 1
  return (mark.line, column)

/-- Finished lines and the characters of the line being read, latest first. -/
structure Draft where
  finished : List String
  current : List Char

def Draft.close (draft : Draft) : List String :=
  String.ofList draft.current.reverse :: draft.finished

def Draft.pass (input : Array Char) (draft : Draft) (i : Nat) : Except Fault Draft := do
  if ← isBreak input i then
    return { finished := draft.close, current := [] }
  else
    let c ← charAt input i
    return if c = '\r' then draft else { draft with current := c :: draft.current }

/-- The lines of the text, without their terminators; the last one may be empty. -/
def split (input : Array Char) : Except Fault (List String) := do
  let draft ← (List.range input.size).foldlM (Draft.pass input) { finished := [], current := [] }
  return draft.close.reverse

end ParserKit.Lines
