import ParserKit.Cursor

/-!
Failures rendered for people: a message with what was found, what was expected
and where, and the lines around the place with a pointer under the column. Only
the leaves of the expectation at the furthest offset take part.
-/

namespace ParserKit

structure Diagnostic where
  message : String
  unexpected : String
  expected : List String
  offset : Nat
  line : Nat
  column : Nat
  context : List String
deriving DecidableEq, Repr

namespace Diagnostic

/-- The longest excerpt of the input that a message quotes. -/
def maxSnippet : Nat := 6

/-- The width of the excerpt: that of the first description, within bounds. -/
def snippetWidth (expected : List String) : Nat :=
  min (max ((expected.head?.map String.length).getD 1) 1) maxSnippet

/-- The input at an offset, as quoted in a message. -/
def snippet (input : Array Char) (offset width : Nat) : Except Fault String := do
  let stop := min (← Index.add offset width) input.size
  let chars ← sliceChars input offset stop
  return if chars.isEmpty then endOfInput else String.ofList chars.toList

def quoted (text : String) : String :=
  "\x22" ++ text ++ "\x22"

def summary (unexpected : String) (expected : List String) (line column : Nat) : String :=
  let wanted :=
    if expected.isEmpty then "" else ", expecting " ++ " or ".intercalate (expected.map quoted)
  s!"Unexpected {quoted unexpected}{wanted} at line {line} column {column}"

/-- The text in front of a line of the context. -/
def margin (number line : Nat) : String :=
  if number = line then s!"  > {number} | " else s!"    {number} | "

def pointer (indent : Nat) : String :=
  String.ofList (List.replicate indent ' ') ++ "^--- here"

/-- What one line contributes to the context: nothing when it is more than two
lines away, otherwise its text, followed by the pointer on the failing line. -/
def contextLine (line column : Nat) (content : String) (index : Nat) :
    Except Fault (List String) := do
  let number ← Index.add index 1
  if (← Index.add number 2) < line then return []
  if (← Index.add line 2) < number then return []
  let start := margin number line
  if number = line then
    let indent ← Index.sub (← Index.add start.length column) 1
    return [start ++ content, pointer indent]
  else return [start ++ content]

def contextLines (input : Array Char) (line column : Nat) : Except Fault (List String) := do
  let lines ← Lines.split input
  let parts ← lines.zipIdx.mapM fun (content, index) => contextLine line column content index
  return parts.flatten

/-- Renders a failure against the input it happened on. Without an offset in
the expectation the place is the position of the cursor. -/
def ofFailure (failure : Failure) (cursor : Cursor) : Except Fault Diagnostic := do
  let input := cursor.input
  let reported := failure.expected.furthest
  let offset := min (reported.offset.getD cursor.position) input.size
  let expected := reported.descriptions
  let unexpected ← match reported.found with
    | some found => pure found
    | none => snippet input offset (snippetWidth expected)
  let (line, column) ← Lines.lineAndColumn input offset
  let context ← contextLines input line column
  return { message := summary unexpected expected line column,
           unexpected, expected, offset, line, column, context }

/-- The message followed by the lines around the place. -/
def pretty (diagnostic : Diagnostic) : String :=
  diagnostic.context.foldl (fun out line => out ++ line ++ "\n") (diagnostic.message ++ "\n\n")

end Diagnostic

end ParserKit
