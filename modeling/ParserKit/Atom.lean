import ParserKit.Cursor
import ParserKit.Text.Escaped

/-!
Parsers without parts: they look at the input at the cursor, move it, and have
their outcome at once.
-/

namespace ParserKit

/-- What a hand-written parser does at a position of the input: break off, stop
the run without an outcome, or deliver an outcome and leave the cursor somewhere. -/
inductive Reply (t : Ty) where
  | fault (fault : Fault)
  | abandon
  | deliver (outcome : Outcome t.Elem) (position : Nat)

inductive Atom : Ty → Type where
  /-- Succeeds with a value. -/
  | ret {t : Ty} (value : t.Elem) : Atom t
  /-- Fails with an expectation. -/
  | fail {t : Ty} (expected : Expectation) : Atom t
  /-- Fails, reporting a text as unexpected at the current position. -/
  | unexpected {t : Ty} (found : String) : Atom t
  /-- One character of a class. -/
  | satisfy (accepts : Char → Bool) : Atom .char
  /-- One particular character. -/
  | char (c : Char) : Atom .char
  /-- A literal text; what matches of it is consumed. -/
  | string (chars : String) : Atom .text
  /-- The end of input. -/
  | eof : Atom .unit
  /-- The current position. -/
  | position : Atom .natural
  /-- Moves to a position. -/
  | jump (target : Nat) : Atom .unit
  /-- A hand-written parser, which sees the input and the position. -/
  | custom {t : Ty} (act : Array Char → Nat → Reply t) : Atom t

namespace Atom

/-- The length of the longest common start of `chars` and the input from the
distance `index` on, added to `index`. -/
def matchFrom (cursor : Cursor) : List Char → (index : Nat) → Except Fault Nat
  | [], index => .ok index
  | c :: rest, index => do
    if (← cursor.peek index) = some c then matchFrom cursor rest (index + 1) else return index

def readSatisfy (accepts : Char → Bool) (cursor : Cursor) :
    Except Fault (Outcome Char × Cursor) := do
  match ← cursor.peek 0 with
  | some c =>
    if accepts c then return (.success c, ← cursor.advance 1)
    else return (.fail (.unexpected (Text.escaped c) cursor.position), cursor)
  | none => return (.fail (.unexpected endOfInput cursor.position), cursor)

def readChar (c : Char) (cursor : Cursor) : Except Fault (Outcome Char × Cursor) := do
  if (← cursor.peek 0) = some c then return (.success c, ← cursor.advance 1)
  else return (.fail (.positioned (String.singleton c) cursor.position), cursor)

def readString (chars : String) (cursor : Cursor) : Except Fault (Outcome String × Cursor) := do
  let wanted := chars.toList
  let matched ← matchFrom cursor wanted 0
  let after ← cursor.advance matched
  if matched = wanted.length then return (.success chars, after)
  else
    let expected := Expectation.positioned chars cursor.position
    return (.failure { expected, consumed := 0 < matched }, after)

def readEof (cursor : Cursor) : Outcome Unit :=
  if cursor.isAtEnd then .success () else .fail (.positioned endOfInput cursor.position)

/-- Runs a hand-written parser; no outcome means that the run stops there. -/
def perform {t : Ty} (reply : Reply t) (cursor : Cursor) :
    Except Fault (Option (Outcome t.Elem) × Cursor) :=
  match reply with
  | .fault fault => .error fault
  | .abandon => .ok (none, cursor)
  | .deliver outcome target => do return (some outcome, ← cursor.jumpTo target)

def read {t : Ty} (atom : Atom t) (cursor : Cursor) :
    Except Fault (Option (Outcome t.Elem) × Cursor) :=
  match atom with
  | .ret value => .ok (some (.success value), cursor)
  | .fail expected => .ok (some (.fail expected), cursor)
  | .unexpected found => .ok (some (.fail (.unexpected found cursor.position)), cursor)
  | .satisfy accepts => (readSatisfy accepts cursor).map fun (outcome, after) => (some outcome, after)
  | .char c => (readChar c cursor).map fun (outcome, after) => (some outcome, after)
  | .string chars => (readString chars cursor).map fun (outcome, after) => (some outcome, after)
  | .eof => .ok (some (readEof cursor), cursor)
  | .position => .ok (some (.success cursor.position), cursor)
  | .jump target => (cursor.jumpTo target).map fun after => (some (.success ()), after)
  | .custom act => perform (act cursor.input cursor.position) cursor

end Atom

end ParserKit
