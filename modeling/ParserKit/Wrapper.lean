import ParserKit.Cursor

/-!
What is done with the outcome of a single parser after it has run: its value is
converted, its failure is relabelled or undone, or it is turned into a refusal.
-/

namespace ParserKit

inductive Wrapper : Ty → Ty → Type where
  /-- Converts the value; the conversion may break the run off. -/
  | convert {a b : Ty} (f : a.Elem → Except Fault b.Elem) : Wrapper a b
  /-- A failure goes back to the start and counts as not consuming. -/
  | attempt {t : Ty} : Wrapper t t
  /-- A failure is described by a message at the start. -/
  | label {t : Ty} (message : String) : Wrapper t t
  /-- Succeeds where the parser fails and the other way round, without moving. -/
  | refuse {t : Ty} : Wrapper t .unit
  /-- Adds the region that was read to the value. -/
  | spanned {t : Ty} : Wrapper t (.spanned t)

namespace Wrapper

def convertOutcome {α β : Type} (f : α → Except Fault β) :
    Outcome α → Except Fault (Outcome β)
  | .success value => (f value).map .success
  | .failure cause => .ok (.failure cause)

def finishAttempt {α : Type} (start : Nat) (outcome : Outcome α) (cursor : Cursor) :
    Except Fault (Outcome α × Cursor) :=
  match outcome with
  | .success value => .ok (.success value, cursor)
  | .failure cause => do return (.fail cause.expected, ← cursor.jumpTo start)

def finishLabel {α : Type} (message : String) (start : Nat) : Outcome α → Outcome α
  | .success value => .success value
  | .failure cause => .failure { cause with expected := .positioned message start }

/-- A success is reported by the text it covered, which is empty when the cursor
moved backwards. -/
def finishRefuse {α : Type} (start : Nat) (outcome : Outcome α) (cursor : Cursor) :
    Except Fault (Outcome Unit × Cursor) := do
  let stop := cursor.position
  let back ← cursor.jumpTo start
  match outcome with
  | .success _ => return (.fail (.unexpected (← back.slice 0 (stop - start)) start), back)
  | .failure _ => return (.success (), back)

def finishSpanned {α : Type} (start stop : Nat) : Outcome α → Outcome (α × Span)
  | .success value => .success (value, { start, stop })
  | .failure cause => .failure cause

/-- The outcome and the cursor after a parser that began at `start`. -/
def finish {a b : Ty} (wrapper : Wrapper a b) (start : Nat) (outcome : Outcome a.Elem)
    (cursor : Cursor) : Except Fault (Outcome b.Elem × Cursor) :=
  match wrapper with
  | .convert f => (convertOutcome f outcome).map fun converted => (converted, cursor)
  | .attempt => finishAttempt start outcome cursor
  | .label message => .ok (finishLabel message start outcome, cursor)
  | .refuse => finishRefuse start outcome cursor
  | .spanned => .ok (finishSpanned start cursor.position outcome, cursor)

end Wrapper

end ParserKit
