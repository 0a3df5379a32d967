import ParserKit.Lines
import ParserKit.Outcome
import ParserKit.Ty
import Std.Data.HashMap

/-!
The input of one run, the position in it, and the cache of outcomes. Every
motion is either a step forward, which stops at the end of the input, or a jump,
which has to stay inside it. The cache answers for a key at a position; an entry
stored at another type is a miss.

Sums of places go through `Index.add`, since a distance can be any number that a place can
be. The counters of hits and misses go up by one at a lookup, which is a step of the run;
they are plain numbers, as that of the steps is, and never more than it.
-/

namespace ParserKit

/-- The identity under which outcomes are remembered: the generation of parsers
it was built in, and a number within that generation. -/
structure Key where
  generation : Nat
  index : Nat
deriving DecidableEq, Repr, Hashable

/-- A remembered outcome with the position at which the attempt ended. -/
structure Entry where
  ty : Ty
  outcome : Outcome ty.Elem
  stop : Nat

namespace Entry

/-- The outcome, if it was stored at the type `t`. -/
def outcomeAt (entry : Entry) (t : Ty) : Option (Outcome t.Elem) :=
  if h : entry.ty = t then some (h ▸ entry.outcome) else none

theorem outcomeAt_self (t : Ty) (outcome : Outcome t.Elem) (stop : Nat) :
    outcomeAt { ty := t, outcome, stop } t = some outcome := by
  simp [outcomeAt]

theorem eq_of_outcomeAt {entry : Entry} {t : Ty} {outcome : Outcome t.Elem}
    (h : entry.outcomeAt t = some outcome) : entry = { ty := t, outcome, stop := entry.stop } := by
  obtain ⟨ty, stored, stop⟩ := entry
  simp only [outcomeAt] at h
  split at h
  · rename_i hty
    cases hty
    obtain rfl : stored = outcome := Option.some.inj h
    rfl
  · exact absurd h (by simp)

end Entry

structure Statistics where
  hits : Nat
  misses : Nat
  entries : Nat
deriving DecidableEq, Repr

structure Cursor where
  input : Array Char
  position : Nat := 0
  memoize : Bool := false
  cache : Std.HashMap (Key × Nat) Entry := ∅
  hits : Nat := 0
  misses : Nat := 0

namespace Cursor

/-- The number of characters after the position. -/
def remaining (cursor : Cursor) : Except Fault Nat :=
  Index.sub cursor.input.size cursor.position

def isAtEnd (cursor : Cursor) : Bool :=
  cursor.input.size ≤ cursor.position

/-- The character at a distance from the position. -/
def peek (cursor : Cursor) (distance : Nat) : Except Fault (Option Char) := do
  return cursor.input[← Index.add cursor.position distance]?

/-- The text between two distances from the position, cut at the end of input. -/
def slice (cursor : Cursor) (start stop : Nat) : Except Fault String := do
  let first := min (← Index.add cursor.position start) cursor.input.size
  let last := min (max first (← Index.add cursor.position stop)) cursor.input.size
  return String.ofList (← sliceChars cursor.input first last).toList

/-- Moves forward, at most to the end of input. -/
def advance (cursor : Cursor) (count : Nat) : Except Fault Cursor := do
  let target ← Index.add cursor.position count
  return { cursor with position := min target cursor.input.size }

/-- Moves to any position inside the input or at its end. -/
def jumpTo (cursor : Cursor) (position : Nat) : Except Fault Cursor :=
  if position ≤ cursor.input.size then .ok { cursor with position }
  else .error (.jumpPastEnd position cursor.input.size)

def lineAndColumn (cursor : Cursor) (offset : Nat) : Except Fault (Nat × Nat) :=
  Lines.lineAndColumn cursor.input offset

/-- The outcome remembered for a key at the position. A hit moves the cursor to
where that attempt ended; both hits and misses are counted. -/
def lookup (cursor : Cursor) (key : Key) (t : Ty) : Option (Outcome t.Elem) × Cursor :=
  if cursor.memoize then
    match cursor.cache[(key, cursor.position)]? with
    | some entry =>
      match entry.outcomeAt t with
      | some outcome =>
        (some outcome, { cursor with position := entry.stop, hits := cursor.hits + 1 })
      | none => (none, { cursor with misses := cursor.misses + 1 })
    | none => (none, { cursor with misses := cursor.misses + 1 })
  else (none, cursor)

/-- Remembers an outcome for a key at `start`, ending at the position. -/
def remember {t : Ty} (cursor : Cursor) (key : Key) (start : Nat) (outcome : Outcome t.Elem) :
    Cursor :=
  if cursor.memoize then
    let entry : Entry := { ty := t, outcome, stop := cursor.position }
    { cursor with cache := cursor.cache.insert (key, start) entry }
  else cursor

/-- A cursor that remembers has a hit, which moves it, or a miss, which does not. -/
theorem lookup_cases {cursor : Cursor} (h : cursor.memoize = true) (key : Key) (t : Ty) :
    (∃ outcome stop, cursor.cache[(key, cursor.position)]? = some { ty := t, outcome, stop } ∧
      cursor.lookup key t =
        (some outcome, { cursor with position := stop, hits := cursor.hits + 1 })) ∨
    cursor.lookup key t = (none, { cursor with misses := cursor.misses + 1 }) := by
  simp only [lookup, h, if_true]
  split
  · rename_i entry hentry
    split
    · rename_i outcome hat
      rw [Entry.eq_of_outcomeAt hat] at hentry
      exact .inl ⟨outcome, entry.stop, hentry, rfl⟩
    · exact .inr rfl
  · exact .inr rfl

section

variable {t : Ty} (cursor : Cursor) (key : Key) (start : Nat) (outcome : Outcome t.Elem)

@[simp] theorem input_remember : (cursor.remember key start outcome).input = cursor.input := by
  simp only [remember]
  split <;> rfl

@[simp] theorem position_remember :
    (cursor.remember key start outcome).position = cursor.position := by
  simp only [remember]
  split <;> rfl

end

theorem cache_remember {t : Ty} {cursor : Cursor} (h : cursor.memoize = true) (key : Key)
    (start : Nat) (outcome : Outcome t.Elem) (place : Key × Nat) :
    (cursor.remember key start outcome).cache[place]? =
      if (key, start) = place then some { ty := t, outcome, stop := cursor.position }
      else cursor.cache[place]? := by
  simp only [remember, h, if_true, Std.HashMap.getElem?_insert, beq_iff_eq]

def statistics (cursor : Cursor) : Statistics :=
  { hits := cursor.hits, misses := cursor.misses, entries := cursor.cache.size }

/-- One line about the cursor, for tracing a run. -/
def describe (cursor : Cursor) : String :=
  let stats := cursor.statistics
  s!"Cursor \x7b position: {cursor.position}, len: {cursor.input.size}, " ++
    s!"memoize: {cursor.memoize}, stats: MemoStats \x7b hits: {stats.hits}, " ++
    s!"misses: {stats.misses}, entries: {stats.entries} \x7d \x7d"

end Cursor

end ParserKit
