import ParserKit.Eval

/-!
What a parser does without running a part looks only at the input and the
position, and changes at most the position. Two runs that stand at the same
place therefore do the same there, whatever else their states hold.
-/

namespace ParserKit

namespace Cursor

variable {α : Type}

def movedTo (cursor : Cursor) (position : Nat) : Cursor :=
  { cursor with position }

/-- The cursor with nothing but the input and the position. -/
def bare (cursor : Cursor) : Cursor :=
  { input := cursor.input, position := cursor.position }

/-- An operation that sees the input and the position and changes the position. -/
def Local (op : Cursor → Except Fault (α × Cursor)) : Prop :=
  ∀ cursor, op cursor = (op cursor.bare).map fun (a, after) => (a, cursor.movedTo after.position)

theorem peek_bare (c : Cursor) (n : Nat) : c.bare.peek n = c.peek n := rfl

theorem slice_bare (c : Cursor) (start stop : Nat) : c.bare.slice start stop = c.slice start stop :=
  rfl

theorem advance_eq_bare (c : Cursor) (n : Nat) :
    c.advance n = (c.bare.advance n).map fun after => c.movedTo after.position := by
  simp only [advance, bare]
  cases Index.add c.position n <;> rfl

theorem jumpTo_eq_bare (c : Cursor) (q : Nat) :
    c.jumpTo q = (c.bare.jumpTo q).map fun after => c.movedTo after.position := by
  by_cases h : q ≤ c.input.size
  · simp [jumpTo, bare, h, Except.map, movedTo]
  · simp [jumpTo, bare, h, Except.map]

end Cursor

namespace Atom

open Cursor

variable {t : Ty}

theorem matchFrom_bare (c : Cursor) (chars : List Char) (index : Nat) :
    matchFrom c.bare chars index = matchFrom c chars index := by
  induction chars generalizing index with
  | nil => rfl
  | cons head rest ih => simp only [matchFrom, peek_bare, ih]

theorem readSatisfy_local (accepts : Char → Bool) : Local (readSatisfy accepts) := by
  intro c
  simp only [readSatisfy, peek_bare]
  cases c.peek 0 with
  | error cause => rfl
  | ok found =>
    cases found with
    | none => rfl
    | some x =>
      simp only [bind, Except.bind, c.advance_eq_bare 1]
      cases accepts x with
      | false => rfl
      | true => cases c.bare.advance 1 <;> rfl

theorem readChar_local (x : Char) : Local (readChar x) := by
  intro c
  simp only [readChar, peek_bare]
  cases c.peek 0 with
  | error cause => rfl
  | ok found =>
    simp only [bind, Except.bind, c.advance_eq_bare 1]
    by_cases hx : found = some x
    · simp only [hx]
      cases c.bare.advance 1 <;> rfl
    · simp only [hx]
      rfl

theorem readString_local (chars : String) : Local (readString chars) := by
  intro c
  simp only [readString, matchFrom_bare]
  cases matchFrom c chars.toList 0 with
  | error cause => rfl
  | ok matched =>
    simp only [bind, Except.bind, c.advance_eq_bare matched]
    cases c.bare.advance matched with
    | error cause => rfl
    | ok after =>
      by_cases hx : matched = chars.toList.length
      · simp only [hx]
        rfl
      · simp only [hx]
        rfl

theorem perform_local (act : Array Char → Nat → Reply t) :
    Local fun c => perform (act c.input c.position) c := by
  intro c
  show perform (act c.input c.position) c = (perform (act c.input c.position) c.bare).map _
  cases act c.input c.position with
  | fault cause => rfl
  | abandon => rfl
  | deliver outcome target =>
    simp only [perform, c.jumpTo_eq_bare target]
    cases c.bare.jumpTo target <;> rfl

theorem read_local (a : Atom t) : Local a.read := by
  intro c
  cases a with
  | satisfy accepts =>
    simp only [read, readSatisfy_local accepts c]
    cases readSatisfy accepts c.bare <;> rfl
  | char x =>
    simp only [read, readChar_local x c]
    cases readChar x c.bare <;> rfl
  | string chars =>
    simp only [read, readString_local chars c]
    cases readString chars c.bare <;> rfl
  | jump target =>
    simp only [read, c.jumpTo_eq_bare target]
    cases c.bare.jumpTo target <;> rfl
  | custom act => exact perform_local act c
  | ret value => rfl
  | fail expected => rfl
  | unexpected found => rfl
  | eof => rfl
  | position => rfl

end Atom

namespace Wrapper

open Cursor

theorem finishRefuse_local {α : Type} (start : Nat) (outcome : Outcome α) :
    Local (finishRefuse start outcome) := by
  intro c
  by_cases h : start ≤ c.input.size
  · cases outcome with
    | failure cause => simp [finishRefuse, jumpTo, bare, h, bind, Except.bind, pure, Except.pure,
        Except.map, movedTo]
    | success value =>
      have hslice := slice_bare (c.movedTo start) 0 (c.position - start)
      simp only [bare, movedTo] at hslice
      simp only [finishRefuse, jumpTo, bare, h, if_true, bind, Except.bind, hslice]
      split <;> rfl
  · simp [finishRefuse, jumpTo, bare, h, bind, Except.bind, Except.map]

theorem finish_local {a b : Ty} (wrapper : Wrapper a b) (start : Nat) (outcome : Outcome a.Elem) :
    Local (wrapper.finish start outcome) := by
  intro c
  cases wrapper with
  | convert f =>
    simp only [finish]
    cases convertOutcome f outcome <;> rfl
  | attempt =>
    cases outcome with
    | success value => rfl
    | failure cause =>
      simp only [finish, finishAttempt, c.jumpTo_eq_bare start]
      cases c.bare.jumpTo start <;> rfl
  | label message => rfl
  | refuse => exact finishRefuse_local start outcome c
  | spanned => rfl

end Wrapper

namespace State

/-- The state at another position. -/
def movedTo (s : State) (position : Nat) : State :=
  { s with cursor := s.cursor.movedTo position }

@[simp] theorem position_movedTo (s : State) (q : Nat) : (s.movedTo q).position = q := rfl

/-- The state after a key was looked up in vain. -/
def missed (s : State) : State :=
  { s with cursor := { s.cursor with misses := s.cursor.misses + 1 } }

theorem lookup_cases {s : State} (h : s.cursor.memoize = true) (key : Key) (t : Ty) :
    (∃ outcome stop, s.cursor.cache[(key, s.cursor.position)]? = some { ty := t, outcome, stop } ∧
      s.lookup key t = (some outcome,
        { s with cursor := { s.cursor with position := stop, hits := s.cursor.hits + 1 } })) ∨
      s.lookup key t = (none, s.missed) := by
  simp only [lookup, missed]
  rcases Cursor.lookup_cases h key t with ⟨outcome, stop, hentry, hlookup⟩ | hlookup
  · rw [hlookup]
    exact .inl ⟨outcome, stop, hentry, rfl⟩
  · rw [hlookup]
    exact .inr rfl

/-- Two states of runs over the same text that stand at the same place. -/
structure Beside (s s' : State) : Prop where
  input_eq : s.cursor.input = s'.cursor.input
  position_eq : s.position = s'.position

theorem Beside.movedTo {s s' : State} (h : s.Beside s') (q : Nat) :
    (s.movedTo q).Beside (s'.movedTo q) :=
  ⟨h.input_eq, rfl⟩

theorem Beside.bare_eq {s s' : State} (h : s.Beside s') : s.cursor.bare = s'.cursor.bare := by
  have hp : s.cursor.position = s'.cursor.position := h.position_eq
  simp only [Cursor.bare, h.input_eq, hp]

end State

/-- The results of a step taken from two states: the same fault, or the same
answer and the same motion. -/
inductive SameMove {α : Type} (s s' : State) :
    Except Fault (α × State) → Except Fault (α × State) → Prop where
  | fault (cause : Fault) : SameMove s s' (.error cause) (.error cause)
  | move (a : α) (q : Nat) : SameMove s s' (.ok (a, s.movedTo q)) (.ok (a, s'.movedTo q))

theorem SameMove.stay {α : Type} {s s' : State} (h : s.Beside s') (a : α) :
    SameMove s s' (.ok (a, s)) (.ok (a, s')) := by
  have hs : s = s.movedTo s'.position := by rw [← h.position_eq]; rfl
  have hmove : SameMove s s' (.ok (a, s.movedTo s'.position)) (.ok (a, s'.movedTo s'.position)) :=
    .move a s'.position
  rw [← hs] at hmove
  exact hmove

namespace State

variable {s s' : State}

theorem sameMove_of_local {α : Type} {op : Cursor → Except Fault (α × Cursor)}
    (hop : Cursor.Local op) (h : s.Beside s') :
    SameMove s s' ((op s.cursor).map fun (a, cursor) => (a, { s with cursor }))
      ((op s'.cursor).map fun (a, cursor) => (a, { s' with cursor })) := by
  rw [hop s.cursor, hop s'.cursor, h.bare_eq]
  cases op s'.cursor.bare with
  | error cause => exact .fault cause
  | ok result => exact .move result.1 result.2.position

theorem read_sameMove {t : Ty} (h : s.Beside s') (a : Atom t) :
    SameMove s s' (s.read a) (s'.read a) :=
  sameMove_of_local a.read_local h

theorem finish_sameMove {a b : Ty} (h : s.Beside s') (wrapper : Wrapper a b) (start : Nat)
    (outcome : Outcome a.Elem) :
    SameMove s s' (s.finish wrapper start outcome) (s'.finish wrapper start outcome) :=
  sameMove_of_local (wrapper.finish_local start outcome) h

/-- A jump succeeds exactly when its target lies in the input. -/
theorem jumpTo_eq (s : State) (q : Nat) :
    s.jumpTo q = if q ≤ s.cursor.input.size then .ok (s.movedTo q)
      else .error (.jumpPastEnd q s.cursor.input.size) := by
  by_cases h : q ≤ s.cursor.input.size
  · simp only [jumpTo, Cursor.jumpTo, h, if_true]
    rfl
  · simp only [jumpTo, Cursor.jumpTo, h, if_false]
    rfl

theorem settle_eq {α : Type} (h : s.Beside s') (start : Nat) (outcome : Outcome α) :
    s.settle start outcome = s'.settle start outcome := by
  simp only [settle, h.position_eq]

end State

theorem Turn.next_sameMove {α : Type} {s s' : State} (h : s.Beside s') (before : Nat)
    (values : List α) (outcome : Outcome α) :
    SameMove s s' (Turn.next before values outcome s) (Turn.next before values outcome s') := by
  cases outcome with
  | success value =>
    simp only [Turn.next, h.position_eq]
    exact .stay h _
  | failure cause =>
    simp only [Turn.next]
    by_cases hc : cause.consumed = true
    · simp only [hc, if_true]
      exact .stay h _
    · simp only [hc, State.jumpTo_eq, h.input_eq]
      by_cases hb : before ≤ s'.cursor.input.size
      · simp only [hb, if_true]
        exact .move _ before
      · simp only [hb, if_false]
        exact .fault _

theorem Turn.first_eq {α : Type} {s s' after after' : State} (h : s.Beside s')
    (hafter : after.Beside after') (outcome : Outcome α) :
    Turn.first s.position outcome after = Turn.first s'.position outcome after' := by
  cases outcome with
  | success value => simp only [first, h.position_eq, hafter.position_eq]
  | failure cause => rfl

end ParserKit
