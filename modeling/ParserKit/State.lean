import ParserKit.Scope

/-!
The state of a run, and the decisions that the parsers with parts take between
the runs of their parts.
-/

namespace ParserKit

/-- The end of a computation that may also break off or use up its fuel. -/
inductive Result (α : Type) where
  | done (value : α)
  | fault (cause : Fault)
  | timeout
deriving Repr

namespace Result

variable {α β : Type}

def ofExcept : Except Fault α → Result α
  | .ok value => .done value
  | .error cause => .fault cause

def bind (x : Result α) (f : α → Result β) : Result β :=
  match x with
  | .done value => f value
  | .fault cause => .fault cause
  | .timeout => .timeout

instance : Monad Result where
  pure := .done
  bind := Result.bind

@[simp] theorem done_bind (a : α) (f : α → Result β) : (Result.done a >>= f) = f a := rfl

@[simp] theorem fault_bind (cause : Fault) (f : α → Result β) :
    (Result.fault cause >>= f) = .fault cause := rfl

@[simp] theorem timeout_bind (f : α → Result β) : (Result.timeout >>= f) = .timeout := rfl

@[simp] theorem ofExcept_ok (a : α) : ofExcept (.ok a) = .done a := rfl

@[simp] theorem ofExcept_error (cause : Fault) :
    (ofExcept (.error cause) : Result α) = .fault cause := rfl

@[simp] theorem bind_done (x : Result α) : (x >>= .done) = x := by
  cases x <;> rfl

theorem bind_eq_done {x : Result α} {f : α → Result β} {b : β} (h : (x >>= f) = .done b) :
    ∃ a, x = .done a ∧ f a = .done b := by
  cases x with
  | done a => exact ⟨a, rfl, h⟩
  | fault cause => exact absurd h (by simp)
  | timeout => exact absurd h (by simp)

theorem ofExcept_ne_timeout (x : Except Fault α) : ofExcept x ≠ .timeout := by
  cases x <;> simp

theorem ofExcept_eq_done {x : Except Fault α} {a : α} (h : ofExcept x = .done a) : x = .ok a := by
  cases x with
  | ok b => exact congrArg Except.ok (Result.done.inj h)
  | error cause => exact absurd h (by simp)

end Result

structure State where
  cursor : Cursor
  /-- The generation that the next rebuilt part receives. -/
  nextGeneration : Nat := 1
  /-- The counters that ticked, latest first. -/
  ticks : List Nat := []

namespace State

/-- The state of a run over an input that begins at a position. -/
def startAt (input : Array Char) (memoize : Bool) (position : Nat) : State :=
  { cursor := { input, position, memoize } }

def position (state : State) : Nat :=
  state.cursor.position

def jumpTo (state : State) (position : Nat) : Except Fault State :=
  (state.cursor.jumpTo position).map fun cursor => { state with cursor }

def lookup (state : State) (key : Key) (t : Ty) : Option (Outcome t.Elem) × State :=
  let (outcome, cursor) := state.cursor.lookup key t
  (outcome, { state with cursor })

def remember {t : Ty} (state : State) (key : Key) (start : Nat) (outcome : Outcome t.Elem) :
    State :=
  { state with cursor := state.cursor.remember key start outcome }

def renew (state : State) : Nat × State :=
  (state.nextGeneration, { state with nextGeneration := state.nextGeneration + 1 })

def tick (state : State) (counter : Nat) : State :=
  { state with ticks := counter :: state.ticks }

def read {t : Ty} (state : State) (atom : Atom t) :
    Except Fault (Option (Outcome t.Elem) × State) :=
  (atom.read state.cursor).map fun (outcome, cursor) => (outcome, { state with cursor })

def finish {a b : Ty} (state : State) (wrapper : Wrapper a b) (start : Nat)
    (outcome : Outcome a.Elem) : Except Fault (Outcome b.Elem × State) :=
  (wrapper.finish start outcome state.cursor).map fun (treated, cursor) =>
    (treated, { state with cursor })

/-- The outcome of a part, marked as consuming when the whole has moved. -/
def settle {α : Type} (state : State) (start : Nat) (outcome : Outcome α) : Outcome α :=
  outcome.consumedIf (state.position != start)

end State

/-- The failure of the second alternative, together with that of the first. -/
def Outcome.join {α : Type} (first : Expectation) : Outcome α → Outcome α
  | .success value => .success value
  | .failure cause => .failure { cause with expected := first.merge cause.expected }

/-- Adds a value that is present to the values collected so far, latest first. -/
def collect {α : Type} (values : List α) : Option α → List α
  | some value => value :: values
  | none => values

/-- How a repetition goes on after one occurrence: with the values so far,
latest first, or with its outcome. -/
inductive Turn (α : Type) where
  | again (values : List α)
  | stop (outcome : Outcome (List α))

namespace Turn

variable {α : Type}

/-- An occurrence that did not move is kept and ends the repetition. -/
def ofValue (before : Nat) (values : List α) (value : α) (position : Nat) : Turn α :=
  if position = before then .stop (.success (value :: values).reverse)
  else .again (value :: values)

/-- After a later occurrence: a failure that consumed is the outcome, any other
failure ends the repetition where the occurrence began. -/
def next (before : Nat) (values : List α) (outcome : Outcome α) (state : State) :
    Except Fault (Turn α × State) :=
  match outcome with
  | .success value => .ok (ofValue before values value state.position, state)
  | .failure cause =>
    if cause.consumed then .ok (.stop (.failure cause), state)
    else do return (.stop (.success values.reverse), ← state.jumpTo before)

/-- After the first occurrence of at least one: any failure is the outcome. -/
def first (before : Nat) (outcome : Outcome α) (state : State) : Turn α :=
  match outcome with
  | .success value => ofValue before [] value state.position
  | .failure cause => .stop (.failure cause)

end Turn

end ParserKit
