import ParserKit.Drive
import ParserKit.State

/-!
The meaning of a parser in single steps. The pending work is a stack of frames,
one for each parser that waits for the outcome of a part, so a step never calls
another one and the depth of a grammar costs no call depth.
-/

namespace ParserKit

/-- What waits for an outcome of type `a` and will deliver one of type `b`. -/
inductive Frame : Ty → Ty → Type where
  | wrap {a b : Ty} (wrapper : Wrapper a b) (start : Nat) : Frame a b
  /-- Waits for the first part of a bind. -/
  | bind {a b : Ty} (start : Nat) (next : a.Elem → Parser b) (scope : Scope) : Frame a b
  /-- Waits for the second part of a bind. -/
  | settle {t : Ty} (start : Nat) : Frame t t
  /-- Waits for an item of a sequence; the rest follows. -/
  | item {t : Ty} {n : Nat} (start : Nat) (items : Fin n → Parser (.option t))
      (rest : List (Fin n)) (values : List t.Elem) (scope : Scope) : Frame (.option t) (.list t)
  /-- Waits for the first alternative. -/
  | alternative {t : Ty} (start : Nat) (second : Parser t) (scope : Scope) : Frame t t
  /-- Waits for the second alternative. -/
  | join {t : Ty} (first : Expectation) : Frame t t
  /-- Remembers the outcome. -/
  | memo {t : Ty} (key : Key) (start : Nat) : Frame t t
  /-- Waits for an occurrence of a repetition. -/
  | turn {t : Ty} (before : Nat) (p : Parser t) (values : List t.Elem) (scope : Scope) :
      Frame t (.list t)
  /-- Waits for the occurrence that a repetition requires. -/
  | firstTurn {t : Ty} (before : Nat) (p : Parser t) (scope : Scope) : Frame t (.list t)

/-- The frames that wait, innermost first, from an outcome of type `a` to the
outcome of the run. -/
inductive Stack : Ty → Ty → Type where
  | done {t : Ty} : Stack t t
  | push {a b r : Ty} (frame : Frame a b) (stack : Stack b r) : Stack a r

/-- The next thing to do. -/
inductive Control (r : Ty) where
  | run {t : Ty} (p : Parser t) (scope : Scope) (stack : Stack t r)
  | resume {t : Ty} (outcome : Outcome t.Elem) (stack : Stack t r)
  /-- The run has ended; without an outcome it was abandoned. -/
  | halted (outcome : Option (Outcome r.Elem))
  | broken (cause : Fault)

structure Machine (r : Ty) where
  control : Control r
  state : State

namespace Machine

variable {r : Ty}

def ofExcept {α : Type} (state : State) (x : Except Fault α) (next : α → Machine r) : Machine r :=
  match x with
  | .ok value => next value
  | .error cause => { control := .broken cause, state }

def start (p : Parser r) (state : State) : Machine r :=
  { control := .run p Scope.root .done, state }

/-- Starts the next item of a sequence, or delivers the values. -/
def nextItem {t : Ty} {n : Nat} (start : Nat) (items : Fin n → Parser (.option t))
    (rest : List (Fin n)) (values : List t.Elem) (scope : Scope) (stack : Stack (.list t) r)
    (s : State) : Machine r :=
  match rest with
  | [] => { control := .resume (t := .list t) (.success values.reverse) stack, state := s }
  | i :: rest =>
    { control := .run (items i) scope (.push (.item start items rest values scope) stack),
      state := s }

/-- Starts an occurrence of a repetition. -/
def nextTurn {t : Ty} (p : Parser t) (values : List t.Elem) (scope : Scope)
    (stack : Stack (.list t) r) (s : State) : Machine r :=
  { control := .run p scope (.push (.turn s.position p values scope) stack), state := s }

/-- Goes on with a repetition after an occurrence. -/
def afterTurn {t : Ty} (turn : Turn t.Elem) (p : Parser t) (scope : Scope)
    (stack : Stack (.list t) r) (s : State) : Machine r :=
  match turn with
  | .again values => nextTurn p values scope stack s
  | .stop outcome => { control := .resume (t := .list t) outcome stack, state := s }

/-- Starts a parser. -/
def enter {t : Ty} (p : Parser t) (scope : Scope) (stack : Stack t r) (s : State) : Machine r :=
  match p with
  | .atom a =>
    ofExcept s (s.read a) fun
      | (some outcome, s) => { control := .resume outcome stack, state := s }
      | (none, s) => { control := .halted none, state := s }
  | .wrap wrapper p =>
    { control := .run p scope (.push (.wrap wrapper s.position) stack), state := s }
  | .bind p captures next =>
    { control := .run p (scope.holding captures) (.push (.bind s.position next scope) stack),
      state := s }
  | .sequence items =>
    let inner := scope.holding (Parser.ownedItems items)
    nextItem s.position items (List.finRange _) [] inner stack s
  | .choice first second =>
    { control := .run first (scope.holding second.owned)
        (.push (.alternative s.position second scope) stack),
      state := s }
  | .memo label p =>
    if s.cursor.memoize then
      let key := scope.key label
      let start := s.position
      match s.lookup key t with
      | (some outcome, s) => { control := .resume outcome stack, state := s }
      | (none, s) => { control := .run p scope (.push (.memo key start) stack), state := s }
    else { control := .run p scope stack, state := s }
  | .many p => nextTurn p [] (scope.holding p.owned) stack s
  | .many1 p =>
    let inner := scope.holding p.owned
    { control := .run p inner (.push (.firstTurn s.position p inner) stack), state := s }
  | .recursive name body =>
    { control := .run body (scope.define name body) stack, state := s }
  | .rule name =>
    match scope.resolve name t with
    | some (body, scope) => { control := .run body scope stack, state := s }
    | none => { control := .broken .ruleDropped, state := s }
  | .fresh level _ body =>
    let (generation, s) := s.renew
    { control := .run (body ()) (scope.renew level generation) stack, state := s }
  | .tick counter p => { control := .run p scope stack, state := s.tick counter }

/-- Hands an outcome to the frame that waits for it. -/
def leave {a b : Ty} (frame : Frame a b) (outcome : Outcome a.Elem) (stack : Stack b r)
    (s : State) : Machine r :=
  match frame with
  | .wrap wrapper start =>
    ofExcept s (s.finish wrapper start outcome) fun (outcome, s) =>
      { control := .resume outcome stack, state := s }
  | .bind start next scope =>
    match outcome with
    | .success value =>
      { control := .run (next value) scope (.push (.settle start) stack), state := s }
    | .failure cause => { control := .resume (t := _) (.failure cause) stack, state := s }
  | .settle start => { control := .resume (s.settle start outcome) stack, state := s }
  | .item start items rest values scope =>
    match outcome with
    | .success value => nextItem start items rest (collect values value) scope stack s
    | .failure cause =>
      { control := .resume (t := _) (s.settle start (.failure cause)) stack, state := s }
  | .alternative start second scope =>
    match outcome with
    | .success value => { control := .resume (t := _) (.success value) stack, state := s }
    | .failure cause =>
      if cause.consumed then { control := .resume (t := _) (.failure cause) stack, state := s }
      else
        ofExcept s (s.jumpTo start) fun s =>
          { control := .run second scope (.push (.join cause.expected) stack), state := s }
  | .join first => { control := .resume (outcome.join first) stack, state := s }
  | .memo key start => { control := .resume outcome stack, state := s.remember key start outcome }
  | .turn before p values scope =>
    ofExcept s (Turn.next before values outcome s) fun (turn, s) => afterTurn turn p scope stack s
  | .firstTurn before p scope => afterTurn (Turn.first before outcome s) p scope stack s

/-- One step of a run. -/
def step (m : Machine r) : Step (Machine r) :=
  match m with
  | ⟨.run p scope stack, s⟩ => .next (enter p scope stack s)
  | ⟨.resume outcome .done, s⟩ => .next { control := .halted (some outcome), state := s }
  | ⟨.resume outcome (.push frame stack), s⟩ => .next (leave frame outcome stack s)
  | ⟨.halted outcome, s⟩ => .done { control := .halted outcome, state := s }
  | ⟨.broken cause, s⟩ => .done { control := .broken cause, state := s }

end Machine

end ParserKit
