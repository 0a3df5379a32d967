import ParserKit.State

/-!
The direct meaning of a parser: each parser runs its parts one after the other
and turns their outcomes into its own. The fuel bounds the depth of the calls
and the length of the repetitions.
-/

namespace ParserKit

/-- A parser that is ready to run. -/
abbrev Action (α : Type) := State → Result (Outcome α × State)

namespace Action

variable {α β : Type}

def atom {t : Ty} (atom : Atom t) : Action t.Elem := fun s => do
  match ← .ofExcept (s.read atom) with
  | (some outcome, s) => .done (outcome, s)
  | (none, _) => .fault .noOutcome

/-- Runs a part and treats its outcome. -/
def wrapped {a b : Ty} (wrapper : Wrapper a b) (part : Action a.Elem) : Action b.Elem := fun s => do
  let (outcome, after) ← part s
  .ofExcept (after.finish wrapper s.position outcome)

/-- Runs a part and then the one that its value leads to. -/
def chain (first : Action α) (next : α → Action β) : Action β := fun s => do
  match ← first s with
  | (.success value, middle) =>
    let (outcome, after) ← next value middle
    .done (after.settle s.position outcome, after)
  | (.failure cause, after) => .done (.failure cause, after)

theorem chain_of_success {first : Action α} {next : α → Action β} {s middle after : State}
    {x : α} {y : β} (hfirst : first s = .done (.success x, middle))
    (hnext : next x middle = .done (.success y, after)) :
    first.chain next s = .done (.success y, after) := by
  simp only [chain, hfirst, Result.done_bind, hnext]
  rfl

/-- Runs items in order, collecting values; the first failure ends the sequence. -/
def sequence {n : Nat} (item : Fin n → Action (Option α)) (start : Nat) :
    List (Fin n) → (values : List α) → Action (List α)
  | [], values, s => .done (.success values.reverse, s)
  | i :: rest, values, s => do
    match ← item i s with
    | (.success value, s) => sequence item start rest (collect values value) s
    | (.failure cause, s) => .done (s.settle start (.failure cause), s)

/-- Runs the second part where the first failed without consuming. -/
def choice (first second : Action α) : Action α := fun s => do
  match ← first s with
  | (.success value, after) => .done (.success value, after)
  | (.failure cause, after) =>
    if cause.consumed then .done (.failure cause, after)
    else
      let back ← .ofExcept (after.jumpTo s.position)
      let (outcome, after) ← second back
      .done (outcome.join cause.expected, after)

theorem choice_of_failure {first second : Action α} {s after back final : State}
    {expected : Expectation} {value : α} (hfirst : first s = .done (.fail expected, after))
    (hback : after.jumpTo s.position = .ok back)
    (hsecond : second back = .done (.success value, final)) :
    first.choice second s = .done (.success value, final) := by
  simp only [choice, hfirst, Outcome.fail, Result.done_bind, hback, Result.ofExcept_ok, hsecond]
  rfl

/-- Reuses the outcome under a key at the position, or runs a part and remembers
its outcome. -/
def remembered {t : Ty} (key : Key) (part : Action t.Elem) : Action t.Elem := fun s =>
  if s.cursor.memoize then
    match s.lookup key t with
    | (some outcome, after) => .done (outcome, after)
    | (none, missed) => do
      let (outcome, after) ← part missed
      .done (outcome, after.remember key s.position outcome)
  else part s

/-- A run that remembers either has an outcome for the key at its place, or it runs
the part and remembers how that ends. -/
theorem remembered_cases {t : Ty} {s : State} (h : s.cursor.memoize = true) (key : Key)
    (part : Action t.Elem) :
    (∃ outcome stop, s.cursor.cache[(key, s.cursor.position)]? = some { ty := t, outcome, stop } ∧
      part.remembered key s = .done (outcome,
        { s with cursor := { s.cursor with position := stop, hits := s.cursor.hits + 1 } })) ∨
    part.remembered key s = (do
      let (outcome, after) ← part
        { s with cursor := { s.cursor with misses := s.cursor.misses + 1 } }
      .done (outcome, after.remember key s.position outcome)) := by
  have hopen : part.remembered key s = (match s.lookup key t with
      | (some outcome, after) => .done (outcome, after)
      | (none, missed) => do
        let (outcome, after) ← part missed
        .done (outcome, after.remember key s.position outcome)) := if_pos h
  simp only [hopen, State.lookup]
  rcases Cursor.lookup_cases h key t with ⟨outcome, stop, hentry, hlookup⟩ | hlookup
  · rw [hlookup]
    exact .inl ⟨outcome, stop, hentry, rfl⟩
  · rw [hlookup]
    exact .inr rfl

theorem remembered_of_miss {t : Ty} {s : State} {key : Key} (h : s.cursor.memoize = true)
    (hnone : s.cursor.cache[(key, s.cursor.position)]? = none) (part : Action t.Elem) :
    part.remembered key s = (do
      let (outcome, after) ← part
        { s with cursor := { s.cursor with misses := s.cursor.misses + 1 } }
      .done (outcome, after.remember key s.position outcome)) := by
  rcases remembered_cases h key part with ⟨outcome, stop, hentry, -⟩ | hmiss
  · exact absurd (hnone.symm.trans hentry) (by simp)
  · exact hmiss

theorem remembered_of_hit {t : Ty} {s : State} {key : Key} {outcome : Outcome t.Elem} {stop : Nat}
    (h : s.cursor.memoize = true)
    (hentry : s.cursor.cache[(key, s.cursor.position)]? = some { ty := t, outcome, stop })
    (part : Action t.Elem) :
    part.remembered key s = .done (outcome,
      { s with cursor := { s.cursor with position := stop, hits := s.cursor.hits + 1 } }) := by
  simp [remembered, State.lookup, Cursor.lookup, h, hentry, Entry.outcomeAt_self]

/-- Repeats an occurrence until it stops matching. -/
def repeatFrom (occurrence : Action α) : (fuel : Nat) → (values : List α) → Action (List α)
  | 0, _, _ => .timeout
  | fuel + 1, values, s => do
    let (outcome, after) ← occurrence s
    let (turn, after) ← .ofExcept (Turn.next s.position values outcome after)
    match turn with
    | .again values => repeatFrom occurrence fuel values after
    | .stop outcome => .done (outcome, after)

/-- One occurrence, and after it a repetition. -/
def repeatFrom1 (occurrence : Action α) (again : List α → Action (List α)) : Action (List α) :=
  fun s => do
    let (outcome, after) ← occurrence s
    match Turn.first s.position outcome after with
    | .again values => again values after
    | .stop outcome => .done (outcome, after)

/-- Runs a part of a new generation. -/
def renewed (part : Nat → Action α) : Action α := fun s =>
  part s.renew.1 s.renew.2

end Action

def Parser.eval : (fuel : Nat) → {t : Ty} → Scope → Parser t → Action t.Elem
  | 0, _, _, _ => fun _ => .timeout
  | fuel + 1, t, scope, p =>
    match p with
    | .atom a => Action.atom a
    | .wrap wrapper p => (eval fuel scope p).wrapped wrapper
    | .bind p captures next =>
      (eval fuel (scope.holding captures) p).chain fun value => eval fuel scope (next value)
    | .sequence items => fun s =>
      let inner := scope.holding (Parser.ownedItems items)
      Action.sequence (fun i => eval fuel inner (items i)) s.position (List.finRange _) [] s
    | .choice first second =>
      (eval fuel (scope.holding second.owned) first).choice (eval fuel scope second)
    | .memo label p => (eval fuel scope p).remembered (scope.key label)
    | .many p => (eval fuel (scope.holding p.owned) p).repeatFrom fuel []
    | .many1 p =>
      let occurrence := eval fuel (scope.holding p.owned) p
      occurrence.repeatFrom1 (occurrence.repeatFrom fuel)
    | .recursive name body => eval fuel (scope.define name body) body
    | .rule name =>
      match scope.resolve name t with
      | some (body, scope) => eval fuel scope body
      | none => fun _ => .fault .ruleDropped
    | .fresh level _ body =>
      .renewed fun generation => eval fuel (scope.renew level generation) (body ())
    | .tick counter p => fun s => eval fuel scope p (s.tick counter)

end ParserKit
