import ParserKit.Parser.Combine

/-!
Assembling a grammar. Some combinators remember outcomes, so each use of them
needs an identity of its own: the labels of a level are handed out in order. A
part that is rebuilt during the run is assembled one level further in.
-/

namespace ParserKit

/-- An assembly step, which knows its level and the next free label of it. -/
abbrev Build := ReaderT Nat (StateM Nat)

namespace Build

variable {a b t : Ty}

/-- The assembled grammar, with labels of the given level. -/
def assemble {α : Type} (build : Build α) (level : Nat) : α :=
  ((build.run level).run 0).1

/-- A label that no other part of this level has. -/
def newLabel : Build Label := fun level index =>
  ({ level, index }, index + 1)

/-- Gives a parser an identity under which its outcomes are remembered. -/
def memo (p : Parser t) : Build (Parser t) := do
  return .memo (← newLabel) p

/-- A failure goes back to the start, so that another alternative is tried. -/
def attempt (p : Parser t) : Build (Parser t) :=
  memo (.wrap .attempt p)

/-- Describes a failure by a message at the start. -/
def label (p : Parser t) (message : String) : Build (Parser t) :=
  memo (.wrap (.label message) p)

def skipMany (p : Parser t) : Build (Parser .unit) :=
  memo (Parser.map (b := .unit) (.many p) fun _ => ())

/-- The first occurrence is required. -/
def skipMany1 (p : Parser t) : Build (Parser .unit) := do
  memo (p.andThen (← skipMany p))

/-- A rule whose definition may refer to the rule. -/
def recursive (define : Parser t → Build (Parser t)) : Build (Parser t) := do
  let name ← newLabel
  return .recursive name (← define (.rule name))

/-- A part that is assembled anew on every run, from parsers that keep the given
rules in use. -/
def fresh (captures : List Label) (part : Build (Parser t)) : Build (Parser t) := do
  let level ← read
  return .fresh (level + 1) captures fun _ => part.assemble (level + 1)

/-- Like bind, for a function that assembles new parsers from the value alone. -/
def bindFresh (p : Parser a) (next : a.Elem → Build (Parser b)) : Build (Parser b) := do
  let level ← read
  return p.followedBy fun value =>
    .fresh (level + 1) [] fun _ => (next value).assemble (level + 1)

end Build

end ParserKit
