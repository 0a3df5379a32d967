import ParserKit.Parser

/-!
What a parser can refer to while it runs: the rules that enclose it, and the
generations that its labels belong to. A rule is found by its key, so a part that
was rebuilt never finds a rule of an earlier generation, and it runs in the scope
of its own definition.

A rule of a part that is rebuilt during the run stays in use only as long as
some parser that waits to go on contains its definition. Afterwards the rule is
dropped, and referring to it is a fault. Rules that are built once belong to the
whole grammar and are never dropped.
-/

namespace ParserKit

/-- The definition of a rule, with the generations in force where it stands. -/
structure Rule where
  key : Key
  ty : Ty
  body : Parser ty
  generations : List (Nat × Nat)

structure Scope where
  /-- The enclosing rules, innermost first. -/
  rules : List Rule := []
  /-- The generation of each level that was rebuilt, latest first. -/
  generations : List (Nat × Nat) := []
  /-- The rules of rebuilt parts that waiting parsers contain. -/
  held : List Key := []

/-- The generation of a level. Level zero is built once, and it and a level that
was never rebuilt have generation zero. -/
def generationOf (generations : List (Nat × Nat)) (level : Nat) : Nat :=
  if level = 0 then 0 else ((generations.find? (·.1 == level)).map (·.2)).getD 0

namespace Scope

/-- The scope of a whole grammar. -/
def root : Scope := {}

def key (scope : Scope) (label : Label) : Key :=
  { generation := generationOf scope.generations label.level, index := label.index }

/-- The scope of a part while a parser with the given rules waits for it. -/
def holding (scope : Scope) (labels : List Label) : Scope :=
  { scope with held := labels.foldl (fun held label => scope.key label :: held) scope.held }

/-- The scope of a part that was just rebuilt. -/
def renew (scope : Scope) (level generation : Nat) : Scope :=
  { scope with generations := (level, generation) :: scope.generations }

/-- The scope of the body of a rule. -/
def define {t : Ty} (scope : Scope) (name : Label) (body : Parser t) : Scope :=
  let rule : Rule := { key := scope.key name, ty := t, body, generations := scope.generations }
  { scope with rules := rule :: scope.rules }

/-- Whether the rule with the key is in use: it was built once, or something
that waits contains it. -/
def keeps (scope : Scope) (key : Key) : Bool :=
  key.generation == 0 || scope.held.contains key

/-- The enclosing rules from the one with the key outwards. -/
def rulesFrom (scope : Scope) (key : Key) : List Rule :=
  scope.rules.dropWhile (·.key != key)

/-- The body of a rule and the scope it runs in, if the rule is in scope, was
not dropped and has the wanted type. -/
def resolve (scope : Scope) (name : Label) (t : Ty) : Option (Parser t × Scope) :=
  match scope.rulesFrom (scope.key name) with
  | [] => none
  | rule :: outer =>
    if scope.keeps rule.key then
      if h : rule.ty = t then
        some (h ▸ rule.body, { scope with rules := rule :: outer, generations := rule.generations })
      else none
    else none

theorem keeps_iff {scope : Scope} {key : Key} :
    scope.keeps key = true ↔ key.generation = 0 ∨ key ∈ scope.held := by
  simp [keeps]

theorem mem_held_holding {scope : Scope} {labels : List Label} {key : Key} :
    key ∈ (scope.holding labels).held ↔
      (∃ label ∈ labels, scope.key label = key) ∨ key ∈ scope.held := by
  simp only [holding]
  generalize scope.held = held
  induction labels generalizing held with
  | nil => simp
  | cons label rest ih =>
    simp only [List.foldl_cons, ih, List.mem_cons, exists_eq_or_imp, @eq_comm _ key]
    constructor
    · rintro (h | h | h)
      · exact .inl (.inr h)
      · exact .inl (.inl h)
      · exact .inr h
    · rintro ((h | h) | h)
      · exact .inr (.inl h)
      · exact .inl h
      · exact .inr (.inr h)

end Scope

end ParserKit
