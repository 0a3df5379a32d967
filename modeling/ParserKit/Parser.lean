import ParserKit.Atom
import ParserKit.Wrapper

/-!
Grammars as data. A parser delivers values of one type; functions appear where a
later parser depends on an earlier value. Whatever is shared in a grammar is
named by a label: the identity of a memoized parser, and a recursive rule.

A rule is kept in use by the parsers that contain its definition, not by those
that only refer to it. `Parser.owned` lists the rules that a parser keeps; for a
function that makes parsers the list is given with it.

A grammar is a well-founded tree, and a rule takes no argument. So whatever recurs does
so through a rule, which stands for one parser in each generation. Left out are grammars
without such a tree: those where the function of a bind, or the body of a rebuilt part,
calls the function that it is itself part of again with another argument, such as the
parser for what is indented deeper than a column that was read before.
-/

namespace ParserKit

/-- A name inside a grammar. The level counts how many times the surrounding
part is rebuilt during a run; level zero is built once. -/
structure Label where
  level : Nat
  index : Nat
deriving DecidableEq, Repr

namespace Label

/-- Two lists of labels as one, each label of the second added once. -/
def join (first second : List Label) : List Label :=
  second.foldl (fun labels label => if labels.contains label then labels else label :: labels) first

theorem mem_join {first second : List Label} {label : Label} :
    label ∈ join first second ↔ label ∈ first ∨ label ∈ second := by
  simp only [join]
  induction second generalizing first with
  | nil => simp
  | cons head rest ih =>
    simp only [List.foldl_cons, ih, List.mem_cons]
    by_cases h : first.contains head = true
    · have hmem : head ∈ first := by simpa using h
      simp only [h, if_true]
      constructor
      · rintro (hl | hl)
        · exact .inl hl
        · exact .inr (.inr hl)
      · rintro (hl | rfl | hl)
        · exact .inl hl
        · exact .inl hmem
        · exact .inr hl
    · simp only [h, if_false, List.mem_cons, Bool.false_eq_true]
      constructor
      · rintro ((rfl | hl) | hl)
        · exact .inr (.inl rfl)
        · exact .inl hl
        · exact .inr (.inr hl)
      · rintro (hl | rfl | hl)
        · exact .inl (.inr hl)
        · exact .inl (.inl rfl)
        · exact .inr hl

/-- The rules that a rule keeps besides those of its body: itself, unless it is
built once and so belongs to the whole grammar. -/
def own (name : Label) : List Label :=
  if name.level = 0 then [] else [name]

end Label

inductive Parser : Ty → Type where
  | atom {t : Ty} (atom : Atom t) : Parser t
  /-- Runs a parser and treats its outcome. -/
  | wrap {a b : Ty} (wrapper : Wrapper a b) (p : Parser a) : Parser b
  /-- Runs the parser that is made from the value of another one. -/
  | bind {a b : Ty} (p : Parser a) (captures : List Label) (next : a.Elem → Parser b) : Parser b
  /-- Runs parsers in order and collects the values that are present. -/
  | sequence {t : Ty} {n : Nat} (items : Fin n → Parser (.option t)) : Parser (.list t)
  /-- Runs the second parser when the first fails without consuming. -/
  | choice {t : Ty} (first second : Parser t) : Parser t
  /-- Reuses the outcome at a position when outcomes are remembered. -/
  | memo {t : Ty} (label : Label) (p : Parser t) : Parser t
  /-- Any number of occurrences. -/
  | many {t : Ty} (p : Parser t) : Parser (.list t)
  /-- At least one occurrence. -/
  | many1 {t : Ty} (p : Parser t) : Parser (.list t)
  /-- Defines a rule that its own body may refer to. -/
  | recursive {t : Ty} (name : Label) (body : Parser t) : Parser t
  /-- Refers to an enclosing rule. -/
  | rule {t : Ty} (name : Label) : Parser t
  /-- Rebuilds a parser on every run: its labels of the level become new ones. -/
  | fresh {t : Ty} (level : Nat) (captures : List Label) (body : Unit → Parser t) : Parser t
  /-- Counts the runs of a parser. -/
  | tick {t : Ty} (counter : Nat) (p : Parser t) : Parser t
with
  @[computed_field]
  ownedAt : (t : Ty) → Parser t → List Label
    | _, .atom _ => []
    | _, .wrap _ p => ownedAt _ p
    | _, .bind p captures _ => Label.join (ownedAt _ p) captures
    | _, .sequence items =>
      (List.finRange _).foldl (fun labels i => Label.join labels (ownedAt _ (items i))) []
    | _, .choice first second => Label.join (ownedAt _ first) (ownedAt _ second)
    | _, .memo _ p => ownedAt _ p
    | _, .many p => ownedAt _ p
    | _, .many1 p => ownedAt _ p
    | _, .recursive name body => Label.join (ownedAt _ body) name.own
    | _, .rule _ => []
    | _, .fresh _ captures _ => captures
    | _, .tick _ p => ownedAt _ p

namespace Parser

/-- The rules of rebuilt parts that a parser keeps in use. -/
def owned {t : Ty} (p : Parser t) : List Label :=
  ownedAt t p

/-- The rules that the items of a sequence keep in use. -/
def ownedItems {t : Ty} {n : Nat} (items : Fin n → Parser t) : List Label :=
  (List.finRange n).foldl (fun labels i => Label.join labels (items i).owned) []

end Parser

end ParserKit
