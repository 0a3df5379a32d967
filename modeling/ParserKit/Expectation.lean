/-!
What a failed attempt wanted to see. Alternatives are kept as a tree of sets;
only the leaves matter for a message, and of those with an offset only the
furthest ones.
-/

namespace ParserKit

inductive Expectation where
  /-- No description at all. -/
  | nothing
  /-- A description without an offset of its own. -/
  | message (text : String)
  /-- A description that belongs to an offset. -/
  | positioned (text : String) (offset : Nat)
  /-- Something found at an offset where it does not belong. -/
  | unexpected (found : String) (offset : Nat)
  /-- The alternatives of a choice. -/
  | oneOf (members : List Expectation)
deriving Repr, Inhabited

namespace Expectation

/-- The members of a set, or the expectation itself as the only member. -/
def members : Expectation → List Expectation
  | .oneOf members => members
  | leaf => [leaf]

def merge (first second : Expectation) : Expectation :=
  .oneOf (first.members ++ second.members)

theorem sizeOf_append (members rest : List Expectation) :
    sizeOf (members ++ rest) + 1 = sizeOf members + sizeOf rest := by
  induction members with
  | nil => simp only [List.nil_append, List.nil.sizeOf_spec]; omega
  | cons member members ih =>
    simp only [List.cons_append, List.cons.sizeOf_spec]
    omega

/-- Gathers the nodes that are not sets. The last of the pending nodes is looked
at first, so the members of a set are put off in reverse. -/
def gather (pending found : Array Expectation) : Array Expectation :=
  match _hback : pending.back? with
  | none => found
  | some (.oneOf members) => gather (pending.pop ++ members.reverse) found
  | some leaf => gather pending.pop (found.push leaf)
termination_by sizeOf pending.toList.reverse
decreasing_by
  · obtain ⟨rest, rfl⟩ := Array.back?_eq_some_iff.1 _hback
    have hsize := sizeOf_append members rest.toList.reverse
    simp only [Array.pop_push, Array.toList_push, Array.toList_appendList, List.reverse_append,
      List.reverse_reverse, List.reverse_singleton, List.singleton_append, List.cons.sizeOf_spec,
      oneOf.sizeOf_spec]
    omega
  · obtain ⟨rest, rfl⟩ := Array.back?_eq_some_iff.1 _hback
    simp only [Array.pop_push, Array.toList_push, List.reverse_append, List.reverse_singleton,
      List.singleton_append, List.cons.sizeOf_spec]
    omega

/-- The nodes that are not sets, from left to right. -/
def leaves (expected : Expectation) : List Expectation :=
  (gather #[expected] #[]).toList

/-- The offset that a leaf carries. -/
def ownOffset : Expectation → Option Nat
  | .positioned _ offset => some offset
  | .unexpected _ offset => some offset
  | _ => none

/-- The description that a leaf carries. -/
def ownText : Expectation → Option String
  | .message text => some text
  | .positioned text _ => some text
  | _ => none

/-- The text that a leaf found out of place. -/
def ownFound : Expectation → Option String
  | .unexpected found _ => some found
  | _ => none

/-- The largest offset of a leaf. -/
def offset (expected : Expectation) : Option Nat :=
  (expected.leaves.filterMap ownOffset).max?

/-- The part that is reported: the leaves at the largest offset, and every leaf
without one. Without any offset the whole tree is reported. -/
def furthest (expected : Expectation) : Expectation :=
  match expected.offset with
  | none => expected
  | some furthest =>
    .oneOf (expected.leaves.filter fun leaf =>
      leaf.ownOffset == none || leaf.ownOffset == some furthest)

/-- The descriptions, each once, in the order of their first occurrence. -/
def descriptions (expected : Expectation) : List String :=
  ((expected.leaves.filterMap ownText).filter (· != "")).eraseDups

/-- The first text found out of place. -/
def found (expected : Expectation) : Option String :=
  (expected.leaves.filterMap ownFound).find? (· != "")

end Expectation

/-- What stands for the found text when nothing is left. -/
def endOfInput : String :=
  "end of input"

end ParserKit
