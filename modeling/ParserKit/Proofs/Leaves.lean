import Mathlib.Data.List.Lex
import ParserKit.Expectation

/-!
The leaves of an expectation. They are gathered from a stack of pending nodes; what the loop
has still to find are the leaves of the nodes on the stack, topmost first. A node has a path
in the tree, and the order of the paths is the order from left to right. Sets only group:
joining two expectations joins their leaves, and the part that is reported is made of leaves.
Which of them it keeps depends on the largest offset alone, so taking that part twice changes
nothing.
-/

namespace ParserKit.Expectation

/-- Any node that is not a set. -/
def IsLeaf : Expectation → Prop
  | .oneOf _ => False
  | _ => True

/-- The node at a path, which chooses a member of a set at each step. -/
def nodeAt : List Nat → Expectation → Option Expectation
  | [], node => some node
  | i :: path, .oneOf members => members[i]?.bind (nodeAt path)
  | _ :: _, _ => none

/-- A list of all leaves of a tree, in the order of their paths. -/
def FromLeftToRight (tree : Expectation) (leaves : List Expectation) : Prop :=
  ∃ paths : List (List Nat), paths.Pairwise (· < ·) ∧
    (∀ path, path ∈ paths ↔ ∃ leaf, nodeAt path tree = some leaf ∧ leaf.IsLeaf) ∧
    paths.map (nodeAt · tree) = leaves.map some

/-- The largest offset that leaves carry, if one of them carries any. -/
def LargestOffset (leaves : List Expectation) : Option Nat → Prop
  | none => ∀ leaf ∈ leaves, leaf.ownOffset = none
  | some offset => (∃ leaf ∈ leaves, leaf.ownOffset = some offset) ∧
      ∀ leaf ∈ leaves, ∀ own, leaf.ownOffset = some own → own ≤ offset

/-- A leaf that is reported where the furthest offset is the given one. -/
def reported (furthest : Option Nat) (leaf : Expectation) : Bool :=
  leaf.ownOffset == none || leaf.ownOffset == furthest

section Gathering

mutual

/-- The leaves of a tree, those of each member of a set after those of the members before it. -/
def inOrder : Expectation → List Expectation
  | .oneOf members => inOrderOf members
  | .nothing => [.nothing]
  | .message text => [.message text]
  | .positioned text offset => [.positioned text offset]
  | .unexpected found offset => [.unexpected found offset]

def inOrderOf : List Expectation → List Expectation
  | [] => []
  | member :: rest => inOrder member ++ inOrderOf rest

end

theorem inOrderOf_append (first second : List Expectation) :
    inOrderOf (first ++ second) = inOrderOf first ++ inOrderOf second := by
  induction first with
  | nil => rfl
  | cons member rest ih => rw [List.cons_append, inOrderOf, inOrderOf, ih, List.append_assoc]

/-- The loop adds the leaves of the pending nodes, from the last one to the first. -/
theorem toList_gather (pending found : Array Expectation) :
    (gather pending found).toList = found.toList ++ inOrderOf pending.toList.reverse := by
  fun_induction gather pending found with
  | case1 pending found hback =>
    obtain rfl := Array.back?_eq_none_iff.1 hback
    simp [inOrderOf]
  | case2 pending found members hback ih =>
    obtain ⟨rest, rfl⟩ := Array.back?_eq_some_iff.1 hback
    rw [ih]
    simp [inOrderOf_append, inOrderOf, inOrder]
  | case3 pending found leaf hleaf hback ih =>
    obtain ⟨rest, rfl⟩ := Array.back?_eq_some_iff.1 hback
    have hself : inOrder leaf = [leaf] := by
      cases leaf with
      | oneOf members => exact absurd rfl (hleaf members)
      | _ => rfl
    rw [ih]
    simp [inOrderOf, hself]

theorem leaves_eq_inOrder (tree : Expectation) : tree.leaves = inOrder tree := by
  simp [leaves, toList_gather, inOrderOf]

theorem leaves_oneOf (members : List Expectation) :
    (oneOf members).leaves = members.flatMap leaves := by
  rw [leaves_eq_inOrder, inOrder]
  induction members with
  | nil => rfl
  | cons member rest ih => rw [inOrderOf, List.flatMap_cons, leaves_eq_inOrder, ih]

theorem leaves_of_isLeaf {leaf : Expectation} (h : leaf.IsLeaf) : leaf.leaves = [leaf] := by
  rw [leaves_eq_inOrder]
  cases leaf with
  | oneOf members => exact absurd h id
  | _ => rfl

@[simp] theorem leaves_nothing : nothing.leaves = [nothing] :=
  leaves_of_isLeaf trivial

@[simp] theorem leaves_message (text : String) : (message text).leaves = [message text] :=
  leaves_of_isLeaf trivial

@[simp] theorem leaves_positioned (text : String) (offset : Nat) :
    (positioned text offset).leaves = [positioned text offset] :=
  leaves_of_isLeaf trivial

@[simp] theorem leaves_unexpected (found : String) (offset : Nat) :
    (unexpected found offset).leaves = [unexpected found offset] :=
  leaves_of_isLeaf trivial

end Gathering

section Paths

mutual

/-- The paths of the leaves, from left to right. -/
def leafPaths : Expectation → List (List Nat)
  | .oneOf members => leafPathsFrom 0 members
  | .nothing => [[]]
  | .message _ => [[]]
  | .positioned _ _ => [[]]
  | .unexpected _ _ => [[]]

def leafPathsFrom (i : Nat) : List Expectation → List (List Nat)
  | [] => []
  | member :: rest => (leafPaths member).map (i :: ·) ++ leafPathsFrom (i + 1) rest

end

theorem mem_leafPathsFrom {i : Nat} {members : List Expectation} {path : List Nat} :
    path ∈ leafPathsFrom i members ↔ ∃ j member rest, members[j]? = some member ∧
      rest ∈ leafPaths member ∧ path = (i + j) :: rest := by
  induction members generalizing i with
  | nil => simp [leafPathsFrom]
  | cons first later ih =>
    rw [leafPathsFrom, List.mem_append, List.mem_map, ih]
    constructor
    · rintro (⟨rest, hrest, rfl⟩ | ⟨j, member, rest, hj, hrest, rfl⟩)
      · exact ⟨0, first, rest, rfl, hrest, rfl⟩
      · exact ⟨j + 1, member, rest, hj, hrest, by rw [Nat.add_assoc, Nat.add_comm 1]⟩
    · rintro ⟨j, member, rest, hj, hrest, rfl⟩
      cases j with
      | zero =>
        obtain rfl := Option.some.inj hj
        exact .inl ⟨rest, hrest, rfl⟩
      | succ j => exact .inr ⟨j, member, rest, hj, hrest, by rw [Nat.add_assoc, Nat.add_comm 1]⟩

theorem mem_leafPaths {path : List Nat} {tree : Expectation} :
    path ∈ leafPaths tree ↔ ∃ leaf, nodeAt path tree = some leaf ∧ leaf.IsLeaf := by
  induction path generalizing tree with
  | nil =>
    cases tree with
    | oneOf members => simp [leafPaths, mem_leafPathsFrom, nodeAt, IsLeaf]
    | _ => simp [leafPaths, nodeAt, IsLeaf]
  | cons i path ih =>
    cases tree with
    | oneOf members =>
      simp only [leafPaths, mem_leafPathsFrom, nodeAt, Option.bind_eq_some_iff]
      constructor
      · rintro ⟨j, member, rest, hj, hrest, hpath⟩
        obtain ⟨rfl, rfl⟩ := List.cons.inj hpath
        obtain ⟨leaf, hleaf, hkind⟩ := ih.1 hrest
        rw [Nat.zero_add]
        exact ⟨leaf, ⟨member, hj, hleaf⟩, hkind⟩
      · rintro ⟨leaf, ⟨member, hi, hleaf⟩, hkind⟩
        exact ⟨i, member, path, hi, ih.2 ⟨leaf, hleaf, hkind⟩, by rw [Nat.zero_add]⟩
    | _ => simp [leafPaths, nodeAt]

mutual

theorem leafPaths_ascend : (tree : Expectation) → (leafPaths tree).Pairwise (· < ·)
  | .oneOf members => leafPathsFrom_ascend 0 members
  | .nothing => List.pairwise_singleton _ _
  | .message _ => List.pairwise_singleton _ _
  | .positioned _ _ => List.pairwise_singleton _ _
  | .unexpected _ _ => List.pairwise_singleton _ _

theorem leafPathsFrom_ascend (i : Nat) :
    (members : List Expectation) → (leafPathsFrom i members).Pairwise (· < ·)
  | [] => List.Pairwise.nil
  | member :: rest => by
    rw [leafPathsFrom, List.pairwise_append, List.pairwise_map]
    refine ⟨(leafPaths_ascend member).imp fun h => List.cons_lt_cons_iff.2 (.inr ⟨rfl, h⟩),
      leafPathsFrom_ascend (i + 1) rest, ?_⟩
    intro path hpath path' hpath'
    obtain ⟨tail, -, rfl⟩ := List.mem_map.1 hpath
    obtain ⟨j, _, tail', -, -, rfl⟩ := mem_leafPathsFrom.1 hpath'
    exact List.cons_lt_cons_iff.2 (.inl (by omega))

end

mutual

/-- At the paths of the leaves the leaves are found. -/
theorem map_nodeAt_leafPaths :
    (tree : Expectation) → (leafPaths tree).map (nodeAt · tree) = tree.leaves.map some
  | .oneOf members => by
    rw [leaves_oneOf]
    exact map_nodeAt_leafPathsFrom [] members
  | .nothing => by rw [leaves_nothing]; rfl
  | .message _ => by rw [leaves_message]; rfl
  | .positioned _ _ => by rw [leaves_positioned]; rfl
  | .unexpected _ _ => by rw [leaves_unexpected]; rfl

theorem map_nodeAt_leafPathsFrom (before : List Expectation) : (members : List Expectation) →
    (leafPathsFrom before.length members).map (nodeAt · (.oneOf (before ++ members))) =
      (members.flatMap leaves).map some
  | [] => rfl
  | member :: rest => by
    have hfirst : (before ++ member :: rest)[before.length]? = some member := by simp
    have hlater := map_nodeAt_leafPathsFrom (before ++ [member]) rest
    rw [List.append_assoc, List.singleton_append, List.length_append, List.length_singleton]
      at hlater
    rw [leafPathsFrom, List.flatMap_cons, List.map_append, List.map_append, hlater,
      ← map_nodeAt_leafPaths member, List.map_map]
    congr 1
    refine List.map_congr_left fun path _ => ?_
    simp only [Function.comp_apply, nodeAt, hfirst, Option.bind_some]

end

theorem leaves_fromLeftToRight (tree : Expectation) : FromLeftToRight tree tree.leaves :=
  ⟨leafPaths tree, leafPaths_ascend tree, fun _ => mem_leafPaths, map_nodeAt_leafPaths tree⟩

end Paths

section Grouping

theorem leaves_members (tree : Expectation) : tree.members.flatMap leaves = tree.leaves := by
  cases tree with
  | oneOf members => exact (leaves_oneOf members).symm
  | _ => exact List.flatMap_singleton _ _

theorem leaves_merge (first second : Expectation) :
    (first.merge second).leaves = first.leaves ++ second.leaves := by
  rw [merge, leaves_oneOf, List.flatMap_append, leaves_members, leaves_members]

mutual

theorem isLeaf_of_mem_inOrder {leaf : Expectation} :
    (tree : Expectation) → leaf ∈ inOrder tree → leaf.IsLeaf
  | .oneOf members, h => isLeaf_of_mem_inOrderOf members h
  | .nothing, h => List.mem_singleton.1 h ▸ trivial
  | .message _, h => List.mem_singleton.1 h ▸ trivial
  | .positioned _ _, h => List.mem_singleton.1 h ▸ trivial
  | .unexpected _ _, h => List.mem_singleton.1 h ▸ trivial

theorem isLeaf_of_mem_inOrderOf {leaf : Expectation} :
    (members : List Expectation) → leaf ∈ inOrderOf members → leaf.IsLeaf
  | [], h => absurd h List.not_mem_nil
  | member :: rest, h =>
    (List.mem_append.1 h).elim (isLeaf_of_mem_inOrder member) (isLeaf_of_mem_inOrderOf rest)

end

theorem isLeaf_of_mem_leaves {leaf tree : Expectation} (h : leaf ∈ tree.leaves) : leaf.IsLeaf :=
  isLeaf_of_mem_inOrder tree (leaves_eq_inOrder tree ▸ h)

/-- A set of leaves has these leaves. -/
theorem leaves_of_forall_isLeaf {members : List Expectation} (h : ∀ leaf ∈ members, leaf.IsLeaf) :
    (oneOf members).leaves = members := by
  rw [leaves_oneOf, List.flatMap_congr fun leaf hleaf => leaves_of_isLeaf (h leaf hleaf),
    List.flatMap_singleton']

end Grouping

section Offsets

variable {tree : Expectation} {leaves : List Expectation} {own : Nat}

theorem mem_ownOffsets :
    own ∈ leaves.filterMap ownOffset ↔ ∃ leaf ∈ leaves, leaf.ownOffset = some own :=
  List.mem_filterMap

theorem max?_append (xs ys : List Nat) : (xs ++ ys).max? = max xs.max? ys.max? := by
  induction xs with
  | nil => simp
  | cons x xs ih =>
    rw [List.cons_append, List.max?_cons, List.max?_cons, ih]
    cases xs.max? <;> cases ys.max? <;> simp [Nat.max_assoc]

theorem offset_merge (first second : Expectation) :
    (first.merge second).offset = max first.offset second.offset := by
  rw [offset, leaves_merge, List.filterMap_append, max?_append, ← offset, ← offset]

theorem offset_largest (tree : Expectation) : LargestOffset tree.leaves tree.offset := by
  unfold offset
  cases hoffset : (tree.leaves.filterMap ownOffset).max? with
  | none => exact List.filterMap_eq_nil_iff.1 (List.max?_eq_none_iff.1 hoffset)
  | some furthest =>
    obtain ⟨hmem, hmax⟩ := List.max?_eq_some_iff.1 hoffset
    exact ⟨mem_ownOffsets.1 hmem, fun leaf hleaf own hown =>
      hmax own (mem_ownOffsets.2 ⟨leaf, hleaf, hown⟩)⟩

/-- The largest offset is only one. -/
theorem LargestOffset.offset_eq {furthest : Option Nat} (h : LargestOffset tree.leaves furthest) :
    tree.offset = furthest := by
  cases furthest with
  | none => exact List.max?_eq_none_iff.2 (List.filterMap_eq_nil_iff.2 h)
  | some furthest =>
    obtain ⟨hmem, hmax⟩ := h
    refine List.max?_eq_some_iff.2 ⟨mem_ownOffsets.2 hmem, fun own hown => ?_⟩
    obtain ⟨leaf, hleaf, hown⟩ := mem_ownOffsets.1 hown
    exact hmax leaf hleaf own hown

theorem reported_of_ownOffset {furthest : Option Nat} {leaf : Expectation}
    (h : leaf.ownOffset = furthest) : reported furthest leaf = true := by
  simp [reported, h]

/-- The part that is reported has the leaves that are reported. -/
theorem leaves_furthest (tree : Expectation) :
    tree.furthest.leaves = tree.leaves.filter (reported tree.offset) := by
  unfold furthest
  cases hoffset : tree.offset with
  | none =>
    have hnone : ∀ leaf ∈ tree.leaves, leaf.ownOffset = none := by
      have hlargest := offset_largest tree
      rwa [hoffset] at hlargest
    exact (List.filter_eq_self.2 fun leaf hleaf => reported_of_ownOffset (hnone leaf hleaf)).symm
  | some furthest =>
    exact leaves_of_forall_isLeaf fun leaf hleaf =>
      isLeaf_of_mem_leaves (List.mem_of_mem_filter hleaf)

theorem offset_furthest (tree : Expectation) : tree.furthest.offset = tree.offset := by
  have hlargest := offset_largest tree
  apply LargestOffset.offset_eq
  rw [leaves_furthest]
  cases hoffset : tree.offset with
  | none =>
    rw [hoffset] at hlargest
    exact fun leaf hleaf => hlargest leaf (List.mem_of_mem_filter hleaf)
  | some furthest =>
    rw [hoffset] at hlargest
    obtain ⟨⟨leaf, hleaf, hown⟩, hmax⟩ := hlargest
    exact ⟨⟨leaf, List.mem_filter.2 ⟨hleaf, reported_of_ownOffset hown⟩, hown⟩,
      fun leaf hleaf => hmax leaf (List.mem_of_mem_filter hleaf)⟩

/-- What is reported of the part that is reported is all of it. -/
theorem furthest_furthest (tree : Expectation) : tree.furthest.furthest = tree.furthest := by
  have hsame := offset_furthest tree
  have hleaves := leaves_furthest tree
  cases hoffset : tree.offset with
  | none =>
    have hwhole : tree.furthest = tree := by simp only [furthest, hoffset]
    rw [hwhole, hwhole]
  | some furthest =>
    rw [hoffset] at hsame hleaves
    have hpart : tree.furthest = .oneOf (tree.leaves.filter (reported (some furthest))) := by
      simp only [Expectation.furthest, hoffset]
      rfl
    have hagain : tree.furthest.furthest =
        .oneOf (tree.furthest.leaves.filter (reported (some furthest))) := by
      rw [Expectation.furthest.eq_def tree.furthest, hsame]
      rfl
    rw [hagain, hleaves, List.filter_filter, hpart]
    simp only [Bool.and_self]

end Offsets

end ParserKit.Expectation
