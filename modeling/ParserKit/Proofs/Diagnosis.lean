import Mathlib.Data.List.Infix
import ParserKit.Proofs.Leaves
import ParserKit.Proofs.Rendering

/-!
What a rendered failure tells. All of it is read off the leaves of the expectation: the place
is the furthest one that they carry, and what was expected there, and what was found, come from
the leaves of that place and from those of no place. How the leaves were grouped does not show.
-/

namespace ParserKit

/-- Some of the texts, in the order in which they first occur. -/
structure ListsOnce (texts listed : List String) : Prop where
  nodup : listed.Nodup
  mem_iff : ∀ text, text ∈ listed ↔ text ∈ texts
  inOrder : listed.Pairwise fun earlier later => texts.idxOf earlier < texts.idxOf later

theorem listsOnce_of_inOrder {texts listed : List String}
    (hmem : ∀ text, text ∈ listed ↔ text ∈ texts)
    (horder : listed.Pairwise fun earlier later => texts.idxOf earlier < texts.idxOf later) :
    ListsOnce texts listed where
  nodup := List.Pairwise.imp (fun hlt heq => Nat.ne_of_lt hlt (congrArg texts.idxOf heq)) horder
  mem_iff := hmem
  inOrder := horder

/-- One more text is listed at the end, if it is new. -/
theorem eraseDups_concat (texts : List String) (text : String) :
    (texts ++ [text]).eraseDups = texts.eraseDups ++ if text ∈ texts then [] else [text] := by
  rw [List.eraseDups_append]
  by_cases hmem : text ∈ texts <;> simp [List.removeAll, List.eraseDups_cons, hmem]

theorem eraseDups_listsOnce (texts : List String) : ListsOnce texts texts.eraseDups := by
  refine listsOnce_of_inOrder (fun _ => List.mem_eraseDups) ?_
  induction texts using List.reverseRecOn with
  | nil => exact List.Pairwise.nil
  | append_singleton texts text ih =>
    have hbefore : texts.eraseDups.Pairwise fun earlier later =>
        (texts ++ [text]).idxOf earlier < (texts ++ [text]).idxOf later := by
      refine ih.imp_of_mem fun hearlier hlater hlt => ?_
      rwa [List.idxOf_append_of_mem (List.mem_eraseDups.1 hearlier),
        List.idxOf_append_of_mem (List.mem_eraseDups.1 hlater)]
    rw [eraseDups_concat]
    by_cases hmem : text ∈ texts
    · rwa [if_pos hmem, List.append_nil]
    · rw [if_neg hmem, List.pairwise_append]
      refine ⟨hbefore, List.pairwise_singleton _ _, fun earlier hearlier later hlater => ?_⟩
      obtain rfl := List.mem_singleton.1 hlater
      rw [List.idxOf_append_of_mem (List.mem_eraseDups.1 hearlier),
        List.idxOf_append_of_notMem hmem]
      exact Nat.lt_add_right _ (List.idxOf_lt_length_of_mem (List.mem_eraseDups.1 hearlier))

namespace Expectation

/-- What a leaf adds to the list of what was expected at a place. -/
def wanted (place : Option Nat) : Expectation → Option String
  | .message text => if text = "" then none else some text
  | .positioned text offset => if text ≠ "" ∧ some offset = place then some text else none
  | _ => none

/-- What a leaf found at a place. -/
def misplaced (place : Option Nat) : Expectation → Option String
  | .unexpected found offset => if found ≠ "" ∧ some offset = place then some found else none
  | _ => none

variable (tree : Expectation) (place : Option Nat) (leaf : Expectation)

theorem ownText_reported : (if reported place leaf = true then
    leaf.ownText.filter (· != "") else none) = leaf.wanted place := by
  cases leaf with
  | message text =>
    by_cases htext : text = "" <;> simp [reported, ownOffset, ownText, wanted, htext]
  | positioned text offset =>
    by_cases htext : text = "" <;> by_cases hplace : some offset = place <;>
      simp [reported, ownOffset, ownText, wanted, htext, hplace]
  | _ => simp [ownText, wanted]

theorem ownFound_reported : (if reported place leaf = true then
    leaf.ownFound.filter (· != "") else none) = leaf.misplaced place := by
  cases leaf with
  | unexpected found offset =>
    by_cases hfound : found = "" <;> by_cases hplace : some offset = place <;>
      simp [reported, ownOffset, ownFound, misplaced, hfound, hplace]
  | _ => simp [ownFound, misplaced]

theorem descriptions_furthest : tree.furthest.descriptions =
    (tree.leaves.filterMap (wanted tree.offset)).eraseDups := by
  rw [descriptions, List.filter_filterMap, leaves_furthest, List.filterMap_filter]
  simp only [ownText_reported]

theorem found_furthest : tree.furthest.found =
    tree.leaves.findSome? (misplaced tree.offset) := by
  rw [found, ← List.head?_filter, List.filter_filterMap, leaves_furthest, List.filterMap_filter,
    List.head?_filterMap]
  simp only [ownFound_reported]

end Expectation

namespace Diagnostic

open Expectation

/-- A piece of the input at an offset, no longer than a message quotes. -/
inductive Excerpt (input : Array Char) (offset : Nat) : String → Prop
  | ended : offset = input.size → Excerpt input offset "end of input"
  | quoted {chars : List Char} : chars ≠ [] → chars.length ≤ 6 →
      chars <+: input.toList.drop offset → Excerpt input offset (String.ofList chars)

/-- What stands at a place as the text that does not belong there. -/
inductive Finds (leaves : List Expectation) (place : Option Nat) (input : Array Char)
    (offset : Nat) : String → Prop
  | leaf {before after : List Expectation} {leaf : Expectation} {text : String} :
      leaves = before ++ leaf :: after → (∀ earlier ∈ before, earlier.misplaced place = none) →
      leaf.misplaced place = some text → Finds leaves place input offset text
  | excerpt {text : String} : (∀ leaf ∈ leaves, leaf.misplaced place = none) →
      Excerpt input offset text → Finds leaves place input offset text

/-- What the leaves of an expectation tell, when the largest offset they carry is given. -/
structure Tells (leaves : List Expectation) (furthest : Option Nat) (cursor : Cursor)
    (diagnostic : Diagnostic) : Prop where
  largest : LargestOffset leaves furthest
  offset : diagnostic.offset = min (furthest.getD cursor.position) cursor.input.size
  expected : ListsOnce (leaves.filterMap (wanted furthest)) diagnostic.expected
  unexpected : Finds leaves furthest cursor.input diagnostic.offset diagnostic.unexpected

variable {input : Array Char} {failure failure' : Failure} {cursor : Cursor}

theorem snippetWidth_le (expected : List String) : snippetWidth expected ≤ maxSnippet :=
  Nat.min_le_right _ _

theorem one_le_snippetWidth (expected : List String) : 1 ≤ snippetWidth expected :=
  Nat.le_min.2 ⟨Nat.le_max_right _ _, by decide⟩

/-- The excerpt is empty at the end only, since its width is not zero. -/
theorem snippet_excerpt {offset width : Nat} (hoffset : offset ≤ input.size) (hpos : 1 ≤ width)
    (hwidth : width ≤ 6) (hroom : input.size + width < Index.limit) :
    Delivers (snippet input offset width) (Excerpt input offset) := by
  refine (Delivers.add (a := offset) (b := width) (by omega)).bind fun stop hstop => ?_
  have hslice : Delivers (sliceChars input offset (min stop input.size))
      (· = input.extract offset (min stop input.size)) :=
    ⟨_, sliceChars_eq_ok (by omega) (by omega), rfl⟩
  refine hslice.bind fun chars hchars => .ok ?_
  have hlength : chars.toList.length = min stop input.size - offset := by
    rw [hchars, Array.length_toList, Array.size_extract, Nat.min_assoc, Nat.min_self]
  cases hempty : chars.isEmpty with
  | true =>
    have hnone : chars.toList.length = 0 := by simpa using hempty
    exact .ended (by omega)
  | false =>
    refine .quoted (fun hnil => ?_) (by omega) ?_
    · rw [Array.toList_eq_nil_iff] at hnil
      simp [hnil] at hempty
    · rw [hchars, Array.toList_extract]
      exact List.take_prefix _ _

/-- Any failure on a text that fits into memory can be rendered. -/
theorem ofFailure_rendered (failure : Failure) (h : Fits cursor.input) :
    Delivers (ofFailure failure cursor) fun diagnostic =>
      Tells failure.expected.leaves failure.expected.offset cursor diagnostic ∧
        diagnostic.Placed cursor.input := by
  have hroom := h.room
  have hlargest := offset_largest failure.expected
  have hlists := eraseDups_listsOnce (failure.expected.leaves.filterMap
    (wanted failure.expected.offset))
  have hoffset := Nat.min_le_right (failure.expected.offset.getD cursor.position)
    cursor.input.size
  unfold ofFailure
  simp only [offset_furthest, descriptions_furthest, found_furthest]
  cases hfound : failure.expected.leaves.findSome? (misplaced failure.expected.offset) with
  | some text =>
    obtain ⟨before, leaf, after, hleaves, hleaf, hbefore⟩ := List.findSome?_eq_some_iff.1 hfound
    exact place_delivers h hoffset
      ⟨⟨hlargest, rfl, hlists, .leaf hleaves hbefore hleaf⟩, hoffset, rfl, rfl⟩
  | none =>
    have hnone := List.findSome?_eq_none_iff.1 hfound
    refine (snippet_excerpt hoffset (one_le_snippetWidth _) (snippetWidth_le _)
      (Nat.lt_of_le_of_lt (Nat.add_le_add_left (snippetWidth_le _) _) ?_)).bind
      fun text htext => ?_
    · show cursor.input.size + 6 < Index.limit
      omega
    · exact place_delivers h hoffset
        ⟨⟨hlargest, rfl, hlists, .excerpt hnone htext⟩, hoffset, rfl, rfl⟩

theorem ofFailure_tells (failure : Failure) (h : Fits cursor.input) :
    Delivers (ofFailure failure cursor)
      (Tells failure.expected.leaves failure.expected.offset cursor) :=
  (ofFailure_rendered failure h).mono fun _ h => h.1

theorem ofFailure_delivers (failure : Failure) {cursor : Cursor} (h : Fits cursor.input) :
    Delivers (ofFailure failure cursor) fun _ => True :=
  (ofFailure_rendered failure h).mono fun _ _ => trivial

theorem ofFailure_congr (h : failure.expected.leaves = failure'.expected.leaves) :
    ofFailure failure cursor = ofFailure failure' cursor := by
  have hoffset : failure.expected.offset = failure'.expected.offset := by
    rw [Expectation.offset, h, ← Expectation.offset]
  unfold ofFailure
  simp only [offset_furthest, descriptions_furthest, found_furthest, h, hoffset]

/-- Joining and grouping expectations shows in their leaves alone, and a failure is told by
its leaves. -/
theorem leaves_rendered (first second : Expectation) (failure failure' : Failure)
    (cursor : Cursor) (hfits : Fits cursor.input) :
    FromLeftToRight first first.leaves ∧
      (first.merge second).leaves = first.leaves ++ second.leaves ∧
      (first.merge second).offset = max first.offset second.offset ∧
      first.furthest.furthest = first.furthest ∧
      first.furthest.offset = first.offset ∧
      (∃ diagnostic, ofFailure failure cursor = .ok diagnostic ∧
        Tells failure.expected.leaves failure.expected.offset cursor diagnostic) ∧
      (failure.expected.leaves = failure'.expected.leaves →
        ofFailure failure cursor = ofFailure failure' cursor) :=
  ⟨leaves_fromLeftToRight first, leaves_merge first second, offset_merge first second,
    furthest_furthest first, offset_furthest first, ofFailure_tells failure hfits,
    ofFailure_congr⟩

/-- Three alternatives, grouped from the left and from the right. -/
theorem leaves_rendered_nested :
    Fits #['x', 'y'] ∧ ∃ diagnostic,
      ofFailure ⟨.oneOf [.oneOf [.message "a", .positioned "b" 1], .unexpected "y" 1], false⟩
        { input := #['x', 'y'] } = .ok diagnostic ∧
      ofFailure ⟨.oneOf [.message "a", .oneOf [.positioned "b" 1, .unexpected "y" 1]], true⟩
        { input := #['x', 'y'] } = .ok diagnostic := by
  have hfits : Fits #['x', 'y'] := by unfold Fits; decide
  obtain ⟨-, -, -, -, -, ⟨diagnostic, hok, -⟩, hsame⟩ := leaves_rendered
    (.message "a") (.positioned "b" 1)
    ⟨.oneOf [.oneOf [.message "a", .positioned "b" 1], .unexpected "y" 1], false⟩
    ⟨.oneOf [.message "a", .oneOf [.positioned "b" 1, .unexpected "y" 1]], true⟩
    { input := #['x', 'y'] } hfits
  exact ⟨hfits, diagnostic, hok, (hsame (by simp [leaves_oneOf])).symm.trans hok⟩

end Diagnostic

end ParserKit
