import Mathlib.Data.Nat.Digits.Defs
import ParserKit.Diagnostic
import ParserKit.Proofs.LineBreaks

/-!
Finding the place of a failure does not break off. On a text that fits into memory none of the
counters overflows, of lines and columns and of the pointer under a column, so that the place
and the context of an offset can be given in closed form.
-/

namespace ParserKit

/-- A computation that does not break off, with what holds of its value. -/
def Delivers {α : Type} (x : Except Fault α) (post : α → Prop) : Prop :=
  ∃ value, x = .ok value ∧ post value

namespace Delivers

variable {α β : Type}

theorem ok {post : α → Prop} {value : α} (h : post value) : Delivers (.ok value) post :=
  ⟨value, rfl, h⟩

theorem bind {x : Except Fault α} {f : α → Except Fault β} {mid : α → Prop} {post : β → Prop}
    (hx : Delivers x mid) (hf : ∀ value, mid value → Delivers (f value) post) :
    Delivers (x >>= f) post := by
  obtain ⟨value, rfl, hvalue⟩ := hx
  exact hf value hvalue

theorem mono {x : Except Fault α} {post post' : α → Prop} (h : Delivers x post)
    (himp : ∀ value, post value → post' value) : Delivers x post' :=
  h.imp fun value hvalue => ⟨hvalue.1, himp value hvalue.2⟩

theorem add {a b : Nat} (h : a + b < Index.limit) : Delivers (Index.add a b) (· = a + b) :=
  ⟨a + b, Index.add_eq_ok h, rfl⟩

end Delivers

/-- A computation for each member of a list, none of which breaks off. -/
theorem mapM_eq_ok {α β : Type} {f : α → Except Fault β} {value : α → β} {xs : List α}
    (h : ∀ x ∈ xs, f x = .ok (value x)) : xs.mapM f = .ok (xs.map value) := by
  induction xs with
  | nil => rfl
  | cons x xs ih =>
    rw [List.mapM_cons, h x List.mem_cons_self, ih fun y hy => h y (List.mem_cons_of_mem _ hy)]
    rfl

namespace Diagnostic

open Lines

variable {input : Array Char} {lines : List String} {line column offset : Nat}

/-- A line of the text as it is displayed, behind its number. -/
def shown (lines : List String) (line number : Nat) : String :=
  margin number line ++ lines.getD (number - 1) ""

/-- How far the pointer is indented: by the margin, and by what stands before the column. -/
def indentAt (line column : Nat) : Nat :=
  (margin line line).length + column - 1

/-- What the line with a number contributes to the context. -/
def partOf (lines : List String) (line column number : Nat) : List String :=
  if number + 2 < line ∨ line + 2 < number then []
  else if number = line then [shown lines line line, pointer (indentAt line column)]
  else [shown lines line number]

/-- The context of an offset, when the counters have room. -/
def contextAt (input : Array Char) (offset : Nat) : List String :=
  (List.range' 1 (linesAt input input.size).length).flatMap
    (partOf (linesAt input input.size) (placeOf input offset).1 (placeOf input offset).2)

/-- The number in a margin takes no more room than there are numbers before it. -/
theorem length_margin (number line : Nat) :
    7 ≤ (margin number line).length ∧ (margin number line).length ≤ number + 8 := by
  have hrepr : (Nat.repr number).length ≤ number + 1 :=
    Nat.repr_length number (number + 1) (Nat.succ_pos number)
      (Nat.lt_of_succ_lt (Nat.lt_pow_self (by omega)))
  have hmarked : "  > ".length = 4 := rfl
  have hblank : "    ".length = 4 := rfl
  have hbar : " | ".length = 3 := rfl
  unfold margin
  split
  · simp only [String.length_append, toString, hmarked, hbar]
    omega
  · simp only [String.length_append, toString, hblank, hbar]
    omega

theorem contextLine_eq {size index : Nat} {content : String}
    (hsize : 4 * size + 100 < Index.limit) (hline : line ≤ size + 1)
    (hcolumn : 1 ≤ column ∧ column ≤ size + 1) (hindex : index ≤ size)
    (hcontent : lines[index]? = some content) :
    contextLine line column content index = .ok (partOf lines line column (index + 1)) := by
  obtain ⟨hlength, hlength'⟩ := length_margin (index + 1) line
  have hnumber : Index.add index 1 = .ok (index + 1) := Index.add_eq_ok (by omega)
  have hlater : Index.add (index + 1) 2 = .ok (index + 1 + 2) := Index.add_eq_ok (by omega)
  have hlast : Index.add line 2 = .ok (line + 2) := Index.add_eq_ok (by omega)
  have hshown : margin (index + 1) line ++ content = shown lines line (index + 1) := by
    rw [shown, Nat.add_sub_cancel, List.getD_eq_getElem?_getD, hcontent, Option.getD_some]
  simp only [contextLine, hnumber, hlater, hlast, hshown, bind, Except.bind, pure, Except.pure]
  by_cases hbefore : index + 1 + 2 < line
  · rw [if_pos hbefore, partOf, if_pos (.inl hbefore)]
  by_cases hafter : line + 2 < index + 1
  · rw [if_neg hbefore, if_pos hafter, partOf, if_pos (.inr hafter)]
  rw [if_neg hbefore, if_neg hafter, partOf, if_neg (not_or_intro hbefore hafter)]
  by_cases hhere : index + 1 = line
  · have hwidth : Index.add (margin (index + 1) line).length column =
        .ok ((margin (index + 1) line).length + column) := Index.add_eq_ok (by omega)
    have hindent : Index.sub ((margin (index + 1) line).length + column) 1 =
        .ok ((margin (index + 1) line).length + column - 1) := Index.sub_eq_ok (by omega)
    simp only [if_pos hhere, hwidth, hindent]
    rw [indentAt, hhere]
  · rw [if_neg hhere, if_neg hhere]

/-- The lines are numbered from one, and no number is greater than that of the last line. -/
theorem contextLines_eq (hfits : Fits input) (hoffset : offset ≤ input.size) :
    contextLines input (placeOf input offset).1 (placeOf input offset).2 =
      .ok (contextAt input offset) := by
  have hroom := hfits.room
  have hsplit : split input = .ok (linesAt input input.size) := split_eq (by omega)
  have hcount : (linesAt input input.size).length ≤ input.size + 1 := by
    rw [length_linesAt]
    exact line_le input input.size
  have hline : (placeOf input offset).1 ≤ input.size + 1 :=
    Nat.le_trans (line_le input offset) (Nat.succ_le_succ hoffset)
  have hcolumn : 1 ≤ (placeOf input offset).2 ∧ (placeOf input offset).2 ≤ input.size + 1 := by
    simp only [placeOf]
    omega
  have hparts : ((linesAt input input.size).zipIdx.mapM fun numbered =>
      contextLine (placeOf input offset).1 (placeOf input offset).2 numbered.1 numbered.2) =
      .ok ((linesAt input input.size).zipIdx.map fun numbered => partOf (linesAt input input.size)
        (placeOf input offset).1 (placeOf input offset).2 (numbered.2 + 1)) := by
    refine mapM_eq_ok fun numbered hmem => ?_
    have hcontent := List.mem_zipIdx_iff_getElem?.1 hmem
    have hindex := (List.getElem?_eq_some_iff.1 hcontent).1
    exact contextLine_eq hroom hline hcolumn (by omega) hcontent
  have hnumbers : ((linesAt input input.size).zipIdx.map fun numbered => numbered.2 + 1) =
      List.range' 1 (linesAt input input.size).length := by
    rw [show (fun numbered : String × Nat => numbered.2 + 1) = (1 + ·) ∘ Prod.snd from
      funext fun numbered => Nat.add_comm _ _, ← List.map_map, List.zipIdx_map_snd,
      List.map_add_range']
  rw [contextAt, ← hnumbers, List.flatMap_map, List.flatMap]
  simp only [contextLines, hsplit, bind, Except.bind, hparts]
  rfl

/-- The place and the context of a diagnostic are those of its offset. -/
structure Placed (input : Array Char) (diagnostic : Diagnostic) : Prop where
  within : diagnostic.offset ≤ input.size
  place_eq : (diagnostic.line, diagnostic.column) = placeOf input diagnostic.offset
  context_eq : diagnostic.context = contextAt input diagnostic.offset

/-- The place of an offset and the lines around it, for whatever is made of them. -/
theorem place_delivers {β : Type} {post : β → Prop} (hfits : Fits input)
    (hoffset : offset ≤ input.size) {render : Nat × Nat → List String → β}
    (hrender : post (render (placeOf input offset) (contextAt input offset))) :
    Delivers (do
      let place ← lineAndColumn input offset
      let context ← contextLines input place.1 place.2
      return render place context) post := by
  have hroom := hfits.room
  have hplace : lineAndColumn input offset = .ok (placeOf input offset) :=
    lineAndColumn_eq (by omega) hoffset
  refine ⟨_, ?_, hrender⟩
  simp only [hplace, bind, Except.bind, contextLines_eq hfits hoffset]
  rfl

end Diagnostic

end ParserKit
