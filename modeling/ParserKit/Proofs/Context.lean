import ParserKit.Proofs.Diagnosis
import ParserKit.Proofs.LineBreaks

/-!
The pointer under a column. What has been read of a line grows by one character where the
column does, and a carriage return that is left out of a line is followed by the line feed
that ends it. So a column is a place in the line as it is displayed, behind the margin.
-/

namespace ParserKit

namespace Lines

variable {input : Array Char} {i j : Nat} {c : Char} {span : Span}

/-- What has been read of the line of an offset. -/
def readAt (input : Array Char) (i : Nat) : List Char :=
  (draftAt input i).current.reverse

/-- The offset between a carriage return and its line feed, which no line displays. -/
def Between (input : Array Char) (i : Nat) : Prop :=
  ∃ j, j + 1 = i ∧ input[j]? = some '\r' ∧ input[i]? = some '\n'

section Columns

theorem close_eq (input : Array Char) (i : Nat) : (draftAt input i).close =
    String.ofList (readAt input i) :: (draftAt input i).finished :=
  rfl

theorem not_endsAt (hchar : input[i]? = some c) (hreturn : c ≠ '\r') (hfeed : c ≠ '\n') :
    endsAt input i = false := by
  simp [endsAt, hchar, hreturn, hfeed]

/-- A character within a line is read at the end of it. -/
theorem readAt_succ (hchar : input[i]? = some c) (hreturn : c ≠ '\r') (hfeed : c ≠ '\n') :
    readAt input (i + 1) = readAt input i ++ [c] := by
  rw [readAt, draftAt_of_not_ends (not_endsAt hchar hreturn hfeed), hchar]
  simp [readAt, hreturn]

theorem readAt_prefix_succ (h : endsAt input i = false) :
    readAt input i <+: readAt input (i + 1) := by
  simp [readAt, draftAt_of_not_ends h]

/-- But for the offsets within a terminator, as much has been read as the column says. -/
theorem length_readAt (hi : i ≤ input.size) (hbetween : ¬ Between input i) :
    (readAt input i).length = i - (markAt input i).start := by
  induction i with
  | zero => rfl
  | succ i ih =>
    cases hends : endsAt input i with
    | true =>
      rw [readAt, draftAt_of_ends hends, markAt_of_ends hends, Nat.sub_self]
      rfl
    | false =>
      obtain ⟨c, hchar⟩ : ∃ c, input[i]? = some c := ⟨_, Array.getElem?_eq_getElem hi⟩
      -- a return that is left out stands before a line feed, where the offset is excluded
      have hneither : ¬ (input[i]? = some '\n' ∨
          input[i]? = some '\r' ∧ input[i + 1]? ≠ some '\n') := by
        rw [← endsAt_iff, hends]
        exact Bool.false_ne_true
      have hfeed : c ≠ '\n' := fun h => hneither (.inl (h ▸ hchar))
      have hreturn : c ≠ '\r' := fun h =>
        hneither (.inr ⟨h ▸ hchar, fun hnext => hbetween ⟨i, rfl, h ▸ hchar, hnext⟩⟩)
      have hbefore : ¬ Between input i := fun ⟨_, _, _, hnext⟩ => hneither (.inl hnext)
      have hstart := start_le input i
      rw [readAt_succ hchar hreturn hfeed, List.length_append, List.length_singleton,
        ih (Nat.le_of_succ_le hi) hbefore, markAt_of_not_ends hends]
      omega

end Columns

section Growth

/-- Every line of the first list has a line of the second that continues it. -/
def Continues (lines lines' : List String) : Prop :=
  ∀ (index : Nat) (content : String), lines[index]? = some content →
    ∃ content', lines'[index]? = some content' ∧ content.toList <+: content'.toList

theorem continues_append (lines lines' : List String) : Continues lines (lines ++ lines') := by
  intro index content hcontent
  have hindex := (List.getElem?_eq_some_iff.1 hcontent).1
  exact ⟨content, (List.getElem?_append_left hindex).trans hcontent, List.prefix_refl _⟩

theorem continues_concat {content content' : String} (lines : List String)
    (h : content.toList <+: content'.toList) :
    Continues (lines ++ [content]) (lines ++ [content']) := by
  intro index line hline
  by_cases hindex : index < lines.length
  · rw [List.getElem?_append_left hindex] at hline
    exact ⟨line, (List.getElem?_append_left hindex).trans hline, List.prefix_refl _⟩
  · rw [List.getElem?_append_right (Nat.le_of_not_lt hindex)] at hline ⊢
    rw [List.getElem?_singleton] at hline ⊢
    split at hline
    · next hlast =>
      obtain rfl := Option.some.inj hline
      exact ⟨content', if_pos hlast, h⟩
    · cases hline

theorem linesAt_succ_continues (input : Array Char) (i : Nat) :
    Continues (linesAt input i) (linesAt input (i + 1)) := by
  cases hends : endsAt input i with
  | true =>
    have hnext : linesAt input (i + 1) = linesAt input i ++ [""] := by
      rw [linesAt, draftAt_of_ends hends]
      simp [Draft.close, linesAt]
    rw [hnext]
    exact continues_append _ _
  | false =>
    have hsame : (draftAt input (i + 1)).finished = (draftAt input i).finished := by
      rw [draftAt_of_not_ends hends]
    simp only [linesAt, close_eq, List.reverse_cons, hsame]
    exact continues_concat _ (by simpa using readAt_prefix_succ hends)

theorem linesAt_continues (hij : i ≤ j) : Continues (linesAt input i) (linesAt input j) := by
  induction j, hij using Nat.le_induction with
  | base => exact fun _ content h => ⟨content, h, List.prefix_refl _⟩
  | succ j _ ih =>
    intro index content hcontent
    obtain ⟨middle, hmiddle, hprefix⟩ := ih index content hcontent
    obtain ⟨last, hlast, hprefix'⟩ := linesAt_succ_continues input j index middle hmiddle
    exact ⟨last, hlast, hprefix.trans hprefix'⟩

/-- A finished line does not change any more. -/
theorem finished_suffix (hij : i ≤ j) :
    (draftAt input i).finished <:+ (draftAt input j).finished := by
  induction j, hij using Nat.le_induction with
  | base => exact List.suffix_refl _
  | succ j _ ih =>
    cases hends : endsAt input j with
    | true =>
      rw [draftAt_of_ends hends, close_eq]
      exact ih.trans (List.suffix_cons _ _)
    | false =>
      rw [draftAt_of_not_ends hends]
      exact ih

end Growth

section Contents

/-- The line of an offset is the one that is read there. -/
theorem linesAt_line (input : Array Char) (i : Nat) :
    (linesAt input i)[(markAt input i).line - 1]? = some (String.ofList (readAt input i)) := by
  rw [linesAt, close_eq, List.reverse_cons, ← length_finished, Nat.add_sub_cancel,
    ← List.length_reverse, List.getElem?_concat_length]

theorem line_le_length (hi : i ≤ input.size) :
    (markAt input i).line ≤ (linesAt input input.size).length := by
  obtain ⟨content, hcontent, -⟩ := linesAt_continues hi _ _ (linesAt_line input i)
  have hlt := (List.getElem?_eq_some_iff.1 hcontent).1
  omega

/-- A character within a line stands in it where the column says. -/
theorem getElem?_line (hchar : input[i]? = some c) (hreturn : c ≠ '\r') (hfeed : c ≠ '\n') :
    ∃ content, (linesAt input input.size)[(markAt input i).line - 1]? = some content ∧
      content.toList[i - (markAt input i).start]? = some c := by
  have hi := (Array.getElem?_eq_some_iff.1 hchar).1
  have hbetween : ¬ Between input i := by
    rintro ⟨_, _, _, hnext⟩
    exact hfeed (Option.some.inj (hchar.symm.trans hnext))
  have hline := linesAt_line input (i + 1)
  rw [markAt_of_not_ends (not_endsAt hchar hreturn hfeed), readAt_succ hchar hreturn hfeed] at hline
  obtain ⟨content, hcontent, rest, hrest⟩ := linesAt_continues hi _ _ hline
  refine ⟨content, hcontent, ?_⟩
  rw [← hrest, String.toList_ofList, List.append_assoc, ← length_readAt (Nat.le_of_lt hi) hbetween]
  simp

/-- Where a terminator begins, the line is finished behind it. -/
theorem Terminator.finished_eq {stop : Nat} (h : Terminator input ⟨i, stop⟩) :
    (draftAt input stop).finished = (draftAt input i).close := by
  cases h with
  | pair hreturn hfeed =>
    have hnot : endsAt input i = false := by simp [endsAt, hreturn, hfeed]
    have hends : endsAt input (i + 1) = true := endsAt_iff.2 (.inl hfeed)
    rw [draftAt_of_ends hends, draftAt_of_not_ends hnot, hreturn]
    rfl
  | lineFeed hfeed _ => rw [draftAt_of_ends (endsAt_iff.2 (.inl hfeed))]
  | carriageReturn hreturn halone =>
    rw [draftAt_of_ends (endsAt_iff.2 (.inr ⟨hreturn, halone⟩))]

theorem Terminator.not_between {stop : Nat} (h : Terminator input ⟨i, stop⟩) :
    ¬ Between input i := by
  rintro ⟨j, hj, hreturn, hfeed⟩
  cases h with
  | pair hreturn' _ => exact absurd (hreturn'.symm.trans hfeed) (by decide)
  | lineFeed _ halone => exact halone j hj hreturn
  | carriageReturn hreturn' _ => exact absurd (hreturn'.symm.trans hfeed) (by decide)

theorem Terminator.stop_le_size (h : Terminator input span) : span.stop ≤ input.size := by
  obtain ⟨k, hk, hends⟩ := h.stop_eq
  rw [hk]
  rcases endsAt_iff.1 hends with hchar | ⟨hchar, -⟩ <;>
    exact (Array.getElem?_eq_some_iff.1 hchar).1

/-- At its end, and at the end of the text, the line is as long as the column says. -/
theorem length_line (hi : i ≤ input.size)
    (h : i = input.size ∨ ∃ stop, Terminator input ⟨i, stop⟩) :
    ∃ content, (linesAt input input.size)[(markAt input i).line - 1]? = some content ∧
      content.toList.length = i - (markAt input i).start := by
  have hbetween : ¬ Between input i := by
    rcases h with rfl | ⟨stop, hterminator⟩
    · rintro ⟨_, _, _, hfeed⟩
      exact absurd (Array.getElem?_eq_some_iff.1 hfeed).1 (Nat.lt_irrefl _)
    · exact hterminator.not_between
  refine ⟨String.ofList (readAt input i), ?_, ?_⟩
  · rcases h with rfl | ⟨stop, hterminator⟩
    · exact linesAt_line input _
    · have hsuffix : (draftAt input i).close <:+ (draftAt input input.size).close := by
        rw [← hterminator.finished_eq]
        exact (finished_suffix hterminator.stop_le_size).trans (List.suffix_cons _ _)
      obtain ⟨rest, hrest⟩ : linesAt input i <+: linesAt input input.size :=
        List.reverse_prefix.2 hsuffix
      have hline := linesAt_line input i
      have hindex := (List.getElem?_eq_some_iff.1 hline).1
      rw [← hrest, List.getElem?_append_left hindex, hline]
  · rw [String.toList_ofList, length_readAt hi hbetween]

end Contents

end Lines

namespace Diagnostic

open Lines

variable {input : Array Char} {lines : List String} {line column : Nat}

/-- The lines with the numbers from `first` to `last`, as they are displayed. -/
def shownFrom (lines : List String) (line first last : Nat) : List String :=
  (List.range' first (last + 1 - first)).map (shown lines line)

section Parts

theorem partOf_outside {first stop : Nat}
    (h : ∀ number, first ≤ number → number < stop → number + 2 < line ∨ line + 2 < number) :
    (List.range' first (stop - first)).flatMap (partOf lines line column) = [] := by
  refine List.flatMap_eq_nil_iff.2 fun number hnumber => if_pos ?_
  have hrange := List.mem_range'_1.1 hnumber
  exact h number hrange.1 (by omega)

theorem partOf_around {first stop : Nat} (hfirst : line ≤ first + 2) (hstop : stop ≤ line + 3)
    (h : stop ≤ line ∨ line < first) :
    (List.range' first (stop - first)).flatMap (partOf lines line column) =
      (List.range' first (stop - first)).map (shown lines line) := by
  rw [List.map_eq_flatMap]
  refine List.flatMap_congr fun number hnumber => ?_
  have hrange := List.mem_range'_1.1 hnumber
  have hnear : ¬ (number + 2 < line ∨ line + 2 < number) := by omega
  have hother : number ≠ line := by omega
  rw [partOf, if_neg hnear, if_neg hother]

theorem range'_split {first stop : Nat} (middle : Nat) (hfirst : first ≤ middle)
    (hstop : middle ≤ stop) : List.range' first (stop - first) =
      List.range' first (middle - first) ++ List.range' middle (stop - middle) := by
  have hlength : middle - first + (stop - middle) = stop - first := by omega
  have happend := List.range'_append_1 (s := first) (m := middle - first) (n := stop - middle)
  rw [Nat.add_sub_cancel' hfirst, hlength] at happend
  exact happend.symm

/-- The lines that are near enough, and the pointer behind the failing one. -/
theorem flatMap_partOf (hpos : 1 ≤ line) (hline : line ≤ lines.length) :
    (List.range' 1 lines.length).flatMap (partOf lines line column) =
      shownFrom lines line (max 1 (line - 2)) line ++ pointer (indentAt line column) ::
        shownFrom lines line (line + 1) (min lines.length (line + 2)) := by
  generalize hfirst : max 1 (line - 2) = first
  generalize hlast : min lines.length (line + 2) = last
  -- the numbers that are too small, those before the line, its own, those behind, the others
  have hsplit : List.range' 1 (lines.length + 1 - 1) = List.range' 1 (first - 1) ++
      (List.range' first (line - first) ++ (List.range' line (line + 1 - line) ++
        (List.range' (line + 1) (last + 1 - (line + 1)) ++
          List.range' (last + 1) (lines.length + 1 - (last + 1))))) := by
    rw [← range'_split (last + 1) (by omega) (by omega),
      ← range'_split (line + 1) (by omega) (by omega), ← range'_split line (by omega) (by omega),
      ← range'_split first (by omega) (by omega)]
  have hhere : (List.range' line (line + 1 - line)).flatMap (partOf lines line column) =
      [shown lines line line, pointer (indentAt line column)] := by
    simp [partOf]
  have hshown : shownFrom lines line first line =
      (List.range' first (line - first)).map (shown lines line) ++ [shown lines line line] := by
    rw [shownFrom, range'_split line (by omega) (by omega), List.map_append,
      Nat.add_sub_cancel_left]
    rfl
  rw [Nat.add_sub_cancel] at hsplit
  rw [hsplit]
  simp only [List.flatMap_append]
  rw [partOf_outside fun number _ _ => by omega, hhere,
    partOf_around (by omega) (by omega) (.inl (Nat.le_refl line)),
    partOf_around (by omega) (by omega) (.inr (Nat.lt_succ_self line)),
    partOf_outside fun number _ _ => by omega, hshown, shownFrom]
  simp

end Parts

theorem idxOf_pointer (indent : Nat) : (pointer indent).toList.idxOf '^' = indent := by
  have hblanks : '^' ∉ List.replicate indent ' ' := by
    intro hmem
    exact absurd (List.eq_of_mem_replicate hmem) (by decide)
  rw [pointer, String.toList_append, String.toList_ofList, List.idxOf_append_of_notMem hblanks,
    List.length_replicate]
  rfl

/-- What is displayed of a failure: where it is, and the lines around it with the pointer. -/
structure Depicts (input : Array Char) (lines : List String) (indent : Nat)
    (diagnostic : Diagnostic) : Prop where
  place : lineAndColumn input diagnostic.offset = .ok (diagnostic.line, diagnostic.column)
  lines_eq : split input = .ok lines
  context_eq : diagnostic.context =
    shownFrom lines diagnostic.line (max 1 (diagnostic.line - 2)) diagnostic.line ++
      pointer indent ::
        shownFrom lines diagnostic.line (diagnostic.line + 1)
          (min lines.length (diagnostic.line + 2))
  caret : (pointer indent).toList.idxOf '^' = indent
  /-- The pointer stands as far behind the margin as the column says, -/
  indent_eq : indent + 1 = (margin diagnostic.line diagnostic.line).length + diagnostic.column
  /-- under the character at the offset, -/
  under : ∀ c, input[diagnostic.offset]? = some c → c ≠ '\r' → c ≠ '\n' →
    (shown lines diagnostic.line diagnostic.line).toList[indent]? = some c
  /-- or behind the line, where it ends. -/
  behind : diagnostic.offset = input.size ∨ (∃ stop, Terminator input ⟨diagnostic.offset, stop⟩) →
    indent = (shown lines diagnostic.line diagnostic.line).toList.length

section Depicting

variable {diagnostic : Diagnostic}

theorem shown_of_getElem? {content : String} (h : lines[line - 1]? = some content) :
    (shown lines line line).toList = (margin line line).toList ++ content.toList := by
  rw [shown, List.getD_eq_getElem?_getD, h, Option.getD_some, String.toList_append]

theorem Placed.depicts (h : diagnostic.Placed input) (hfits : Fits input) :
    Depicts input (linesAt input input.size) (indentAt diagnostic.line diagnostic.column)
      diagnostic := by
  have hroom := hfits.room
  have hoffset := h.within
  obtain ⟨hline, hcolumn⟩ := Prod.mk.inj h.place_eq
  have hindent : indentAt diagnostic.line diagnostic.column =
      (margin diagnostic.line diagnostic.line).toList.length +
        (diagnostic.offset - (markAt input diagnostic.offset).start) := by
    rw [indentAt, hcolumn, String.length_toList]
    omega
  have hpos : 1 ≤ diagnostic.line := hline ▸ line_pos input diagnostic.offset
  have hmargin : indentAt diagnostic.line diagnostic.column + 1 =
      (margin diagnostic.line diagnostic.line).length + diagnostic.column := by
    rw [hindent, hcolumn, String.length_toList, Nat.add_assoc]
  have hlast : diagnostic.line ≤ (linesAt input input.size).length :=
    hline ▸ line_le_length hoffset
  refine ⟨?_, split_eq (by omega), ?_, idxOf_pointer _, hmargin, ?_, ?_⟩
  · rw [h.place_eq]
    exact lineAndColumn_eq (by omega) hoffset
  · rw [h.context_eq, contextAt, ← h.place_eq, flatMap_partOf hpos hlast]
  · intro c hchar hreturn hfeed
    obtain ⟨content, hcontent, hc⟩ := getElem?_line hchar hreturn hfeed
    rw [← hline] at hcontent
    rw [shown_of_getElem? hcontent, hindent, List.getElem?_append_right (Nat.le_add_right _ _),
      Nat.add_sub_cancel_left, hc]
  · intro hend
    obtain ⟨content, hcontent, hlength⟩ := length_line hoffset hend
    rw [← hline] at hcontent
    rw [shown_of_getElem? hcontent, hindent, List.length_append, hlength]

/-- The context of any failure: the lines around the one where it happened, with the pointer
behind that one, under the character at the column or behind the last one of the line. -/
theorem ofFailure_depicts (failure : Failure) (cursor : Cursor) (hfits : Fits cursor.input) :
    ∃ diagnostic lines indent, ofFailure failure cursor = .ok diagnostic ∧
      Depicts cursor.input lines indent diagnostic := by
  obtain ⟨diagnostic, hok, -, hplaced⟩ := ofFailure_rendered failure hfits
  exact ⟨diagnostic, _, _, hok, hplaced.depicts hfits⟩

/-- The pointer under a letter in the middle of three lines that end in three ways. -/
theorem ofFailure_depicts_middle : Fits "a\r\nbc\rd".toList.toArray ∧
    ∃ diagnostic lines indent,
      ofFailure ⟨.positioned "x" 4, false⟩ { input := "a\r\nbc\rd".toList.toArray } =
        .ok diagnostic ∧
      diagnostic.context = ["    1 | a", "  > 2 | bc", "         ^--- here", "    3 | d"] ∧
      Depicts "a\r\nbc\rd".toList.toArray lines indent diagnostic := by
  have hfits : Fits "a\r\nbc\rd".toList.toArray := by unfold Fits; decide
  obtain ⟨diagnostic, lines, indent, hok, hdepicts⟩ :=
    ofFailure_depicts ⟨.positioned "x" 4, false⟩ { input := "a\r\nbc\rd".toList.toArray } hfits
  refine ⟨hfits, diagnostic, lines, indent, hok, ?_, hdepicts⟩
  have hcontext : (ofFailure ⟨.positioned "x" 4, false⟩
      { input := "a\r\nbc\rd".toList.toArray }).map context =
      .ok ["    1 | a", "  > 2 | bc", "         ^--- here", "    3 | d"] := by decide +kernel
  rw [hok] at hcontext
  exact Except.ok.inj hcontext

end Depicting

end Diagnostic

end ParserKit
