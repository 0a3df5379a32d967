import ParserKit.Proofs.LineBreaks
import ParserKit.Proofs.WhiteSpace

/-!
A line comment and the line that it begins in. The comment goes up to the next line feed,
whereas a line may also end at a carriage return, so that the comment leaves its line at each
carriage return that stands alone. Before a line feed a carriage return does no harm: the two
end the line together, at the line feed, where the comment has stopped.
-/

namespace ParserKit

open Lexer

variable {input : Array Char} {i j : Nat}

namespace Lines

/-- Two offsets are in the same line, by the lines that are told for them. -/
def SameLine (input : Array Char) (i j : Nat) : Prop :=
  ∃ line column column', lineAndColumn input i = .ok (line, column) ∧
    lineAndColumn input j = .ok (line, column')

/-- From an offset on the line stays the same as long as no line ends. -/
theorem line_eq_iff (hij : i ≤ j) : (markAt input i).line = (markAt input j).line ↔
    ∀ k, i ≤ k → k < j → endsAt input k = false := by
  induction j, hij using Nat.le_induction with
  | base => exact iff_of_true rfl fun k hik hki => absurd hki (Nat.not_lt.2 hik)
  | succ j hij ih =>
    cases hends : endsAt input j with
    | true =>
      have hline : (markAt input i).line ≤ (markAt input j).line :=
        (line_lt_or_eq input hij).elim Nat.le_of_lt fun hsame => Nat.le_of_eq (congrArg _ hsame)
      rw [markAt_of_ends hends]
      refine iff_of_false (Nat.ne_of_lt (Nat.lt_succ_of_le hline)) fun hnone => ?_
      exact absurd (hnone j hij (Nat.lt_succ_self j)) (by simp [hends])
    | false =>
      rw [markAt_of_not_ends hends, ih]
      constructor
      · intro hnone k hik hkj
        rcases Nat.lt_succ_iff_lt_or_eq.1 hkj with hlt | rfl
        · exact hnone k hik hlt
        · exact hends
      · exact fun hnone k hik hkj => hnone k hik (Nat.lt_succ_of_lt hkj)

theorem sameLine_iff (hroom : input.size + 2 < Index.limit) (hij : i ≤ j) (hj : j ≤ input.size) :
    SameLine input i j ↔ ∀ k, i ≤ k → k < j → endsAt input k = false := by
  rw [← line_eq_iff hij, SameLine, lineAndColumn_eq hroom (Nat.le_trans hij hj),
    lineAndColumn_eq hroom hj]
  constructor
  · rintro ⟨line, column, column', hplace, hplace'⟩
    have hline := congrArg Prod.fst (Except.ok.inj hplace)
    have hline' := congrArg Prod.fst (Except.ok.inj hplace')
    exact hline.trans hline'.symm
  · intro hline
    exact ⟨_, _, (placeOf input j).2, rfl, congrArg Except.ok (Prod.ext hline.symm rfl)⟩

/-- A region that goes up to the next line feed, or to the end of the text. -/
structure UpToFeed (input : Array Char) (i j : Nat) : Prop where
  le_size : j ≤ input.size
  unbroken : ∀ k, i ≤ k → k < j → input[k]? ≠ some '\n'
  ends : j < input.size → input[j]? = some '\n'

/-- A region that goes up to the next line feed lies in one line exactly if each carriage return
in it has a line feed behind it. -/
theorem UpToFeed.sameLine_iff (h : UpToFeed input i j) (hij : i ≤ j)
    (hroom : input.size + 2 < Index.limit) : (∀ k, i ≤ k → k ≤ j → SameLine input i k) ↔
      ∀ k, i ≤ k → k < j → input[k]? = some '\r' → input[k + 1]? = some '\n' := by
  have hends : ∀ k, i ≤ k → k < j → (endsAt input k = false ↔
      (input[k]? = some '\r' → input[k + 1]? = some '\n')) := by
    intro k hik hkj
    rw [← Bool.not_eq_true, endsAt_iff, or_iff_right (h.unbroken k hik hkj), not_and, not_not]
  constructor
  · intro hsame k hik hkj
    have hnone := (Lines.sameLine_iff hroom hij h.le_size).1 (hsame j hij (Nat.le_refl j))
    exact (hends k hik hkj).1 (hnone k hik hkj)
  · intro hreturns k hik hkj
    refine (Lines.sameLine_iff hroom hik (Nat.le_trans hkj h.le_size)).2 fun m him hmk => ?_
    have hmj := Nat.lt_of_lt_of_le hmk hkj
    exact (hends m him hmj).2 (hreturns m him hmj)

/-- Behind characters of which none is a line feed, a text is passed over up to the next one. -/
theorem upToFeed_of_drop {front rest : List Char} (hi : i ≤ input.size) (hj : j ≤ input.size)
    (htext : input.toList.drop i = front ++ rest) (hfront : '\n' ∉ front)
    (hrest : input.toList.drop j = rest.dropWhile (· != '\n')) : UpToFeed input i j := by
  have hsplit : input.toList.drop i = (front ++ rest.takeWhile (· != '\n')) ++
      rest.dropWhile (· != '\n') := by
    rw [List.append_assoc, List.takeWhile_append_dropWhile, htext]
  -- the place is told by what lies behind it
  have hlength : j = i + (front ++ rest.takeWhile (· != '\n')).length := by
    rw [size_sub_length (drop_add_length hsplit) (add_length_le hsplit hi)]
    exact size_sub_length hrest hj
  refine ⟨hj, fun k hik hkj hfeed => ?_, fun hlt => ?_⟩
  · have hat : (input.toList.drop i)[k - i]? = some '\n' := by
      rw [List.getElem?_drop, Array.getElem?_toList, Nat.add_sub_cancel' hik, hfeed]
    rw [hsplit, List.getElem?_append_left (by omega)] at hat
    rcases List.mem_append.1 (List.mem_of_getElem? hat) with hmem | hmem
    · exact hfront hmem
    · simpa using List.mem_takeWhile_imp hmem
  · have hchar := Array.getElem?_eq_getElem hlt
    have hhead := List.head?_dropWhile_not (· != '\n') rest
    rw [← hrest, head?_drop, hchar] at hhead
    rw [hchar]
    simpa using hhead

end Lines

open Lines (UpToFeed SameLine)

/-- Where its marker stands, a line comment goes up to the next line feed. -/
theorem lineComment_runs {language : Language} {level : Nat} (hsize : input.size < Index.limit)
    (hmarker : language.commentLine ≠ "") (hunbroken : '\n' ∉ language.commentLine.toList) :
    Build.Yields level (lineComment language.commentLine) fun _ p => ∀ scope i, i ≤ input.size →
      language.commentLine.toList <+: input.toList.drop i →
        ∃ j, i < j ∧ UpToFeed input i j ∧ p.Runs input scope i (.success ()) j := by
  refine (lineComment_finds hsize hmarker).mono fun _ p hfinds scope i hi hopens => ?_
  obtain ⟨rest, htext⟩ := hopens
  have hfound := hfinds scope i hi
  simp only [lineAhead, past?_eq_some_iff.2 ⟨hmarker, htext.symm⟩] at hfound
  obtain ⟨j, hij, hrest, hruns⟩ := hfound
  have hregion := Lines.upToFeed_of_drop hi (hruns.le_size hi) htext.symm hunbroken hrest
  exact ⟨j, hij, hregion, hruns⟩

/-- How far a line comment keeps to its line. Where its marker stands it succeeds, and skips all
characters up to the next line feed. They and the place where it ends are in one line exactly if
each carriage return that is skipped has a line feed behind it. -/
theorem lineComment_in_line_iff (language : Language) (hmarker : language.commentLine ≠ "")
    (hunbroken : '\n' ∉ language.commentLine.toList) (input : Array Char) (hfits : Fits input)
    (memoize : Bool) (start : Nat) (hstart : start ≤ input.size)
    (hopens : language.commentLine.toList <+: input.toList.drop start) :
    ∃ stop, start < stop ∧ UpToFeed input start stop ∧
      ((lineComment language.commentLine).assemble 0).ShowsFrom input memoize start
        (.ok (.success (), stop)) ∧
      ((∀ k, start ≤ k → k ≤ stop → SameLine input start k) ↔
        ∀ k, start ≤ k → k < stop → input[k]? = some '\r' → input[k + 1]? = some '\n') := by
  have hroom := hfits.room
  have hsize : input.size < Index.limit := by omega
  have hlabelled := Build.assemble_wellLabelled
    (labelled_compositional.lineComment_given language.commentLine)
  obtain ⟨names, hcomment⟩ := (lineComment_runs hsize hmarker hunbroken).assembled
  obtain ⟨stop, hlt, hregion, hruns⟩ := hcomment Scope.root start hstart hopens
  exact ⟨stop, hlt, hregion, (hlabelled.showsFrom_iff hruns hstart memoize).2 rfl,
    hregion.sameLine_iff (Nat.le_of_lt hlt) (by omega)⟩

/-- A carriage return ends the line behind the marker, but not the comment. -/
theorem lineComment_in_line_return :
    (Language.plain.assemble 0).slashComments.commentLine ≠ "" ∧
    '\n' ∉ (Language.plain.assemble 0).slashComments.commentLine.toList ∧
    Fits "//\rb".toList.toArray ∧ 0 ≤ "//\rb".toList.toArray.size ∧
    (Language.plain.assemble 0).slashComments.commentLine.toList <+:
      "//\rb".toList.toArray.toList.drop 0 ∧
    ((lineComment (Language.plain.assemble 0).slashComments.commentLine).assemble 0).ShowsFrom
      "//\rb".toList.toArray false 0 (.ok (.success (), 4)) ∧
    ¬ ∀ k, 0 ≤ k → k ≤ 4 → SameLine "//\rb".toList.toArray 0 k := by
  have hmarker : (Language.plain.assemble 0).slashComments.commentLine ≠ "" := by decide
  have hunbroken : '\n' ∉ (Language.plain.assemble 0).slashComments.commentLine.toList := by
    decide
  have hfits : Fits "//\rb".toList.toArray := by unfold Fits; decide
  have hopens : (Language.plain.assemble 0).slashComments.commentLine.toList <+:
      "//\rb".toList.toArray.toList.drop 0 := ⟨['\r', 'b'], rfl⟩
  obtain ⟨stop, -, -, hshows, hline⟩ :=
    lineComment_in_line_iff _ hmarker hunbroken _ hfits false 0 (Nat.zero_le _) hopens
  have hend : ((lineComment (Language.plain.assemble 0).slashComments.commentLine).assemble
      0).ShowsFrom "//\rb".toList.toArray false 0 (.ok (.success (), 4)) :=
    Parser.showsFrom_ok_iff.2 ⟨_, ⟨40, _, _, rfl, rfl⟩, rfl⟩
  obtain rfl : stop = 4 := by simpa using hshows.unique hend
  refine ⟨hmarker, hunbroken, hfits, Nat.zero_le _, hopens, hend, fun hsame => ?_⟩
  exact absurd (hline.1 hsame 2 (Nat.zero_le 2) (by decide) rfl) (by decide)

end ParserKit
