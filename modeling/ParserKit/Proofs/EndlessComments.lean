import ParserKit.Proofs.OpenComments

/-!
Comments without a closing delimiter. An empty opening delimiter switches block comments off,
but an empty closing delimiter does not: it stands everywhere, so that a comment ends where
nothing in it goes on. It goes on over all characters that are not of the opening delimiter, and
over that delimiter if comments may nest. White space never fails in such a language, and it is
what it would be without block comments unless one of them begins where that ends.
-/

namespace ParserKit

open Lexer
open ParserKit.Parser (FirstFinds)

variable {input : Array Char} {scope : Scope} {i j : Nat} {language : Language}

namespace Language

/-- The same language without block comments. -/
def withoutBlocks (language : Language) : Language :=
  { language with commentStart := "", commentEnd := "" }

/-- Comments that begin with a slash and a star, with nothing to close them. -/
def unclosedComments (language : Language) : Language :=
  { language with commentStart := "/*", commentEnd := "" }

end Language

namespace Lexer

/-- The rest of a text behind the inside of a comment that no delimiter closes. -/
def leaveComment (language : Language) (text : List Char) : List Char :=
  match text with
  | [] => []
  | c :: tail =>
    match _opened : inside? language (c :: tail) with
    | some rest => leaveComment language rest
    | none => if delimits language c then c :: tail else leaveComment language tail
termination_by text.length
decreasing_by
  · exact inside?_length _opened
  · exact Nat.lt_succ_self _

/-- A comment that no delimiter closes. -/
def endlessAhead (language : Language) (text : List Char) : Found :=
  match past? language.commentStart text with
  | some rest => .past (leaveComment language rest)
  | none => .nothing

/-- What stands inside such a comment. -/
def endlessItemAhead (language : Language) (text : List Char) : Found :=
  (runAhead (fun c => !delimits language c) text).or
    (if language.nestedComments then endlessAhead language text else .nothing)

/-- What white space begins with, where no delimiter closes comments. -/
def endlessPieceAhead (language : Language) (text : List Char) : Found :=
  (runAhead Text.isBlank text).or ((lineAhead language text).or (endlessAhead language text))

section Inside

variable {text rest : List Char} {c : Char}

theorem leaveComment_opened (h : inside? language text = some rest) :
    leaveComment language text = leaveComment language rest := by
  cases text with
  | nil => exact absurd (inside?_length h) (by simp)
  | cons c tail =>
    rw [leaveComment]
    split
    · next found hfound =>
      rw [Option.some.inj (hfound.symm.trans h)]
    · next hfound => rw [hfound] at h; cases h

theorem leaveComment_stuck (hinside : inside? language (c :: text) = none)
    (hc : delimits language c = true) : leaveComment language (c :: text) = c :: text := by
  rw [leaveComment]
  split
  · next found hfound => rw [hfound] at hinside; cases hinside
  · rw [if_pos hc]

theorem leaveComment_cons (hc : delimits language c = false) :
    leaveComment language (c :: text) = leaveComment language text := by
  have hinside : inside? language (c :: text) = none := by
    unfold inside?
    split
    · exact past?_of_head (not_mem_of_not_delimits hc).1
    · rfl
  rw [leaveComment]
  split
  · next found hfound => rw [hfound] at hinside; cases hinside
  · rw [hc, if_neg Bool.false_ne_true]

theorem leaveComment_dropWhile :
    leaveComment language (text.dropWhile fun c => !delimits language c) =
      leaveComment language text := by
  induction text with
  | nil => rfl
  | cons c tail ih =>
    cases hc : delimits language c with
    | false => rw [List.dropWhile_cons_of_pos (by simp [hc]), ih, leaveComment_cons hc]
    | true => rw [List.dropWhile_cons_of_neg (by simp [hc])]

theorem leaveComment_length (language : Language) (text : List Char) :
    (leaveComment language text).length ≤ text.length := by
  induction text using leaveComment.induct language with
  | case1 => rw [leaveComment]
  | case2 c tail rest hinside ih =>
    rw [leaveComment_opened hinside]
    exact Nat.le_trans ih (Nat.le_of_lt (inside?_length hinside))
  | case3 c tail hinside hc => rw [leaveComment_stuck hinside hc]
  | case4 c tail hinside hc ih =>
    rw [leaveComment_cons (by simpa using hc)]
    exact Nat.le_succ_of_le ih

/-- Behind the inside of a comment nothing of it is left. -/
theorem leaveComment_idem (language : Language) (text : List Char) :
    leaveComment language (leaveComment language text) = leaveComment language text := by
  induction text using leaveComment.induct language with
  | case1 => rw [leaveComment, leaveComment]
  | case2 c tail rest hinside ih => rw [leaveComment_opened hinside, ih]
  | case3 c tail hinside hc => rw [leaveComment_stuck hinside hc, leaveComment_stuck hinside hc]
  | case4 c tail hinside hc ih => rw [leaveComment_cons (by simpa using hc), ih]

/-- The inside is left item by item. -/
theorem leaveComment_eq_endlessItemAhead (language : Language) (text : List Char) :
    leaveComment language text =
      match endlessItemAhead language text with
      | .past rest => leaveComment language rest
      | _ => text := by
  cases text with
  | nil =>
    have hnothing : endlessItemAhead language [] = .nothing := by
      simp [endlessItemAhead, runAhead, endlessAhead, past?_nil, Found.or]
    rw [hnothing, leaveComment]
  | cons c tail =>
    cases hc : delimits language c with
    | false =>
      simp only [endlessItemAhead, runAhead, List.head?_cons, Option.any_some, hc, Bool.not_false,
        if_true, Found.or]
      exact leaveComment_dropWhile.symm
    | true =>
      by_cases hnested : language.nestedComments = true
      · have hinside : inside? language (c :: tail) = past? language.commentStart (c :: tail) :=
          if_pos hnested
        simp only [endlessItemAhead, runAhead, List.head?_cons, Option.any_some, hc, Bool.not_true,
          Bool.false_eq_true, if_false, Found.or, hnested, if_true, endlessAhead]
        cases hopened : past? language.commentStart (c :: tail) with
        | some rest =>
          rw [leaveComment_opened (hinside.trans hopened)]
          exact (leaveComment_idem language rest).symm
        | none => exact leaveComment_stuck (hinside.trans hopened) hc
      · simp only [endlessItemAhead, runAhead, List.head?_cons, Option.any_some, hc, Bool.not_true,
          Bool.false_eq_true, if_false, Found.or, hnested]
        exact leaveComment_stuck (if_neg hnested) hc

end Inside

section Pieces

variable {text rest : List Char}

theorem endlessAhead_ne_unclosed : endlessAhead language text ≠ .unclosed := by
  unfold endlessAhead
  split <;> simp

theorem endlessItemAhead_ne_unclosed : endlessItemAhead language text ≠ .unclosed := by
  intro h
  obtain ⟨-, hcomment⟩ := Found.or_eq_unclosed h (runAhead_ne_unclosed _)
  split at hcomment
  · exact endlessAhead_ne_unclosed hcomment
  · cases hcomment

theorem endlessPieceAhead_ne_unclosed : endlessPieceAhead language text ≠ .unclosed := by
  intro h
  obtain ⟨-, hcomments⟩ := Found.or_eq_unclosed h (runAhead_ne_unclosed _)
  obtain ⟨-, hblock⟩ := Found.or_eq_unclosed hcomments lineAhead_ne_unclosed
  exact endlessAhead_ne_unclosed hblock

theorem endlessAhead_length (h : endlessAhead language text = .past rest) :
    rest.length < text.length := by
  unfold endlessAhead at h
  split at h
  · next inner hopened =>
    rw [← Found.past.inj h]
    exact Nat.lt_of_le_of_lt (leaveComment_length language inner) (past?_length hopened)
  · cases h

theorem endlessPieceAhead_length (h : endlessPieceAhead language text = .past rest) :
    rest.length < text.length := by
  rcases Found.or_eq_past h with hblanks | h
  · exact runAhead_length hblanks
  rcases Found.or_eq_past h with hline | hblock
  · exact lineAhead_length hline
  · exact endlessAhead_length hblock

end Pieces

/-- The rest of a text behind the white space that it begins with, where no delimiter closes
comments. -/
def skipEndless (language : Language) (text : List Char) : List Char :=
  match _found : endlessPieceAhead language text with
  | .past rest => skipEndless language rest
  | _ => text
termination_by text.length
decreasing_by exact endlessPieceAhead_length _found

/-- The pass piece by piece. -/
theorem skipEndless_eq (language : Language) (text : List Char) : skipEndless language text =
    match endlessPieceAhead language text with
    | .past rest => skipEndless language rest
    | _ => text := by
  rw [skipEndless]
  split
  · next rest found => rw [found]
  · next found =>
    split
    · next rest hrest => exact absurd hrest (found rest)
    · rfl

section Pass

variable {text rest : List Char}

theorem skipEndless_past (h : endlessPieceAhead language text = .past rest) :
    skipEndless language text = skipEndless language rest := by
  rw [skipEndless_eq, h]

theorem skipEndless_nothing (h : endlessPieceAhead language text = .nothing) :
    skipEndless language text = text := by
  rw [skipEndless_eq, h]

/-- Induction along the pass. -/
@[elab_as_elim]
theorem skipEndless_induction (language : Language) {motive : List Char → Prop} (text : List Char)
    (nothing : ∀ text, endlessPieceAhead language text = .nothing → motive text)
    (past : ∀ text rest, endlessPieceAhead language text = .past rest → motive rest → motive text) :
    motive text := by
  induction text using skipEndless.induct language with
  | case1 text rest found ih => exact past text rest found ih
  | case2 text found =>
    cases hpiece : endlessPieceAhead language text with
    | nothing => exact nothing text hpiece
    | past rest => exact absurd hpiece (found rest)
    | unclosed => exact absurd hpiece endlessPieceAhead_ne_unclosed

theorem skipEndless_length (language : Language) (text : List Char) :
    (skipEndless language text).length ≤ text.length := by
  induction text using skipEndless_induction language with
  | nothing text h => rw [skipEndless_nothing h]
  | past text rest h ih =>
    rw [skipEndless_past h]
    exact Nat.le_trans ih (Nat.le_of_lt (endlessPieceAhead_length h))

/-- Where the pass ends nothing is left to skip. -/
theorem endlessPieceAhead_skipEndless (language : Language) (text : List Char) :
    endlessPieceAhead language (skipEndless language text) = .nothing := by
  induction text using skipEndless_induction language with
  | nothing text h => rw [skipEndless_nothing h, h]
  | past text rest h ih => rw [skipEndless_past h, ih]

end Pass

section WithoutBlocks

variable {text : List Char}

theorem endlessPieceAhead_withoutBlocks :
    endlessPieceAhead language.withoutBlocks text = pieceAhead language.withoutBlocks text := by
  have hnone : past? language.withoutBlocks.commentStart text = none := if_pos rfl
  simp only [endlessPieceAhead, pieceAhead, endlessAhead, blockAhead, hnone]

/-- Block comments have their turn after all that there is without them. -/
theorem endlessPieceAhead_eq_or : endlessPieceAhead language text =
    (endlessPieceAhead language.withoutBlocks text).or (endlessAhead language text) := by
  have hnone : endlessAhead language.withoutBlocks text = .nothing := rfl
  rw [endlessPieceAhead, endlessPieceAhead, hnone, Found.or_nothing, Found.or_assoc]
  rfl

/-- Without block comments the two passes are the same. -/
theorem skipBlanks_withoutBlocks : skipBlanks language.withoutBlocks text =
    some (skipEndless language.withoutBlocks text) := by
  induction text using skipEndless_induction language.withoutBlocks with
  | nothing text h =>
    rw [skipEndless_nothing h, skipBlanks_eq, ← endlessPieceAhead_withoutBlocks, h]
  | past text rest h ih =>
    rw [skipEndless_past h, skipBlanks_eq, ← endlessPieceAhead_withoutBlocks, h]
    exact ih

/-- The pass may first go as far as there is no block comment. -/
theorem skipEndless_withoutBlocks : skipEndless language text =
    skipEndless language (skipEndless language.withoutBlocks text) := by
  induction text using skipEndless_induction language.withoutBlocks with
  | nothing text h => rw [skipEndless_nothing h]
  | past text rest h ih =>
    have hpiece : endlessPieceAhead language text = .past rest := by
      rw [endlessPieceAhead_eq_or, h]
      rfl
    rw [skipEndless_past h, skipEndless_past hpiece, ih]

/-- Comments that are nowhere closed add nothing exactly if none begins where the pass without
them ends. -/
theorem skipEndless_eq_withoutBlocks_iff :
    skipEndless language text = skipEndless language.withoutBlocks text ↔
      past? language.commentStart (skipEndless language.withoutBlocks text) = none := by
  rw [skipEndless_withoutBlocks]
  have hnothing := endlessPieceAhead_skipEndless language.withoutBlocks text
  generalize skipEndless language.withoutBlocks text = rest at *
  have hpiece : endlessPieceAhead language rest = endlessAhead language rest := by
    rw [endlessPieceAhead_eq_or, hnothing, Found.or]
  cases hopened : past? language.commentStart rest with
  | none =>
    have hnone : endlessAhead language rest = .nothing := by simp only [endlessAhead, hopened]
    exact iff_of_true (skipEndless_nothing (hpiece.trans hnone)) rfl
  | some inner =>
    have hcomment : endlessAhead language rest = .past (leaveComment language inner) := by
      simp only [endlessAhead, hopened]
    have hshorter := endlessAhead_length hcomment
    have hskipped := skipEndless_length language (leaveComment language inner)
    refine iff_of_false (fun hsame => ?_) (by simp)
    rw [skipEndless_past (hpiece.trans hcomment)] at hsame
    rw [hsame] at hskipped
    omega

end WithoutBlocks

end Lexer

/-- A repetition of parts, each of which finds what a pass finds there, leaves behind what the pass
leaves. -/
theorem Parser.Finds.loops {p : Parser .unit} {ahead : List Char → Found}
    {leave : List Char → List Char}
    (hleave : ∀ text, leave text = match ahead text with | .past rest => leave rest | _ => text)
    (hsome : ∀ text, ahead text ≠ .unclosed) (hi : i ≤ input.size)
    (hp : ∀ j, i ≤ j → j ≤ input.size → p.Finds input scope j (ahead (input.toList.drop j)))
    (values : List Unit) :
    ∃ all j, i ≤ j ∧ input.toList.drop j = leave (input.toList.drop i) ∧
      p.Loops input scope values i (.success all) j := by
  induction hleft : input.size - i using Nat.strongRecOn generalizing i values with
  | ind left ih =>
    have hpart := hp i (Nat.le_refl i) hi
    rw [hleave]
    cases hfound : ahead (input.toList.drop i) with
    | unclosed => exact absurd hfound (hsome _)
    | nothing =>
      rw [hfound] at hpart
      exact ⟨_, i, Nat.le_refl i, rfl, .stop hpart⟩
    | past rest =>
      rw [hfound] at hpart
      obtain ⟨j, hij, rfl, hruns⟩ := hpart
      have hj := hruns.le_size hi
      have hlater : ∀ k, j ≤ k → k ≤ input.size → p.Finds input scope k _ :=
        fun k hjk => hp k (by omega)
      obtain ⟨all, k, hjk, hrest, hloops⟩ :=
        ih (input.size - j) (by omega) hj hlater (() :: values) rfl
      exact ⟨all, k, by omega, hrest, hloops.again hruns hij⟩

namespace CommentParts

variable {parts : CommentParts} {name : Label}

section Endless

variable (hmeet : parts.Meet input language) (hsize : input.size < Index.limit)
  (hend : language.commentEnd = "")

include hmeet hsize hend

/-- No character counts as stray, since the closing delimiter stands everywhere. -/
theorem stray_refuses (hi : i ≤ input.size) : parts.stray.Refuses input scope i := by
  have hclosed : language.commentEnd.toList <+: input.toList.drop i := by simp [hend]
  have hfound := (hmeet.refused scope).found hclosed hi
  exact (hfound.refuse hsize (Nat.le_add_right _ _)).bind _ _

theorem endlessItem_finds (hi : i ≤ input.size)
    (hcomment : (Parser.rule name).Finds input scope i
      (endlessAhead language (input.toList.drop i))) :
    (parts.item language name).Finds input scope i
      (endlessItemAhead language (input.toList.drop i)) := by
  have hplain := (hmeet.plain scope).finds hi
  have hstray : parts.stray.Finds input scope i .nothing := stray_refuses hmeet hsize hend hi
  unfold item endlessItemAhead
  split
  · have hitems := FirstFinds.cons hplain (.cons hcomment (.cons hstray .nil))
    rw [Found.or_nothing, Found.or_nothing] at hitems
    exact hitems.choiceAll
  · have hitems := FirstFinds.cons hplain (.cons hstray .nil)
    rw [Found.or_nothing] at hitems
    exact hitems.choiceAll

variable (hstart : language.commentStart ≠ "")

include hstart

/-- A comment that is nowhere closed ends where its inside does. The comments in it begin later,
and have less of the text before them. -/
theorem endlessBody_finds (hlevel : name.level = 0) (hi : i ≤ input.size) :
    (parts.body language name).Finds input (scope.define name (parts.body language name)) i
      (endlessAhead language (input.toList.drop i)) := by
  induction hleft : input.size - i using Nat.strongRecOn generalizing i with
  | ind left ih =>
    have hitem : ∀ k, i < k → k ≤ input.size → (parts.item language name).Finds input
        (scope.define name (parts.body language name)) k
        (endlessItemAhead language (input.toList.drop k)) :=
      fun k hik hk => endlessItem_finds hmeet hsize hend hk
        ((ih (input.size - k) (by omega) hk rfl).rule hlevel)
    generalize scope.define name (parts.body language name) = S at *
    cases hopened : past? language.commentStart (input.toList.drop i) with
    | none =>
      simp only [endlessAhead, hopened]
      have hdiffers := (past?_eq_none_iff.1 hopened).resolve_left hstart
      exact ((hmeet.start S).differs hdiffers hi).bind _ _
    | some rest =>
      obtain ⟨-, htext⟩ := past?_eq_some_iff.1 hopened
      have hfirst := (hmeet.start S).found ⟨rest, htext.symm⟩ hi
      have hrest := drop_add_length htext
      have hfront := List.length_pos_of_ne_nil (mt String.toList_eq_nil_iff.1 hstart)
      have him := Nat.lt_add_of_pos_right (n := i) hfront
      generalize i + language.commentStart.toList.length = m at hfirst hrest him
      have hm := hfirst.le_size hi
      obtain ⟨all, k, hmk, hbehind, hloops⟩ := Parser.Finds.loops
        (leaveComment_eq_endlessItemAhead language) (fun _ => endlessItemAhead_ne_unclosed) hm
        (fun j hmj => hitem j (by omega)) []
      have hinner : (parts.inner language name).Runs input S m (.success ()) k :=
        (hloops.many.map _).memo _
      -- the empty delimiter closes the comment where its inside ends, and takes nothing
      have hclosed : language.commentEnd.toList <+: input.toList.drop k := by simp [hend]
      have hlast := (hmeet.close S).found hclosed (hinner.le_size hm)
      have hempty : k + language.commentEnd.toList.length = k := by simp [hend]
      rw [hempty] at hlast
      simp only [endlessAhead, hopened, ← hrest]
      exact ⟨k, by omega, hbehind, hfirst.andThen (hinner.andThen (hlast.map _))⟩

end Endless

end CommentParts

section Assembly

open Build

variable (hsize : input.size < Index.limit)

include hsize

theorem endlessBlocks_find (hhalf : language.commentStart = "" ∨ language.commentEnd = "") :
    Yields 0 (Lexer.optionalPiece language.commentStart.isEmpty (Lexer.blockComment language))
      fun _ blocks => ∀ scope i, i ≤ input.size →
        FirstFinds input scope i blocks (endlessAhead language (input.toList.drop i)) := by
  by_cases hmarker : language.commentStart = ""
  · rw [String.isEmpty_iff.2 hmarker]
    refine .pure fun _ scope i hi => ?_
    simpa [endlessAhead, past?, hmarker] using FirstFinds.nil
  · have hempty : language.commentStart.isEmpty = false := by simpa using hmarker
    rw [hempty]
    refine (CommentParts.blockComment_meets hsize).bind fun block => .pure ?_
    intro names hblock scope i hi
    obtain ⟨name, parts, hlevel, rfl, hmeet⟩ := hblock
    have hbody : (parts.body language name).Finds input
        (scope.define name (parts.body language name)) i _ :=
      CommentParts.endlessBody_finds hmeet hsize (hhalf.resolve_left hmarker) hmarker hlevel hi
    have hfinds := hbody.recursive
    simpa [Found.or_nothing] using FirstFinds.cons hfinds .nil

theorem blankPieces_findEndless (hhalf : language.commentStart = "" ∨ language.commentEnd = "") :
    Yields 0 (Lexer.blankPieces language) fun _ pieces => ∀ scope i, i ≤ input.size →
      FirstFinds input scope i pieces (endlessPieceAhead language (input.toList.drop i)) := by
  refine (satisfy_accepts hsize _).bind fun blank => (skipMany1_skips blank).bind fun blanks => ?_
  refine (lines_find hsize).bind fun lines => (endlessBlocks_find hsize hhalf).bind fun blocks => ?_
  refine .pure fun names hblocks hlines hblanks hblank scope i hi => ?_
  have hfirst := (hblanks (hblank scope)).finds hi
  exact .cons hfirst ((hlines scope i hi).2.append (hblocks scope i hi))

end Assembly

/-- White space in a language with an empty delimiter of block comments. -/
theorem whiteSpaceOf_skipsEndless (language : Language) (hsize : input.size < Index.limit)
    (hhalf : language.commentStart = "" ∨ language.commentEnd = "") :
    Build.Yields 0 (whiteSpaceOf language) fun _ p => ∀ scope i, i ≤ input.size →
      ∃ j, i ≤ j ∧ input.toList.drop j = skipEndless language (input.toList.drop i) ∧
        p.Runs input scope i (.success ()) j := by
  refine (blankPieces_findEndless hsize hhalf).bind fun pieces => (Build.skipMany_made _).mono ?_
  rintro names _ ⟨label, rfl⟩ hpieces scope i hi
  obtain ⟨all, j, hij, hrest, hloops⟩ := Parser.Finds.loops (skipEndless_eq language)
    (fun _ => endlessPieceAhead_ne_unclosed) hi
    (fun j _ hj => (hpieces scope j hj).choiceAll) []
  exact ⟨j, hij, hrest, (hloops.many.map _).memo label⟩

/-- How far an empty delimiter switches block comments off. White space never fails in such a
language, from every place of every input, and whether or not outcomes are remembered. Without
block comments it skips blanks and line comments. With them it ends there, too, exactly if no
opening delimiter stands there: an empty one stands nowhere, but one that has only an empty
delimiter to close it begins a comment. -/
theorem whiteSpace_withoutBlocks_iff (language : Language)
    (hhalf : language.commentStart = "" ∨ language.commentEnd = "") (input : Array Char)
    (hsize : input.size < Index.limit) (memoize : Bool) (start : Nat)
    (hstart : start ≤ input.size) :
    ∃ stop still, start ≤ still ∧ still ≤ stop ∧ stop ≤ input.size ∧
      ((whiteSpaceOf language).assemble 0).ShowsFrom input memoize start
        (.ok (.success (), stop)) ∧
      ((whiteSpaceOf language.withoutBlocks).assemble 0).ShowsFrom input memoize start
        (.ok (.success (), still)) ∧
      input.toList.drop stop = skipEndless language (input.toList.drop start) ∧
      skipBlanks language.withoutBlocks (input.toList.drop start) =
        some (input.toList.drop still) ∧
      (stop = still ↔ language.commentStart = "" ∨
        ¬ language.commentStart.toList <+: input.toList.drop still) := by
  have hlabelled := Build.assemble_wellLabelled (labelled_compositional.whiteSpaceOf_given language)
  have hlabelled' := Build.assemble_wellLabelled
    (labelled_compositional.whiteSpaceOf_given language.withoutBlocks)
  obtain ⟨names, hskips⟩ := (whiteSpaceOf_skipsEndless language hsize hhalf).assembled
  obtain ⟨names', hskips'⟩ :=
    (whiteSpaceOf_skipsEndless language.withoutBlocks hsize (.inl rfl)).assembled
  obtain ⟨stop, -, hstop, hruns⟩ := hskips Scope.root start hstart
  obtain ⟨still, hstill, hrest, hruns'⟩ := hskips' Scope.root start hstart
  have hle := hruns.le_size hstart
  have hle' := hruns'.le_size hstart
  have hlength : (input.toList.drop stop).length ≤ (input.toList.drop still).length := by
    rw [hstop, hrest, skipEndless_withoutBlocks]
    exact skipEndless_length language _
  simp only [List.length_drop, Array.length_toList] at hlength
  refine ⟨stop, still, hstill, by omega, hle, (hlabelled.showsFrom_iff hruns hstart memoize).2 rfl,
    (hlabelled'.showsFrom_iff hruns' hstart memoize).2 rfl, hstop, ?_, ?_⟩
  · rw [hrest, skipBlanks_withoutBlocks]
  · have hsame : stop = still ↔ input.toList.drop stop = input.toList.drop still := by
      refine ⟨fun h => by rw [h], fun h => ?_⟩
      rw [size_sub_length h hle, ← size_sub_length rfl hle']
    rw [hsame, hstop, hrest, skipEndless_eq_withoutBlocks_iff, past?_eq_none_iff]

/-- Behind a blank a comment begins that nothing closes. -/
theorem whiteSpace_withoutBlocks_unclosed :
    ((Language.plain.assemble 0).unclosedComments.commentStart = "" ∨
      (Language.plain.assemble 0).unclosedComments.commentEnd = "") ∧
    " /* a".toList.toArray.size < Index.limit ∧ 0 ≤ " /* a".toList.toArray.size ∧
    ((whiteSpaceOf (Language.plain.assemble 0).unclosedComments).assemble 0).ShowsFrom
      " /* a".toList.toArray true 0 (.ok (.success (), 5)) ∧
    ((whiteSpaceOf (Language.plain.assemble 0).unclosedComments.withoutBlocks).assemble
      0).ShowsFrom " /* a".toList.toArray true 0 (.ok (.success (), 1)) := by
  have hhalf : (Language.plain.assemble 0).unclosedComments.commentStart = "" ∨
      (Language.plain.assemble 0).unclosedComments.commentEnd = "" := .inr rfl
  have hsize : " /* a".toList.toArray.size < Index.limit := by decide
  obtain ⟨stop, still, -, hle, hstop, hshows, hshows', hrest, hblanks, -⟩ :=
    whiteSpace_withoutBlocks_iff _ hhalf _ hsize true 0 (Nat.zero_le _)
  have hend : stop = 5 := by
    rw [size_sub_length hrest hstop]
    decide +kernel
  have hskipped : skipBlanks (Language.plain.assemble 0).unclosedComments.withoutBlocks
      (" /* a".toList.toArray.toList.drop 0) = some ['/', '*', ' ', 'a'] := by decide +kernel
  have hend' : still = 1 := by
    rw [size_sub_length (Option.some.inj (hblanks.symm.trans hskipped)) (Nat.le_trans hle hstop)]
    decide
  exact ⟨hhalf, hsize, Nat.zero_le _, hend ▸ hshows, hend' ▸ hshows'⟩

end ParserKit
