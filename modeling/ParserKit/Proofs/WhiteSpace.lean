import ParserKit.Proofs.OnePass
import ParserKit.Proofs.Scanning
import ParserKit.Proofs.TokenLabels

/-!
White space is what one pass over the text finds. The parser of comments is a rule that
refers to itself; it reads runs of characters outside the delimiters at once and looks
ahead for the closing delimiter. The delimiters may share characters or begin with each
other.
-/

namespace ParserKit

open Lexer
open ParserKit.Parser (Proceeds)

variable {input : Array Char} {scope : Scope} {i j : Nat} {language : Language}

namespace Parser

/-- From the place `i` the parser does what a scanner has found there. -/
def Finds (input : Array Char) (scope : Scope) (p : Parser .unit) (i : Nat) : Found → Prop
  | .nothing => p.Refuses input scope i
  | .past rest => ∃ j, i < j ∧ input.toList.drop j = rest ∧ p.Runs input scope i (.success ()) j
  | .unclosed => p.Breaks input scope i

theorem Finds.proceeds {p : Parser .unit} {found : Found} (h : p.Finds input scope i found) :
    p.Proceeds input scope i := by
  cases found with
  | nothing => exact .inl (.inl h)
  | unclosed => exact .inl (.inr h)
  | past rest =>
    obtain ⟨j, hij, -, hruns⟩ := h
    exact .inr ⟨(), j, hij, hruns⟩

theorem Skips.finds {p : Parser .unit} {accepts : Char → Bool} (hp : p.Skips input scope accepts)
    (hi : i ≤ input.size) :
    p.Finds input scope i (runAhead accepts (input.toList.drop i)) := by
  cases hchar : input[i]? with
  | none =>
    simp only [runAhead, head?_drop, hchar, Option.any_none, Bool.false_eq_true, if_false]
    exact hp.rejected hi (by simp [hchar])
  | some c =>
    cases hc : accepts c with
    | true =>
      simp only [runAhead, head?_drop, hchar, Option.any_some, hc, if_true]
      exact hp.skipped hchar hc
    | false =>
      simp only [runAhead, head?_drop, hchar, Option.any_some, hc, Bool.false_eq_true, if_false]
      exact hp.rejected hi (by simp [hchar, hc])

theorem Finds.rule {name : Label} {body : Parser .unit} {found : Found} (hname : name.level = 0)
    (h : body.Finds input (scope.define name body) i found) :
    (Parser.rule name).Finds input (scope.define name body) i found := by
  cases found with
  | nothing => exact Exists.imp (fun _ h => h.rule hname) h
  | unclosed =>
    obtain ⟨expected, j, h⟩ := h
    exact ⟨expected, j, h.rule hname⟩
  | past rest =>
    obtain ⟨j, hij, hrest, h⟩ := h
    exact ⟨j, hij, hrest, h.rule hname⟩

theorem Finds.recursive {name : Label} {body : Parser .unit} {found : Found}
    (h : body.Finds input (scope.define name body) i found) :
    (Parser.recursive name body).Finds input scope i found := by
  cases found with
  | nothing => exact Exists.imp (fun _ h => h.recursive) h
  | unclosed =>
    obtain ⟨expected, j, h⟩ := h
    exact ⟨expected, j, h.recursive⟩
  | past rest =>
    obtain ⟨j, hij, hrest, h⟩ := h
    exact ⟨j, hij, hrest, h.recursive⟩

/-- What alternatives find, of which the first that finds something counts. -/
inductive FirstFinds (input : Array Char) (scope : Scope) (i : Nat) :
    List (Parser .unit) → Found → Prop
  | nil : FirstFinds input scope i [] .nothing
  | cons {p : Parser .unit} {rest : List (Parser .unit)} {found later : Found} :
    p.Finds input scope i found → FirstFinds input scope i rest later →
    FirstFinds input scope i (p :: rest) (found.or later)

theorem FirstFinds.append {first second : List (Parser .unit)} {found later : Found}
    (hfirst : FirstFinds input scope i first found)
    (hsecond : FirstFinds input scope i second later) :
    FirstFinds input scope i (first ++ second) (found.or later) := by
  induction hfirst with
  | nil => exact hsecond
  | cons hp _ ih =>
    rw [Found.or_assoc]
    exact .cons hp ih

theorem FirstFinds.choiceAll {items : List (Parser .unit)} {found : Found}
    (h : FirstFinds input scope i items found) : (choiceAll items).Finds input scope i found := by
  induction h with
  | nil => exact .zero
  | @cons p rest found later hp hrest ih =>
    cases rest with
    | nil =>
      cases hrest
      rw [Found.or_nothing]
      exact hp
    | cons q rest =>
      cases found with
      | past text =>
        obtain ⟨j, hij, htext, hp⟩ := hp
        exact ⟨j, hij, htext, hp.choice_success⟩
      | unclosed => exact Breaks.choice hp
      | nothing =>
        cases later with
        | nothing => exact Refuses.choice hp ih
        | unclosed => exact Refuses.choice_breaks hp ih
        | past text =>
          obtain ⟨j, hij, htext, hq⟩ := ih
          exact ⟨j, hij, htext, Refuses.choice_success hp hq⟩

end Parser

open ParserKit.Parser (FirstFinds)

/-- The parts that the definition of block comments is put together from. -/
structure CommentParts where
  start : Parser .text
  plain : Parser .unit
  refused : Parser .text
  delimiter : Parser .char
  close : Parser .text
  loop : Label

namespace CommentParts

variable {parts : CommentParts} {name : Label}

/-- A character of a delimiter where the closing delimiter does not stand. -/
def stray (parts : CommentParts) : Parser .unit :=
  parts.refused.notFollowedBy.andThen (parts.delimiter.map (b := .unit) fun _ => ())

/-- What may stand in a comment. -/
def item (parts : CommentParts) (language : Language) (name : Label) : Parser .unit :=
  .choiceAll (if language.nestedComments then [parts.plain, .rule name, parts.stray]
    else [parts.plain, parts.stray])

def inner (parts : CommentParts) (language : Language) (name : Label) : Parser .unit :=
  .memo parts.loop ((Parser.many (parts.item language name)).map (b := .unit) fun _ => ())

def body (parts : CommentParts) (language : Language) (name : Label) : Parser .unit :=
  parts.start.andThen
    ((parts.inner language name).andThen (parts.close.map (b := .unit) fun _ => ()))

/-- The parts do what the delimiters of the language ask of them. -/
structure Meet (input : Array Char) (language : Language) (parts : CommentParts) : Prop where
  start : ∀ scope, parts.start.Takes input scope language.commentStart.toList language.commentStart
  plain : ∀ scope, parts.plain.Skips input scope fun c => !delimits language c
  refused : ∀ scope, parts.refused.Spells input scope language.commentEnd
  delimiter : ∀ scope, parts.delimiter.Accepts input scope (delimits language)
  close : ∀ scope, parts.close.Takes input scope language.commentEnd.toList language.commentEnd
  plain_refuses : ∀ scope i, i ≤ input.size → (∀ c, input[i]? = some c → delimits language c = true) →
    parts.plain.RefusesHere input scope i
  close_refuses : ∀ scope i, i ≤ input.size → ¬ language.commentEnd.toList <+: input.toList.drop i →
    parts.close.Runs input scope i (.fail (.positioned "end of comment" i)) i

open Build in
theorem blockComment_meets (hsize : input.size < Index.limit) {level : Nat} :
    Yields level (Lexer.blockComment language) fun _ p => ∃ (name : Label) (parts : CommentParts),
      name.level = level ∧ p = .recursive name (parts.body language name) ∧
        parts.Meet input language := by
  have hrule : Yields level (Lexer.blockComment language) fun names p => ∃ name body,
      name.level = level ∧ p = .recursive name body ∧ names name = some ⟨.unit, body⟩ ∧
        ∃ parts : CommentParts, body = parts.body language name ∧ parts.Meet input language := by
    refine rule_yields fun name _ => ?_
    refine ((satisfy_accepts hsize _).and (satisfy_refusesHere hsize _)).bind fun out => ?_
    refine ((skipMany1_skips out).and (skipMany1_refusesHere out)).bind fun plain => ?_
    refine (string_spells hsize _).bind fun refused =>
      (satisfy_accepts hsize _).bind fun delimiter => ?_
    refine (string_spells hsize _).bind fun closing => (attempt_takes closing).bind fun tried => ?_
    refine ((label_takes tried _).and (label_refuses tried _)).bind fun close => ?_
    refine (string_spells hsize _).bind fun opening =>
      (attempt_takes opening).bind fun start => (skipMany_made _).bind fun inner => .pure ?_
    intro names hinner hstart hopening hclose htried hclosing hdelimiter hrefused hplain hout
    obtain ⟨loop, rfl⟩ := hinner
    refine ⟨⟨start, plain, refused, delimiter, close, loop⟩, rfl, ?_⟩
    refine ⟨fun scope => hstart (hopening scope), fun scope => hplain.1 (hout.1 scope), hrefused,
      hdelimiter, fun scope => hclose.1 (htried (hclosing scope)), ?_, ?_⟩
    · intro scope i hi hchar
      exact hplain.2 (hout.2 scope i hi fun c hc => congrArg (! ·) (hchar c hc))
    · exact fun scope i hi hdiffers => hclose.2 ((htried (hclosing scope)).differs hdiffers hi)
  refine hrule.mono ?_
  rintro names p ⟨name, _, hlevel, rfl, -, parts, rfl, hparts⟩
  exact ⟨name, parts, hlevel, rfl, hparts⟩

section Items

variable (hmeet : parts.Meet input language) (hsize : input.size < Index.limit)

include hmeet hsize

theorem stray_finds (hi : i ≤ input.size) (hend : language.commentEnd ≠ "") :
    parts.stray.Finds input scope i (strayAhead language (input.toList.drop i)) := by
  cases hclosed : past? language.commentEnd (input.toList.drop i) with
  | some rest =>
    obtain ⟨-, hrest⟩ := past?_eq_some_iff.1 hclosed
    have hfound := (hmeet.refused scope).found ⟨rest, hrest.symm⟩ hi
    have hnothing : strayAhead language (input.toList.drop i) = .nothing := by
      cases htext : input.toList.drop i with
      | nil => rfl
      | cons c tail =>
        rw [htext] at hclosed
        simp [strayAhead, hclosed]
    rw [hnothing]
    exact (hfound.refuse hsize (Nat.le_add_right _ _)).bind _ _
  | none =>
    have hdiffers := (past?_eq_none_iff.1 hclosed).resolve_left hend
    have hahead := ((hmeet.refused scope).differs hdiffers hi).refuse
    cases htext : input.toList.drop i with
    | nil => exact hahead.bind_refuses _ _ (((hmeet.delimiter scope).refuses_nil hi htext).map _)
    | cons c tail =>
      obtain ⟨hchar, htail⟩ := drop_eq_cons_iff.1 htext
      rw [htext] at hclosed
      cases hc : delimits language c with
      | true =>
        simp only [strayAhead, hc, hclosed, Option.isNone_none, Bool.and_self, if_true]
        have hruns := (hmeet.delimiter scope).accepted hchar hc
        exact ⟨i + 1, Nat.lt_succ_self i, htail, hahead.andThen (hruns.map _)⟩
      | false =>
        simp only [strayAhead, hc, Bool.false_and, Bool.false_eq_true, if_false]
        exact hahead.bind_refuses _ _ (((hmeet.delimiter scope).refuses_cons hi htext hc).map _)

/-- The alternatives find what stands inside a comment. -/
theorem item_finds (hi : i ≤ input.size) (hend : language.commentEnd ≠ "")
    (hcomment : (Parser.rule name).Finds input scope i (blockAhead language (input.toList.drop i))) :
    (parts.item language name).Finds input scope i (itemAhead language (input.toList.drop i)) := by
  have hplain := (hmeet.plain scope).finds hi
  have hstray : parts.stray.Finds input scope i _ := stray_finds hmeet hsize hi hend
  unfold item itemAhead
  split
  · have hitems := Parser.FirstFinds.cons hplain (.cons hcomment (.cons hstray .nil))
    rw [Found.or_nothing] at hitems
    exact hitems.choiceAll
  · have hitems := Parser.FirstFinds.cons hplain (.cons hstray .nil)
    rw [Found.or_nothing] at hitems
    exact hitems.choiceAll

end Items

/-- Inside a comment a repetition ends where the closing delimiter counts, or where the text
ends; or it breaks because a comment in the comment does not end. -/
def Inside (input : Array Char) (language : Language) (scope : Scope) (p : Parser .unit) (i : Nat) :
    Prop :=
  ∀ values, (∃ expected j, p.Loops input scope values i (.failure ⟨expected, true⟩) j ∧
      closeComment language 1 (input.toList.drop i) = none) ∨
    ∃ all j, i ≤ j ∧ j ≤ input.size ∧ p.Loops input scope values i (.success all) j ∧
      closeComment language 1 (input.toList.drop i) =
        past? language.commentEnd (input.toList.drop j)

section Inside

variable {p : Parser .unit}

theorem Inside.again (hp : p.Runs input scope i (.success ()) j) (hij : i < j)
    (hclose : closeComment language 1 (input.toList.drop i) =
      closeComment language 1 (input.toList.drop j))
    (h : Inside input language scope p j) : Inside input language scope p i := by
  intro values
  rcases h (() :: values) with ⟨expected, k, hloops, hnone⟩ | ⟨all, k, hjk, hk, hloops, hend⟩
  · exact .inl ⟨expected, k, hloops.again hp hij, hclose.trans hnone⟩
  · exact .inr ⟨all, k, by omega, hk, hloops.again hp hij, hclose.trans hend⟩

theorem Inside.stop (hp : p.Refuses input scope i) (hi : i ≤ input.size)
    (hclose : closeComment language 1 (input.toList.drop i) =
      past? language.commentEnd (input.toList.drop i)) : Inside input language scope p i :=
  fun _ => .inr ⟨_, i, Nat.le_refl i, hi, .stop hp, hclose⟩

theorem Inside.broken (hp : p.Breaks input scope i)
    (hclose : closeComment language 1 (input.toList.drop i) = none) :
    Inside input language scope p i := by
  obtain ⟨expected, j, hp⟩ := hp
  exact fun _ => .inl ⟨expected, j, .broken hp, hclose⟩

end Inside

section Exact

variable (hmeet : parts.Meet input language) (hsize : input.size < Index.limit)
  (hstart : language.commentStart ≠ "") (hend : language.commentEnd ≠ "")

include hmeet hstart hend

/-- The definition finds a comment, given what its inside is. -/
theorem body_finds (hi : i ≤ input.size)
    (hinside : ∀ j, i < j → j ≤ input.size →
      Inside input language scope (parts.item language name) j) :
    (parts.body language name).Finds input scope i
      (blockAhead language (input.toList.drop i)) := by
  cases hopened : past? language.commentStart (input.toList.drop i) with
  | none =>
    simp only [blockAhead, hopened]
    have hdiffers := (past?_eq_none_iff.1 hopened).resolve_left hstart
    exact ((hmeet.start scope).differs hdiffers hi).bind _ _
  | some rest =>
    obtain ⟨-, htext⟩ := past?_eq_some_iff.1 hopened
    have hfirst := (hmeet.start scope).found ⟨rest, htext.symm⟩ hi
    have hrest := drop_add_length htext
    have hfront := List.length_pos_of_ne_nil (mt String.toList_eq_nil_iff.1 hstart)
    have him := Nat.lt_add_of_pos_right (n := i) hfront
    generalize i + language.commentStart.toList.length = m at hfirst hrest him
    have hm := hfirst.le_size hi
    rcases hinside m him hm [] with ⟨expected, k, hloops, hnone⟩ | ⟨all, k, hmk, hk, hloops, hclose⟩
    · have hinner : (parts.inner language name).Breaks input scope m :=
        ⟨expected, k, (hloops.many.convert_failure _).memo _⟩
      simp only [blockAhead, hopened, ← hrest, hnone]
      exact hfirst.andThen_fails him (.inr (hinner.bind _ _))
    · have hinner : (parts.inner language name).Runs input scope m (.success ()) k :=
        (hloops.many.map _).memo _
      cases hclosed : past? language.commentEnd (input.toList.drop k) with
      | none =>
        simp only [blockAhead, hopened, ← hrest, hclose, hclosed]
        have hdiffers := (past?_eq_none_iff.1 hclosed).resolve_left hend
        have hlast := ((hmeet.close scope).differs hdiffers hk).map (b := .unit) fun _ => ()
        exact hfirst.andThen_fails him (hinner.bind_fails_of_le _ _ hmk (.inl hlast))
      | some after =>
        simp only [blockAhead, hopened, ← hrest, hclose, hclosed]
        obtain ⟨-, hafter⟩ := past?_eq_some_iff.1 hclosed
        have hlast := (hmeet.close scope).found ⟨after, hafter.symm⟩ hk
        exact ⟨_, by omega, drop_add_length hafter,
          hfirst.andThen (hinner.andThen (hlast.map _))⟩

include hsize

/-- What the inside of a comment is, by the pass over the text that is left. The comments in
it begin where it does or later, and their insides are shorter. -/
theorem inside (hlevel : name.level = 0) (hi : i ≤ input.size) :
    Inside input language (scope.define name (parts.body language name))
      (parts.item language name) i := by
  induction hleft : input.size - i using Nat.strongRecOn generalizing i with
  | ind left ih =>
    have hlater : ∀ j, i < j → j ≤ input.size → Inside input language
        (scope.define name (parts.body language name)) (parts.item language name) j :=
      fun j hij hj => ih (input.size - j) (by omega) hj rfl
    generalize hscope : scope.define name (parts.body language name) = S at *
    have hcomment : (Parser.rule name).Finds input S i
        (blockAhead language (input.toList.drop i)) := by
      subst hscope
      exact (body_finds hmeet hstart hend hi hlater).rule hlevel
    have hitem := item_finds hmeet hsize hi hend hcomment
    have hclose := closeComment_eq_itemAhead language (input.toList.drop i)
    cases hfound : itemAhead language (input.toList.drop i) with
    | nothing =>
      rw [hfound] at hitem hclose
      exact .stop hitem hi hclose
    | unclosed =>
      rw [hfound] at hitem hclose
      exact .broken hitem hclose
    | past rest =>
      rw [hfound] at hitem hclose
      obtain ⟨j, hij, hrest, hruns⟩ := hitem
      rw [← hrest] at hclose
      exact .again hruns hij hclose (hlater j hij (hruns.le_size hi))

theorem rule_finds (hlevel : name.level = 0) (hi : i ≤ input.size) :
    (Parser.rule name).Finds input (scope.define name (parts.body language name)) i
      (blockAhead language (input.toList.drop i)) :=
  (body_finds hmeet hstart hend hi fun _ _ hj =>
    inside hmeet hsize hstart hend hlevel hj).rule hlevel

theorem comment_finds (hlevel : name.level = 0) (hi : i ≤ input.size) :
    (Parser.recursive name (parts.body language name)).Finds input scope i
      (blockAhead language (input.toList.drop i)) :=
  Parser.Finds.recursive (body_finds hmeet hstart hend hi fun _ _ hj =>
    inside hmeet hsize hstart hend hlevel hj)

end Exact

section Ends

variable (hmeet : parts.Meet input language) (hsize : input.size < Index.limit)
  (hstart : language.commentStart ≠ "")

include hmeet hsize

/-- Also where the closing delimiter is empty. -/
theorem stray_proceeds (hi : i ≤ input.size) : parts.stray.Proceeds input scope i := by
  by_cases hclosed : language.commentEnd.toList <+: input.toList.drop i
  · have hfound := (hmeet.refused scope).found hclosed hi
    exact .inl (.inl ((hfound.refuse hsize (Nat.le_add_right _ _)).bind _ _))
  · have hahead := ((hmeet.refused scope).differs hclosed hi).refuse
    rcases (hmeet.delimiter scope).refuses_or_runs hi with hother | ⟨c, hruns⟩
    · exact .inl (.inl (hahead.bind_refuses _ _ (hother.map _)))
    · exact .inr ⟨(), i + 1, Nat.lt_succ_self i, hahead.andThen (hruns.map _)⟩

include hstart

theorem body_proceeds (hlevel : name.level = 0) (hi : i ≤ input.size) :
    (parts.body language name).Proceeds input (scope.define name (parts.body language name)) i := by
  induction hleft : input.size - i using Nat.strongRecOn generalizing i with
  | ind left ih =>
    have hitem : ∀ k, i < k → k ≤ input.size → (parts.item language name).Proceeds input
        (scope.define name (parts.body language name)) k := by
      intro k hik hk
      have hplain := ((hmeet.plain (scope.define name (parts.body language name))).finds hk).proceeds
      have hcomment := (ih (input.size - k) (by omega) hk rfl).rule hlevel
      have hstray : parts.stray.Proceeds input
          (scope.define name (parts.body language name)) k := stray_proceeds hmeet hsize hk
      unfold item
      split
      · exact .choiceAll (by simp [hplain, hcomment, hstray])
      · exact .choiceAll (by simp [hplain, hstray])
    generalize scope.define name (parts.body language name) = S at *
    refine ((hmeet.start S).proceeds (mt String.toList_eq_nil_iff.1 hstart) hi).andThen hi
      fun j hij hj => ?_
    have hinner : (parts.inner language name).Exhausts input S j :=
      ((Proceeds.many (fun k hjk hk => hitem k (by omega) hk) hj).map _).memo _
    exact hinner.commits.settles.andThen hj fun k _ hk => ((hmeet.close S).settles hk).map _

theorem comment_proceeds (hlevel : name.level = 0) (hi : i ≤ input.size) :
    (Parser.recursive name (parts.body language name)).Proceeds input scope i :=
  (body_proceeds hmeet hsize hstart hlevel hi).recursive

end Ends

end CommentParts

section Assembly

open Build

variable (hsize : input.size < Index.limit) {level : Nat}

include hsize

theorem lineComment_finds (hmarker : language.commentLine ≠ "") :
    Yields level (Lexer.lineComment language.commentLine) fun _ p => ∀ scope i, i ≤ input.size →
      p.Finds input scope i (lineAhead language (input.toList.drop i)) := by
  refine (string_spells hsize _).bind fun marker => (attempt_takes marker).bind fun start => ?_
  refine (satisfy_accepts hsize _).bind fun other => (skipMany_made other).bind fun rest => .pure ?_
  rintro names ⟨label, rfl⟩ hother hstart hmarker' scope i hi
  cases hopened : past? language.commentLine (input.toList.drop i) with
  | none =>
    simp only [lineAhead, hopened]
    have hdiffers := (past?_eq_none_iff.1 hopened).resolve_left hmarker
    exact ((hstart (hmarker' scope)).differs hdiffers hi).bind _ _
  | some text =>
    simp only [lineAhead, hopened]
    obtain ⟨-, htext⟩ := past?_eq_some_iff.1 hopened
    have hfirst := (hstart (hmarker' scope)).found ⟨text, htext.symm⟩ hi
    have hlength := List.length_pos_of_ne_nil (mt String.toList_eq_nil_iff.1 hmarker)
    have hmany := ((hother scope).many_while (hfirst.le_size hi)).map (b := .unit) fun _ => ()
    refine ⟨_, by omega, ?_, hfirst.andThen (hmany.memo label)⟩
    rw [drop_add_takeWhile, drop_add_length htext]

/-- Block comments come to an end, and they are what the pass over them finds if the closing
delimiter is not empty. -/
theorem blockComment_finds (hstart : language.commentStart ≠ "") :
    Yields 0 (Lexer.blockComment language) fun _ p => ∀ scope i, i ≤ input.size →
      p.Proceeds input scope i ∧ (language.commentEnd ≠ "" →
        p.Finds input scope i (blockAhead language (input.toList.drop i))) := by
  refine (CommentParts.blockComment_meets hsize).mono ?_
  rintro names p ⟨name, parts, hlevel, rfl, hmeet⟩ scope i hi
  exact ⟨CommentParts.comment_proceeds hmeet hsize hstart hlevel hi,
    fun hend => CommentParts.comment_finds hmeet hsize hstart hend hlevel hi⟩

/-- An empty marker is found nowhere, and there is no piece for it. -/
theorem lines_find :
    Yields level (Lexer.optionalPiece language.commentLine.isEmpty
      (Lexer.lineComment language.commentLine)) fun _ lines => ∀ scope i, i ≤ input.size →
        (∀ p ∈ lines, p.Proceeds input scope i) ∧
          FirstFinds input scope i lines (lineAhead language (input.toList.drop i)) := by
  by_cases hmarker : language.commentLine = ""
  · have hempty : language.commentLine.isEmpty = true := String.isEmpty_iff.2 hmarker
    rw [hempty]
    refine .pure fun _ scope i hi => ⟨by simp, ?_⟩
    simpa [lineAhead, past?, hmarker] using FirstFinds.nil
  · have hempty : language.commentLine.isEmpty = false := by simpa using hmarker
    rw [hempty]
    refine (lineComment_finds hsize hmarker).bind fun line => .pure fun _ hline scope i hi => ?_
    have hfinds := hline scope i hi
    refine ⟨by simpa using hfinds.proceeds, ?_⟩
    simpa [Found.or_nothing] using FirstFinds.cons hfinds .nil

theorem blocks_find :
    Yields 0 (Lexer.optionalPiece language.commentStart.isEmpty (Lexer.blockComment language))
      fun _ blocks => ∀ scope i, i ≤ input.size →
        (∀ p ∈ blocks, p.Proceeds input scope i) ∧
          ((language.commentStart ≠ "" → language.commentEnd ≠ "") →
            FirstFinds input scope i blocks (blockAhead language (input.toList.drop i))) := by
  by_cases hmarker : language.commentStart = ""
  · have hempty : language.commentStart.isEmpty = true := String.isEmpty_iff.2 hmarker
    rw [hempty]
    refine .pure fun _ scope i hi => ⟨by simp, fun _ => ?_⟩
    simpa [blockAhead, past?, hmarker] using FirstFinds.nil
  · have hempty : language.commentStart.isEmpty = false := by simpa using hmarker
    rw [hempty]
    refine (blockComment_finds hsize hmarker).bind fun block => .pure fun _ hblock scope i hi => ?_
    obtain ⟨hproceeds, hfinds⟩ := hblock scope i hi
    refine ⟨by simpa using hproceeds, fun hend => ?_⟩
    simpa [Found.or_nothing] using FirstFinds.cons (hfinds (hend hmarker)) .nil

/-- The pieces of white space come to an end, and the first that finds something is what the
pass over the text finds. -/
theorem blankPieces_find :
    Yields 0 (Lexer.blankPieces language) fun _ pieces => ∀ scope i, i ≤ input.size →
      (∀ p ∈ pieces, p.Proceeds input scope i) ∧
        ((language.commentStart ≠ "" → language.commentEnd ≠ "") →
          FirstFinds input scope i pieces (pieceAhead language (input.toList.drop i))) := by
  refine (satisfy_accepts hsize _).bind fun blank => (skipMany1_skips blank).bind fun blanks => ?_
  refine (lines_find hsize).bind fun lines => (blocks_find hsize).bind fun blocks => .pure ?_
  intro names hblocks hlines hblanks hblank scope i hi
  have hfirst := (hblanks (hblank scope)).finds hi
  obtain ⟨hlinesEnd, hlinesFind⟩ := hlines scope i hi
  obtain ⟨hblocksEnd, hblocksFind⟩ := hblocks scope i hi
  exact ⟨List.forall_mem_cons.2 ⟨hfirst.proceeds, List.forall_mem_append.2 ⟨hlinesEnd, hblocksEnd⟩⟩,
    fun hend => .cons hfirst (hlinesFind.append (hblocksFind hend))⟩

/-- Where no comment begins, the pieces for comments find nothing, also those for comments that
have no end. -/
theorem blocks_still :
    Yields 0 (Lexer.optionalPiece language.commentStart.isEmpty (Lexer.blockComment language))
      fun _ blocks => ∀ scope i, i ≤ input.size →
        past? language.commentStart (input.toList.drop i) = none →
          FirstFinds input scope i blocks .nothing := by
  by_cases hmarker : language.commentStart = ""
  · rw [String.isEmpty_iff.2 hmarker]
    exact .pure fun _ scope i hi _ => .nil
  · have hempty : language.commentStart.isEmpty = false := by simpa using hmarker
    rw [hempty]
    refine (CommentParts.blockComment_meets hsize).bind fun block => .pure ?_
    intro names hblock scope i hi hopened
    obtain ⟨name, parts, -, rfl, hmeet⟩ := hblock
    have hdiffers := (past?_eq_none_iff.1 hopened).resolve_left hmarker
    have hrefuses : (parts.body language name).Finds input
        (scope.define name (parts.body language name)) i .nothing :=
      ((hmeet.start _).differs hdiffers hi).bind _ _
    exact .cons hrefuses.recursive .nil

theorem blankPieces_still :
    Yields 0 (Lexer.blankPieces language) fun _ pieces => ∀ scope i, i ≤ input.size →
      pieceAhead language (input.toList.drop i) = .nothing →
        FirstFinds input scope i pieces .nothing := by
  refine (satisfy_accepts hsize _).bind fun blank => (skipMany1_skips blank).bind fun blanks => ?_
  refine (lines_find hsize).bind fun lines => (blocks_still hsize).bind fun blocks => .pure ?_
  intro names hblocks hlines hblanks hblank scope i hi hnothing
  obtain ⟨hblanksAhead, hcomments⟩ := Found.or_eq_nothing hnothing
  obtain ⟨hlineAhead, hblockAhead⟩ := Found.or_eq_nothing hcomments
  have hfirst := (hblanks (hblank scope)).finds hi
  have hlines := (hlines scope i hi).2
  rw [hblanksAhead] at hfirst
  rw [hlineAhead] at hlines
  exact .cons hfirst (hlines.append (hblocks scope i hi (past?_of_blockAhead hblockAhead)))

end Assembly

/-- A repetition of pieces skips what the pass over the text skips, and it breaks as the piece
does at which the pass fails. -/
theorem Parser.skipBlanks_loops {p : Parser .unit} (cause : Expectation → Nat → Prop)
    (hi : i ≤ input.size)
    (hp : ∀ j ≤ input.size, p.Finds input scope j (pieceAhead language (input.toList.drop j)))
    (hbreaks : ∀ j ≤ input.size, pieceAhead language (input.toList.drop j) = .unclosed →
      ∃ expected k, cause expected k ∧ p.Runs input scope j (.failure ⟨expected, true⟩) k)
    (values : List Unit) :
    match skipBlanks language (input.toList.drop i) with
    | some rest => ∃ all j, i ≤ j ∧ input.toList.drop j = rest ∧
        p.Loops input scope values i (.success all) j
    | none => ∃ expected k, cause expected k ∧
        p.Loops input scope values i (.failure ⟨expected, true⟩) k := by
  induction hleft : input.size - i using Nat.strongRecOn generalizing i values with
  | ind left ih =>
    have hpiece := hp i hi
    rw [skipBlanks_eq]
    cases hfound : pieceAhead language (input.toList.drop i) with
    | nothing =>
      rw [hfound] at hpiece
      exact ⟨_, i, Nat.le_refl i, rfl, .stop hpiece⟩
    | unclosed =>
      obtain ⟨expected, k, hcause, hruns⟩ := hbreaks i hi hfound
      exact ⟨expected, k, hcause, .broken hruns⟩
    | past rest =>
      rw [hfound] at hpiece
      obtain ⟨j, hij, rfl, hruns⟩ := hpiece
      have hj := hruns.le_size hi
      have hlater := ih (input.size - j) (by omega) hj (() :: values) rfl
      cases hskip : skipBlanks language (input.toList.drop j) with
      | some rest =>
        simp only [hskip] at hlater ⊢
        obtain ⟨all, k, hjk, hrest, hloops⟩ := hlater
        exact ⟨all, k, by omega, hrest, hloops.again hruns hij⟩
      | none =>
        simp only [hskip] at hlater ⊢
        obtain ⟨expected, k, hcause, hloops⟩ := hlater
        exact ⟨expected, k, hcause, hloops.again hruns hij⟩

/-- White space stays where it has ended, in every language: it goes on until none of its
pieces has anything to read. -/
theorem whiteSpaceOf_exhausts (language : Language) (hsize : input.size < Index.limit) :
    Build.Yields 0 (whiteSpaceOf language) fun _ p => ∀ scope i, i ≤ input.size →
      p.Exhausts input scope i := by
  refine (blankPieces_find hsize).bind fun pieces => (Build.skipMany_made _).mono ?_
  intro names p hp hpieces scope i hi
  obtain ⟨label, rfl⟩ := hp
  have hall : ∀ j, i ≤ j → j ≤ input.size → (Parser.choiceAll pieces).Proceeds input scope j :=
    fun j _ hj => .choiceAll (hpieces scope j hj).1
  exact ((Proceeds.many hall hi).map _).memo label

/-- White space comes to an end in every language. In languages whose comments can be closed
it ends where the pass over the text does, and breaks where the pass fails. -/
theorem whiteSpaceOf_skips (language : Language) (hsize : input.size < Index.limit) :
    Build.Yields 0 (whiteSpaceOf language) fun _ p => ∀ scope i, i ≤ input.size →
      p.Commits input scope i ∧ ((language.commentStart ≠ "" → language.commentEnd ≠ "") →
        match skipBlanks language (input.toList.drop i) with
        | some rest => ∃ j, i ≤ j ∧ input.toList.drop j = rest ∧
            p.Runs input scope i (.success ()) j
        | none => p.Breaks input scope i) := by
  refine (blankPieces_find hsize).bind fun pieces => (Build.skipMany_made _).mono ?_
  rintro names _ ⟨label, rfl⟩ hpieces scope i hi
  have hall : ∀ j, i ≤ j → j ≤ input.size → (Parser.choiceAll pieces).Proceeds input scope j :=
    fun j _ hj => .choiceAll (hpieces scope j hj).1
  refine ⟨(((Proceeds.many hall hi).map _).memo label).commits, fun hend => ?_⟩
  have hfinds : ∀ j ≤ input.size, (Parser.choiceAll pieces).Finds input scope j
      (pieceAhead language (input.toList.drop j)) :=
    fun j hj => ((hpieces scope j hj).2 hend).choiceAll
  have hbreaks : ∀ j ≤ input.size, pieceAhead language (input.toList.drop j) = .unclosed →
      ∃ expected k, True ∧
        (Parser.choiceAll pieces).Runs input scope j (.failure ⟨expected, true⟩) k := by
    intro j hj hfound
    have hpiece := hfinds j hj
    rw [hfound] at hpiece
    obtain ⟨expected, k, hpiece⟩ := hpiece
    exact ⟨expected, k, trivial, hpiece⟩
  have hloops := Parser.skipBlanks_loops (fun _ _ => True) hi hfinds hbreaks []
  cases hskip : skipBlanks language (input.toList.drop i) with
  | some rest =>
    simp only [hskip] at hloops ⊢
    obtain ⟨all, j, hij, hrest, hloops⟩ := hloops
    exact ⟨j, hij, hrest, (hloops.many.map _).memo label⟩
  | none =>
    simp only [hskip] at hloops ⊢
    obtain ⟨expected, j, -, hloops⟩ := hloops
    exact ⟨expected, j, (hloops.many.convert_failure _).memo label⟩

/-- White space stays where the pass over the text finds nothing to skip, in every language. -/
theorem whiteSpaceOf_still (language : Language) (hsize : input.size < Index.limit) :
    Build.Yields 0 (whiteSpaceOf language) fun _ p => ∀ scope i, i ≤ input.size →
      pieceAhead language (input.toList.drop i) = .nothing →
        p.Runs input scope i (.success ()) i := by
  refine (blankPieces_still hsize).bind fun pieces => (Build.skipMany_made _).mono ?_
  intro names p hp hpieces scope i hi hnothing
  obtain ⟨label, rfl⟩ := hp
  have hrefuses : (Parser.choiceAll pieces).Refuses input scope i :=
    (hpieces scope i hi hnothing).choiceAll
  have hloops : (Parser.choiceAll pieces).Loops input scope [] i (.success []) i := .stop hrefuses
  exact (hloops.many.map _).memo label

/-- White space is what one pass over the text skips. From every place of every input, and
whether or not outcomes are remembered, it succeeds exactly if the pass does, where the pass
ends, and fails exactly if the pass comes to the end of the text in a comment. Comments that
do not nest end where the closing delimiter first stands. -/
theorem whiteSpace_eq_skipBlanks (language : Language) (input : Array Char)
    (hsize : input.size < Index.limit)
    (hend : language.commentStart ≠ "" → language.commentEnd ≠ "") (memoize : Bool) (start : Nat)
    (hstart : start ≤ input.size) :
    (∀ stop, ((whiteSpaceOf language).assemble 0).ShowsFrom input memoize start
        (.ok (.success (), stop)) ↔ stop ≤ input.size ∧
          skipBlanks language (input.toList.drop start) = some (input.toList.drop stop)) ∧
    ((∃ cause stop, ((whiteSpaceOf language).assemble 0).ShowsFrom input memoize start
        (.ok (.failure cause, stop))) ↔ skipBlanks language (input.toList.drop start) = none) ∧
    (language.commentStart ≠ "" → language.nestedComments = false → ∀ text rest,
      closeComment language 1 text = some rest ↔
        ∃ front, text = front ++ language.commentEnd.toList ++ rest ∧
          ∀ n < front.length, ¬ language.commentEnd.toList <+: text.drop n) := by
  have hlabelled := Build.assemble_wellLabelled (labelled_compositional.whiteSpaceOf_given language)
  obtain ⟨names, hskips⟩ := (whiteSpaceOf_skips language hsize).assembled
  have hskip := (hskips Scope.root start hstart).2 hend
  refine ⟨fun stop => ?_, ?_, fun hopens hflat text rest =>
    closeComment_eq_some_iff hflat (hend hopens)⟩
  · cases hrest : skipBlanks language (input.toList.drop start) with
    | some rest =>
      simp only [hrest] at hskip
      obtain ⟨j, -, rfl, hruns⟩ := hskip
      rw [hlabelled.showsFrom_iff hruns hstart]
      have hj := hruns.le_size hstart
      constructor
      · intro h
        obtain rfl : stop = j := by simpa using h
        exact ⟨hj, rfl⟩
      · rintro ⟨hstop, hdrop⟩
        rw [size_sub_length (Option.some.inj hdrop) hj, ← size_sub_length rfl hstop]
    | none =>
      simp only [hrest] at hskip
      obtain ⟨expected, j, hruns⟩ := hskip
      rw [hlabelled.showsFrom_iff hruns hstart]
      simp
  · cases hrest : skipBlanks language (input.toList.drop start) with
    | some rest =>
      simp only [hrest] at hskip
      obtain ⟨j, -, -, hruns⟩ := hskip
      simp [hlabelled.showsFrom_iff hruns hstart]
    | none =>
      simp only [hrest] at hskip
      obtain ⟨expected, j, hruns⟩ := hskip
      simp [hlabelled.showsFrom_iff hruns hstart]

/-- A comment in a comment, between blanks. -/
theorem whiteSpace_dashComments :
    " \x7b-\x7b--\x7d-\x7d\na".toList.toArray.size < Index.limit ∧
    ((Language.plain.assemble 0).dashComments.commentStart ≠ "" →
      (Language.plain.assemble 0).dashComments.commentEnd ≠ "") ∧
    0 ≤ " \x7b-\x7b--\x7d-\x7d\na".toList.toArray.size ∧
    ((whiteSpaceOf (Language.plain.assemble 0).dashComments).assemble 0).ShowsFrom
      " \x7b-\x7b--\x7d-\x7d\na".toList.toArray true 0 (.ok (.success (), 10)) := by
  have hsize : " \x7b-\x7b--\x7d-\x7d\na".toList.toArray.size < Index.limit := by decide
  have hend : (Language.plain.assemble 0).dashComments.commentStart ≠ "" →
      (Language.plain.assemble 0).dashComments.commentEnd ≠ "" := by decide
  have hagrees := whiteSpace_eq_skipBlanks _ _ hsize hend true 0 (Nat.zero_le _)
  exact ⟨hsize, hend, Nat.zero_le _, (hagrees.1 10).2 ⟨by decide, by decide +kernel⟩⟩

end ParserKit
