import ParserKit.Proofs.Diagnosis
import ParserKit.Proofs.WhiteSpace

/-!
Comments that do not end. The failure is raised at the end of the text by the innermost
comment that is open. On its way out it is joined by what alternatives before it asked for,
but all of that belongs to places before the end and does not show.
-/

namespace ParserKit

open Lexer

variable {input : Array Char} {scope : Scope} {i j : Nat} {language : Language}

/-- At the end of the text the end of a comment is expected, and nothing else. -/
structure Expectation.Unended (input : Array Char) (expected : Expectation) : Prop where
  wants : .positioned "end of comment" input.size ∈ expected.leaves
  others : ∀ leaf ∈ expected.leaves, leaf = .positioned "end of comment" input.size ∨
    ∃ offset, leaf.ownOffset = some offset ∧ offset < input.size

open Expectation (Unended)

theorem Expectation.Unended.raised :
    Unended input (.positioned "end of comment" input.size) where
  wants := by simp
  others _ hleaf := .inl (by simpa using hleaf)

theorem Expectation.Unended.merge {before expected : Expectation} (h : expected.Unended input)
    (hbefore : ∀ leaf ∈ before.leaves, leaf.ownOffset = some i) (hi : i < input.size) :
    (before.merge expected).Unended input where
  wants := by
    rw [Expectation.leaves_merge]
    exact List.mem_append_right _ h.wants
  others leaf hleaf := by
    rw [Expectation.leaves_merge] at hleaf
    rcases List.mem_append.1 hleaf with hleaf | hleaf
    · exact .inr ⟨i, hbefore leaf hleaf, hi⟩
    · exact h.others leaf hleaf

namespace Parser

variable {a b t : Ty}

/-- The parser fails at the end of the text, since a comment does not end. -/
def BreaksOff (input : Array Char) (scope : Scope) (p : Parser t) (i : Nat) : Prop :=
  ∃ expected, expected.Unended input ∧
    p.Runs input scope i (.failure ⟨expected, true⟩) input.size

/-- A failure behind another part counts as consuming if the two have moved. -/
theorem Runs.andThen_failure {p : Parser a} {q : Parser b} {v : a.Elem} {cause : Failure} {k : Nat}
    (hp : p.Runs input scope i (.success v) j) (hq : q.Runs input scope j (.failure cause) k) :
    (p.andThen q).Runs input scope i
      (.failure { cause with consumed := cause.consumed || k != i }) k :=
  hp.bind q.owned (fun _ => q) hq

namespace BreaksOff

variable {p : Parser a}

theorem bind (captures : List Label) (next : a.Elem → Parser b) (h : p.BreaksOff input scope i) :
    (Parser.bind p captures next).BreaksOff input scope i :=
  h.imp fun _ h => ⟨h.1, h.2.bind_failure captures next⟩

theorem behind {q : Parser b} {v : a.Elem} (h : q.BreaksOff input scope j)
    (hp : p.Runs input scope i (.success v) j) : (p.andThen q).BreaksOff input scope i := by
  obtain ⟨expected, hunended, hruns⟩ := h
  exact ⟨expected, hunended, hp.andThen_failure hruns⟩

theorem rule {name : Label} {body : Parser a} (hname : name.level = 0)
    (h : body.BreaksOff input (scope.define name body) i) :
    (Parser.rule name : Parser a).BreaksOff input (scope.define name body) i :=
  h.imp fun _ h => ⟨h.1, h.2.rule hname⟩

theorem recursive {name : Label} {body : Parser a}
    (h : body.BreaksOff input (scope.define name body) i) :
    (Parser.recursive name body).BreaksOff input scope i :=
  h.imp fun _ h => ⟨h.1, h.2.recursive⟩

theorem choice {q : Parser a} (h : p.BreaksOff input scope i) :
    (Parser.choice p q).BreaksOff input scope i :=
  h.imp fun _ h => ⟨h.1, h.2.choice_break⟩

theorem choice_second {q : Parser a} (h : p.BreaksOff input scope i)
    (hq : q.RefusesHere input scope i) (hi : i < input.size) :
    (Parser.choice q p).BreaksOff input scope i := by
  obtain ⟨expected, hunended, hruns⟩ := h
  obtain ⟨before, hrefuses, hbefore⟩ := hq
  exact ⟨before.merge expected, hunended.merge hbefore hi, hrefuses.choice_second hruns⟩

/-- Alternatives that refuse at the place do not hide that one breaks off. -/
theorem choiceAll (front back : List (Parser a)) (h : p.BreaksOff input scope i)
    (hfront : ∀ q ∈ front, q.RefusesHere input scope i) (hi : i < input.size) :
    (choiceAll (front ++ p :: back)).BreaksOff input scope i := by
  induction front with
  | nil =>
    cases back with
    | nil => exact h
    | cons q back => exact h.choice
  | cons q front ih =>
    obtain ⟨hq, hfront⟩ := List.forall_mem_cons.1 hfront
    cases front with
    | nil => exact (ih hfront).choice_second hq hi
    | cons q' front => exact (ih hfront).choice_second hq hi

end BreaksOff

/-- A repetition inside a comment that does not end comes to the end of the text, or breaks
off because a comment in the comment does not end. -/
def Strands (input : Array Char) (scope : Scope) (p : Parser t) (i : Nat) : Prop :=
  ∀ values, (∃ expected, expected.Unended input ∧
      p.Loops input scope values i (.failure ⟨expected, true⟩) input.size) ∨
    ∃ all, p.Loops input scope values i (.success all) input.size

theorem Strands.again {p : Parser t} {v : t.Elem} (hp : p.Runs input scope i (.success v) j)
    (hij : i < j) (h : p.Strands input scope j) : p.Strands input scope i := by
  intro values
  rcases h (v :: values) with ⟨expected, hunended, hloops⟩ | ⟨all, hloops⟩
  · exact .inl ⟨expected, hunended, hloops.again hp hij⟩
  · exact .inr ⟨all, hloops.again hp hij⟩

theorem Strands.broken {p : Parser t} (h : p.BreaksOff input scope i) : p.Strands input scope i := by
  obtain ⟨expected, hunended, hruns⟩ := h
  exact fun _ => .inl ⟨expected, hunended, .broken hruns⟩

theorem Strands.stop {p : Parser t} (h : p.Refuses input scope input.size) :
    p.Strands input scope input.size :=
  fun _ => .inr ⟨_, .stop h⟩

end Parser

open ParserKit.Parser (Strands BreaksOff)

namespace Lexer

variable {text : List Char}

theorem not_any_of_runAhead {accepts : Char → Bool} (h : runAhead accepts text = .nothing) :
    text.head?.any accepts = false := by
  unfold runAhead at h
  split at h
  · cases h
  · next hnone => exact Bool.not_eq_true _ ▸ hnone

theorem runAhead_ne_unclosed (accepts : Char → Bool) : runAhead accepts text ≠ .unclosed := by
  unfold runAhead
  split <;> simp

theorem lineAhead_ne_unclosed : lineAhead language text ≠ .unclosed := by
  unfold lineAhead
  split <;> simp

theorem strayAhead_ne_unclosed : strayAhead language text ≠ .unclosed := by
  unfold strayAhead
  split
  · simp
  · split <;> simp

theorem Found.or_eq_unclosed {first second : Found} (h : first.or second = .unclosed)
    (hfirst : first ≠ .unclosed) : first = .nothing ∧ second = .unclosed := by
  cases first with
  | nothing => exact ⟨rfl, h⟩
  | past found => cases h
  | unclosed => exact absurd rfl hfirst

/-- Inside a comment there is nothing at the closing delimiter only, and at the end. -/
theorem eq_nil_of_itemAhead (h : itemAhead language text = .nothing)
    (hclosed : past? language.commentEnd text = none) : text = [] := by
  obtain ⟨hplain, hlater⟩ := Found.or_eq_nothing h
  obtain ⟨-, hstray⟩ := Found.or_eq_nothing hlater
  cases text with
  | nil => rfl
  | cons c tail =>
    have hc : delimits language c = true := by simpa using not_any_of_runAhead hplain
    simp [strayAhead, hc, hclosed] at hstray

theorem itemAhead_unclosed (h : itemAhead language text = .unclosed) :
    runAhead (fun c => !delimits language c) text = .nothing ∧
      language.nestedComments = true ∧ blockAhead language text = .unclosed := by
  obtain ⟨hplain, hlater⟩ := Found.or_eq_unclosed h (runAhead_ne_unclosed _)
  by_cases hnested : language.nestedComments = true
  · rw [if_pos hnested] at hlater
    refine ⟨hplain, hnested, ?_⟩
    by_contra hblock
    exact strayAhead_ne_unclosed (Found.or_eq_unclosed hlater hblock).2
  · rw [if_neg hnested] at hlater
    exact absurd hlater strayAhead_ne_unclosed

theorem pieceAhead_unclosed (h : pieceAhead language text = .unclosed) :
    runAhead Text.isBlank text = .nothing ∧ past? language.commentLine text = none ∧
      blockAhead language text = .unclosed := by
  obtain ⟨hblanks, hlater⟩ := Found.or_eq_unclosed h (runAhead_ne_unclosed _)
  obtain ⟨hline, hblock⟩ := Found.or_eq_unclosed hlater lineAhead_ne_unclosed
  refine ⟨hblanks, ?_, hblock⟩
  unfold lineAhead at hline
  split at hline
  · cases hline
  · assumption

theorem blockAhead_unclosed (h : blockAhead language text = .unclosed) :
    ∃ rest, past? language.commentStart text = some rest ∧ closeComment language 1 rest = none := by
  unfold blockAhead at h
  split at h
  · next rest hopened =>
    split at h
    · cases h
    · next hnone => exact ⟨rest, hopened, hnone⟩
  · cases h

end Lexer

theorem lt_size_of_unclosed (h : blockAhead language (input.toList.drop i) = .unclosed) :
    i < input.size := by
  obtain ⟨rest, hopened, -⟩ := blockAhead_unclosed h
  have hlength := past?_length hopened
  have htotal : input.toList.length = input.size := Array.length_toList
  rw [List.length_drop] at hlength
  omega

/-- What a run of characters of a class does not begin with. -/
theorem rejected_of_runAhead {accepts : Char → Bool} {c : Char}
    (h : runAhead accepts (input.toList.drop i) = .nothing) (hchar : input[i]? = some c) :
    accepts c = false := by
  have hnone := not_any_of_runAhead h
  rwa [head?_drop, hchar, Option.any_some] at hnone

namespace CommentParts

variable {parts : CommentParts} {name : Label}

section Unclosed

variable (hmeet : parts.Meet input language)

include hmeet

/-- A comment that does not end, given what its inside is. -/
theorem body_breaksOff (hi : i ≤ input.size)
    (hunclosed : blockAhead language (input.toList.drop i) = .unclosed)
    (hend : language.commentEnd ≠ "")
    (hinside : ∀ j, i < j → j ≤ input.size → closeComment language 1 (input.toList.drop j) = none →
      (parts.item language name).Strands input scope j) :
    (parts.body language name).BreaksOff input scope i := by
  obtain ⟨rest, hopened, hnone⟩ := blockAhead_unclosed hunclosed
  obtain ⟨hmarker, htext⟩ := past?_eq_some_iff.1 hopened
  have hfirst := (hmeet.start scope).found ⟨rest, htext.symm⟩ hi
  have hrest := drop_add_length htext
  have hfront := List.length_pos_of_ne_nil (mt String.toList_eq_nil_iff.1 hmarker)
  have him := Nat.lt_add_of_pos_right (n := i) hfront
  generalize i + language.commentStart.toList.length = m at hfirst hrest him
  have hm := hfirst.le_size hi
  -- a comment inside breaks off, or the inside ends with the text and the delimiter is missing
  rcases hinside m him hm (by rw [hrest, hnone]) [] with ⟨expected, hunended, hloops⟩ | ⟨all, hloops⟩
  · have hinner : (parts.inner language name).Runs input scope m
        (.failure ⟨expected, true⟩) input.size := (hloops.many.convert_failure _).memo _
    have hbreaks : (parts.inner language name).BreaksOff input scope m :=
      ⟨expected, hunended, hinner⟩
    exact (hbreaks.bind _ _).behind hfirst
  · have hinner : (parts.inner language name).Runs input scope m (.success ()) input.size :=
      (hloops.many.map _).memo _
    have hdiffers : ¬ language.commentEnd.toList <+: input.toList.drop input.size := by
      rw [← Array.length_toList, List.drop_length, List.prefix_nil]
      exact mt String.toList_eq_nil_iff.1 hend
    have hlast := hmeet.close_refuses scope input.size (Nat.le_refl _) hdiffers
    have hclose : (parts.close.map (b := .unit) fun _ => ()).Runs input scope input.size
        (.fail (.positioned "end of comment" input.size)) input.size := hlast.convert_failure _
    -- with nothing inside only the opening delimiter has moved, which counts for the whole
    have hmoved : (input.size != i) = true := by
      rw [bne_iff_ne]
      omega
    have hruns := hfirst.andThen_failure (hinner.andThen_failure hclose)
    rw [hmoved, Bool.or_true] at hruns
    exact ⟨.positioned "end of comment" input.size, .raised, hruns⟩

theorem item_breaksOff (hi : i ≤ input.size)
    (hunclosed : itemAhead language (input.toList.drop i) = .unclosed)
    (hcomment : blockAhead language (input.toList.drop i) = .unclosed →
      (Parser.rule name : Parser .unit).BreaksOff input scope i) :
    (parts.item language name).BreaksOff input scope i := by
  obtain ⟨hplain, hnested, hblock⟩ := itemAhead_unclosed hunclosed
  have hrefuses := hmeet.plain_refuses scope i hi fun c hc => by
    simpa using rejected_of_runAhead hplain hc
  rw [item, if_pos hnested]
  exact (hcomment hblock).choiceAll [parts.plain] [parts.stray] (by simpa using hrefuses)
    (lt_size_of_unclosed hblock)

variable (hsize : input.size < Index.limit) (hstart : language.commentStart ≠ "")
  (hend : language.commentEnd ≠ "")

include hsize hstart hend

/-- The inside of a comment that does not end. Where nothing is found in it the closing
delimiter would count, unless that is the end of the text. -/
theorem inside_strands (hlevel : name.level = 0) (hi : i ≤ input.size)
    (hnone : closeComment language 1 (input.toList.drop i) = none) :
    (parts.item language name).Strands input
      (scope.define name (parts.body language name)) i := by
  induction hleft : input.size - i using Nat.strongRecOn generalizing i with
  | ind left ih =>
    have hrule : (Parser.rule name).Finds input (scope.define name (parts.body language name)) i
        (blockAhead language (input.toList.drop i)) :=
      rule_finds hmeet hsize hstart hend hlevel hi
    have hitem := item_finds hmeet hsize hi hend hrule
    rw [closeComment_eq_itemAhead] at hnone
    cases hfound : itemAhead language (input.toList.drop i) with
    | nothing =>
      rw [hfound] at hitem hnone
      have htext := congrArg List.length (eq_nil_of_itemAhead hfound hnone)
      rw [List.length_drop, Array.length_toList, List.length_nil] at htext
      obtain rfl : i = input.size := by omega
      exact .stop hitem
    | unclosed =>
      refine .broken (item_breaksOff hmeet hi hfound fun hblock => BreaksOff.rule hlevel ?_)
      exact body_breaksOff hmeet hi hblock hend fun j hij hj hnone =>
        ih (input.size - j) (by omega) hj hnone rfl
    | past rest =>
      rw [hfound] at hitem hnone
      obtain ⟨j, hij, rfl, hruns⟩ := hitem
      have hj := hruns.le_size hi
      exact .again hruns hij (ih (input.size - j) (by omega) hj hnone rfl)

theorem comment_breaksOff (hlevel : name.level = 0) (hi : i ≤ input.size)
    (hunclosed : blockAhead language (input.toList.drop i) = .unclosed) :
    (Parser.recursive name (parts.body language name)).BreaksOff input scope i :=
  BreaksOff.recursive (body_breaksOff hmeet hi hunclosed hend fun _ _ hj hnone =>
    inside_strands hmeet hsize hstart hend hlevel hj hnone)

end Unclosed

end CommentParts

section Assembly

open Build

variable (hsize : input.size < Index.limit) {level : Nat}

include hsize

theorem lines_refuseHere :
    Yields level (Lexer.optionalPiece language.commentLine.isEmpty
      (Lexer.lineComment language.commentLine)) fun _ lines => ∀ scope i, i ≤ input.size →
        past? language.commentLine (input.toList.drop i) = none →
          ∀ p ∈ lines, p.RefusesHere input scope i := by
  by_cases hmarker : language.commentLine = ""
  · rw [String.isEmpty_iff.2 hmarker]
    exact .pure fun _ _ _ _ _ => by simp
  · have hempty : language.commentLine.isEmpty = false := by simpa using hmarker
    rw [hempty]
    have hline : Yields level (Lexer.lineComment language.commentLine) fun _ p =>
        ∀ scope i, i ≤ input.size → past? language.commentLine (input.toList.drop i) = none →
          p.RefusesHere input scope i := by
      refine (string_failsHere hsize _).bind fun marker =>
        (attempt_refusesHere marker).bind fun start => ?_
      refine (satisfy_accepts hsize _).bind fun other =>
        (skipMany_made other).bind fun rest => .pure ?_
      intro names _ _ hstart hmarker' scope i hi hnone
      have hdiffers := (past?_eq_none_iff.1 hnone).resolve_left hmarker
      exact (hstart (hmarker' scope i hi hdiffers)).bind _ _
    refine hline.bind fun line => .pure fun _ hline scope i hi hnone => ?_
    simpa using hline scope i hi hnone

theorem blankPieces_breakOff (hstart : language.commentStart ≠ "")
    (hend : language.commentEnd ≠ "") :
    Yields 0 (Lexer.blankPieces language) fun _ pieces => ∀ scope i, i ≤ input.size →
      pieceAhead language (input.toList.drop i) = .unclosed →
        (Parser.choiceAll pieces).BreaksOff input scope i := by
  refine (satisfy_refusesHere hsize _).bind fun blank =>
    (skipMany1_refusesHere blank).bind fun blanks => (lines_refuseHere hsize).bind fun lines => ?_
  have hempty : language.commentStart.isEmpty = false := by simpa using hstart
  rw [hempty]
  have hblocks : Yields 0 (Lexer.optionalPiece false (Lexer.blockComment language))
      fun _ blocks => ∃ (name : Label) (parts : CommentParts), name.level = 0 ∧
        blocks = [.recursive name (parts.body language name)] ∧ parts.Meet input language := by
    refine (CommentParts.blockComment_meets hsize).bind fun block => .pure fun _ hblock => ?_
    obtain ⟨name, parts, hlevel, rfl, hmeet⟩ := hblock
    exact ⟨name, parts, hlevel, rfl, hmeet⟩
  refine hblocks.bind fun blocks => .pure ?_
  intro names hblocks hlines hblanks hblank scope i hi hunclosed
  obtain ⟨name, parts, hlevel, rfl, hmeet⟩ := hblocks
  obtain ⟨hrun, hmarker, hblock⟩ := pieceAhead_unclosed hunclosed
  have hfirst : blanks.RefusesHere input scope i :=
    hblanks (hblank scope i hi fun c hc => rejected_of_runAhead hrun hc)
  have hfront : ∀ p ∈ blanks :: lines, p.RefusesHere input scope i :=
    List.forall_mem_cons.2 ⟨hfirst, hlines scope i hi hmarker⟩
  exact (CommentParts.comment_breaksOff hmeet hsize hstart hend hlevel hi hblock).choiceAll
    (blanks :: lines) [] hfront (lt_size_of_unclosed hblock)

end Assembly

theorem whiteSpaceOf_breaksOff (language : Language) (hsize : input.size < Index.limit)
    (hstart : language.commentStart ≠ "") (hend : language.commentEnd ≠ "") :
    Build.Yields 0 (whiteSpaceOf language) fun _ p => ∀ scope i, i ≤ input.size →
      skipBlanks language (input.toList.drop i) = none → p.BreaksOff input scope i := by
  refine ((blankPieces_find hsize).and (blankPieces_breakOff hsize hstart hend)).bind
    fun pieces => (Build.skipMany_made _).mono ?_
  intro names p hp hpieces scope i hi hnone
  obtain ⟨label, rfl⟩ := hp
  have hloops := Parser.skipBlanks_loops
    (fun expected k => expected.Unended input ∧ k = input.size) hi
    (fun j hj => ((hpieces.1 scope j hj).2 fun _ => hend).choiceAll)
    (fun j hj hunclosed => (hpieces.2 scope j hj hunclosed).imp fun _ h => ⟨_, ⟨h.1, rfl⟩, h.2⟩) []
  rw [hnone] at hloops
  obtain ⟨expected, _, ⟨hunended, rfl⟩, hloops⟩ := hloops
  exact ⟨expected, hunended, (hloops.many.convert_failure _).memo label⟩

/-- What is listed of equal texts. -/
theorem ListsOnce.eq_singleton {texts listed : List String} {text : String}
    (h : ListsOnce texts listed) (hmem : text ∈ texts) (hall : ∀ other ∈ texts, other = text) :
    listed = [text] := by
  have hlisted : ∀ other ∈ listed, other = text := fun other hother =>
    hall other ((h.mem_iff other).1 hother)
  have hnodup := h.nodup
  rw [List.eq_replicate_of_mem hlisted, List.nodup_replicate] at hnodup
  have hpos := List.length_pos_of_mem ((h.mem_iff text).2 hmem)
  rw [List.eq_replicate_of_mem hlisted, show listed.length = 1 by omega, List.replicate_one]

namespace Diagnostic

variable {expected : Expectation}

theorem offset_unended (h : expected.Unended input) : expected.offset = some input.size := by
  refine Expectation.LargestOffset.offset_eq ⟨⟨_, h.wants, rfl⟩, fun leaf hleaf own hown => ?_⟩
  rcases h.others leaf hleaf with rfl | ⟨offset, hoffset, hlt⟩
  · exact Nat.le_of_eq (Option.some.inj hown).symm
  · obtain rfl := Option.some.inj (hown.symm.trans hoffset)
    exact Nat.le_of_lt hlt

/-- A leaf of an earlier place adds nothing. -/
theorem silent_of_ownOffset {leaf : Expectation} {offset place : Nat}
    (h : leaf.ownOffset = some offset) (hne : offset ≠ place) :
    leaf.wanted (some place) = none ∧ leaf.misplaced (some place) = none := by
  cases leaf with
  | positioned text own =>
    obtain rfl := Option.some.inj h
    simp [Expectation.wanted, Expectation.misplaced, hne]
  | unexpected text own =>
    obtain rfl := Option.some.inj h
    simp [Expectation.wanted, Expectation.misplaced, hne]
  | _ => cases h

theorem wanted_unended (h : expected.Unended input) {leaf : Expectation}
    (hleaf : leaf ∈ expected.leaves) :
    (∀ text, leaf.wanted (some input.size) = some text → text = "end of comment") ∧
      leaf.misplaced (some input.size) = none := by
  rcases h.others leaf hleaf with rfl | ⟨offset, hoffset, hlt⟩
  · have hwanted : (Expectation.positioned "end of comment" input.size).wanted (some input.size) =
        some "end of comment" := by simp [Expectation.wanted]
    exact ⟨fun text htext => (Option.some.inj (hwanted.symm.trans htext)).symm, rfl⟩
  · have hsilent := silent_of_ownOffset hoffset (Nat.ne_of_lt hlt)
    exact ⟨by simp [hsilent.1], hsilent.2⟩

/-- Such a failure is told from the end of the text, wherever the cursor is. -/
theorem ofFailure_unended (h : expected.Unended input) (hfits : Fits input) {cursor : Cursor}
    (hcursor : cursor.input = input) (consumed : Bool) :
    ∃ diagnostic, ofFailure ⟨expected, consumed⟩ cursor = .ok diagnostic ∧
      diagnostic.offset = input.size ∧ diagnostic.expected = ["end of comment"] ∧
        diagnostic.unexpected = endOfInput := by
  subst hcursor
  obtain ⟨diagnostic, hok, htells⟩ := ofFailure_tells ⟨expected, consumed⟩ hfits
  rw [offset_unended h] at htells
  have hoffset : diagnostic.offset = cursor.input.size :=
    htells.offset.trans (Nat.min_self _)
  refine ⟨diagnostic, hok, hoffset, htells.expected.eq_singleton ?_ ?_, ?_⟩
  · exact List.mem_filterMap.2 ⟨_, h.wants, by simp [Expectation.wanted]⟩
  · intro text htext
    obtain ⟨leaf, hleaf, hwanted⟩ := List.mem_filterMap.1 htext
    exact (wanted_unended h hleaf).1 text hwanted
  · have hfinds := htells.unexpected
    rw [hoffset] at hfinds
    generalize diagnostic.unexpected = text at hfinds
    cases hfinds with
    | @leaf before after leaf _ hleaves _ hmisplaced =>
      have hmem : leaf ∈ expected.leaves := by
        rw [hleaves]
        exact List.mem_append_right _ List.mem_cons_self
      rw [(wanted_unended h hmem).2] at hmisplaced
      cases hmisplaced
    | excerpt _ hexcerpt =>
      cases hexcerpt with
      | ended _ => rfl
      | quoted hne _ hprefix =>
        rw [← Array.length_toList, List.drop_length, List.prefix_nil] at hprefix
        exact absurd hprefix hne

end Diagnostic

theorem whiteSpace_not_shows (language : Language) (hsize : input.size < Index.limit)
    (hstart : language.commentStart ≠ "") (hend : language.commentEnd ≠ "") (hi : i ≤ input.size)
    (hnone : skipBlanks language (input.toList.drop i) = none) (memoize : Bool) :
    ¬ ∃ stop, ((whiteSpaceOf language).assemble 0).ShowsFrom input memoize i
      (.ok (.success (), stop)) := by
  have hlabelled := Build.assemble_wellLabelled (labelled_compositional.whiteSpaceOf_given language)
  obtain ⟨names, hbreaks⟩ := (whiteSpaceOf_breaksOff language hsize hstart hend).assembled
  obtain ⟨expected, -, hruns⟩ := hbreaks Scope.root i hi hnone
  exact fun ⟨stop, hshows⟩ =>
    hlabelled.not_showsFrom_success (.inr ⟨expected, _, hruns⟩) hi memoize () hshows

/-- A comment that does not end is always told as such. Where white space does not succeed it
fails at the end of the text and has consumed, and the message asks for the end of a comment
there and for nothing else, however deep the comments are nested, and whatever alternatives
were tried before. -/
theorem whiteSpace_unended (language : Language) (input : Array Char) (hfits : Fits input)
    (hstart : language.commentStart ≠ "") (hend : language.commentEnd ≠ "") (memoize : Bool)
    (start : Nat) (hle : start ≤ input.size)
    (hfails : ¬ ∃ stop, ((whiteSpaceOf language).assemble 0).ShowsFrom input memoize start
      (.ok (.success (), stop))) :
    ∃ expected, ((whiteSpaceOf language).assemble 0).ShowsFrom input memoize start
        (.ok (.failure ⟨expected, true⟩, input.size)) ∧
      ∀ cursor : Cursor, cursor.input = input →
        ∃ diagnostic, Diagnostic.ofFailure ⟨expected, true⟩ cursor = .ok diagnostic ∧
          diagnostic.offset = input.size ∧ diagnostic.expected = ["end of comment"] ∧
          diagnostic.unexpected = "end of input" := by
  have hroom := hfits.room
  have hsize : input.size < Index.limit := by omega
  have hlabelled := Build.assemble_wellLabelled (labelled_compositional.whiteSpaceOf_given language)
  have hnone : skipBlanks language (input.toList.drop start) = none := by
    obtain ⟨names, hskips⟩ := (whiteSpaceOf_skips language hsize).assembled
    have hskip := (hskips Scope.root start hle).2 fun _ => hend
    cases hrest : skipBlanks language (input.toList.drop start) with
    | none => rfl
    | some rest =>
      simp only [hrest] at hskip
      obtain ⟨j, -, -, hruns⟩ := hskip
      exact absurd ⟨j, (hlabelled.showsFrom_iff hruns hle memoize).2 rfl⟩ hfails
  obtain ⟨names, hbreaks⟩ := (whiteSpaceOf_breaksOff language hsize hstart hend).assembled
  obtain ⟨expected, hunended, hruns⟩ := hbreaks Scope.root start hle hnone
  exact ⟨expected, (hlabelled.showsFrom_iff hruns hle memoize).2 rfl, fun cursor hcursor =>
    Diagnostic.ofFailure_unended hunended hfits hcursor true⟩

/-- Behind a blank a comment is open, in which one has ended and another is open. -/
theorem whiteSpace_unended_nested :
    Fits " \x7b-\x7b--\x7d\x7b-a-".toList.toArray ∧
    (Language.plain.assemble 0).dashComments.commentStart ≠ "" ∧
    (Language.plain.assemble 0).dashComments.commentEnd ≠ "" ∧
    0 ≤ " \x7b-\x7b--\x7d\x7b-a-".toList.toArray.size ∧
    (¬ ∃ stop, ((whiteSpaceOf (Language.plain.assemble 0).dashComments).assemble 0).ShowsFrom
      " \x7b-\x7b--\x7d\x7b-a-".toList.toArray true 0 (.ok (.success (), stop))) ∧
    ∃ expected, ((whiteSpaceOf (Language.plain.assemble 0).dashComments).assemble 0).ShowsFrom
        " \x7b-\x7b--\x7d\x7b-a-".toList.toArray true 0
        (.ok (.failure ⟨expected, true⟩, 11)) ∧
      ∃ diagnostic, Diagnostic.ofFailure ⟨expected, true⟩
          { input := " \x7b-\x7b--\x7d\x7b-a-".toList.toArray } = .ok diagnostic ∧
        diagnostic.offset = 11 ∧ diagnostic.expected = ["end of comment"] ∧
        diagnostic.unexpected = "end of input" := by
  have hfits : Fits " \x7b-\x7b--\x7d\x7b-a-".toList.toArray := by unfold Fits; decide
  have hstart : (Language.plain.assemble 0).dashComments.commentStart ≠ "" := by decide
  have hend : (Language.plain.assemble 0).dashComments.commentEnd ≠ "" := by decide
  have hsize : " \x7b-\x7b--\x7d\x7b-a-".toList.toArray.size < Index.limit := by decide
  have hnone : skipBlanks (Language.plain.assemble 0).dashComments
      (" \x7b-\x7b--\x7d\x7b-a-".toList.toArray.toList.drop 0) = none := by decide +kernel
  have hfails := whiteSpace_not_shows _ hsize hstart hend (Nat.zero_le _) hnone true
  obtain ⟨expected, hshows, htold⟩ :=
    whiteSpace_unended _ _ hfits hstart hend true 0 (Nat.zero_le _) hfails
  exact ⟨hfits, hstart, hend, Nat.zero_le _, hfails, expected, hshows, htold _ rfl⟩

end ParserKit
