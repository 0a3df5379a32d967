import ParserKit.Lexer.Literal
import ParserKit.Lexer.Word
import ParserKit.Proofs.Lexemes
import ParserKit.Proofs.Naming
import ParserKit.Proofs.Places

/-!
Lexemes leave nothing to skip. White space goes on until none of its pieces has anything to
read, so that it stays where it has ended. A lexeme ends as the white space in it does, whatever
it has read before.
-/

namespace ParserKit

open Lexer

variable {t : Ty} {input : Array Char} {i : Nat}

/-- By names, too, a run does not leave its input. -/
theorem Parser.evalBy_keeps (fuel : Nat) (names : Names) (p : Parser t) :
    Action.Keeps (fun _ => True) input (p.evalBy fuel names) := by
  induction fuel generalizing t names with
  | zero => exact fun _ _ _ h => absurd h (by simp [evalBy])
  | succ fuel ih =>
    cases p with
    | atom a => exact .atom a
    | wrap wrapper p => exact (ih names p).wrapped wrapper
    | bind p captures next => exact (ih names p).chain fun value => ih names (next value)
    | sequence items =>
      exact fun s hs => Action.Keeps.sequence (fun k => ih names (items k)) s.position _ [] s hs
    | choice first second => exact (ih names first).choice (ih names second)
    | memo label p =>
      exact fun s hs => ih (names.upTo label.level) p s.missed ⟨hs.input_eq, hs.within, hs.places⟩
    | many p => exact (ih names p).repeatFrom fuel []
    | many1 p => exact (ih names p).repeatFrom1 fun values => (ih names p).repeatFrom fuel values
    | recursive name body => exact ih names body
    | rule name =>
      simp only [evalBy]
      cases names.find name t with
      | none => exact fun _ _ _ h => absurd h (by simp)
      | some body => exact ih names body
    | fresh inner captures body => exact ih (names.renewed inner (body ())) (body ())
    | tick counter p =>
      exact fun s hs => ih names p (s.tick counter) ⟨hs.input_eq, hs.within, hs.places⟩

theorem Parser.meaningBy_keeps (names : Names) (p : Parser t) :
    Action.Keeps (fun _ => True) input (p.meaningBy names) := by
  intro s hs
  obtain ⟨fuel, hfuel⟩ := exists_evalBy_eq_meaningBy names p s
  rw [← hfuel]
  exact evalBy_keeps fuel names p s hs

/-- Both parts of a chain that succeeds have succeeded. -/
theorem Action.parts_of_chain {α β : Type} {first : Action α} {next : α → Action β} {y : β}
    {s after : State} (h : first.chain next s = .done (.success y, after)) :
    ∃ x middle, first s = .done (.success x, middle) ∧ next x middle = .done (.success y, after) := by
  obtain ⟨⟨outcome, middle⟩, hfirst, hrest⟩ := Result.bind_eq_done h
  cases outcome with
  | failure cause => exact absurd hrest (by simp)
  | success x =>
    obtain ⟨⟨outcome, final⟩, hnext, hsettled⟩ := Result.bind_eq_done hrest
    obtain ⟨houtcome, rfl⟩ := Prod.mk.inj (Result.done.inj hsettled)
    cases outcome with
    | failure cause => exact absurd houtcome (by simp [State.settle, Outcome.consumedIf])
    | success y' =>
      obtain rfl := Outcome.success.inj houtcome
      exact ⟨x, middle, hfirst, hnext⟩

/-- A wrapper that succeeds with successes only, and leaves the cursor where it is. -/
def Wrapper.Passes {a b : Ty} (wrapper : Wrapper a b) : Prop :=
  ∀ start outcome c value after, wrapper.finish start outcome c = .ok (.success value, after) →
    (∃ x, outcome = .success x) ∧ after = c

theorem Wrapper.convert_passes {a b : Ty} (f : a.Elem → Except Fault b.Elem) :
    (Wrapper.convert f).Passes := by
  intro start outcome c value after h
  obtain ⟨converted, hconverted, hpair⟩ := Except.exists_of_map_eq_ok h
  obtain ⟨rfl, rfl⟩ := Prod.mk.inj hpair
  cases outcome with
  | failure cause => exact absurd hconverted (by simp [convertOutcome])
  | success x => exact ⟨⟨x, rfl⟩, rfl⟩

theorem Wrapper.label_passes (message : String) : (Wrapper.label (t := t) message).Passes := by
  intro start outcome c value after h
  obtain ⟨houtcome, rfl⟩ := Prod.mk.inj (Except.ok.inj h)
  cases outcome with
  | failure cause => exact absurd houtcome (by simp [finishLabel])
  | success x => exact ⟨⟨x, rfl⟩, rfl⟩

namespace Parser

/-- A parser whose last part is another one. Where it succeeds, that one has succeeded. -/
inductive Trails (last : Parser .unit) : {t : Ty} → Parser t → Prop
  | here : Trails last last
  | wrap {a b : Ty} {p : Parser a} {wrapper : Wrapper a b} :
      wrapper.Passes → Trails last p → Trails last (.wrap wrapper p)
  | memo {t : Ty} {p : Parser t} (label : Label) : Trails last p → Trails last (.memo label p)
  | bind {a b : Ty} (p : Parser a) (captures : List Label) {next : a.Elem → Parser b} :
      (∀ value, Trails last (next value)) → Trails last (.bind p captures next)

/-- What a parser does when nothing is remembered, it does by names. -/
theorem Runs.exists_named {p : Parser t} {outcome : Outcome t.Elem} {names : Names} {j : Nat}
    (h : p.Runs input Scope.root i outcome j) (hp : p.Labelled names 0) (hi : i ≤ input.size) :
    ∃ final, p.meaningBy names (.startAt input false i) = .done (outcome, final) ∧
      final.position = j := by
  obtain ⟨after, hdone, hafter⟩ := h Scope.root.held _ (stands_startAt hi)
  obtain ⟨w, final, hnamed, hfinal⟩ := hp.exists_named hdone
  exact ⟨final, hnamed, hfinal.beside.position_eq.symm.trans hafter.position_eq⟩

/-- All places where the parser can end with a success, by whatever names. -/
def EndsAt (input : Array Char) (place : Nat → Prop) (p : Parser t) : Prop :=
  ∀ names, p.Labelled names 0 → ∀ s value after, s.Kept (fun _ => True) input →
    p.meaningBy names s = .done (.success value, after) → place after.position

theorem Trails.endsAt {last : Parser .unit} {p : Parser t} {place : Nat → Prop}
    (h : Trails last p) (hlast : last.EndsAt input place) : p.EndsAt input place := by
  induction h with
  | here => exact hlast
  | wrap hpasses _ ih =>
    intro names hp s value after hs hdone
    rw [meaningBy_wrap] at hdone
    obtain ⟨⟨outcome, middle⟩, hpart, hfinish⟩ := Result.bind_eq_done hdone
    obtain ⟨⟨treated, cursor⟩, hcursor, hpair⟩ :=
      Except.exists_of_map_eq_ok (Result.ofExcept_eq_done hfinish)
    obtain ⟨rfl, rfl⟩ := Prod.mk.inj hpair
    obtain ⟨⟨x, rfl⟩, rfl⟩ := hpasses _ _ _ _ _ hcursor
    exact ih names hp s x middle hs hpart
  | memo label _ ih =>
    intro names hp s value after hs hdone
    -- only the names of level zero are left, and the part needs no others
    obtain ⟨hlevel, -, hp⟩ := hp
    have hp := hp.congr (names.agree_upTo label.level)
    rw [Nat.le_zero.1 hlevel] at hp
    rw [meaningBy_memo, Nat.le_zero.1 hlevel] at hdone
    exact ih _ hp s.missed value after ⟨hs.input_eq, hs.within, hs.places⟩ hdone
  | bind p captures _ ih =>
    intro names hp s value after hs hdone
    rw [meaningBy_bind] at hdone
    obtain ⟨x, middle, hfirst, hnext⟩ := Action.parts_of_chain hdone
    exact ih x names (hp.2 x) middle value after (meaningBy_keeps names p s hs _ hfirst) hnext

section Lexemes

variable {last : Parser .unit}

theorem trails_skip (p : Parser t) : Trails last (p.skip last) :=
  .bind p _ fun _ => .wrap (Wrapper.convert_passes _) .here

theorem Trails.between {a b : Ty} {closing : Parser b} (h : Trails last closing)
    (opening : Parser a) (p : Parser t) : Trails last (.between opening closing p) :=
  .bind opening _ fun _ => .bind p _ fun _ => .wrap (Wrapper.convert_passes _) h

end Lexemes

end Parser

open ParserKit.Parser (Trails trails_skip)

namespace Build

/-- What the assembled value is, whatever was assembled before. -/
def Always {α : Type} (build : Build α) (post : α → Prop) : Prop :=
  ∀ level first, post ((build.run level).run first).1

namespace Always

variable {α β : Type}

theorem pure {post : α → Prop} {value : α} (h : post value) : (Pure.pure value : Build α).Always post :=
  fun _ _ => h

/-- The last step decides. -/
theorem behind {build : Build α} {next : α → Build β} {post : β → Prop}
    (h : ∀ value, (next value).Always post) : (build >>= next).Always post :=
  fun level _ => h _ level _

theorem bind {build : Build α} {next : α → Build β} {mid : α → Prop} {post : β → Prop}
    (h : build.Always mid) (hnext : ∀ value, mid value → (next value).Always post) :
    (build >>= next).Always post :=
  fun level first => hnext _ (h level first) level _

theorem label {last : Parser .unit} {p : Parser t} (h : Trails last p) (message : String) :
    (Build.label p message).Always (Trails last) :=
  fun _ _ => .memo _ (.wrap (Wrapper.label_passes message) h)

end Always

end Build

namespace Lexer

/-- The parsers of a lexer that skip the white space behind them. -/
inductive LexemeParser : {t : Ty} → (Lexer → Build (Parser t)) → Prop
  | lexeme {t : Ty} (p : Lexer → Build (Parser t)) :
      LexemeParser fun lexer => do return lexer.lexeme (← p lexer)
  | symbol (chars : String) : LexemeParser (symbol · chars)
  | identifier : LexemeParser identifier
  | reserved (name : String) : LexemeParser (reserved · name)
  | operator : LexemeParser operator
  | reservedOperator (name : String) : LexemeParser (reservedOperator · name)
  | parens {t : Ty} (p : Lexer → Build (Parser t)) :
      LexemeParser fun lexer => do lexer.parens (← p lexer)
  | braces {t : Ty} (p : Lexer → Build (Parser t)) :
      LexemeParser fun lexer => do lexer.braces (← p lexer)
  | angles {t : Ty} (p : Lexer → Build (Parser t)) :
      LexemeParser fun lexer => do lexer.angles (← p lexer)
  | brackets {t : Ty} (p : Lexer → Build (Parser t)) :
      LexemeParser fun lexer => do lexer.brackets (← p lexer)
  | natural : LexemeParser natural
  | integer : LexemeParser integer
  | float : LexemeParser float
  | naturalOrFloat : LexemeParser naturalOrFloat
  | charLiteral : LexemeParser charLiteral
  | stringLiteral : LexemeParser stringLiteral

section Trailing

variable (lexer : Lexer)

theorem symbol_trails (chars : String) :
    (lexer.symbol chars).Always (Trails lexer.whiteSpace) :=
  .behind fun text => .pure (trails_skip text)

theorem enclosed_trails (opening closing : String) (p : Parser t) :
    (lexer.enclosed opening closing p).Always (Trails lexer.whiteSpace) :=
  .behind fun first => (lexer.symbol_trails closing).bind fun _ hlast =>
    .pure (hlast.between first p)

theorem delimited_trails (name : String) (text : Parser .text) (letter : Parser .char) :
    (lexer.delimited name text letter).Always (Trails lexer.whiteSpace) :=
  .behind fun _ => .behind fun word => .pure (trails_skip word)

theorem LexemeParser.trails {grammar : Lexer → Build (Parser t)} (h : LexemeParser grammar) :
    (grammar lexer).Always (Trails lexer.whiteSpace) := by
  cases h with
  | lexeme p => exact .behind fun core => .pure (trails_skip core)
  | symbol chars => exact lexer.symbol_trails chars
  | identifier => exact .behind fun _ => .behind fun word => .pure (trails_skip word)
  | reserved name => exact .behind fun text => lexer.delimited_trails name text _
  | operator => exact .behind fun _ => .behind fun word => .pure (trails_skip word)
  | reservedOperator name => exact .behind fun text => lexer.delimited_trails name text _
  | parens p => exact .behind fun core => lexer.enclosed_trails _ _ core
  | braces p => exact .behind fun core => lexer.enclosed_trails _ _ core
  | angles p => exact .behind fun core => lexer.enclosed_trails _ _ core
  | brackets p => exact .behind fun core => lexer.enclosed_trails _ _ core
  | natural => exact .behind fun number => .label (trails_skip number) _
  | integer => exact .behind fun _ => .behind fun number => .label (trails_skip number) _
  | float => exact .behind fun _ => .behind fun number => .label (trails_skip number) _
  | naturalOrFloat =>
    iterate 6 refine .behind fun _ => ?_
    exact .label (trails_skip _) _
  | charLiteral =>
    iterate 7 refine .behind fun _ => ?_
    exact .pure (trails_skip _)
  | stringLiteral =>
    iterate 11 refine .behind fun _ => ?_
    exact .pure (trails_skip _)

end Trailing

variable {grammar : Lexer → Build (Parser t)}

theorem token_trails (language : Build Language) (h : LexemeParser grammar) :
    Trails (blanks language) (token language grammar) :=
  h.trails (lexerOf language) 0 _

/-- Wherever white space succeeds by names, it stays there. -/
theorem blanks_endsAt (language : Build Language) (hsize : input.size < Index.limit) :
    (blanks language).EndsAt input fun j =>
      j ≤ input.size ∧ (blanks language).Runs input Scope.root j (.success ()) j := by
  intro names hp s value after hs hdone
  have hbeside : s.Beside (.startAt input false s.position) := ⟨hs.input_eq, rfl⟩
  obtain ⟨final, hstart, hfinal, -⟩ := Parser.meaningBy_beside hbeside hdone
  refine ⟨(Parser.meaningBy_keeps names _ s hs _ hdone).within, ?_⟩
  rcases blanks_exhaust language hsize hs.within with
    ⟨expected, j, hbreaks⟩ | ⟨_, _, j, -, hruns, hstill⟩
  · obtain ⟨final', hnamed, -⟩ := hbreaks.exists_named hp hs.within
    exact absurd (hstart.symm.trans hnamed) (by simp)
  · obtain ⟨final', hnamed, hposition⟩ := hruns.exists_named hp hs.within
    obtain ⟨-, rfl⟩ := Prod.mk.inj (Result.done.inj (hstart.symm.trans hnamed))
    rw [hfinal.position_eq, hposition]
    exact hstill

/-- A run that ends with the white space of a language has skipped all that there is. -/
theorem blanks_still_of_trails {language : Build Language} (hsize : input.size < Index.limit)
    {p : Parser t} (hp : p.WellLabelled) (htrails : Trails (blanks language) p) {memoize : Bool}
    {start stop : Nat} {value : t.Elem} (hstart : start ≤ input.size)
    (hshows : p.ShowsFrom input memoize start (.ok (.success value, stop))) (memoize' : Bool) :
    (blanks language).ShowsFrom input memoize' stop (.ok (.success (), stop)) := by
  obtain ⟨names, hp⟩ := hp
  obtain ⟨final, hends, rfl⟩ := Parser.showsFrom_ok_iff.1 hshows
  obtain ⟨w, final', hnamed, hfinal⟩ := hp.exists_named ((p.ends_iff _ _).1 hends)
  obtain ⟨hwithin, hstill⟩ := htrails.endsAt (blanks_endsAt language hsize) names hp _ value final'
    (.startAt input false hstart) hnamed
  rw [hfinal.beside.position_eq]
  exact ((blanks_labelled language).showsFrom_iff hstill hwithin memoize').2 rfl

/-- Lexemes leave nothing to skip. Where white space succeeds, and where any token parser that
skips the white space behind it succeeds, white space succeeds again without moving, in every
language, from every place, and whether or not outcomes are remembered. -/
theorem lexemes_exhaust (language : Build Language) (input : Array Char)
    (hsize : input.size < Index.limit) (memoize memoize' : Bool) (start : Nat)
    (hstart : start ≤ input.size) :
    (∀ stop, (blanks language).ShowsFrom input memoize start (.ok (.success (), stop)) →
      (blanks language).ShowsFrom input memoize' stop (.ok (.success (), stop))) ∧
    ∀ (t : Ty) (grammar : Lexer → Build (Parser t)), LexemeParser grammar →
      (token language grammar).WellLabelled → ∀ value stop,
        (token language grammar).ShowsFrom input memoize start (.ok (.success value, stop)) →
        (blanks language).ShowsFrom input memoize' stop (.ok (.success (), stop)) :=
  ⟨fun _ hshows => blanks_still_of_trails hsize (blanks_labelled language) .here hstart hshows
      memoize',
    fun _ _ hlexeme hlabelled _ _ hshows => blanks_still_of_trails hsize hlabelled
      (token_trails language hlexeme) hstart hshows memoize'⟩

/-- The plain language with comments between braces and dashes. -/
def dashed : Build Language := do
  return (← Language.plain).dashComments

theorem dashed_ready {level : Nat} : Build.Yields level dashed fun names language =>
    language.Ready Parser.labelled names level :=
  labelled_compositional.plain_yields.bind fun _ => .pure fun _ hready =>
    ⟨hready.identStart, hready.identLetter, hready.opStart, hready.opLetter⟩

/-- A symbol, and behind it a blank, a comment and another blank. -/
theorem lexemes_exhaust_symbol :
    "a \x7b--\x7d b".toList.toArray.size < Index.limit ∧
    0 ≤ "a \x7b--\x7d b".toList.toArray.size ∧ LexemeParser (symbol · "a") ∧
    (token dashed (symbol · "a")).WellLabelled ∧
    (token dashed (symbol · "a")).ShowsFrom "a \x7b--\x7d b".toList.toArray false 0
      (.ok (.success "a", 7)) ∧
    (blanks dashed).ShowsFrom "a \x7b--\x7d b".toList.toArray true 7 (.ok (.success (), 7)) := by
  have hsize : "a \x7b--\x7d b".toList.toArray.size < Index.limit := by decide
  have hlabelled : (token dashed (symbol · "a")).WellLabelled :=
    grammar_wellLabelled dashed_ready fun _ => labelled_compositional.symbol_offered "a"
  have hshows : (token dashed (symbol · "a")).ShowsFrom "a \x7b--\x7d b".toList.toArray false 0
      (.ok (.success "a", 7)) := Parser.showsFrom_ok_iff.2 ⟨_, ⟨200, _, _, rfl, rfl⟩, rfl⟩
  have hexhaust := lexemes_exhaust dashed _ hsize false true 0 (Nat.zero_le _)
  exact ⟨hsize, Nat.zero_le _, .symbol "a", hlabelled, hshows,
    hexhaust.2 _ _ (.symbol "a") hlabelled _ _ hshows⟩

end Lexer

end ParserKit
