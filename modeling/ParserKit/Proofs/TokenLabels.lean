import ParserKit.Proofs.Tokens

/-!
The token parsers are well labelled. Those that a lexer offers are so as long as its
language and its white space are.
-/

namespace ParserKit

open Build

/-- The labels of a parser are what the names say. -/
abbrev Parser.labelled : Property := fun names level _ p => p.Labelled names level

theorem labelled_unreserved {names : Names} {level : Nat} {word : Parser .text}
    (hword : word.Labelled names level) (isReserved : String → Bool) (kind : String) :
    (Lexer.unreserved isReserved kind word).Labelled names level := by
  refine Parser.Labelled.followedBy (p := word.withPosition) hword fun (name, span) => ?_
  dsimp only
  split
  · trivial
  · trivial

theorem labelled_recursive {level : Nat} {t : Ty} {define : Parser t → Build (Parser t)}
    (h : ∀ name : Label, name.level = level → Labelled level (define (.rule name))) :
    Labelled level (Build.recursive define) := by
  have hbody : ∀ name : Label, name.level = level →
      Yields level (define (.rule name)) fun names body => True → body.Labelled names level :=
    fun name hname => (h name hname).mono fun _ _ hp _ => hp
  exact (recursive_yields hbody).mono fun _ _ hp => hp trivial

theorem labelled_bindFresh {level : Nat} {a t : Ty} (p : Parser a)
    {next : a.Elem → Build (Parser t)} (h : ∀ value, Labelled (level + 1) (next value)) :
    Yields level (bindFresh p next) fun names q =>
      p.Labelled names level → q.Labelled names level := by
  have hnext : ∀ value, Yields (level + 1) (next value) fun names q =>
      AllLabelled names (level + 1) [] → q.Labelled names (level + 1) :=
    fun value => (h value).mono fun _ _ hq _ => hq
  exact (bindFresh_yields hnext).mono fun _ _ hq hp => hq hp fun _ hmem =>
    absurd hmem List.not_mem_nil

/-- Combinators keep parsers labelled, so that every token parser is. -/
theorem labelled_compositional : Compositional Parser.labelled where
  ret _ := trivial
  fail _ := trivial
  zero := trivial
  satisfy _ := trivial
  char _ := trivial
  string _ := trivial
  map hp _ := hp
  control hp := hp
  attempt hp := hp
  label hp _ := hp
  refuse hp := hp
  unreserved hword isReserved kind := labelled_unreserved hword isReserved kind
  bind hp hnext := ⟨hp, hnext⟩
  sequence h := h
  choice hp hq := ⟨hp, hq⟩
  many hp := hp
  many1 hp := hp
  memo p := memo_yields p
  rule hname := Nat.le_of_eq hname
  recursive h := labelled_recursive h
  rebuilt p := labelled_bindFresh p

/-- A grammar over the tokens of a language is well labelled when it takes nothing but
labelled parsers. -/
theorem Lexer.grammar_wellLabelled {t : Ty} {language : Build Language}
    {grammar : Lexer → Build (Parser t)}
    (hlanguage : Yields 0 language fun names language => language.Ready Parser.labelled names 0)
    (hgrammar : ∀ lexer : Lexer, lexer.Offers Parser.labelled 0 (grammar lexer)) :
    (Build.assemble (do grammar (← ofLanguage (← language))) 0).WellLabelled :=
  Build.assemble_wellLabelled (labelled_compositional.grammar_given hlanguage hgrammar)

end ParserKit
