import ParserKit.Proofs.TokenLabels

/-!
What a grammar is composed of: the readers in it, the wrappers together with what they
are around, and, as a whole, words that are refused where they are reserved. Token
parsers are composed of readers that do not know where they are and of wrappers that
neither break a run off nor tell a place.
-/

namespace ParserKit

open Build

/-- A grammar of the given readers and wrappers, those in the parsers that functions make
included. -/
inductive Parser.Composed (readers : ∀ t, Atom t → Prop)
    (wrappers : ∀ a b, Wrapper a b → Parser a → Prop) : {t : Ty} → Parser t → Prop where
  | atom {t : Ty} {a : Atom t} (h : readers t a) : Composed readers wrappers (.atom a)
  | wrap {a b : Ty} {wrapper : Wrapper a b} {p : Parser a} (h : wrappers a b wrapper p)
      (hp : Composed readers wrappers p) : Composed readers wrappers (.wrap wrapper p)
  | unreserved {word : Parser .text} (hword : Composed readers wrappers word)
      (isReserved : String → Bool) (kind : String) :
      Composed readers wrappers (Lexer.unreserved isReserved kind word)
  | bind {a b : Ty} {p : Parser a} {captures : List Label} {next : a.Elem → Parser b}
      (hp : Composed readers wrappers p) (hnext : ∀ value, Composed readers wrappers (next value)) :
      Composed readers wrappers (.bind p captures next)
  | sequence {t : Ty} {n : Nat} {items : Fin n → Parser (.option t)}
      (h : ∀ i, Composed readers wrappers (items i)) : Composed readers wrappers (.sequence items)
  | choice {t : Ty} {first second : Parser t} (h : Composed readers wrappers first)
      (h' : Composed readers wrappers second) : Composed readers wrappers (.choice first second)
  | memo {t : Ty} (label : Label) {p : Parser t} (hp : Composed readers wrappers p) :
      Composed readers wrappers (.memo label p)
  | many {t : Ty} {p : Parser t} (hp : Composed readers wrappers p) :
      Composed readers wrappers (.many p)
  | many1 {t : Ty} {p : Parser t} (hp : Composed readers wrappers p) :
      Composed readers wrappers (.many1 p)
  | recursive {t : Ty} (name : Label) {body : Parser t} (hbody : Composed readers wrappers body) :
      Composed readers wrappers (.recursive name body)
  | rule {t : Ty} (name : Label) : Composed readers wrappers (.rule name : Parser t)
  | fresh {t : Ty} (level : Nat) (captures : List Label) {body : Unit → Parser t}
      (hbody : Composed readers wrappers (body ())) :
      Composed readers wrappers (.fresh level captures body)
  | tick {t : Ty} (counter : Nat) {p : Parser t} (hp : Composed readers wrappers p) :
      Composed readers wrappers (.tick counter p)

/-- A reader that neither tells nor sets the position, nor fails at a place of its own. -/
inductive Atom.Relative : ∀ t, Atom t → Prop where
  | ret {t : Ty} (value : t.Elem) : Relative t (.ret value)
  | fail {t : Ty} (message : String) : Relative t (.fail (.message message))
  | zero {t : Ty} : Relative t (.fail .nothing)
  | unexpected {t : Ty} (found : String) : Relative t (.unexpected found)
  | satisfy (accepts : Char → Bool) : Relative _ (.satisfy accepts)
  | char (c : Char) : Relative _ (.char c)
  | string (chars : String) : Relative _ (.string chars)
  | eof : Relative _ .eof

/-- A wrapper that breaks no run off and tells no place: conversions always succeed, or
find the letter that they need. -/
inductive Wrapper.Basic : ∀ a b, Wrapper a b → Parser a → Prop where
  | map {a b : Ty} (f : a.Elem → b.Elem) (p : Parser a) :
      Basic a b (.convert fun value => .ok (f value)) p
  | control (outer inner : Label) (message : String) :
      Basic _ _ (.convert (b := .char) Lexer.controlOf) (Lexer.controlLetter outer inner message)
  | attempt {t : Ty} (p : Parser t) : Basic t t .attempt p
  | label {t : Ty} (message : String) (p : Parser t) : Basic t t (.label message) p
  | refuse {t : Ty} (p : Parser t) : Basic t _ .refuse p

namespace Parser

variable {readers : ∀ t, Atom t → Prop} {wrappers : ∀ a b, Wrapper a b → Parser a → Prop} {t : Ty}

/-- A grammar is composed, whatever its labels. -/
abbrev composed (readers : ∀ t, Atom t → Prop) (wrappers : ∀ a b, Wrapper a b → Parser a → Prop) :
    Property :=
  fun _ _ _ p => p.Composed readers wrappers

theorem composed_assemble {level : Nat} {build : Build (Parser t)}
    (h : Gives (composed readers wrappers) level build) :
    (build.assemble level).Composed readers wrappers := by
  obtain ⟨p, last, own, hrun, -, -, hp⟩ := h 0
  simp only [assemble, hrun]
  exact hp own fun label target hown => hown

theorem composed_memo (level : Nat) (p : Parser t) :
    Yields level (Build.memo p) fun _ q =>
      p.Composed readers wrappers → q.Composed readers wrappers := by
  intro first
  exact ⟨.memo ⟨level, first⟩ p, first + 1, _, rfl, Nat.le_succ first, Names.within_empty,
    fun _ _ hp => .memo _ hp⟩

theorem composed_recursive {level : Nat} {define : Parser t → Build (Parser t)}
    (h : ∀ name : Label, name.level = level →
      Gives (composed readers wrappers) level (define (.rule name))) :
    Gives (composed readers wrappers) level (Build.recursive define) := by
  intro first
  obtain ⟨body, last, own, hrun, hlast, hown, hbody⟩ := h ⟨level, first⟩ rfl (first + 1)
  refine ⟨.recursive ⟨level, first⟩ body, last, own, ?_, by omega, ?_, fun names hnames => ?_⟩
  · simp only [run_recursive, hrun]
  · intro label target htarget
    obtain ⟨hlevel, hfirst, hbefore⟩ := hown label target htarget
    exact ⟨hlevel, by omega, hbefore⟩
  · exact .recursive _ (hbody names hnames)

theorem composed_bindFresh {level : Nat} {a : Ty} (p : Parser a) {next : a.Elem → Build (Parser t)}
    (h : ∀ value, Gives (composed readers wrappers) (level + 1) (next value)) :
    Yields level (bindFresh p next) fun _ q =>
      p.Composed readers wrappers → q.Composed readers wrappers := by
  intro first
  exact ⟨_, first, _, rfl, Nat.le_refl first, Names.within_empty, fun _ _ hp =>
    .bind hp fun value => .fresh _ _ (composed_assemble (h value))⟩

/-- Combinators keep grammars composed, so that every token parser is. -/
theorem composed_compositional (hreaders : ∀ t a, Atom.Relative t a → readers t a)
    (hwrappers : ∀ a b wrapper p, Wrapper.Basic a b wrapper p → wrappers a b wrapper p) :
    Compositional (composed readers wrappers) where
  ret value := .atom (hreaders _ _ (.ret value))
  fail message := .atom (hreaders _ _ (.fail message))
  zero := .atom (hreaders _ _ .zero)
  satisfy accepts := .atom (hreaders _ _ (.satisfy accepts))
  char c := .atom (hreaders _ _ (.char c))
  string chars := .atom (hreaders _ _ (.string chars))
  map hp f := .wrap (hwrappers _ _ _ _ (.map f _)) hp
  control hletter := .wrap (hwrappers _ _ _ _ (.control _ _ _)) hletter
  attempt hp := .wrap (hwrappers _ _ _ _ (.attempt _)) hp
  label hp message := .wrap (hwrappers _ _ _ _ (.label message _)) hp
  refuse hp := .wrap (hwrappers _ _ _ _ (.refuse _)) hp
  unreserved := .unreserved
  bind := .bind
  sequence := .sequence
  choice := .choice
  many := .many
  many1 := .many1
  memo p := composed_memo _ p
  rule _ := .rule _
  recursive := composed_recursive
  rebuilt p := composed_bindFresh p

end Parser

/-- A grammar over the tokens of a language is composed when it takes nothing but composed
parsers. -/
theorem Lexer.grammar_composed {t : Ty} {readers : ∀ t, Atom t → Prop}
    {wrappers : ∀ a b, Wrapper a b → Parser a → Prop}
    (hreaders : ∀ t a, Atom.Relative t a → readers t a)
    (hwrappers : ∀ a b wrapper p, Wrapper.Basic a b wrapper p → wrappers a b wrapper p)
    {language : Build Language} {grammar : Lexer → Build (Parser t)}
    (hlanguage : Yields 0 language fun names language =>
      language.Ready (Parser.composed readers wrappers) names 0)
    (hgrammar : ∀ lexer : Lexer,
      lexer.Offers (Parser.composed readers wrappers) 0 (grammar lexer)) :
    (Build.assemble (do grammar (← ofLanguage (← language))) 0).Composed readers wrappers :=
  Parser.composed_assemble
    ((Parser.composed_compositional hreaders hwrappers).grammar_given hlanguage hgrammar)

end ParserKit
