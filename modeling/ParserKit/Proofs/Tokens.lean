import ParserKit.Lexer.Literal
import ParserKit.Lexer.Word
import ParserKit.Proofs.Assembly

/-!
What holds of every token parser because it holds of the readers that token parsers are
made of and is kept by the combinators that put them together. The parsers that a lexer
offers have such a property as long as its language and its white space have it.
-/

namespace ParserKit

open Build

/-- A property of parsers that stand at a level, given names for their labels. -/
abbrev Property := Names → (level : Nat) → (t : Ty) → Parser t → Prop

/-- Steps whose result has a property, whatever labels there are besides its own. -/
abbrev Build.Gives (C : Property) {t : Ty} (level : Nat) (build : Build (Parser t)) : Prop :=
  Yields level build fun names p => C names level t p

/-- The control letter of an escape, which is read as a letter of its class. -/
def Lexer.controlLetter (outer inner : Label) (message : String) : Parser .char :=
  .memo outer (.wrap (.label message) (.memo inner (.atom (.satisfy Char.isUpper))))

/-- A property that the combinators keep. Of conversions it need only admit those that
always succeed and the one from letters to control characters. -/
structure Compositional (C : Property) : Prop where
  ret : ∀ {names level t} (value : t.Elem), C names level t (.ret value)
  fail : ∀ {names level t} (message : String), C names level t (.fail message)
  zero : ∀ {names level t}, C names level t .zero
  satisfy : ∀ {names level} (accepts : Char → Bool), C names level _ (.atom (.satisfy accepts))
  char : ∀ {names level} (c : Char), C names level _ (.atom (.char c))
  string : ∀ {names level} (chars : String), C names level _ (.atom (.string chars))
  map : ∀ {names level a b} {p : Parser a}, C names level a p → ∀ f : a.Elem → b.Elem,
    C names level b (p.map f)
  control : ∀ {names level outer inner message},
    C names level _ (Lexer.controlLetter outer inner message) →
    C names level .char (.wrap (.convert (b := .char) Lexer.controlOf)
      (Lexer.controlLetter outer inner message))
  attempt : ∀ {names level t} {p : Parser t}, C names level t p →
    C names level t (.wrap .attempt p)
  label : ∀ {names level t} {p : Parser t}, C names level t p → ∀ message,
    C names level t (.wrap (.label message) p)
  refuse : ∀ {names level t} {p : Parser t}, C names level t p →
    C names level _ p.notFollowedBy
  unreserved : ∀ {names level word}, C names level _ word → ∀ isReserved kind,
    C names level _ (Lexer.unreserved isReserved kind word)
  bind : ∀ {names level a b} {p : Parser a} {captures} {next : a.Elem → Parser b},
    C names level a p → (∀ value, C names level b (next value)) →
    C names level b (.bind p captures next)
  sequence : ∀ {names level t n} {items : Fin n → Parser (.option t)},
    (∀ i, C names level _ (items i)) → C names level _ (.sequence items)
  choice : ∀ {names level t} {first second : Parser t}, C names level t first →
    C names level t second → C names level t (.choice first second)
  many : ∀ {names level t} {p : Parser t}, C names level t p → C names level _ (.many p)
  many1 : ∀ {names level t} {p : Parser t}, C names level t p → C names level _ (.many1 p)
  memo : ∀ {level t} (p : Parser t),
    Yields level (Build.memo p) fun names q => C names level t p → C names level t q
  rule : ∀ {names level t} {name : Label}, name.level = level → C names level t (.rule name)
  recursive : ∀ {level t} {define : Parser t → Build (Parser t)},
    (∀ name : Label, name.level = level → Gives C level (define (.rule name))) →
    Gives C level (Build.recursive define)
  rebuilt : ∀ {level a t} (p : Parser a) {next : a.Elem → Build (Parser t)},
    (∀ value, Gives C (level + 1) (next value)) →
    Yields level (bindFresh p next) fun names q => C names level a p → C names level t q

variable {C : Property} {a b c t : Ty} {names : Names} {level : Nat}

namespace Build

theorem Yields.mapM {α β : Type} {f : α → Build β} {post : Names → β → Prop}
    (h : ∀ x, Yields level (f x) post) (xs : List α) :
    Yields level (xs.mapM f) fun names values => ∀ value ∈ values, post names value := by
  induction xs with
  | nil =>
    rw [List.mapM_nil]
    exact .pure fun names value hvalue => absurd hvalue List.not_mem_nil
  | cons x xs ih =>
    rw [List.mapM_cons]
    refine (h x).bind fun value => ih.bind fun values => .pure fun names hvalues hvalue => ?_
    exact List.forall_mem_cons.2 ⟨hvalue, hvalues⟩

/-- A step that passes a parser with the property on to another step. -/
theorem Yields.through {build : Build (Parser a)} {f : Parser a → Build (Parser b)} {β : Type}
    {next : Parser b → Build β} {post : Names → β → Prop} (h : Gives C level build)
    (hf : ∀ p, Yields level (f p) fun names q => C names level a p → C names level b q)
    (hnext : ∀ q, Yields level (next q) fun names result => C names level b q → post names result) :
    Yields level (build >>= fun p => f p >>= next) post :=
  h.bind fun p => (hf p).bind fun q => (hnext q).mono
    fun _ _ hresult hq hp => hresult (hq hp)

end Build

/-- A language of which all parsers have a property. -/
structure Language.Ready (C : Property) (names : Names) (level : Nat) (language : Language) :
    Prop where
  identStart : C names level _ language.identStart
  identLetter : C names level _ language.identLetter
  opStart : C names level _ language.opStart
  opLetter : C names level _ language.opLetter

/-- A lexer of which all parsers have a property. -/
structure Lexer.Ready (C : Property) (names : Names) (level : Nat) (lexer : Lexer) : Prop where
  language : lexer.language.Ready C names level
  whiteSpace : C names level _ lexer.whiteSpace

/-- A token parser that has a property as soon as its lexer has it. -/
abbrev Lexer.Offers (C : Property) (lexer : Lexer) (level : Nat) (build : Build (Parser t)) :
    Prop :=
  Yields level build fun names p => lexer.Ready C names level → C names level t p

/-- A part of a grammar around a parser, which has a property as soon as that parser has
it, too. -/
abbrev Lexer.Encloses (C : Property) (lexer : Lexer) (level : Nat) (p : Parser a)
    (build : Build (Parser t)) : Prop :=
  Yields level build fun names q =>
    C names level a p → lexer.Ready C names level → C names level t q

namespace Compositional

variable (hC : Compositional C) {p : Parser a} {q : Parser b}

include hC

section Combinators

theorem andThen (hp : C names level a p) (hq : C names level b q) :
    C names level b (p.andThen q) :=
  hC.bind hp fun _ => hq

theorem lift2 (hp : C names level a p) (hq : C names level b q) (f : a.Elem → b.Elem → c.Elem) :
    C names level c (p.lift2 q f) :=
  hC.bind hp fun _ => hC.map hq _

theorem skip (hp : C names level a p) (hq : C names level b q) : C names level a (p.skip q) :=
  hC.lift2 hp hq _

theorem between {r : Parser t} (hp : C names level a p) (hq : C names level b q)
    (hr : C names level t r) : C names level t (Parser.between p q r) :=
  hC.andThen hp (hC.skip hr hq)

theorem sepBy1 (hp : C names level a p) (hq : C names level b q) :
    C names level _ (p.sepBy1 q) :=
  hC.lift2 hp (hC.many (hC.andThen hq hp)) _

theorem sepBy (hp : C names level a p) (hq : C names level b q) : C names level _ (p.sepBy q) :=
  hC.choice (hC.sepBy1 hp hq) (hC.ret _)

theorem choiceAll {items : List (Parser t)} (h : ∀ item ∈ items, C names level t item) :
    C names level t (Parser.choiceAll items) := by
  induction items with
  | nil => exact hC.zero
  | cons p rest ih =>
    cases rest with
    | nil => exact h p (List.mem_singleton_self p)
    | cons q rest =>
      have hrest := ih fun item hitem => h item (List.mem_cons_of_mem p hitem)
      exact hC.choice (h p List.mem_cons_self) hrest

end Combinators

section Characters

theorem attempt_yields (p : Parser t) :
    Yields level (Build.attempt p) fun names q => C names level t p → C names level t q :=
  (hC.memo (.wrap .attempt p)).mono fun _ _ hmemo hp => hmemo (hC.attempt hp)

theorem label_yields (p : Parser t) (message : String) :
    Yields level (Build.label p message) fun names q => C names level t p → C names level t q :=
  (hC.memo (.wrap (.label message) p)).mono fun _ _ hmemo hp => hmemo (hC.label hp message)

theorem skipMany_yields (p : Parser t) :
    Yields level (Build.skipMany p) fun names q => C names level t p → C names level _ q :=
  (hC.memo (Parser.map (b := .unit) (.many p) fun _ => ())).mono fun _ _ hmemo hp =>
    hmemo (hC.map (hC.many hp) _)

theorem skipMany1_yields (p : Parser t) :
    Yields level (Build.skipMany1 p) fun names q => C names level t p → C names level _ q :=
  (hC.skipMany_yields p).bind fun later => (hC.memo (p.andThen later)).mono
    fun _ _ hmemo hlater hp => hmemo (hC.andThen hp (hlater hp))

theorem satisfy_given (accepts : Char → Bool) : Gives C level (Build.satisfy accepts) :=
  (hC.memo (.atom (.satisfy accepts))).mono fun _ _ hmemo => hmemo (hC.satisfy accepts)

theorem char_given (x : Char) : Gives C level (Build.char x) :=
  (hC.memo (.atom (.char x))).mono fun _ _ hmemo => hmemo (hC.char x)

theorem string_given (chars : String) : Gives C level (Build.string chars) :=
  (hC.memo (.atom (.string chars))).mono fun _ _ hmemo => hmemo (hC.string chars)

theorem classOf_given (accepts : Char → Bool) (name : String) :
    Gives C level (Build.classOf accepts name) :=
  (hC.satisfy_given accepts).bind fun p => hC.label_yields p name

end Characters

section WhiteSpace

theorem plain_yields :
    Yields level Language.plain fun names language => language.Ready C names level := by
  refine (hC.classOf_given _ _).bind fun letter => (hC.char_given _).bind fun underscore => ?_
  refine (hC.classOf_given _ _).bind fun later => (hC.satisfy_given _).bind fun mark => ?_
  refine (hC.satisfy_given _).bind fun opStart => (hC.satisfy_given _).bind fun opLetter => ?_
  refine .pure fun names hopLetter hopStart hmark hlater hunderscore hletter => ?_
  exact ⟨hC.choice hletter hunderscore, hC.choice hlater hmark, hopStart, hopLetter⟩

theorem lineComment_given (marker : String) : Gives C level (Lexer.lineComment marker) := by
  refine (hC.string_given marker).through hC.attempt_yields fun start => ?_
  refine (hC.satisfy_given _).through hC.skipMany_yields fun rest => ?_
  exact .pure fun names hrest hstart => hC.andThen hstart hrest

theorem blockComment_given (language : Language) :
    Gives C level (Lexer.blockComment language) := by
  refine hC.recursive fun name hname => ?_
  refine (hC.satisfy_given _).through hC.skipMany1_yields fun plain => ?_
  refine (hC.string_given _).bind fun refused => (hC.satisfy_given _).bind fun delimiter => ?_
  refine (hC.string_given _).through hC.attempt_yields fun closing => ?_
  refine (hC.label_yields _ _).bind fun close => ?_
  refine (hC.string_given _).through hC.attempt_yields fun start => ?_
  refine (hC.skipMany_yields _).bind fun inner => .pure ?_
  intro names hinner hstart hclose hclosing hdelimiter hrefused hplain
  have hcomment : C names level .unit (.rule name) := hC.rule hname
  have hstray := hC.andThen (hC.refuse hrefused) (hC.map (b := .unit) hdelimiter fun _ => ())
  refine hC.andThen hstart (hC.andThen (hinner ?_) (hC.map (hclose hclosing) _))
  split
  · exact hC.choice hplain (hC.choice hcomment hstray)
  · exact hC.choice hplain hstray

omit hC in
theorem optionalPiece_yields (disabled : Bool) {piece : Build (Parser .unit)}
    (h : Gives C level piece) :
    Yields level (Lexer.optionalPiece disabled piece) fun names pieces =>
      ∀ p ∈ pieces, C names level _ p := by
  cases disabled with
  | true => exact .pure fun names p hp => absurd hp List.not_mem_nil
  | false => exact h.bind fun p => .pure fun names hp => List.forall_mem_singleton.2 hp

theorem blankPieces_yields (language : Language) :
    Yields level (Lexer.blankPieces language) fun names pieces =>
      ∀ p ∈ pieces, C names level _ p := by
  refine (hC.satisfy_given _).through hC.skipMany1_yields fun blanks => ?_
  refine (optionalPiece_yields _ (hC.lineComment_given _)).bind fun lines => ?_
  refine (optionalPiece_yields _ (hC.blockComment_given language)).bind fun blocks => .pure ?_
  intro names hblocks hlines hblanks
  exact List.forall_mem_cons.2 ⟨hblanks, List.forall_mem_append.2 ⟨hlines, hblocks⟩⟩

theorem whiteSpaceOf_given (language : Language) : Gives C level (Lexer.whiteSpaceOf language) :=
  (hC.blankPieces_yields language).bind fun _ => (hC.skipMany_yields _).mono
    fun _ _ hskip hpieces => hskip (hC.choiceAll hpieces)

theorem ofLanguage_yields (language : Language) :
    Yields level (Lexer.ofLanguage language) fun names lexer =>
      language.Ready C names level → lexer.Ready C names level :=
  (hC.whiteSpaceOf_given language).bind fun _ => .pure fun _ hwhiteSpace hlanguage =>
    ⟨hlanguage, hwhiteSpace⟩

end WhiteSpace

section Numerals

theorem accept (value : Option t.Elem) : C names level t (Lexer.accept value) := by
  cases value with
  | none => exact hC.fail _
  | some value => exact hC.ret value

theorem digits {digit : Parser .char} (hdigit : C names level _ digit) (base : Nat) :
    C names level _ (Lexer.digits base digit) :=
  hC.bind (hC.many1 hdigit) fun _ => hC.accept _

theorem decimal_given : Gives C level Lexer.decimal :=
  (hC.classOf_given _ _).bind fun _ => .pure fun _ hdigit => hC.digits hdigit 10

theorem hexTail_given : Gives C level Lexer.hexTail := by
  refine (hC.satisfy_given _).bind fun mark => (hC.classOf_given _ _).bind fun digit => .pure ?_
  exact fun names hdigit hmark => hC.andThen hmark (hC.digits hdigit 16)

theorem octTail_given : Gives C level Lexer.octTail := by
  refine (hC.satisfy_given _).bind fun mark => (hC.classOf_given _ _).bind fun digit => .pure ?_
  exact fun names hdigit hmark => hC.andThen hmark (hC.digits hdigit 8)

theorem hexadecimal_given : Gives C level Lexer.hexadecimal :=
  (hC.char_given _).bind fun _ => hC.hexTail_given.bind fun _ => .pure fun _ hhex hzero =>
    hC.andThen hzero hhex

theorem octal_given : Gives C level Lexer.octal :=
  (hC.char_given _).bind fun _ => hC.octTail_given.bind fun _ => .pure fun _ hoct hzero =>
    hC.andThen hzero hoct

theorem naturalNumber_given : Gives C level Lexer.naturalNumber := by
  refine hC.hexTail_given.bind fun hex => hC.octTail_given.bind fun oct => ?_
  refine hC.decimal_given.bind fun rest => (hC.char_given _).bind fun zero => ?_
  refine (hC.label_yields _ _).bind fun zeroFirst => hC.decimal_given.bind fun number => .pure ?_
  intro names hnumber hzeroFirst hzero hrest hoct hhex
  have htail := hC.choice hhex (hC.choice hoct (hC.choice hrest (hC.ret (t := .natural) 0)))
  exact hC.choice (hzeroFirst (hC.andThen hzero htail)) hnumber

theorem sign_given : Gives C level Lexer.sign := by
  refine (hC.char_given _).bind fun minus => (hC.char_given _).bind fun plus => .pure ?_
  intro names hplus hminus
  exact hC.choice (hC.map (b := .bool) hminus fun _ => true)
    (hC.choice (hC.map (b := .bool) hplus fun _ => false) (hC.ret (t := .bool) false))

theorem fraction_given : Gives C level Lexer.fraction := by
  refine (hC.classOf_given _ _).bind fun digit => (hC.label_yields _ _).bind fun digits => ?_
  refine (hC.char_given _).bind fun point => (hC.label_yields _ _).mono ?_
  intro names p hlabel hpoint hdigits hdigit
  exact hlabel (hC.andThen hpoint (hC.map (hdigits (hC.many1 hdigit)) _))

theorem exponent_given : Gives C level Lexer.exponent := by
  refine (hC.char_given _).bind fun minus => (hC.char_given _).bind fun plus => ?_
  refine (hC.classOf_given _ _).bind fun digit => (hC.label_yields _ _).bind fun digits => ?_
  refine (hC.satisfy_given _).bind fun mark => (hC.label_yields _ _).mono ?_
  intro names p hlabel hmark hdigits hdigit hplus hminus
  have hsign := hC.choice (hC.map (b := .text) hminus fun _ => "-")
    (hC.choice (hC.map (b := .text) hplus fun _ => "") (hC.ret (t := .text) ""))
  have hdigits := hdigits (hC.map (b := .text) (hC.many1 hdigit) String.ofList)
  exact hlabel (hC.andThen hmark (hC.lift2 hsign hdigits _))

theorem fractionExponent_given (whole : Nat) :
    Gives C level (Lexer.fractionExponent whole) := by
  refine hC.fraction_given.bind fun fraction => hC.exponent_given.bind fun exponent => .pure ?_
  intro names hexponent hfraction
  have hoptional := hC.choice hexponent (hC.ret (t := .text) "")
  have htail := hC.choice (hC.lift2 (c := .text) hfraction hoptional fun f e => f ++ e) hexponent
  refine hC.bind htail fun tail => ?_
  cases Decimal.ofText? (toString whole ++ tail) with
  | none => exact hC.fail _
  | some number => exact hC.ret _

theorem decimalOrFloat_given : Gives C level Lexer.decimalOrFloat := by
  refine hC.decimal_given.bind fun whole => (hC.rebuilt whole fun n => ?_)
  refine (hC.fractionExponent_given n).bind fun float => .pure fun names hfloat => ?_
  exact hC.choice (hC.map (b := .number) hfloat Number.float) (hC.ret _)

end Numerals

section Escapes

theorem letterEscape_given : Gives C level Lexer.letterEscape := by
  have hcode : ∀ code : Char × Char, Gives C level do
      return (← Build.char code.1).map (b := .char) fun _ => code.2 :=
    fun code => (hC.char_given code.1).bind fun _ => .pure fun _ hcode => hC.map hcode _
  exact (Yields.mapM hcode _).bind fun _ => .pure fun _ hescapes => hC.choiceAll hescapes

theorem codeEscape_given : Gives C level Lexer.codeEscape := by
  refine hC.decimal_given.bind fun decimal => (hC.char_given _).bind fun octMark => ?_
  refine (hC.classOf_given _ _).bind fun octDigit => (hC.char_given _).bind fun hexMark => ?_
  refine (hC.classOf_given _ _).bind fun hexDigit => .pure ?_
  intro names hhexDigit hhexMark hoctDigit hoctMark hdecimal
  have hcode := hC.choice hdecimal (hC.choice (hC.andThen hoctMark (hC.digits hoctDigit 8))
    (hC.andThen hhexMark (hC.digits hhexDigit 16)))
  refine hC.bind hcode fun code => ?_
  cases Lexer.ofCode? code with
  | none => exact hC.fail _
  | some c => exact hC.ret _

theorem nameEscape_given : Gives C level Lexer.nameEscape := by
  have hname : ∀ name : String × Char, Gives C level (do
      Build.attempt ((← Build.string name.1).map (b := .char) fun _ => name.2)) :=
    fun name => (hC.string_given name.1).bind fun _ => (hC.attempt_yields _).mono
      fun _ _ hattempt hstring => hattempt (hC.map hstring _)
  exact (Yields.mapM hname _).bind fun _ => .pure fun _ hescapes => hC.choiceAll hescapes

/-- The letter of a control character is known to be one. -/
theorem upper_yields (message : String) :
    Yields level (Build.classOf Char.isUpper message) fun names p =>
      C names level _ p ∧ ∃ outer inner, p = Lexer.controlLetter outer inner message := by
  intro first
  have hclass : Gives C level (Build.classOf Char.isUpper message) := hC.classOf_given _ _
  obtain ⟨p, last, own, hrun, hlast, hown, hp⟩ := hclass first
  obtain ⟨rfl, -⟩ := Prod.mk.inj hrun
  exact ⟨_, last, own, hrun, hlast, hown, fun names hnames =>
    ⟨hp names hnames, ⟨level, first + 1⟩, ⟨level, first⟩, rfl⟩⟩

theorem controlEscape_given : Gives C level Lexer.controlEscape := by
  refine (hC.upper_yields _).bind fun letter => (hC.char_given _).bind fun mark => .pure ?_
  rintro names hmark ⟨hletter, outer, inner, rfl⟩
  exact hC.andThen hmark (hC.control hletter)

theorem escapeCode_given : Gives C level Lexer.escapeCode := by
  refine hC.letterEscape_given.bind fun letter => hC.codeEscape_given.bind fun code => ?_
  refine hC.nameEscape_given.bind fun name => hC.controlEscape_given.bind fun control => ?_
  refine (hC.label_yields _ _).mono fun names p hlabel hcontrol hname hcode hletter => ?_
  exact hlabel (hC.choice hletter (hC.choice hcode (hC.choice hname hcontrol)))

end Escapes

section Tokens

variable {lexer : Lexer}

theorem lexeme (h : lexer.Ready C names level) {p : Parser t} (hp : C names level t p) :
    C names level t (lexer.lexeme p) :=
  hC.skip hp h.whiteSpace

theorem natural_offered : lexer.Offers C level lexer.natural := by
  refine hC.naturalNumber_given.bind fun number => (hC.label_yields _ _).mono ?_
  exact fun names p hlabel hnumber hlexer => hlabel (hC.lexeme hlexer hnumber)

theorem integer_offered : lexer.Offers C level lexer.integer := by
  have hvalue : ∀ negative, Gives C (level + 1) do
      return (← Lexer.naturalNumber).followedBy fun n =>
        Lexer.accept (t := .integer) (Lexer.signed? negative n) :=
    fun negative => hC.naturalNumber_given.bind fun _ => .pure fun _ hnumber =>
      hC.bind hnumber fun _ => hC.accept _
  refine hC.sign_given.bind fun sign => (hC.rebuilt _ hvalue).bind fun value => ?_
  refine (hC.label_yields _ _).mono fun names p hlabel hvalue hsign hlexer => ?_
  exact hlabel (hC.lexeme hlexer (hvalue (hC.lexeme hlexer hsign)))

theorem float_offered : lexer.Offers C level lexer.float := by
  refine hC.decimal_given.bind fun whole => ?_
  refine (hC.rebuilt whole fun n => hC.fractionExponent_given n).bind fun number => ?_
  refine (hC.label_yields _ _).mono fun names p hlabel hnumber hwhole hlexer => ?_
  exact hlabel (hC.lexeme hlexer (hnumber hwhole))

theorem naturalOrFloat_offered : lexer.Offers C level lexer.naturalOrFloat := by
  refine hC.hexTail_given.bind fun hex => hC.octTail_given.bind fun oct => ?_
  refine hC.decimalOrFloat_given.bind fun rest => (hC.fractionExponent_given 0).bind fun part => ?_
  refine (hC.char_given _).bind fun zero => hC.decimalOrFloat_given.bind fun number => ?_
  refine (hC.label_yields _ _).mono ?_
  intro names p hlabel hnumber hzero hpart hrest hoct hhex hlexer
  have hbased := hC.map (b := .number) (hC.choice hhex hoct) Number.natural
  have htail := hC.choice hbased (hC.choice hrest
    (hC.choice (hC.map (b := .number) hpart Number.float) (hC.ret (t := .number) (.natural 0))))
  exact hlabel (hC.lexeme hlexer (hC.choice (hC.andThen hzero htail) hnumber))

theorem charLiteral_offered : lexer.Offers C level lexer.charLiteral := by
  refine (hC.classOf_given _ _).bind fun letter => (hC.char_given _).bind fun mark => ?_
  refine hC.escapeCode_given.bind fun code => ?_
  refine (hC.char_given _).through (hC.label_yields · _) fun opening => ?_
  refine (hC.char_given _).through (hC.label_yields · _) fun closing => .pure ?_
  intro names hclosing hopening hcode hmark hletter hlexer
  exact hC.lexeme hlexer (hC.between hopening hclosing
    (hC.choice hletter (hC.andThen hmark hcode)))

theorem stringLiteral_offered : lexer.Offers C level lexer.stringLiteral := by
  refine (hC.classOf_given _ _).bind fun letter => ?_
  refine (hC.char_given _).through (hC.label_yields · _) fun gapEnd => ?_
  refine (hC.classOf_given _ _).bind fun blank => (hC.char_given _).bind fun empty => ?_
  refine hC.escapeCode_given.bind fun code => (hC.char_given _).bind fun mark => ?_
  refine (hC.char_given _).through (hC.label_yields · _) fun opening => ?_
  refine (hC.char_given _).through (hC.label_yields · _) fun closing => .pure ?_
  intro names hclosing hopening hmark hcode hempty hblank hgapEnd hletter hlexer
  have hgap := hC.andThen (hC.many1 hblank) hgapEnd
  have hcodes := hC.choice (hC.map (b := .option .char) hgap fun _ => none)
    (hC.choice (hC.map (b := .option .char) hempty fun _ => none)
      (hC.map (b := .option .char) hcode some))
  have hitem := hC.choice (hC.map (b := .option .char) hletter some) (hC.andThen hmark hcodes)
  have hbody := hC.map (b := .list .char) (hC.many hitem) Parser.presentValues
  exact hC.lexeme hlexer (hC.between hopening hclosing
    (hC.map (b := .text) hbody String.ofList))

theorem symbol_offered (chars : String) : lexer.Offers C level (lexer.symbol chars) :=
  (hC.string_given chars).bind fun _ => .pure fun _ hchars hlexer => hC.lexeme hlexer hchars

theorem enclosed_yields (opening closing : String) (p : Parser t) :
    lexer.Encloses C level p (lexer.enclosed opening closing p) := by
  refine (hC.symbol_offered opening).bind fun first => ?_
  refine (hC.symbol_offered closing).bind fun last => .pure ?_
  exact fun names hlast hfirst hp hlexer => hC.between (hfirst hlexer) (hlast hlexer) hp

theorem sepBy_yields (chars : String) (p : Parser t) :
    lexer.Encloses C level p do return p.sepBy (← lexer.symbol chars) :=
  (hC.symbol_offered chars).bind fun _ => .pure fun _ hseparator hp hlexer =>
    hC.sepBy hp (hseparator hlexer)

theorem sepBy1_yields (chars : String) (p : Parser t) :
    lexer.Encloses C level p do return p.sepBy1 (← lexer.symbol chars) :=
  (hC.symbol_offered chars).bind fun _ => .pure fun _ hseparator hp hlexer =>
    hC.sepBy1 hp (hseparator hlexer)

theorem run {start letter : Parser .char} (hstart : C names level _ start)
    (hletter : C names level _ letter) : C names level _ (Lexer.run start letter) :=
  hC.lift2 hstart (hC.many hletter) _

theorem identifier_offered : lexer.Offers C level lexer.identifier := by
  refine (hC.label_yields _ _).bind fun word => (hC.attempt_yields _).bind fun name => .pure ?_
  intro names hname hword hlexer
  have hrun := hC.run hlexer.language.identStart hlexer.language.identLetter
  exact hC.lexeme hlexer (hname (hC.unreserved (hword hrun) _ _))

theorem operator_offered : lexer.Offers C level lexer.operator := by
  refine (hC.label_yields _ _).bind fun word => (hC.attempt_yields _).bind fun name => .pure ?_
  intro names hname hword hlexer
  have hrun := hC.run hlexer.language.opStart hlexer.language.opLetter
  exact hC.lexeme hlexer (hname (hC.unreserved (hword hrun) _ _))

theorem caseString_given (name : String) : Gives C level (lexer.caseString name) := by
  have hletter : ∀ expected, Gives C level (do
      let letter ← Build.label (← Build.satisfy (Lexer.sameLetter expected)) name
      return letter.map (b := .option .char) some) :=
    fun expected => (hC.satisfy_given _).through (hC.label_yields · _) fun _ =>
      .pure fun _ hletter => hC.map hletter _
  unfold Lexer.caseString
  split
  · exact hC.string_given name
  · refine (Yields.mapM hletter name.toList).bind fun letters => .pure fun names hletters => ?_
    exact hC.map (hC.sequence fun i => hletters _ (letters.getElem_mem i.isLt)) _

theorem delimited_yields (name : String) (text : Parser .text) (letter : Parser .char) :
    Yields level (lexer.delimited name text letter) fun names p => C names level _ text →
      C names level _ letter → lexer.Ready C names level → C names level _ p := by
  refine (hC.label_yields _ _).bind fun boundary => (hC.attempt_yields _).bind fun word => .pure ?_
  intro names hword hboundary htext hletter hlexer
  exact hC.lexeme hlexer (hword (hC.andThen htext (hboundary (hC.refuse hletter))))

theorem reserved_offered (name : String) : lexer.Offers C level (lexer.reserved name) :=
  (hC.caseString_given name).bind fun _ => (hC.delimited_yields name _ _).mono
    fun _ _ hword htext hlexer => hword htext hlexer.language.identLetter hlexer

theorem reservedOperator_offered (name : String) :
    lexer.Offers C level (lexer.reservedOperator name) :=
  (hC.string_given name).bind fun _ => (hC.delimited_yields name _ _).mono
    fun _ _ hword htext hlexer => hword htext hlexer.language.opLetter hlexer

end Tokens

/-- A grammar over the tokens of a language has the property when it takes nothing but
parsers that have it. -/
theorem grammar_given {language : Build Language} {grammar : Lexer → Build (Parser t)}
    (hlanguage : Yields level language fun names language => language.Ready C names level)
    (hgrammar : ∀ lexer : Lexer, lexer.Offers C level (grammar lexer)) :
    Gives C level (do grammar (← Lexer.ofLanguage (← language))) := by
  refine hlanguage.bind fun language => (hC.ofLanguage_yields language).bind fun lexer => ?_
  exact (hgrammar lexer).mono fun names p hp hlexer hlanguage => hp (hlexer hlanguage)

end Compositional

end ParserKit
