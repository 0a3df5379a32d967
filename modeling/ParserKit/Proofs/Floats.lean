import ParserKit.Proofs.Committing
import ParserKit.Proofs.FloatTexts

/-!
Floats as tokens. Behind the whole digits a point or a mark commits to a fraction or an exponent,
and what is there has to be complete. The text that is handed on for conversion is put together
anew from the number of the whole digits and from the parts behind them; it is the terse form of
the text that was read, and stands for the same number. To see what is handed on, the parser is
taken with any conversion in place of the one to floating-point numbers.
-/

namespace ParserKit

open Build Lexer
open ParserKit.Parser (Texts Insists Reads)

/-- The floating-point number that is nearest to what a text in decimal notation stands for. -/
def Decimal.round? (text : String) : Option Binary64 :=
  (ofText? text).map toBinary64

namespace Lexer

/-- The text behind the whole digits, put tersely. -/
def floatTail : Build (Parser .text) := do
  let fraction ← fraction
  let exponent ← exponent
  return Parser.choice
    (Parser.lift2 (c := .text) fraction (exponent.option (t := .text) "") fun f e => f ++ e)
    exponent

/-- The part of a float behind its whole digits, with any conversion. -/
def fractionExponentWith (convert : String → Option Binary64) (whole : Nat) :
    Build (Parser .float) := do
  return (← floatTail).followedBy fun tail =>
    match convert (toString whole ++ tail) with
    | some number => .ret (t := .float) number
    | none => .fail "float"

/-- A number with a fraction, an exponent or both, with any conversion. -/
def floatWith (convert : String → Option Binary64) (lexer : Lexer) : Build (Parser .float) := do
  let number ← Build.bindFresh (← decimal) (fractionExponentWith convert)
  Build.label (lexer.lexeme number) "float"

theorem fractionExponent_eq : fractionExponent = fractionExponentWith Decimal.round? := by
  funext whole
  simp only [fractionExponent, fractionExponentWith, floatTail, bind_assoc, pure_bind]
  refine bind_congr fun fraction => bind_congr fun exponent => ?_
  refine congrArg pure (congrArg (Parser.followedBy _) (funext fun tail => ?_))
  rw [Decimal.round?]
  cases Decimal.ofText? (toString whole ++ tail) <;> rfl

theorem float_eq : float = floatWith Decimal.round? := by
  funext lexer
  rw [float, fractionExponent_eq]
  rfl

section Texts

/-- What follows the whole digits, with what is handed on of it. -/
def TailText : Texts String := fun text v next =>
  ∃ tail : FloatTail, text = tail.text ∧ tail.Stops next ∧ v = String.ofList tail.terse.text

def FractionText : Texts String := fun text v next =>
  ∃ run : DigitRun, text = '.' :: run.digits ∧ next.any Char.isDigit = false ∧
    v = String.ofList ('.' :: run.digits)

def ExponentText : Texts String := fun text v next =>
  ∃ exponent : Exponent, text = exponent.text ∧ next.any Char.isDigit = false ∧
    v = String.ofList exponent.terse.text

/-- What follows a whole number, with what becomes of both. -/
def ConvertedTail (convert : String → Option Binary64) (whole : Nat) : Texts Binary64 :=
  fun text v next => ∃ tail : FloatTail, text = tail.text ∧ tail.Stops next ∧
    convert (toString whole ++ String.ofList tail.terse.text) = some v

/-- A float whose whole digits are below the limit, with what becomes of it. -/
def FloatText (convert : String → Option Binary64) : Texts Binary64 := fun text v next =>
  ∃ x : Floating, text = x.text ∧ x.tail.Stops next ∧ x.whole.value < Index.limit ∧
    convert (String.ofList x.terse.text) = some v

theorem tailText_iff {text : List Char} {v : String} {next : Option Char} :
    TailText text v next ↔
      (∃ front f back, text = front ++ back ∧ FractionText front f (back.head?.or next) ∧
        ∃ e, (ExponentText back e next ∨
          (back = [] ∧ e = "" ∧ next.any exponentMarks.contains = false)) ∧ v = f ++ e) ∨
      ExponentText text v next := by
  constructor
  · rintro ⟨tail, rfl, ⟨hdigit, hmark⟩, rfl⟩
    cases tail with
    | scaled exponent => exact .inr ⟨exponent, rfl, hdigit, rfl⟩
    | pointed run power? =>
      left
      cases power? with
      | none =>
        exact ⟨'.' :: run.digits, _, [], rfl, ⟨run, rfl, hdigit, rfl⟩, "",
          .inr ⟨rfl, rfl, hmark rfl⟩, FloatTail.ofList_terse_text run none⟩
      | some exponent =>
        have hends : (exponent.text.head?.or next).any Char.isDigit = false := by
          obtain ⟨c, rest, htext, -, hc⟩ := exponent.text_begins
          rw [htext]
          exact hc
        exact ⟨'.' :: run.digits, _, exponent.text, rfl, ⟨run, rfl, hends, rfl⟩, _,
          .inl ⟨exponent, rfl, hdigit, rfl⟩, FloatTail.ofList_terse_text run (some exponent)⟩
  · rintro (⟨_, _, _, rfl, ⟨run, rfl, hdigit, rfl⟩, _, ⟨exponent, rfl, hnext, rfl⟩ |
      ⟨rfl, rfl, hmark⟩, rfl⟩ | ⟨exponent, rfl, hdigit, rfl⟩)
    · exact ⟨.pointed run (some exponent), rfl, ⟨hnext, fun h => nomatch h⟩,
        (FloatTail.ofList_terse_text run (some exponent)).symm⟩
    · exact ⟨.pointed run none, congrArg ('.' :: ·) rfl, ⟨hdigit, fun _ => hmark⟩,
        (FloatTail.ofList_terse_text run none).symm⟩
    · exact ⟨.scaled exponent, rfl, ⟨hdigit, fun h => nomatch h⟩, rfl⟩

theorem floatText_iff {convert : String → Option Binary64} {text : List Char} {v : Binary64}
    {next : Option Char} :
    FloatText convert text v next ↔ ∃ front whole back, text = front ++ back ∧
      NumberText Char.isDigit 10 front whole (back.head?.or next) ∧
        ConvertedTail convert whole back v next := by
  constructor
  · rintro ⟨x, rfl, hstops, hfits, hconvert⟩
    obtain ⟨c, rest, htail, -, hc⟩ := x.tail.text_begins
    have hends : ∀ d, (x.tail.text.head?.or next) = some d → d.isDigit = false := by
      simp [htail, hc]
    rw [x.ofList_terse_text] at hconvert
    exact ⟨_, _, _, rfl, ⟨⟨x.whole.ne_nil, x.whole.isDigit, hends⟩, rfl, hfits⟩,
      x.tail, rfl, hstops, hconvert⟩
  · rintro ⟨front, _, _, rfl, ⟨⟨hne, hall, -⟩, rfl, hfits⟩, tail, rfl, hstops, hconvert⟩
    refine ⟨⟨⟨front, hne, hall⟩, tail⟩, rfl, hstops, hfits, ?_⟩
    rw [Floating.ofList_terse_text]
    exact hconvert

/-- The texts ahead that are read as floats are the floats that lie ahead. -/
theorem floatText_ahead_iff {convert : String → Option Binary64} {text : List Char}
    {v : Binary64} (P : Nat → Prop) :
    (∃ front rest, text = front ++ rest ∧ FloatText convert front v rest.head? ∧
      P front.length) ↔
    ∃ x : Floating, x.LiesAhead text ∧ x.whole.value < Index.limit ∧
      convert (String.ofList x.terse.text) = some v ∧ P x.text.length := by
  constructor
  · rintro ⟨_, rest, htext, ⟨x, rfl, hstops, hfits, hconvert⟩, hP⟩
    exact ⟨x, ⟨rest, htext, hstops⟩, hfits, hconvert, hP⟩
  · rintro ⟨x, ⟨rest, htext, hstops⟩, hfits, hconvert, hP⟩
    exact ⟨x.text, rest, htext, ⟨x, rfl, hstops, hfits, hconvert⟩, hP⟩

end Texts

section Parts

variable {a b c : Ty} {input : Array Char} {scope : Scope} {level : Nat}

theorem run_insists {digit : Parser .char} (hdigit : digit.Accepts input scope Char.isDigit) :
    (Parser.many1 digit).Insists input scope Char.isDigit fun text v next =>
      ∃ run : DigitRun, text = run.digits ∧ v = run.digits ∧ next.any Char.isDigit = false := by
  refine hdigit.many1_insists.congr fun text v next => ?_
  constructor
  · rintro ⟨run, rfl, rfl, hnext⟩
    exact ⟨rfl, run.ne_nil, run.isDigit, Parser.any_eq_false_iff.1 hnext⟩
  · rintro ⟨rfl, hne, hall, hnext⟩
    exact ⟨⟨text, hne, hall⟩, rfl, rfl, Parser.any_eq_false_iff.2 hnext⟩

/-- A sign, or none, and then something that begins with a digit. -/
theorem signs_lift2 {minus plus : Parser .char} (hminus : minus.Accepts input scope (· == '-'))
    (hplus : plus.Accepts input scope (· == '+')) (f : Sign → a.Elem) {q : Parser b}
    {texts : Texts b.Elem} (hq : q.Insists input scope Char.isDigit texts)
    (g : a.Elem → b.Elem → c.Elem) :
    ((Parser.choiceAll [minus.map fun _ => f .minus, plus.map fun _ => f .plus,
      .ret (f .none)]).lift2 q g).Reads input scope fun text w next =>
        ∃ (sign : Sign) (back : List Char) (v : b.Elem), text = sign.text ++ back ∧
          texts back v next ∧ w = g (f sign) v where
  found := by
    rintro i text w rest htext hi ⟨sign, back, v, rfl, hback, rfl⟩
    have hfirst := signs_run hminus hplus f hi
    have hbegins : (back ++ rest).head?.any Char.isDigit = true := by
      obtain ⟨c, tail, rfl, hc⟩ := hq.begun hback
      exact hc
    rw [htext, List.append_assoc, Sign.ahead_append hbegins] at hfirst
    rw [List.append_assoc] at htext
    have hsecond := hq.found (drop_add_length htext) (hfirst.le_size hi) hback
    rw [List.length_append, ← Nat.add_assoc]
    exact hfirst.lift2 g hsecond
  decided {i} hi := by
    have hfirst := signs_run hminus hplus f hi
    obtain ⟨rest, htext⟩ := Sign.ahead_prefix (input.toList.drop i)
    rcases hq.decides.decided (hfirst.le_size hi) with ⟨back, v, after, hafter, hback⟩ | hfails
    · obtain rfl : rest = back ++ after := (drop_add_length htext.symm).symm.trans hafter
      exact .inl ⟨_, _, after, by rw [← htext, List.append_assoc], _, back, v, rfl, hback, rfl⟩
    · exact .inr (hfirst.bind_fails_of_le _ _ (Nat.le_add_right _ _) (hfails.map _))

variable (hsize : input.size < Index.limit)

include hsize

theorem fraction_insists : Yields level fraction fun _ p => ∀ scope,
    p.Insists input scope (· == '.') FractionText := by
  refine (classOf_accepts hsize _ _).bind fun digit => (label_insists _ _).bind fun digits => ?_
  refine (char_accepts hsize '.').bind fun point => (label_insists _ _).mono ?_
  intro names p hlabel hpoint hdigits hdigit scope
  have htail := (hdigits (run_insists (hdigit scope))).map (b := .text)
    fun chars => String.ofList ('.' :: chars)
  refine hlabel (((hpoint scope).insists.andThen htail.decides.reads).congr fun text v next => ?_)
  constructor
  · rintro ⟨run, rfl, hnext, rfl⟩
    exact ⟨['.'], '.', run.digits, rfl, ⟨rfl, rfl⟩, _, ⟨run, rfl, rfl, hnext⟩, rfl⟩
  · rintro ⟨_, c, _, rfl, ⟨rfl, hc⟩, _, ⟨run, rfl, rfl, hnext⟩, rfl⟩
    obtain rfl : c = '.' := by simpa using hc
    exact ⟨run, rfl, hnext, rfl⟩

theorem exponent_insists : Yields level exponent fun _ p => ∀ scope,
    p.Insists input scope exponentMarks.contains ExponentText := by
  refine (char_accepts hsize '-').bind fun minus => (char_accepts hsize '+').bind fun plus => ?_
  refine (classOf_accepts hsize _ _).bind fun digit => (label_insists _ _).bind fun digits => ?_
  refine (satisfy_accepts hsize _).bind fun mark => (label_insists _ _).mono ?_
  intro names p hlabel hmark hdigits hdigit hplus hminus scope
  have hmark : mark.Accepts input scope exponentMarks.contains := hmark scope
  have hdigits := hdigits ((run_insists (hdigit scope)).map (b := .text) String.ofList)
  have htail := signs_lift2 (a := .text) (c := .text) (hminus scope) (hplus scope)
    (fun sign => String.ofList sign.terse.text) hdigits fun sign digits => "e" ++ sign ++ digits
  refine hlabel ((hmark.insists.andThen htail).congr fun text v next => ?_)
  constructor
  · rintro ⟨exponent, rfl, hnext, rfl⟩
    exact ⟨[exponent.mark], _, exponent.sign.text ++ exponent.run.digits, rfl,
      ⟨rfl, List.contains_iff_mem.2 exponent.mark_mem⟩, exponent.sign, exponent.run.digits, _, rfl,
      ⟨_, ⟨exponent.run, rfl, rfl, hnext⟩, rfl⟩, exponent.ofList_terse_text⟩
  · rintro ⟨_, mark, _, rfl, ⟨rfl, hmem⟩, sign, _, _, rfl, ⟨_, ⟨run, rfl, rfl, hnext⟩, rfl⟩, rfl⟩
    exact ⟨⟨mark, sign, run, List.contains_iff_mem.1 hmem⟩, rfl, hnext,
      (Exponent.ofList_terse_text ⟨mark, sign, run, List.contains_iff_mem.1 hmem⟩).symm⟩

theorem floatTail_insists : Yields level floatTail fun _ p => ∀ scope,
    p.Insists input scope beginsTail TailText := by
  refine (fraction_insists hsize).bind fun fraction => (exponent_insists hsize).bind fun exponent =>
    .pure fun names hexponent hfraction scope => ?_
  have hapart : ∀ c, (c == '.') = true → exponentMarks.contains c = false := by
    intro c hc
    obtain rfl : c = '.' := by simpa using hc
    decide
  have hboth := (hfraction scope).lift2 (c := .text) ((hexponent scope).option "")
    fun f e => f ++ e
  exact (hboth.choice (hexponent scope) hapart).congr fun _ _ _ => tailText_iff

theorem fractionExponentWith_insists (convert : String → Option Binary64) (whole : Nat) :
    Yields level (fractionExponentWith convert whole) fun _ p => ∀ scope,
      p.Insists input scope beginsTail
        (ConvertedTail convert whole) := by
  refine (floatTail_insists hsize).bind fun tail => .pure fun names htail scope => ?_
  refine ((htail scope).followedBy (b := .float) (f := fun v => convert (toString whole ++ v))
    ?_ ?_).congr ?_
  · intro tail v hconvert
    simp only [hconvert]
  · intro tail hconvert
    exact ⟨"float", by simp only [hconvert]⟩
  · intro text v next
    constructor
    · rintro ⟨tail, htext, hstops, hconvert⟩
      exact ⟨_, ⟨tail, htext, hstops, rfl⟩, hconvert⟩
    · rintro ⟨_, ⟨tail, htext, hstops, rfl⟩, hconvert⟩
      exact ⟨tail, htext, hstops, hconvert⟩

end Parts

section RuleFree

variable {level : Nat}

theorem fraction_ruleFree : Yields level fraction fun _ p => p.RuleFree := by
  refine (classOf_ruleFree _ _).bind fun digit => (label_ruleFree _ _).bind fun digits => ?_
  refine (char_ruleFree '.').bind fun point => (label_ruleFree _ _).mono ?_
  exact fun names p hlabel hpoint hdigits hdigit => hlabel ⟨hpoint, fun _ => hdigits hdigit⟩

theorem exponent_ruleFree : Yields level exponent fun _ p => p.RuleFree := by
  refine (char_ruleFree '-').bind fun minus => (char_ruleFree '+').bind fun plus => ?_
  refine (classOf_ruleFree _ _).bind fun digit => (label_ruleFree _ _).bind fun digits => ?_
  refine (satisfy_ruleFree _).bind fun mark => (label_ruleFree _ _).mono ?_
  intro names p hlabel hmark hdigits hdigit hplus hminus
  exact hlabel ⟨hmark, fun _ => ⟨⟨hminus, hplus, trivial⟩, fun _ => hdigits hdigit⟩⟩

theorem fractionExponentWith_ruleFree (convert : String → Option Binary64) (whole : Nat) :
    Yields level (fractionExponentWith convert whole) fun _ p => p.RuleFree := by
  have htail : Yields level floatTail fun _ p => p.RuleFree :=
    fraction_ruleFree.bind fun _ => exponent_ruleFree.bind fun _ =>
      .pure fun _ hexponent hfraction =>
        ⟨⟨hfraction, fun _ => ⟨hexponent, trivial⟩⟩, hexponent⟩
  refine htail.bind fun _ => .pure fun _ htail => ⟨htail, fun tail => ?_⟩
  dsimp only
  split <;> trivial

end RuleFree

section Numbers

variable {input : Array Char} {scope : Scope} {level : Nat} (hsize : input.size < Index.limit)
  (convert : String → Option Binary64)

include hsize

/-- A whole number and then what follows it, which is rebuilt for that number. -/
theorem floatNumber_insists {whole : Parser .natural}
    (hwhole : whole.Insists input scope Char.isDigit (NumberText Char.isDigit 10)) :
    (whole.followedBy (b := .float) fun n => .fresh level [] fun _ =>
      (fractionExponentWith convert n).assemble level).Insists input scope Char.isDigit
        (FloatText convert) := by
  refine (hwhole.bind [] fun n => ?_).congr fun _ _ _ => floatText_iff
  have hbuild : Yields level (fractionExponentWith convert n) fun _ p => ∀ scope,
      p.Insists input scope beginsTail
        (ConvertedTail convert n) :=
    fractionExponentWith_insists hsize convert n
  have hfree : Yields level (fractionExponentWith convert n) fun _ p => p.RuleFree :=
    fractionExponentWith_ruleFree convert n
  obtain ⟨_, hinsists⟩ := hbuild.assembled
  obtain ⟨_, hfree⟩ := hfree.assembled
  exact .fresh hfree (hinsists scope).decides.reads

theorem floatWith_made (lexer : Lexer) :
    Yields level (floatWith convert lexer) fun _ p => ∃ label core,
      p = lexer.labelled label "float" core ∧
        ∀ scope, core.Insists input scope Char.isDigit (FloatText convert) := by
  refine (decimal_insists hsize).bind fun whole => (bindFresh_made _ _).bind fun core => ?_
  refine (label_made _ _).mono fun names p hmade hcore hwhole => ?_
  obtain ⟨label, rfl⟩ := hmade
  refine ⟨label, core, rfl, fun scope => ?_⟩
  rw [hcore]
  exact floatNumber_insists hsize convert (hwhole scope)

end Numbers

end Lexer

namespace Compositional

variable {C : Property} {level : Nat} (hC : Compositional C) {lexer : Lexer}

include hC

theorem fractionExponentWith_given (convert : String → Option Binary64) (whole : Nat) :
    Gives C level (fractionExponentWith convert whole) := by
  have htail : Gives C level floatTail := by
    refine hC.fraction_given.bind fun fraction => hC.exponent_given.bind fun exponent => .pure ?_
    intro names hexponent hfraction
    have hoptional := hC.choice hexponent (hC.ret (t := .text) "")
    exact hC.choice (hC.lift2 (c := .text) hfraction hoptional fun f e => f ++ e) hexponent
  refine htail.bind fun tail => .pure fun names htail => hC.bind htail fun text => ?_
  split
  · exact hC.ret _
  · exact hC.fail _

theorem floatWith_offered (convert : String → Option Binary64) :
    lexer.Offers C level (floatWith convert lexer) := by
  refine hC.decimal_given.bind fun whole => ?_
  refine (hC.rebuilt whole (hC.fractionExponentWith_given convert)).bind fun number => ?_
  refine (hC.label_yields _ _).mono fun names p hlabel hnumber hwhole hlexer => ?_
  exact hlabel (hC.lexeme hlexer (hnumber hwhole))

end Compositional

namespace Lexer

section Shown

variable {input : Array Char} (hsize : input.size < Index.limit) (memoize : Bool) {start : Nat}
  (hstart : start ≤ input.size) (language : Language) (convert : String → Option Binary64)

include hsize hstart

/-- What whole runs show of a lexeme that its first character commits. -/
theorem insistent_shows {t : Ty} {p core : Parser t} {label : Label} {message : String}
    {begins : Char → Bool} {texts : Texts t.Elem} (hlabelled : p.WellLabelled)
    (hmade : p = (lexerOf (pure language)).labelled label message core)
    (hcore : core.Insists input Scope.root begins texts) :
    (∀ v stop, p.ShowsFrom input memoize start (.ok (.success v, stop)) ↔
      ∃ text rest, input.toList.drop start = text ++ rest ∧ texts text v rest.head? ∧
        (blanks (pure language)).ShowsFrom input memoize (start + text.length)
          (.ok (.success (), stop))) ∧
    ((∃ v stop, p.ShowsFrom input memoize start (.ok (.success v, stop))) ∨
      ∃ stop, p.ShowsFrom input memoize start (.ok (.failure ⟨.positioned message start,
        (input.toList.drop start).head?.any begins⟩, stop))) := by
  rcases hcore.concludes hstart with
    ⟨text, v, rest, htext, hread, hconcludes⟩ | ⟨hnone, hconcludes⟩
  · obtain ⟨hsucceeds, hends⟩ :=
      labelled_shows hsize memoize hstart language hlabelled hmade hconcludes
    have hbegun : (input.toList.drop start).head?.any begins = true := by
      obtain ⟨c, tail, rfl, hc⟩ := hcore.begun hread
      rw [htext]
      exact hc
    rw [hbegun, Bool.true_or] at hends
    rw [hbegun]
    refine ⟨fun w stop => (hsucceeds w stop).trans ?_, hends⟩
    constructor
    · rintro ⟨hv, hafter⟩
      obtain rfl := Option.some.inj hv
      exact ⟨text, rest, htext, hread, hafter⟩
    · rintro ⟨text', rest', htext', hread', hafter⟩
      obtain ⟨rfl, rfl⟩ := hcore.decides.unique htext htext' hstart hread hread'
      exact ⟨rfl, hafter⟩
  · obtain ⟨hsucceeds, hends⟩ :=
      labelled_shows hsize memoize hstart language hlabelled hmade hconcludes
    rw [Option.isSome_none, Bool.or_false] at hends
    refine ⟨fun w stop => (hsucceeds w stop).trans ?_, hends⟩
    constructor
    · rintro ⟨hv, -⟩
      cases hv
    · rintro ⟨text, rest, htext, hread, -⟩
      exact absurd hread (hnone text w rest htext)

theorem floatWith_shows :
    (∀ v stop, (token (pure language) (floatWith convert)).ShowsFrom input memoize start
        (.ok (.success v, stop)) ↔
      ∃ x : Floating, x.LiesAhead (input.toList.drop start) ∧ x.whole.value < Index.limit ∧
        convert (String.ofList x.terse.text) = some v ∧
        (blanks (pure language)).ShowsFrom input memoize (start + x.text.length)
          (.ok (.success (), stop))) ∧
    ((∃ v stop, (token (pure language) (floatWith convert)).ShowsFrom input memoize start
        (.ok (.success v, stop))) ∨
      ∃ stop, (token (pure language) (floatWith convert)).ShowsFrom input memoize start
        (.ok (.failure ⟨.positioned "float" start,
          (input.toList.drop start).head?.any Char.isDigit⟩, stop))) := by
  obtain ⟨_, label, core, hmade, hcore⟩ :=
    (floatWith_made hsize convert (lexerOf (pure language))).assembled_bind
  have hlabelled : (token (pure language) (floatWith convert)).WellLabelled :=
    wellLabelled_of_wordless language fun _ => labelled_compositional.floatWith_offered convert
  obtain ⟨hsucceeds, hends⟩ :=
    insistent_shows hsize memoize hstart language hlabelled hmade (hcore Scope.root)
  refine ⟨fun v stop => (hsucceeds v stop).trans ?_, hends⟩
  exact floatText_ahead_iff fun length =>
    (blanks (pure language)).ShowsFrom input memoize (start + length) (.ok (.success (), stop))

end Shown

/-- The conversion accepts each float and rounds the number that is written. -/
theorem round?_terse_eq_some_iff {x : Floating} {v : Binary64} :
    Decimal.round? (String.ofList x.terse.text) = some v ↔
      ∃ number, Decimal.ofText? (String.ofList x.terse.text) = some number ∧
        number.value = x.value ∧ v = number.toBinary64 := by
  rw [Decimal.round?, x.terse.ofText?_text, Option.map_some, Option.some.injEq]
  constructor
  · rintro rfl
    exact ⟨_, rfl, x.terse.decimal_value.trans x.terse_value, rfl⟩
  · rintro ⟨_, hnumber, -, rfl⟩
    rw [Option.some.inj hnumber]

/-- The number that was written is handed on. In every language, from every place of every input,
and whether or not outcomes are remembered, the token of floats succeeds exactly if a float lies
ahead whose whole digits stay below the limit, and white space succeeds behind it; it delivers the
conversion of a text in decimal notation that stands for the same number. Else it fails with its
message, and has consumed exactly if a digit lies ahead. With any other conversion in its place
the same text is handed on: the terse form of what was read. Each float and its terse form stand
for one number, also as decimal notation. -/
theorem floats_read (language : Language) (input : Array Char) (hsize : input.size < Index.limit)
    (memoize : Bool) (start : Nat) (hstart : start ≤ input.size) :
    let text := input.toList.drop start
    (∀ v stop, (token (pure language) float).ShowsFrom input memoize start
        (.ok (.success v, stop)) ↔
      ∃ x : Floating, x.LiesAhead text ∧ x.whole.value < Index.limit ∧
        (∃ number, Decimal.ofText? (String.ofList x.terse.text) = some number ∧
          number.value = x.value ∧ v = number.toBinary64) ∧
        (blanks (pure language)).ShowsFrom input memoize (start + x.text.length)
          (.ok (.success (), stop))) ∧
    ((∃ v stop, (token (pure language) float).ShowsFrom input memoize start
        (.ok (.success v, stop))) ∨
      ∃ stop, (token (pure language) float).ShowsFrom input memoize start
        (.ok (.failure ⟨.positioned "float" start, text.head?.any Char.isDigit⟩, stop))) ∧
    float = floatWith Decimal.round? ∧
    (∀ convert v stop, (token (pure language) (floatWith convert)).ShowsFrom input memoize start
        (.ok (.success v, stop)) ↔
      ∃ x : Floating, x.LiesAhead text ∧ x.whole.value < Index.limit ∧
        convert (String.ofList x.terse.text) = some v ∧
        (blanks (pure language)).ShowsFrom input memoize (start + x.text.length)
          (.ok (.success (), stop))) ∧
    ∀ x : Floating, x.terse.value = x.value ∧
      ∃ number, Decimal.ofText? (String.ofList x.text) = some number ∧ number.value = x.value := by
  intro text
  have hread := fun convert => floatWith_shows hsize memoize hstart language convert
  refine ⟨?_, ?_, float_eq, fun convert => (hread convert).1, fun x => ?_⟩
  · intro v stop
    rw [float_eq, (hread Decimal.round?).1 v stop]
    simp only [round?_terse_eq_some_iff]
    rfl
  · rw [float_eq]
    exact (hread Decimal.round?).2
  · exact ⟨x.terse_value, _, x.ofText?_text, x.decimal_value⟩

/-- Zeros in front, a large mark and a plus sign are not handed on. -/
theorem floats_read_terse :
    "007.50E+2".toList.toArray.size < Index.limit ∧ 0 ≤ "007.50E+2".toList.toArray.size ∧
    (token (pure (Language.plain.assemble 0)) float).ShowsFrom "007.50E+2".toList.toArray true 0
      (.ok (.success ⟨0x4087700000000000⟩, 9)) ∧
    (token (pure (Language.plain.assemble 0)) (floatWith fun text =>
      if text = "7.50e2" then some ⟨1⟩ else none)).ShowsFrom "007.50E+2".toList.toArray true 0
        (.ok (.success ⟨1⟩, 9)) := by
  have hsize : "007.50E+2".toList.toArray.size < Index.limit := by decide
  have hread := floats_read (Language.plain.assemble 0) _ hsize true 0 (Nat.zero_le _)
  have hblanks : (blanks (pure (Language.plain.assemble 0))).ShowsFrom
      "007.50E+2".toList.toArray true 9 (.ok (.success (), 9)) :=
    blanks_end _ hsize
  let two : DigitRun := ⟨['2'], by decide, List.all_eq_true.1 (by decide)⟩
  let fifty : DigitRun := ⟨['5', '0'], by decide, List.all_eq_true.1 (by decide)⟩
  let seven : DigitRun := ⟨['0', '0', '7'], by decide, List.all_eq_true.1 (by decide)⟩
  let x : Floating := ⟨seven, .pointed fifty (some ⟨'E', .plus, two, by decide⟩)⟩
  have hahead : x.LiesAhead ("007.50E+2".toList.toArray.toList.drop 0) :=
    ⟨[], rfl, rfl, fun _ => rfl⟩
  refine ⟨hsize, Nat.zero_le _, ?_, ?_⟩
  · refine (hread.1 _ 9).2 ⟨x, hahead, by decide, ⟨x.terse.decimal, x.terse.ofText?_text, ?_, ?_⟩,
      hblanks⟩
    · exact x.terse.decimal_value.trans x.terse_value
    · decide +kernel
  · exact (hread.2.2.2.1 _ _ 9).2 ⟨x, hahead, by decide, by decide +kernel, hblanks⟩

end Lexer

end ParserKit
