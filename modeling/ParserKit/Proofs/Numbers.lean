import ParserKit.Proofs.Floats

/-!
The token of numbers agrees with the tokens of natural numbers and of floats. It has a grammar of
its own, in which a zero in front is read by itself and the part behind the whole digits stands
three times. A zero in front of other digits changes neither the number nor the text that is
handed on, so all ways through this grammar read the same texts.
-/

namespace ParserKit

open Build Lexer
open ParserKit.Parser (Texts Insists Reads)

namespace Lexer

/-- The letters that announce a base. -/
def isBaseMark (c : Char) : Bool :=
  Radix.hexadecimal.marks.contains c || Radix.octal.marks.contains c

/-- A zero announces a base by the letter behind it. -/
def Announces (text : List Char) : Prop :=
  ∃ mark rest, text = '0' :: mark :: rest ∧ isBaseMark mark = true

section Texts

variable {text front back rest : List Char} {whole n : Nat} {v : Number} {f : Binary64}
  {next : Option Char}

/-- A letter that announces a base, and digits of the base. -/
def BaseText (radix : Radix) : Texts Nat := fun text n next =>
  ∃ mark digits, text = mark :: digits ∧ mark ∈ radix.marks ∧
    NumberText radix.isDigit radix.base digits n next

/-- What may follow a whole number, with the number that both are. -/
def RestText (whole : Nat) : Texts Number := fun text v next =>
  (∃ f, ConvertedTail Decimal.round? whole text f next ∧ v = .float f) ∨
    (text = [] ∧ v = .natural whole ∧ next.any beginsTail = false)

/-- A decimal number of either kind. -/
def DecimalText : Texts Number := fun text v next =>
  ∃ front whole back, text = front ++ back ∧
    NumberText Char.isDigit 10 front whole (back.head?.or next) ∧ RestText whole back v next

/-- A number of either kind. A zero that announces a base is not a decimal number. -/
def EitherText : Texts Number := fun text v next =>
  (∃ back n, text = '0' :: back ∧ (∃ radix, BaseText radix back n next) ∧ v = .natural n) ∨
    (DecimalText text v next ∧ ¬ Announces (text ++ next.toList))

theorem isBaseMark_iff {c : Char} : isBaseMark c = true ↔ ∃ radix, c ∈ Radix.marks radix := by
  rw [isBaseMark, Bool.or_eq_true, List.contains_iff_mem, List.contains_iff_mem]
  constructor
  · rintro (h | h)
    · exact ⟨_, h⟩
    · exact ⟨_, h⟩
  · rintro ⟨radix, h⟩
    cases radix with
    | decimal => exact absurd h List.not_mem_nil
    | hexadecimal => exact .inl h
    | octal => exact .inr h

theorem announces_zero_cons :
    Announces ('0' :: back ++ next.toList) ↔ (back.head?.or next).any isBaseMark = true := by
  cases back <;> cases next <;> simp [Announces]

/-- A zero in front of other digits does not count. -/
theorem numberText_zero_cons :
    NumberText Char.isDigit 10 ('0' :: front) whole next ↔
      NumberText Char.isDigit 10 front whole next ∨
        (front = [] ∧ whole = 0 ∧ next.any Char.isDigit = false) := by
  cases front with
  | nil =>
    constructor
    · rintro ⟨⟨-, -, hnext⟩, rfl, -⟩
      exact .inr ⟨rfl, rfl, Parser.any_eq_false_iff.2 hnext⟩
    · rintro (⟨⟨hne, -⟩, -⟩ | ⟨-, rfl, hnext⟩)
      · exact absurd rfl hne
      · exact ⟨⟨by simp, by simp, Parser.any_eq_false_iff.1 hnext⟩, rfl, by decide⟩
  | cons c rest =>
    have hvalue : valueOf 10 ('0' :: c :: rest) = valueOf 10 (c :: rest) := rfl
    simp [NumberText, Digits, hvalue]

theorem decimalText_zero_cons :
    DecimalText ('0' :: back) v next ↔ DecimalText back v next ∨
      (RestText 0 back v next ∧ (back.head?.or next).any Char.isDigit = false) := by
  constructor
  · rintro ⟨front, whole, tail, htext, hwhole, hrest⟩
    obtain ⟨c, front, rfl⟩ := List.exists_cons_of_ne_nil hwhole.1.1
    obtain ⟨rfl, rfl⟩ := List.cons.inj htext
    rcases numberText_zero_cons.1 hwhole with hfront | ⟨rfl, rfl, hnext⟩
    · exact .inl ⟨front, whole, tail, rfl, hfront, hrest⟩
    · exact .inr ⟨hrest, hnext⟩
  · rintro (⟨front, whole, tail, rfl, hfront, hrest⟩ | ⟨hrest, hnext⟩)
    · exact ⟨'0' :: front, whole, tail, rfl, numberText_zero_cons.2 (.inl hfront), hrest⟩
    · exact ⟨['0'], 0, back, rfl, numberText_zero_cons.2 (.inr ⟨rfl, rfl, hnext⟩), hrest⟩

theorem DecimalText.begins (h : DecimalText text v next) :
    ∃ c tail, text = c :: tail ∧ c.isDigit = true := by
  obtain ⟨front, whole, back, rfl, ⟨⟨hne, hall, -⟩, -⟩, -⟩ := h
  obtain ⟨c, tail, rfl⟩ := List.exists_cons_of_ne_nil hne
  exact ⟨c, tail ++ back, rfl, hall c List.mem_cons_self⟩

theorem decimalText_float_iff :
    DecimalText text (.float f) next ↔ FloatText Decimal.round? text f next := by
  rw [floatText_iff]
  constructor
  · rintro ⟨front, whole, back, rfl, hwhole, ⟨g, hback, hg⟩ | ⟨-, hv, -⟩⟩
    · obtain rfl := Number.float.inj hg
      exact ⟨front, whole, back, rfl, hwhole, hback⟩
    · cases hv
  · rintro ⟨front, whole, back, rfl, hwhole, hback⟩
    exact ⟨front, whole, back, rfl, hwhole, .inl ⟨f, hback, rfl⟩⟩

theorem decimalText_natural_iff :
    DecimalText text (.natural n) next ↔
      NumberText Char.isDigit 10 text n next ∧ next.any beginsTail = false := by
  constructor
  · rintro ⟨front, whole, back, rfl, hwhole, ⟨g, -, hg⟩ | ⟨rfl, hn, hnext⟩⟩
    · cases hg
    · obtain rfl := Number.natural.inj hn
      rw [List.append_nil]
      exact ⟨hwhole, hnext⟩
  · rintro ⟨hwhole, hnext⟩
    exact ⟨text, n, [], (List.append_nil _).symm, hwhole, .inr ⟨rfl, rfl, hnext⟩⟩

theorem isBaseMark_of_isDigit {c : Char} (h : c.isDigit = true) : isBaseMark c = false := by
  refine Bool.eq_false_iff.2 fun hmark => ?_
  obtain ⟨radix, hmark⟩ := isBaseMark_iff.1 hmark
  exact Radix.not_mem_marks_of_isDigit h radix hmark

theorem isBaseMark_of_beginsTail {c : Char} (h : beginsTail c = true) : isBaseMark c = false := by
  have hmarks : ∀ c ∈ exponentMarks, isBaseMark c = false := eq_false_of_all (by decide)
  rw [beginsTail, Bool.or_eq_true, beq_iff_eq, List.contains_iff_mem] at h
  rcases h with rfl | h
  · decide
  · exact hmarks c h

/-- What begins like a float announces no base. -/
theorem not_announces_of_floatText (h : FloatText Decimal.round? text f next) (rest : List Char) :
    ¬ Announces (text ++ rest) := by
  rintro ⟨mark, behind, htext, hmark⟩
  obtain ⟨⟨⟨digits, hne, hdigits⟩, tail⟩, rfl, -⟩ := h
  obtain ⟨c, digits, rfl⟩ := List.exists_cons_of_ne_nil hne
  obtain ⟨d, later, htail, hd, -⟩ := tail.text_begins
  have hother : isBaseMark mark = false := by
    cases digits with
    | nil =>
      simp only [Floating.text, htail, List.cons_append, List.nil_append, List.cons.injEq] at htext
      obtain ⟨-, rfl, -⟩ := htext
      exact isBaseMark_of_beginsTail hd
    | cons e digits =>
      simp only [Floating.text, List.cons_append, List.cons.injEq] at htext
      obtain ⟨-, rfl, -⟩ := htext
      exact isBaseMark_of_isDigit (hdigits e (by simp))
  rw [hother] at hmark
  cases hmark

/-- All ways through the grammar of numbers read the same texts. -/
theorem eitherText_iff :
    EitherText text v next ↔
      (∃ front c back, text = front ++ back ∧ (front = [c] ∧ (c == '0') = true) ∧
        ((∃ n, (∃ radix, BaseText radix back n next) ∧ v = .natural n) ∨
          ((DecimalText back v next ∨
            (RestText 0 back v next ∧ (back.head?.or next).any Char.isDigit = false)) ∧
          (back.head?.or next).any isBaseMark = false))) ∨
      (DecimalText text v next ∧ (text.head?.or next).any (· == '0') = false) := by
  simp only [← decimalText_zero_cons]
  constructor
  · rintro (⟨back, n, rfl, hmarked, hv⟩ | ⟨hdecimal, hnot⟩)
    · exact .inl ⟨['0'], '0', back, rfl, ⟨rfl, rfl⟩, .inl ⟨n, hmarked, hv⟩⟩
    · obtain ⟨c, back, rfl, -⟩ := hdecimal.begins
      by_cases hc : c = '0'
      · subst hc
        rw [announces_zero_cons, Bool.not_eq_true] at hnot
        exact .inl ⟨['0'], '0', back, rfl, ⟨rfl, rfl⟩, .inr ⟨hdecimal, hnot⟩⟩
      · exact .inr ⟨hdecimal, beq_eq_false_iff_ne.2 hc⟩
  · rintro (⟨_, c, back, rfl, ⟨rfl, hc⟩, ⟨n, hmarked, hv⟩ | ⟨hdecimal, hnot⟩⟩ | ⟨hdecimal, hc⟩)
    · obtain rfl : c = '0' := by simpa using hc
      exact .inl ⟨back, n, rfl, hmarked, hv⟩
    · obtain rfl : c = '0' := by simpa using hc
      refine .inr ⟨hdecimal, ?_⟩
      rw [List.singleton_append, announces_zero_cons, hnot]
      decide
    · refine .inr ⟨hdecimal, ?_⟩
      rintro ⟨mark, behind, htext, -⟩
      obtain ⟨d, back, rfl, -⟩ := hdecimal.begins
      obtain rfl : d = '0' := (List.cons.inj htext).1
      cases hc

end Texts

section Parts

variable {input : Array Char} {scope : Scope} {level : Nat}

theorem base_insists {radix : Radix} {mark digit : Parser .char}
    (hmark : mark.Accepts input scope radix.marks.contains)
    (hdigit : digit.Accepts input scope radix.isDigit) :
    (mark.andThen (digits radix.base digit)).Insists input scope radix.marks.contains
      (BaseText radix) := by
  have hbase : 1 ≤ radix.base := Nat.le_of_succ_le radix.two_le_base
  have hdigits := digits_insists hdigit hbase fun _ => Radix.digitOf?_eq
  refine (hmark.insists.andThen hdigits.decides.reads).congr fun text n next => ?_
  constructor
  · rintro ⟨c, tail, rfl, hc, htail⟩
    exact ⟨[c], c, tail, rfl, ⟨rfl, List.contains_iff_mem.2 hc⟩, htail⟩
  · rintro ⟨_, c, tail, rfl, ⟨rfl, hc⟩, htail⟩
    exact ⟨c, tail, rfl, List.contains_iff_mem.1 hc, htail⟩

theorem bases_insists {hex oct : Parser .natural}
    (hhex : hex.Insists input scope Radix.hexadecimal.marks.contains (BaseText .hexadecimal))
    (hoct : oct.Insists input scope Radix.octal.marks.contains (BaseText .octal)) :
    ((Parser.choice hex oct).map (b := .number) Number.natural).Insists input scope isBaseMark
      fun text v next => ∃ n, (∃ radix, BaseText radix text n next) ∧ v = .natural n := by
  have hapart : ∀ c, Radix.hexadecimal.marks.contains c = true →
      Radix.octal.marks.contains c = false := by
    intro c hc
    refine Bool.eq_false_iff.2 fun hc' => ?_
    exact Radix.not_hexadecimal_of_octal (List.contains_iff_mem.1 hc') (List.contains_iff_mem.1 hc)
  refine ((hhex.choice hoct hapart).map (b := .number) Number.natural).congr fun text v next => ?_
  refine exists_congr fun n => and_congr_left fun _ => ?_
  constructor
  · rintro ⟨radix, h⟩
    cases radix with
    | decimal =>
      obtain ⟨mark, _, -, hmark, -⟩ := h
      exact absurd hmark List.not_mem_nil
    | hexadecimal => exact .inl h
    | octal => exact .inr h
  · rintro (h | h)
    · exact ⟨_, h⟩
    · exact ⟨_, h⟩

/-- The part behind a whole number, or the whole number alone. -/
def numberRest (whole : Nat) : Build (Parser .number) := do
  let float := (← fractionExponent whole).map (b := .number) Number.float
  return float.option (Number.natural whole)

theorem decimalOrFloat_eq : decimalOrFloat = (do Build.bindFresh (← decimal) numberRest) :=
  rfl

theorem rest_reads {part : Parser .float} {whole : Nat}
    (hpart : part.Insists input scope beginsTail (ConvertedTail Decimal.round? whole)) :
    ((part.map (b := .number) Number.float).option (t := .number) (.natural whole)).Reads input
      scope (RestText whole) :=
  (hpart.map (b := .number) Number.float).option (.natural whole)

/-- Behind a zero there are digits of a base, more digits, or what may follow the zero. -/
theorem zeroFirst_insists {zero : Parser .char} {bases behind number rest : Parser .number}
    (hzero : zero.Accepts input scope (· == '0'))
    (hbases : bases.Insists input scope isBaseMark fun text v next =>
      ∃ n, (∃ radix, BaseText radix text n next) ∧ v = .natural n)
    (hbehind : behind.Insists input scope Char.isDigit DecimalText)
    (hrest : rest.Reads input scope (RestText 0))
    (hnumber : number.Insists input scope Char.isDigit DecimalText) :
    (Parser.choice (zero.andThen (.choice bases (.choice behind rest))) number).Insists input scope
      Char.isDigit EitherText := by
  have hfirst := hzero.insists.andThen (hbases.choice_reads (hbehind.choice_reads hrest))
  have hwhole := (hfirst.choice_first hnumber).congr fun _ _ _ => eitherText_iff
  have hbegins : (fun c => c == '0' || c.isDigit) = Char.isDigit := by
    funext c
    cases hc : c == '0' with
    | false => rfl
    | true =>
      obtain rfl : c = '0' := by simpa using hc
      decide
  rw [hbegins] at hwhole
  exact hwhole

variable (hsize : input.size < Index.limit)

theorem numberRest_ruleFree (whole : Nat) :
    Yields level (numberRest whole) fun _ p => p.RuleFree := by
  rw [numberRest, fractionExponent_eq]
  exact (fractionExponentWith_ruleFree Decimal.round? whole).bind fun _ =>
    .pure fun _ hpart => ⟨hpart, trivial⟩

include hsize

theorem fractionExponent_insists (whole : Nat) :
    Yields level (fractionExponent whole) fun _ p => ∀ scope,
      p.Insists input scope beginsTail (ConvertedTail Decimal.round? whole) := by
  rw [fractionExponent_eq]
  exact fractionExponentWith_insists hsize Decimal.round? whole

theorem numberRest_reads (whole : Nat) :
    Yields level (numberRest whole) fun _ p => ∀ scope, p.Reads input scope (RestText whole) :=
  (fractionExponent_insists hsize whole).bind fun _ => .pure fun _ hpart scope =>
    rest_reads (hpart scope)

theorem decimalOrFloat_insists : Yields level decimalOrFloat fun _ p => ∀ scope,
    p.Insists input scope Char.isDigit DecimalText := by
  rw [decimalOrFloat_eq]
  refine (decimal_insists hsize).bind fun whole => (bindFresh_made _ _).mono ?_
  intro names p hp hwhole scope
  rw [hp]
  refine (hwhole scope).bind [] fun n => ?_
  have hreads : Yields (level + 1) (numberRest n) _ := numberRest_reads hsize n
  have hfree : Yields (level + 1) (numberRest n) _ := numberRest_ruleFree n
  obtain ⟨_, hreads⟩ := hreads.assembled
  obtain ⟨_, hfree⟩ := hfree.assembled
  exact .fresh hfree (hreads scope)

theorem hexTail_insists : Yields level hexTail fun _ p => ∀ scope,
    p.Insists input scope Radix.hexadecimal.marks.contains (BaseText .hexadecimal) := by
  refine (satisfy_accepts hsize _).bind fun mark => (classOf_accepts hsize _ _).bind fun digit =>
    .pure fun names hdigit hmark scope => ?_
  have hmark : mark.Accepts input scope Radix.hexadecimal.marks.contains := hmark scope
  have hdigit : digit.Accepts input scope Radix.hexadecimal.isDigit := hdigit scope
  have htail := base_insists hmark hdigit
  exact htail

theorem octTail_insists : Yields level octTail fun _ p => ∀ scope,
    p.Insists input scope Radix.octal.marks.contains (BaseText .octal) := by
  refine (satisfy_accepts hsize _).bind fun mark => (classOf_accepts hsize _ _).bind fun digit =>
    .pure fun names hdigit hmark scope => ?_
  have hmark : mark.Accepts input scope Radix.octal.marks.contains := hmark scope
  have hdigit : digit.Accepts input scope Radix.octal.isDigit := hdigit scope
  have htail := base_insists hmark hdigit
  exact htail

theorem naturalOrFloat_made (lexer : Lexer) :
    Yields level lexer.naturalOrFloat fun _ p => ∃ label core,
      p = lexer.labelled label "number" core ∧
        ∀ scope, core.Insists input scope Char.isDigit EitherText := by
  refine (hexTail_insists hsize).bind fun hex => (octTail_insists hsize).bind fun oct => ?_
  refine (decimalOrFloat_insists hsize).bind fun behind => ?_
  refine (fractionExponent_insists hsize 0).bind fun part => (char_accepts hsize '0').bind ?_
  refine fun zero => (decimalOrFloat_insists hsize).bind fun number => (label_made _ _).mono ?_
  intro names p hmade hnumber hzero hpart hbehind hoct hhex
  obtain ⟨label, rfl⟩ := hmade
  refine ⟨label, _, rfl, fun scope => ?_⟩
  exact zeroFirst_insists (hzero scope) (bases_insists (hhex scope) (hoct scope)) (hbehind scope)
    (rest_reads (hpart scope)) (hnumber scope)

end Parts

section Ahead

variable {text front rest digits : List Char} {n : Nat} {f : Binary64} {radix : Radix}

theorem announces_append_iff {c : Char} {tail : List Char} :
    Announces (c :: tail ++ rest) ↔ Announces (c :: tail ++ rest.head?.toList) := by
  cases tail <;> cases rest <;> simp [Announces]

theorem not_announces
    (h : ∀ mark rest radix, text = '0' :: mark :: rest → mark ∉ Radix.marks radix) :
    ¬ Announces text := by
  rintro ⟨mark, rest, rfl, hmark⟩
  obtain ⟨radix, hmark⟩ := isBaseMark_iff.1 hmark
  exact h mark rest radix rfl hmark

/-- Of the digits ahead all are read. -/
theorem numberText_iff_value? (htext : text = digits ++ rest) :
    NumberText radix.isDigit radix.base digits n rest.head? ↔
      digits = text.takeWhile radix.isDigit ∧
        radix.value? (text.takeWhile radix.isDigit) = some n := by
  constructor
  · rintro ⟨⟨hne, hall, hnext⟩, hvalue, hlimit⟩
    obtain ⟨htake, -⟩ := takeWhile_append_of_ends hall (Parser.any_eq_false_iff.2 hnext)
    rw [htext, htake, Radix.value?_eq_some_iff]
    exact ⟨rfl, hne, hvalue, hlimit⟩
  · rintro ⟨htake, hvalue⟩
    obtain ⟨hne, hvalue, hlimit⟩ := Radix.value?_eq_some_iff.1 hvalue
    subst htake
    have hrest : text.dropWhile radix.isDigit = rest := dropWhile_of_append htext
    refine ⟨⟨hne, fun c hc => List.mem_takeWhile_imp hc, fun c hc => ?_⟩, hvalue, hlimit⟩
    have hnot := List.head?_dropWhile_not radix.isDigit text
    rw [hrest, hc] at hnot
    exact hnot

theorem eitherText_float_iff {next : Option Char} :
    EitherText text (.float f) next ↔ FloatText Decimal.round? text f next := by
  constructor
  · rintro (⟨_, n, -, -, hv⟩ | ⟨hdecimal, -⟩)
    · cases hv
    · exact decimalText_float_iff.1 hdecimal
  · exact fun h => .inr ⟨decimalText_float_iff.2 h, not_announces_of_floatText h _⟩

/-- Behind a zero that announces a base there is nothing but a number of this base. -/
theorem eitherText_announced_iff {mark : Char} (hmark : mark ∈ radix.marks)
    (htext : '0' :: mark :: digits = front ++ rest) :
    EitherText front (.natural n) rest.head? ↔
      front = '0' :: mark :: digits.takeWhile radix.isDigit ∧
        radix.value? (digits.takeWhile radix.isDigit) = some n := by
  have hannounces : Announces (front ++ rest) :=
    ⟨mark, digits, htext.symm, isBaseMark_iff.2 ⟨radix, hmark⟩⟩
  constructor
  · rintro (⟨_, m, rfl, ⟨radix', mark', digits', rfl, hmark', hdigits⟩, hv⟩ | ⟨hdecimal, hnot⟩)
    · obtain ⟨-, rfl, hsplit⟩ : '0' = '0' ∧ mark = mark' ∧ digits = digits' ++ rest := by
        simpa using htext
      obtain rfl := Number.natural.inj hv
      obtain rfl : radix = radix' := by
        have hradix := Radix.ofMark?_eq_some_iff.2 hmark
        rw [Radix.ofMark?_eq_some_iff.2 hmark'] at hradix
        exact (Option.some.inj hradix).symm
      obtain ⟨rfl, hvalue⟩ := (numberText_iff_value? hsplit).1 hdigits
      exact ⟨rfl, hvalue⟩
    · obtain ⟨c, tail, rfl, -⟩ := hdecimal.begins
      exact absurd (announces_append_iff.1 hannounces) hnot
  · rintro ⟨rfl, hvalue⟩
    have hsplit : digits = digits.takeWhile radix.isDigit ++ rest := by simpa using htext
    exact .inl ⟨_, n, rfl, ⟨radix, mark, _, rfl, hmark,
      (numberText_iff_value? hsplit).2 ⟨rfl, hvalue⟩⟩, rfl⟩

/-- Else a natural number is read as far as its digits go, unless a float goes on there. -/
theorem eitherText_plain_iff (hplain : ¬ Announces text) (htext : text = front ++ rest) :
    EitherText front (.natural n) rest.head? ↔
      (front = text.takeWhile Char.isDigit ∧
        Radix.decimal.value? (text.takeWhile Char.isDigit) = some n) ∧
      rest.head?.any beginsTail = false := by
  have hdigits : NumberText Char.isDigit 10 front n rest.head? ↔ _ :=
    @numberText_iff_value? _ _ _ _ .decimal htext
  constructor
  · rintro (⟨back, m, rfl, ⟨radix, mark, digits, rfl, hmark, -⟩, -⟩ | ⟨hdecimal, -⟩)
    · exact absurd ⟨mark, digits ++ rest, htext, isBaseMark_iff.2 ⟨radix, hmark⟩⟩ hplain
    · obtain ⟨hnumber, hnext⟩ := decimalText_natural_iff.1 hdecimal
      exact ⟨hdigits.1 hnumber, hnext⟩
  · rintro ⟨hfront, hnext⟩
    have hdecimal := decimalText_natural_iff.2 ⟨hdigits.2 hfront, hnext⟩
    obtain ⟨c, tail, rfl, -⟩ := hdecimal.begins
    rw [htext, announces_append_iff] at hplain
    exact .inr ⟨hdecimal, hplain⟩

/-- A natural number is read where one lies ahead and is not the beginning of a float. -/
theorem eitherText_natural_iff (P : Nat → Prop) :
    (∃ front rest, text = front ++ rest ∧ EitherText front (.natural n) rest.head? ∧
      P front.length) ↔
    ((Numeral.ahead text).value? = some n ∧ P (Numeral.ahead text).length) ∧
      (Announces text ∨ (text.dropWhile Char.isDigit).head?.any beginsTail = false) := by
  rcases Numeral.ahead_cases text with ⟨radix, mark, digits, rfl, hmark, hahead⟩ | ⟨hahead, hplain⟩
  · have hlength : (Numeral.ahead ('0' :: mark :: digits)).length =
        ('0' :: mark :: digits.takeWhile radix.isDigit).length := by
      simp [hahead, Numeral.length]
      omega
    rw [hlength, hahead]
    constructor
    · rintro ⟨front, rest, htext, hread, hP⟩
      obtain ⟨rfl, hvalue⟩ := (eitherText_announced_iff hmark htext).1 hread
      exact ⟨⟨hvalue, hP⟩, .inl ⟨mark, digits, rfl, isBaseMark_iff.2 ⟨radix, hmark⟩⟩⟩
    · rintro ⟨⟨hvalue, hP⟩, -⟩
      have htext : '0' :: mark :: digits =
          ('0' :: mark :: digits.takeWhile radix.isDigit) ++ digits.dropWhile radix.isDigit := by
        simp
      exact ⟨_, _, htext, (eitherText_announced_iff hmark htext).2 ⟨rfl, hvalue⟩, hP⟩
  · have hlength : (Numeral.ahead text).length = (text.takeWhile Char.isDigit).length := by
      simp [hahead, Numeral.length, Numeral.decimal]
    have hplain := not_announces hplain
    rw [hlength, hahead, or_iff_right hplain]
    constructor
    · rintro ⟨front, rest, htext, hread, hP⟩
      obtain ⟨⟨rfl, hvalue⟩, hnext⟩ := (eitherText_plain_iff hplain htext).1 hread
      have hrest : text.dropWhile Char.isDigit = rest := dropWhile_of_append htext
      exact ⟨⟨hvalue, hP⟩, hrest ▸ hnext⟩
    · rintro ⟨⟨hvalue, hP⟩, hnext⟩
      have htext := (List.takeWhile_append_dropWhile (p := Char.isDigit) (l := text)).symm
      exact ⟨_, _, htext, (eitherText_plain_iff hplain htext).2 ⟨⟨rfl, hvalue⟩, hnext⟩, hP⟩

end Ahead

section Shown

variable {input : Array Char} (hsize : input.size < Index.limit) (memoize : Bool) {start : Nat}
  (hstart : start ≤ input.size) (language : Language)

include hsize hstart

theorem naturalOrFloat_shows :
    (∀ v stop, (token (pure language) naturalOrFloat).ShowsFrom input memoize start
        (.ok (.success v, stop)) ↔
      ∃ front rest, input.toList.drop start = front ++ rest ∧ EitherText front v rest.head? ∧
        (blanks (pure language)).ShowsFrom input memoize (start + front.length)
          (.ok (.success (), stop))) ∧
    ((∃ v stop, (token (pure language) naturalOrFloat).ShowsFrom input memoize start
        (.ok (.success v, stop))) ∨
      ∃ stop, (token (pure language) naturalOrFloat).ShowsFrom input memoize start
        (.ok (.failure ⟨.positioned "number" start,
          (input.toList.drop start).head?.any Char.isDigit⟩, stop))) := by
  obtain ⟨_, label, core, hmade, hcore⟩ :=
    (naturalOrFloat_made hsize (lexerOf (pure language))).assembled_bind
  have hlabelled : (token (pure language) naturalOrFloat).WellLabelled :=
    wellLabelled_of_wordless language fun _ => labelled_compositional.naturalOrFloat_offered
  exact insistent_shows hsize memoize hstart language hlabelled hmade (hcore Scope.root)

theorem naturalOrFloat_shows_float_iff (f : Binary64) (stop : Nat) :
    (token (pure language) naturalOrFloat).ShowsFrom input memoize start
        (.ok (.success (.float f), stop)) ↔
      (token (pure language) float).ShowsFrom input memoize start (.ok (.success f, stop)) := by
  rw [(naturalOrFloat_shows hsize memoize hstart language).1, float_eq,
    (floatWith_shows hsize memoize hstart language Decimal.round?).1]
  simp only [eitherText_float_iff]
  exact floatText_ahead_iff fun length =>
    (blanks (pure language)).ShowsFrom input memoize (start + length) (.ok (.success (), stop))

theorem naturalOrFloat_shows_natural_iff (n stop : Nat) :
    (token (pure language) naturalOrFloat).ShowsFrom input memoize start
        (.ok (.success (.natural n), stop)) ↔
      (token (pure language) natural).ShowsFrom input memoize start (.ok (.success n, stop)) ∧
        (Announces (input.toList.drop start) ∨
          ((input.toList.drop start).dropWhile Char.isDigit).head?.any beginsTail = false) := by
  rw [(naturalOrFloat_shows hsize memoize hstart language).1,
    (natural_shows hsize memoize hstart language).1]
  exact eitherText_natural_iff fun length =>
    (blanks (pure language)).ShowsFrom input memoize (start + length) (.ok (.success (), stop))

end Shown

theorem announces_iff_prefix {text : List Char} :
    Announces text ↔ ∃ mark ∈ ['x', 'X', 'o', 'O'], ['0', mark] <+: text := by
  have hmarks : ∀ mark, isBaseMark mark = true ↔ mark ∈ ['x', 'X', 'o', 'O'] := by
    simp [isBaseMark, Radix.marks, or_assoc]
  constructor
  · rintro ⟨mark, rest, rfl, hmark⟩
    exact ⟨mark, (hmarks mark).1 hmark, rest, rfl⟩
  · rintro ⟨mark, hmark, rest, rfl⟩
    exact ⟨mark, rest, rfl, (hmarks mark).2 hmark⟩

theorem any_beginsTail_iff {next : Option Char} :
    next.any beginsTail = false ↔ ∀ c, next = some c → c ∉ ['.', 'e', 'E'] := by
  rw [Parser.any_eq_false_iff]
  simp [beginsTail, exponentMarks]

/-- The token of numbers agrees with those of natural numbers and of floats. In every language,
from every place of every input, and whether or not outcomes are remembered, it delivers a float
exactly if the token of floats does, and ends there as well. It delivers a natural number exactly
if the token of natural numbers does and a letter behind a zero announces the base of the number
or neither a point nor the mark of an exponent stands behind the digits; it ends there as well.
Else it fails with its message, and has consumed exactly if a digit lies ahead. -/
theorem numbers_agree (language : Language) (input : Array Char) (hsize : input.size < Index.limit)
    (memoize : Bool) (start : Nat) (hstart : start ≤ input.size) :
    let text := input.toList.drop start
    (∀ f stop, (token (pure language) naturalOrFloat).ShowsFrom input memoize start
        (.ok (.success (.float f), stop)) ↔
      (token (pure language) float).ShowsFrom input memoize start (.ok (.success f, stop))) ∧
    (∀ n stop, (token (pure language) naturalOrFloat).ShowsFrom input memoize start
        (.ok (.success (.natural n), stop)) ↔
      (token (pure language) natural).ShowsFrom input memoize start (.ok (.success n, stop)) ∧
        ((∃ mark ∈ ['x', 'X', 'o', 'O'], ['0', mark] <+: text) ∨
          ∀ c, (text.dropWhile Char.isDigit).head? = some c → c ∉ ['.', 'e', 'E'])) ∧
    ((∃ v stop, (token (pure language) naturalOrFloat).ShowsFrom input memoize start
        (.ok (.success v, stop))) ∨
      ∃ stop, (token (pure language) naturalOrFloat).ShowsFrom input memoize start
        (.ok (.failure ⟨.positioned "number" start, text.head?.any Char.isDigit⟩, stop))) := by
  intro text
  refine ⟨naturalOrFloat_shows_float_iff hsize memoize hstart language, fun n stop => ?_,
    (naturalOrFloat_shows hsize memoize hstart language).2⟩
  rw [← announces_iff_prefix, ← any_beginsTail_iff]
  exact naturalOrFloat_shows_natural_iff hsize memoize hstart language n stop

/-- A decimal number has a fraction, a hexadecimal number has none. -/
theorem numbers_agree_fraction :
    "1.5".toList.toArray.size < Index.limit ∧ "0x1.5".toList.toArray.size < Index.limit ∧
    0 ≤ "1.5".toList.toArray.size ∧ 0 ≤ "0x1.5".toList.toArray.size ∧
    (token (pure (Language.plain.assemble 0)) naturalOrFloat).ShowsFrom "1.5".toList.toArray
      true 0 (.ok (.success (.float ⟨0x3ff8000000000000⟩), 3)) ∧
    (token (pure (Language.plain.assemble 0)) naturalOrFloat).ShowsFrom "0x1.5".toList.toArray
      true 0 (.ok (.success (.natural 1), 3)) := by
  let language := Language.plain.assemble 0
  have hsize : "1.5".toList.toArray.size < Index.limit := by decide
  have hsize' : "0x1.5".toList.toArray.size < Index.limit := by decide
  have hdecimal := numbers_agree language _ hsize true 0 (Nat.zero_le _)
  have hhexadecimal := numbers_agree language _ hsize' true 0 (Nat.zero_le _)
  refine ⟨hsize, hsize', Nat.zero_le _, Nat.zero_le _, (hdecimal.1 _ 3).2 ?_,
    (hhexadecimal.2.1 1 3).2 ⟨?_, .inl ⟨'x', by decide, by decide⟩⟩⟩
  · let one : DigitRun := ⟨['1'], by decide, List.all_eq_true.1 (by decide)⟩
    let five : DigitRun := ⟨['5'], by decide, List.all_eq_true.1 (by decide)⟩
    let x : Floating := ⟨one, .pointed five none⟩
    have hblanks : (blanks (pure language)).ShowsFrom "1.5".toList.toArray true 3
        (.ok (.success (), 3)) := blanks_end _ hsize
    have hfloat := floatWith_shows hsize true (Nat.zero_le _) language Decimal.round?
    rw [float_eq]
    exact (hfloat.1 _ 3).2
      ⟨x, ⟨[], rfl, rfl, fun _ => rfl⟩, by decide, by decide +kernel, hblanks⟩
  · have hblanks : (blanks (pure language)).ShowsFrom "0x1.5".toList.toArray true 3
        (.ok (.success (), 3)) :=
      blanks_shows_skipped language true hsize' (by decide) (by decide) ".5".toList
        (by decide +kernel)
    have hnatural := natural_shows hsize' true (Nat.zero_le _) language
    exact (hnatural.1 1 3).2 ⟨by decide, hblanks⟩

end Lexer

end ParserKit
