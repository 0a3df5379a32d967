import Mathlib.Algebra.Field.Rat
import Mathlib.Tactic.FieldSimp
import Mathlib.Tactic.Ring
import ParserKit.Proofs.Integers

/-!
Numbers with a fraction or an exponent, as they are written. A text of this kind stands for one
rational number, however many digits it has. The same number can be written tersely, without
zeros in front, with a small mark before the exponent and without a plus sign behind it. In both
forms the text is decimal notation, which stands for that number.
-/

namespace ParserKit

open Lexer (valueOf)

/-- One or more decimal digits. -/
structure DigitRun where
  digits : List Char
  ne_nil : digits ≠ []
  isDigit : ∀ c ∈ digits, c.isDigit = true

namespace DigitRun

def value (run : DigitRun) : Nat :=
  valueOf 10 run.digits

/-- The digits of a number, without zeros in front. -/
def ofNat (n : Nat) : DigitRun where
  digits := Nat.toDigits 10 n
  ne_nil := (Radix.decimal.writes_toDigits n).ne_nil
  isDigit := (Radix.decimal.writes_toDigits n).isDigit

theorem ofNat_value (n : Nat) : (ofNat n).value = n :=
  (Radix.decimal.writes_toDigits n).value

end DigitRun

/-- The marks in front of an exponent. -/
def exponentMarks : List Char :=
  ['e', 'E']

/-- The characters that may follow the whole digits of a float. -/
def beginsTail (c : Char) : Bool :=
  c == '.' || exponentMarks.contains c

/-- The exponent of a float. -/
structure Exponent where
  mark : Char
  sign : Sign
  run : DigitRun
  mark_mem : mark ∈ exponentMarks

/-- The part of a float behind its whole digits: a point with digits, which an exponent may
follow, or an exponent. -/
inductive FloatTail where
  | pointed (run : DigitRun) (power? : Option Exponent)
  | scaled (exponent : Exponent)

/-- A float as it is written. -/
structure Floating where
  whole : DigitRun
  tail : FloatTail

/-- A plus sign is left out. -/
def Sign.terse : Sign → Sign
  | .minus => .minus
  | _ => .none

theorem Sign.terse_apply (sign : Sign) (n : Nat) : sign.terse.apply n = sign.apply n := by
  cases sign <;> rfl

namespace Exponent

def text (exponent : Exponent) : List Char :=
  exponent.mark :: (exponent.sign.text ++ exponent.run.digits)

def value (exponent : Exponent) : ℤ :=
  exponent.sign.apply exponent.run.value

def terse (exponent : Exponent) : Exponent where
  mark := 'e'
  sign := exponent.sign.terse
  run := exponent.run
  mark_mem := by decide

theorem terse_value (exponent : Exponent) : exponent.terse.value = exponent.value :=
  exponent.sign.terse_apply _

theorem ofList_terse_text (exponent : Exponent) :
    String.ofList exponent.terse.text =
      "e" ++ String.ofList exponent.sign.terse.text ++ String.ofList exponent.run.digits := by
  have hsplit : exponent.terse.text = ['e'] ++ exponent.sign.terse.text ++ exponent.run.digits :=
    rfl
  rw [hsplit, String.ofList_append, String.ofList_append]

/-- It begins with a mark, which is not a digit. -/
theorem text_begins (exponent : Exponent) :
    ∃ c rest, exponent.text = c :: rest ∧ c ∈ exponentMarks ∧ c.isDigit = false := by
  have hmarks : ∀ c ∈ exponentMarks, c.isDigit = false := Lexer.eq_false_of_all (by decide)
  exact ⟨_, _, rfl, exponent.mark_mem, hmarks _ exponent.mark_mem⟩

end Exponent

namespace FloatTail

def text : FloatTail → List Char
  | pointed run power? => '.' :: (run.digits ++ power?.elim [] Exponent.text)
  | scaled exponent => exponent.text

/-- The digits behind the point. -/
def places : FloatTail → List Char
  | pointed run _ => run.digits
  | scaled _ => []

def exponent? : FloatTail → Option Exponent
  | pointed _ power? => power?
  | scaled exponent => some exponent

/-- The power of ten that the exponent stands for. -/
def power (tail : FloatTail) : ℤ :=
  tail.exponent?.elim 0 Exponent.value

def terse : FloatTail → FloatTail
  | pointed run power? => pointed run (power?.map Exponent.terse)
  | scaled exponent => scaled exponent.terse

/-- The text ends there: its last digits do, and if it has no exponent, none begins. -/
def Stops (tail : FloatTail) (next : Option Char) : Prop :=
  next.any Char.isDigit = false ∧
    (tail.exponent? = none → next.any exponentMarks.contains = false)

theorem terse_places (tail : FloatTail) : tail.terse.places = tail.places := by
  cases tail <;> rfl

theorem terse_power (tail : FloatTail) : tail.terse.power = tail.power := by
  cases tail with
  | scaled exponent => exact exponent.terse_value
  | pointed run power? =>
    cases power? with
    | none => rfl
    | some exponent => exact exponent.terse_value

theorem places_isDigit (tail : FloatTail) : ∀ c ∈ tail.places, c.isDigit = true := by
  cases tail with
  | pointed run _ => exact run.isDigit
  | scaled _ => exact fun _ hc => absurd hc List.not_mem_nil

/-- It begins with a point or a mark, and not with a digit. -/
theorem text_begins (tail : FloatTail) :
    ∃ c rest, tail.text = c :: rest ∧ beginsTail c = true ∧ c.isDigit = false := by
  cases tail with
  | pointed run power? => exact ⟨'.', _, rfl, rfl, rfl⟩
  | scaled exponent =>
    obtain ⟨c, rest, htext, hmark, hc⟩ := exponent.text_begins
    exact ⟨c, rest, htext, by simp [beginsTail, hmark], hc⟩

theorem ofList_terse_text (run : DigitRun) (power? : Option Exponent) :
    String.ofList (pointed run power?).terse.text =
      String.ofList ('.' :: run.digits) ++
        String.ofList (power?.elim [] fun exponent => exponent.terse.text) := by
  have hsplit : (pointed run power?).terse.text =
      ('.' :: run.digits) ++ power?.elim [] fun exponent => exponent.terse.text := by
    cases power? <;> rfl
  rw [hsplit, String.ofList_append]

end FloatTail

namespace Floating

def text (x : Floating) : List Char :=
  x.whole.digits ++ x.tail.text

/-- The rational number that is written. -/
def value (x : Floating) : ℚ :=
  (x.whole.value + valueOf 10 x.tail.places / 10 ^ x.tail.places.length) * 10 ^ x.tail.power

/-- The float is the next text, as far as it goes. -/
def LiesAhead (x : Floating) (text : List Char) : Prop :=
  ∃ rest, text = x.text ++ rest ∧ x.tail.Stops rest.head?

/-- The same number, written tersely. -/
def terse (x : Floating) : Floating where
  whole := .ofNat x.whole.value
  tail := x.tail.terse

theorem terse_value (x : Floating) : x.terse.value = x.value := by
  simp only [value, terse, DigitRun.ofNat_value, FloatTail.terse_places, FloatTail.terse_power]

/-- What is written tersely is put together from the number of the whole digits and the rest. -/
theorem ofList_terse_text (x : Floating) :
    String.ofList x.terse.text = toString x.whole.value ++ String.ofList x.tail.terse.text :=
  String.ofList_append

end Floating

/-- The rational number that decimal notation stands for. -/
def Decimal.value (x : Decimal) : ℚ :=
  Decimal.ofDigits x.digits * 10 ^ (x.exponent - x.places)

section Digits

variable {base : Nat} {front back digits : List Char}

theorem Lexer.valueOf_append :
    valueOf base (front ++ back) = valueOf base front * base ^ back.length + valueOf base back := by
  induction back using List.reverseRecOn with
  | nil => simp [valueOf]
  | append_singleton back c ih =>
    rw [← List.append_assoc, Radix.valueOf_append_singleton, Radix.valueOf_append_singleton, ih,
      List.length_append, List.length_singleton, pow_succ]
    ring

theorem Decimal.ofDigits_eq_valueOf (h : ∀ c ∈ digits, c.isDigit = true) :
    Decimal.ofDigits digits = valueOf 10 digits := by
  refine List.foldl_ext _ _ 0 fun value c hc => ?_
  rw [Decimal.digitValue, Lexer.digitValue, if_pos (h c hc), Nat.mul_comm]

end Digits

namespace Floating

/-- The parts of a float, as decimal notation tells them apart. -/
def decimal (x : Floating) : Decimal where
  digits := x.whole.digits ++ x.tail.places
  places := x.tail.places.length
  negative := x.tail.exponent?.any (·.sign.isNegative)
  exponentDigits := x.tail.exponent?.elim [] (·.run.digits)

theorem decimal_exponent (x : Floating) : x.decimal.exponent = x.tail.power := by
  unfold Decimal.exponent decimal FloatTail.power
  cases hexponent : x.tail.exponent? with
  | none => simp [Decimal.ofDigits]
  | some exponent =>
    simp only [Option.any_some, Option.elim_some, Decimal.ofDigits_eq_valueOf exponent.run.isDigit]
    rfl

theorem decimal_value (x : Floating) : x.decimal.value = x.value := by
  have hdigits : ∀ c ∈ x.whole.digits ++ x.tail.places, c.isDigit = true := fun c hc =>
    (List.mem_append.1 hc).elim (x.whole.isDigit c) (x.tail.places_isDigit c)
  have hten : (10 : ℚ) ≠ 0 := by norm_num
  have hofDigits : (Decimal.ofDigits x.decimal.digits : ℚ) =
      x.whole.value * 10 ^ x.tail.places.length + valueOf 10 x.tail.places := by
    rw [decimal, Decimal.ofDigits_eq_valueOf hdigits, Lexer.valueOf_append]
    push_cast
    rfl
  rw [Decimal.value, hofDigits, decimal_exponent, zpow_sub₀ hten]
  simp only [decimal, zpow_natCast, value]
  field_simp

end Floating

section Splitting

theorem splitExponent?_text (exponent : Exponent) :
    Decimal.splitExponent? exponent.text =
      some (exponent.sign.isNegative, exponent.run.digits) := by
  obtain ⟨mark, sign, ⟨digits, hne, hdigits⟩, hmark⟩ := exponent
  obtain ⟨c, rest, rfl⟩ := List.exists_cons_of_ne_nil hne
  have hmarks : ∀ mark ∈ exponentMarks, (mark.toLower == 'e') = true :=
    List.all_eq_true.1 (by decide)
  have hall : (c :: rest).all Char.isDigit = true := List.all_eq_true.2 hdigits
  have hc : c.isDigit = true := hdigits c List.mem_cons_self
  have hminus : c ≠ '-' := by
    rintro rfl
    cases hc
  have hplus : c ≠ '+' := by
    rintro rfl
    cases hc
  cases sign <;>
    simp [Exponent.text, Sign.text, Decimal.splitExponent?, Sign.isNegative, hminus, hplus,
      hmarks mark hmark, hall]

theorem splitExponent?_elim (power? : Option Exponent) :
    Decimal.splitExponent? (power?.elim [] Exponent.text) =
      some (power?.any (·.sign.isNegative), power?.elim [] (·.run.digits)) := by
  cases power? with
  | none => rfl
  | some exponent => exact splitExponent?_text exponent

theorem splitFraction_text (tail : FloatTail) :
    Decimal.splitFraction tail.text = (tail.places, tail.exponent?.elim [] Exponent.text) := by
  cases tail with
  | pointed run power? =>
    have hbehind : (power?.elim [] Exponent.text).head?.any Char.isDigit = false := by
      cases power? with
      | none => rfl
      | some exponent =>
        obtain ⟨c, rest, htext, -, hc⟩ := exponent.text_begins
        simp only [Option.elim_some, htext, List.head?_cons, Option.any_some, hc]
    obtain ⟨htake, hdrop⟩ := takeWhile_append_of_ends run.isDigit hbehind
    exact Prod.ext htake hdrop
  | scaled exponent =>
    have hpoint : exponent.mark ≠ '.' := by
      intro hmark
      have hmem := exponent.mark_mem
      rw [hmark] at hmem
      exact absurd hmem (by decide)
    rw [FloatTail.text, Exponent.text, Decimal.splitFraction]
    · rfl
    · exact fun rest hmark => hpoint (List.cons.inj hmark).1

/-- A float is decimal notation, with its parts. -/
theorem Floating.ofText?_text (x : Floating) :
    Decimal.ofText? (String.ofList x.text) = some x.decimal := by
  have hends : x.tail.text.head?.any Char.isDigit = false := by
    obtain ⟨c, rest, htail, -, hc⟩ := x.tail.text_begins
    rw [htail]
    exact hc
  obtain ⟨hwhole, hbehind⟩ := takeWhile_append_of_ends x.whole.isDigit hends
  have hne : x.whole.digits.isEmpty = false := List.isEmpty_eq_false_iff.2 x.whole.ne_nil
  rw [Decimal.ofText?, String.toList_ofList, Decimal.ofChars?, Floating.text, hwhole, hbehind]
  simp only [splitFraction_text, hne, Bool.false_and, Bool.false_eq_true, if_false,
    splitExponent?_elim, Option.map_some]
  rfl

end Splitting

end ParserKit
