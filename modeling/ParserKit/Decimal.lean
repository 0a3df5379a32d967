import ParserKit.Binary64

/-!
Decimal notation: digits, an optional fraction and an optional exponent. The
number that a text denotes is rounded once to a floating-point number. All of
its digits count for the rounding, but of a very long exponent only the leading
ones, as far as they are needed to reach 65536.
-/

namespace ParserKit

structure Decimal where
  /-- The digits before and after the point. -/
  digits : List Char
  /-- How many of the digits stand after the point. -/
  places : Nat
  /-- Whether the exponent is negative. -/
  negative : Bool
  exponentDigits : List Char
deriving DecidableEq, Repr

namespace Decimal

def digitValue (c : Char) : Nat :=
  c.toNat - 48

/-- The value of a run of decimal digits. -/
def ofDigits (digits : List Char) : Nat :=
  digits.foldl (fun value c => 10 * value + digitValue c) 0

/-- The exponent as it is written. -/
def exponent (x : Decimal) : Int :=
  if x.negative then -(ofDigits x.exponentDigits : Int) else ofDigits x.exponentDigits

/-- The bound at which no more digits of an exponent are read. -/
def exponentBound : Nat := 65536

/-- The exponent as it counts for the rounding. -/
def leadingExponent (x : Decimal) : Int :=
  let size := x.exponentDigits.foldl
    (fun value c => if value < exponentBound then 10 * value + digitValue c else value) 0
  if x.negative then -(size : Int) else size

/-- The digits that follow a point, with the rest of the text. -/
def splitFraction : List Char → List Char × List Char
  | '.' :: rest => (rest.takeWhile Char.isDigit, rest.dropWhile Char.isDigit)
  | rest => ([], rest)

/-- The sign and the digits of an exponent that fills the text, which may also
be missing. -/
def splitExponent? : List Char → Option (Bool × List Char)
  | [] => some (false, [])
  | mark :: rest =>
    let (negative, digits) := match rest with
      | '-' :: digits => (true, digits)
      | '+' :: digits => (false, digits)
      | digits => (false, digits)
    if mark.toLower == 'e' && !digits.isEmpty && digits.all Char.isDigit then
      some (negative, digits)
    else none

def ofChars? (chars : List Char) : Option Decimal :=
  let whole := chars.takeWhile Char.isDigit
  let (fraction, rest) := splitFraction (chars.dropWhile Char.isDigit)
  if whole.isEmpty && fraction.isEmpty then none
  else (splitExponent? rest).map fun (negative, exponentDigits) =>
    { digits := whole ++ fraction, places := fraction.length, negative, exponentDigits }

def ofText? (text : String) : Option Decimal :=
  ofChars? text.toList

/-- More digits than the exact decimal form of any number half-way between two
floating-point numbers has. -/
def maxDigits : Nat := 800

/-- The digits that decide the rounding: all of them, or the leading ones and a
last one that stands for a rest other than zero. -/
def decisiveDigits (significant : List Char) : List Char :=
  let rest := significant.drop maxDigits
  significant.take maxDigits ++ if rest.any (· != '0') then ['1'] else []

/-- The nearest floating-point number. A number below half of the least positive
one is zero and one above the largest is infinite, whatever the exponent. -/
def toBinary64 (x : Decimal) : Binary64 :=
  let significant := x.digits.dropWhile (· == '0')
  let decisive := decisiveDigits significant
  let magnitude : Int := x.leadingExponent - x.places + significant.length
  let exponent : Int := magnitude - decisive.length
  if significant.isEmpty || magnitude < -330 then { bits := 0 }
  else if 310 < magnitude then Binary64.infinity
  else if 0 ≤ exponent then Binary64.ofRatio (ofDigits decisive * Nat.pow 10 exponent.toNat) 1
  else Binary64.ofRatio (ofDigits decisive) (Nat.pow 10 (-exponent).toNat)

end Decimal

end ParserKit
