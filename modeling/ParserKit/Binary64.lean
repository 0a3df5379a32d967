/-!
Binary floating-point numbers of 64 bits, held as their bits, and the
conversion of a non-negative rational number to the nearest of them, a tie
going to the even significand.
-/

namespace ParserKit

structure Binary64 where
  bits : Nat
deriving DecidableEq, Repr, Inhabited

namespace Binary64

def infinity : Binary64 :=
  { bits := 0x7ff0000000000000 }

/-- The sixteen lower-case hexadecimal digits of the bits. -/
def hex (x : Binary64) : String :=
  let digits := Nat.toDigits 16 x.bits
  String.ofList (List.replicate (16 - digits.length) '0' ++ digits)

/-- The quotient rounded to the nearest number, a half going to the even one. -/
def roundDiv (num den : Nat) : Nat :=
  let quotient := num / den
  let rest := num % den
  if 2 * rest < den then quotient
  else if den < 2 * rest then quotient + 1
  else quotient + quotient % 2

/-- `num / den` in units of `2 ^ exponent`, as a numerator and a denominator. -/
def scaled (num den : Nat) (exponent : Int) : Nat × Nat :=
  if 0 ≤ exponent then (num, den <<< exponent.toNat) else (num <<< (-exponent).toNat, den)

/-- The exponent of the last significant bit: 53 bits are kept, fewer below the
normal range. -/
def unitExponent (num den : Nat) : Int :=
  let guess : Int := (Nat.log2 num : Int) - Nat.log2 den - 52
  let (high, low) := scaled num den guess
  max (if high / low < 1 <<< 52 then guess - 1 else guess) (-1074)

/-- The nearest representable number, or infinity beyond the largest one. A
significand that rounds up to the next power of two carries into the exponent. -/
def ofRatio (num den : Nat) : Binary64 :=
  if num = 0 then { bits := 0 }
  else
    let exponent := unitExponent num den
    let (high, low) := scaled num den exponent
    let bits := (exponent + 1074).toNat <<< 52 + roundDiv high low
    if bits < infinity.bits then { bits } else infinity

end Binary64

end ParserKit
