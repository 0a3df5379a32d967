import ParserKit.Lexer.Basic

/-!
Numbers. Naturals are below `2 ^ 64` and integers lie between `-2 ^ 63` and
`2 ^ 63 - 1`; a number outside is a failure. A float is collected as a text in
decimal notation and rounded at once.
-/

namespace ParserKit.Lexer

def tooLarge : String :=
  "number too large"

/-- The value of a digit in a base of at most sixteen. -/
def digitOf? (base : Nat) (c : Char) : Option Nat :=
  let value :=
    if c.isDigit then some (c.toNat - 48)
    else if 'a' ≤ c && c ≤ 'f' then some (c.toNat - 87)
    else if 'A' ≤ c && c ≤ 'F' then some (c.toNat - 55)
    else none
  value.filter (· < base)

/-- A number with one more digit, if it stays below the limit. -/
def appendDigit? (base value : Nat) (c : Char) : Option Nat := do
  let digit ← digitOf? base c
  let longer := value * base + digit
  if longer < Index.limit then some longer else none

def ofDigits? (base : Nat) (digits : List Char) : Option Nat :=
  digits.foldlM (appendDigit? base) 0

/-- Delivers a number that was read, or fails because it is too large. -/
def accept {t : Ty} : Option t.Elem → Parser t
  | some value => .ret value
  | none => .fail tooLarge

/-- One or more digits of a base. -/
def digits (base : Nat) (digit : Parser .char) : Parser .natural :=
  (Parser.many1 digit).followedBy fun chars => accept (ofDigits? base chars)

def decimal : Build (Parser .natural) := do
  return digits 10 (← Build.digit)

/-- The rest of a hexadecimal number after its zero. -/
def hexTail : Build (Parser .natural) := do
  return (← Build.oneOf "xX").andThen (digits 16 (← Build.hexDigit))

/-- The rest of an octal number after its zero. -/
def octTail : Build (Parser .natural) := do
  return (← Build.oneOf "oO").andThen (digits 8 (← Build.octDigit))

def hexadecimal : Build (Parser .natural) := do
  return (← Build.char '0').andThen (← hexTail)

def octal : Build (Parser .natural) := do
  return (← Build.char '0').andThen (← octTail)

/-- A natural number in any of the three bases, without the white space after it. -/
def naturalNumber : Build (Parser .natural) := do
  let tail := Parser.choiceAll [← hexTail, ← octTail, ← decimal, .ret (t := .natural) 0]
  let zeroFirst ← Build.label ((← Build.char '0').andThen tail) ""
  return .choice zeroFirst (← decimal)

def natural (lexer : Lexer) : Build (Parser .natural) := do
  Build.label (lexer.lexeme (← naturalNumber)) "natural"

/-- Whether a leading sign makes the number negative. -/
def sign : Build (Parser .bool) := do
  return .choiceAll [
    (← Build.char '-').map (b := .bool) fun _ => true,
    (← Build.char '+').map (b := .bool) fun _ => false,
    .ret (t := .bool) false]

def signed? (negative : Bool) (n : Nat) : Option Int :=
  let value : Int := if negative then -n else n
  let bound : Int := Word.limit 63
  if -bound ≤ value ∧ value < bound then some value else none

/-- A natural number with an optional sign, which white space may follow. -/
def integer (lexer : Lexer) : Build (Parser .integer) := do
  let value ← Build.bindFresh (lexer.lexeme (← sign)) fun negative =>
    return (← naturalNumber).followedBy fun n => accept (t := .integer) (signed? negative n)
  Build.label (lexer.lexeme value) "integer"

/-- A point and digits, with the point. -/
def fraction : Build (Parser .text) := do
  let digits ← Build.label (.many1 (← Build.digit)) "fraction"
  let tail := digits.map (b := .text) fun chars => String.ofList ('.' :: chars)
  Build.label ((← Build.char '.').andThen tail) "fraction"

/-- An exponent in the form `e` or `e-` and digits. -/
def exponent : Build (Parser .text) := do
  let sign : Parser .text := .choiceAll [
    (← Build.char '-').map (b := .text) fun _ => "-",
    (← Build.char '+').map (b := .text) fun _ => "",
    .ret (t := .text) ""]
  let digits ← Build.label (Parser.many1Chars (← Build.digit)) "exponent"
  let tail := Parser.lift2 (c := .text) sign digits fun sign digits => "e" ++ sign ++ digits
  Build.label ((← Build.oneOf "eE").andThen tail) "exponent"

/-- The part of a float after its whole digits. -/
def fractionExponent (whole : Nat) : Build (Parser .float) := do
  let fraction ← fraction
  let exponent ← exponent
  let withFraction :=
    Parser.lift2 (c := .text) fraction (exponent.option (t := .text) "") fun f e => f ++ e
  return (Parser.choice withFraction exponent).followedBy fun tail =>
    match Decimal.ofText? (toString whole ++ tail) with
    | some number => .ret (t := .float) number.toBinary64
    | none => .fail "float"

/-- A number with a fraction, an exponent or both. -/
def float (lexer : Lexer) : Build (Parser .float) := do
  let number ← Build.bindFresh (← decimal) fractionExponent
  Build.label (lexer.lexeme number) "float"

def decimalOrFloat : Build (Parser .number) := do
  Build.bindFresh (← decimal) fun n => do
    let float := (← fractionExponent n).map (b := .number) Number.float
    return float.option (Number.natural n)

/-- A natural number or a float, whichever the input holds. -/
def naturalOrFloat (lexer : Lexer) : Build (Parser .number) := do
  let zeroFirst := Parser.choiceAll [
    (Parser.choice (← hexTail) (← octTail)).map (b := .number) Number.natural,
    ← decimalOrFloat,
    (← fractionExponent 0).map (b := .number) Number.float,
    .ret (t := .number) (Number.natural 0)]
  let number := Parser.choice ((← Build.char '0').andThen zeroFirst) (← decimalOrFloat)
  Build.label (lexer.lexeme number) "number"

end ParserKit.Lexer
