import ParserKit.Decimal
import ParserKit.Span

/-!
Values of grammars that are assembled at run time, where every parser delivers
the same type, with the views of a value as a text, as a number and as an
optional value.
-/

namespace ParserKit

inductive Value where
  | unit
  | char (c : Char)
  | text (chars : String)
  | integer (n : Int)
  | float (x : Binary64)
  | absent
  | present (value : Value)
  | list (items : List Value)
  | spanned (value : Value) (span : Span)
deriving Repr, Inhabited

namespace Value

mutual

/-- Appends the characters that a value stands for. -/
def write (out : String) : Value → String
  | .unit => out
  | .char c => out.push c
  | .text chars => out ++ chars
  | .integer n => out ++ toString n
  | .float x => out ++ x.hex
  | .absent => out
  | .present value => write out value
  | .list items => writeAll out items
  | .spanned value _ => write out value

def writeAll (out : String) : List Value → String
  | [] => out
  | item :: rest => writeAll (write out item) rest

end

def toText (value : Value) : String :=
  write "" value

/-- A decimal number with an optional sign, or zero for any other text. -/
def readInteger (chars : List Char) : Int :=
  let (negative, digits) := match chars with
    | '-' :: digits => (true, digits)
    | '+' :: digits => (false, digits)
    | digits => (false, digits)
  if digits.isEmpty || !digits.all Char.isDigit then 0
  else if negative then -(Decimal.ofDigits digits : Int)
  else Decimal.ofDigits digits

mutual

/-- Adds the number that a value stands for; a list stands for the sum of its
members. -/
def addTo (total : Int) : Value → Int
  | .integer n => total + n
  | .list items => addAllTo total items
  | value => total + readInteger value.toText.toList

def addAllTo (total : Int) : List Value → Int
  | [] => total
  | item :: rest => addAllTo (addTo total item) rest

end

def toInteger (value : Value) : Int :=
  addTo 0 value

/-- The value as an optional one: only the absent marker counts as missing. -/
def toOption : Value → Option Value
  | .absent => none
  | .present value => some value
  | value => some value

def ofOption : Option Value → Value
  | none => .absent
  | some value => .present value

/-- The number of members of a list, or of characters of any other value. -/
def size : Value → Nat
  | .list items => items.length
  | value => value.toText.length

def items : Value → List Value
  | .list items => items
  | _ => []

/-- A piece of a template: literal text, or the text of an argument. -/
inductive Piece where
  | literal (chars : String)
  | argument (index : Nat)
deriving Repr

def fill (template : List Piece) (args : List Value) : String :=
  template.foldl (fun out piece => match piece with
    | .literal chars => out ++ chars
    | .argument index => (args[index]?.map (write out)).getD out) ""

/-- The functions that a grammar can apply to the values of its parsers. -/
inductive Function where
  | list
  | text
  | upper
  | count
  | sum
  | increment
  | absent
  | present
  | const (value : Value)
  | format (template : List Piece)
  | fold (template : List Piece)
deriving Repr

def Function.apply (f : Function) (args : List Value) : Value :=
  let first := args.headD .unit
  match f with
  | .list => .list args
  | .text => .text (writeAll "" args)
  | .upper => .text (writeAll "" args).toUpper
  | .count => .integer first.size
  | .sum => .integer (addAllTo 0 args)
  | .increment => .integer (first.toInteger + 1)
  | .absent => .absent
  | .present => .present first
  | .const value => value
  | .format template => .text (fill template args)
  | .fold template =>
    (args[1]?.map items).getD [] |>.foldl (fun result item => .text (fill template [result, item])) first

end Value

end ParserKit
