import ParserKit.Value

/-!
The types of values that parsers deliver, as codes. Codes can be compared, so
that a cache can hold outcomes of different types and find out again which type
an entry has.
-/

namespace ParserKit

/-- A number that was written as a natural number or as a float. -/
inductive Number where
  | natural (n : Nat)
  | float (x : Binary64)
deriving DecidableEq, Repr

inductive Ty where
  | unit
  | bool
  | char
  | text
  | natural
  | integer
  | float
  | number
  | value
  | list (item : Ty)
  | option (item : Ty)
  | spanned (item : Ty)
  | function (argument result : Ty)
deriving DecidableEq, Repr

/-- The values of a type. -/
@[reducible] def Ty.Elem : Ty → Type
  | .unit => Unit
  | .bool => Bool
  | .char => Char
  | .text => String
  | .natural => Nat
  | .integer => Int
  | .float => Binary64
  | .number => Number
  | .value => Value
  | .list item => List item.Elem
  | .option item => Option item.Elem
  | .spanned item => item.Elem × Span
  | .function argument result => argument.Elem → result.Elem

end ParserKit
