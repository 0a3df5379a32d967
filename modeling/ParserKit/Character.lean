import ParserKit.Build
import ParserKit.Text.Blank
import ParserKit.Text.Letter
import ParserKit.Text.Lower
import ParserKit.Text.Numeric
import ParserKit.Text.Upper

/-!
Parsers of single characters and of literal texts. Each remembers its outcomes;
the character classes carry a name for messages.
-/

namespace ParserKit

namespace Text

def isLetterOrDigit (c : Char) : Bool :=
  isLetter c || isNumeric c

def isHexDigit (c : Char) : Bool :=
  c.isDigit || ('a' ≤ c && c ≤ 'f') || ('A' ≤ c && c ≤ 'F')

def isOctDigit (c : Char) : Bool :=
  '0' ≤ c && c ≤ '7'

end Text

namespace Build

def satisfy (accepts : Char → Bool) : Build (Parser .char) :=
  memo (.atom (.satisfy accepts))

def char (c : Char) : Build (Parser .char) :=
  memo (.atom (.char c))

def string (chars : String) : Build (Parser .text) :=
  memo (.atom (.string chars))

def oneOf (chars : String) : Build (Parser .char) :=
  let set := chars.toList
  satisfy fun c => set.contains c

def noneOf (chars : String) : Build (Parser .char) :=
  let set := chars.toList
  satisfy fun c => !set.contains c

/-- One character of a class that has a name. -/
def classOf (accepts : Char → Bool) (name : String) : Build (Parser .char) := do
  label (← satisfy accepts) name

def anyChar : Build (Parser .char) :=
  classOf (fun _ => true) "any character"

def digit : Build (Parser .char) :=
  classOf Char.isDigit "digit"

def hexDigit : Build (Parser .char) :=
  classOf Text.isHexDigit "hexadecimal digit"

def octDigit : Build (Parser .char) :=
  classOf Text.isOctDigit "octal digit"

def letter : Build (Parser .char) :=
  classOf Text.isLetter "letter"

def letterOrDigit : Build (Parser .char) :=
  classOf Text.isLetterOrDigit "letter or digit"

def upper : Build (Parser .char) :=
  classOf Text.isUpper "uppercase letter"

def lower : Build (Parser .char) :=
  classOf Text.isLower "lowercase letter"

def space : Build (Parser .char) :=
  classOf Text.isBlank "space"

def spaces : Build (Parser .unit) := do
  label (← skipMany (← space)) "white space"

def newline : Build (Parser .char) := do
  label (← char '\n') "new-line"

end Build

end ParserKit
