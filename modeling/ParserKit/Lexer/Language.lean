import ParserKit.Character

/-!
What distinguishes the tokens of one language from those of another: the
delimiters of its comments, the characters of its words and operators, and the
reserved ones. An empty delimiter switches that kind of comment off.
-/

namespace ParserKit

structure Language where
  commentStart : String
  commentEnd : String
  commentLine : String
  /-- Whether block comments may contain block comments. -/
  nestedComments : Bool
  /-- The first character of an identifier. -/
  identStart : Parser .char
  /-- Any later character of an identifier. -/
  identLetter : Parser .char
  /-- The first character of an operator. -/
  opStart : Parser .char
  /-- Any later character of an operator. -/
  opLetter : Parser .char
  reservedNames : List String
  reservedOperators : List String
  caseSensitive : Bool

namespace Language

def operatorChars : String :=
  ":!#$%&*+./<=>?@\\^|-~"

/-- A language without comments and reserved words. -/
def plain : Build Language := do
  return {
    commentStart := "", commentEnd := "", commentLine := "", nestedComments := true,
    identStart := .choice (← Build.letter) (← Build.char '_'),
    identLetter := .choice (← Build.letterOrDigit) (← Build.oneOf "_'"),
    opStart := ← Build.oneOf operatorChars,
    opLetter := ← Build.oneOf operatorChars,
    reservedNames := [], reservedOperators := [], caseSensitive := true }

/-- Comments between slashes and stars, which do not nest, and after two slashes. -/
def slashComments (language : Language) : Language :=
  { language with
    commentStart := "/*", commentEnd := "*/", commentLine := "//", nestedComments := false }

/-- Comments between braces and dashes, which nest, and after two dashes. -/
def dashComments (language : Language) : Language :=
  { language with
    commentStart := "\x7b-", commentEnd := "-\x7d", commentLine := "--", nestedComments := true }

end Language

end ParserKit
