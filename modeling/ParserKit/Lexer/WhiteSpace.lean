import ParserKit.Lexer.Language

/-!
What may stand between two tokens: white space, line comments and block
comments, in any order and number.
-/

namespace ParserKit.Lexer

/-- From the marker up to the end of the line, which is left. -/
def lineComment (marker : String) : Build (Parser .unit) := do
  let start ← Build.attempt (← Build.string marker)
  return start.andThen (← Build.skipMany (← Build.satisfy (· != '\n')))

/-- A block comment: runs of characters outside the delimiters, comments inside
the comment if they may nest, and single delimiter characters that do not begin
the closing delimiter. -/
def blockComment (language : Language) : Build (Parser .unit) :=
  Build.recursive fun comment => do
    let delimiters := language.commentEnd ++ language.commentStart
    let plain ← Build.skipMany1 (← Build.noneOf delimiters)
    let stray := (Parser.notFollowedBy (← Build.string language.commentEnd)).andThen
      ((← Build.oneOf delimiters).map (b := .unit) fun _ => ())
    let body := if language.nestedComments then [plain, comment, stray] else [plain, stray]
    let close ← Build.label (← Build.attempt (← Build.string language.commentEnd)) "end of comment"
    let start ← Build.attempt (← Build.string language.commentStart)
    let inner ← Build.skipMany (.choiceAll body)
    return start.andThen (inner.andThen (close.map (b := .unit) fun _ => ()))

/-- The parser of a kind of comment, unless the language has none of it. -/
def optionalPiece (disabled : Bool) (piece : Build (Parser .unit)) :
    Build (List (Parser .unit)) := do
  if disabled then return [] else return [← piece]

/-- The pieces that white space is made of. -/
def blankPieces (language : Language) : Build (List (Parser .unit)) := do
  let blanks ← Build.skipMany1 (← Build.satisfy Text.isBlank)
  let lines ← optionalPiece language.commentLine.isEmpty (lineComment language.commentLine)
  let blocks ← optionalPiece language.commentStart.isEmpty (blockComment language)
  return blanks :: (lines ++ blocks)

def whiteSpaceOf (language : Language) : Build (Parser .unit) := do
  Build.skipMany (.choiceAll (← blankPieces language))

end ParserKit.Lexer
