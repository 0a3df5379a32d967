import ParserKit.Lexer.WhiteSpace

/-!
The token parsers of a language share one white-space parser. A lexeme skips the
white space after it, so a grammar skips leading white space only at its start.
-/

namespace ParserKit

structure Lexer where
  language : Language
  whiteSpace : Parser .unit

namespace Lexer

variable {t : Ty}

def ofLanguage (language : Language) : Build Lexer := do
  return { language, whiteSpace := ← whiteSpaceOf language }

/-- A parser followed by white space. -/
def lexeme (lexer : Lexer) (p : Parser t) : Parser t :=
  p.skip lexer.whiteSpace

/-- A literal text as a lexeme. -/
def symbol (lexer : Lexer) (chars : String) : Build (Parser .text) := do
  return lexer.lexeme (← Build.string chars)

def enclosed (lexer : Lexer) (opening closing : String) (p : Parser t) : Build (Parser t) := do
  return .between (← lexer.symbol opening) (← lexer.symbol closing) p

def parens (lexer : Lexer) (p : Parser t) : Build (Parser t) :=
  lexer.enclosed "(" ")" p

def braces (lexer : Lexer) (p : Parser t) : Build (Parser t) :=
  lexer.enclosed "\x7b" "\x7d" p

def angles (lexer : Lexer) (p : Parser t) : Build (Parser t) :=
  lexer.enclosed "<" ">" p

def brackets (lexer : Lexer) (p : Parser t) : Build (Parser t) :=
  lexer.enclosed "[" "]" p

def semi (lexer : Lexer) : Build (Parser .text) :=
  lexer.symbol ";"

def comma (lexer : Lexer) : Build (Parser .text) :=
  lexer.symbol ","

def colon (lexer : Lexer) : Build (Parser .text) :=
  lexer.symbol ":"

def dot (lexer : Lexer) : Build (Parser .text) :=
  lexer.symbol "."

def semiSep (lexer : Lexer) (p : Parser t) : Build (Parser (.list t)) := do
  return p.sepBy (← lexer.semi)

def semiSep1 (lexer : Lexer) (p : Parser t) : Build (Parser (.list t)) := do
  return p.sepBy1 (← lexer.semi)

def commaSep (lexer : Lexer) (p : Parser t) : Build (Parser (.list t)) := do
  return p.sepBy (← lexer.comma)

def commaSep1 (lexer : Lexer) (p : Parser t) : Build (Parser (.list t)) := do
  return p.sepBy1 (← lexer.comma)

end Lexer

end ParserKit
