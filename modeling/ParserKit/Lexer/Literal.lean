import ParserKit.Lexer.Numeral

/-!
Character and string literals with escape codes. In a string, an empty escape
and a gap of white space between backslashes stand for nothing.
-/

namespace ParserKit.Lexer

/-- The escapes of one letter, with their characters. -/
def letterEscapes : List (Char × Char) := [
  ('a', '\x07'), ('b', '\x08'), ('f', '\x0c'), ('n', '\n'), ('r', '\r'), ('t', '\t'),
  ('v', '\x0b'), ('\x5c', '\x5c'), ('\x22', '\x22'), ('\x27', '\x27')]

/-- The names of the control characters. Longer names come first, so that one
which starts another is not taken for it. -/
def controlNames : List (String × Char) := [
  ("NUL", '\x00'), ("SOH", '\x01'), ("STX", '\x02'), ("ETX", '\x03'), ("EOT", '\x04'),
  ("ENQ", '\x05'), ("ACK", '\x06'), ("BEL", '\x07'), ("DLE", '\x10'), ("DC1", '\x11'),
  ("DC2", '\x12'), ("DC3", '\x13'), ("DC4", '\x14'), ("NAK", '\x15'), ("SYN", '\x16'),
  ("ETB", '\x17'), ("CAN", '\x18'), ("SUB", '\x1a'), ("ESC", '\x1b'), ("DEL", '\x7f'),
  ("BS", '\x08'), ("HT", '\x09'), ("LF", '\x0a'), ("VT", '\x0b'), ("FF", '\x0c'),
  ("CR", '\x0d'), ("SO", '\x0e'), ("SI", '\x0f'), ("EM", '\x19'), ("FS", '\x1c'),
  ("GS", '\x1d'), ("RS", '\x1e'), ("US", '\x1f'), ("SP", ' ')]

def letterEscape : Build (Parser .char) := do
  let escapes ← letterEscapes.mapM fun (code, value) =>
    return (← Build.char code).map (b := .char) fun _ => value
  return .choiceAll escapes

/-- The character of a code, unless it is a surrogate or too large. -/
def ofCode? (code : Nat) : Option Char :=
  if code.isValidChar then some (Char.ofNat code) else none

/-- A character by its code, in decimal, octal or hexadecimal. -/
def codeEscape : Build (Parser .char) := do
  let code := Parser.choiceAll [
    ← decimal,
    (← Build.char 'o').andThen (digits 8 (← Build.octDigit)),
    (← Build.char 'x').andThen (digits 16 (← Build.hexDigit))]
  return code.followedBy fun code =>
    match ofCode? code with
    | some c => .ret (t := .char) c
    | none => .fail "valid character code"

def nameEscape : Build (Parser .char) := do
  let escapes ← controlNames.mapM fun (name, value) => do
    Build.attempt ((← Build.string name).map (b := .char) fun _ => value)
  return .choiceAll escapes

/-- The control character of an upper-case letter: the first for A. -/
def controlOf (letter : Char) : Except Fault Char := do
  let distance ← Word.sub (letter.toNat % 256) 65
  return Char.ofNat (← Word.add 8 distance 1)

def controlEscape : Build (Parser .char) := do
  let letter ← Build.classOf Char.isUpper "uppercase letter"
  return (← Build.char '^').andThen (.wrap (.convert (b := .char) controlOf) letter)

/-- Everything that may follow a backslash. -/
def escapeCode : Build (Parser .char) := do
  let codes := Parser.choiceAll
    [← letterEscape, ← codeEscape, ← nameEscape, ← controlEscape]
  Build.label codes "escape code"

/-- Whether a character stands for itself between the given quotes. -/
def isRaw (quote c : Char) : Bool :=
  c != quote && c != '\x5c' && '\x1a' < c

def charLiteral (lexer : Lexer) : Build (Parser .char) := do
  let letter ← Build.classOf (isRaw '\x27') "literal character"
  let character := Parser.choice letter ((← Build.char '\x5c').andThen (← escapeCode))
  let opening ← Build.label (← Build.char '\x27') "character"
  let closing ← Build.label (← Build.char '\x27') "end of character"
  return lexer.lexeme (.between opening closing character)

def stringLiteral (lexer : Lexer) : Build (Parser .text) := do
  let letter := (← Build.classOf (isRaw '\x22') "string character").map (b := .option .char) some
  let gapEnd ← Build.label (← Build.char '\x5c') "end of string gap"
  let gap := (Parser.many1 (← Build.space)).andThen gapEnd
  let codes := Parser.choiceAll [
    gap.map (b := .option .char) fun _ => none,
    (← Build.char '&').map (b := .option .char) fun _ => none,
    (← escapeCode).map (b := .option .char) some]
  let escape := (← Build.char '\x5c').andThen codes
  let body := (Parser.manyPresent (t := .char) (.choice letter escape)).map (b := .text) String.ofList
  let opening ← Build.label (← Build.char '\x22') "literal string"
  let closing ← Build.label (← Build.char '\x22') "end of string"
  return lexer.lexeme (.between opening closing body)

end ParserKit.Lexer
