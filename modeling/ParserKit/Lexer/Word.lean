import ParserKit.Lexer.Basic
import ParserKit.Text.Casing

/-!
Identifiers and operators, and the reserved ones among them. A word is read as
far as its characters go, and only then looked up, in a sorted table that is
searched by halves.
-/

namespace ParserKit.Lexer

/-- A first character and the later ones, as a text. -/
def run (start letter : Parser .char) : Parser .text :=
  Parser.lift2 (b := .list .char) (c := .text) start (.many letter) fun first rest =>
    String.ofList (first :: rest)

/-- The form in which names are compared. -/
def fold (lexer : Lexer) (name : String) : String :=
  if lexer.language.caseSensitive then name else Text.lowerText name

/-- Equal neighbours only once. -/
def dropRepeats : List String → List String
  | [] => []
  | [name] => [name]
  | name :: next :: rest =>
    if name = next then dropRepeats (next :: rest) else name :: dropRepeats (next :: rest)

/-- The names in ascending order, each of them once. -/
def tableOf (names : List String) : Array String :=
  (dropRepeats (names.mergeSort fun a b => decide (a ≤ b))).toArray

/-- Searches `size` entries from `base` on: the upper half starts with an entry that is not
above the name, or the search goes on below it. -/
def search (table : Array String) (name : String) : (steps base size : Nat) → Bool
  | 0, base, _ => table[base]? == some name
  | steps + 1, base, size =>
    if 1 < size then
      let middle := base + size / 2
      if table[middle]?.any (name < ·) then search table name steps base (size - size / 2)
      else search table name steps middle (size - size / 2)
    else table[base]? == some name

/-- Whether a table holds a name. -/
def holds (table : Array String) (name : String) : Bool :=
  search table name table.size 0 table.size

def isReservedName (lexer : Lexer) (name : String) : Bool :=
  holds (tableOf (lexer.language.reservedNames.map lexer.fold)) (lexer.fold name)

def isReservedOperator (lexer : Lexer) (name : String) : Bool :=
  holds (tableOf lexer.language.reservedOperators) name

/-- Refuses a word that is reserved, at its start. -/
def unreserved (isReserved : String → Bool) (kind : String) (word : Parser .text) :
    Parser .text :=
  word.withPosition.followedBy fun (name, span) =>
    if isReserved name then .reject (s!"reserved {kind} " ++ name) span.start else .ret name

def identifier (lexer : Lexer) : Build (Parser .text) := do
  let word ← Build.label (run lexer.language.identStart lexer.language.identLetter) "identifier"
  return lexer.lexeme (← Build.attempt (unreserved lexer.isReservedName "word" word))

def operator (lexer : Lexer) : Build (Parser .text) := do
  let word ← Build.label (run lexer.language.opStart lexer.language.opLetter) "operator"
  return lexer.lexeme (← Build.attempt (unreserved lexer.isReservedOperator "operator" word))

/-- Whether two characters are equal up to case. -/
def sameLetter (expected c : Char) : Bool :=
  c == expected || Text.lowerChar c == Text.lowerChar expected

/-- A name, in any case unless the language is case sensitive. -/
def caseString (lexer : Lexer) (name : String) : Build (Parser .text) := do
  if lexer.language.caseSensitive then Build.string name
  else
    let letters ← name.toList.mapM fun expected => do
      let letter ← Build.label (← Build.satisfy (sameLetter expected)) name
      return letter.map (b := .option .char) some
    return Parser.map (b := .text) (.sequenceAll letters.toArray) fun _ => name

/-- A text that no further character of its kind follows. -/
def delimited (lexer : Lexer) (name : String) (text : Parser .text) (letter : Parser .char) :
    Build (Parser .unit) := do
  let boundary ← Build.label letter.notFollowedBy ("end of " ++ name)
  return lexer.lexeme (← Build.attempt (text.andThen boundary))

def reserved (lexer : Lexer) (name : String) : Build (Parser .unit) := do
  lexer.delimited name (← lexer.caseString name) lexer.language.identLetter

def reservedOperator (lexer : Lexer) (name : String) : Build (Parser .unit) := do
  lexer.delimited name (← Build.string name) lexer.language.opLetter

end ParserKit.Lexer
