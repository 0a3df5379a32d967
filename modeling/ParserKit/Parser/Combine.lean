import ParserKit.Parser

/-!
Combinators that add nothing to the grammar but structure: they are made of the
parsers they are given and of parsers that have their outcome at once.
-/

namespace ParserKit.Parser

variable {a b c t : Ty}

def ret (value : t.Elem) : Parser t :=
  .atom (.ret value)

/-- Succeeds without a value. -/
def absent : Parser (.option t) :=
  ret (t := .option t) none

def fail (message : String) : Parser t :=
  .atom (.fail (.message message))

/-- Fails without saying what it expected. -/
def zero : Parser t :=
  .atom (.fail .nothing)

/-- Fails, reporting a text as unexpected at the current position. -/
def unexpected (found : String) : Parser t :=
  .atom (.unexpected found)

/-- Fails, reporting a text as unexpected at a given offset. -/
def reject (found : String) (offset : Nat) : Parser t :=
  .atom (.fail (.unexpected found offset))

def eof : Parser .unit :=
  .atom .eof

def getPosition : Parser .natural :=
  .atom .position

def setPosition (position : Nat) : Parser .unit :=
  .atom (.jump position)

def map (p : Parser a) (f : a.Elem → b.Elem) : Parser b :=
  .wrap (.convert fun value => .ok (f value)) p

/-- Like bind, for a function that makes its parsers without any others. -/
def followedBy (p : Parser a) (next : a.Elem → Parser b) : Parser b :=
  .bind p [] next

/-- Runs both and keeps the second value. -/
def andThen (first : Parser a) (second : Parser b) : Parser b :=
  .bind first second.owned fun _ => second

def lift2 (first : Parser a) (second : Parser b) (f : a.Elem → b.Elem → c.Elem) : Parser c :=
  .bind first second.owned fun x => second.map (f x)

def lift3 (first : Parser a) (second : Parser b) (third : Parser c)
    (f : a.Elem → b.Elem → c.Elem → t.Elem) : Parser t :=
  .bind first (Label.join second.owned third.owned) fun x =>
    .bind second third.owned fun y => third.map (f x y)

/-- Runs both and keeps the first value. -/
def skip (first : Parser a) (second : Parser b) : Parser a :=
  lift2 first second fun value _ => value

/-- Applies the function that the first delivers to the value of the second. -/
def apply (function : Parser (.function a b)) (argument : Parser a) : Parser b :=
  .bind function argument.owned fun f => argument.map f

def sequenceAll (items : Array (Parser (.option t))) : Parser (.list t) :=
  .sequence fun i : Fin items.size => items[i]

/-- Tries each parser in order; without any the choice fails. -/
def choiceAll : List (Parser t) → Parser t
  | [] => zero
  | [p] => p
  | p :: q :: rest => .choice p (choiceAll (q :: rest))

/-- The value, or a default when the parser fails without consuming. -/
def option (default : t.Elem) (p : Parser t) : Parser t :=
  .choice p (ret default)

def optional (p : Parser t) : Parser (.option t) :=
  .choice (p.map (b := .option t) some) absent

def orDefault [Inhabited t.Elem] (p : Parser t) : Parser t :=
  option default p

def between (opening : Parser a) (closing : Parser b) (p : Parser t) : Parser t :=
  andThen opening (skip p closing)

def withPosition (p : Parser t) : Parser (.spanned t) :=
  .wrap .spanned p

def notFollowedBy (p : Parser t) : Parser .unit :=
  .wrap .refuse p

/-- The values of a list that are present. -/
def presentValues (values : List (Option t.Elem)) : List t.Elem :=
  values.filterMap id

def manyPresent (p : Parser (.option t)) : Parser (.list t) :=
  map (a := .list (.option t)) (b := .list t) (.many p) presentValues

def many1Present (p : Parser (.option t)) : Parser (.list t) :=
  map (a := .list (.option t)) (b := .list t) (.many1 p) presentValues

def many1Chars (p : Parser .char) : Parser .text :=
  map (a := .list .char) (b := .text) (.many1 p) String.ofList

/-- At least one item, with a separator between two of them. -/
def sepBy1 (p : Parser t) (separator : Parser a) : Parser (.list t) :=
  lift2 (b := .list t) (c := .list t) p (.many (andThen separator p)) List.cons

def sepBy (p : Parser t) (separator : Parser a) : Parser (.list t) :=
  .choice (sepBy1 p separator) (ret (t := .list t) [])

end ParserKit.Parser
