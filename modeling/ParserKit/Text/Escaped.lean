import ParserKit.Text.Extending
import ParserKit.Text.Hidden

/-!
How a single character is quoted in a message: quotes, backslashes and the
common controls by a backslash, a character that cannot be shown on its own by
its code point, every other character by itself.
-/

namespace ParserKit.Text

/-- The code point in lower-case hexadecimal digits, without leading zeros. -/
def hexDigits (point : Nat) : String :=
  String.ofList (Nat.toDigits 16 point)

def codePointEscape (c : Char) : String :=
  "\\u\x7b" ++ hexDigits c.toNat ++ "\x7d"

def escaped (c : Char) : String :=
  match c.toNat with
  | 0x00 => "\\0"
  | 0x09 => "\\t"
  | 0x0a => "\\n"
  | 0x0d => "\\r"
  | 0x22 => "\\\x22"
  | 0x27 => "\\\x27"
  | 0x5c => "\\\\"
  | _ => if isExtending c || isHidden c then codePointEscape c else String.singleton c

end ParserKit.Text
