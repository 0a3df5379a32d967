import ParserKit.Proofs.Casing
import ParserKit.Proofs.Committing
import ParserKit.Proofs.Lexemes

/-!
Character and string literals decode exactly their grammar. The grammar says which texts
may follow a backslash, with the character that each stands for and what must not come
next, and of which pieces a literal is made. The parsers try the four families of escapes
in turn and commit to a family by its first character, except that the names of control
characters are tried one after the other.
-/

namespace ParserKit

open Build Lexer
open ParserKit.Parser (Texts Pieces)

namespace Lexer

/-- The value of a digit in any of the bases. -/
def digitValue (c : Char) : Nat :=
  if c.isDigit then c.toNat - 48 else if 'a' ≤ c then c.toNat - 87 else c.toNat - 55

def valueOf (base : Nat) (digits : List Char) : Nat :=
  digits.foldl (fun value c => value * base + digitValue c) 0

/-- One or more digits, which no other digit follows. -/
def Digits (isDigit : Char → Bool) (digits : List Char) (next : Option Char) : Prop :=
  digits ≠ [] ∧ (∀ c ∈ digits, isDigit c = true) ∧ ∀ c, next = some c → isDigit c = false

/-- The digits of a base up to sixteen. -/
def isDigitOf (base : Nat) (c : Char) : Bool :=
  (c.isDigit || 'a' ≤ c && c ≤ 'f' || 'A' ≤ c && c ≤ 'F') && digitValue c < base

/-- The letters that stand for a control character, and the characters that stand for
themselves. -/
inductive LetterEscape : Char → Char → Prop
  | bell : LetterEscape 'a' '\x07'
  | backspace : LetterEscape 'b' '\x08'
  | tab : LetterEscape 't' '\x09'
  | lineFeed : LetterEscape 'n' '\x0a'
  | verticalTab : LetterEscape 'v' '\x0b'
  | formFeed : LetterEscape 'f' '\x0c'
  | carriageReturn : LetterEscape 'r' '\x0d'
  | backslash : LetterEscape '\x5c' '\x5c'
  | quote : LetterEscape '\x22' '\x22'
  | apostrophe : LetterEscape '\x27' '\x27'

/-- The ASCII mnemonics up to the space, in the order of their codes. -/
def mnemonics : List String := [
  "NUL", "SOH", "STX", "ETX", "EOT", "ENQ", "ACK", "BEL", "BS", "HT", "LF", "VT", "FF", "CR",
  "SO", "SI", "DLE", "DC1", "DC2", "DC3", "DC4", "NAK", "SYN", "ETB", "CAN", "EM", "SUB", "ESC",
  "FS", "GS", "RS", "US", "SP"]

/-- An ASCII mnemonic and its character. -/
inductive Mnemonic : String → Char → Prop
  | listed {name : String} {c : Char} : mnemonics[c.toNat]? = some name → Mnemonic name c
  | delete : Mnemonic "DEL" '\x7f'

/-- What may follow a backslash, the character that it stands for, and what comes next. -/
inductive EscapeCode : Texts Char
  | letter {code c : Char} {next : Option Char} :
    LetterEscape code c → EscapeCode [code] c next
  | decimal {digits : List Char} {c : Char} {next : Option Char} :
    Digits (isDigitOf 10) digits next → valueOf 10 digits = c.toNat → EscapeCode digits c next
  | octal {digits : List Char} {c : Char} {next : Option Char} :
    Digits (isDigitOf 8) digits next → valueOf 8 digits = c.toNat → EscapeCode ('o' :: digits) c next
  | hexadecimal {digits : List Char} {c : Char} {next : Option Char} :
    Digits (isDigitOf 16) digits next → valueOf 16 digits = c.toNat →
    EscapeCode ('x' :: digits) c next
  /-- `SO` before an `H` would be another name. -/
  | name {name : String} {c : Char} {next : Option Char} :
    Mnemonic name c → (name = "SO" → next ≠ some 'H') → EscapeCode name.toList c next
  | control {letter : Char} {next : Option Char} :
    'A' ≤ letter → letter ≤ 'Z' → EscapeCode ['^', letter] (Char.ofNat (letter.toNat - 64)) next

/-- A piece of a string literal, with the character that it contributes. -/
inductive StringPiece : Texts (Option Char)
  | raw {c : Char} {next : Option Char} :
    c ≠ '\x22' → c ≠ '\x5c' → 0x1a < c.toNat → StringPiece [c] (some c) next
  | escape {code : List Char} {c : Char} {next : Option Char} :
    EscapeCode code c next → StringPiece ('\x5c' :: code) (some c) next
  | empty {next : Option Char} : StringPiece ['\x5c', '&'] none next
  | gap {blanks : List Char} {next : Option Char} : blanks ≠ [] →
    (∀ c ∈ blanks, Text.isBlank c = true) → StringPiece ('\x5c' :: blanks ++ ['\x5c']) none next

/-- A string literal with its value. -/
inductive StringLiteral : List Char → String → Prop
  | intro {body : List Char} {values : List (Option Char)} :
    Pieces StringPiece body values (some '\x22') →
    StringLiteral ('\x22' :: body ++ ['\x22']) (String.ofList (values.filterMap id))

/-- A character literal with its value. -/
inductive CharLiteral : List Char → Char → Prop
  | raw {c : Char} : c ≠ '\x27' → c ≠ '\x5c' → 0x1a < c.toNat → CharLiteral ['\x27', c, '\x27'] c
  | escape {code : List Char} {c : Char} : EscapeCode code c (some '\x27') →
    CharLiteral ('\x27' :: '\x5c' :: code ++ ['\x27']) c

section Codes

variable {base value code v : Nat} {c : Char} {digits : List Char}

theorem le_iff_toNat_le {x y : Char} : x ≤ y ↔ x.toNat ≤ y.toNat := by
  rw [Char.le_def, UInt32.le_iff_toNat_le]
  rfl

theorem isDigit_iff : c.isDigit = true ↔ 48 ≤ c.toNat ∧ c.toNat ≤ 57 := by
  simp only [Char.isDigit, Bool.and_eq_true, decide_eq_true_eq, ge_iff_le, UInt32.le_iff_toNat_le]
  rfl

theorem digitOf?_decimal (h : c.isDigit = true) : digitOf? 10 c = some (digitValue c) := by
  have hrange := isDigit_iff.1 h
  simp only [digitOf?, digitValue, h, if_true, Option.filter_some]
  exact if_pos (by simp; omega)

theorem digitOf?_octal (h : Text.isOctDigit c = true) : digitOf? 8 c = some (digitValue c) := by
  simp only [Text.isOctDigit, Bool.and_eq_true, decide_eq_true_eq, le_iff_toNat_le] at h
  have hrange : 48 ≤ c.toNat ∧ c.toNat ≤ 55 := h
  have hdigit : c.isDigit = true := isDigit_iff.2 ⟨hrange.1, by omega⟩
  simp only [digitOf?, digitValue, hdigit, if_true, Option.filter_some]
  exact if_pos (by simp; omega)

theorem digitOf?_hexadecimal (h : Text.isHexDigit c = true) :
    digitOf? 16 c = some (digitValue c) := by
  simp only [Text.isHexDigit, Bool.or_eq_true, Bool.and_eq_true, decide_eq_true_eq,
    le_iff_toNat_le] at h
  rcases h with (hdigit | hlower) | hupper
  · have hrange := isDigit_iff.1 hdigit
    simp only [digitOf?, digitValue, hdigit, if_true, Option.filter_some]
    exact if_pos (by simp; omega)
  · have hrange : 97 ≤ c.toNat ∧ c.toNat ≤ 102 := hlower
    have hdigit : ¬ c.isDigit = true := by
      rw [isDigit_iff]
      omega
    have hclass : 'a' ≤ c ∧ c ≤ 'f' := ⟨le_iff_toNat_le.2 hlower.1, le_iff_toNat_le.2 hlower.2⟩
    simp only [digitOf?, digitValue, hdigit, hclass, if_false, Bool.and_self, decide_true, if_true,
      Bool.false_eq_true, Option.filter_some]
    exact if_pos (by simp; omega)
  · have hrange : 65 ≤ c.toNat ∧ c.toNat ≤ 70 := hupper
    have hdigit : ¬ c.isDigit = true := by
      rw [isDigit_iff]
      omega
    have hlower : ¬ 'a' ≤ c := by
      rw [le_iff_toNat_le, Nat.not_le]
      exact Nat.lt_of_le_of_lt hrange.2 (by decide)
    have hclass : 'A' ≤ c ∧ c ≤ 'F' := ⟨le_iff_toNat_le.2 hupper.1, le_iff_toNat_le.2 hupper.2⟩
    simp only [digitOf?, digitValue, hdigit, hlower, hclass, if_false, Bool.and_self, decide_true,
      decide_false, Bool.false_and, if_true, Bool.false_eq_true, Option.filter_some]
    exact if_pos (by simp; omega)

theorem isDigit_eq : Char.isDigit = isDigitOf 10 := by
  funext c
  rw [Bool.eq_iff_iff]
  simp only [isDigitOf, digitValue, Bool.or_eq_true, Bool.and_eq_true, decide_eq_true_eq, isDigit_iff,
    le_iff_toNat_le]
  have hlower : 'a'.toNat = 97 ∧ 'f'.toNat = 102 := ⟨rfl, rfl⟩
  have hupper : 'A'.toNat = 65 ∧ 'F'.toNat = 70 := ⟨rfl, rfl⟩
  split_ifs <;> omega

theorem isOctDigit_eq : Text.isOctDigit = isDigitOf 8 := by
  funext c
  rw [Bool.eq_iff_iff]
  simp only [Text.isOctDigit, isDigitOf, digitValue, Bool.or_eq_true, Bool.and_eq_true,
    decide_eq_true_eq, isDigit_iff, le_iff_toNat_le]
  have hdigits : '0'.toNat = 48 ∧ '7'.toNat = 55 := ⟨rfl, rfl⟩
  have hlower : 'a'.toNat = 97 ∧ 'f'.toNat = 102 := ⟨rfl, rfl⟩
  have hupper : 'A'.toNat = 65 ∧ 'F'.toNat = 70 := ⟨rfl, rfl⟩
  split_ifs <;> omega

theorem isHexDigit_eq : Text.isHexDigit = isDigitOf 16 := by
  funext c
  rw [Bool.eq_iff_iff]
  simp only [Text.isHexDigit, isDigitOf, digitValue, Bool.or_eq_true, Bool.and_eq_true,
    decide_eq_true_eq, isDigit_iff, le_iff_toNat_le]
  have hlower : 'a'.toNat = 97 ∧ 'f'.toNat = 102 := ⟨rfl, rfl⟩
  have hupper : 'A'.toNat = 65 ∧ 'F'.toNat = 70 := ⟨rfl, rfl⟩
  split_ifs <;> omega

theorem letterEscape_iff {code c : Char} : LetterEscape code c ↔ (code, c) ∈ letterEscapes := by
  constructor
  · intro h
    cases h <;> decide
  · intro h
    simp only [letterEscapes, List.mem_cons, List.not_mem_nil, or_false, Prod.mk.injEq] at h
    rcases h with h | h | h | h | h | h | h | h | h | h <;> obtain ⟨rfl, rfl⟩ := h <;> constructor

theorem mnemonic_iff {name : String} {c : Char} : Mnemonic name c ↔ (name, c) ∈ controlNames := by
  constructor
  · intro h
    cases h with
    | delete => decide
    | listed hname =>
      have hall : ∀ n < mnemonics.length, ∀ name, mnemonics[n]? = some name →
          (name, Char.ofNat n) ∈ controlNames := by decide
      obtain ⟨hlt, -⟩ := List.getElem?_eq_some_iff.1 hname
      simpa only [Char.ofNat_toNat] using hall c.toNat hlt name hname
  · have hall : ∀ entry ∈ controlNames, entry = ("DEL", '\x7f') ∨
        mnemonics[entry.2.toNat]? = some entry.1 := by decide
    intro h
    rcases hall _ h with hentry | hentry
    · obtain ⟨rfl, rfl⟩ := Prod.mk.inj hentry
      exact .delete
    · exact .listed hentry

/-- Appending digits never makes a number smaller. -/
theorem le_foldl_digits (hbase : 1 ≤ base) (value : Nat) (digits : List Char) :
    value ≤ digits.foldl (fun value c => value * base + digitValue c) value := by
  induction digits generalizing value with
  | nil => exact Nat.le_refl value
  | cons c digits ih =>
    calc value ≤ value * base := Nat.le_mul_of_pos_right value hbase
      _ ≤ value * base + digitValue c := Nat.le_add_right _ _
      _ ≤ _ := ih _

theorem foldlM_appendDigit?_eq_some_iff (hbase : 1 ≤ base)
    (hdigits : ∀ c ∈ digits, digitOf? base c = some (digitValue c)) (hvalue : value < Index.limit) :
    digits.foldlM (appendDigit? base) value = some v ↔
      digits.foldl (fun value c => value * base + digitValue c) value = v ∧ v < Index.limit := by
  induction digits generalizing value with
  | nil =>
    rw [List.foldlM_nil, List.foldl_nil]
    constructor
    · rintro ⟨⟩
      exact ⟨rfl, hvalue⟩
    · rintro ⟨rfl, -⟩
      rfl
  | cons c digits ih =>
    obtain ⟨hc, hdigits⟩ := List.forall_mem_cons.1 hdigits
    rw [List.foldlM_cons, List.foldl_cons]
    by_cases hlonger : value * base + digitValue c < Index.limit
    · have happend : appendDigit? base value c = some (value * base + digitValue c) := by
        simp [appendDigit?, hc, hlonger]
      rw [happend]
      exact ih hdigits hlonger
    · have happend : appendDigit? base value c = none := by
        simp [appendDigit?, hc, hlonger]
      have hle := le_foldl_digits hbase (value * base + digitValue c) digits
      rw [happend]
      constructor
      · rintro ⟨⟩
      · rintro ⟨rfl, hlimit⟩
        omega

/-- A number is collected as long as it is below the limit, which its beginnings then are. -/
theorem ofDigits?_eq_some_iff (hbase : 1 ≤ base)
    (hdigits : ∀ c ∈ digits, digitOf? base c = some (digitValue c)) :
    ofDigits? base digits = some v ↔ valueOf base digits = v ∧ v < Index.limit :=
  foldlM_appendDigit?_eq_some_iff hbase hdigits (by decide)

theorem ofCode?_eq_some_iff : ofCode? code = some c ↔ code = c.toNat := by
  unfold ofCode?
  split
  · next hvalid =>
    rw [Option.some.injEq]
    constructor
    · rintro rfl
      exact (Text.toNat_ofNat hvalid).symm
    · rintro rfl
      exact Char.ofNat_toNat c
  · next hinvalid =>
    simp only [reduceCtorEq, false_iff]
    rintro rfl
    exact hinvalid c.valid

theorem controlOf_eq (h : c.isUpper = true) : controlOf c = .ok (Char.ofNat (c.toNat - 64)) := by
  have hrange : 65 ≤ c.toNat ∧ c.toNat ≤ 90 := by
    obtain ⟨hfirst, hlast⟩ : 'A' ≤ c ∧ c ≤ 'Z' := of_decide_eq_true h
    exact ⟨le_iff_toNat_le.1 hfirst, le_iff_toNat_le.1 hlast⟩
  have hsub : Word.sub (c.toNat % 256) 65 = .ok (c.toNat % 256 - 65) := Word.sub_eq_ok (by omega)
  have hadd : Word.add 8 (c.toNat % 256 - 65) 1 = .ok (c.toNat % 256 - 65 + 1) := by
    refine Word.add_eq_ok ?_
    have hlimit : Word.limit 8 = 256 := by decide
    omega
  have hvalue : c.toNat % 256 - 65 + 1 = c.toNat - 64 := by omega
  simp only [controlOf, hsub, hadd, bind, Except.bind, hvalue]
  rfl

end Codes

section Families

/-- A number that is below the limit. -/
def NumberText (isDigit : Char → Bool) (base : Nat) : Texts Nat := fun text v next =>
  Digits isDigit text next ∧ valueOf base text = v ∧ v < Index.limit

/-- The four families of escapes. -/
def LetterText : Texts Char := fun text c _ =>
  ∃ code, text = [code] ∧ (code, c) ∈ letterEscapes

def CodeText : Texts Char := fun text c next =>
  ∃ code, (NumberText Char.isDigit 10 text code next ∨
    ((∃ tail, text = 'o' :: tail ∧ NumberText Text.isOctDigit 8 tail code next) ∨
      ∃ tail, text = 'x' :: tail ∧ NumberText Text.isHexDigit 16 tail code next)) ∧
    ofCode? code = some c

def NameText : Texts Char := fun text c next =>
  ∃ name, text = name.toList ∧ (name, c) ∈ controlNames ∧ (name = "SO" → next ≠ some 'H')

def ControlText : Texts Char := fun text c _ =>
  ∃ letter, text = ['^', letter] ∧ letter.isUpper = true ∧ c = Char.ofNat (letter.toNat - 64)

theorem codeText_iff {text : List Char} {c : Char} {next : Option Char} :
    CodeText text c next ↔
      (Digits (isDigitOf 10) text next ∧ valueOf 10 text = c.toNat) ∨
      (∃ tail, text = 'o' :: tail ∧ Digits (isDigitOf 8) tail next ∧ valueOf 8 tail = c.toNat) ∨
      ∃ tail, text = 'x' :: tail ∧ Digits (isDigitOf 16) tail next ∧ valueOf 16 tail = c.toNat := by
  have hlimit : c.toNat < Index.limit := Nat.lt_trans c.val.toNat_lt (by decide)
  simp only [CodeText, NumberText, ofCode?_eq_some_iff, isDigit_eq, isOctDigit_eq, isHexDigit_eq]
  constructor
  · rintro ⟨_, ⟨hdigits, hvalue, -⟩ | ⟨tail, htext, hdigits, hvalue, -⟩ |
      ⟨tail, htext, hdigits, hvalue, -⟩, rfl⟩
    · exact .inl ⟨hdigits, hvalue⟩
    · exact .inr (.inl ⟨tail, htext, hdigits, hvalue⟩)
    · exact .inr (.inr ⟨tail, htext, hdigits, hvalue⟩)
  · rintro (⟨hdigits, hvalue⟩ | ⟨tail, htext, hdigits, hvalue⟩ | ⟨tail, htext, hdigits, hvalue⟩)
    · exact ⟨_, .inl ⟨hdigits, hvalue, hlimit⟩, rfl⟩
    · exact ⟨_, .inr (.inl ⟨tail, htext, hdigits, hvalue, hlimit⟩), rfl⟩
    · exact ⟨_, .inr (.inr ⟨tail, htext, hdigits, hvalue, hlimit⟩), rfl⟩

theorem escapeCode_iff {text : List Char} {c : Char} {next : Option Char} :
    EscapeCode text c next ↔
      LetterText text c next ∨ CodeText text c next ∨ NameText text c next ∨
        ControlText text c next := by
  rw [codeText_iff]
  constructor
  · intro h
    cases h with
    | letter hletter => exact .inl ⟨_, rfl, letterEscape_iff.1 hletter⟩
    | decimal hdigits hvalue => exact .inr (.inl (.inl ⟨hdigits, hvalue⟩))
    | octal hdigits hvalue => exact .inr (.inl (.inr (.inl ⟨_, rfl, hdigits, hvalue⟩)))
    | hexadecimal hdigits hvalue => exact .inr (.inl (.inr (.inr ⟨_, rfl, hdigits, hvalue⟩)))
    | name hname hnext => exact .inr (.inr (.inl ⟨_, rfl, mnemonic_iff.1 hname, hnext⟩))
    | control hfirst hlast =>
      exact .inr (.inr (.inr ⟨_, rfl, decide_eq_true ⟨hfirst, hlast⟩, rfl⟩))
  · rintro (⟨code, rfl, hmem⟩ | (⟨hdigits, hvalue⟩ | ⟨tail, rfl, hdigits, hvalue⟩ |
      ⟨tail, rfl, hdigits, hvalue⟩) | ⟨name, rfl, hmem, hnext⟩ | ⟨letter, rfl, hupper, rfl⟩)
    · exact .letter (letterEscape_iff.2 hmem)
    · exact .decimal hdigits hvalue
    · exact .octal hdigits hvalue
    · exact .hexadecimal hdigits hvalue
    · exact .name (mnemonic_iff.2 hmem) hnext
    · obtain ⟨hfirst, hlast⟩ := of_decide_eq_true hupper
      exact .control hfirst hlast

/-- The first characters of the escapes of one letter, and of the names of control characters. -/
def beginsLetter (c : Char) : Bool :=
  (letterEscapes.map fun (code, c) => ([code], c)).any fun entry => entry.1.head? == some c

def beginsName (c : Char) : Bool :=
  (controlNames.map fun (name, c) => (name.toList, c)).any fun entry => entry.1.head? == some c

def beginsNumber (c : Char) : Bool :=
  c.isDigit || (c == 'o' || c == 'x')

/-- What an escape may begin with. -/
def beginsEscape (c : Char) : Bool :=
  beginsLetter c || (beginsNumber c || (beginsName c || c == '^'))

theorem mem_of_any_head {table : List (List Char × Char)} {c : Char}
    (h : (table.any fun entry => entry.1.head? == some c) = true) :
    c ∈ table.filterMap fun entry => entry.1.head? := by
  obtain ⟨entry, hentry, hhead⟩ := List.any_eq_true.1 h
  exact List.mem_filterMap.2 ⟨entry, hentry, by simpa using hhead⟩

/-- A class without the characters of a list, which is checked one by one. -/
theorem eq_false_of_all {chars : List Char} {f : Char → Bool}
    (h : (chars.all fun c => !f c) = true) : ∀ c ∈ chars, f c = false := by
  simpa using h

theorem not_begins_of_beginsLetter {c : Char} (h : beginsLetter c = true) :
    (beginsNumber c || (beginsName c || c == '^')) = false := by
  have hall : ∀ c ∈ (letterEscapes.map fun (code, c) => ([code], c)).filterMap
      fun entry => entry.1.head?, (beginsNumber c || (beginsName c || c == '^')) = false :=
    eq_false_of_all (by decide)
  exact hall c (mem_of_any_head h)

theorem not_begins_of_beginsNumber {c : Char} (h : beginsNumber c = true) :
    (beginsName c || c == '^') = false := by
  have hall : ∀ c ∈ (controlNames.map fun (name, c) => (name.toList, c)).filterMap
      fun entry => entry.1.head?, beginsNumber c = false :=
    eq_false_of_all (by decide)
  have hmark : c ≠ '^' := by
    rintro rfl
    exact absurd h (by decide)
  have hname : beginsName c ≠ true := fun hname => by
    simp [hall c (mem_of_any_head hname)] at h
  simp [hmark, hname]

theorem not_begins_of_beginsName {c : Char} (h : beginsName c = true) : (c == '^') = false := by
  have hmark : c ≠ '^' := by
    rintro rfl
    exact absurd h (by decide)
  simpa using hmark

/-- Of two names in the table, the earlier does not begin the later, and the later begins the
earlier only if it is `SO`. -/
theorem controlNames_pairwise :
    (controlNames.map fun (name, c) => (name.toList, c)).Pairwise fun entry entry' =>
      ¬ entry.1 <+: entry'.1 ∧
        (entry'.1 <+: entry.1 → entry.1 = "SOH".toList ∧ entry'.1 = "SO".toList) := by
  decide

end Families

section Escapes

variable {input : Array Char} {scope : Scope} {level : Nat}

theorem digits_insists {digit : Parser .char} {isDigit : Char → Bool} {base : Nat}
    (hdigit : digit.Accepts input scope isDigit) (hbase : 1 ≤ base)
    (hclass : ∀ c, isDigit c = true → digitOf? base c = some (digitValue c)) :
    (digits base digit).Insists input scope isDigit (NumberText isDigit base) := by
  refine (hdigit.many1_insists.followedBy (b := .natural) (f := ofDigits? base) ?_ ?_).congr ?_
  · intro digits v hvalue
    rw [hvalue]
    rfl
  · intro digits hvalue
    rw [hvalue]
    exact ⟨tooLarge, rfl⟩
  · intro text v next
    constructor
    · rintro ⟨⟨hne, hall, hnext⟩, hvalue⟩
      exact ⟨text, ⟨rfl, hne, hall, hnext⟩,
        (ofDigits?_eq_some_iff hbase fun c hc => hclass c (hall c hc)).2 hvalue⟩
    · rintro ⟨_, ⟨rfl, hne, hall, hnext⟩, hvalue⟩
      exact ⟨⟨hne, hall, hnext⟩,
        (ofDigits?_eq_some_iff hbase fun c hc => hclass c (hall c hc)).1 hvalue⟩

variable (hsize : input.size < Index.limit)

include hsize

theorem decimal_insists : Yields level decimal fun _ p => ∀ scope,
    p.Insists input scope Char.isDigit (NumberText Char.isDigit 10) :=
  (classOf_accepts hsize _ _).bind fun _ => .pure fun _ hdigit scope =>
    digits_insists (hdigit scope) (by decide) fun _ => digitOf?_decimal

theorem codeEscape_decides : Yields level codeEscape fun _ p => ∀ scope,
    p.Decides input scope beginsNumber CodeText := by
  refine (decimal_insists hsize).bind fun decimal => (char_accepts hsize 'o').bind fun o => ?_
  refine (classOf_accepts hsize _ _).bind fun octDigit => (char_accepts hsize 'x').bind fun x => ?_
  refine (classOf_accepts hsize _ _).bind fun hexDigit => .pure ?_
  intro names hhexDigit hx hoctDigit ho hdecimal scope
  have hoctDigits := digits_insists (hoctDigit scope) (by decide) fun _ => digitOf?_octal
  have hhexDigits := digits_insists (hhexDigit scope) (by decide) fun _ => digitOf?_hexadecimal
  have hoctal := hoctDigits.decides.behind (ho scope)
  have hhexadecimal := hhexDigits.decides.behind (hx scope)
  have hmarks : ∀ c, (c == 'o') = true → (c == 'x') = false := by
    intro c hc
    obtain rfl : c = 'o' := by simpa using hc
    decide
  have hdigits : ∀ c : Char, c.isDigit = true → (c == 'o' || c == 'x') = false := by
    intro c hc
    have hrange := isDigit_iff.1 hc
    have ho : c ≠ 'o' := fun h => absurd hrange (by rw [h]; decide)
    have hx : c ≠ 'x' := fun h => absurd hrange (by rw [h]; decide)
    simp [ho, hx]
  have hnumber := (hdecimal scope).decides.choice (hoctal.choice hhexadecimal hmarks) hdigits
  refine hnumber.followedBy (b := .char) (f := ofCode?) ?_ ?_
  · intro code c hc
    simp only [hc]
  · intro code hcode
    exact ⟨"valid character code", by simp only [hcode]⟩

theorem letterEscape_decides : Yields level letterEscape fun _ p => ∀ scope,
    p.Decides input scope beginsLetter LetterText := by
  have hentry : ∀ entry : Char × Char, Yields level
      (do return (← Build.char entry.1).map (b := .char) fun _ => entry.2)
      fun _ p => ∀ scope, p.Takes input scope [entry.1] entry.2 :=
    fun entry => (char_accepts hsize entry.1).bind fun p => .pure fun _ hp scope =>
      (hp scope).takes.map _
  refine (Yields.forall₂ hentry letterEscapes).bind fun escapes => .pure fun names h scope => ?_
  refine Parser.choiceAll_decides (List.forall₂_map_right_iff.2 (h.imp fun _ _ hp => hp scope))
    (by decide) ?_ ?_
  · rintro _ c next ⟨code, rfl, hmem⟩
    obtain ⟨before, after, hsplit⟩ := List.append_of_mem hmem
    refine ⟨before.map _, after.map _, by rw [hsplit, List.map_append, List.map_cons], ?_⟩
    rintro entry hentry rest - hbegins
    obtain ⟨⟨code', c'⟩, hbefore, rfl⟩ := List.mem_map.1 hentry
    obtain ⟨rfl, -⟩ := List.cons_prefix_cons.1 hbegins
    have hnodup : (letterEscapes.map Prod.fst).Nodup := by decide
    rw [hsplit, List.map_append, List.map_cons] at hnodup
    exact (List.nodup_append.1 hnodup).2.2 code' (List.mem_map_of_mem hbefore) code'
      List.mem_cons_self rfl
  · intro before text c after rest htable _
    have hmem : (text, c) ∈ letterEscapes.map fun (code, c) => ([code], c) := by simp [htable]
    obtain ⟨⟨code, c'⟩, hcode, heq⟩ := List.mem_map.1 hmem
    obtain ⟨rfl, rfl⟩ := Prod.mk.inj heq
    exact ⟨code, rfl, hcode⟩

theorem nameEscape_decides : Yields level nameEscape fun _ p => ∀ scope,
    p.Decides input scope beginsName NameText := by
  have hentry : ∀ entry : String × Char, Yields level
      (do Build.attempt ((← Build.string entry.1).map (b := .char) fun _ => entry.2))
      fun _ p => ∀ scope, p.Takes input scope entry.1.toList entry.2 :=
    fun entry => (string_spells hsize entry.1).bind fun p => memo_meets fun label hp scope =>
      ((hp scope).attempt_map _).memo label
  refine (Yields.forall₂ hentry controlNames).bind fun escapes => .pure fun names h scope => ?_
  refine Parser.choiceAll_decides (List.forall₂_map_right_iff.2 (h.imp fun _ _ hp => hp scope))
    (by decide) ?_ ?_
  · rintro _ c next ⟨name, rfl, hmem, hnext⟩
    obtain ⟨before, after, htable⟩ := List.append_of_mem
      (List.mem_map_of_mem (f := fun (name, c) => (name.toList, c)) hmem)
    refine ⟨before, after, htable, ?_⟩
    rintro ⟨key, c'⟩ hbefore rest rfl hbegins
    have hpairwise := controlNames_pairwise
    rw [htable] at hpairwise
    obtain ⟨hearlier, hlater⟩ :=
      (List.pairwise_append.1 hpairwise).2.2 _ hbefore _ List.mem_cons_self
    rcases List.prefix_or_prefix_of_prefix hbegins (List.prefix_append _ _) with h | h
    · exact hearlier h
    · obtain ⟨hkey, hname⟩ := hlater h
      obtain rfl : name = "SO" := String.toList_injective hname
      rw [show key = ['S', 'O', 'H'] from hkey] at hbegins
      obtain ⟨-, hbegins⟩ := List.cons_prefix_cons.1 hbegins
      obtain ⟨-, later, hlater⟩ := List.cons_prefix_cons.1 hbegins
      obtain rfl : 'H' :: later = rest := hlater
      exact hnext rfl rfl
  · intro before text c after rest htable hbefore
    have hmem : (text, c) ∈ controlNames.map fun (name, c) => (name.toList, c) := by simp [htable]
    obtain ⟨⟨name, c'⟩, hname, heq⟩ := List.mem_map.1 hmem
    obtain ⟨rfl, rfl⟩ := Prod.mk.inj heq
    refine ⟨name, rfl, hname, ?_⟩
    rintro rfl hnext
    obtain ⟨later, rfl⟩ := List.head?_eq_some_iff.1 hnext
    -- the longer name comes first in the table
    have hlonger : ("SOH".toList, '\x01') ∈ before := by
      have hpairwise := controlNames_pairwise
      have hmem : ("SOH".toList, '\x01') ∈ controlNames.map fun (name, c) => (name.toList, c) := by
        decide
      rw [htable] at hpairwise hmem
      rcases List.mem_append.1 hmem with hbefore | hafter
      · exact hbefore
      · exact absurd ⟨['H'], rfl⟩
          ((List.pairwise_cons.1 (List.pairwise_append.1 hpairwise).2.1).1 _
            ((List.mem_cons.1 hafter).resolve_left fun h => absurd (Prod.mk.inj h).1 (by decide))).1
    exact hbefore _ hlonger ⟨later, rfl⟩

theorem controlEscape_decides : Yields level controlEscape fun _ p => ∀ scope,
    p.Decides input scope (· == '^') ControlText := by
  refine (classOf_accepts hsize _ _).bind fun letter => (char_accepts hsize '^').bind fun mark => ?_
  refine .pure fun names hmark hletter scope => ?_
  have hcontrol := (hletter scope).decides.convert (b := .char) (f := controlOf)
    (g := fun letter => Char.ofNat (letter.toNat - 64))
    fun _ _ _ h => controlOf_eq h.2
  refine (hcontrol.behind (hmark scope)).congr fun text c next => ?_
  constructor
  · rintro ⟨letter, rfl, hupper, rfl⟩
    exact ⟨[letter], rfl, letter, ⟨rfl, hupper⟩, rfl⟩
  · rintro ⟨_, rfl, letter, ⟨rfl, hupper⟩, rfl⟩
    exact ⟨letter, rfl, hupper, rfl⟩

theorem escapeCode_decides : Yields level escapeCode fun _ p => ∀ scope,
    p.Decides input scope beginsEscape EscapeCode := by
  refine (letterEscape_decides hsize).bind fun letter => (codeEscape_decides hsize).bind fun code => ?_
  refine (nameEscape_decides hsize).bind fun name => (controlEscape_decides hsize).bind fun control => ?_
  refine (label_decides _ _).mono fun names q hq hcontrol hname hcode hletter scope => ?_
  have hcodes := (hletter scope).choice ((hcode scope).choice
    ((hname scope).choice (hcontrol scope) fun _ => not_begins_of_beginsName)
    fun _ => not_begins_of_beginsNumber) fun _ => not_begins_of_beginsLetter
  exact hq (hcodes.congr fun _ _ _ => escapeCode_iff)

end Escapes

/-- A character that stands for itself. -/
theorem isRaw_iff {quote c : Char} :
    isRaw quote c = true ↔ c ≠ quote ∧ c ≠ '\x5c' ∧ 0x1a < c.toNat := by
  have hlt : '\x1a' < c ↔ 0x1a < c.toNat := by
    rw [Char.lt_def, UInt32.lt_iff_toNat_lt]
    rfl
  simp only [isRaw, Bool.and_eq_true, bne_iff_ne, decide_eq_true_eq, hlt, and_assoc]

theorem not_isRaw_of_backslash {quote c : Char} (h : isRaw quote c = true) :
    (c == '\x5c') = false := by
  simpa using (isRaw_iff.1 h).2.1

theorem not_isBlank_of_begins {c : Char} (h : (c == '&' || beginsEscape c) = true) :
    Text.isBlank c = false := by
  have hletter : ∀ c ∈ (letterEscapes.map fun (code, c) => ([code], c)).filterMap
      fun entry => entry.1.head?, Text.isBlank c = false :=
    eq_false_of_all (by decide +kernel)
  have hname : ∀ c ∈ (controlNames.map fun (name, c) => (name.toList, c)).filterMap
      fun entry => entry.1.head?, Text.isBlank c = false :=
    eq_false_of_all (by decide +kernel)
  have hdigit : ∀ n ∈ List.range' 48 10, Text.isBlank (Char.ofNat n) = false := by
    decide +kernel
  have hmark : ∀ c ∈ ['&', 'o', 'x', '^'], Text.isBlank c = false :=
    eq_false_of_all (by decide +kernel)
  simp only [beginsEscape, beginsNumber, Bool.or_eq_true, beq_iff_eq] at h
  rcases h with rfl | h | (h | rfl | rfl) | h | rfl
  · exact hmark _ (by simp)
  · exact hletter c (mem_of_any_head h)
  · have hrange := isDigit_iff.1 h
    have hblank := hdigit c.toNat (List.mem_range'_1.2 (by omega))
    rwa [Char.ofNat_toNat] at hblank
  · exact hmark _ (by simp)
  · exact hmark _ (by simp)
  · exact hname c (mem_of_any_head h)
  · exact hmark _ (by simp)

theorem not_begins_of_isBlank {c : Char} (h : Text.isBlank c = true) :
    (c == '&' || beginsEscape c) = false := by
  by_contra hother
  have hblank := not_isBlank_of_begins (Bool.eq_true_of_not_eq_false hother)
  rw [h] at hblank
  cases hblank

theorem not_begins_of_ampersand {c : Char} (h : (c == '&') = true) : beginsEscape c = false := by
  obtain rfl : c = '&' := by simpa using h
  decide

section Quotes

variable {input : Array Char} {scope : Scope} (hsize : input.size < Index.limit)

include hsize

/-- The parser that a character literal is, before the white space. -/
theorem charLiteral_decides (lexer : Lexer) : Yields 0 lexer.charLiteral fun _ p =>
    ∃ q : Parser .char, p = lexer.lexeme q ∧ ∀ scope,
      q.Decides input scope (· == '\x27') fun text c _ => CharLiteral text c := by
  refine (classOf_accepts hsize _ _).bind fun letter => (char_accepts hsize '\x5c').bind fun back => ?_
  refine (escapeCode_decides hsize).bind fun escape => ?_
  refine (char_accepts hsize '\x27').bind fun quote => (label_accepts _ _).bind fun opening => ?_
  refine (char_accepts hsize '\x27').bind fun quote' => (label_accepts _ _).bind fun closing => ?_
  refine .pure fun names hclosing hquote' hopening hquote hescape hback hletter => ?_
  refine ⟨_, rfl, fun scope => ?_⟩
  have hcharacter := (hletter scope).decides.choice ((hescape scope).behind (hback scope))
    fun _ => not_isRaw_of_backslash
  refine ((hcharacter.before (hclosing (hquote' scope))).behind (hopening (hquote scope))).congr
    fun text c next => ?_
  constructor
  · rintro (⟨hquote, hback, hprintable⟩ | hcode)
    · exact ⟨_, rfl, [c], rfl, .inl ⟨rfl, isRaw_iff.2 ⟨hquote, hback, hprintable⟩⟩⟩
    · exact ⟨_, rfl, _, rfl, .inr ⟨_, rfl, hcode⟩⟩
  · rintro ⟨_, rfl, _, rfl, ⟨rfl, hraw⟩ | ⟨code, rfl, hcode⟩⟩
    · obtain ⟨hquote, hback, hprintable⟩ := isRaw_iff.1 hraw
      exact .raw hquote hback hprintable
    · exact .escape hcode

omit hsize in
/-- The alternatives for a piece of a string are the pieces of the grammar. -/
theorem stringPiece_decides {letter back gapEnd space empty code : Parser .char}
    (hletter : letter.Accepts input scope (isRaw '\x22'))
    (hback : back.Accepts input scope (· == '\x5c'))
    (hgapEnd : gapEnd.Accepts input scope (· == '\x5c'))
    (hspace : space.Accepts input scope Text.isBlank)
    (hempty : empty.Accepts input scope (· == '&'))
    (hcode : code.Decides input scope beginsEscape EscapeCode) :
    (Parser.choice (letter.map (b := .option .char) some) (back.andThen (.choiceAll [
      (space.many1.andThen gapEnd).map (b := .option .char) fun _ => none,
      empty.map (b := .option .char) fun _ => none,
      code.map (b := .option .char) some]))).Decides input scope
        (fun c => isRaw '\x22' c || c == '\x5c') StringPiece := by
  have hgap := (hspace.many1_decides.andThen hgapEnd.decides).map (b := .option .char) fun _ => none
  have hnothing := hempty.decides.map (b := .option .char) fun _ => none
  have hescape := hgap.choice (hnothing.choice (hcode.map (b := .option .char) some)
    fun _ => not_begins_of_ampersand) fun _ => not_begins_of_isBlank
  refine ((hletter.decides.map (b := .option .char) some).choice (hescape.behind hback)
    fun _ => not_isRaw_of_backslash).congr fun text v next => ⟨?_, ?_⟩
  · intro h
    cases h with
    | raw hquote hback hprintable =>
      exact .inl ⟨_, ⟨rfl, isRaw_iff.2 ⟨hquote, hback, hprintable⟩⟩, rfl⟩
    | escape hcode => exact .inr ⟨_, rfl, .inr (.inr ⟨_, hcode, rfl⟩)⟩
    | empty => exact .inr ⟨_, rfl, .inr (.inl ⟨'&', ⟨rfl, rfl⟩, rfl⟩)⟩
    | @gap blanks _ hne hblanks =>
      refine .inr ⟨_, rfl, .inl ⟨'\x5c', ⟨blanks, blanks, ['\x5c'], rfl, ?_, rfl, rfl⟩, rfl⟩⟩
      refine ⟨rfl, hne, hblanks, fun c hc => ?_⟩
      obtain rfl : '\x5c' = c := Option.some.inj hc
      decide +kernel
  · rintro (⟨c, ⟨rfl, hraw⟩, rfl⟩ | ⟨tail, rfl, ⟨c, ⟨blanks, _, _, rfl, ⟨rfl, hne, hblanks, -⟩,
      rfl, hc⟩, rfl⟩ | ⟨c, ⟨rfl, hc⟩, rfl⟩ | ⟨c, hcode, rfl⟩⟩)
    · obtain ⟨hquote, hback, hprintable⟩ := isRaw_iff.1 hraw
      exact .raw hquote hback hprintable
    · obtain rfl : c = '\x5c' := by simpa using hc
      exact .gap hne hblanks
    · obtain rfl : c = '&' := by simpa using hc
      exact .empty
    · exact .escape hcode

/-- The parser that a string literal is, before the white space. -/
theorem stringLiteral_decides (lexer : Lexer) : Yields 0 lexer.stringLiteral fun _ p =>
    ∃ q : Parser .text, p = lexer.lexeme q ∧ ∀ scope,
      q.Decides input scope (· == '\x22') fun text s _ => StringLiteral text s := by
  refine (classOf_accepts hsize _ _).bind fun letter => ?_
  refine (char_accepts hsize '\x5c').bind fun back => (label_accepts _ _).bind fun gapEnd => ?_
  refine (classOf_accepts hsize _ _).bind fun space => (char_accepts hsize '&').bind fun empty => ?_
  refine (escapeCode_decides hsize).bind fun code => (char_accepts hsize '\x5c').bind fun back' => ?_
  refine (char_accepts hsize '\x22').bind fun quote => (label_accepts _ _).bind fun opening => ?_
  refine (char_accepts hsize '\x22').bind fun quote' => (label_accepts _ _).bind fun closing => ?_
  refine .pure fun names hclosing hquote' hopening hquote hback' hcode hempty hspace hgapEnd hback
    hletter => ⟨_, rfl, fun scope => ?_⟩
  have hitem := stringPiece_decides (hletter scope) (hback' scope) (hgapEnd (hback scope))
    (hspace scope) (hempty scope) (hcode scope)
  have hapart : ∀ c, (c == '\x22') = true → (isRaw '\x22' c || c == '\x5c') = false := by
    intro c hc
    obtain rfl : c = '\x22' := by simpa using hc
    decide
  have hbody := hitem.pieces_lift2 (a := .text) (c := .text) (hclosing (hquote' scope)).decides hapart
    (fun values => String.ofList (Parser.presentValues (t := .char) values))
    (fun hmany => (hmany.map (b := .list .char) Parser.presentValues).map (b := .text) String.ofList)
    (fun hmany => (hmany.map _).map _) fun s _ => s
  refine (hbody.behind (hopening (hquote scope))).congr fun text s next => ⟨?_, ?_⟩
  · rintro ⟨hpieces⟩
    exact ⟨_, rfl, _, _, ['\x22'], '\x22', rfl, hpieces, ⟨rfl, rfl⟩, rfl⟩
  · rintro ⟨_, rfl, body, values, _, c, rfl, hpieces, ⟨rfl, hc⟩, rfl⟩
    obtain rfl : c = '\x22' := by simpa using hc
    exact .intro hpieces

end Quotes

section WholeRuns

variable {t : Ty} {input : Array Char} {language : Language} {start : Nat}

/-- A lexeme succeeds exactly if one of its texts lies ahead and white space succeeds behind
that. -/
theorem lexeme_shows_iff {lexer : Lexer} {q : Parser t} {begins : Char → Bool}
    {texts : Texts t.Elem} (hq : q.Decides input Scope.root begins texts)
    (hlexeme : (lexer.lexeme q).WellLabelled) (hwhiteSpace : lexer.whiteSpace.WellLabelled)
    (hskips : ∀ i ≤ input.size, lexer.whiteSpace.Commits input Scope.root i)
    (hstart : start ≤ input.size) (memoize : Bool) (v : t.Elem) (stop : Nat) :
    (lexer.lexeme q).ShowsFrom input memoize start (.ok (.success v, stop)) ↔
      ∃ text rest, input.toList.drop start = text ++ rest ∧ texts text v rest.head? ∧
        lexer.whiteSpace.ShowsFrom input memoize (start + text.length)
          (.ok (.success (), stop)) := by
  have hreads : ∀ {text w rest}, input.toList.drop start = text ++ rest → texts text w rest.head? →
      ReadsTo input memoize lexer.whiteSpace (lexer.lexeme q) start w (start + text.length) :=
    fun htext hread =>
      lexeme_readsTo (hq.found htext hstart hread) hstart hskips hlexeme hwhiteSpace
  constructor
  · intro h
    rcases hq.decided hstart with ⟨text, w, rest, htext, hread⟩ | hfails
    · obtain ⟨rfl, hblank⟩ := ((hreads htext hread).shows_iff v stop).1 h
      exact ⟨text, rest, htext, hread, hblank⟩
    · exact absurd ⟨v, stop, h⟩ (lexeme_not_succeeds hfails hstart hlexeme)
  · rintro ⟨text, rest, htext, hread, hblank⟩
    exact ((hreads htext hread).shows_iff v stop).2 ⟨rfl, hblank⟩

/-- The language without the parsers of its words. -/
def wordless (language : Language) : Language :=
  { language with
    identStart := .zero, identLetter := .zero, opStart := .zero, opLetter := .zero }

theorem wordless_ready (language : Language) (names : Names) :
    (wordless language).Ready Parser.labelled names 0 :=
  ⟨trivial, trivial, trivial, trivial⟩

/-- Token parsers that do not read words are well labelled in every language. -/
theorem wellLabelled_of_wordless (language : Language) {token : Lexer → Build (Parser t)}
    (htoken : ∀ lexer : Lexer, lexer.Offers Parser.labelled 0 (token lexer)) :
    (Build.assemble (do token (← ofLanguage (wordless language))) 0).WellLabelled :=
  Build.assemble_wellLabelled (labelled_compositional.grammar_given
    (.pure fun names => wordless_ready language names) htoken)

/-- Literals decode exactly their grammar. In every language, from every place of every input,
and whether or not outcomes are remembered, a string literal succeeds exactly if a text of the
grammar lies ahead and white space succeeds behind it, with the value of that text and where
the white space ends. So does a character literal. No two texts of the grammar lie ahead. -/
theorem literals_decode (language : Language) (input : Array Char) (hsize : input.size < Index.limit)
    (memoize : Bool) (start : Nat) (hstart : start ≤ input.size) :
    (∀ s stop, (Build.assemble (do (← ofLanguage language).stringLiteral) 0).ShowsFrom input memoize
        start (.ok (.success s, stop)) ↔
      ∃ text rest, input.toList.drop start = text ++ rest ∧ StringLiteral text s ∧
        ((whiteSpaceOf language).assemble 0).ShowsFrom input memoize (start + text.length)
          (.ok (.success (), stop))) ∧
    (∀ c stop, (Build.assemble (do (← ofLanguage language).charLiteral) 0).ShowsFrom input memoize
        start (.ok (.success c, stop)) ↔
      ∃ text rest, input.toList.drop start = text ++ rest ∧ CharLiteral text c ∧
        ((whiteSpaceOf language).assemble 0).ShowsFrom input memoize (start + text.length)
          (.ok (.success (), stop))) ∧
    (∀ text text' rest rest' s s', input.toList.drop start = text ++ rest →
      input.toList.drop start = text' ++ rest' → StringLiteral text s → StringLiteral text' s' →
      text = text' ∧ s = s') ∧
    ∀ text text' rest rest' c c', input.toList.drop start = text ++ rest →
      input.toList.drop start = text' ++ rest' → CharLiteral text c → CharLiteral text' c' →
      text = text' ∧ c = c' := by
  have hwhiteSpace := Build.assemble_wellLabelled (labelled_compositional.whiteSpaceOf_given language)
  obtain ⟨_, hskips⟩ := (whiteSpaceOf_skips language hsize).assembled
  have hskips : ∀ i ≤ input.size, ((whiteSpaceOf language).assemble 0).Commits input Scope.root i :=
    fun i hi => (hskips Scope.root i hi).1
  obtain ⟨_, q, hq, hstring⟩ := (stringLiteral_decides hsize
    ((ofLanguage language).assemble 0)).assembled_bind
  obtain ⟨_, r, hr, hchar⟩ := (charLiteral_decides hsize
    ((ofLanguage language).assemble 0)).assembled_bind
  have hqlabelled : (Lexer.lexeme ((ofLanguage language).assemble 0) q).WellLabelled := by
    rw [← hq]
    exact wellLabelled_of_wordless language
      fun _ => labelled_compositional.stringLiteral_offered
  have hrlabelled : (Lexer.lexeme ((ofLanguage language).assemble 0) r).WellLabelled := by
    rw [← hr]
    exact wellLabelled_of_wordless language
      fun _ => labelled_compositional.charLiteral_offered
  refine ⟨fun s stop => ?_, fun c stop => ?_, fun text text' rest rest' s s' htext htext' h h' =>
    (hstring Scope.root).unique htext htext' hstart h h',
    fun text text' rest rest' c c' htext htext' h h' =>
      (hchar Scope.root).unique htext htext' hstart h h'⟩
  · rw [hq]
    exact lexeme_shows_iff (hstring Scope.root) hqlabelled hwhiteSpace hskips hstart memoize s stop
  · rw [hr]
    exact lexeme_shows_iff (hchar Scope.root) hrlabelled hwhiteSpace hskips hstart memoize c stop

/-- A piece of every kind. The empty escape keeps `SO` from being read as `SOH`. -/
def mixedString : Array Char :=
  "\x22\x5cn\x5cSO\x5c&H\x5c65\x5co101\x5cx41\x5c^Z\x5c  \x5cz\x22".toList.toArray

theorem literals_decode_mixed :
    mixedString.size < Index.limit ∧ 0 ≤ mixedString.size ∧
    (Build.assemble (do (← ofLanguage (Language.plain.assemble 0)).stringLiteral) 0).ShowsFrom
      mixedString false 0 (.ok (.success "\n\x0eHAAA\x1az", 30)) := by
  have hsize : mixedString.size < Index.limit := by decide
  have hletter : StringPiece ['\x5c', 'n'] (some '\n') (some '\x5c') := .escape (.letter .lineFeed)
  have hname : StringPiece ('\x5c' :: "SO".toList) (some '\x0e') (some '\x5c') :=
    .escape (.name (.listed rfl) (by decide))
  have hraw : ∀ next, StringPiece ['H'] (some 'H') next ∧ StringPiece ['z'] (some 'z') next :=
    fun _ => ⟨.raw (by decide) (by decide) (by decide), .raw (by decide) (by decide) (by decide)⟩
  have hbehind : ∀ base, ∀ c, some '\x5c' = some c → isDigitOf base c = false := by
    rintro base _ ⟨rfl⟩
    rfl
  have hdecimal : StringPiece ('\x5c' :: ['6', '5']) (some 'A') (some '\x5c') :=
    .escape (.decimal ⟨by decide, List.all_eq_true.1 rfl, hbehind 10⟩ rfl)
  have hoctal : StringPiece ('\x5c' :: 'o' :: ['1', '0', '1']) (some 'A') (some '\x5c') :=
    .escape (.octal ⟨by decide, List.all_eq_true.1 rfl, hbehind 8⟩ rfl)
  have hhexadecimal : StringPiece ('\x5c' :: 'x' :: ['4', '1']) (some 'A') (some '\x5c') :=
    .escape (.hexadecimal ⟨by decide, List.all_eq_true.1 rfl, hbehind 16⟩ rfl)
  have hcontrol : StringPiece ('\x5c' :: ['^', 'Z']) (some '\x1a') (some '\x5c') :=
    .escape (.control (by decide) (by decide))
  have hgap : StringPiece ('\x5c' :: [' ', ' '] ++ ['\x5c']) none (some 'z') :=
    .gap (by decide) (List.all_eq_true.1 (by decide +kernel))
  have hpieces := Pieces.cons hletter <| .cons hname <| .cons .empty <|
    .cons (hraw _).1 <| .cons hdecimal <| .cons hoctal <| .cons hhexadecimal <|
    .cons hcontrol <| .cons hgap <| .cons (hraw (some '\x22')).2 .nil
  have hwhiteSpace : ((whiteSpaceOf (Language.plain.assemble 0)).assemble 0).ShowsFrom
      mixedString false 30 (.ok (.success (), 30)) :=
    Parser.showsFrom_ok_iff.2 ⟨_, ⟨40, _, _, rfl, rfl⟩, rfl⟩
  have hdecode := literals_decode (Language.plain.assemble 0) _ hsize false 0 (Nat.zero_le _)
  exact ⟨hsize, Nat.zero_le _, (hdecode.1 _ 30).2 ⟨_, [], rfl, .intro hpieces, hwhiteSpace⟩⟩

end WholeRuns

end Lexer

end ParserKit
