import Mathlib.Data.Nat.Digits.Defs
import ParserKit.Proofs.Literals

/-!
Natural numbers in three bases. What lies ahead tells which number is meant: a zero and a
letter announce a base, and without them the digits are decimal. The digits go as far as
their class does, and the number is the value of all of them; it is refused if the value
does not fit, although it is collected digit by digit and overflows somewhere in between.
-/

namespace ParserKit

open Build

theorem dropWhile_of_append {accepts : Char → Bool} {text rest : List Char}
    (h : text = text.takeWhile accepts ++ rest) : text.dropWhile accepts = rest :=
  List.append_cancel_left (List.takeWhile_append_dropWhile.trans h)

/-- What a class of characters takes of a text whose rest does not begin with one of them. -/
theorem takeWhile_append_of_ends {accepts : Char → Bool} {front rest : List Char}
    (hfront : ∀ c ∈ front, accepts c = true) (hrest : rest.head?.any accepts = false) :
    (front ++ rest).takeWhile accepts = front ∧ (front ++ rest).dropWhile accepts = rest := by
  have htake : (front ++ rest).takeWhile accepts = front := by
    rw [List.takeWhile_append_of_pos hfront, takeWhile_eq_nil_iff.2 hrest, List.append_nil]
  exact ⟨htake, dropWhile_of_append (by rw [htake])⟩

/-- The ways to write a natural number. -/
inductive Radix where
  | decimal
  | hexadecimal
  | octal
deriving DecidableEq, Repr

namespace Radix

def base : Radix → Nat
  | .decimal => 10
  | .hexadecimal => 16
  | .octal => 8

def isDigit : Radix → Char → Bool
  | .decimal => Char.isDigit
  | .hexadecimal => Text.isHexDigit
  | .octal => Text.isOctDigit

/-- The letters that announce the digits behind a zero. Decimal digits are not announced. -/
def marks : Radix → List Char
  | .decimal => []
  | .hexadecimal => ['x', 'X']
  | .octal => ['o', 'O']

/-- The way to write numbers that a letter behind a zero announces. -/
def ofMark? (mark : Char) : Option Radix :=
  [hexadecimal, octal].find? fun radix => radix.marks.contains mark

/-- The number that digits stand for, if there are any and it fits. -/
def value? (radix : Radix) (digits : List Char) : Option Nat :=
  if digits ≠ [] ∧ Lexer.valueOf radix.base digits < Index.limit then
    some (Lexer.valueOf radix.base digits)
  else none

/-- What may stand in front of the digits. -/
inductive Fronts : Radix → List Char → Prop
  | plain : Fronts .decimal []
  | marked {radix : Radix} {mark : Char} : mark ∈ radix.marks → Fronts radix ['0', mark]

/-- Digits that stand for a number. -/
structure Writes (radix : Radix) (digits : List Char) (n : Nat) : Prop where
  ne_nil : digits ≠ []
  isDigit : ∀ c ∈ digits, radix.isDigit c = true
  value : Lexer.valueOf radix.base digits = n

end Radix

/-- A natural number as it is written. -/
structure Numeral where
  radix : Radix
  front : List Char
  digits : List Char

namespace Numeral

def length (numeral : Numeral) : Nat :=
  numeral.front.length + numeral.digits.length

def value? (numeral : Numeral) : Option Nat :=
  numeral.radix.value? numeral.digits

/-- The decimal digits ahead, whatever a zero among them announces. -/
def decimal (text : List Char) : Numeral :=
  { radix := .decimal, front := [], digits := text.takeWhile Char.isDigit }

/-- The number ahead, with all the digits of its base that lie there. -/
def ahead (text : List Char) : Numeral :=
  match text with
  | '0' :: mark :: rest =>
    match Radix.ofMark? mark with
    | some radix => { radix, front := ['0', mark], digits := rest.takeWhile radix.isDigit }
    | none => decimal text
  | _ => decimal text

/-- The number of one base that lies ahead. -/
def inBase : Radix → List Char → Option Numeral
  | .decimal, text => some (decimal text)
  | radix, text => if (ahead text).radix = radix then some (ahead text) else none

end Numeral

namespace Radix

variable {radix : Radix} {mark c : Char} {digits : List Char} {v n : Nat}

/-- No letter announces two bases. -/
theorem not_hexadecimal_of_octal (h : mark ∈ octal.marks) : mark ∉ hexadecimal.marks := by
  have hapart : (octal.marks.all fun c => !hexadecimal.marks.contains c) = true := by decide
  simpa using List.all_eq_true.1 hapart mark h

theorem ofMark?_eq_some_iff : ofMark? mark = some radix ↔ mark ∈ radix.marks := by
  have hdecimal : decimal.marks = [] := rfl
  unfold ofMark?
  by_cases hhex : mark ∈ hexadecimal.marks
  · have hoct : mark ∉ octal.marks := fun h => not_hexadecimal_of_octal h hhex
    cases radix <;> simp [hhex, hoct, hdecimal]
  · by_cases hoct : mark ∈ octal.marks <;> cases radix <;> simp [hhex, hoct, hdecimal]

theorem ofMark?_eq_none_iff : ofMark? mark = none ↔ ∀ radix : Radix, mark ∉ radix.marks := by
  simp only [Option.eq_none_iff_forall_ne_some, ne_eq, ofMark?_eq_some_iff]

/-- A letter that announces a base is not a decimal digit. -/
theorem not_mem_marks_of_isDigit (h : c.isDigit = true) (radix : Radix) : c ∉ radix.marks := by
  have hall : ∀ c ∈ radix.marks, c.isDigit = false := by
    apply Lexer.eq_false_of_all
    cases radix <;> decide
  intro hmark
  rw [hall c hmark] at h
  cases h

theorem digitOf?_eq (h : radix.isDigit c = true) :
    Lexer.digitOf? radix.base c = some (Lexer.digitValue c) := by
  cases radix with
  | decimal => exact Lexer.digitOf?_decimal h
  | hexadecimal => exact Lexer.digitOf?_hexadecimal h
  | octal => exact Lexer.digitOf?_octal h

theorem two_le_base (radix : Radix) : 2 ≤ radix.base := by
  cases radix <;> decide

theorem value?_eq_some_iff :
    radix.value? digits = some v ↔
      digits ≠ [] ∧ Lexer.valueOf radix.base digits = v ∧ v < Index.limit := by
  unfold value?
  split
  · next h =>
    rw [Option.some.injEq]
    constructor
    · rintro rfl
      exact ⟨h.1, rfl, h.2⟩
    · exact fun hv => hv.2.1
  · next h =>
    constructor
    · intro hv
      cases hv
    · rintro ⟨hne, rfl, hlimit⟩
      exact absurd ⟨hne, hlimit⟩ h

theorem value?_nil (radix : Radix) : radix.value? [] = none :=
  if_neg fun h => h.1 rfl

/-- The number is collected digit by digit exactly if it fits as a whole. -/
theorem ofDigits?_eq_value? (hne : digits ≠ [])
    (hdigits : ∀ c ∈ digits, radix.isDigit c = true) :
    Lexer.ofDigits? radix.base digits = radix.value? digits := by
  ext v
  have hbase : 1 ≤ radix.base := Nat.le_of_succ_le radix.two_le_base
  rw [Lexer.ofDigits?_eq_some_iff hbase fun c hc => digitOf?_eq (hdigits c hc), value?_eq_some_iff]
  exact (and_iff_right hne).symm

theorem Writes.value? (h : radix.Writes digits n) (hn : n < Index.limit) :
    radix.value? digits = some n :=
  value?_eq_some_iff.2 ⟨h.ne_nil, h.value, hn⟩

theorem valueOf_append_singleton (base : Nat) (digits : List Char) (c : Char) :
    Lexer.valueOf base (digits ++ [c]) = Lexer.valueOf base digits * base + Lexer.digitValue c := by
  simp only [Lexer.valueOf, List.foldl_append, List.foldl_cons, List.foldl_nil]

/-- Each digit of a base is written by a character of its class. -/
theorem digitChar_writes (h : n < radix.base) :
    radix.isDigit (Nat.digitChar n) = true ∧ Lexer.digitValue (Nat.digitChar n) = n := by
  have hall : ∀ n < radix.base,
      radix.isDigit (Nat.digitChar n) = true ∧ Lexer.digitValue (Nat.digitChar n) = n := by
    cases radix <;> decide
  exact hall n h

/-- The digits of a number stand for it. -/
theorem writes_toDigits (radix : Radix) (n : Nat) : radix.Writes (Nat.toDigits radix.base n) n := by
  have hbase : 1 < radix.base := radix.two_le_base
  induction n using Nat.strongRecOn with
  | ind n ih =>
    by_cases hsmall : n < radix.base
    · obtain ⟨hdigit, hvalue⟩ := digitChar_writes hsmall
      rw [Nat.toDigits_of_lt_base hsmall]
      refine ⟨List.cons_ne_nil _ _, by simpa using hdigit, ?_⟩
      simpa [Lexer.valueOf] using hvalue
    · have hle : radix.base ≤ n := Nat.le_of_not_lt hsmall
      have hfewer := ih (n / radix.base) (Nat.div_lt_self (by omega) hbase)
      have hlast : n % radix.base < radix.base := Nat.mod_lt n (by omega)
      obtain ⟨hdigit, hvalue⟩ := digitChar_writes hlast
      rw [Nat.toDigits_of_base_le hbase hle]
      refine ⟨by simp, ?_, ?_⟩
      · intro c hc
        rcases List.mem_append.1 hc with hc | hc
        · exact hfewer.isDigit c hc
        · rw [List.mem_singleton.1 hc]
          exact hdigit
      · rw [valueOf_append_singleton, hfewer.value, hvalue]
        exact Nat.div_add_mod' n radix.base

theorem toDigits_length (radix : Radix) (h : n < Index.limit) :
    (Nat.toDigits radix.base n).length ≤ 64 := by
  have hbase : 2 ^ 64 ≤ radix.base ^ 64 := Nat.pow_le_pow_left radix.two_le_base 64
  exact Nat.toDigits_length radix.base n 64 (by decide) (Nat.lt_of_lt_of_le h hbase)

end Radix

namespace Numeral

variable {radix : Radix} {front digits text : List Char}

/-- The number ahead is announced behind a zero, or it is decimal and no zero announces another. -/
theorem ahead_cases (text : List Char) :
    (∃ radix mark rest, text = '0' :: mark :: rest ∧ mark ∈ Radix.marks radix ∧
      ahead text = { radix, front := ['0', mark], digits := rest.takeWhile radix.isDigit }) ∨
    (ahead text = decimal text ∧
      ∀ mark rest radix, text = '0' :: mark :: rest → mark ∉ Radix.marks radix) := by
  unfold ahead
  split
  · next mark rest =>
    cases hmark : Radix.ofMark? mark with
    | some radix => exact .inl ⟨radix, mark, rest, rfl, Radix.ofMark?_eq_some_iff.1 hmark, rfl⟩
    | none =>
      refine .inr ⟨rfl, fun mark' rest' radix htext => ?_⟩
      obtain ⟨-, rfl, -⟩ : '0' = '0' ∧ mark = mark' ∧ rest = rest' := by simpa using htext
      exact Radix.ofMark?_eq_none_iff.1 hmark radix
  · next hother => exact .inr ⟨rfl, fun mark rest radix htext => absurd htext (hother mark rest)⟩

theorem ahead_of_mark {mark : Char} (hmark : mark ∈ radix.marks) :
    ahead ('0' :: mark :: text) =
      { radix, front := ['0', mark], digits := text.takeWhile radix.isDigit } := by
  simp only [ahead, Radix.ofMark?_eq_some_iff.2 hmark]

/-- A zero in front of other digits changes nothing. -/
theorem decimal_zero_cons (h : text.takeWhile Char.isDigit ≠ []) :
    (decimal ('0' :: text)).value? = (decimal text).value? ∧
      (decimal ('0' :: text)).length = 1 + (decimal text).length := by
  have hdigits : ('0' :: text).takeWhile Char.isDigit = '0' :: text.takeWhile Char.isDigit :=
    List.takeWhile_cons_of_pos (by decide)
  have hvalue : Lexer.valueOf 10 ('0' :: text.takeWhile Char.isDigit) =
      Lexer.valueOf 10 (text.takeWhile Char.isDigit) := rfl
  constructor
  · simp only [value?, decimal, hdigits, Radix.value?, Radix.base, hvalue]
    simp only [h, ne_eq, reduceCtorEq, not_false_eq_true]
  · simp only [length, decimal, hdigits, List.length_cons, List.length_nil]
    omega

theorem decimal_zero_alone (h : text.takeWhile Char.isDigit = []) :
    (decimal ('0' :: text)).value? = some 0 ∧ (decimal ('0' :: text)).length = 1 := by
  have hdigits : ('0' :: text).takeWhile Char.isDigit = ['0'] := by
    rw [List.takeWhile_cons_of_pos (by decide), h]
  constructor
  · simp only [value?, decimal, hdigits]
    decide
  · simp only [length, decimal, hdigits]
    rfl

/-- A number begins with a digit. -/
theorem begins_of_value? {v : Nat} (h : (ahead text).value? = some v) :
    text.head?.any Char.isDigit = true := by
  rcases ahead_cases text with ⟨_, mark, rest, rfl, -⟩ | ⟨hahead, -⟩
  · rfl
  · rw [hahead] at h
    have hne : text.takeWhile Char.isDigit ≠ [] := (Radix.value?_eq_some_iff.1 h).1
    rw [ne_eq, takeWhile_eq_nil_iff] at hne
    exact Bool.eq_true_of_not_eq_false hne

theorem length_pos_of_value? {numeral : Numeral} {v : Nat} (h : numeral.value? = some v) :
    0 < numeral.length := by
  have hdigits : numeral.digits ≠ [] := (Radix.value?_eq_some_iff.1 h).1
  have hpos := List.length_pos_of_ne_nil hdigits
  unfold length
  omega

/-- What was written is what lies ahead. -/
theorem ahead_of_writes {n : Nat} (hfront : radix.Fronts front) (h : radix.Writes digits n) :
    ahead (front ++ digits) = { radix, front, digits } := by
  have hall : digits.takeWhile radix.isDigit = digits := List.takeWhile_eq_self_iff.2 h.isDigit
  cases hfront with
  | plain =>
    rcases ahead_cases ([] ++ digits) with ⟨radix, mark, rest, htext, hmark, -⟩ | ⟨hahead, -⟩
    · rw [List.nil_append] at htext
      have hdigit : mark.isDigit = true := h.isDigit mark (by simp [htext])
      exact absurd hmark (Radix.not_mem_marks_of_isDigit hdigit radix)
    · rw [hahead]
      exact congrArg (Numeral.mk .decimal []) hall
  | @marked _ mark hmark =>
    rw [List.cons_append, List.cons_append, List.nil_append, ahead_of_mark hmark, hall]

theorem inBase_of_ne (h : radix ≠ .decimal) :
    inBase radix text = if (ahead text).radix = radix then some (ahead text) else none := by
  cases radix with
  | decimal => exact absurd rfl h
  | hexadecimal => rfl
  | octal => rfl

theorem inBase_of_writes {n : Nat} (hfront : radix.Fronts front) (h : radix.Writes digits n) :
    inBase radix (front ++ digits) = some { radix, front, digits } := by
  have hahead := ahead_of_writes hfront h
  cases hfront with
  | plain =>
    have hall : digits.takeWhile Char.isDigit = digits := List.takeWhile_eq_self_iff.2 h.isDigit
    simp only [inBase, decimal, List.nil_append, hall]
  | marked hmark =>
    have hradix : radix ≠ .decimal := by
      intro hdecimal
      rw [hdecimal] at hmark
      exact absurd hmark List.not_mem_nil
    rw [inBase_of_ne hradix, hahead, if_pos rfl]

end Numeral

namespace Parser

variable {a t : Ty} {input : Array Char} {scope : Scope} {i j k : Nat} {begun : Bool}

/-- From the place `i` the parser delivers the value, if there is one, and ends at the place `j`.
Else it fails, and it has consumed exactly if it has `begun`. -/
def Concludes (input : Array Char) (scope : Scope) (p : Parser t) (i : Nat) (begun : Bool)
    (value? : Option t.Elem) (j : Nat) : Prop :=
  match value? with
  | some v => p.Runs input scope i (.success v) j
  | none => if begun then p.Breaks input scope i else p.Refuses input scope i

section Concluding

variable {p q : Parser t} {value? : Option t.Elem}

theorem Concludes.memo (h : p.Concludes input scope i begun value? j) (label : Label) :
    (Parser.memo label p).Concludes input scope i begun value? j := by
  cases value? with
  | some v => exact Runs.memo label h
  | none =>
    cases begun with
    | true => exact Breaks.memo label h
    | false => exact Refuses.memo label h

theorem Concludes.label (h : p.Concludes input scope i begun value? j) (message : String) :
    (Parser.wrap (.label message) p).Concludes input scope i begun value? j := by
  cases value? with
  | some v => exact Runs.label message h
  | none =>
    cases begun with
    | true => exact Breaks.label message h
    | false => exact Refuses.label message h

/-- An alternative that has begun is the only one. -/
theorem Concludes.choice (h : p.Concludes input scope i true value? j) :
    (Parser.choice p q).Concludes input scope i true value? j := by
  cases value? with
  | some v => exact Runs.choice_success h
  | none => exact Breaks.choice h

theorem Refuses.choice_concludes (hp : p.Refuses input scope i)
    (hq : q.Concludes input scope i begun value? j) :
    (Parser.choice p q).Concludes input scope i begun value? j := by
  cases value? with
  | some v => exact hp.choice_success hq
  | none =>
    cases begun with
    | true => exact hp.choice_breaks hq
    | false => exact Refuses.choice hp hq

theorem Concludes.fails (h : p.Concludes input scope i begun none j) :
    p.Fails input scope i := by
  cases begun with
  | true => exact .inr h
  | false => exact .inl h

theorem Concludes.bind_none {r : Parser a} (hr : r.Concludes input scope i begun none k)
    (captures : List Label) (next : a.Elem → Parser t) :
    (Parser.bind r captures next).Concludes input scope i begun none j := by
  cases begun with
  | true => exact Breaks.bind captures next hr
  | false => exact Refuses.bind captures next hr

/-- Behind a part that has moved, a failure has consumed. -/
theorem Runs.bind_concludes {r : Parser a} {v : a.Elem} (captures : List Label)
    (next : a.Elem → Parser t) (hr : r.Runs input scope i (.success v) k) (hik : i ≤ k)
    (hnext : (next v).Concludes input scope k begun value? j) :
    (Parser.bind r captures next).Concludes input scope i (k != i || begun) value? j := by
  cases value? with
  | some w => exact hr.bind captures next hnext
  | none =>
    by_cases hmoved : k = i
    · subst hmoved
      rw [bne_self_eq_false, Bool.false_or]
      cases begun with
      | true => exact hr.bind_breaks captures next hnext
      | false => exact hr.bind_refuses captures next hnext
    · rw [bne_iff_ne.2 hmoved, Bool.true_or]
      exact hr.bind_fails captures next (by omega) hnext.fails

theorem Runs.andThen_concludes {r : Parser a} {v : a.Elem}
    (hr : r.Runs input scope i (.success v) k) (hik : i < k)
    (hp : p.Concludes input scope k begun value? j) :
    (r.andThen p).Concludes input scope i true value? j := by
  have hwhole := hr.bind_concludes p.owned (fun _ => p) (Nat.le_of_lt hik) hp
  rw [bne_iff_ne.2 (Nat.ne_of_gt hik), Bool.true_or] at hwhole
  exact hwhole

/-- What was read is delivered or refused. -/
theorem Runs.accept_concludes {r : Parser a} {v : a.Elem}
    (hr : r.Runs input scope i (.success v) k) (hik : i < k) (read? : a.Elem → Option t.Elem) :
    (r.followedBy fun w => Lexer.accept (read? w)).Concludes input scope i true (read? v) k := by
  have haccept : (Lexer.accept (read? v)).Concludes input scope k false (read? v) k := by
    cases read? v with
    | some w => exact Runs.ret w
    | none => exact Refuses.fail Lexer.tooLarge
  have hwhole := hr.bind_concludes [] (fun w => Lexer.accept (read? w)) (Nat.le_of_lt hik) haccept
  rw [bne_iff_ne.2 (Nat.ne_of_gt hik), Bool.true_or] at hwhole
  exact hwhole

/-- What a committed parser comes to. -/
theorem Insists.concludes {begins : Char → Bool} {texts : Texts t.Elem}
    (hp : p.Insists input scope begins texts) (hi : i ≤ input.size) :
    (∃ text v rest, input.toList.drop i = text ++ rest ∧ texts text v rest.head? ∧
      p.Concludes input scope i ((input.toList.drop i).head?.any begins) (some v)
        (i + text.length)) ∨
    ((∀ text v rest, input.toList.drop i = text ++ rest → ¬ texts text v rest.head?) ∧
      p.Concludes input scope i ((input.toList.drop i).head?.any begins) none i) := by
  by_cases hahead : ∃ text v rest, input.toList.drop i = text ++ rest ∧ texts text v rest.head?
  · obtain ⟨text, v, rest, htext, h⟩ := hahead
    exact .inl ⟨text, v, rest, htext, h, hp.found htext hi h⟩
  · refine .inr ⟨fun text v rest htext h => hahead ⟨text, v, rest, htext, h⟩, ?_⟩
    cases hhead : (input.toList.drop i).head?.any begins with
    | true => exact (hp.committed hi hhead).resolve_left hahead
    | false => exact hp.refuses hi hhead

end Concluding

theorem Accepts.refuses_of_not_begins {x : Char} {p : Parser .char}
    (hp : p.Accepts input scope (· == x)) (hi : i ≤ input.size)
    (h : ¬ ∃ rest, input.toList.drop i = x :: rest) : p.Refuses input scope i := by
  refine hp.refuses hi fun c hc => ?_
  obtain ⟨rest, htext⟩ := List.head?_eq_some_iff.1 hc
  have hother : c ≠ x := fun hsame => h ⟨rest, by rw [htext, hsame]⟩
  simpa using hother

section Digits

variable {radix : Radix} {digit mark : Parser .char} {c : Char} {rest : List Char}

/-- Digits of a base, as many as lie there. -/
theorem digits_concludes (hdigit : digit.Accepts input scope radix.isDigit) (hi : i ≤ input.size) :
    (Lexer.digits radix.base digit).Concludes input scope i
      ((input.toList.drop i).head?.any radix.isDigit)
      (radix.value? ((input.toList.drop i).takeWhile radix.isDigit))
      (i + ((input.toList.drop i).takeWhile radix.isDigit).length) := by
  cases hhead : (input.toList.drop i).head?.any radix.isDigit with
  | false =>
    have hrefuses : digit.Refuses input scope i := by
      refine hdigit.refuses hi fun c hc => ?_
      rw [hc] at hhead
      exact hhead
    rw [takeWhile_eq_nil_iff.2 hhead, radix.value?_nil]
    exact hrefuses.many1.bind _ _
  | true =>
    have hsome : (input.toList.drop i).takeWhile radix.isDigit ≠ [] := by
      rw [ne_eq, takeWhile_eq_nil_iff, hhead]
      decide
    have hall : ∀ c ∈ (input.toList.drop i).takeWhile radix.isDigit, radix.isDigit c = true :=
      fun c hc => List.mem_takeWhile_imp hc
    have hend : ∀ c, ((input.toList.drop i).dropWhile radix.isDigit).head? = some c →
        radix.isDigit c = false := by
      intro c hc
      have hnot := List.head?_dropWhile_not radix.isDigit (input.toList.drop i)
      rw [hc] at hnot
      exact hnot
    have hmany := hdigit.many1 List.takeWhile_append_dropWhile.symm hi hsome hall hend
    have hlength := List.length_pos_of_ne_nil hsome
    rw [← Radix.ofDigits?_eq_value? hsome hall]
    exact hmany.accept_concludes (by omega) (t := .natural) (Lexer.ofDigits? radix.base)

/-- A letter that announces digits, and the digits. -/
structure ReadsMarked (input : Array Char) (radix : Radix) (p : Parser .natural) : Prop where
  announced : ∀ {scope i mark rest}, input.toList.drop i = mark :: rest → i ≤ input.size →
    mark ∈ radix.marks →
      p.Concludes input scope i true (radix.value? (rest.takeWhile radix.isDigit))
        (i + 1 + (rest.takeWhile radix.isDigit).length)
  other : ∀ {scope i}, i ≤ input.size →
    (∀ c, (input.toList.drop i).head? = some c → c ∉ radix.marks) → p.Refuses input scope i

/-- The number of one base. -/
def ReadsIn (input : Array Char) (radix : Radix) (p : Parser .natural) : Prop :=
  ∀ scope i, i ≤ input.size →
    match Numeral.inBase radix (input.toList.drop i) with
    | some numeral => ∃ begun, p.Concludes input scope i begun numeral.value? (i + numeral.length)
    | none => p.Fails input scope i

theorem readsMarked (hmark : ∀ scope, mark.Accepts input scope fun c => radix.marks.contains c)
    (hdigit : ∀ scope, digit.Accepts input scope radix.isDigit) :
    (mark.andThen (Lexer.digits radix.base digit)).ReadsMarked input radix where
  announced {scope i c rest} htext hi hc := by
    have hruns := (hmark scope).runs htext (by simpa using hc)
    have hdigits := digits_concludes (hdigit scope) (hruns.le_size hi)
    rw [(drop_eq_cons_iff.1 htext).2] at hdigits
    exact hruns.andThen_concludes (Nat.lt_succ_self i) hdigits
  other {scope i} hi hother := by
    refine ((hmark scope).refuses hi fun c hc => ?_).bind _ _
    simpa using hother c hc

end Digits

end Parser

open ParserKit.Parser (Concludes ReadsMarked)

theorem Build.label_concludes {t : Ty} {level : Nat} (p : Parser t) (message : String) :
    Yields level (label p message) fun _ q => ∀ ⦃input scope i begun value? j⦄,
      p.Concludes input scope i begun value? j → q.Concludes input scope i begun value? j :=
  memo_meets fun label _ _ _ _ _ _ hp => (hp.label message).memo label

namespace Lexer

variable {input : Array Char} {level : Nat} (hsize : input.size < Index.limit)

include hsize

theorem decimal_concludes :
    Yields level decimal fun _ p => ∀ scope i, i ≤ input.size →
      p.Concludes input scope i ((input.toList.drop i).head?.any Char.isDigit)
        (Numeral.decimal (input.toList.drop i)).value?
        (i + (Numeral.decimal (input.toList.drop i)).length) := by
  refine (classOf_accepts hsize _ _).bind fun digit => .pure fun _ hdigit scope i hi => ?_
  have hdecimal : digit.Accepts input scope Radix.decimal.isDigit := hdigit scope
  have hread := Parser.digits_concludes hdecimal hi
  simp only [Numeral.length, Numeral.decimal, List.length_nil, Nat.zero_add]
  exact hread

theorem hexTail_reads :
    Yields level hexTail fun _ p => p.ReadsMarked input .hexadecimal :=
  (satisfy_accepts hsize _).bind fun _ => (classOf_accepts hsize _ _).bind fun _ =>
    .pure fun _ hdigit hmark => Parser.readsMarked hmark hdigit

theorem octTail_reads :
    Yields level octTail fun _ p => p.ReadsMarked input .octal :=
  (satisfy_accepts hsize _).bind fun _ => (classOf_accepts hsize _ _).bind fun _ =>
    .pure fun _ hdigit hmark => Parser.readsMarked hmark hdigit

section BehindZero

variable {hex oct tail : Parser .natural} {scope : Scope} {i : Nat} {rest : List Char}

omit hsize

/-- A letter that announces a base commits to the alternative of the base. -/
theorem behindZero_announced {radix : Radix} {mark : Char}
    (hhex : hex.ReadsMarked input .hexadecimal) (hoct : oct.ReadsMarked input .octal)
    (hi : i ≤ input.size) (htext : input.toList.drop i = mark :: rest)
    (hmark : mark ∈ radix.marks) :
    (Parser.choice hex (.choice oct tail)).Concludes input scope i true
      (radix.value? (rest.takeWhile radix.isDigit))
      (i + 1 + (rest.takeWhile radix.isDigit).length) := by
  cases radix with
  | decimal => exact absurd hmark List.not_mem_nil
  | hexadecimal => exact (hhex.announced htext hi hmark).choice
  | octal =>
    have hother : hex.Refuses input scope i := by
      refine hhex.other hi fun c hc => ?_
      rw [htext, List.head?_cons] at hc
      obtain rfl := Option.some.inj hc
      exact Radix.not_hexadecimal_of_octal hmark
    exact hother.choice_concludes (hoct.announced htext hi hmark).choice

/-- Without such a letter there are more decimal digits, or the zero is the number. -/
theorem behindZero_decimal
    (htail : tail.Concludes input scope (i + 1) (rest.head?.any Char.isDigit)
      (Numeral.decimal rest).value? (i + 1 + (Numeral.decimal rest).length)) :
    ∃ begun, (Parser.choice tail (.ret (t := .natural) 0)).Concludes input scope (i + 1) begun
      (Numeral.decimal ('0' :: rest)).value? (i + (Numeral.decimal ('0' :: rest)).length) := by
  cases hmore : rest.head?.any Char.isDigit with
  | true =>
    have hne : rest.takeWhile Char.isDigit ≠ [] := by
      rw [ne_eq, takeWhile_eq_nil_iff, hmore]
      decide
    obtain ⟨hvalue, hlength⟩ := Numeral.decimal_zero_cons hne
    rw [hmore] at htail
    rw [hvalue, hlength, ← Nat.add_assoc]
    exact ⟨true, htail.choice⟩
  | false =>
    have hnil := takeWhile_eq_nil_iff.2 hmore
    obtain ⟨hvalue, hlength⟩ := Numeral.decimal_zero_alone hnil
    have hnone : (Numeral.decimal rest).value? = none := by
      simp only [Numeral.value?, Numeral.decimal, hnil, Radix.value?_nil]
    rw [hmore, hnone] at htail
    rw [hvalue, hlength]
    have hrefuses : tail.Refuses input scope (i + 1) := htail
    exact ⟨false, hrefuses.choice_concludes (Parser.Runs.ret (t := .natural) 0)⟩

/-- Behind a zero, the letter that comes next decides which alternative reads the number. -/
theorem behindZero_concludes (hhex : hex.ReadsMarked input .hexadecimal)
    (hoct : oct.ReadsMarked input .octal)
    (htail : tail.Concludes input scope (i + 1)
      ((input.toList.drop (i + 1)).head?.any Char.isDigit)
      (Numeral.decimal (input.toList.drop (i + 1))).value?
      (i + 1 + (Numeral.decimal (input.toList.drop (i + 1))).length))
    (hi : i + 1 ≤ input.size) (htext : input.toList.drop i = '0' :: rest) :
    ∃ begun, (Parser.choiceAll [hex, oct, tail, .ret (t := .natural) 0]).Concludes input scope
      (i + 1) begun (Numeral.ahead ('0' :: rest)).value?
      (i + (Numeral.ahead ('0' :: rest)).length) := by
  obtain ⟨-, hrest⟩ := drop_eq_cons_iff.1 htext
  rcases Numeral.ahead_cases ('0' :: rest) with
    ⟨radix, mark, digits, htext, hmark, hahead⟩ | ⟨hahead, hmarks⟩
  · obtain rfl : rest = mark :: digits := (List.cons.inj htext).2
    have hstop : i + (2 + (digits.takeWhile radix.isDigit).length) =
        i + 1 + 1 + (digits.takeWhile radix.isDigit).length := by omega
    rw [hahead]
    simp only [Numeral.value?, Numeral.length, List.length_cons, List.length_nil, Nat.zero_add,
      Nat.reduceAdd, hstop]
    exact ⟨true, behindZero_announced hhex hoct hi hrest hmark⟩
  · have hother : ∀ radix c, (input.toList.drop (i + 1)).head? = some c →
        c ∉ Radix.marks radix := by
      intro radix c hc
      rw [hrest] at hc
      obtain ⟨digits, rfl⟩ := List.head?_eq_some_iff.1 hc
      exact hmarks c digits radix rfl
    rw [hrest] at htail
    obtain ⟨begun, hnumber⟩ := behindZero_decimal htail
    rw [hahead]
    exact ⟨begun, (hhex.other hi (hother _)).choice_concludes
      ((hoct.other hi (hother _)).choice_concludes hnumber)⟩

end BehindZero

theorem naturalNumber_concludes :
    Yields level naturalNumber fun _ p => ∀ scope i, i ≤ input.size →
      p.Concludes input scope i ((input.toList.drop i).head?.any Char.isDigit)
        (Numeral.ahead (input.toList.drop i)).value?
        (i + (Numeral.ahead (input.toList.drop i)).length) := by
  refine (hexTail_reads hsize).bind fun hex => (octTail_reads hsize).bind fun oct => ?_
  refine (decimal_concludes hsize).bind fun tail => (char_accepts hsize '0').bind fun zero => ?_
  refine (Build.label_concludes _ _).bind fun zeroFirst => ?_
  refine (decimal_concludes hsize).bind fun number => .pure ?_
  intro names hnumber hlabel hzero htail hoct hhex scope i hi
  by_cases hbegins : ∃ rest, input.toList.drop i = '0' :: rest
  · obtain ⟨rest, htext⟩ := hbegins
    have hruns := (hzero scope).runs htext (by decide)
    have hnext := hruns.le_size hi
    obtain ⟨begun, hbehind⟩ := behindZero_concludes hhex hoct (htail scope _ hnext) hnext htext
    have hfirst := hruns.andThen_concludes (Nat.lt_succ_self i) hbehind
    rw [htext]
    exact (hlabel hfirst).choice
  · have hrefuses := (hzero scope).refuses_of_not_begins hi hbegins
    have hlabelled : zeroFirst.Concludes input scope i false none i :=
      hlabel (Parser.Refuses.bind _ _ hrefuses)
    have hahead : Numeral.ahead (input.toList.drop i) = Numeral.decimal (input.toList.drop i) := by
      rcases Numeral.ahead_cases (input.toList.drop i) with
        ⟨_, mark, rest, htext, -⟩ | ⟨hahead, -⟩
      · exact absurd ⟨mark :: rest, htext⟩ hbegins
      · exact hahead
    rw [hahead]
    exact Parser.Refuses.choice_concludes hlabelled (hnumber scope i hi)

section Marked

variable {zero : Parser .char} {tail : Parser .natural} {radix : Radix} {scope : Scope} {i : Nat}

omit hsize

/-- A zero, the letter of one base and digits. -/
theorem zeroMarked_concludes (hzero : zero.Accepts input scope (· == '0'))
    (htail : tail.ReadsMarked input radix) (hradix : radix ≠ .decimal) (hi : i ≤ input.size)
    (hahead : (Numeral.ahead (input.toList.drop i)).radix = radix) :
    (zero.andThen tail).Concludes input scope i true (Numeral.ahead (input.toList.drop i)).value?
      (i + (Numeral.ahead (input.toList.drop i)).length) := by
  rcases Numeral.ahead_cases (input.toList.drop i) with
    ⟨found, mark, digits, htext, hmark, hfound⟩ | ⟨hdecimal, -⟩
  · rw [hfound] at hahead ⊢
    subst hahead
    have hruns := hzero.runs htext (by decide)
    obtain ⟨-, hrest⟩ := drop_eq_cons_iff.1 htext
    have hstop : i + (2 + (digits.takeWhile found.isDigit).length) =
        i + 1 + 1 + (digits.takeWhile found.isDigit).length := by omega
    simp only [Numeral.value?, Numeral.length, List.length_cons, List.length_nil, Nat.zero_add,
      Nat.reduceAdd, hstop]
    exact hruns.andThen_concludes (Nat.lt_succ_self i)
      (htail.announced hrest (hruns.le_size hi) hmark)
  · rw [hdecimal] at hahead
    exact absurd hahead.symm hradix

theorem zeroMarked_fails (hzero : zero.Accepts input scope (· == '0'))
    (htail : tail.ReadsMarked input radix) (hi : i ≤ input.size)
    (hahead : (Numeral.ahead (input.toList.drop i)).radix ≠ radix) :
    (zero.andThen tail).Fails input scope i := by
  by_cases hbegins : ∃ rest, input.toList.drop i = '0' :: rest
  · obtain ⟨rest, htext⟩ := hbegins
    have hruns := hzero.runs htext (by decide)
    obtain ⟨-, hrest⟩ := drop_eq_cons_iff.1 htext
    have hother : tail.Refuses input scope (i + 1) := by
      refine htail.other (hruns.le_size hi) fun mark hmark hin => hahead ?_
      obtain ⟨digits, hdigits⟩ := List.head?_eq_some_iff.1 hmark
      rw [htext, ← hrest, hdigits, Numeral.ahead_of_mark hin]
    exact .inr (hruns.andThen_fails (Nat.lt_succ_self i) (.inl hother))
  · exact .inl ((hzero.refuses_of_not_begins hi hbegins).bind _ _)

theorem zeroMarked_reads (hzero : ∀ scope, zero.Accepts input scope (· == '0'))
    (htail : tail.ReadsMarked input radix) (hradix : radix ≠ .decimal) :
    (zero.andThen tail).ReadsIn input radix := by
  intro scope i hi
  rw [Numeral.inBase_of_ne hradix]
  by_cases hahead : (Numeral.ahead (input.toList.drop i)).radix = radix
  · rw [if_pos hahead]
    exact ⟨true, zeroMarked_concludes (hzero scope) htail hradix hi hahead⟩
  · rw [if_neg hahead]
    exact zeroMarked_fails (hzero scope) htail hi hahead

end Marked

/-- The parser of the numbers of one base, without white space. -/
def numberIn : Radix → Build (Parser .natural)
  | .decimal => decimal
  | .hexadecimal => hexadecimal
  | .octal => octal

/-- Each of them reads the number of its base that lies ahead, and fails if there is none. -/
theorem numberIn_reads (radix : Radix) :
    Yields level (numberIn radix) fun _ p => p.ReadsIn input radix := by
  cases radix with
  | decimal => exact (decimal_concludes hsize).mono fun _ _ h scope i hi => ⟨_, h scope i hi⟩
  | hexadecimal =>
    exact (char_accepts hsize '0').bind fun _ => (hexTail_reads hsize).bind fun _ =>
      .pure fun _ htail hzero => zeroMarked_reads hzero htail (by decide)
  | octal =>
    exact (char_accepts hsize '0').bind fun _ => (octTail_reads hsize).bind fun _ =>
      .pure fun _ htail hzero => zeroMarked_reads hzero htail (by decide)

end Lexer

end ParserKit
