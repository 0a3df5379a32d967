import ParserKit.Proofs.Naturals
import ParserKit.Proofs.Rebuilt

/-!
Integers as tokens. A sign is one wherever it stands, white space may follow it, and the number
behind that is read in any of the bases; what does not fit is refused. The largest natural number
is far outside the range of integers, so the number is read first and its range looked at then.
What is written with a sign is read back, unless a comment begins where the digits do.
-/

namespace ParserKit

open Build Lexer

/-- What may stand in front of a number. -/
inductive Sign where
  | none
  | plus
  | minus
deriving DecidableEq, Repr

namespace Sign

def text : Sign → List Char
  | .none => []
  | .plus => ['+']
  | .minus => ['-']

def isNegative : Sign → Bool
  | .minus => true
  | _ => false

/-- The integer with the sign and the absolute value. -/
def apply (sign : Sign) (n : Nat) : Int :=
  if sign.isNegative then -n else n

/-- The sign that a text begins with. -/
def ahead : List Char → Sign
  | [] => .none
  | c :: _ => if c = '-' then .minus else if c = '+' then .plus else .none

variable {sign : Sign} {text rest : List Char} {n : Nat} {v : Int}

theorem ahead_prefix (text : List Char) : (ahead text).text <+: text := by
  cases text with
  | nil => exact List.nil_prefix
  | cons c rest =>
    by_cases hminus : c = '-'
    · subst hminus
      exact ⟨rest, rfl⟩
    · by_cases hplus : c = '+'
      · subst hplus
        exact ⟨rest, rfl⟩
      · simp only [ahead, hminus, hplus, if_false]
        exact List.nil_prefix

/-- In front of digits a sign is seen to be there, or not to be there. -/
theorem ahead_append (h : rest.head?.any Char.isDigit = true) :
    ahead (sign.text ++ rest) = sign := by
  cases sign with
  | plus => rfl
  | minus => rfl
  | none =>
    cases rest with
    | nil => rfl
    | cons c rest =>
      have hminus : c ≠ '-' := by
        intro hc
        subst hc
        cases h
      have hplus : c ≠ '+' := by
        intro hc
        subst hc
        cases h
      simp only [text, List.nil_append, ahead, hminus, hplus, if_false]

/-- Every integer can be written with a sign. -/
theorem exists_apply_natAbs (v : Int) : ∃ sign ≠ Sign.none, sign.apply v.natAbs = v := by
  rcases Int.natAbs_eq v with hv | hv
  · exact ⟨.plus, by decide, hv.symm⟩
  · exact ⟨.minus, by decide, hv.symm⟩

theorem signed?_eq_some_iff :
    signed? sign.isNegative n = some v ↔ v = sign.apply n ∧ -2 ^ 63 ≤ v ∧ v < 2 ^ 63 := by
  have hbound : ((Word.limit 63 : Nat) : Int) = 2 ^ 63 := rfl
  have hvalue : (if sign.isNegative then -(n : Int) else n) = sign.apply n := rfl
  simp only [signed?, hbound, hvalue]
  split
  · next hrange =>
    rw [Option.some.injEq]
    constructor
    · intro hv
      subst hv
      exact ⟨rfl, hrange⟩
    · intro hv
      exact hv.1.symm
  · next hrange =>
    constructor
    · intro hv
      cases hv
    · intro hv
      obtain ⟨hv, hv'⟩ := hv
      subst hv
      exact absurd hv' hrange

end Sign

/-- No comment of the language begins with a digit. -/
def Language.SparesDigits (language : Language) : Prop :=
  language.commentLine.toList.head?.any Char.isDigit = false ∧
    language.commentStart.toList.head?.any Char.isDigit = false

instance (language : Language) : Decidable language.SparesDigits :=
  inferInstanceAs (Decidable (_ ∧ _))

/-- In front of a digit there is nothing to skip, unless a comment begins with it. -/
theorem Language.SparesDigits.pieceAhead {language : Language} {text : List Char}
    (h : language.SparesDigits) (htext : text.head?.any Char.isDigit = true) :
    pieceAhead language text = .nothing := by
  cases text with
  | nil => exact pieceAhead_nil
  | cons c rest =>
    have hdigit : c.isDigit = true := htext
    have hblank : Text.isBlank c = false :=
      not_isBlank_of_begins (by simp [beginsEscape, beginsNumber, hdigit])
    have hmarker : ∀ marker : String, marker.toList.head?.any Char.isDigit = false →
        past? marker (c :: rest) = none := by
      intro marker hmarker
      refine past?_of_head?_ne fun hhead => ?_
      rw [hhead, Option.any_some, hdigit] at hmarker
      cases hmarker
    simp only [Lexer.pieceAhead, runAhead, List.head?_cons, Option.any_some, hblank,
      Bool.false_eq_true, if_false, lineAhead, hmarker _ h.1, blockAhead, hmarker _ h.2, Found.or]

namespace Lexer

section Parts

variable {input : Array Char} {scope : Scope} {i : Nat} {level : Nat}
  (hsize : input.size < Index.limit)

/-- Of the marks, the one that is there is read. -/
theorem signs_run {t : Ty} {minus plus : Parser .char}
    (hminus : minus.Accepts input scope (· == '-')) (hplus : plus.Accepts input scope (· == '+'))
    (f : Sign → t.Elem) (hi : i ≤ input.size) :
    (Parser.choiceAll [minus.map fun _ => f .minus, plus.map fun _ => f .plus,
      .ret (f .none)]).Runs input scope i (.success (f (Sign.ahead (input.toList.drop i))))
        (i + (Sign.ahead (input.toList.drop i)).text.length) := by
  cases htext : input.toList.drop i with
  | nil =>
    have hfirst := (hminus.refuses_nil hi htext).map fun _ => f .minus
    have hsecond := (hplus.refuses_nil hi htext).map fun _ => f .plus
    exact hfirst.choice_success (hsecond.choice_success (.ret (f .none)))
  | cons c rest =>
    by_cases hc : c = '-'
    · subst hc
      exact ((hminus.runs htext (by decide)).map fun _ => f .minus).choice_success
    have hfirst := (hminus.refuses_cons hi htext (beq_eq_false_iff_ne.2 hc)).map fun _ => f .minus
    by_cases hc' : c = '+'
    · subst hc'
      have hruns := (hplus.runs htext (by decide)).map fun _ => f .plus
      exact hfirst.choice_success hruns.choice_success
    · have hsecond := (hplus.refuses_cons hi htext (beq_eq_false_iff_ne.2 hc')).map
        fun _ => f .plus
      simp only [Sign.ahead, hc, hc', if_false]
      exact hfirst.choice_success (hsecond.choice_success (.ret (f .none)))

include hsize

/-- The parser of signs reads the sign that is there. -/
theorem sign_runs :
    Yields level sign fun _ p => ∀ scope i, i ≤ input.size →
      p.Runs input scope i (.success (Sign.ahead (input.toList.drop i)).isNegative)
        (i + (Sign.ahead (input.toList.drop i)).text.length) :=
  (char_accepts hsize '-').bind fun _ => (char_accepts hsize '+').bind fun _ =>
    .pure fun _ hplus hminus scope _ hi =>
      signs_run (t := .bool) (hminus scope) (hplus scope) Sign.isNegative hi

/-- The rest of an integer behind the sign and white space. -/
def signedNumber (negative : Bool) : Build (Parser .integer) := do
  return (← naturalNumber).followedBy fun n => accept (t := .integer) (signed? negative n)

omit hsize in
theorem integer_eq (lexer : Lexer) :
    lexer.integer = (do
      let core ← bindFresh (lexer.lexeme (← sign)) signedNumber
      Build.label (lexer.lexeme core) "integer") :=
  rfl

theorem signedNumber_concludes (negative : Bool) :
    Yields level (signedNumber negative) fun _ p => ∀ scope i, i ≤ input.size →
      p.Concludes input scope i ((input.toList.drop i).head?.any Char.isDigit)
        ((Numeral.ahead (input.toList.drop i)).value?.bind (signed? negative))
        (i + (Numeral.ahead (input.toList.drop i)).length) := by
  refine (naturalNumber_concludes hsize).bind fun number => .pure fun names hnumber scope i hi => ?_
  have hread := hnumber scope i hi
  cases hvalue : (Numeral.ahead (input.toList.drop i)).value? with
  | none =>
    rw [hvalue] at hread
    exact hread.bind_none [] _
  | some n =>
    rw [hvalue] at hread
    have hmoves : i < i + (Numeral.ahead (input.toList.drop i)).length := by
      have hlength := Numeral.length_pos_of_value? hvalue
      omega
    rw [Numeral.begins_of_value? hvalue]
    exact Parser.Runs.accept_concludes hread hmoves (t := .integer) (signed? negative)

omit hsize in
theorem signedNumber_ruleFree (negative : Bool) :
    Yields level (signedNumber negative) fun _ p => p.RuleFree :=
  naturalNumber_ruleFree.bind fun _ => .pure fun _ hnumber =>
    ⟨hnumber, fun _ => accept_ruleFree (t := .integer) _⟩

/-- An integer is a lexeme that fails if white space behind the sign does, and else reads the
number that lies there. -/
theorem integer_made (lexer : Lexer) :
    Yields level lexer.integer fun _ p => ∃ label core,
      p = lexer.labelled label "integer" core ∧ ∀ scope i, i ≤ input.size →
        let behind := i + (Sign.ahead (input.toList.drop i)).text.length
        (lexer.whiteSpace.Breaks input scope behind → core.Breaks input scope i) ∧
        ∀ gap, i ≤ gap → lexer.whiteSpace.Runs input scope behind (.success ()) gap →
          core.Concludes input scope i (gap != i || (input.toList.drop gap).head?.any Char.isDigit)
            ((Numeral.ahead (input.toList.drop gap)).value?.bind
              (signed? (Sign.ahead (input.toList.drop i)).isNegative))
            (gap + (Numeral.ahead (input.toList.drop gap)).length) := by
  rw [integer_eq]
  refine (sign_runs hsize).bind fun sign => (bindFresh_made _ _).bind fun core => ?_
  refine (label_made _ _).mono fun names p hmade hcore hsign => ?_
  obtain ⟨label, rfl⟩ := hmade
  refine ⟨label, core, rfl, fun scope i hi => ?_⟩
  have hread := hsign scope i hi
  generalize (Sign.ahead (input.toList.drop i)).isNegative = negative at hread ⊢
  rw [hcore]
  constructor
  · intro hbreaks
    obtain ⟨expected, k, hbreaks⟩ := hbreaks
    have hfirst := hread.lift2_broken (fun negative _ => negative) hbreaks
    exact ⟨expected, k, hfirst.bind_failure _ _⟩
  · intro gap hgap hskips
    have hfirst := hread.lift2 (fun negative _ => negative) hskips
    have hconcludes : Yields (level + 1) (signedNumber negative) _ :=
      signedNumber_concludes hsize negative
    have hfree : Yields (level + 1) (signedNumber negative) _ := signedNumber_ruleFree negative
    obtain ⟨_, hconcludes⟩ := hconcludes.assembled
    obtain ⟨_, hfree⟩ := hfree.assembled
    exact hfirst.bind_concludes [] _ hgap
      (hfree.fresh_concludes (hconcludes scope gap (hfirst.le_size hi)))

end Parts

/-- Behind the sign there are white space, a number, and white space up to the place `stop`; with
the sign the number is the integer `v`, which fits. -/
def IntegerAt (language : Language) (input : Array Char) (memoize : Bool) (sign : Sign)
    (start : Nat) (v : Int) (stop : Nat) : Prop :=
  ∃ gap n,
    (blanks (pure language)).ShowsFrom input memoize (start + sign.text.length)
      (.ok (.success (), gap)) ∧
    (Numeral.ahead (input.toList.drop gap)).value? = some n ∧
    (v = sign.apply n ∧ -2 ^ 63 ≤ v ∧ v < 2 ^ 63) ∧
    (blanks (pure language)).ShowsFrom input memoize
      (gap + (Numeral.ahead (input.toList.drop gap)).length) (.ok (.success (), stop))

section Shown

variable {input : Array Char} (hsize : input.size < Index.limit) (memoize : Bool) {start : Nat}
  (hstart : start ≤ input.size) (language : Language)

/-- What has begun is a sign, white space or a number. -/
theorem begun_eq_false_iff {gap : Nat} {f : Nat → Option Int} :
    ((gap != start || (input.toList.drop gap).head?.any Char.isDigit) ||
        ((Numeral.ahead (input.toList.drop gap)).value?.bind f).isSome) = false ↔
      start = gap ∧ (input.toList.drop start).head?.any Char.isDigit = false := by
  rw [Bool.or_eq_false_iff, Bool.or_eq_false_iff, bne_eq_false_iff_eq]
  constructor
  · intro h
    obtain ⟨⟨hstill, hdigit⟩, -⟩ := h
    rw [hstill] at hdigit
    exact ⟨hstill.symm, hdigit⟩
  · intro h
    obtain ⟨hstill, hdigit⟩ := h
    subst hstill
    refine ⟨⟨rfl, hdigit⟩, ?_⟩
    cases hvalue : (Numeral.ahead (input.toList.drop start)).value? with
    | none => rfl
    | some n =>
      rw [Numeral.begins_of_value? hvalue] at hdigit
      cases hdigit

/-- What whole runs of a parser of integers show. -/
structure ShowsIntegers (language : Language) (input : Array Char) (memoize : Bool) (start : Nat)
    (p : Parser .integer) : Prop where
  succeeds_iff : ∀ v stop, p.ShowsFrom input memoize start (.ok (.success v, stop)) ↔
    IntegerAt language input memoize (Sign.ahead (input.toList.drop start)) start v stop
  ends : (∃ v stop, p.ShowsFrom input memoize start (.ok (.success v, stop))) ∨
    ∃ consumed stop, p.ShowsFrom input memoize start
        (.ok (.failure ⟨.positioned "integer" start, consumed⟩, stop)) ∧
      (consumed = false ↔
        (blanks (pure language)).ShowsFrom input memoize
          (start + (Sign.ahead (input.toList.drop start)).text.length)
          (.ok (.success (), start)) ∧
        (input.toList.drop start).head?.any Char.isDigit = false)

section Token

variable {p core : Parser .integer} {label : Label} {gap : Nat} (hlabelled : p.WellLabelled)
  (hmade : p = (lexerOf (pure language)).labelled label "integer" core)
  (hbehind : start + (Sign.ahead (input.toList.drop start)).text.length ≤ input.size)

include hsize hstart hlabelled hmade hbehind

theorem showsIntegers_of_breaks
    (hbreaks : (blanks (pure language)).Breaks input Scope.root
      (start + (Sign.ahead (input.toList.drop start)).text.length))
    (hcore : core.Breaks input Scope.root start) :
    ShowsIntegers language input memoize start p := by
  have hnever := blanks_not_shows_of_breaks language memoize hsize hbehind hbreaks
  have hnone : core.Concludes input Scope.root start true none start := hcore
  obtain ⟨hsucceeds, hends⟩ := labelled_shows hsize memoize hstart language hlabelled hmade hnone
  constructor
  · intro v stop
    rw [hsucceeds v stop]
    constructor
    · intro h
      cases h.1
    · intro h
      obtain ⟨gap, _, hshows, -⟩ := h
      exact absurd hshows (hnever gap)
  · refine hends.imp_right fun hfails => ?_
    obtain ⟨stop, hfails⟩ := hfails
    exact ⟨_, stop, hfails, iff_of_false (by simp) fun h => hnever start h.1⟩

theorem showsIntegers_of_runs
    (hskips : (blanks (pure language)).Runs input Scope.root
      (start + (Sign.ahead (input.toList.drop start)).text.length) (.success ()) gap)
    (hcore : core.Concludes input Scope.root start
      (gap != start || (input.toList.drop gap).head?.any Char.isDigit)
      ((Numeral.ahead (input.toList.drop gap)).value?.bind
        (signed? (Sign.ahead (input.toList.drop start)).isNegative))
      (gap + (Numeral.ahead (input.toList.drop gap)).length)) :
    ShowsIntegers language input memoize start p := by
  have hskipped := blanks_shows_of_runs language memoize hsize hbehind hskips
  obtain ⟨hsucceeds, hends⟩ := labelled_shows hsize memoize hstart language hlabelled hmade hcore
  constructor
  · intro v stop
    rw [hsucceeds v stop, Option.bind_eq_some_iff]
    constructor
    · intro h
      obtain ⟨⟨n, hn, hv⟩, hafter⟩ := h
      exact ⟨gap, n, (hskipped gap).2 rfl, hn, Sign.signed?_eq_some_iff.1 hv, hafter⟩
    · intro h
      obtain ⟨place, n, hplace, hn, hv, hafter⟩ := h
      obtain rfl := (hskipped place).1 hplace
      exact ⟨⟨n, hn, Sign.signed?_eq_some_iff.2 hv⟩, hafter⟩
  · refine hends.imp_right fun hfails => ?_
    obtain ⟨stop, hfails⟩ := hfails
    refine ⟨_, stop, hfails, ?_⟩
    rw [hskipped, begun_eq_false_iff]

end Token

include hsize hstart

theorem integer_shows :
    ShowsIntegers language input memoize start (token (pure language) integer) := by
  obtain ⟨_, label, core, hmade, hcore⟩ :=
    (integer_made hsize (lexerOf (pure language))).assembled_bind
  obtain ⟨hbroken, hread⟩ := hcore Scope.root start hstart
  have hlabelled : (token (pure language) integer).WellLabelled :=
    wellLabelled_of_wordless language fun _ => labelled_compositional.integer_offered
  have hbehind : start + (Sign.ahead (input.toList.drop start)).text.length ≤ input.size :=
    add_length_le (Sign.ahead_prefix _).choose_spec.symm hstart
  rcases blanks_commit (pure language) hsize hbehind with hbreaks | ⟨u, gap, hgap, hskips⟩
  · exact showsIntegers_of_breaks hsize memoize hstart language hlabelled hmade hbehind hbreaks
      (hbroken hbreaks)
  · have hnumber := hread gap (Nat.le_trans (Nat.le_add_right _ _) hgap) hskips
    exact showsIntegers_of_runs hsize memoize hstart language hlabelled hmade hbehind hskips
      hnumber

/-- Without a number behind the sign and white space there is no integer. -/
theorem not_integer_shows {gap : Nat}
    (hskips : (blanks (pure language)).ShowsFrom input memoize
      (start + (Sign.ahead (input.toList.drop start)).text.length) (.ok (.success (), gap)))
    (hnone : (Numeral.ahead (input.toList.drop gap)).value? = none) (v : Int) (stop : Nat) :
    ¬ (token (pure language) integer).ShowsFrom input memoize start
      (.ok (.success v, stop)) := by
  intro hshows
  have hinteger := ((integer_shows hsize memoize hstart language).succeeds_iff v stop).1 hshows
  obtain ⟨place, n, hplace, hvalue, -, -⟩ := hinteger
  obtain rfl : place = gap := (Prod.mk.inj (Except.ok.inj (hplace.unique hskips))).2
  rw [hnone] at hvalue
  cases hvalue

end Shown

/-- What is written with a sign is read back, if the language spares digits. -/
theorem integer_reads_written {language : Language} (hspares : language.SparesDigits)
    (memoize : Bool) {input : Array Char} {v : Int} {sign : Sign} {radix : Radix}
    {front digits : List Char} (hmin : -2 ^ 63 ≤ v) (hmax : v < 2 ^ 63)
    (hsign : sign.apply v.natAbs = v) (hfront : radix.Fronts front)
    (hwrites : radix.Writes digits v.natAbs)
    (hwritten : input.toList = sign.text ++ (front ++ digits)) (hsize : input.size < Index.limit) :
    (token (pure language) integer).ShowsFrom input memoize 0
      (.ok (.success v, input.size)) := by
  have htext : input.toList.drop 0 = sign.text ++ (front ++ digits) := hwritten
  have hlength := congrArg List.length hwritten
  have hahead := Numeral.ahead_of_writes hfront hwrites
  have hvalue : (Numeral.ahead (front ++ digits)).value? = some v.natAbs := by
    have hfits : v.natAbs < Index.limit := by
      have hlimit : Index.limit = 2 ^ 64 := rfl
      omega
    rw [hahead]
    exact hwrites.value? hfits
  have hbegins := Numeral.begins_of_value? hvalue
  have hbehind := drop_add_length htext
  have hskips : (blanks (pure language)).ShowsFrom input memoize (0 + sign.text.length)
      (.ok (.success (), 0 + sign.text.length)) := by
    have hi := add_length_le htext (Nat.zero_le _)
    rw [blanks_shows_iff language hsize hi]
    refine blanks_still language hsize hi ?_ Scope.root
    rw [hbehind]
    exact hspares.pieceAhead hbegins
  have hend : 0 + sign.text.length + (Numeral.ahead (front ++ digits)).length = input.size := by
    rw [Array.length_toList] at hlength
    simp only [hahead, hlength, Numeral.length, List.length_append, Nat.zero_add]
  refine ((integer_shows hsize memoize (Nat.zero_le _) language).succeeds_iff v _).2 ?_
  rw [htext, Sign.ahead_append hbegins]
  refine ⟨_, v.natAbs, hskips, ?_, ⟨hsign.symm, hmin, hmax⟩, ?_⟩
  · rw [hbehind]
    exact hvalue
  · rw [hbehind, hend]
    exact blanks_end language hsize

/-- Each integer that fits has a text with a sign in each base. -/
theorem exists_written (radix : Radix) {v : Int} (hmin : -2 ^ 63 ≤ v) (hmax : v < 2 ^ 63) :
    ∃ sign front digits, sign ≠ Sign.none ∧ sign.apply v.natAbs = v ∧ radix.Fronts front ∧
      radix.Writes digits v.natAbs ∧ (sign.text ++ (front ++ digits)).length ≤ 67 := by
  obtain ⟨sign, hne, hsign⟩ := Sign.exists_apply_natAbs v
  have hfront : ∃ front, radix.Fronts front ∧ front.length ≤ 2 := by
    cases radix with
    | decimal => exact ⟨[], .plain, Nat.zero_le _⟩
    | hexadecimal => exact ⟨['0', 'x'], .marked (by decide), Nat.le_refl _⟩
    | octal => exact ⟨['0', 'o'], .marked (by decide), Nat.le_refl _⟩
  obtain ⟨front, hfront, htwo⟩ := hfront
  have hone : sign.text.length ≤ 1 := by
    cases sign <;> decide
  have hfits : v.natAbs < Index.limit := by
    have hlimit : Index.limit = 2 ^ 64 := rfl
    omega
  have hdigits := radix.toDigits_length hfits
  refine ⟨sign, front, _, hne, hsign, hfront, radix.writes_toDigits v.natAbs, ?_⟩
  simp only [List.length_append]
  omega

/-- Integers are read exactly or refused. In every language, from every place of every input, and
whether or not outcomes are remembered, a sign is one whenever it is there; the token succeeds
exactly if white space behind the sign leads to a natural number that fits with that sign, and
white space succeeds behind the number. Else the token fails with its message, and has consumed
unless there is no sign, no white space and no digit. Each integer that fits can be written with
a sign in each base, and is read back if no comment begins with a digit. -/
theorem integers_read (language : Language) (input : Array Char) (hsize : input.size < Index.limit)
    (memoize : Bool) (start : Nat) (hstart : start ≤ input.size) :
    let sign := Sign.ahead (input.toList.drop start)
    (∀ v stop, (token (pure language) integer).ShowsFrom input memoize start
        (.ok (.success v, stop)) ↔ IntegerAt language input memoize sign start v stop) ∧
    ((∃ v stop, (token (pure language) integer).ShowsFrom input memoize start
        (.ok (.success v, stop))) ∨
      ∃ consumed stop, (token (pure language) integer).ShowsFrom input memoize start
          (.ok (.failure ⟨.positioned "integer" start, consumed⟩, stop)) ∧
        (consumed = false ↔
          (blanks (pure language)).ShowsFrom input memoize (start + sign.text.length)
            (.ok (.success (), start)) ∧
          (input.toList.drop start).head?.any Char.isDigit = false)) ∧
    ∀ (radix : Radix) (v : Int), -2 ^ 63 ≤ v → v < 2 ^ 63 →
      (∃ sign front digits, sign ≠ Sign.none ∧ sign.apply v.natAbs = v ∧ radix.Fronts front ∧
        radix.Writes digits v.natAbs ∧ (sign.text ++ (front ++ digits)).length ≤ 67) ∧
      ∀ (sign : Sign) (front digits : List Char), language.SparesDigits →
        sign.apply v.natAbs = v → radix.Fronts front → radix.Writes digits v.natAbs →
        (sign.text ++ (front ++ digits)).length < Index.limit →
          (token (pure language) integer).ShowsFrom (sign.text ++ (front ++ digits)).toArray
            memoize 0 (.ok (.success v, (sign.text ++ (front ++ digits)).length)) := by
  intro sign
  have hshows := integer_shows hsize memoize hstart language
  refine ⟨hshows.succeeds_iff, hshows.ends, fun radix v hmin hmax => ?_⟩
  refine ⟨exists_written radix hmin hmax, ?_⟩
  intro sign front digits hspares hsign hfront hwrites hlength
  exact integer_reads_written hspares memoize hmin hmax hsign hfront hwrites rfl hlength

/-- The least integer, in hexadecimal digits. -/
theorem integers_read_least :
    "-0x8000000000000000".toList.toArray.size < Index.limit ∧
    0 ≤ "-0x8000000000000000".toList.toArray.size ∧
    (token (pure (Language.plain.assemble 0)) integer).ShowsFrom
      "-0x8000000000000000".toList.toArray true 0 (.ok (.success (-9223372036854775808), 19)) := by
  have hsize : "-0x8000000000000000".toList.toArray.size < Index.limit := by decide
  have hread := integers_read (Language.plain.assemble 0) _ hsize true 0 (Nat.zero_le _)
  have hwrites : Radix.hexadecimal.Writes "8000000000000000".toList 9223372036854775808 :=
    ⟨by decide, List.all_eq_true.1 (by decide), by decide⟩
  have hback := (hread.2.2 .hexadecimal (-9223372036854775808) (by decide) (by decide)).2
  exact ⟨hsize, Nat.zero_le _, hback .minus ['0', 'x'] _ (by decide) (by decide)
    (.marked (by decide)) hwrites (by decide)⟩

/-- The sign is not left to choose: a comment may begin like one. And a comment that begins with a
digit hides a number that was written behind a sign. -/
theorem integers_not_read :
    ¬ (∀ (language : Language) (input : Array Char) (sign : Sign) (v : Int) (stop : Nat),
      input.size < Index.limit → sign.text <+: input.toList →
      IntegerAt language input true sign 0 v stop →
        (token (pure language) integer).ShowsFrom input true 0 (.ok (.success v, stop))) ∧
    ¬ (∀ (language : Language) (sign : Sign) (digits : List Char) (v : Int),
      -2 ^ 63 ≤ v → v < 2 ^ 63 → sign.apply v.natAbs = v →
      Radix.decimal.Writes digits v.natAbs →
        (token (pure language) integer).ShowsFrom (sign.text ++ digits).toArray true 0
          (.ok (.success v, (sign.text ++ digits).length))) := by
  constructor
  · intro hall
    let language := (Language.plain.assemble 0).dashComments
    let input := "--\n5".toList.toArray
    have hsize : input.size < Index.limit := by decide
    have hend : language.commentStart ≠ "" → language.commentEnd ≠ "" := by decide
    have hcomment : (blanks (pure language)).ShowsFrom input true 0 (.ok (.success (), 3)) :=
      blanks_shows_skipped language true hsize hend (Nat.zero_le _) ['5']
        (by decide +kernel)
    have hminus : (blanks (pure language)).ShowsFrom input true 1 (.ok (.success (), 1)) :=
      blanks_shows_skipped language true hsize hend (by decide) "-\n5".toList
        (by decide +kernel)
    have hinteger : IntegerAt language input true .none 0 5 4 :=
      ⟨3, 5, hcomment, by decide, by decide, blanks_end language hsize⟩
    refine not_integer_shows hsize true (Nat.zero_le _) language hminus (by decide) 5 4 ?_
    exact hall language input .none 5 4 hsize List.nil_prefix hinteger
  · intro hall
    let language := { Language.plain.assemble 0 with commentLine := "5" }
    let input := "-5".toList.toArray
    have hsize : input.size < Index.limit := by decide
    have hcomment : (blanks (pure language)).ShowsFrom input true 1 (.ok (.success (), 2)) :=
      blanks_shows_skipped language true hsize (by decide) (by decide) []
        (by decide +kernel)
    have hwrites : Radix.decimal.Writes ['5'] 5 :=
      ⟨by decide, List.all_eq_true.1 (by decide), by decide⟩
    refine not_integer_shows hsize true (Nat.zero_le _) language hcomment (by decide) (-5) 2 ?_
    exact hall language .minus ['5'] (-5) (by decide) (by decide) (by decide) hwrites

end Lexer

end ParserKit
