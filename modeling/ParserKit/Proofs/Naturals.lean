import ParserKit.Proofs.Numerals

/-!
Natural numbers as tokens. A token is a number, the white space behind it and a message that
stands for every failure; it succeeds exactly if both parts do. What is written in one of the
bases, with leading zeros or not, is read back as the number that it stands for.
-/

namespace ParserKit

open Build Lexer

namespace Parser

variable {t : Ty} {input : Array Char} {i j : Nat}

/-- Of a parser that comes to an end, a whole run shows what the parser does. -/
theorem WellLabelled.showsFrom_iff_runs {p : Parser t} (hlabelled : p.WellLabelled)
    (hends : ∃ outcome k, p.Runs input Scope.root i outcome k) (hi : i ≤ input.size)
    (memoize : Bool) {outcome : Outcome t.Elem} :
    p.ShowsFrom input memoize i (.ok (outcome, j)) ↔ p.Runs input Scope.root i outcome j := by
  obtain ⟨outcome', k, hruns⟩ := hends
  rw [hlabelled.showsFrom_iff hruns hi]
  constructor
  · intro h
    obtain ⟨rfl, rfl⟩ := Prod.mk.inj (Except.ok.inj h)
    exact hruns
  · intro h
    obtain ⟨rfl, rfl⟩ := h.unique hruns hi
    rfl

end Parser

namespace Lexer

section Tokens

variable {t : Ty} {input : Array Char} {scope : Scope} {i j k : Nat} {lexer : Lexer}
  {core : Parser t} {begun : Bool} {value? : Option t.Elem}

/-- A lexeme under a message, with an identity. -/
def labelled (lexer : Lexer) (label : Label) (message : String) (core : Parser t) : Parser t :=
  .memo label (.wrap (.label message) (lexer.lexeme core))

theorem label_made {level : Nat} (p : Parser t) (message : String) :
    Yields level (Build.label p message) fun _ q =>
      ∃ label, q = .memo label (.wrap (.label message) p) :=
  memo_meets fun label => ⟨label, rfl⟩

/-- Such a token ends: it delivers the value if there is one and white space succeeds behind it,
and else it fails with its message. It has consumed then if the text has begun or has a value. -/
theorem labelled_ends (hcore : core.Concludes input scope i begun value? j) (hi : i ≤ input.size)
    (hskips : ∀ k ≤ input.size, lexer.whiteSpace.Commits input scope k) (label : Label)
    (message : String) :
    (∃ v k, value? = some v ∧ lexer.whiteSpace.Runs input scope j (.success ()) k ∧
      (lexer.labelled label message core).Runs input scope i (.success v) k) ∨
    ((∀ v k, value? = some v → ¬ lexer.whiteSpace.Runs input scope j (.success ()) k) ∧
      ∃ k, (lexer.labelled label message core).Runs input scope i
        (.failure ⟨.positioned message i, begun || value?.isSome⟩) k) := by
  cases value? with
  | none =>
    have hfails : ∃ expected k, core.Runs input scope i (.failure ⟨expected, begun⟩) k := by
      cases begun with
      | true => exact hcore
      | false =>
        obtain ⟨expected, h⟩ := hcore
        exact ⟨expected, i, h⟩
    obtain ⟨expected, k, hfails⟩ := hfails
    rw [Option.isSome_none, Bool.or_false]
    exact .inr ⟨by simp, k, ((hfails.bind_failure _ _).label_failure message).memo label⟩
  | some v =>
    have hcore : core.Runs input scope i (.success v) j := hcore
    have hj := hcore.le_size hi
    rcases hskips j hj with ⟨expected, k, hbreaks⟩ | ⟨u, k, -, hruns⟩
    · have hwhole := hcore.lift2_broken (fun value _ => value) hbreaks
      rw [Option.isSome_some, Bool.or_true]
      refine .inr ⟨fun w k' _ hruns => ?_, k, (hwhole.label_failure message).memo label⟩
      exact absurd (hbreaks.unique hruns hj).1 (by simp)
    · have hwhole := hcore.lift2 (fun value _ => value) hruns
      exact .inl ⟨v, k, rfl, hruns, (hwhole.label message).memo label⟩

/-- It succeeds exactly if there is a value and white space succeeds behind it. -/
theorem labelled_runs_iff (hcore : core.Concludes input scope i begun value? j)
    (hi : i ≤ input.size)
    (hskips : ∀ k ≤ input.size, lexer.whiteSpace.Commits input scope k) (label : Label)
    (message : String) (v : t.Elem) :
    (lexer.labelled label message core).Runs input scope i (.success v) k ↔
      value? = some v ∧ lexer.whiteSpace.Runs input scope j (.success ()) k := by
  rcases labelled_ends hcore hi hskips label message with
    ⟨w, k', hvalue, hskipped, hwhole⟩ | ⟨hnot, k', hwhole⟩
  · constructor
    · intro h
      obtain ⟨hv, rfl⟩ := h.unique hwhole hi
      obtain rfl := Outcome.success.inj hv
      exact ⟨hvalue, hskipped⟩
    · intro h
      obtain ⟨hv, hruns⟩ := h
      subst hvalue
      obtain rfl := Option.some.inj hv
      obtain ⟨-, rfl⟩ := hruns.unique hskipped (Parser.Runs.le_size hcore hi)
      exact hwhole
  · constructor
    · intro h
      exact absurd (h.unique hwhole hi).1 (by simp)
    · intro h
      exact absurd h.2 (hnot v k h.1)

end Tokens

section WhiteSpace

variable {input : Array Char} {i : Nat} {memoize : Bool} (language : Language)

theorem blanks_shows_iff (hsize : input.size < Index.limit) (hi : i ≤ input.size)
    {outcome : Outcome Unit} {stop : Nat} :
    (blanks (pure language)).ShowsFrom input memoize i (.ok (outcome, stop)) ↔
      (blanks (pure language)).Runs input Scope.root i outcome stop := by
  refine (blanks_labelled (pure language)).showsFrom_iff_runs ?_ hi memoize
  rcases blanks_commit (pure language) hsize hi with ⟨expected, k, h⟩ | ⟨u, k, -, h⟩
  · exact ⟨_, k, h⟩
  · exact ⟨_, k, h⟩

theorem blanks_shows_of_runs {stop : Nat} (memoize : Bool) (hsize : input.size < Index.limit)
    (hi : i ≤ input.size) (h : (blanks (pure language)).Runs input Scope.root i (.success ()) stop)
    (place : Nat) :
    (blanks (pure language)).ShowsFrom input memoize i (.ok (.success (), place)) ↔
      place = stop := by
  rw [blanks_shows_iff language hsize hi]
  constructor
  · intro hplace
    exact (hplace.unique h hi).2
  · intro hplace
    subst hplace
    exact h

theorem blanks_not_shows_of_breaks (memoize : Bool) (hsize : input.size < Index.limit)
    (hi : i ≤ input.size) (h : (blanks (pure language)).Breaks input Scope.root i) (place : Nat) :
    ¬ (blanks (pure language)).ShowsFrom input memoize i (.ok (.success (), place)) := by
  rw [blanks_shows_iff language hsize hi]
  intro hplace
  obtain ⟨expected, k, hbreaks⟩ := h
  exact absurd (hbreaks.unique hplace hi).1 (by simp)

/-- White space ends where the pass over the text does. -/
theorem blanks_shows_skipped (memoize : Bool) (hsize : input.size < Index.limit)
    (hend : language.commentStart ≠ "" → language.commentEnd ≠ "") (hi : i ≤ input.size)
    (rest : List Char) (hskip : skipBlanks language (input.toList.drop i) = some rest) :
    (blanks (pure language)).ShowsFrom input memoize i
      (.ok (.success (), input.size - rest.length)) := by
  obtain ⟨_, hskips⟩ := (whiteSpaceOf_skips language hsize).assembled
  have hpass := (hskips Scope.root i hi).2 hend
  rw [hskip] at hpass
  obtain ⟨j, -, hrest, hruns⟩ := hpass
  rw [← size_sub_length hrest (hruns.le_size hi)]
  exact (blanks_shows_iff language hsize hi).2 hruns

/-- White space stays where there is nothing to skip, in every scope. -/
theorem blanks_still (hsize : input.size < Index.limit) (hi : i ≤ input.size)
    (hnothing : pieceAhead language (input.toList.drop i) = .nothing) (scope : Scope) :
    (blanks (pure language)).Runs input scope i (.success ()) i := by
  obtain ⟨_, hstill⟩ := (whiteSpaceOf_still language hsize).assembled
  exact hstill scope i hi hnothing

/-- White space succeeds at the end of the input. -/
theorem blanks_end (hsize : input.size < Index.limit) :
    (blanks (pure language)).ShowsFrom input memoize input.size
      (.ok (.success (), input.size)) := by
  have hnothing : pieceAhead language (input.toList.drop input.size) = .nothing := by
    rw [← Array.length_toList, List.drop_length]
    exact pieceAhead_nil
  exact (blanks_shows_iff language hsize (Nat.le_refl _)).2
    (blanks_still language hsize (Nat.le_refl _) hnothing Scope.root)

end WhiteSpace

section Numbers

variable {input : Array Char} {i : Nat} {level : Nat} (hsize : input.size < Index.limit)

include hsize

theorem natural_made (lexer : Lexer) :
    Yields level lexer.natural fun _ p => ∃ label core,
      p = lexer.labelled label "natural" core ∧ ∀ scope i, i ≤ input.size →
        core.Concludes input scope i ((input.toList.drop i).head?.any Char.isDigit)
          (Numeral.ahead (input.toList.drop i)).value?
          (i + (Numeral.ahead (input.toList.drop i)).length) := by
  refine (naturalNumber_concludes hsize).bind fun core => (label_made _ _).mono ?_
  intro names p hmade hcore
  obtain ⟨label, rfl⟩ := hmade
  exact ⟨label, core, rfl, hcore⟩

end Numbers

section Shown

variable {t : Ty} {input : Array Char} (hsize : input.size < Index.limit) (memoize : Bool)
  {start : Nat} (hstart : start ≤ input.size) (language : Language)

include hsize hstart

/-- What whole runs show of a lexeme under a message. -/
theorem labelled_shows {p core : Parser t} {begun : Bool} {value? : Option t.Elem} {j : Nat}
    {label : Label} {message : String} (hlabelled : p.WellLabelled)
    (hmade : p = (lexerOf (pure language)).labelled label message core)
    (hcore : core.Concludes input Scope.root start begun value? j) :
    (∀ v stop, p.ShowsFrom input memoize start (.ok (.success v, stop)) ↔
      value? = some v ∧
        (blanks (pure language)).ShowsFrom input memoize j (.ok (.success (), stop))) ∧
    ((∃ v stop, p.ShowsFrom input memoize start (.ok (.success v, stop))) ∨
      ∃ stop, p.ShowsFrom input memoize start
        (.ok (.failure ⟨.positioned message start, begun || value?.isSome⟩, stop))) := by
  have hskips : ∀ k ≤ input.size,
      (lexerOf (pure language)).whiteSpace.Commits input Scope.root k :=
    fun k hk => blanks_commit (pure language) hsize hk
  have hends := labelled_ends hcore hstart hskips label message
  have hshows : ∀ {outcome stop}, p.ShowsFrom input memoize start (.ok (outcome, stop)) ↔
      p.Runs input Scope.root start outcome stop := by
    intro outcome stop
    refine hlabelled.showsFrom_iff_runs ?_ hstart memoize
    rw [hmade]
    rcases hends with ⟨v, k, -, -, hruns⟩ | ⟨-, k, hruns⟩
    · exact ⟨_, k, hruns⟩
    · exact ⟨_, k, hruns⟩
  simp only [hshows]
  subst hmade
  constructor
  · intro v stop
    rw [labelled_runs_iff hcore hstart hskips label message v]
    refine and_congr_right fun hvalue => ?_
    subst hvalue
    exact (blanks_shows_iff language hsize (Parser.Runs.le_size hcore hstart)).symm
  · rcases hends with ⟨v, k, -, -, hruns⟩ | ⟨-, k, hruns⟩
    · exact .inl ⟨v, k, hruns⟩
    · exact .inr ⟨k, hruns⟩

theorem natural_shows :
    (∀ v stop, (token (pure language) natural).ShowsFrom input memoize start
        (.ok (.success v, stop)) ↔
      (Numeral.ahead (input.toList.drop start)).value? = some v ∧
        (blanks (pure language)).ShowsFrom input memoize
          (start + (Numeral.ahead (input.toList.drop start)).length) (.ok (.success (), stop))) ∧
    ((∃ v stop, (token (pure language) natural).ShowsFrom input memoize start
        (.ok (.success v, stop))) ∨
      ∃ stop, (token (pure language) natural).ShowsFrom input memoize start
        (.ok (.failure ⟨.positioned "natural" start,
          (input.toList.drop start).head?.any Char.isDigit⟩, stop))) := by
  obtain ⟨_, label, core, hmade, hcore⟩ :=
    (natural_made hsize (lexerOf (pure language))).assembled_bind
  have hlabelled : (token (pure language) natural).WellLabelled :=
    wellLabelled_of_wordless language fun _ => labelled_compositional.natural_offered
  have hshows := labelled_shows hsize memoize hstart language hlabelled hmade
    (hcore Scope.root start hstart)
  have hbegun : ((input.toList.drop start).head?.any Char.isDigit ||
      (Numeral.ahead (input.toList.drop start)).value?.isSome) =
        (input.toList.drop start).head?.any Char.isDigit := by
    cases hvalue : (Numeral.ahead (input.toList.drop start)).value? with
    | none => exact Bool.or_false _
    | some v => rw [Numeral.begins_of_value? hvalue]; rfl
  rw [hbegun] at hshows
  exact hshows

omit hsize hstart in
theorem numberIn_wellLabelled (radix : Radix) : ((numberIn radix).assemble 0).WellLabelled := by
  cases radix with
  | decimal => exact Build.assemble_wellLabelled labelled_compositional.decimal_given
  | hexadecimal => exact Build.assemble_wellLabelled labelled_compositional.hexadecimal_given
  | octal => exact Build.assemble_wellLabelled labelled_compositional.octal_given

omit language in
theorem numberIn_shows_iff (radix : Radix) (v stop : Nat) :
    ((numberIn radix).assemble 0).ShowsFrom input memoize start (.ok (.success v, stop)) ↔
      ∃ numeral, Numeral.inBase radix (input.toList.drop start) = some numeral ∧
        numeral.value? = some v ∧ stop = start + numeral.length := by
  have hbuild : Yields 0 (numberIn radix) fun _ p => p.ReadsIn input radix :=
    numberIn_reads hsize radix
  obtain ⟨_, hreads⟩ := hbuild.assembled
  have hlabelled := numberIn_wellLabelled radix
  have hread := hreads Scope.root start hstart
  cases hnumeral : Numeral.inBase radix (input.toList.drop start) with
  | none =>
    rw [hnumeral] at hread
    refine iff_of_false (hlabelled.not_showsFrom_success hread hstart memoize v) ?_
    simp
  | some numeral =>
    rw [hnumeral] at hread
    obtain ⟨begun, hread⟩ := hread
    cases hvalue : numeral.value? with
    | none =>
      rw [hvalue] at hread
      refine iff_of_false (hlabelled.not_showsFrom_success hread.fails hstart memoize v) ?_
      simp [hvalue]
    | some w =>
      rw [hvalue] at hread
      have hruns : ((numberIn radix).assemble 0).Runs input Scope.root start (.success w)
          (start + numeral.length) := hread
      rw [hlabelled.showsFrom_iff hruns hstart]
      simp only [Option.some.injEq, exists_eq_left', hvalue]
      constructor
      · intro h
        obtain ⟨hv, hstop⟩ := Prod.mk.inj (Except.ok.inj h)
        exact ⟨(Outcome.success.inj hv).symm, hstop⟩
      · intro h
        obtain ⟨rfl, rfl⟩ := h
        rfl

end Shown

/-- Natural numbers are read exactly or refused. In every language, from every place of every
input, and whether or not outcomes are remembered, the token of natural numbers succeeds exactly
if the whole number that lies ahead fits and white space succeeds behind it. Else it fails with
its message, and has consumed exactly if a digit lies ahead. The parsers of single bases read
their own numbers, and no white space. Each number that fits has a text in each base, and every
such text is read back as the number. -/
theorem naturals_read (language : Language) (input : Array Char) (hsize : input.size < Index.limit)
    (memoize : Bool) (start : Nat) (hstart : start ≤ input.size) :
    let text := input.toList.drop start
    (∀ v stop, (token (pure language) natural).ShowsFrom input memoize start
        (.ok (.success v, stop)) ↔
      (Numeral.ahead text).value? = some v ∧
        (blanks (pure language)).ShowsFrom input memoize (start + (Numeral.ahead text).length)
          (.ok (.success (), stop))) ∧
    ((∃ v stop, (token (pure language) natural).ShowsFrom input memoize start
        (.ok (.success v, stop))) ∨
      ∃ stop, (token (pure language) natural).ShowsFrom input memoize start
        (.ok (.failure ⟨.positioned "natural" start, text.head?.any Char.isDigit⟩, stop))) ∧
    (∀ radix v stop, ((numberIn radix).assemble 0).ShowsFrom input memoize start
        (.ok (.success v, stop)) ↔
      ∃ numeral, Numeral.inBase radix text = some numeral ∧ numeral.value? = some v ∧
        stop = start + numeral.length) ∧
    (∀ (radix : Radix) (n : Nat), n < Index.limit →
      radix.Writes (Nat.toDigits radix.base n) n ∧ (Nat.toDigits radix.base n).length ≤ 64) ∧
    ∀ (radix : Radix) (front digits : List Char) (n : Nat), radix.Fronts front →
      radix.Writes digits n → n < Index.limit → (front ++ digits).length < Index.limit →
        ((numberIn radix).assemble 0).ShowsFrom (front ++ digits).toArray memoize 0
          (.ok (.success n, (front ++ digits).length)) ∧
        (token (pure language) natural).ShowsFrom (front ++ digits).toArray memoize 0
          (.ok (.success n, (front ++ digits).length)) := by
  intro text
  obtain ⟨hnatural, hrefused⟩ := natural_shows hsize memoize hstart language
  refine ⟨hnatural, hrefused, numberIn_shows_iff hsize memoize hstart, ?_, ?_⟩
  · intro radix n hn
    exact ⟨radix.writes_toDigits n, radix.toDigits_length hn⟩
  · intro radix front digits n hfront hwrites hn hlength
    have hwritten : (front ++ digits).toArray.size < Index.limit := hlength
    have htext : (front ++ digits).toArray.toList.drop 0 = front ++ digits := by simp
    have hvalue : radix.value? digits = some n := hwrites.value? hn
    have hend : 0 + (front.length + digits.length) = (front ++ digits).length := by simp
    constructor
    · rw [numberIn_shows_iff hwritten memoize (Nat.zero_le _), htext,
        Numeral.inBase_of_writes hfront hwrites]
      exact ⟨_, rfl, hvalue, hend.symm⟩
    · have hread := (natural_shows hwritten memoize (Nat.zero_le _) language).1
      rw [htext, Numeral.ahead_of_writes hfront hwrites] at hread
      refine (hread n _).2 ⟨hvalue, ?_⟩
      show (blanks (pure language)).ShowsFrom _ memoize (0 + (front.length + digits.length)) _
      rw [hend]
      exact blanks_end language hwritten

/-- The largest number that fits, in hexadecimal digits. -/
theorem naturals_read_largest :
    "0xFFFFFFFFFFFFFFFF".toList.toArray.size < Index.limit ∧
    0 ≤ "0xFFFFFFFFFFFFFFFF".toList.toArray.size ∧
    (token (pure (Language.plain.assemble 0)) natural).ShowsFrom
      "0xFFFFFFFFFFFFFFFF".toList.toArray true 0 (.ok (.success 18446744073709551615, 18)) := by
  have hsize : "0xFFFFFFFFFFFFFFFF".toList.toArray.size < Index.limit := by decide
  have hread := naturals_read (Language.plain.assemble 0) _ hsize true 0 (Nat.zero_le _)
  have hblanks : (blanks (pure (Language.plain.assemble 0))).ShowsFrom
      "0xFFFFFFFFFFFFFFFF".toList.toArray true 18 (.ok (.success (), 18)) :=
    blanks_end _ hsize
  exact ⟨hsize, Nat.zero_le _, (hread.1 _ 18).2 ⟨by decide, hblanks⟩⟩

end Lexer

end ParserKit
