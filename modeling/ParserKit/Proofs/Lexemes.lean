import ParserKit.Proofs.TokenLabels
import ParserKit.Proofs.WhiteSpace

/-!
What whole runs of lexemes show. A lexeme reads its own text and then white space, which
either succeeds or breaks and never refuses: behind a text that was read the lexeme goes on
as white space does.
-/

namespace ParserKit.Lexer

variable {t : Ty} {input : Array Char} {memoize : Bool} {i j : Nat}

/-- The lexer of a language, one of its token parsers, and its white space. -/
def lexerOf (language : Build Language) : Lexer :=
  (language >>= ofLanguage).assemble 0

def token (language : Build Language) (grammar : Lexer → Build (Parser t)) : Parser t :=
  Build.assemble (do grammar (← ofLanguage (← language))) 0

def blanks (language : Build Language) : Parser .unit :=
  token language fun lexer => pure lexer.whiteSpace

theorem lexer_language (language : Build Language) :
    (lexerOf language).language = language.assemble 0 :=
  rfl

theorem token_lexeme (language : Build Language) (grammar : Lexer → Build (Parser t))
    {reads : Parser t → Prop}
    (h : Build.Yields 0 (grammar (lexerOf language)) fun _ p =>
      ∃ core, p = (lexerOf language).lexeme core ∧ reads core) :
    ∃ core, token language grammar = (lexerOf language).lexeme core ∧ reads core := by
  have hmade : ∃ _ : Names, ∃ core,
      ((language >>= ofLanguage) >>= grammar).assemble 0 = (lexerOf language).lexeme core ∧
        reads core := h.assembled_bind
  obtain ⟨_, hmade⟩ := hmade
  exact hmade

theorem blanks_wellLabelled {language : Build Language}
    (hlanguage : Build.Yields 0 language fun names language =>
      language.Ready Parser.labelled names 0) : (blanks language).WellLabelled :=
  grammar_wellLabelled hlanguage fun _ => .pure fun _ hlexer => hlexer.whiteSpace

/-- The parsers of a language have no part in its white space. -/
theorem blanks_labelled (language : Build Language) : (blanks language).WellLabelled := by
  have hmade : ∃ names, ((language >>= whiteSpaceOf).assemble 0).Labelled names 0 :=
    (labelled_compositional.whiteSpaceOf_given (language.assemble 0)).assembled_bind
  exact hmade

theorem blanks_exhaust (language : Build Language) (hsize : input.size < Index.limit)
    (hj : j ≤ input.size) : (blanks language).Exhausts input Scope.root j := by
  have hexhausts : Build.Yields 0 (whiteSpaceOf (language.assemble 0)) fun _ p =>
      p.Exhausts input Scope.root j :=
    (whiteSpaceOf_exhausts _ hsize).mono fun _ _ hexhausts => hexhausts Scope.root j hj
  obtain ⟨_, hmade⟩ : ∃ _ : Names,
      ((language >>= whiteSpaceOf).assemble 0).Exhausts input Scope.root j :=
    hexhausts.assembled_bind
  exact hmade

theorem blanks_commit (language : Build Language) (hsize : input.size < Index.limit)
    (hj : j ≤ input.size) : (blanks language).Commits input Scope.root j :=
  (blanks_exhaust language hsize hj).commits

/-- The parser reads the text up to the place `j` and then what white space reads; it delivers
`v` if white space succeeds, and fails as white space does. -/
def ReadsTo (input : Array Char) (memoize : Bool) (whiteSpace : Parser .unit) (p : Parser t)
    (i : Nat) (v : t.Elem) (j : Nat) : Prop :=
  (∃ stop, whiteSpace.ShowsFrom input memoize j (.ok (.success (), stop)) ∧
    p.ShowsFrom input memoize i (.ok (.success v, stop))) ∨
  ∃ cause stop, whiteSpace.ShowsFrom input memoize j (.ok (.failure cause, stop)) ∧
    p.ShowsFrom input memoize i (.ok (.failure cause, stop))

/-- A parser that reads up to a place succeeds exactly if white space succeeds there. -/
theorem ReadsTo.shows_iff {whiteSpace : Parser .unit} {p : Parser t} {v : t.Elem}
    (h : ReadsTo input memoize whiteSpace p i v j) (w : t.Elem) (stop : Nat) :
    p.ShowsFrom input memoize i (.ok (.success w, stop)) ↔
      w = v ∧ whiteSpace.ShowsFrom input memoize j (.ok (.success (), stop)) := by
  rcases h with ⟨stop', hskips, hp⟩ | ⟨cause, stop', hskips, hp⟩
  · constructor
    · intro hshows
      obtain ⟨rfl, rfl⟩ : w = v ∧ stop = stop' := by simpa using hshows.unique hp
      exact ⟨rfl, hskips⟩
    · rintro ⟨rfl, hskips'⟩
      obtain rfl : stop = stop' := by simpa using hskips'.unique hskips
      exact hp
  · constructor
    · intro hshows
      simpa using hshows.unique hp
    · rintro ⟨-, hskips'⟩
      simpa using hskips'.unique hskips

section Runs

variable {lexer : Lexer} {core : Parser t} {v : t.Elem}

theorem lexeme_readsTo (hcore : core.Runs input Scope.root i (.success v) j) (hi : i ≤ input.size)
    (hskips : ∀ k ≤ input.size, lexer.whiteSpace.Commits input Scope.root k)
    (hlexeme : (lexer.lexeme core).WellLabelled) (hwhiteSpace : lexer.whiteSpace.WellLabelled) :
    ReadsTo input memoize lexer.whiteSpace (lexer.lexeme core) i v j := by
  have hj := hcore.le_size hi
  rcases hskips j hj with ⟨expected, k, hbreaks⟩ | ⟨u, k, -, hruns⟩
  · have hwhole : (lexer.lexeme core).Runs input Scope.root i (.failure ⟨expected, true⟩) k :=
      hcore.lift2_broken _ hbreaks
    exact .inr ⟨_, k, (hwhiteSpace.showsFrom_iff hbreaks hj memoize).2 rfl,
      (hlexeme.showsFrom_iff hwhole hi memoize).2 rfl⟩
  · exact .inl ⟨k, (hwhiteSpace.showsFrom_iff hruns hj memoize).2 rfl,
      (hlexeme.showsFrom_iff (hcore.lift2 _ hruns) hi memoize).2 rfl⟩

theorem lexeme_shows_fail {expected : Expectation}
    (hcore : core.Runs input Scope.root i (.fail expected) i) (hi : i ≤ input.size)
    (hlexeme : (lexer.lexeme core).WellLabelled) :
    (lexer.lexeme core).ShowsFrom input memoize i (.ok (.fail expected, i)) :=
  (hlexeme.showsFrom_iff (hcore.bind_failure _ _) hi memoize).2 rfl

theorem lexeme_not_succeeds (hcore : core.Fails input Scope.root i) (hi : i ≤ input.size)
    (hlexeme : (lexer.lexeme core).WellLabelled) :
    ¬ ∃ w stop, (lexer.lexeme core).ShowsFrom input memoize i (.ok (.success w, stop)) :=
  fun ⟨w, _, hshows⟩ => hlexeme.not_showsFrom_success (hcore.bind _ _) hi memoize w hshows

end Runs

end ParserKit.Lexer
