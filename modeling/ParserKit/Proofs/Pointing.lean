import ParserKit.Proofs.Consumption
import ParserKit.Proofs.Diagnosis
import ParserKit.Proofs.Displacement

/-!
Failures point into the text that was looked at. An attempt that fails leaves no offset behind
the end of the input, and none in front of its start unless some reader sets the position. The
first of these holds of each reader and is passed on by everything that reads after another
thing, the second as well because attempts do not go back. What is remembered points behind the
place that it is remembered for.
-/

namespace ParserKit

/-- The offsets of an expectation lie in the input, and not before the start where going
forward is promised. -/
def Expectation.PointsInto (forward : Prop) (start size : Nat) (expected : Expectation) : Prop :=
  ∀ leaf ∈ expected.leaves, ∀ own, leaf.ownOffset = some own →
    (forward → start ≤ own) ∧ own ≤ size

/-- A failure points into the input. -/
def Outcome.PointsInto (forward : Prop) (start size : Nat) {α : Type} : Outcome α → Prop
  | .success _ => True
  | .failure cause => cause.expected.PointsInto forward start size

namespace Expectation.PointsInto

variable {forward : Prop} {start middle size : Nat}

theorem nothing : PointsInto forward start size .nothing := by
  rintro leaf hleaf own hown
  obtain rfl : leaf = .nothing := by simpa using hleaf
  exact absurd hown (by simp [ownOffset])

theorem message (text : String) : PointsInto forward start size (.message text) := by
  rintro leaf hleaf own hown
  obtain rfl : leaf = .message text := by simpa using hleaf
  exact absurd hown (by simp [ownOffset])

/-- What an attempt says about its own start. -/
theorem positioned (hstart : start ≤ size) (text : String) :
    PointsInto forward start size (.positioned text start) := by
  rintro leaf hleaf own hown
  obtain rfl : leaf = .positioned text start := by simpa using hleaf
  obtain rfl := Option.some.inj hown
  exact ⟨fun _ => Nat.le_refl start, hstart⟩

theorem unexpected (hstart : start ≤ size) (found : String) :
    PointsInto forward start size (.unexpected found start) := by
  rintro leaf hleaf own hown
  obtain rfl : leaf = .unexpected found start := by simpa using hleaf
  obtain rfl := Option.some.inj hown
  exact ⟨fun _ => Nat.le_refl start, hstart⟩

theorem merge {first second : Expectation} (h : first.PointsInto forward start size)
    (h' : second.PointsInto forward start size) :
    (first.merge second).PointsInto forward start size := by
  intro leaf hleaf
  rw [leaves_merge] at hleaf
  exact (List.mem_append.1 hleaf).elim (h leaf) (h' leaf)

theorem earlier {expected : Expectation} (h : expected.PointsInto forward middle size)
    (hbefore : forward → start ≤ middle) : expected.PointsInto forward start size := by
  intro leaf hleaf own hown
  obtain ⟨hahead, hsize⟩ := h leaf hleaf own hown
  exact ⟨fun hf => Nat.le_trans (hbefore hf) (hahead hf), hsize⟩

/-- The place that is reported is one of these offsets. -/
theorem offset {expected : Expectation} (h : expected.PointsInto forward start size) {own : Nat}
    (hown : expected.offset = some own) : (forward → start ≤ own) ∧ own ≤ size := by
  have hlargest := expected.offset_largest
  rw [hown] at hlargest
  obtain ⟨⟨leaf, hleaf, hoffset⟩, -⟩ := hlargest
  exact h leaf hleaf own hoffset

end Expectation.PointsInto

namespace Outcome.PointsInto

variable {forward : Prop} {start middle size : Nat} {α : Type} {outcome : Outcome α}

theorem earlier (h : outcome.PointsInto forward middle size) (hbefore : forward → start ≤ middle) :
    outcome.PointsInto forward start size := by
  cases outcome with
  | success value => trivial
  | failure cause => exact Expectation.PointsInto.earlier h hbefore

theorem consumedIf (h : outcome.PointsInto forward start size) (moved : Bool) :
    (outcome.consumedIf moved).PointsInto forward start size := by
  cases outcome <;> exact h

theorem join {first : Expectation} (hfirst : first.PointsInto forward start size)
    (h : outcome.PointsInto forward start size) :
    (outcome.join first).PointsInto forward start size := by
  cases outcome with
  | success value => trivial
  | failure cause => exact hfirst.merge h

end Outcome.PointsInto

/-- A reader of the library that does not set the position. -/
inductive Atom.Steady : ∀ t, Atom t → Prop where
  | relative {t : Ty} {a : Atom t} (h : Relative t a) : Steady t a
  | position : Steady _ .position

/-- Any reader of the library. -/
inductive Atom.Supplied : ∀ t, Atom t → Prop where
  | steady {t : Ty} {a : Atom t} (h : Steady t a) : Supplied t a
  | jump (target : Nat) : Supplied _ (.jump target)

namespace Atom

variable {forward : Prop} {t : Ty} {a : Atom t} {c after : Cursor}

theorem Supplied.builtin (h : Supplied t a) : a.Builtin := by
  rcases h with ⟨h | -⟩ | _
  · cases h <;> trivial
  · trivial
  · trivial

theorem Steady.isForward (h : Steady t a) : a.Forward := by
  rcases h with h | -
  · cases h <;> trivial
  · trivial

theorem readSatisfy_points {accepts : Char → Bool} {outcome : Outcome Char}
    (hc : c.position ≤ c.input.size) (h : readSatisfy accepts c = .ok (outcome, after)) :
    outcome.PointsInto forward c.position c.input.size := by
  simp only [readSatisfy, bind, Except.bind] at h
  split at h
  · exact absurd h (by simp)
  · split at h
    · split at h
      · split at h
        · exact absurd h (by simp)
        · obtain ⟨rfl, -⟩ := Prod.mk.inj (Except.ok.inj h)
          trivial
      · obtain ⟨rfl, -⟩ := Prod.mk.inj (Except.ok.inj h)
        exact .unexpected hc _
    · obtain ⟨rfl, -⟩ := Prod.mk.inj (Except.ok.inj h)
      exact .unexpected hc _

theorem readChar_points {x : Char} {outcome : Outcome Char} (hc : c.position ≤ c.input.size)
    (h : readChar x c = .ok (outcome, after)) :
    outcome.PointsInto forward c.position c.input.size := by
  simp only [readChar, bind, Except.bind] at h
  split at h
  · exact absurd h (by simp)
  · split at h
    · split at h
      · exact absurd h (by simp)
      · obtain ⟨rfl, -⟩ := Prod.mk.inj (Except.ok.inj h)
        trivial
    · obtain ⟨rfl, -⟩ := Prod.mk.inj (Except.ok.inj h)
      exact .positioned hc _

/-- A literal that matches in part still points at its start. -/
theorem readString_points {chars : String} {outcome : Outcome String}
    (hc : c.position ≤ c.input.size) (h : readString chars c = .ok (outcome, after)) :
    outcome.PointsInto forward c.position c.input.size := by
  simp only [readString, bind, Except.bind] at h
  split at h
  · exact absurd h (by simp)
  · split at h
    · exact absurd h (by simp)
    · split at h
      · obtain ⟨rfl, -⟩ := Prod.mk.inj (Except.ok.inj h)
        trivial
      · obtain ⟨rfl, -⟩ := Prod.mk.inj (Except.ok.inj h)
        exact .positioned hc _

theorem readEof_points (hc : c.position ≤ c.input.size) :
    (readEof c).PointsInto forward c.position c.input.size := by
  unfold readEof
  split
  · trivial
  · exact .positioned hc _

theorem Supplied.read_points (ha : Supplied t a) (hc : c.position ≤ c.input.size)
    {outcome : Outcome t.Elem} (h : a.read c = .ok (some outcome, after)) :
    outcome.PointsInto forward c.position c.input.size := by
  rcases ha with ⟨hrelative | -⟩ | target
  · cases hrelative with
    | ret value =>
      obtain ⟨rfl, -⟩ := some_inj h
      trivial
    | fail message =>
      obtain ⟨rfl, -⟩ := some_inj h
      exact .message message
    | zero =>
      obtain ⟨rfl, -⟩ := some_inj h
      exact .nothing
    | unexpected found =>
      obtain ⟨rfl, -⟩ := some_inj h
      exact .unexpected hc found
    | satisfy accepts => exact readSatisfy_points hc (eq_ok_of_map_some h)
    | char x => exact readChar_points hc (eq_ok_of_map_some h)
    | string chars => exact readString_points hc (eq_ok_of_map_some h)
    | eof =>
      obtain ⟨rfl, -⟩ := some_inj h
      exact readEof_points hc
  · obtain ⟨rfl, -⟩ := some_inj h
    trivial
  · obtain ⟨next, -, hfound⟩ := Except.exists_of_map_eq_ok h
    obtain ⟨rfl, -⟩ := some_inj (congrArg Except.ok hfound)
    trivial

end Atom

/-- A treated failure is that of the part, or it points at the start of the part. -/
theorem Wrapper.finish_points {forward : Prop} {a b : Ty} {wrapper : Wrapper a b}
    {outcome : Outcome a.Elem} {treated : Outcome b.Elem} {start size : Nat} {c after : Cursor}
    (hstart : start ≤ size) (h : outcome.PointsInto forward start size)
    (hfinish : wrapper.finish start outcome c = .ok (treated, after)) :
    treated.PointsInto forward start size := by
  cases wrapper with
  | convert f =>
    obtain ⟨converted, hconvert, hpair⟩ := Except.exists_of_map_eq_ok hfinish
    obtain ⟨rfl, -⟩ := Prod.mk.inj hpair
    cases outcome with
    | success value =>
      obtain ⟨value', -, rfl⟩ := Except.exists_of_map_eq_ok hconvert
      trivial
    | failure cause =>
      obtain rfl := Except.ok.inj hconvert
      exact h
  | attempt =>
    cases outcome with
    | success value =>
      obtain ⟨rfl, -⟩ := Prod.mk.inj (Except.ok.inj hfinish)
      trivial
    | failure cause =>
      obtain ⟨next, -, hpair⟩ := Except.exists_of_map_eq_ok hfinish
      obtain ⟨rfl, -⟩ := Prod.mk.inj hpair
      exact h
  | label message =>
    obtain ⟨rfl, -⟩ := Prod.mk.inj (Except.ok.inj hfinish)
    cases outcome with
    | success value => trivial
    | failure cause => exact .positioned hstart message
  | refuse =>
    simp only [finish, finishRefuse, bind, Except.bind] at hfinish
    split at hfinish
    · exact absurd hfinish (by simp)
    · split at hfinish
      · split at hfinish
        · exact absurd hfinish (by simp)
        · obtain ⟨rfl, -⟩ := Prod.mk.inj (Except.ok.inj hfinish)
          exact .unexpected hstart _
      · obtain ⟨rfl, -⟩ := Prod.mk.inj (Except.ok.inj hfinish)
        trivial
  | spanned =>
    obtain ⟨rfl, -⟩ := Prod.mk.inj (Except.ok.inj hfinish)
    cases outcome <;> exact h

/-- Remembered failures point behind the places that they are remembered for. -/
def State.Pointing (forward : Prop) (s : State) : Prop :=
  ∀ (key : Key) (start : Nat) (entry : Entry), s.cursor.cache[(key, start)]? = some entry →
    entry.outcome.PointsInto forward start s.cursor.input.size

theorem State.Pointing.remember {forward : Prop} {s : State} (h : s.Pointing forward) {t : Ty}
    (key : Key) {start : Nat} {outcome : Outcome t.Elem}
    (hpoints : outcome.PointsInto forward start s.cursor.input.size) :
    (s.remember key start outcome).Pointing forward := by
  intro key' start' entry hentry
  simp only [State.remember, Cursor.input_remember] at hentry ⊢
  by_cases hm : s.cursor.memoize = true
  · rw [Cursor.cache_remember hm] at hentry
    split at hentry
    · rename_i hplace
      obtain ⟨-, rfl⟩ := Prod.mk.inj hplace
      obtain rfl := Option.some.inj hentry
      exact hpoints
    · exact h key' start' entry hentry
  · simp only [Cursor.remember, hm] at hentry
    exact h key' start' entry hentry

open Result

/-- The end of an attempt whose failure, like those it leaves in memory, points ahead. -/
structure Aims (forward : Prop) (input : Array Char) (start : Nat) {α : Type}
    (result : Outcome α × State) : Prop where
  reached : Reached forward input start result
  pointing : result.2.Pointing forward
  points : result.1.PointsInto forward start input.size

/-- An action whose failures point into the input, wherever it begins. -/
structure Action.Aimed (forward : Prop) {α : Type} (x : Action α) : Prop where
  fair : x.Fair forward
  points : ∀ s : State, s.Sound forward → s.Pointing forward → (x s).Ensures fun result =>
    result.2.Pointing forward ∧ result.1.PointsInto forward s.position s.cursor.input.size

namespace Action.Aimed

variable {forward : Prop} {α β : Type}

theorem run {x : Action α} (h : x.Aimed forward) {s : State} (hs : s.Sound forward)
    (hpast : s.Pointing forward) :
    (x s).Ensures (Aims forward s.cursor.input s.position) := by
  intro result hresult
  obtain ⟨hpointing, hpoints⟩ := h.points s hs hpast result hresult
  exact ⟨h.fair s hs result hresult, hpointing, hpoints⟩

theorem atom {t : Ty} {a : Atom t} (ha : Atom.Supplied t a)
    (hforward : forward → Atom.Steady t a) : Aimed forward (Action.atom a) where
  fair := .atom ha.builtin fun hf => (hforward hf).isForward
  points := by
    intro s hs hpast
    have hread : (Result.ofExcept (s.read a)).Ensures fun found => s.read a = .ok found :=
      .ofExcept fun _ h => h
    refine hread.bind ?_
    rintro ⟨found, after⟩ hread
    cases found with
    | none => exact fun _ h => absurd h (by simp)
    | some outcome =>
      obtain ⟨⟨found, cursor⟩, hcursor, hpair⟩ := Except.exists_of_map_eq_ok hread
      obtain ⟨rfl, rfl⟩ := Prod.mk.inj hpair
      have hpoints : outcome.PointsInto forward s.position s.cursor.input.size :=
        ha.read_points hs.within hcursor
      rw [a.read_local s.cursor] at hcursor
      obtain ⟨moved, -, hmoved⟩ := Except.exists_of_map_eq_ok hcursor
      obtain ⟨-, rfl⟩ := Prod.mk.inj hmoved
      exact .done ⟨hpast, hpoints⟩

theorem wrapped {a b : Ty} (wrapper : Wrapper a b) {x : Action a.Elem} (h : x.Aimed forward) :
    (x.wrapped wrapper).Aimed forward where
  fair := h.fair.wrapped wrapper
  points := by
    intro s hs hpast
    refine (h.run hs hpast).bind ?_
    rintro ⟨outcome, after⟩ ⟨hreached, hpointing, hpoints⟩
    refine .ofExcept ?_
    rintro ⟨treated, final⟩ hfinish
    obtain ⟨⟨found, cursor⟩, hcursor, hpair⟩ := Except.exists_of_map_eq_ok hfinish
    obtain ⟨rfl, rfl⟩ := Prod.mk.inj hpair
    have htreated := Wrapper.finish_points hs.within hpoints hcursor
    rw [wrapper.finish_local s.position outcome after.cursor] at hcursor
    obtain ⟨moved, -, hmoved⟩ := Except.exists_of_map_eq_ok hcursor
    obtain ⟨-, rfl⟩ := Prod.mk.inj hmoved
    exact ⟨hpointing, htreated⟩

theorem chain {x : Action α} {f : α → Action β} (h : x.Aimed forward)
    (hf : ∀ value, (f value).Aimed forward) : (x.chain f).Aimed forward where
  fair := h.fair.chain fun value => (hf value).fair
  points := by
    intro s hs hpast
    refine (h.run hs hpast).bind ?_
    rintro ⟨outcome, middle⟩ ⟨hreached, hpointing, hpoints⟩
    cases outcome with
    | failure cause => exact .done ⟨hpointing, hpoints⟩
    | success value =>
      refine ((hf value).points middle hreached.sound hpointing).bind ?_
      rintro ⟨outcome, after⟩ ⟨hafter, hlater⟩
      rw [hreached.input_eq] at hlater
      exact .done ⟨hafter, (hlater.earlier hreached.honest.ahead).consumedIf _⟩

theorem sequenceFrom {n : Nat} {x : Fin n → Action (Option α)} (h : ∀ i, (x i).Aimed forward)
    (items : List (Fin n)) (values : List α) {input : Array Char} {start : Nat} {s : State}
    (hinput : s.cursor.input = input) (hs : s.Sound forward) (hpast : s.Pointing forward)
    (hahead : forward → start ≤ s.position) :
    (Action.sequence x start items values s).Ensures fun result =>
      result.2.Pointing forward ∧ result.1.PointsInto forward start input.size := by
  induction items generalizing values s with
  | nil => exact .done ⟨hpast, trivial⟩
  | cons i rest ih =>
    refine ((h i).run hs hpast).bind ?_
    rintro ⟨outcome, after⟩ ⟨hreached, hpointing, hpoints⟩
    rw [hinput] at hreached hpoints
    cases outcome with
    | success value =>
      exact ih (collect values value) hreached.input_eq hreached.sound hpointing fun hf =>
        Nat.le_trans (hahead hf) (hreached.honest.ahead hf)
    | failure cause =>
      have hfailure : (Outcome.failure cause : Outcome (List α)).PointsInto forward s.position
          input.size := hpoints
      exact .done ⟨hpointing, (hfailure.earlier hahead).consumedIf _⟩

theorem sequence {n : Nat} {x : Fin n → Action (Option α)} (h : ∀ i, (x i).Aimed forward)
    (items : List (Fin n)) :
    Aimed forward fun s => Action.sequence x s.position items [] s where
  fair := fun _ hs => Fair.sequence (fun i => (h i).fair) items [] rfl hs fun _ => Nat.le_refl _
  points := fun _ hs hpast => sequenceFrom h items [] rfl hs hpast fun _ => Nat.le_refl _

theorem choice {x y : Action α} (hx : x.Aimed forward) (hy : y.Aimed forward) :
    (x.choice y).Aimed forward where
  fair := hx.fair.choice hy.fair
  points := by
    intro s hs hpast
    refine (hx.run hs hpast).bind ?_
    rintro ⟨outcome, after⟩ ⟨hreached, hpointing, hpoints⟩
    cases outcome with
    | success value => exact .done ⟨hpointing, hpoints⟩
    | failure cause =>
      by_cases hc : cause.consumed = true
      · simp only [hc, if_true]
        exact .done ⟨hpointing, hpoints⟩
      · have hinput : after.cursor.input = s.cursor.input := hreached.input_eq
        have hstart : s.position ≤ after.cursor.input.size := hinput ▸ hs.within
        simp only [hc, State.jumpTo_eq, hstart, if_true]
        refine (hy.points (after.movedTo s.position) (hreached.sound.movedTo hstart)
          hpointing).bind ?_
        rintro ⟨outcome, final⟩ ⟨hfinal, hlater⟩
        have hsecond : outcome.PointsInto forward s.position s.cursor.input.size := hinput ▸ hlater
        exact .done ⟨hfinal, .join hpoints hsecond⟩

theorem remembered {t : Ty} (key : Key) {x : Action t.Elem} (h : x.Aimed forward) :
    (x.remembered key).Aimed forward where
  fair := h.fair.remembered key
  points := by
    intro s hs hpast
    by_cases hm : s.cursor.memoize = true
    · rcases remembered_cases hm key x with ⟨outcome, stop, hentry, hhit⟩ | hmiss
      · rw [hhit]
        exact .done ⟨hpast, hpast key s.cursor.position _ hentry⟩
      · have hrun := h.run
          (s := { s with cursor := { s.cursor with misses := s.cursor.misses + 1 } })
          ⟨hs.within, hs.remembered⟩ hpast
        rw [hmiss]
        refine hrun.bind ?_
        rintro ⟨outcome, after⟩ ⟨hreached, hpointing, hpoints⟩
        have hinput : after.cursor.input = s.cursor.input := hreached.input_eq
        exact .done ⟨hpointing.remember key (hinput ▸ hpoints), hpoints⟩
    · simp only [Action.remembered, hm]
      exact h.points s hs hpast

/-- A repetition fails only with a failure of an occurrence. -/
theorem repeatFrom {x : Action α} (h : x.Aimed forward) (fuel : Nat) (values : List α)
    {input : Array Char} {start : Nat} {s : State} (hinput : s.cursor.input = input)
    (hs : s.Sound forward) (hpast : s.Pointing forward) (hahead : forward → start ≤ s.position) :
    (x.repeatFrom fuel values s).Ensures fun result =>
      result.2.Pointing forward ∧ result.1.PointsInto forward start input.size := by
  induction fuel generalizing values s with
  | zero => exact fun _ h => absurd h (by simp [Action.repeatFrom])
  | succ fuel ih =>
    refine (h.run hs hpast).bind ?_
    rintro ⟨outcome, after⟩ ⟨hreached, hpointing, hpoints⟩
    rw [hinput] at hreached hpoints
    cases outcome with
    | success value =>
      simp only [Turn.next, Turn.ofValue, ofExcept_ok, done_bind]
      by_cases hmoved : after.position = s.position
      · rw [if_pos hmoved]
        exact .done ⟨hpointing, trivial⟩
      · rw [if_neg hmoved]
        exact ih _ hreached.input_eq hreached.sound hpointing fun hf =>
          Nat.le_trans (hahead hf) (hreached.honest.ahead hf)
    | failure cause =>
      by_cases hc : cause.consumed = true
      · simp only [Turn.next, hc, if_true, ofExcept_ok, done_bind]
        exact .done ⟨hpointing, Expectation.PointsInto.earlier hpoints hahead⟩
      · have hbefore : s.position ≤ after.cursor.input.size := by
          rw [hreached.input_eq, ← hinput]
          exact hs.within
        simp only [Turn.next, hc, State.jumpTo_eq, hbefore, if_true]
        exact .done ⟨hpointing, trivial⟩

theorem many {x : Action α} (h : x.Aimed forward) (fuel : Nat) :
    (x.repeatFrom fuel []).Aimed forward where
  fair := fun _ hs => h.fair.repeatFrom fuel [] rfl hs fun _ => Nat.le_refl _
  points := fun _ hs hpast => h.repeatFrom fuel [] rfl hs hpast fun _ => Nat.le_refl _

theorem repeatFrom1 {x : Action α} (h : x.Aimed forward) (fuel : Nat) :
    (x.repeatFrom1 (x.repeatFrom fuel)).Aimed forward where
  fair := h.fair.repeatFrom1 fuel
  points := by
    intro s hs hpast
    refine (h.run hs hpast).bind ?_
    rintro ⟨outcome, after⟩ ⟨hreached, hpointing, hpoints⟩
    cases outcome with
    | failure cause => exact .done ⟨hpointing, hpoints⟩
    | success value =>
      simp only [Turn.first, Turn.ofValue]
      by_cases hmoved : after.position = s.position
      · rw [if_pos hmoved]
        exact .done ⟨hpointing, trivial⟩
      · rw [if_neg hmoved]
        exact h.repeatFrom fuel _ hreached.input_eq hreached.sound hpointing hreached.honest.ahead

/-- A word is refused at its start. -/
theorem unreserved (isReserved : String → Bool) (kind : String) {x : Action String}
    (h : x.Aimed forward) : (Action.unreserved isReserved kind x).Aimed forward where
  fair := by
    intro s hs
    refine (h.fair s hs).bind ?_
    rintro ⟨outcome, after⟩ hreached
    cases outcome with
    | failure cause => exact .done hreached
    | success name =>
      have hstay : Reached forward s.cursor.input after.position
          (Lexer.reservedOutcome isReserved kind s.position name, after) := by
        refine ⟨hreached.input_eq, hreached.sound, .atRest hreached.honest.within ?_⟩
        unfold Lexer.reservedOutcome
        split <;> simp
      exact .done (hstay.settled hreached.honest.ahead)
  points := by
    intro s hs hpast
    refine (h.points s hs hpast).bind ?_
    rintro ⟨outcome, after⟩ ⟨hpointing, hpoints⟩
    cases outcome with
    | failure cause => exact .done ⟨hpointing, hpoints⟩
    | success name =>
      have hrefused : (Lexer.reservedOutcome isReserved kind s.position name).PointsInto forward
          s.position s.cursor.input.size := by
        unfold Lexer.reservedOutcome
        split
        · exact .unexpected hs.within _
        · trivial
      exact .done ⟨hpointing, hrefused.consumedIf _⟩

end Action.Aimed

namespace Parser

variable {forward : Prop} {readers : ∀ t, Atom t → Prop}
  {wrappers : ∀ a b, Wrapper a b → Parser a → Prop} {t : Ty}

/-- Grammars of the readers of the library are aimed, at every depth of the evaluation. -/
theorem eval_aimed
    (hreaders : ∀ t a, readers t a → Atom.Supplied t a ∧ (forward → Atom.Steady t a)) (fuel : Nat)
    (scope : Scope) (p : Parser t)
    (hscope : ∀ rule ∈ scope.rules, rule.body.Composed readers wrappers)
    (hp : p.Composed readers wrappers) : (p.eval fuel scope).Aimed forward := by
  have htimeout : ∀ {α : Type}, Action.Aimed forward (fun _ => .timeout : Action α) :=
    ⟨fun _ _ _ h => absurd h (by simp), fun _ _ _ _ h => absurd h (by simp)⟩
  -- refusing a word takes two units of fuel at once
  induction fuel using Nat.strongRecOn generalizing t scope with
  | ind fuel ihbelow =>
    cases fuel with
    | zero => exact htimeout
    | succ fuel =>
      have ih := fun {t : Ty} (scope : Scope) (p : Parser t) =>
        ihbelow fuel (Nat.lt_succ_self fuel) scope p
      cases hp with
      | atom ha => exact .atom (hreaders _ _ ha).1 (hreaders _ _ ha).2
      | @wrap a b wrapper p hwrapper hp => exact (ih scope p hscope hp).wrapped wrapper
      | @unreserved word hword isReserved kind =>
        cases fuel with
        | zero => exact htimeout
        | succ fuel =>
          rw [eval_unreserved]
          exact (ihbelow fuel (by omega) scope word hscope hword).unreserved isReserved kind
      | @bind a b p captures next hp hnext =>
        exact (ih (scope.holding captures) p hscope hp).chain fun value =>
          ih scope (next value) hscope (hnext value)
      | @sequence t n items h =>
        exact .sequence (fun i => ih (scope.holding (ownedItems items)) (items i) hscope (h i)) _
      | @choice t first second h h' =>
        exact (ih (scope.holding second.owned) first hscope h).choice (ih scope second hscope h')
      | @memo t label p hp => exact (ih scope p hscope hp).remembered (scope.key label)
      | @many t p hp => exact (ih (scope.holding p.owned) p hscope hp).many fuel
      | @many1 t p hp => exact (ih (scope.holding p.owned) p hscope hp).repeatFrom1 fuel
      | @recursive t name body hbody =>
        exact ih (scope.define name body) body (List.forall_mem_cons.2 ⟨hbody, hscope⟩) hbody
      | rule name =>
        simp only [eval]
        cases hfound : scope.resolve name t with
        | none => exact ⟨fun _ _ _ h => absurd h (by simp), fun _ _ _ _ h => absurd h (by simp)⟩
        | some found =>
          obtain ⟨body, inner⟩ := found
          obtain ⟨hbody, hinner⟩ := Scope.forall_of_resolve hscope hfound
          exact ih inner body hinner hbody
      | @fresh t level captures body hbody =>
        have hbuilt := fun generation => ih (scope.renew level generation) (body ()) hscope hbody
        exact ⟨fun s hs => (hbuilt s.renew.1).fair s.renew.2 ⟨hs.within, hs.remembered⟩,
          fun s hs hpast => (hbuilt s.renew.1).points s.renew.2 ⟨hs.within, hs.remembered⟩ hpast⟩
      | @tick t counter p hp =>
        have hpart := ih scope p hscope hp
        exact ⟨fun s hs => hpart.fair (s.tick counter) ⟨hs.within, hs.remembered⟩,
          fun s hs hpast => hpart.points (s.tick counter) ⟨hs.within, hs.remembered⟩ hpast⟩

theorem meaning_aims
    (hreaders : ∀ t a, readers t a → Atom.Supplied t a ∧ (forward → Atom.Steady t a))
    {p : Parser t} (hp : p.Composed readers wrappers) {s : State} (hs : s.Sound forward)
    (hpast : s.Pointing forward) :
    (p.meaning Scope.root s).Ensures (Aims forward s.cursor.input s.position) := by
  intro result hresult
  obtain ⟨fuel, hfuel⟩ := exists_eval_eq_meaning (hresult.trans_ne (by simp))
  have hroot : ∀ rule ∈ Scope.root.rules, rule.body.Composed readers wrappers :=
    fun rule hrule => absurd hrule (by simp [Scope.root])
  exact (eval_aimed hreaders fuel Scope.root p hroot hp).run hs hpast result (hfuel.trans hresult)

end Parser

/-- A failure that can be shown where it says, which is not before a certain place. -/
structure Failure.Located (low : Nat) (cause : Failure) (cursor : Cursor) : Prop where
  offsets : ∀ leaf ∈ cause.expected.leaves, ∀ own, leaf.ownOffset = some own →
    low ≤ own ∧ own ≤ cursor.input.size
  shown : Fits cursor.input → ∃ diagnostic, Diagnostic.ofFailure cause cursor = .ok diagnostic ∧
    diagnostic.offset = cause.expected.offset.getD cursor.position ∧ low ≤ diagnostic.offset

theorem Failure.located {low : Nat} {cause : Failure} {cursor : Cursor} {input : Array Char}
    (hinput : cursor.input = input)
    (hposition : low ≤ cursor.position ∧ cursor.position ≤ input.size)
    (h : cause.expected.PointsInto True low input.size) : cause.Located low cursor where
  offsets := by
    intro leaf hleaf own hown
    obtain ⟨hlow, hhigh⟩ := h leaf hleaf own hown
    exact ⟨hlow trivial, hinput ▸ hhigh⟩
  shown := by
    intro hfits
    obtain ⟨diagnostic, hok, htells⟩ := Diagnostic.ofFailure_tells cause hfits
    have hplace : low ≤ cause.expected.offset.getD cursor.position ∧
        cause.expected.offset.getD cursor.position ≤ input.size := by
      cases hoffset : cause.expected.offset with
      | none => exact hposition
      | some own => exact ⟨(h.offset hoffset).1 trivial, (h.offset hoffset).2⟩
    have huncapped : diagnostic.offset = cause.expected.offset.getD cursor.position := by
      rw [htells.offset, hinput, Nat.min_eq_left hplace.2]
    exact ⟨diagnostic, hok, huncapped, huncapped ▸ hplace.1⟩

namespace Parser

variable {t : Ty}

/-- Where a grammar of the library fails, all offsets lie in the text, and if no reader sets
the position, none lies before the start. So the place that is shown is the one that was
meant, and not before the start either. Grammars over the tokens of a language are grammars of
the library in this sense, by `Lexer.grammar_composed`. -/
theorem failure_located (p : Parser t) (input : Array Char) (memoize : Bool) (start : Nat)
    (hstart : start ≤ input.size) (cause : Failure) (final : State)
    (h : p.Ends (.startAt input memoize start) (.ok (.failure cause, final))) :
    (p.Composed Atom.Supplied (fun _ _ _ _ => True) → cause.Located 0 final.cursor) ∧
    (p.Composed Atom.Steady (fun _ _ _ _ => True) → cause.Located start final.cursor) := by
  have hrun : ∀ {forward : Prop} {readers : ∀ t, Atom t → Prop},
      (∀ t a, readers t a → Atom.Supplied t a ∧ (forward → Atom.Steady t a)) →
      p.Composed readers (fun _ _ _ _ => True) →
      Aims forward input start ((.failure cause : Outcome t.Elem), final) := by
    intro forward readers hreaders hp
    have hsound : (State.startAt input memoize start).Sound forward :=
      State.startAt_sound input memoize hstart
    have hpast : (State.startAt input memoize start).Pointing forward :=
      fun key start entry hentry => absurd hentry (by simp [State.startAt])
    exact meaning_aims hreaders hp hsound hpast _ ((p.ends_iff _ _).1 h)
  constructor
  · intro hp
    have haims : Aims False input start ((.failure cause : Outcome t.Elem), final) :=
      hrun (fun _ _ ha => ⟨ha, False.elim⟩) hp
    obtain ⟨hreached, -, hpoints⟩ := haims
    refine Failure.located hreached.input_eq ⟨Nat.zero_le _, hreached.honest.within⟩ ?_
    exact fun leaf hleaf own hown => ⟨fun _ => Nat.zero_le _, (hpoints leaf hleaf own hown).2⟩
  · intro hp
    have haims : Aims True input start ((.failure cause : Outcome t.Elem), final) :=
      hrun (fun _ _ ha => ⟨.steady ha, fun _ => ha⟩) hp
    obtain ⟨hreached, -, hpoints⟩ := haims
    exact Failure.located hreached.input_eq
      ⟨hreached.honest.ahead trivial, hreached.honest.within⟩ hpoints

/-- Rows of floats between parentheses. -/
def floatRows (lexer : Lexer) : Build (Parser (.list (.list .float))) := do
  lexer.parens (← lexer.semiSep1 (← lexer.commaSep (← lexer.float)))

theorem floatRows_offered {C : Property} (hC : Compositional C) (lexer : Lexer) {level : Nat} :
    lexer.Offers C level (floatRows lexer) := by
  refine hC.float_offered.bind fun entry => (hC.sepBy_yields "," entry).bind fun row => ?_
  refine (hC.sepBy1_yields ";" row).bind fun rows => (hC.enclosed_yields "(" ")" rows).mono ?_
  intro names p henclosed hrows hrow hentry hlexer
  exact henclosed (hrows (hrow (hentry hlexer) hlexer) hlexer) hlexer

/-- A letter in place of the second float is shown, though the run began before the parenthesis. -/
theorem failure_located_floatRows :
    1 ≤ "x(1.5,x".toList.toArray.size ∧
    (Build.assemble (do floatRows (← Lexer.ofLanguage (← Language.plain))) 0).Composed Atom.Steady
      (fun _ _ _ _ => True) ∧
    ∃ final, (Build.assemble (do floatRows (← Lexer.ofLanguage (← Language.plain))) 0).Ends
        (.startAt "x(1.5,x".toList.toArray false 1)
        (.ok (.failure ⟨.positioned "float" 6, true⟩, final)) ∧
      Failure.Located 1 ⟨.positioned "float" 6, true⟩ final.cursor := by
  have hreaders : ∀ t a, Atom.Relative t a → Atom.Steady t a := fun _ _ ha => .relative ha
  have hkept : Compositional (composed Atom.Steady fun _ _ _ _ => True) :=
    composed_compositional hreaders fun _ _ _ _ _ => trivial
  have hcomposed : (Build.assemble
      (do floatRows (← Lexer.ofLanguage (← Language.plain))) 0).Composed Atom.Steady
        (fun _ _ _ _ => True) :=
    Lexer.grammar_composed hreaders (fun _ _ _ _ _ => trivial) hkept.plain_yields fun lexer =>
      floatRows_offered hkept lexer
  have hends : ∃ final, (Build.assemble
      (do floatRows (← Lexer.ofLanguage (← Language.plain))) 0).Ends
        (.startAt "x(1.5,x".toList.toArray false 1)
        (.ok (.failure ⟨.positioned "float" 6, true⟩, final)) :=
    ⟨_, ⟨300, _, _, rfl, rfl⟩⟩
  obtain ⟨final, hends⟩ := hends
  obtain ⟨-, hlocated⟩ := failure_located _ _ false 1 (by decide) _ final hends
  exact ⟨by decide, hcomposed, final, hends, hlocated hcomposed⟩

end Parser

end ParserKit
