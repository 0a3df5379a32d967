import ParserKit.Proofs.Agreement
import ParserKit.Proofs.Composition
import ParserKit.Proofs.Reading
import ParserKit.Proofs.Trampoline

/-!
What lies to the left of the cursor does not matter. Two runs of a grammar go side by side,
one over a text and one that starts behind a prefix of the same text. All places of the
second run, those in the expectations of its failures and in its memory included, are those
of the first one moved by the length of the prefix.
-/

namespace ParserKit

mutual

/-- An expectation with all its offsets moved. -/
def Expectation.shift (distance : Nat) : Expectation → Expectation
  | .nothing => .nothing
  | .message text => .message text
  | .positioned text offset => .positioned text (distance + offset)
  | .unexpected found offset => .unexpected found (distance + offset)
  | .oneOf members => .oneOf (shiftOf distance members)

def Expectation.shiftOf (distance : Nat) : List Expectation → List Expectation
  | [] => []
  | member :: rest => member.shift distance :: shiftOf distance rest

end

/-- An outcome with all offsets of its expectations moved. -/
def Outcome.shift {α : Type} (distance : Nat) : Outcome α → Outcome α
  | .success value => .success value
  | .failure cause => .failure { cause with expected := cause.expected.shift distance }

/-- A remembered outcome, moved together with the place where the attempt ended. -/
def Entry.shift (distance : Nat) (entry : Entry) : Entry :=
  { entry with outcome := entry.outcome.shift distance, stop := distance + entry.stop }

section Shift

variable {α : Type} (distance : Nat)

theorem Expectation.shiftOf_append (first second : List Expectation) :
    shiftOf distance (first ++ second) = shiftOf distance first ++ shiftOf distance second := by
  induction first with
  | nil => rfl
  | cons member rest ih => simp only [List.cons_append, shiftOf, ih]

theorem Expectation.members_shift (expected : Expectation) :
    (expected.shift distance).members = shiftOf distance expected.members := by
  cases expected <;> rfl

theorem Expectation.merge_shift (first second : Expectation) :
    (first.merge second).shift distance =
      (first.shift distance).merge (second.shift distance) := by
  simp only [merge, shift, shiftOf_append, members_shift]

theorem Outcome.join_shift (first : Expectation) (outcome : Outcome α) :
    (outcome.join first).shift distance =
      (outcome.shift distance).join (first.shift distance) := by
  cases outcome with
  | success value => rfl
  | failure cause => simp only [join, shift, Expectation.merge_shift]

theorem Outcome.consumedIf_shift (outcome : Outcome α) (moved : Bool) :
    (outcome.consumedIf moved).shift distance = (outcome.shift distance).consumedIf moved := by
  cases outcome <;> rfl

theorem Entry.outcomeAt_shift (entry : Entry) (t : Ty) :
    (entry.shift distance).outcomeAt t = (entry.outcomeAt t).map (Outcome.shift distance) := by
  obtain ⟨ty, outcome, stop⟩ := entry
  by_cases h : ty = t
  · subst h
    simp [shift, outcomeAt]
  · simp [shift, outcomeAt, h]

end Shift

/-- A place in a text, and the same place in the text with something before it. -/
structure Cursor.Behind (before : Array Char) (c c' : Cursor) : Prop where
  input_eq : c'.input = before ++ c.input
  position_eq : c'.position = before.size + c.position
  within : c.position ≤ c.input.size
  room : c'.input.size < Index.limit

namespace Cursor.Behind

variable {before : Array Char} {c c' : Cursor}

theorem size_eq (h : c.Behind before c') : c'.input.size = before.size + c.input.size := by
  rw [h.input_eq, Array.size_append]

theorem getElem_eq (h : c.Behind before c') (n : Nat) :
    c'.input[before.size + n]? = c.input[n]? := by
  rw [h.input_eq, Array.getElem?_append_right (Nat.le_add_right _ _), Nat.add_sub_cancel_left]

/-- What lies ahead is the same. -/
theorem peek_eq (h : c.Behind before c') {n : Nat} (hn : c.position + n ≤ c.input.size) :
    c.peek n = .ok c.input[c.position + n]? ∧ c'.peek n = .ok c.input[c.position + n]? := by
  have hsize := h.size_eq
  have hroom := h.room
  have hposition := h.position_eq
  constructor
  · exact Cursor.peek_eq c n (by omega)
  · rw [Cursor.peek_eq c' n (by omega), hposition, Nat.add_assoc, h.getElem_eq]

theorem advance_eq (h : c.Behind before c') {n : Nat} (hn : c.position + n ≤ c.input.size) :
    c.advance n = .ok (c.movedTo (c.position + n)) ∧
      c'.advance n = .ok (c'.movedTo (before.size + (c.position + n))) := by
  have hsize := h.size_eq
  have hroom := h.room
  have hposition := h.position_eq
  constructor
  · exact Cursor.advance_eq c n (by omega) hn
  · rw [Cursor.advance_eq c' n (by omega) (by omega), hposition, Nat.add_assoc]

theorem matchFrom_eq (h : c.Behind before c') (wanted : List Char) (index : Nat)
    (hindex : c.position + index ≤ c.input.size) :
    ∃ count, Atom.matchFrom c wanted index = .ok count ∧
      Atom.matchFrom c' wanted index = .ok count ∧ c.position + count ≤ c.input.size := by
  induction wanted generalizing index with
  | nil => exact ⟨index, rfl, rfl, hindex⟩
  | cons x rest ih =>
    obtain ⟨hpeek, hpeek'⟩ := h.peek_eq hindex
    simp only [Atom.matchFrom, hpeek, hpeek', bind, Except.bind]
    by_cases hx : c.input[c.position + index]? = some x
    · obtain ⟨hlt, -⟩ := Array.getElem?_eq_some_iff.1 hx
      simp only [hx, if_true]
      exact ih (index + 1) hlt
    · simp only [hx, if_false]
      exact ⟨index, rfl, rfl, hindex⟩

/-- The same piece of text lies ahead. -/
theorem slice_eq (h : c.Behind before c') {n : Nat} (hn : c.position + n ≤ c.input.size) :
    ∃ text, c.slice 0 n = .ok text ∧ c'.slice 0 n = .ok text := by
  have hsize := h.size_eq
  have hroom := h.room
  have hposition := h.position_eq
  have hslice : ∀ d : Cursor, d.input.size < Index.limit → d.position + n ≤ d.input.size →
      d.slice 0 n =
        .ok (String.ofList (d.input.extract d.position (d.position + n)).toList) := by
    intro d hd hin
    have hfirst : min (d.position + 0) d.input.size = d.position := by omega
    have hlast : min (max d.position (d.position + n)) d.input.size = d.position + n := by omega
    have hstart : Index.add d.position 0 = .ok (d.position + 0) := Index.add_eq_ok (by omega)
    have hstop : Index.add d.position n = .ok (d.position + n) := Index.add_eq_ok (by omega)
    have hchars := sliceChars_eq_ok (Nat.le_add_right d.position n) hin
    simp only [Cursor.slice, hstart, hstop, bind, Except.bind, hfirst, hlast, hchars]
    rfl
  refine ⟨_, hslice c (by omega) hn, ?_⟩
  rw [hslice c' hroom (by omega), h.input_eq, hposition, Nat.add_assoc, Array.extract_append]
  simp

end Cursor.Behind

/-- Two readings that deliver the same and end at the same place. -/
def Cursor.SameReading {α : Type} (before : Array Char) (c c' : Cursor)
    (x x' : Except Fault (Outcome α × Cursor)) : Prop :=
  ∃ outcome stop, stop ≤ c.input.size ∧ x = .ok (outcome, c.movedTo stop) ∧
    x' = .ok (outcome.shift before.size, c'.movedTo (before.size + stop))

namespace Cursor.Behind

variable {before : Array Char} {c c' : Cursor} {α : Type}

theorem stay (h : c.Behind before c') (outcome : Outcome α) {outcome' : Outcome α}
    (houtcome : outcome' = outcome.shift before.size) :
    SameReading before c c' (.ok (outcome, c)) (.ok (outcome', c')) := by
  have hplace : c'.movedTo (before.size + c.position) = c' := by
    rw [← h.position_eq]
    rfl
  refine ⟨outcome, c.position, h.within, rfl, ?_⟩
  rw [hplace, houtcome]

theorem readSatisfy (h : c.Behind before c') (accepts : Char → Bool) :
    SameReading before c c' (Atom.readSatisfy accepts c) (Atom.readSatisfy accepts c') := by
  obtain ⟨hpeek, hpeek'⟩ := h.peek_eq (n := 0) h.within
  simp only [Atom.readSatisfy, hpeek, hpeek', Nat.add_zero, bind, Except.bind, h.position_eq]
  cases hfound : c.input[c.position]? with
  | none => exact h.stay _ rfl
  | some x =>
    cases hx : accepts x with
    | false =>
      simp only [hx, Bool.false_eq_true, if_false]
      exact h.stay _ rfl
    | true =>
      obtain ⟨hlt, -⟩ := Array.getElem?_eq_some_iff.1 hfound
      obtain ⟨hadvance, hadvance'⟩ := h.advance_eq (n := 1) hlt
      simp only [hx, if_true, hadvance, hadvance']
      exact ⟨.success x, c.position + 1, hlt, rfl, rfl⟩

theorem readChar (h : c.Behind before c') (x : Char) :
    SameReading before c c' (Atom.readChar x c) (Atom.readChar x c') := by
  obtain ⟨hpeek, hpeek'⟩ := h.peek_eq (n := 0) h.within
  simp only [Atom.readChar, hpeek, hpeek', Nat.add_zero, bind, Except.bind, h.position_eq]
  by_cases hx : c.input[c.position]? = some x
  · obtain ⟨hlt, -⟩ := Array.getElem?_eq_some_iff.1 hx
    obtain ⟨hadvance, hadvance'⟩ := h.advance_eq (n := 1) hlt
    simp only [hx, if_true, hadvance, hadvance']
    exact ⟨.success x, c.position + 1, hlt, rfl, rfl⟩
  · simp only [hx, if_false]
    exact h.stay _ rfl

theorem readString (h : c.Behind before c') (chars : String) :
    SameReading before c c' (Atom.readString chars c) (Atom.readString chars c') := by
  obtain ⟨count, hmatch, hmatch', hin⟩ := h.matchFrom_eq chars.toList 0 h.within
  obtain ⟨hadvance, hadvance'⟩ := h.advance_eq hin
  simp only [Atom.readString, hmatch, hmatch', hadvance, hadvance', bind, Except.bind,
    h.position_eq]
  by_cases hall : count = chars.toList.length
  · simp only [hall, if_true]
    exact ⟨.success chars, c.position + chars.toList.length, hall ▸ hin, rfl, rfl⟩
  · simp only [hall, if_false]
    exact ⟨_, c.position + count, hin, rfl, rfl⟩

theorem isAtEnd_eq (h : c.Behind before c') : c'.isAtEnd = c.isAtEnd := by
  have hsize := h.size_eq
  have hposition := h.position_eq
  simp only [isAtEnd, decide_eq_decide]
  omega

end Cursor.Behind

/-- A reader that does not know where it is does the same behind the prefix. -/
theorem Atom.Relative.read_eq {before : Array Char} {c c' : Cursor} {t : Ty} {a : Atom t}
    (ha : Relative t a) (h : c.Behind before c') :
    ∃ outcome stop, stop ≤ c.input.size ∧ a.read c = .ok (some outcome, c.movedTo stop) ∧
      a.read c' = .ok (some (outcome.shift before.size), c'.movedTo (before.size + stop)) := by
  have hsome : ∀ {x x' : Except Fault (Outcome t.Elem × Cursor)},
      Cursor.SameReading before c c' x x' →
      ∃ outcome stop, stop ≤ c.input.size ∧
        x.map (fun result => (some result.1, result.2)) =
          .ok (some outcome, c.movedTo stop) ∧
        x'.map (fun result => (some result.1, result.2)) =
          .ok (some (outcome.shift before.size), c'.movedTo (before.size + stop)) := by
    rintro x x' ⟨outcome, stop, hstop, rfl, rfl⟩
    exact ⟨outcome, stop, hstop, rfl, rfl⟩
  cases ha with
  | ret value => exact hsome (h.stay (.success value) rfl)
  | fail message => exact hsome (h.stay (.fail (.message message)) rfl)
  | zero => exact hsome (h.stay (.fail .nothing) rfl)
  | unexpected found =>
    refine hsome (h.stay (.fail (.unexpected found c.position)) ?_)
    rw [h.position_eq]
    rfl
  | satisfy accepts => exact hsome (h.readSatisfy accepts)
  | char x => exact hsome (h.readChar x)
  | string chars => exact hsome (h.readString chars)
  | eof =>
    have heof : readEof c' = (readEof c).shift before.size := by
      simp only [readEof, h.isAtEnd_eq, h.position_eq]
      cases c.isAtEnd <;> rfl
    exact hsome (h.stay (readEof c) heof)

/-- Any wrapper but the one that tells the region that was read. -/
def Wrapper.Unplaced : ∀ a b, Wrapper a b → Parser a → Prop
  | _, _, .spanned, _ => False
  | _, _, _, _ => True

/-- The states of a run over a text and of the same run behind a prefix. -/
structure State.Displaced (before text : Array Char) (s s' : State) : Prop where
  input_eq : s.cursor.input = text
  input_eq' : s'.cursor.input = before ++ text
  position_eq : s'.position = before.size + s.position
  within : s.position ≤ text.size
  memoize_eq : s'.cursor.memoize = s.cursor.memoize
  taken_eq : s'.nextGeneration = s.nextGeneration
  entries : ∀ (key : Key) (start : Nat), s'.cursor.cache[(key, before.size + start)]? =
    (s.cursor.cache[(key, start)]?).map (Entry.shift before.size)
  stops : ∀ (key : Key) (start : Nat) (entry : Entry),
    s.cursor.cache[(key, start)]? = some entry → entry.stop ≤ text.size

namespace State.Displaced

variable {before text : Array Char} {s s' : State}

theorem startAt (before text : Array Char) (memoize : Bool) :
    (State.startAt text memoize 0).Displaced before text
      (.startAt (before ++ text) memoize before.size) :=
  ⟨rfl, rfl, rfl, Nat.zero_le _, rfl, rfl, fun _ _ => by simp [State.startAt],
    fun _ _ _ hentry => absurd hentry (by simp [State.startAt])⟩

theorem movedTo (h : s.Displaced before text s') {q : Nat} (hq : q ≤ text.size) :
    (s.movedTo q).Displaced before text (s'.movedTo (before.size + q)) :=
  ⟨h.input_eq, h.input_eq', rfl, hq, h.memoize_eq, h.taken_eq, h.entries, h.stops⟩

theorem tick (h : s.Displaced before text s') (counter : Nat) :
    (s.tick counter).Displaced before text (s'.tick counter) :=
  ⟨h.input_eq, h.input_eq', h.position_eq, h.within, h.memoize_eq, h.taken_eq, h.entries, h.stops⟩

theorem missed (h : s.Displaced before text s') : s.missed.Displaced before text s'.missed :=
  ⟨h.input_eq, h.input_eq', h.position_eq, h.within, h.memoize_eq, h.taken_eq, h.entries, h.stops⟩

theorem renew (h : s.Displaced before text s') :
    s'.renew.1 = s.renew.1 ∧ s.renew.2.Displaced before text s'.renew.2 :=
  ⟨h.taken_eq, h.input_eq, h.input_eq', h.position_eq, h.within, h.memoize_eq,
    congrArg (· + 1) h.taken_eq, h.entries, h.stops⟩

theorem behind (h : s.Displaced before text s') (hroom : (before ++ text).size < Index.limit) :
    s.cursor.Behind before s'.cursor := by
  have hinput := h.input_eq
  refine ⟨by rw [h.input_eq', hinput], h.position_eq, ?_, by rw [h.input_eq']; exact hroom⟩
  rw [hinput]
  exact h.within

/-- Both runs can go back to where they have been before. -/
theorem jumpTo_eq (h : s.Displaced before text s') {q : Nat} (hq : q ≤ text.size) :
    s.jumpTo q = .ok (s.movedTo q) ∧
      s'.jumpTo (before.size + q) = .ok (s'.movedTo (before.size + q)) := by
  have hsize : s.cursor.input.size = text.size := congrArg Array.size h.input_eq
  have hsize' : s'.cursor.input.size = before.size + text.size := by
    rw [h.input_eq', Array.size_append]
  constructor
  · rw [State.jumpTo_eq, if_pos (by omega)]
  · rw [State.jumpTo_eq, if_pos (by omega)]

/-- Whether an outcome counts as consuming depends on the way only. -/
theorem settle_eq (h : s.Displaced before text s') {α : Type} (start : Nat) (outcome : Outcome α) :
    s'.settle (before.size + start) (outcome.shift before.size) =
      (s.settle start outcome).shift before.size := by
  have hmoved : (s'.position != before.size + start) = (s.position != start) := by
    rw [h.position_eq, Bool.eq_iff_iff]
    simp
  simp only [State.settle, hmoved, Outcome.consumedIf_shift]

/-- Both runs remember an outcome, or neither does. -/
theorem lookup (h : s.Displaced before text s') (hm : s.cursor.memoize = true) (key : Key)
    (t : Ty) :
    (∃ (outcome : Outcome t.Elem) (after after' : State),
      s.lookup key t = (some outcome, after) ∧
      s'.lookup key t = (some (outcome.shift before.size), after') ∧
      after.Displaced before text after') ∨
    (s.lookup key t = (none, s.missed) ∧ s'.lookup key t = (none, s'.missed)) := by
  have hm' : s'.cursor.memoize = true := h.memoize_eq.trans hm
  have hposition : s'.cursor.position = before.size + s.cursor.position := h.position_eq
  have hentries : s'.cursor.cache[(key, s'.cursor.position)]? =
      (s.cursor.cache[(key, s.cursor.position)]?).map (Entry.shift before.size) := by
    rw [hposition, h.entries]
  simp only [State.lookup, Cursor.lookup, if_pos hm, if_pos hm', hentries]
  cases hentry : s.cursor.cache[(key, s.cursor.position)]? with
  | none =>
    simp only [Option.map_none]
    exact .inr ⟨rfl, rfl⟩
  | some entry =>
    simp only [Option.map_some, Entry.outcomeAt_shift]
    cases hat : entry.outcomeAt t with
    | none =>
      simp only [Option.map_none]
      exact .inr ⟨rfl, rfl⟩
    | some outcome =>
      simp only [Option.map_some]
      refine .inl ⟨outcome, _, _, rfl, rfl, ?_⟩
      exact ⟨h.input_eq, h.input_eq', rfl, h.stops key _ entry hentry, h.memoize_eq, h.taken_eq,
        h.entries, h.stops⟩

theorem remember (h : s.Displaced before text s') (key : Key) {t : Ty} (start : Nat)
    (outcome : Outcome t.Elem) :
    (s.remember key start outcome).Displaced before text
      (s'.remember key (before.size + start) (outcome.shift before.size)) := by
  by_cases hm : s.cursor.memoize = true
  · have hm' : s'.cursor.memoize = true := h.memoize_eq.trans hm
    refine ⟨?_, ?_, ?_, ?_, ?_, h.taken_eq, fun key' start' => ?_, fun key' start' entry hentry => ?_⟩
    · simpa [State.remember] using h.input_eq
    · simpa [State.remember] using h.input_eq'
    · simpa [State.remember, position] using h.position_eq
    · simpa [State.remember, position] using h.within
    · simp [State.remember, Cursor.remember, hm, hm']
    · have hplace : (key, before.size + start) = (key', before.size + start') ↔
          (key, start) = (key', start') := by simp
      simp only [State.remember, Cursor.cache_remember hm, Cursor.cache_remember hm', hplace]
      split
      · have hstop : s'.cursor.position = before.size + s.cursor.position := h.position_eq
        rw [hstop]
        rfl
      · exact h.entries key' start'
    · simp only [State.remember, Cursor.cache_remember hm] at hentry
      split at hentry
      · obtain rfl := Option.some.inj hentry
        exact h.within
      · exact h.stops key' start' entry hentry
  · have hm' : ¬ s'.cursor.memoize = true := by rwa [h.memoize_eq]
    simp only [State.remember, Cursor.remember, if_neg hm, if_neg hm']
    exact h

/-- A repetition goes on in both runs, or it ends in both. -/
theorem next_cases (h : s.Displaced before text s') {start : Nat} (hstart : start ≤ text.size)
    {α : Type} (values : List α) (outcome : Outcome α) :
    (∃ more, Turn.next start values outcome s = .ok (.again more, s) ∧
      Turn.next (before.size + start) values (outcome.shift before.size) s' =
        .ok (.again more, s')) ∨
    ∃ (stopped : Outcome (List α)) (after after' : State),
      Turn.next start values outcome s = .ok (.stop stopped, after) ∧
      Turn.next (before.size + start) values (outcome.shift before.size) s' =
        .ok (.stop (stopped.shift before.size), after') ∧
      after.Displaced before text after' := by
  cases outcome with
  | success value =>
    simp only [Outcome.shift, Turn.next, Turn.ofValue, h.position_eq, Nat.add_left_cancel_iff]
    by_cases hstay : s.position = start
    · simp only [hstay, if_true]
      exact .inr ⟨_, s, s', rfl, rfl, h⟩
    · simp only [hstay, if_false]
      exact .inl ⟨_, rfl, rfl⟩
  | failure cause =>
    simp only [Outcome.shift, Turn.next]
    by_cases hc : cause.consumed = true
    · simp only [if_pos hc]
      exact .inr ⟨.failure cause, s, s', rfl, rfl, h⟩
    · obtain ⟨hback, hback'⟩ := h.jumpTo_eq hstart
      simp only [if_neg hc, hback, hback']
      exact .inr ⟨.success values.reverse, _, _, rfl, rfl, h.movedTo hstart⟩

theorem first_cases (h : s.Displaced before text s') (start : Nat) {α : Type}
    (outcome : Outcome α) :
    (∃ values, Turn.first start outcome s = .again values ∧
      Turn.first (before.size + start) (outcome.shift before.size) s' = .again values) ∨
    ∃ stopped : Outcome (List α), Turn.first start outcome s = .stop stopped ∧
      Turn.first (before.size + start) (outcome.shift before.size) s' =
        .stop (stopped.shift before.size) := by
  cases outcome with
  | failure cause => exact .inr ⟨.failure cause, rfl, rfl⟩
  | success value =>
    simp only [Outcome.shift, Turn.first, Turn.ofValue, h.position_eq, Nat.add_left_cancel_iff]
    by_cases hstay : s.position = start
    · simp only [hstay, if_true]
      exact .inr ⟨_, rfl, rfl⟩
    · simp only [hstay, if_false]
      exact .inl ⟨_, rfl, rfl⟩

end State.Displaced

/-- The ends of two runs, with all places in the second one moved. -/
inductive Result.Displaced (before text : Array Char) {α : Type} :
    Result (Outcome α × State) → Result (Outcome α × State) → Prop where
  | timeout : Displaced before text .timeout .timeout
  | fault (cause : Fault) : Displaced before text (.fault cause) (.fault cause)
  | done (outcome : Outcome α) {s s' : State} (hs : s.Displaced before text s') :
      Displaced before text (.done (outcome, s)) (.done (outcome.shift before.size, s'))

theorem Result.Displaced.bind {before text : Array Char} {α β : Type}
    {x x' : Result (Outcome α × State)} {f f' : Outcome α × State → Result (Outcome β × State)}
    (h : Displaced before text x x')
    (hf : ∀ outcome s s', s.Displaced before text s' →
      Displaced before text (f (outcome, s)) (f' (outcome.shift before.size, s'))) :
    Displaced before text (x >>= f) (x' >>= f') := by
  cases h with
  | timeout => exact .timeout
  | fault cause => exact .fault cause
  | done outcome hs => exact hf outcome _ _ hs

/-- Two actions that do the same, the second one behind the prefix. -/
def Action.Displaced (before text : Array Char) {α : Type} (x x' : Action α) : Prop :=
  ∀ s s', s.Displaced before text s' → Result.Displaced before text (x s) (x' s')

/-- What becomes of a word that began at `start`. -/
def Lexer.reservedOutcome (isReserved : String → Bool) (kind : String) (start : Nat)
    (name : String) : Outcome String :=
  if isReserved name then .fail (.unexpected (s!"reserved {kind} " ++ name) start)
  else .success name

/-- Runs a word, and refuses it if it is reserved. -/
def Action.unreserved (isReserved : String → Bool) (kind : String) (word : Action String) :
    Action String := fun s => do
  match ← word s with
  | (.success name, after) =>
    let outcome := Lexer.reservedOutcome isReserved kind s.position name
    .done (after.settle s.position outcome, after)
  | (.failure cause, after) => .done (.failure cause, after)

theorem Parser.eval_unreserved (isReserved : String → Bool) (kind : String) (word : Parser .text)
    (fuel : Nat) (scope : Scope) :
    (Lexer.unreserved isReserved kind word).eval (fuel + 2) scope =
      Action.unreserved isReserved kind (word.eval fuel scope) := by
  funext s
  show ((word.eval fuel scope s >>= _) >>= _) = (word.eval fuel scope s >>= _)
  cases word.eval fuel scope s with
  | timeout => rfl
  | fault cause => rfl
  | done result =>
    obtain ⟨outcome, after⟩ := result
    cases outcome with
    | failure cause => rfl
    | success name =>
      have hnext : (if isReserved name then
            Parser.reject (t := .text) (s!"reserved {kind} " ++ name) s.position
          else Parser.ret (t := .text) name).eval (fuel + 1) scope after =
          .done (Lexer.reservedOutcome isReserved kind s.position name, after) := by
        unfold Lexer.reservedOutcome
        split <;> rfl
      exact congrArg (· >>= fun (outcome, final) => .done (final.settle s.position outcome, final))
        hnext

namespace Action.Displaced

variable {before text : Array Char} {α β : Type}

theorem atom (hroom : (before ++ text).size < Index.limit) {t : Ty} {a : Atom t}
    (ha : a.Relative) : Displaced before text (Action.atom a) (Action.atom a) := by
  intro s s' hs
  obtain ⟨outcome, stop, hstop, hread, hread'⟩ := ha.read_eq (hs.behind hroom)
  simp only [Action.atom, State.read, hread, hread', Except.map, Result.ofExcept_ok,
    Result.done_bind]
  exact .done outcome (hs.movedTo (hs.input_eq ▸ hstop))

/-- What a wrapper does with an outcome, it does behind the prefix. -/
theorem finish (hroom : (before ++ text).size < Index.limit) {a b : Ty} {wrapper : Wrapper a b}
    {p : Parser a} (hwrapper : Wrapper.Unplaced a b wrapper p) {start : Nat}
    (hstart : start ≤ text.size) {s s' : State} (hs : s.Displaced before text s')
    (outcome : Outcome a.Elem) :
    Result.Displaced before text (.ofExcept (s.finish wrapper start outcome))
      (.ofExcept (s'.finish wrapper (before.size + start) (outcome.shift before.size))) := by
  have hbehind := hs.behind hroom
  have hstart₁ : start ≤ s.cursor.input.size := hs.input_eq ▸ hstart
  have hback := Cursor.jumpTo_of_le s.cursor hstart₁
  have hback' := Cursor.jumpTo_of_le s'.cursor (q := before.size + start)
    (by rw [hbehind.size_eq]; omega)
  have hmoved := hs.movedTo hstart
  cases wrapper with
  | spanned => exact absurd hwrapper id
  | label message => cases outcome <;> exact .done _ hs
  | convert f =>
    cases outcome with
    | failure cause => exact .done (.failure cause) hs
    | success value =>
      cases hvalue : f value with
      | error cause =>
        simp only [State.finish, Wrapper.finish, Outcome.shift, Wrapper.convertOutcome, hvalue]
        exact .fault cause
      | ok converted =>
        simp only [State.finish, Wrapper.finish, Outcome.shift, Wrapper.convertOutcome, hvalue]
        exact .done (.success converted) hs
  | attempt =>
    cases outcome with
    | success value => exact .done (.success value) hs
    | failure cause =>
      simp only [State.finish, Wrapper.finish, Outcome.shift, Wrapper.finishAttempt, hback, hback']
      exact .done (.fail cause.expected) hmoved
  | refuse =>
    cases outcome with
    | failure cause =>
      simp only [State.finish, Wrapper.finish, Outcome.shift, Wrapper.finishRefuse, hback, hback']
      exact .done (.success ()) hmoved
    | success value =>
      -- the refused text is what was read, or empty when the cursor moved backwards
      have hin : start + (s.cursor.position - start) ≤ s.cursor.input.size := by
        have hwithin := hbehind.within
        omega
      obtain ⟨piece, hpiece, hpiece'⟩ := (hmoved.behind hroom).slice_eq hin
      have hdistance : s'.cursor.position - (before.size + start) = s.cursor.position - start := by
        have hposition := hbehind.position_eq
        omega
      simp only [State.movedTo] at hpiece hpiece'
      simp only [State.finish, Wrapper.finish, Outcome.shift, Wrapper.finishRefuse, hback, hback',
        hdistance, hpiece, hpiece', bind, Except.bind]
      exact .done (.fail (.unexpected piece start)) hmoved

theorem wrapped (hroom : (before ++ text).size < Index.limit) {a b : Ty} {wrapper : Wrapper a b}
    {p : Parser a} (hwrapper : Wrapper.Unplaced a b wrapper p) {x x' : Action a.Elem}
    (h : Displaced before text x x') :
    Displaced before text (x.wrapped wrapper) (x'.wrapped wrapper) := by
  intro s s' hs
  refine (h s s' hs).bind fun outcome after after' hafter => ?_
  rw [hs.position_eq]
  exact finish hroom hwrapper hs.within hafter outcome

theorem chain {x x' : Action α} {f f' : α → Action β} (h : Displaced before text x x')
    (hf : ∀ value, Displaced before text (f value) (f' value)) :
    Displaced before text (x.chain f) (x'.chain f') := by
  intro s s' hs
  refine (h s s' hs).bind fun outcome middle middle' hmiddle => ?_
  cases outcome with
  | failure cause => exact .done (.failure cause) hmiddle
  | success value =>
    refine (hf value middle middle' hmiddle).bind fun outcome after after' hafter => ?_
    simp only [hs.position_eq, hafter.settle_eq]
    exact .done _ hafter

theorem sequence {n : Nat} {x x' : Fin n → Action (Option α)}
    (h : ∀ i, Displaced before text (x i) (x' i)) (start : Nat) (items : List (Fin n))
    (values : List α) :
    Displaced before text (Action.sequence x start items values)
      (Action.sequence x' (before.size + start) items values) := by
  induction items generalizing values with
  | nil => exact fun s s' hs => .done (.success values.reverse) hs
  | cons i rest ih =>
    intro s s' hs
    refine (h i s s' hs).bind fun outcome after after' hafter => ?_
    cases outcome with
    | success value => exact ih (collect values value) after after' hafter
    | failure cause =>
      have hsettle := hafter.settle_eq start (Outcome.failure (α := List α) cause)
      simp only [Outcome.shift] at hsettle ⊢
      rw [hsettle]
      exact .done _ hafter

theorem choice {x x' y y' : Action α} (h : Displaced before text x x')
    (h' : Displaced before text y y') : Displaced before text (x.choice y) (x'.choice y') := by
  intro s s' hs
  refine (h s s' hs).bind fun outcome after after' hafter => ?_
  cases outcome with
  | success value => exact .done (.success value) hafter
  | failure cause =>
    by_cases hc : cause.consumed = true
    · simp only [Outcome.shift, if_pos hc]
      exact .done (.failure cause) hafter
    · obtain ⟨hback, hback'⟩ := hafter.jumpTo_eq hs.within
      simp only [Outcome.shift, if_neg hc, hs.position_eq, hback, hback', Result.ofExcept_ok,
        Result.done_bind]
      refine (h' _ _ (hafter.movedTo hs.within)).bind fun outcome final final' hfinal => ?_
      rw [← Outcome.join_shift]
      exact .done _ hfinal

theorem remembered {t : Ty} (key : Key) {x x' : Action t.Elem} (h : Displaced before text x x') :
    Displaced before text (x.remembered key) (x'.remembered key) := by
  intro s s' hs
  simp only [Action.remembered, hs.memoize_eq]
  by_cases hm : s.cursor.memoize = true
  · simp only [hm, if_true]
    rcases hs.lookup hm key t with ⟨outcome, after, after', hhit, hhit', hafter⟩ | ⟨hmiss, hmiss'⟩
    · simp only [hhit, hhit']
      exact .done outcome hafter
    · simp only [hmiss, hmiss', hs.position_eq]
      refine (h _ _ hs.missed).bind fun outcome after after' hafter => ?_
      exact .done outcome (hafter.remember key s.position outcome)
  · simp only [hm, Bool.false_eq_true, if_false]
    exact h s s' hs

theorem repeatFrom {x x' : Action α} (h : Displaced before text x x') (fuel : Nat)
    (values : List α) :
    Displaced before text (x.repeatFrom fuel values) (x'.repeatFrom fuel values) := by
  induction fuel generalizing values with
  | zero => exact fun _ _ _ => .timeout
  | succ fuel ih =>
    intro s s' hs
    refine (h s s' hs).bind fun outcome after after' hafter => ?_
    simp only [hs.position_eq]
    rcases hafter.next_cases hs.within values outcome with ⟨more, hnext, hnext'⟩ |
      ⟨stopped, final, final', hnext, hnext', hfinal⟩
    · simp only [hnext, hnext', Result.ofExcept_ok, Result.done_bind]
      exact ih more after after' hafter
    · simp only [hnext, hnext', Result.ofExcept_ok, Result.done_bind]
      exact .done stopped hfinal

theorem repeatFrom1 {x x' : Action α} {f f' : List α → Action (List α)}
    (h : Displaced before text x x') (hf : ∀ values, Displaced before text (f values) (f' values)) :
    Displaced before text (x.repeatFrom1 f) (x'.repeatFrom1 f') := by
  intro s s' hs
  refine (h s s' hs).bind fun outcome after after' hafter => ?_
  simp only [hs.position_eq]
  rcases hafter.first_cases s.position outcome with ⟨values, hfirst, hfirst'⟩ |
    ⟨stopped, hfirst, hfirst'⟩
  · simp only [hfirst, hfirst']
    exact hf values after after' hafter
  · simp only [hfirst, hfirst']
    exact .done stopped hafter

theorem renewed {x x' : Nat → Action α}
    (h : ∀ generation, Displaced before text (x generation) (x' generation)) :
    Displaced before text (.renewed x) (.renewed x') := by
  intro s s' hs
  obtain ⟨hgeneration, hrenewed⟩ := hs.renew
  simp only [Action.renewed, hgeneration]
  exact h _ _ _ hrenewed

/-- A word is refused at its start, wherever that is. -/
theorem unreserved (isReserved : String → Bool) (kind : String) {x x' : Action String}
    (h : Displaced before text x x') :
    Displaced before text (Action.unreserved isReserved kind x)
      (Action.unreserved isReserved kind x') := by
  intro s s' hs
  refine (h s s' hs).bind fun outcome after after' hafter => ?_
  cases outcome with
  | failure cause => exact .done (.failure cause) hafter
  | success name =>
    have hplace : (Lexer.reservedOutcome isReserved kind s.position name).shift before.size =
        Lexer.reservedOutcome isReserved kind (before.size + s.position) name := by
      unfold Lexer.reservedOutcome
      split <;> rfl
    show Result.Displaced before text (.done (after.settle s.position _, after))
      (.done (after'.settle s'.position _, after'))
    rw [hs.position_eq, ← hplace, hafter.settle_eq]
    exact .done _ hafter

end Action.Displaced

/-- The rules in scope do not tell where they are, either. -/
def Scope.Unplaced (scope : Scope) : Prop :=
  ∀ rule ∈ scope.rules, rule.body.Composed Atom.Relative Wrapper.Unplaced

namespace Parser

variable {t : Ty} {before text : Array Char}

/-- What a grammar does over a text, it does behind the prefix, step for step. -/
theorem eval_displaced (hroom : (before ++ text).size < Index.limit) (fuel : Nat) (scope : Scope)
    (p : Parser t) (hscope : scope.Unplaced) (hp : p.Composed Atom.Relative Wrapper.Unplaced) :
    Action.Displaced before text (p.eval fuel scope) (p.eval fuel scope) := by
  -- refusing a word takes two units of fuel at once
  induction fuel using Nat.strongRecOn generalizing t scope with
  | ind fuel ihbelow =>
    cases fuel with
    | zero => exact fun _ _ _ => .timeout
    | succ fuel =>
      have ih := fun {t : Ty} (scope : Scope) (p : Parser t) =>
        ihbelow fuel (Nat.lt_succ_self fuel) scope p
      cases hp with
      | atom ha => exact .atom hroom ha
      | wrap hwrapper hp => exact (ih scope _ hscope hp).wrapped hroom hwrapper
      | @unreserved word hword isReserved kind =>
        cases fuel with
        | zero => exact fun _ _ _ => .timeout
        | succ fuel =>
          rw [eval_unreserved]
          exact (ihbelow fuel (by omega) scope word hscope hword).unreserved isReserved kind
      | @bind a b p captures next hp hnext =>
        exact (ih (scope.holding captures) p hscope hp).chain fun value =>
          ih scope (next value) hscope (hnext value)
      | @sequence t n items h =>
        intro s s' hs
        have hitems := fun i => ih (scope.holding (ownedItems items)) (items i) hscope (h i)
        have hsequence := Action.Displaced.sequence hitems s.position (List.finRange n) [] s s' hs
        rw [← hs.position_eq] at hsequence
        exact hsequence
      | @choice t first second h h' =>
        exact (ih (scope.holding second.owned) first hscope h).choice (ih scope second hscope h')
      | memo label hp => exact (ih scope _ hscope hp).remembered (scope.key label)
      | @many t p hp => exact (ih (scope.holding p.owned) p hscope hp).repeatFrom fuel []
      | @many1 t p hp =>
        have hoccurrence := ih (scope.holding p.owned) p hscope hp
        exact hoccurrence.repeatFrom1 fun values => hoccurrence.repeatFrom fuel values
      | @recursive t name body hbody =>
        exact ih (scope.define name body) body (List.forall_mem_cons.2 ⟨hbody, hscope⟩) hbody
      | rule name =>
        simp only [eval]
        cases hfound : scope.resolve name t with
        | none => exact fun _ _ _ => .fault .ruleDropped
        | some found =>
          obtain ⟨body, inner⟩ := found
          obtain ⟨hbody, hinner⟩ := Scope.forall_of_resolve hscope hfound
          exact ih inner body hinner hbody
      | @fresh t level captures body hbody =>
        exact .renewed fun generation => ih (scope.renew level generation) (body ()) hscope hbody
      | tick counter hp => exact fun s s' hs => ih scope _ hscope hp _ _ (hs.tick counter)

theorem meaning_displaced (hroom : (before ++ text).size < Index.limit) (scope : Scope)
    (p : Parser t) (hscope : scope.Unplaced) (hp : p.Composed Atom.Relative Wrapper.Unplaced) :
    Action.Displaced before text (p.meaning scope) (p.meaning scope) := by
  intro s s' hs
  obtain ⟨bound, hbound⟩ := eval_settles scope p s
  obtain ⟨bound', hbound'⟩ := eval_settles scope p s'
  have heval := eval_displaced hroom (max bound bound') scope p hscope hp s s' hs
  have hfirst : p.eval (max bound bound') scope s = p.meaning scope s :=
    hbound _ (Nat.le_max_left _ _)
  have hsecond : p.eval (max bound bound') scope s' = p.meaning scope s' :=
    hbound' _ (Nat.le_max_right _ _)
  rwa [hfirst, hsecond] at heval

/-- What lies to the left does not matter. Take a grammar that neither asks for places nor
sets the position. From a prefix on, it does what it does over the rest of the text alone,
whether it remembers or not: it comes to an end where it does there, with the same value or
the same failure, and the final position and all offsets in the expectations are larger by
the length of the prefix. -/
theorem left_irrelevant (p : Parser t) (hp : p.Composed Atom.Relative Wrapper.Unplaced)
    (before text : Array Char) (hroom : (before ++ text).size < Index.limit) (memoize : Bool) :
    (∀ outcome final, p.Ends (.startAt text memoize 0) (.ok (outcome, final)) →
      ∃ final', p.Ends (.startAt (before ++ text) memoize before.size)
          (.ok (outcome.shift before.size, final')) ∧
        final'.position = before.size + final.position) ∧
    (∀ outcome' final', p.Ends (.startAt (before ++ text) memoize before.size)
        (.ok (outcome', final')) →
      ∃ outcome final, p.Ends (.startAt text memoize 0) (.ok (outcome, final)) ∧
        outcome' = outcome.shift before.size ∧ final'.position = before.size + final.position) ∧
    ∀ cause, p.Ends (.startAt text memoize 0) (.error cause) ↔
      p.Ends (.startAt (before ++ text) memoize before.size) (.error cause) := by
  have hscope : Scope.root.Unplaced := fun rule hrule => absurd hrule (by simp [Scope.root])
  have hresults := meaning_displaced hroom Scope.root p hscope hp _ _
    (.startAt before text memoize)
  simp only [ends_iff]
  generalize p.meaning Scope.root (.startAt text memoize 0) = first at *
  generalize p.meaning Scope.root (.startAt (before ++ text) memoize before.size) = second at *
  cases hresults with
  | timeout => simp [Result.ofExcept]
  | fault cause => simp [Result.ofExcept]
  | done outcome hs =>
    refine ⟨fun outcome' final h => ?_, fun outcome' final' h => ?_, by simp [Result.ofExcept]⟩
    · obtain ⟨rfl, rfl⟩ := Prod.mk.inj (Result.done.inj h)
      exact ⟨_, rfl, hs.position_eq⟩
    · obtain ⟨rfl, rfl⟩ := Prod.mk.inj (Result.done.inj h)
      exact ⟨_, _, rfl, rfl, hs.position_eq⟩

/-- An `if` that is refused as a word. -/
def refusedWord : Parser .text :=
  Lexer.unreserved (· == "if") "word" (.atom (.string "if"))

theorem left_irrelevant_refusedWord :
    refusedWord.Composed Atom.Relative Wrapper.Unplaced ∧
    (#['x'] ++ #['i', 'f']).size < Index.limit ∧
    ∃ final', refusedWord.Ends (.startAt (#['x'] ++ #['i', 'f']) true 1)
        (.ok (.failure ⟨.unexpected "reserved word if" 1, true⟩, final')) ∧
      final'.position = 3 := by
  have hcomposed : refusedWord.Composed Atom.Relative Wrapper.Unplaced :=
    .unreserved (.atom (.string "if")) _ _
  have hroom : (#['x'] ++ #['i', 'f']).size < Index.limit := by decide
  have hends : ∃ final, refusedWord.Ends (.startAt #['i', 'f'] true 0)
      (.ok (.failure ⟨.unexpected "reserved word if" 0, true⟩, final)) ∧ final.position = 2 :=
    ⟨_, ⟨20, _, _, rfl, rfl⟩, rfl⟩
  obtain ⟨final, hends, hposition⟩ := hends
  obtain ⟨final', hends', hposition'⟩ :=
    (left_irrelevant refusedWord hcomposed #['x'] #['i', 'f'] hroom true).1 _ final hends
  exact ⟨hcomposed, hroom, final', hends', by rw [hposition', hposition]; rfl⟩

end Parser

end ParserKit
