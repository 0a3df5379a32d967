import ParserKit.Proofs.Composition
import ParserKit.Proofs.Diagnosis
import ParserKit.Proofs.Naming
import ParserKit.Proofs.Readers
import ParserKit.Proofs.Reading

/-!
Grammars that are composed of the readers and wrappers of the library never break a run
off, as long as their jumps stay inside the text and no rule is missing: every start that
is saved and every place that is remembered lies in the text. The one conversion that may
fail is given letters only for which it does not; that those come from the cache as well
is why the run by names is looked at. And the failure that the run may end with can be
rendered.
-/

namespace ParserKit

open Comparison Machine

/-- Wrappers of the library, together with what they are around. -/
inductive Wrapper.Safe : ∀ a b, Wrapper a b → Parser a → Prop where
  | basic {a b : Ty} {wrapper : Wrapper a b} {p : Parser a} (h : Basic a b wrapper p) :
      Safe a b wrapper p
  | spanned {t : Ty} (p : Parser t) : Safe t _ .spanned p

/-- A grammar of the readers and wrappers of the library, by the structure of its tree. -/
def Parser.Sane : {t : Ty} → Parser t → Prop
  | _, .atom a => a.Builtin
  | _, .wrap wrapper p => Wrapper.Safe _ _ wrapper p ∧ p.Sane
  | _, .bind p _ next => p.Sane ∧ ∀ value, (next value).Sane
  | _, .sequence items => ∀ i, (items i).Sane
  | _, .choice first second => first.Sane ∧ second.Sane
  | _, .memo _ p => p.Sane
  | _, .many p => p.Sane
  | _, .many1 p => p.Sane
  | _, .recursive _ body => body.Sane
  | _, .rule _ => True
  | _, .fresh _ _ body => (body ()).Sane
  | _, .tick _ p => p.Sane

theorem Parser.Composed.sane {t : Ty} {p : Parser t}
    (h : p.Composed (fun _ a => a.Builtin) Wrapper.Safe) : p.Sane := by
  induction h with
  | atom h => exact h
  | wrap h _ ih => exact ⟨h, ih⟩
  | unreserved _ isReserved kind ih =>
    refine ⟨⟨.spanned _, ih⟩, fun (name, span) => ?_⟩
    dsimp only
    split
    · trivial
    · trivial
  | bind _ _ ihp ihnext => exact ⟨ihp, ihnext⟩
  | sequence _ ih => exact ih
  | choice _ _ ih ih' => exact ⟨ih, ih'⟩
  | memo _ _ ih => exact ih
  | many _ ih => exact ih
  | many1 _ ih => exact ih
  | recursive _ _ ih => exact ih
  | rule _ => trivial
  | fresh _ _ _ ih => exact ih
  | tick _ _ ih => exact ih

/-- The rules in scope are of that kind, too. -/
def Scope.Sane (scope : Scope) : Prop :=
  ∀ rule ∈ scope.rules, rule.body.Sane

theorem Scope.Sane.define {scope : Scope} (h : scope.Sane) {t : Ty} (name : Label) {body : Parser t}
    (hbody : body.Sane) : (scope.define name body).Sane :=
  List.forall_mem_cons.2 ⟨hbody, h⟩

/-- The jumps that the run comes to stay inside a text of the given size. -/
def Machine.JumpsInside {r : Ty} (origin : Machine r) (size : Nat) : Prop :=
  ∀ (target : Nat) (scope : Scope) (stack : Stack .unit r) (s : State),
    origin.Reaches ⟨.run (.setPosition target) scope stack, s⟩ → target ≤ size

namespace Atom

variable {t : Ty} {c : Cursor}

/-- A reader that does not jump out of a text of the given size. -/
def Inside (size : Nat) : Atom t → Prop
  | .jump target => target ≤ size
  | _ => True

theorem readSatisfy_delivers (hsize : c.input.size < Index.limit)
    (hin : c.position ≤ c.input.size) (accepts : Char → Bool) :
    Delivers (readSatisfy accepts c) fun _ => True := by
  by_cases hx : ∃ x, c.input[c.position]? = some x ∧ accepts x = true
  · obtain ⟨x, hchar, hx⟩ := hx
    exact ⟨_, readSatisfy_accepted hsize hchar hx, trivial⟩
  · have hrejected : ∀ x, c.input[c.position]? = some x → accepts x = false := by
      intro x hchar
      exact Bool.eq_false_iff.2 fun hx' => hx ⟨x, hchar, hx'⟩
    obtain ⟨found, hread⟩ := readSatisfy_rejected hsize hin hrejected
    exact ⟨_, hread, trivial⟩

theorem readChar_delivers (hsize : c.input.size < Index.limit) (hin : c.position ≤ c.input.size)
    (x : Char) : Delivers (readChar x c) fun _ => True := by
  have hpeek := Cursor.peek_eq c 0 (by omega)
  simp only [readChar, hpeek, Nat.add_zero, bind, Except.bind]
  by_cases hx : c.input[c.position]? = some x
  · obtain ⟨hlt, -⟩ := Array.getElem?_eq_some_iff.1 hx
    simp only [hx, if_true, Cursor.advance_eq c 1 (by omega) hlt]
    exact .ok trivial
  · simp only [hx, if_false]
    exact .ok trivial

theorem readString_delivers (hsize : c.input.size < Index.limit)
    (hin : c.position ≤ c.input.size) (chars : String) :
    Delivers (readString chars c) fun _ => True := by
  rcases readString_eq chars hsize hin with ⟨-, hread⟩ | ⟨-, consumed, stop, hread⟩
  · exact ⟨_, hread, trivial⟩
  · exact ⟨_, hread, trivial⟩

/-- A reader that stays inside the text has an outcome. -/
theorem read_delivers {a : Atom t} (ha : a.Builtin) (hinside : a.Inside c.input.size)
    (hsize : c.input.size < Index.limit) (hin : c.position ≤ c.input.size) :
    Delivers (a.read c) fun result => result.1 ≠ none := by
  have hsome : ∀ {α : Type} {x : Except Fault (Outcome α × Cursor)},
      Delivers x (fun _ => True) →
      Delivers (x.map fun result => (some result.1, result.2)) fun result => result.1 ≠ none := by
    rintro α x ⟨result, rfl, -⟩
    exact .ok (by simp)
  cases a with
  | ret value => exact .ok (by simp)
  | fail expected => exact .ok (by simp)
  | unexpected found => exact .ok (by simp)
  | satisfy accepts => exact hsome (readSatisfy_delivers hsize hin accepts)
  | char x => exact hsome (readChar_delivers hsize hin x)
  | string chars => exact hsome (readString_delivers hsize hin chars)
  | eof => exact .ok (by simp)
  | position => exact .ok (by simp)
  | jump target =>
    have hjump : target ≤ c.input.size := hinside
    simp only [read, Cursor.jumpTo, hjump, if_true]
    exact .ok (by simp)
  | custom act => exact absurd ha id

end Atom

namespace Wrapper

variable {a b : Ty} {c : Cursor} {start : Nat}

/-- A conversion succeeds for the value that the part delivers. -/
def Converts : Wrapper a b → Outcome a.Elem → Prop
  | .convert f, .success value => ∃ converted, f value = .ok converted
  | _, _ => True

theorem finish_delivers {wrapper : Wrapper a b} {outcome : Outcome a.Elem}
    (hconverts : wrapper.Converts outcome) (hsize : c.input.size < Index.limit)
    (hstart : start ≤ c.input.size) (hin : c.position ≤ c.input.size) :
    Delivers (wrapper.finish start outcome c) fun _ => True := by
  have hjump : c.jumpTo start = .ok { c with position := start } := by
    simp only [Cursor.jumpTo, hstart, if_true]
  cases wrapper with
  | convert f =>
    cases outcome with
    | failure cause => exact .ok trivial
    | success value =>
      obtain ⟨converted, hvalue⟩ := hconverts
      simp only [finish, convertOutcome, hvalue]
      exact .ok trivial
  | attempt =>
    cases outcome with
    | success value => exact .ok trivial
    | failure cause =>
      simp only [finish, finishAttempt, hjump]
      exact .ok trivial
  | label message => exact .ok trivial
  | refuse =>
    simp only [finish, finishRefuse, hjump, bind, Except.bind]
    cases outcome with
    | failure cause => exact .ok trivial
    | success value =>
      obtain ⟨text, hslice⟩ := Cursor.slice_eq { c with position := start } (c.position - start)
        (by simp only; omega) hsize
      simp only [hslice]
      exact .ok trivial
  | spanned => exact .ok trivial

end Wrapper

theorem Lexer.controlOf_eq_ok {letter : Char} (h : letter.isUpper = true) :
    ∃ control, controlOf letter = .ok control := by
  have hletter : 'A'.val ≤ letter.val ∧ letter.val ≤ 'Z'.val := of_decide_eq_true h
  have hrange : 65 ≤ letter.toNat ∧ letter.toNat ≤ 90 :=
    ⟨UInt32.le_iff_toNat_le.1 hletter.1, UInt32.le_iff_toNat_le.1 hletter.2⟩
  have hsub : Word.sub (letter.toNat % 256) 65 = .ok (letter.toNat % 256 - 65) :=
    Word.sub_eq_ok (by omega)
  have hadd : Word.add 8 (letter.toNat % 256 - 65) 1 = .ok (letter.toNat % 256 - 65 + 1) := by
    refine Word.add_eq_ok ?_
    have hlimit : Word.limit 8 = 256 := by decide
    omega
  simp only [controlOf, hsub, hadd, bind, Except.bind]
  exact ⟨_, rfl⟩

/-- What a reader that has its outcome has read. -/
theorem Action.read_of_atom {t : Ty} {a : Atom t} {s final : State} {outcome : Outcome t.Elem}
    (h : Action.atom a s = .done (outcome, final)) :
    ∃ cursor, a.read s.cursor = .ok (some outcome, cursor) ∧ final = { s with cursor } := by
  obtain ⟨⟨found, after⟩, hread, hfound⟩ := Result.bind_eq_done h
  obtain ⟨⟨found, cursor⟩, hcursor, hpair⟩ :=
    Except.exists_of_map_eq_ok (Result.ofExcept_eq_done hread)
  obtain ⟨rfl, rfl⟩ := Prod.mk.inj hpair
  cases found with
  | none => exact absurd hfound (by simp)
  | some found =>
    obtain ⟨rfl, rfl⟩ := Prod.mk.inj (Result.done.inj hfound)
    exact ⟨cursor, hcursor, rfl⟩

theorem Atom.accepts_of_readSatisfy {accepts : Char → Bool} {x : Char} {c after : Cursor}
    (h : readSatisfy accepts c = .ok (.success x, after)) : accepts x = true := by
  simp only [readSatisfy, bind, Except.bind] at h
  split at h
  · exact absurd h (by simp)
  · split at h
    · split at h
      · split at h
        · exact absurd h (by simp)
        · obtain ⟨hxy, -⟩ := Prod.mk.inj (Except.ok.inj h)
          obtain rfl := Outcome.success.inj hxy
          assumption
      · exact absurd h (by simp [Outcome.fail, pure, Except.pure])
    · exact absurd h (by simp [Outcome.fail, pure, Except.pure])

/-- By names, the letter of a control character is one. -/
theorem Lexer.isUpper_of_meaningBy {outer inner : Label} {message : String} {names : Names}
    {s final : State} {letter : Char}
    (h : (controlLetter outer inner message).meaningBy names s = .done (.success letter, final)) :
    letter.isUpper = true := by
  rw [controlLetter, Parser.meaningBy_memo, Parser.meaningBy_wrap, Parser.meaningBy_memo,
    Parser.meaningBy_atom] at h
  obtain ⟨⟨outcome, after⟩, hpart, hfinish⟩ := Result.bind_eq_done h
  cases outcome with
  | failure cause =>
    exact absurd hfinish (by simp [State.finish, Wrapper.finish, Wrapper.finishLabel, Except.map])
  | success x =>
    obtain ⟨rfl, -⟩ : x = letter ∧ _ := by
      simpa [State.finish, Wrapper.finish, Wrapper.finishLabel, Except.map] using hfinish
    obtain ⟨cursor, hread, -⟩ := Action.read_of_atom hpart
    exact Atom.accepts_of_readSatisfy (Atom.eq_ok_of_map_some hread)

/-- Nothing breaks the computation off but a rule that is missing. -/
def Result.Faultless {α : Type} (x : Result α) : Prop :=
  ∀ cause, x = .fault cause → cause = .ruleDropped

namespace Result.Faultless

variable {α β : Type}

theorem done (a : α) : (Result.done a).Faultless :=
  fun _ h => absurd h (by simp)

theorem timeout : (Result.timeout : Result α).Faultless :=
  fun _ h => absurd h (by simp)

theorem bind {x : Result α} {f : α → Result β} (hx : x.Faultless)
    (hf : ∀ a, x = .done a → (f a).Faultless) : (x >>= f).Faultless := by
  cases x with
  | done a => exact hf a rfl
  | fault cause => exact fun cause' h => hx cause' (congrArg Result.fault (Result.fault.inj h))
  | timeout => exact .timeout

theorem ofDelivers {x : Except Fault α} {post : α → Prop} (h : Delivers x post) :
    (Result.ofExcept x).Faultless := by
  obtain ⟨a, rfl, -⟩ := h
  exact .done a

end Result.Faultless

/-- A state of a run over the text: it and all that is remembered lie in the text, and the
run by names goes along with it. -/
structure State.Known (memoize : Bool) (input : Array Char) (w : Correspondence) (s : State) :
    Prop where
  kept : s.Kept (fun _ => True) input
  named : ∃ w' s', w ≤ w' ∧ s.Named memoize w' s'

namespace State.Known

variable {memoize : Bool} {input : Array Char} {w : Correspondence} {s : State}

theorem startAt (names : Names) (input : Array Char) (memoize : Bool) {start : Nat}
    (h : start ≤ input.size) :
    (State.startAt input memoize start).Known memoize input (.initial input names) :=
  ⟨.startAt input memoize h, _, _, le_rfl, .startAt names input memoize start⟩

theorem movedTo (h : s.Known memoize input w) {q : Nat} (hq : q ≤ input.size) :
    (s.movedTo q).Known memoize input w := by
  obtain ⟨hkept, w', s', hw, hnamed⟩ := h
  exact ⟨hkept.movedTo hq, w', s'.movedTo q, hw, hnamed.movedTo q⟩

theorem tick (h : s.Known memoize input w) (counter : Nat) :
    (s.tick counter).Known memoize input w := by
  obtain ⟨hkept, w', s', hw, hnamed⟩ := h
  exact ⟨⟨hkept.1, hkept.2, hkept.3⟩, w', s'.tick counter, hw, hnamed.tick counter⟩

theorem missed (h : s.Known memoize input w) : s.missed.Known memoize input w := by
  obtain ⟨hkept, w', s', hw, hnamed⟩ := h
  exact ⟨⟨hkept.1, hkept.2, hkept.3⟩, w', s'.missed, hw, hnamed.missed⟩

theorem size_eq (h : s.Known memoize input w) : s.cursor.input.size = input.size :=
  congrArg Array.size h.kept.input_eq

theorem position_le (h : s.Known memoize input w) : s.position ≤ s.cursor.input.size :=
  h.kept.position_le

/-- A jump back to where the run has been before. -/
theorem jumpTo_eq (h : s.Known memoize input w) {q : Nat} (hq : q ≤ input.size) :
    s.jumpTo q = .ok (s.movedTo q) := by
  rw [State.jumpTo_eq, if_pos (h.size_eq ▸ hq)]

/-- A repetition goes on or jumps back to where its occurrence began. -/
theorem next_delivers {α : Type} {before : State} (h : s.Known memoize input w)
    (hbefore : before.Known memoize input w) (values : List α) (outcome : Outcome α) :
    Delivers (Turn.next before.position values outcome s) fun _ => True := by
  cases outcome with
  | success value => exact .ok trivial
  | failure cause =>
    by_cases hc : cause.consumed = true
    · simp only [Turn.next, hc, if_true]
      exact .ok trivial
    · simp only [Turn.next, hc, Bool.false_eq_true, if_false, h.jumpTo_eq hbefore.kept.within]
      exact .ok trivial

theorem finish_delivers {a b : Ty} {wrapper : Wrapper a b} {outcome : Outcome a.Elem}
    {before : State} (h : s.Known memoize input w) (hsize : input.size < Index.limit)
    (hbefore : before.Known memoize input w) (hconverts : wrapper.Converts outcome) :
    Delivers (s.finish wrapper before.position outcome) fun _ => True := by
  have hstart : before.position ≤ s.cursor.input.size := h.size_eq ▸ hbefore.kept.within
  obtain ⟨result, hresult, -⟩ := Wrapper.finish_delivers (c := s.cursor) hconverts
    (h.size_eq ▸ hsize) hstart h.position_le
  exact ⟨_, by rw [State.finish, hresult]; rfl, trivial⟩

variable {t : Ty} {p : Parser t} {names : Names} {level fuel : Nat} {scope scope' : Scope}
  {outcome : Outcome t.Elem} {after : State}

/-- After a part of the grammar has run, and what its run by names ends with. -/
theorem exists_after (h : s.Known memoize input w) (hp : p.Labelled names level)
    (htwins : Scope.Twins w names level scope scope')
    (hdone : p.eval fuel scope s = .done (outcome, after)) :
    after.Known memoize input w ∧
      ∃ s' after', p.meaningBy names s' = .done (outcome, after') := by
  obtain ⟨hkept, w', s', hw, hnamed⟩ := h
  have hkeeps : Action.Keeps (fun _ => True) input (p.eval fuel scope) :=
    Parser.eval_keeps (fun _ _ _ => trivial) fuel scope p
      (fun rule _ => Parser.remembers_of_forall (fun _ => trivial) rule.body)
      (Parser.remembers_of_forall (fun _ => trivial) p)
  have hresults := naming_byNames.actions fuel p hp (htwins.later hw) (.inl fun _ => rfl) w' le_rfl
    s s' hnamed
  rw [hdone] at hresults
  generalize hsecond : p.meaningBy names s' = second at *
  cases hresults with
  | secondExcused hcause => exact absurd hcause id
  | done hw' _ hafter =>
    exact ⟨⟨hkeeps s hkept _ hdone, _, _, le_trans hw hw', hafter⟩, s', _, hsecond⟩

end State.Known

/-- What a sane wrapper is around delivers by names only what the wrapper converts. -/
theorem Wrapper.Safe.converts {a b : Ty} {wrapper : Wrapper a b} {p : Parser a} {names : Names}
    {s final : State} {outcome : Outcome a.Elem} (h : Safe a b wrapper p)
    (hdone : p.meaningBy names s = .done (outcome, final)) : wrapper.Converts outcome := by
  cases outcome with
  | failure cause => cases wrapper <;> trivial
  | success value =>
    cases h with
    | spanned => trivial
    | basic h =>
      cases h with
      | map f => exact ⟨f value, rfl⟩
      | control => exact Lexer.controlOf_eq_ok (Lexer.isUpper_of_meaningBy hdone)
      | attempt => trivial
      | label => trivial
      | refuse => trivial

namespace Parser

variable {r t : Ty} {origin : Machine r} {memoize : Bool} {input : Array Char} {w : Correspondence}
  {names : Names} {level : Nat} {scope scope' : Scope}

/-- A repetition is faultless if its occurrences are wherever the run comes to them. -/
theorem repeatFrom_faultless {fuel : Nat} {p : Parser t} {stack : Stack (.list t) r}
    (hp : p.Labelled names level) (htwins : Scope.Twins w names level scope scope')
    (hoccurrence : ∀ (before : Nat) (values : List t.Elem) (s : State),
      origin.Reaches ⟨.run p scope (.push (.turn before p values scope) stack), s⟩ →
      s.Known memoize input w → (p.eval fuel scope s).Faultless)
    (more : Nat) (values : List t.Elem) {s : State}
    (hreach : origin.Reaches (nextTurn p values scope stack s)) (hs : s.Known memoize input w) :
    ((p.eval fuel scope).repeatFrom more values s).Faultless := by
  induction more generalizing values s with
  | zero => exact .timeout
  | succ more ih =>
    refine .bind (hoccurrence s.position values s hreach hs) ?_
    rintro ⟨outcome, after⟩ hdone
    obtain ⟨hafter, -⟩ := hs.exists_after hp htwins hdone
    have hleave := hreach.leave (meaning_eq_done hdone)
    refine .bind (.ofDelivers (hafter.next_delivers hs values outcome)) ?_
    rintro ⟨turn, final⟩ hturn
    cases turn with
    | stop outcome => exact .done _
    | again more =>
      have hnext := Result.ofExcept_eq_done hturn
      obtain ⟨value, rfl, -, rfl, rfl⟩ := Turn.eq_of_next_again hnext
      simp only [leave, hnext, Machine.ofExcept] at hleave
      exact ih (value :: values) hleave hafter

/-- A sequence is faultless if its items are wherever the run comes to them. -/
theorem sequence_faultless {fuel k : Nat} {items : Fin k → Parser (.option t)} {start : Nat}
    {stack : Stack (.list t) r} (hp : ∀ i, (items i).Labelled names level)
    (htwins : Scope.Twins w names level scope scope')
    (hitems : ∀ (i : Fin k) (rest : List (Fin k)) (values : List t.Elem) (s : State),
      origin.Reaches ⟨.run (items i) scope (.push (.item start items rest values scope) stack), s⟩ →
      s.Known memoize input w → ((items i).eval fuel scope s).Faultless)
    (rest : List (Fin k)) (values : List t.Elem) {s : State}
    (hreach : origin.Reaches (nextItem start items rest values scope stack s))
    (hs : s.Known memoize input w) :
    (Action.sequence (fun i => (items i).eval fuel scope) start rest values s).Faultless := by
  induction rest generalizing values s with
  | nil => exact .done _
  | cons i rest ih =>
    refine .bind (hitems i rest values s hreach hs) ?_
    rintro ⟨outcome, after⟩ hdone
    obtain ⟨hafter, -⟩ := hs.exists_after (hp i) htwins hdone
    cases outcome with
    | failure cause => exact .done _
    | success value =>
      exact ih (collect values value) (hreach.leave (meaning_eq_done hdone)) hafter

/-- A reader of the library is faultless wherever the run comes to it. -/
theorem atom_faultless (hsize : input.size < Index.limit) (hjumps : origin.JumpsInside input.size)
    {a : Atom t} (ha : a.Builtin) {stack : Stack t r} {s : State}
    (hreach : origin.Reaches ⟨.run (.atom a) scope stack, s⟩) (hs : s.Known memoize input w) :
    (Action.atom a s).Faultless := by
  have hinside : a.Inside s.cursor.input.size := by
    cases a with
    | jump target => exact hs.size_eq ▸ hjumps target scope stack s hreach
    | _ => trivial
  obtain ⟨⟨outcome, after⟩, hread, hsome⟩ :=
    Atom.read_delivers ha hinside (hs.size_eq ▸ hsize) hs.position_le
  simp only [Action.atom, State.read, hread, Except.map, Result.ofExcept_ok, Result.done_bind]
  cases outcome with
  | none => exact absurd rfl hsome
  | some outcome => exact .done _

/-- A choice is faultless if its alternatives are where the run comes to them. -/
theorem choice_faultless {fuel : Nat} {first second : Parser t} {stack : Stack t r} {s : State}
    (hp : first.Labelled names level)
    (htwins : Scope.Twins w names level (scope.holding second.owned) scope')
    (hreach : origin.Reaches ⟨.run (.choice first second) scope stack, s⟩)
    (hs : s.Known memoize input w)
    (hfirst : (first.eval fuel (scope.holding second.owned) s).Faultless)
    (hsecond : ∀ (stack : Stack t r) (s : State), origin.Reaches ⟨.run second scope stack, s⟩ →
      s.Known memoize input w → (second.eval fuel scope s).Faultless) :
    ((first.eval fuel (scope.holding second.owned)).choice (second.eval fuel scope) s).Faultless := by
  have hpart := hreach.next rfl
  refine .bind hfirst ?_
  rintro ⟨outcome, after⟩ hdone
  obtain ⟨hafter, -⟩ := hs.exists_after hp htwins hdone
  cases outcome with
  | success value => exact .done _
  | failure cause =>
    have hleave := hpart.leave (meaning_eq_done hdone)
    by_cases hc : cause.consumed = true
    · simp only [hc, if_true]
      exact .done _
    · have hback := hafter.jumpTo_eq hs.kept.within
      simp only [leave, hc, Bool.false_eq_true, if_false, hback, Machine.ofExcept] at hleave
      simp only [hc, Bool.false_eq_true, if_false, hback, Result.ofExcept_ok, Result.done_bind]
      refine .bind ?_ fun _ _ => .done _
      exact hsecond _ _ hleave (hafter.movedTo hs.kept.within)

/-- A memoized parser is faultless if its part is where the run comes to it. -/
theorem memo_faultless {fuel : Nat} {p : Parser t} {label : Label} {stack : Stack t r} {s : State}
    (hreach : origin.Reaches ⟨.run (.memo label p) scope stack, s⟩) (hs : s.Known memoize input w)
    (hp : ∀ (stack : Stack t r) (s : State), origin.Reaches ⟨.run p scope stack, s⟩ →
      s.Known memoize input w → (p.eval fuel scope s).Faultless) :
    ((p.eval fuel scope).remembered (scope.key label) s).Faultless := by
  by_cases hm : s.cursor.memoize = true
  · rcases State.lookup_cases hm (scope.key label) t with ⟨outcome, _, -, hlookup⟩ | hlookup
    · simp only [Action.remembered, hm, if_true, hlookup]
      exact .done _
    · have hpart : step ⟨.run (.memo label p) scope stack, s⟩ = .next ⟨.run p scope
          (.push (.memo (scope.key label) s.position) stack), s.missed⟩ := by
        simp only [step, enter, hm, if_true, hlookup]
      simp only [Action.remembered, hm, if_true, hlookup]
      exact .bind (hp _ _ (hreach.next hpart) hs.missed) fun _ _ => .done _
  · have hpart : step ⟨.run (.memo label p) scope stack, s⟩ = .next ⟨.run p scope stack, s⟩ := by
      simp only [step, enter, hm, Bool.false_eq_true, if_false]
    simp only [Action.remembered, hm, Bool.false_eq_true, if_false]
    exact hp _ _ (hreach.next hpart) hs

/-- Wherever the run of a grammar comes to one of its parts, that part is faultless. -/
theorem eval_faultless (hsize : input.size < Index.limit) (hjumps : origin.JumpsInside input.size)
    (fuel : Nat) (p : Parser t) (hp : p.Labelled names level) (hsane : p.Sane)
    (htwins : Scope.Twins w names level scope scope') (hscope : scope.Sane) {stack : Stack t r}
    {s : State} (hreach : origin.Reaches ⟨.run p scope stack, s⟩) (hs : s.Known memoize input w) :
    (p.eval fuel scope s).Faultless := by
  induction fuel generalizing t w names level scope scope' s with
  | zero => exact .timeout
  | succ fuel ih =>
    cases p with
    | atom a => exact atom_faultless hsize hjumps hsane hreach hs
    | wrap wrapper p =>
      refine .bind (ih p hp hsane.2 htwins hscope (hreach.next rfl) hs) ?_
      rintro ⟨outcome, after⟩ hdone
      obtain ⟨hafter, s', after', hmeaning⟩ := hs.exists_after (p := p) hp htwins hdone
      exact .ofDelivers (hafter.finish_delivers hsize hs (hsane.1.converts hmeaning))
    | bind p captures next =>
      have hpart := hreach.next rfl
      refine .bind (ih p hp.1 hsane.1 (htwins.holding captures) hscope hpart hs) ?_
      rintro ⟨outcome, middle⟩ hdone
      obtain ⟨hmiddle, -⟩ := hs.exists_after hp.1 (htwins.holding captures) hdone
      cases outcome with
      | failure cause => exact .done _
      | success value =>
        refine .bind ?_ fun _ _ => .done _
        exact ih (next value) (hp.2 value) (hsane.2 value) htwins hscope
          (hpart.leave (meaning_eq_done hdone)) hmiddle
    | sequence items =>
      have htwins' := htwins.holding (ownedItems items)
      refine sequence_faultless hp htwins' (fun i rest values s' hitem hs' => ?_) _ []
        (hreach.next rfl) hs
      exact ih (items i) (hp i) (hsane i) htwins' hscope hitem hs'
    | choice first second =>
      have htwins' := htwins.holding second.owned
      exact choice_faultless hp.1 htwins' hreach hs
        (ih first hp.1 hsane.1 htwins' hscope (hreach.next rfl) hs)
        fun _ _ => ih second hp.2 hsane.2 htwins hscope
    | memo label p =>
      obtain ⟨hlevel, -, hp⟩ := hp
      exact memo_faultless hreach hs fun _ _ => ih p hp hsane (htwins.lower hlevel) hscope
    | many p =>
      have htwins' := htwins.holding p.owned
      refine repeatFrom_faultless (p := p) hp htwins' (fun before values s' hturn hs' => ?_) fuel []
        (hreach.next rfl) hs
      exact ih p hp hsane htwins' hscope hturn hs'
    | many1 p =>
      have hpart := hreach.next rfl
      have htwins' := htwins.holding p.owned
      refine .bind (ih p hp hsane htwins' hscope hpart hs) ?_
      rintro ⟨outcome, after⟩ hdone
      obtain ⟨hafter, -⟩ := hs.exists_after (p := p) hp htwins' hdone
      have hleave := hpart.leave (meaning_eq_done hdone)
      simp only [leave] at hleave
      simp only
      cases hturn : Turn.first s.position outcome after with
      | stop outcome => exact .done _
      | again values =>
        rw [hturn] at hleave
        refine repeatFrom_faultless (p := p) hp htwins' (fun before values s' hturn hs' => ?_) fuel
          values hleave hafter
        exact ih p hp hsane htwins' hscope hturn hs'
    | recursive name body =>
      obtain ⟨hlevel, hname, hbody⟩ := hp
      have htwins' := (htwins.define hlevel hname hbody).lower hlevel
      exact ih body hbody hsane htwins' (hscope.define name hsane) (hreach.next rfl) hs
    | rule name =>
      simp only [eval]
      rcases htwins.resolve hp t with ⟨body, inner, inner', hfound, -, hbody, hinner⟩ | ⟨hnone, -⟩
      · have hstart : step ⟨.run (.rule name) scope stack, s⟩ = .next ⟨.run body inner stack, s⟩ := by
          simp only [step, enter, hfound]
        obtain ⟨hsane', hscope'⟩ := Scope.forall_of_resolve hscope hfound
        simp only [hfound]
        exact ih body hbody hsane' hinner hscope' (hreach.next hstart) hs
      · simp only [hnone]
        exact fun cause h => (Result.fault.inj h).symm
    | fresh inner captures body =>
      obtain ⟨hpos, hinner, hnames⟩ := hp
      obtain ⟨hbody, hbelow⟩ := Names.renewed_spec hnames
      obtain ⟨hkept, w', s', hw, hnamed⟩ := hs
      have htwins' := (htwins.later hw).renew hpos hinner hbelow (Nat.le_refl w'.limit)
      rw [← hnamed.taken_eq] at htwins'
      refine ih (body ()) hbody hsane htwins' hscope (s := s.renew.2) (hreach.next rfl) ?_
      exact ⟨⟨hkept.1, hkept.2, hkept.3⟩, _, _, le_rfl, hnamed.renew inner _⟩
    | tick counter p =>
      exact ih p hp hsane htwins hscope (hreach.next rfl) (hs.tick counter)

/-- A whole run does not break off but where a rule is missing, and it stays in the text. -/
theorem meaning_faultless {p : Parser t} (hp : p.WellLabelled) (hsane : p.Sane)
    (hsize : input.size < Index.limit) {start : Nat} (hstart : start ≤ input.size)
    (hjumps : (Machine.start p (.startAt input memoize start)).JumpsInside input.size) :
    (p.meaning Scope.root (.startAt input memoize start)).Faultless ∧
      ∀ outcome final, p.meaning Scope.root (.startAt input memoize start) = .done (outcome, final) →
        final.cursor.input = input ∧ final.position ≤ input.size := by
  obtain ⟨names, hp⟩ := hp
  constructor
  · by_cases hends : p.meaning Scope.root (.startAt input memoize start) = .timeout
    · rw [hends]
      exact .timeout
    · obtain ⟨fuel, hfuel⟩ := exists_eval_eq_meaning hends
      rw [← hfuel]
      refine eval_faultless hsize hjumps fuel p hp hsane (.initial input names) ?_ ⟨0, .refl _⟩
        (.startAt names input memoize hstart)
      exact fun rule hrule => absurd hrule (by simp [Scope.root])
  · intro outcome final hdone
    have hkeeps : Action.Keeps (fun _ => True) input (p.meaning Scope.root) :=
      meaning_keeps (fun _ _ _ => trivial) (remembers_of_forall (fun _ => trivial) p)
    have hfinal := hkeeps _ (.startAt input memoize hstart) _ hdone
    exact ⟨hfinal.input_eq, hfinal.within⟩

end Parser

namespace Runner

variable {t : Ty}

/-- A run that has ended reports what the grammar means, in slices or without a pause. -/
theorem execute_ofResult (runner : Runner) {p : Parser t} {input : Array Char} {limit : Nat}
    (h : runner.execute limit p input ≠ .timeout) :
    p.meaning Scope.root (.startAt input runner.memoize 0) ≠ .timeout ∧
    ∃ steps, runner.execute limit p input =
        Report.ofResult steps (p.meaning Scope.root (.startAt input runner.memoize 0)) ∧
      runner.executeSliced limit p input =
        Report.ofResult steps (p.meaning Scope.root (.startAt input runner.memoize 0)) := by
  cases hdrive : drive Machine.step limit 0 (runner.begin p input) with
  | none => exact absurd (by simp [execute, hdrive, conclude]) h
  | some ended =>
    obtain ⟨steps, m⟩ := ended
    obtain ⟨n, last, rfl, hlimit, hsteps, hend⟩ := steps_of_drive hdrive
    have hsliced := driveSliced_eq runner.yieldEvery hsteps hend hlimit 0
    have hexecute : runner.execute limit p input = Report.ofResult (0 + n) m.result := by
      simp only [execute, hdrive, conclude, finish_eq]
    have hmeaning : p.meaning Scope.root (.startAt input runner.memoize 0) = m.result := by
      cases hresult : m.result with
      | done result => exact (p.ends_iff _ (.ok result)).1 ⟨limit, _, m, hdrive, hresult⟩
      | fault cause => exact (p.ends_iff _ (.error cause)).1 ⟨limit, _, m, hdrive, hresult⟩
      | timeout => exact absurd (by rw [hexecute, hresult]; rfl) h
    rw [hmeaning]
    refine ⟨fun hresult => h (by rw [hexecute, hresult]; rfl), 0 + n, hexecute, ?_⟩
    simp only [executeSliced, hsliced, conclude, finish_eq]

/-- Grammars of the library break no run off. Take a grammar that is composed of readers,
wrappers and token parsers of the library, whose jumps stay inside the text. A run over a
text that fits into memory, whether it remembers or not and whether it pauses or not, has
an outcome when it ends, unless it looked for a rule that was dropped; the cursor is still
inside the text, and the failure, if it is one, can be rendered. -/
theorem execute_delivers (runner : Runner) (p : Parser t)
    (hp : p.Composed (fun _ a => a.Builtin) Wrapper.Safe) (hlabels : p.WellLabelled)
    (input : Array Char) (hfits : Fits input)
    (hjumps : (runner.begin p input).JumpsInside input.size) (limit : Nat)
    (hends : runner.execute limit p input ≠ .timeout)
    (hkept : runner.execute limit p input ≠ .fault .ruleDropped) :
    ∃ report, runner.execute limit p input = .done report ∧
      runner.executeSliced limit p input = .done report ∧
      (∃ left, report.state.cursor.remaining = .ok left) ∧
      ∃ result, report.result = .ok result := by
  have hroom := hfits.room
  obtain ⟨hfaultless, hinside⟩ := Parser.meaning_faultless hlabels hp.sane (by omega)
    (Nat.zero_le input.size) hjumps
  obtain ⟨hmeaning, steps, hexecute, hsliced⟩ := runner.execute_ofResult hends
  rw [hexecute] at hkept
  cases hresult : p.meaning Scope.root (.startAt input runner.memoize 0) with
  | timeout => exact absurd hresult hmeaning
  | fault cause =>
    obtain rfl := hfaultless cause hresult
    exact absurd (by rw [hresult]; rfl) hkept
  | done result =>
    obtain ⟨outcome, final⟩ := result
    obtain ⟨hinput, hposition⟩ := hinside outcome final hresult
    rw [hresult] at hexecute hsliced
    refine ⟨_, hexecute, hsliced, ⟨final.cursor.input.size - final.position, ?_⟩, ?_⟩
    · exact Index.sub_eq_ok (hinput ▸ hposition)
    · cases outcome with
      | success value => exact ⟨.ok value, rfl⟩
      | failure cause =>
        have hrender : Delivers (Diagnostic.ofFailure cause final.cursor) fun _ => True :=
          Diagnostic.ofFailure_delivers cause (hinput ▸ hfits)
        obtain ⟨diagnostic, hdiagnostic, -⟩ := hrender
        exact ⟨.error diagnostic, by simp only [Report.result, hdiagnostic]; rfl⟩

/-- An `a`, a jump back over it, and a `b` in its place. -/
def backOver : Parser .char :=
  .andThen (.atom (.char 'a')) (.andThen (.setPosition 0) (.wrap .attempt (.atom (.char 'b'))))

theorem execute_delivers_backOver :
    backOver.Composed (fun _ a => a.Builtin) Wrapper.Safe ∧ backOver.WellLabelled ∧
    Fits #['a'] ∧ (Runner.begin {} backOver #['a']).JumpsInside 1 ∧
    Runner.execute {} 40 backOver #['a'] ≠ .timeout ∧
    Runner.execute {} 40 backOver #['a'] ≠ .fault .ruleDropped ∧
    ∃ report, Runner.execute {} 40 backOver #['a'] = .done report ∧
      Runner.executeSliced {} 40 backOver #['a'] = .done report ∧
      (∃ left, report.state.cursor.remaining = .ok left) ∧
      ∃ result, report.result = .ok result := by
  have hcomposed : backOver.Composed (fun _ a => a.Builtin) Wrapper.Safe :=
    .bind (.atom trivial) fun _ => .bind (.atom trivial) fun _ =>
      .wrap (Wrapper.Safe.basic (.attempt _)) (.atom trivial)
  have hlabelled : backOver.WellLabelled :=
    ⟨fun _ => none, trivial, fun _ => ⟨trivial, fun _ => trivial⟩⟩
  have hinside : backOver.All fun _ a => a.Inside 1 :=
    ⟨trivial, fun _ => ⟨Nat.zero_le 1, fun _ => trivial⟩⟩
  have hjumps : (Runner.begin {} backOver #['a']).JumpsInside 1 :=
    fun _ _ _ _ hreach => (hreach.all hinside).1
  have hfits : Fits #['a'] := show 4 < 2 ^ 63 by decide
  have hends : ∃ report, Runner.execute {} 40 backOver #['a'] = .done report := ⟨_, rfl⟩
  obtain ⟨report, hreport⟩ := hends
  have htimeout := hreport.trans_ne (c := .timeout) (by simp)
  have hkept := hreport.trans_ne (c := .fault .ruleDropped) (by simp)
  exact ⟨hcomposed, hlabelled, hfits, hjumps, htimeout, hkept,
    execute_delivers {} backOver hcomposed hlabelled #['a'] hfits hjumps 40 htimeout hkept⟩

end Runner

end ParserKit
