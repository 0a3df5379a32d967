import ParserKit.Proofs.PegAgreement
import ParserKit.Proofs.Recursion

/-!
Runs that remember nothing, told by the place where a parser begins, its outcome and the
place where it ends. There is a rule for each way in which a part of a parser may turn
out. A parser that fails either refuses, which leaves it where it began, or it breaks,
which counts as consuming; only the first lets an alternative have its turn.
-/

namespace ParserKit

open Peg (Stands)

namespace Parser

variable {a b c t : Ty} {input : Array Char} {scope : Scope} {i j k : Nat}

/-- From the place `i` the parser comes to an outcome at the place `j`, whatever rules
waiting parsers keep in use. -/
def Runs (input : Array Char) (scope : Scope) (p : Parser t) (i : Nat) (outcome : Outcome t.Elem)
    (j : Nat) : Prop :=
  ∀ held s, Stands input i s →
    ∃ after, p.meaning { scope with held } s = .done (outcome, after) ∧ Stands input j after

/-- The parser fails without consuming. -/
def Refuses (input : Array Char) (scope : Scope) (p : Parser t) (i : Nat) : Prop :=
  ∃ expected, p.Runs input scope i (.fail expected) i

/-- The parser fails and has consumed. -/
def Breaks (input : Array Char) (scope : Scope) (p : Parser t) (i : Nat) : Prop :=
  ∃ expected j, p.Runs input scope i (.failure ⟨expected, true⟩) j

/-- The parser fails. -/
def Fails (input : Array Char) (scope : Scope) (p : Parser t) (i : Nat) : Prop :=
  p.Refuses input scope i ∨ p.Breaks input scope i

/-- A failure that has not consumed must not have moved. -/
theorem Runs.fails {p : Parser t} {cause : Failure} (h : p.Runs input scope i (.failure cause) j)
    (hstill : cause.consumed = false → j = i) : p.Fails input scope i := by
  obtain ⟨expected, consumed⟩ := cause
  cases consumed with
  | true => exact .inr ⟨expected, j, h⟩
  | false =>
    obtain rfl : j = i := hstill rfl
    exact .inl ⟨expected, h⟩

theorem Fails.exists_runs {p : Parser t} (h : p.Fails input scope i) :
    ∃ cause j, p.Runs input scope i (.failure cause) j := by
  rcases h with ⟨expected, h⟩ | ⟨expected, j, h⟩
  · exact ⟨_, i, h⟩
  · exact ⟨_, j, h⟩

theorem stands_startAt (hi : i ≤ input.size) : Stands input i (.startAt input false i) :=
  ⟨rfl, rfl, hi, rfl⟩

namespace Runs

variable {p : Parser a} {q : Parser a} {outcome : Outcome a.Elem} {cause : Failure} {v : a.Elem}

/-- A parser does one thing only from a place. -/
theorem unique {outcome' : Outcome a.Elem} (h : p.Runs input scope i outcome j)
    (h' : p.Runs input scope i outcome' k) (hi : i ≤ input.size) : outcome = outcome' ∧ j = k := by
  obtain ⟨after, hdone, hafter⟩ := h scope.held _ (stands_startAt hi)
  obtain ⟨after', hdone', hafter'⟩ := h' scope.held _ (stands_startAt hi)
  obtain ⟨rfl, rfl⟩ := Prod.mk.inj (Result.done.inj (hdone.symm.trans hdone'))
  exact ⟨rfl, hafter.position_eq.symm.trans hafter'.position_eq⟩

theorem le_size (h : p.Runs input scope i outcome j) (hi : i ≤ input.size) : j ≤ input.size := by
  obtain ⟨after, -, hafter⟩ := h scope.held _ (stands_startAt hi)
  exact hafter.within

/-- A part does the same while another parser waits for it. -/
theorem holding (h : p.Runs input scope i outcome j) (labels : List Label) (held : List Key)
    {s : State} (hs : Stands input i s) :
    ∃ after, p.meaning (({ scope with held } : Scope).holding labels) s = .done (outcome, after) ∧
      Stands input j after :=
  h (({ scope with held } : Scope).holding labels).held s hs

/-- What a reader does is seen from a cursor that has nothing but the text and the place. -/
theorem atom {x : Atom t} {outcome : Outcome t.Elem}
    (h : x.read { input, position := i } =
      .ok (some outcome, Cursor.movedTo { input, position := i } j))
    (hin : i ≤ input.size → j ≤ input.size) : (Parser.atom x).Runs input scope i outcome j := by
  intro held s hs
  have hbare : s.cursor.bare = { input, position := i } := by
    rw [Cursor.bare, hs.input_eq, show s.cursor.position = i from hs.position_eq]
  have hread : x.read s.cursor = .ok (some outcome, s.cursor.movedTo j) := by
    rw [x.read_local s.cursor, hbare, h]
    rfl
  refine ⟨s.movedTo j, ?_, hs.movedTo (hin hs.within)⟩
  simp only [meaning_atom, Action.atom, State.read, hread]
  rfl

theorem ret (value : t.Elem) : (Parser.ret value : Parser t).Runs input scope i (.success value) i :=
  atom rfl id

theorem reject (found : String) (offset : Nat) :
    (Parser.reject found offset : Parser t).Runs input scope i
      (.fail (.unexpected found offset)) i :=
  atom rfl id

theorem wrap {wrapper : Wrapper a b} {treated : Outcome b.Elem} (hp : p.Runs input scope i outcome j)
    (hfinish : ∀ c : Cursor, c.input = input → c.position = j → i ≤ input.size → j ≤ input.size →
      wrapper.finish i outcome c = .ok (treated, c.movedTo k) ∧ k ≤ input.size) :
    (Parser.wrap wrapper p).Runs input scope i treated k := by
  intro held s hs
  obtain ⟨after, hdone, hafter⟩ := hp held s hs
  obtain ⟨hfinish, hk⟩ :=
    hfinish after.cursor hafter.input_eq hafter.position_eq hs.within hafter.within
  refine ⟨after.movedTo k, ?_, hafter.movedTo hk⟩
  rw [meaning_wrap]
  refine Peg.wrapped_of_done hdone ?_
  simp only [State.finish, hs.position_eq, hfinish]
  rfl

/-- A wrapper that does not move the cursor. -/
theorem wrap_still {wrapper : Wrapper a b} {treated : Outcome b.Elem}
    (hp : p.Runs input scope i outcome j)
    (hfinish : ∀ c : Cursor, c.position = j → wrapper.finish i outcome c = .ok (treated, c)) :
    (Parser.wrap wrapper p).Runs input scope i treated j :=
  hp.wrap fun c _ hposition _ hj => ⟨by rw [hfinish c hposition, ← hposition]; rfl, hj⟩

theorem convert {f : a.Elem → Except Fault b.Elem} {w : b.Elem}
    (hp : p.Runs input scope i (.success v) j) (hf : f v = .ok w) :
    (Parser.wrap (.convert f) p).Runs input scope i (.success w) j :=
  hp.wrap_still fun c _ => by simp [Wrapper.finish, Wrapper.convertOutcome, hf, Except.map]

theorem convert_failure (f : a.Elem → Except Fault b.Elem)
    (hp : p.Runs input scope i (.failure cause) j) :
    (Parser.wrap (.convert f) p).Runs input scope i (.failure cause) j :=
  hp.wrap_still fun _ _ => rfl

theorem map (f : a.Elem → b.Elem) (hp : p.Runs input scope i (.success v) j) :
    (p.map f).Runs input scope i (.success (f v)) j :=
  hp.convert rfl

theorem attempt (hp : p.Runs input scope i (.success v) j) :
    (Parser.wrap .attempt p).Runs input scope i (.success v) j :=
  hp.wrap_still fun _ _ => rfl

theorem attempt_failure (hp : p.Runs input scope i (.failure cause) j) :
    (Parser.wrap .attempt p).Runs input scope i (.fail cause.expected) i := by
  refine hp.wrap fun c hinput _ hi _ => ⟨?_, hi⟩
  rw [← hinput] at hi
  simp only [Wrapper.finish, Wrapper.finishAttempt, c.jumpTo_of_le hi]
  rfl

theorem label (message : String) (hp : p.Runs input scope i (.success v) j) :
    (Parser.wrap (.label message) p).Runs input scope i (.success v) j :=
  hp.wrap_still fun _ _ => rfl

theorem label_failure (message : String) (hp : p.Runs input scope i (.failure cause) j) :
    (Parser.wrap (.label message) p).Runs input scope i
      (.failure { cause with expected := .positioned message i }) j :=
  hp.wrap_still fun _ _ => rfl

theorem spanned (hp : p.Runs input scope i (.success v) j) :
    p.withPosition.Runs input scope i (.success (v, { start := i, stop := j })) j :=
  hp.wrap_still fun c hposition => by
    simp only [Wrapper.finish, hposition]
    rfl

theorem spanned_failure (hp : p.Runs input scope i (.failure cause) j) :
    p.withPosition.Runs input scope i (.failure cause) j :=
  hp.wrap_still fun _ _ => rfl

/-- What was found where it should not be is cut out of the text. -/
theorem refuse (hsize : input.size < Index.limit) (hp : p.Runs input scope i (.success v) j)
    (hij : i ≤ j) : p.notFollowedBy.Refuses input scope i := by
  refine ⟨.unexpected (String.ofList (input.extract i j).toList) i,
    hp.wrap fun c hinput hposition hi hj => ⟨?_, hi⟩⟩
  subst hinput
  have hback := c.jumpTo_of_le hi
  have hcut := (c.movedTo i).slice_eq_extract (j - i) (by simp only [Cursor.movedTo]; omega) hsize
  have hstop : i + (j - i) = j := by omega
  simp only [Wrapper.finish, Wrapper.finishRefuse, hback, hposition, Bind.bind, Except.bind, hcut]
  simp only [Cursor.movedTo, hstop]
  rfl

theorem refuse_failure (hp : p.Runs input scope i (.failure cause) j) :
    p.notFollowedBy.Runs input scope i (.success ()) i := by
  refine hp.wrap fun c hinput _ hi _ => ⟨?_, hi⟩
  rw [← hinput] at hi
  simp only [Wrapper.finish, Wrapper.finishRefuse, c.jumpTo_of_le hi]
  rfl

theorem bind {outcome : Outcome b.Elem} (captures : List Label) (next : a.Elem → Parser b)
    (hp : p.Runs input scope i (.success v) j) (hnext : (next v).Runs input scope j outcome k) :
    (Parser.bind p captures next).Runs input scope i (outcome.consumedIf (k != i)) k := by
  intro held s hs
  obtain ⟨middle, hfirst, hmiddle⟩ := hp.holding captures held hs
  obtain ⟨after, hsecond, hafter⟩ := hnext held middle hmiddle
  refine ⟨after, ?_, hafter⟩
  rw [meaning_bind]
  simp only [Action.chain, State.settle, hs.position_eq, hfirst, Result.done_bind, hsecond,
    hafter.position_eq]

theorem bind_failure (captures : List Label) (next : a.Elem → Parser b)
    (hp : p.Runs input scope i (.failure cause) j) :
    (Parser.bind p captures next).Runs input scope i (.failure cause) j := by
  intro held s hs
  obtain ⟨after, hfirst, hafter⟩ := hp.holding captures held hs
  refine ⟨after, ?_, hafter⟩
  rw [meaning_bind]
  simp only [Action.chain, hfirst]
  rfl

theorem choice_success (hp : p.Runs input scope i (.success v) j) :
    (Parser.choice p q).Runs input scope i (.success v) j := by
  intro held s hs
  obtain ⟨after, hfirst, hafter⟩ := hp.holding q.owned held hs
  refine ⟨after, ?_, hafter⟩
  rw [meaning_choice]
  simp only [Action.choice, hfirst]
  rfl

theorem choice_break {expected : Expectation}
    (hp : p.Runs input scope i (.failure ⟨expected, true⟩) j) :
    (Parser.choice p q).Runs input scope i (.failure ⟨expected, true⟩) j := by
  intro held s hs
  obtain ⟨after, hfirst, hafter⟩ := hp.holding q.owned held hs
  refine ⟨after, ?_, hafter⟩
  rw [meaning_choice]
  simp only [Action.choice, hfirst]
  rfl

theorem choice_second {expected : Expectation} (hp : p.Runs input scope i (.fail expected) i)
    (hq : q.Runs input scope i outcome j) :
    (Parser.choice p q).Runs input scope i (outcome.join expected) j := by
  intro held s hs
  obtain ⟨middle, hfirst, hmiddle⟩ := hp.holding q.owned held hs
  obtain ⟨after, hsecond, hafter⟩ := hq held middle hmiddle
  refine ⟨after, ?_, hafter⟩
  have hback : middle.jumpTo s.position = .ok middle := by
    rw [hs.position_eq, ← hmiddle.position_eq]
    exact State.jumpTo_self hmiddle.position_within
  rw [meaning_choice]
  simp only [Action.choice, hfirst, Outcome.fail, Result.done_bind, hback, Result.ofExcept_ok]
  simp [hsecond]

theorem memo (label : Label) (hp : p.Runs input scope i outcome j) :
    (Parser.memo label p).Runs input scope i outcome j := by
  intro held s hs
  obtain ⟨after, hdone, hafter⟩ := hp held s hs
  refine ⟨after, ?_, hafter⟩
  rw [Peg.meaning_memo_plain hs]
  exact hdone

theorem recursive {name : Label} {body : Parser t} {outcome : Outcome t.Elem}
    (h : body.Runs input (scope.define name body) i outcome j) :
    (Parser.recursive name body).Runs input scope i outcome j := by
  intro held s hs
  rw [meaning_recursive]
  exact h held s hs

/-- Inside its definition, a rule that is built once does what its definition does. -/
theorem rule {name : Label} {body : Parser t} {outcome : Outcome t.Elem} (hname : name.level = 0)
    (h : body.Runs input (scope.define name body) i outcome j) :
    (Parser.rule name).Runs input (scope.define name body) i outcome j := by
  intro held s hs
  have hfound : Scope.resolve { scope.define name body with held } name t =
      some (body, { scope.define name body with held }) := by
    simp [Scope.resolve, Scope.rulesFrom, Scope.define, Scope.keeps, Scope.key_of_level hname]
  rw [meaning_rule, hfound]
  exact h held s hs

/-- Two parts that succeed one after the other. -/
theorem andThen {r : Parser b} {w : b.Elem} (hp : p.Runs input scope i (.success v) j)
    (hr : r.Runs input scope j (.success w) k) :
    (p.andThen r).Runs input scope i (.success w) k :=
  hp.bind r.owned (fun _ => r) hr

theorem lift2 {r : Parser b} {w : b.Elem} (f : a.Elem → b.Elem → c.Elem)
    (hp : p.Runs input scope i (.success v) j) (hr : r.Runs input scope j (.success w) k) :
    (p.lift2 r f).Runs input scope i (.success (f v w)) k :=
  hp.bind r.owned (fun x => r.map (f x)) (hr.map (f v))

/-- A failure of the second part that has consumed is that of the whole. -/
theorem lift2_broken {r : Parser b} {expected : Expectation} (f : a.Elem → b.Elem → c.Elem)
    (hp : p.Runs input scope i (.success v) j)
    (hr : r.Runs input scope j (.failure ⟨expected, true⟩) k) :
    (p.lift2 r f).Runs input scope i (.failure ⟨expected, true⟩) k :=
  hp.bind r.owned (fun x => r.map (f x)) (hr.convert_failure _)

theorem bind_breaks (captures : List Label) (next : a.Elem → Parser b)
    (hp : p.Runs input scope i (.success v) j) (hnext : (next v).Breaks input scope j) :
    (Parser.bind p captures next).Breaks input scope i := by
  obtain ⟨expected, k, hnext⟩ := hnext
  exact ⟨expected, k, hp.bind captures next hnext⟩

/-- A part that fails behind another one breaks the whole, if the first has moved. -/
theorem bind_fails (captures : List Label) (next : a.Elem → Parser b)
    (hp : p.Runs input scope i (.success v) j) (hij : i < j)
    (hnext : (next v).Fails input scope j) :
    (Parser.bind p captures next).Breaks input scope i := by
  rcases hnext with ⟨expected, hnext⟩ | hnext
  · have hmoved : (j != i) = true := by simpa using Nat.ne_of_gt hij
    have hruns := hp.bind captures next hnext
    simp only [Outcome.fail, Outcome.consumedIf, hmoved] at hruns
    exact ⟨expected, j, hruns⟩
  · exact hp.bind_breaks captures next hnext

theorem andThen_fails {r : Parser b} (hp : p.Runs input scope i (.success v) j) (hij : i < j)
    (hr : r.Fails input scope j) : (p.andThen r).Breaks input scope i :=
  hp.bind_fails r.owned (fun _ => r) hij hr

theorem bind_refuses (captures : List Label) (next : a.Elem → Parser b)
    (hp : p.Runs input scope i (.success v) i) (hnext : (next v).Refuses input scope i) :
    (Parser.bind p captures next).Refuses input scope i := by
  obtain ⟨expected, hnext⟩ := hnext
  have hruns := hp.bind captures next hnext
  simp only [Outcome.fail, Outcome.consumedIf, bne_self_eq_false, Bool.or_false] at hruns
  exact ⟨expected, hruns⟩

theorem bind_fails_of_le (captures : List Label) (next : a.Elem → Parser b)
    (hp : p.Runs input scope i (.success v) j) (hij : i ≤ j) (hnext : (next v).Fails input scope j) :
    (Parser.bind p captures next).Fails input scope i := by
  rcases Nat.eq_or_lt_of_le hij with rfl | hlt
  · exact hnext.imp (hp.bind_refuses captures next) (hp.bind_breaks captures next)
  · exact .inr (hp.bind_fails captures next hlt hnext)

end Runs

namespace Refuses

variable {p q : Parser a}

theorem zero : (Parser.zero : Parser t).Refuses input scope i :=
  ⟨.nothing, .atom rfl id⟩

theorem fail (message : String) : (Parser.fail message : Parser t).Refuses input scope i :=
  ⟨.message message, .atom rfl id⟩

theorem memo (label : Label) (h : p.Refuses input scope i) :
    (Parser.memo label p).Refuses input scope i :=
  h.imp fun _ h => h.memo label

theorem label (message : String) (h : p.Refuses input scope i) :
    (Parser.wrap (.label message) p).Refuses input scope i := by
  obtain ⟨expected, h⟩ := h
  exact ⟨_, h.label_failure message⟩

theorem map (f : a.Elem → b.Elem) (h : p.Refuses input scope i) :
    (p.map f).Refuses input scope i :=
  h.imp fun _ h => h.convert_failure _

theorem bind (captures : List Label) (next : a.Elem → Parser b) (h : p.Refuses input scope i) :
    (Parser.bind p captures next).Refuses input scope i :=
  h.imp fun _ h => h.bind_failure captures next

theorem choice_success {v : a.Elem} (h : p.Refuses input scope i)
    (hq : q.Runs input scope i (.success v) j) :
    (Parser.choice p q).Runs input scope i (.success v) j := by
  obtain ⟨expected, h⟩ := h
  exact h.choice_second hq

theorem choice_breaks (h : p.Refuses input scope i) (hq : q.Breaks input scope i) :
    (Parser.choice p q).Breaks input scope i := by
  obtain ⟨expected, h⟩ := h
  obtain ⟨expected', j, hq⟩ := hq
  exact ⟨expected.merge expected', j, h.choice_second hq⟩

theorem choice (h : p.Refuses input scope i) (hq : q.Refuses input scope i) :
    (Parser.choice p q).Refuses input scope i := by
  obtain ⟨expected, h⟩ := h
  obtain ⟨expected', hq⟩ := hq
  exact ⟨expected.merge expected', h.choice_second hq⟩

end Refuses

namespace Breaks

variable {p q : Parser a}

theorem memo (label : Label) (h : p.Breaks input scope i) :
    (Parser.memo label p).Breaks input scope i := by
  obtain ⟨expected, j, h⟩ := h
  exact ⟨expected, j, h.memo label⟩

theorem label (message : String) (h : p.Breaks input scope i) :
    (Parser.wrap (.label message) p).Breaks input scope i := by
  obtain ⟨expected, j, h⟩ := h
  exact ⟨_, j, h.label_failure message⟩

theorem map (f : a.Elem → b.Elem) (h : p.Breaks input scope i) :
    (p.map f).Breaks input scope i := by
  obtain ⟨expected, j, h⟩ := h
  exact ⟨expected, j, h.convert_failure _⟩

theorem bind (captures : List Label) (next : a.Elem → Parser b) (h : p.Breaks input scope i) :
    (Parser.bind p captures next).Breaks input scope i := by
  obtain ⟨expected, j, h⟩ := h
  exact ⟨expected, j, h.bind_failure captures next⟩

theorem choice (h : p.Breaks input scope i) : (Parser.choice p q).Breaks input scope i := by
  obtain ⟨expected, j, h⟩ := h
  exact ⟨expected, j, h.choice_break⟩

end Breaks

namespace Fails

variable {p : Parser a}

theorem memo (label : Label) (h : p.Fails input scope i) :
    (Parser.memo label p).Fails input scope i :=
  h.imp (.memo label) (.memo label)

theorem label (message : String) (h : p.Fails input scope i) :
    (Parser.wrap (.label message) p).Fails input scope i :=
  h.imp (.label message) (.label message)

theorem map (f : a.Elem → b.Elem) (h : p.Fails input scope i) : (p.map f).Fails input scope i :=
  h.imp (.map f) (.map f)

theorem attempt (h : p.Fails input scope i) : (Parser.wrap .attempt p).Refuses input scope i := by
  obtain ⟨cause, j, h⟩ := h.exists_runs
  exact ⟨cause.expected, h.attempt_failure⟩

theorem refuse (h : p.Fails input scope i) : p.notFollowedBy.Runs input scope i (.success ()) i := by
  obtain ⟨cause, j, h⟩ := h.exists_runs
  exact h.refuse_failure

theorem bind (captures : List Label) (next : a.Elem → Parser b) (h : p.Fails input scope i) :
    (Parser.bind p captures next).Fails input scope i :=
  h.imp (.bind captures next) (.bind captures next)

end Fails

section Alternatives

variable {front back : List (Parser t)} {p : Parser t}

theorem choiceAll_refuses {items : List (Parser t)}
    (h : ∀ p ∈ items, p.Refuses input scope i) : (choiceAll items).Refuses input scope i := by
  induction items with
  | nil => exact .zero
  | cons p rest ih =>
    obtain ⟨hp, hrest⟩ := List.forall_mem_cons.1 h
    cases rest with
    | nil => exact hp
    | cons q rest => exact hp.choice (ih hrest)

/-- The first alternative that does not refuse is the outcome. -/
theorem choiceAll_success {v : t.Elem} (hfront : ∀ q ∈ front, q.Refuses input scope i)
    (hp : p.Runs input scope i (.success v) j) :
    (choiceAll (front ++ p :: back)).Runs input scope i (.success v) j := by
  induction front with
  | nil =>
    cases back with
    | nil => exact hp
    | cons q back => exact hp.choice_success
  | cons q front ih =>
    obtain ⟨hq, hfront⟩ := List.forall_mem_cons.1 hfront
    cases front with
    | nil => exact hq.choice_success (ih hfront)
    | cons q' front => exact hq.choice_success (ih hfront)

end Alternatives

/-- A repetition that has collected some values goes on from the place `i` and comes to an
outcome at the place `j`. -/
def Loops (input : Array Char) (scope : Scope) (p : Parser t) (values : List t.Elem) (i : Nat)
    (outcome : Outcome (List t.Elem)) (j : Nat) : Prop :=
  ∀ held s, Stands input i s → ∃ after,
    (p.meaning { scope with held }).repeated values s = .done (outcome, after) ∧
      Stands input j after

namespace Loops

variable {p : Parser t} {values : List t.Elem} {outcome : Outcome (List t.Elem)} {v : t.Elem}

theorem again (hp : p.Runs input scope i (.success v) k) (hik : i < k)
    (h : p.Loops input scope (v :: values) k outcome j) :
    p.Loops input scope values i outcome j := by
  intro held s hs
  obtain ⟨middle, hdone, hmiddle⟩ := hp held s hs
  obtain ⟨after, hrest, hafter⟩ := h held middle hmiddle
  have hmoved : middle.position ≠ s.position := by
    rw [hmiddle.position_eq, hs.position_eq]
    exact Nat.ne_of_gt hik
  exact ⟨after, (Action.repeated_again hdone hmoved values).trans hrest, hafter⟩

theorem stop (hp : p.Refuses input scope i) :
    p.Loops input scope values i (.success values.reverse) i := by
  obtain ⟨expected, hp⟩ := hp
  intro held s hs
  obtain ⟨after, hdone, hafter⟩ := hp held s hs
  have hback : after.jumpTo s.position = .ok after := by
    rw [hs.position_eq, ← hafter.position_eq]
    exact State.jumpTo_self hafter.position_within
  exact ⟨after, Action.repeated_stop hdone hback values, hafter⟩

theorem broken {expected : Expectation} (hp : p.Runs input scope i (.failure ⟨expected, true⟩) j) :
    p.Loops input scope values i (.failure ⟨expected, true⟩) j := by
  intro held s hs
  obtain ⟨after, hdone, hafter⟩ := hp held s hs
  exact ⟨after, Action.repeated_broken hdone values, hafter⟩

theorem many (h : p.Loops input scope [] i outcome j) :
    (Parser.many p).Runs input scope i outcome j := by
  intro held s hs
  obtain ⟨after, hdone, hafter⟩ := h (({ scope with held } : Scope).holding p.owned).held s hs
  refine ⟨after, ?_, hafter⟩
  rw [meaning_many]
  exact hdone

theorem many1 (hp : p.Runs input scope i (.success v) k) (hik : i < k)
    (h : p.Loops input scope [v] k outcome j) : (Parser.many1 p).Runs input scope i outcome j := by
  intro held s hs
  obtain ⟨middle, hdone, hmiddle⟩ := hp.holding p.owned held hs
  obtain ⟨after, hrest, hafter⟩ :=
    h (({ scope with held } : Scope).holding p.owned).held middle hmiddle
  have hmoved : middle.position ≠ s.position := by
    rw [hmiddle.position_eq, hs.position_eq]
    exact Nat.ne_of_gt hik
  rw [meaning_many1]
  exact ⟨after, (Action.repeatFrom1_again _ hdone hmoved).trans hrest, hafter⟩

end Loops

theorem Refuses.many1 {p : Parser t} (h : p.Refuses input scope i) :
    (Parser.many1 p).Refuses input scope i := by
  obtain ⟨expected, h⟩ := h
  refine ⟨expected, fun held s hs => ?_⟩
  obtain ⟨after, hdone, hafter⟩ := h.holding p.owned held hs
  rw [meaning_many1]
  exact ⟨after, Action.repeatFrom1_failure _ hdone, hafter⟩

/-- A sequence that began at a place and has collected some values goes on with the items that
are left, and comes to an outcome. -/
def Collects {n : Nat} (input : Array Char) (scope : Scope) (items : Fin n → Parser (.option t))
    (start : Nat) (left : List (Fin n)) (values : List t.Elem) (i : Nat)
    (outcome : Outcome (List t.Elem)) (j : Nat) : Prop :=
  ∀ held s, Stands input i s → ∃ after,
    Action.sequence (fun k => (items k).meaning { scope with held }) start left values s =
      .done (outcome, after) ∧ Stands input j after

namespace Collects

variable {n start : Nat} {items : Fin n → Parser (.option t)} {left : List (Fin n)} {item : Fin n}
  {values : List t.Elem} {outcome : Outcome (List t.Elem)} {v : Option t.Elem} {cause : Failure}

theorem nil : Collects input scope items start [] values i (.success values.reverse) i :=
  fun _ s hs => ⟨s, rfl, hs⟩

theorem cons (hitem : (items item).Runs input scope i (.success v) k)
    (h : Collects input scope items start left (collect values v) k outcome j) :
    Collects input scope items start (item :: left) values i outcome j := by
  intro held s hs
  obtain ⟨middle, hdone, hmiddle⟩ := hitem held s hs
  obtain ⟨after, hrest, hafter⟩ := h held middle hmiddle
  refine ⟨after, ?_, hafter⟩
  simp only [Action.sequence, hdone, Result.done_bind]
  exact hrest

theorem failed (hitem : (items item).Runs input scope i (.failure cause) j) :
    Collects input scope items start (item :: left) values i
      (.failure { cause with consumed := cause.consumed || j != start }) j := by
  intro held s hs
  obtain ⟨after, hdone, hafter⟩ := hitem held s hs
  refine ⟨after, ?_, hafter⟩
  simp only [Action.sequence, hdone, Result.done_bind, State.settle, hafter.position_eq]
  rfl

theorem sequence (h : Collects input scope items i (List.finRange n) [] i outcome j) :
    (Parser.sequence items).Runs input scope i outcome j := by
  intro held s hs
  obtain ⟨after, hdone, hafter⟩ :=
    h (({ scope with held } : Scope).holding (ownedItems items)).held s hs
  refine ⟨after, ?_, hafter⟩
  rw [meaning_sequence, hs.position_eq]
  exact hdone

end Collects

/-- The parser comes to an end. -/
def Settles (input : Array Char) (scope : Scope) (p : Parser t) (i : Nat) : Prop :=
  p.Fails input scope i ∨ ∃ v j, i ≤ j ∧ p.Runs input scope i (.success v) j

/-- The parser comes to an end, and it does not refuse. -/
def Commits (input : Array Char) (scope : Scope) (p : Parser t) (i : Nat) : Prop :=
  p.Breaks input scope i ∨ ∃ v j, i ≤ j ∧ p.Runs input scope i (.success v) j

/-- The parser comes to an end and does not refuse, and it succeeds again without moving where it
has ended with a success. -/
def Exhausts (input : Array Char) (scope : Scope) (p : Parser t) (i : Nat) : Prop :=
  p.Breaks input scope i ∨ ∃ v w j, i ≤ j ∧ p.Runs input scope i (.success v) j ∧
    p.Runs input scope j (.success w) j

/-- The parser comes to an end, and it moves when it succeeds. -/
def Proceeds (input : Array Char) (scope : Scope) (p : Parser t) (i : Nat) : Prop :=
  p.Fails input scope i ∨ ∃ v j, i < j ∧ p.Runs input scope i (.success v) j

namespace Settles

variable {p : Parser a} {q : Parser b}

theorem map (f : a.Elem → b.Elem) (h : p.Settles input scope i) :
    (p.map f).Settles input scope i := by
  rcases h with h | ⟨v, j, hij, h⟩
  · exact .inl (h.map f)
  · exact .inr ⟨f v, j, hij, h.map f⟩

theorem andThen (hp : p.Settles input scope i) (hi : i ≤ input.size)
    (hq : ∀ j, i ≤ j → j ≤ input.size → q.Settles input scope j) :
    (p.andThen q).Settles input scope i := by
  rcases hp with hp | ⟨v, j, hij, hp⟩
  · exact .inl (hp.bind _ _)
  rcases hq j hij (hp.le_size hi) with hq | ⟨w, k, hjk, hq⟩
  · exact .inl (hp.bind_fails_of_le _ _ hij hq)
  · exact .inr ⟨w, k, Nat.le_trans hij hjk, hp.andThen hq⟩

end Settles

theorem Commits.settles {p : Parser a} (h : p.Commits input scope i) : p.Settles input scope i :=
  h.imp .inr id

namespace Exhausts

variable {p : Parser a}

theorem commits (h : p.Exhausts input scope i) : p.Commits input scope i :=
  h.imp_right fun ⟨v, _, j, hij, hruns, _⟩ => ⟨v, j, hij, hruns⟩

theorem memo (label : Label) (h : p.Exhausts input scope i) :
    (Parser.memo label p).Exhausts input scope i := by
  rcases h with h | ⟨v, w, j, hij, h, hstill⟩
  · exact .inl (h.memo label)
  · exact .inr ⟨v, w, j, hij, h.memo label, hstill.memo label⟩

theorem map (f : a.Elem → b.Elem) (h : p.Exhausts input scope i) :
    (p.map f).Exhausts input scope i := by
  rcases h with h | ⟨v, w, j, hij, h, hstill⟩
  · exact .inl (h.map f)
  · exact .inr ⟨f v, f w, j, hij, h.map f, hstill.map f⟩

end Exhausts

namespace Proceeds

theorem rule {name : Label} {body : Parser t} (hname : name.level = 0)
    (h : body.Proceeds input (scope.define name body) i) :
    (Parser.rule name : Parser t).Proceeds input (scope.define name body) i := by
  rcases h with (⟨expected, h⟩ | ⟨expected, j, h⟩) | ⟨v, j, hij, h⟩
  · exact .inl (.inl ⟨expected, h.rule hname⟩)
  · exact .inl (.inr ⟨expected, j, h.rule hname⟩)
  · exact .inr ⟨v, j, hij, h.rule hname⟩

theorem recursive {name : Label} {body : Parser t}
    (h : body.Proceeds input (scope.define name body) i) :
    (Parser.recursive name body).Proceeds input scope i := by
  rcases h with (⟨expected, h⟩ | ⟨expected, j, h⟩) | ⟨v, j, hij, h⟩
  · exact .inl (.inl ⟨expected, h.recursive⟩)
  · exact .inl (.inr ⟨expected, j, h.recursive⟩)
  · exact .inr ⟨v, j, hij, h.recursive⟩

theorem andThen {p : Parser a} {q : Parser b} (hp : p.Proceeds input scope i) (hi : i ≤ input.size)
    (hq : ∀ j, i < j → j ≤ input.size → q.Settles input scope j) :
    (p.andThen q).Proceeds input scope i := by
  rcases hp with hp | ⟨v, j, hij, hp⟩
  · exact .inl (hp.bind _ _)
  rcases hq j hij (hp.le_size hi) with hq | ⟨w, k, hjk, hq⟩
  · exact .inl (.inr (hp.andThen_fails hij hq))
  · exact .inr ⟨w, k, Nat.lt_of_lt_of_le hij hjk, hp.andThen hq⟩

theorem choice {p q : Parser t} (hp : p.Proceeds input scope i) (hq : q.Proceeds input scope i) :
    (Parser.choice p q).Proceeds input scope i := by
  rcases hp with (hp | hp) | ⟨v, j, hij, hp⟩
  · rcases hq with (hq | hq) | ⟨v, j, hij, hq⟩
    · exact .inl (.inl (hp.choice hq))
    · exact .inl (.inr (hp.choice_breaks hq))
    · exact .inr ⟨v, j, hij, hp.choice_success hq⟩
  · exact .inl (.inr hp.choice)
  · exact .inr ⟨v, j, hij, hp.choice_success⟩

theorem choiceAll {items : List (Parser t)} (h : ∀ p ∈ items, p.Proceeds input scope i) :
    (choiceAll items).Proceeds input scope i := by
  induction items with
  | nil => exact .inl (.inl .zero)
  | cons p rest ih =>
    obtain ⟨hp, hrest⟩ := List.forall_mem_cons.1 h
    cases rest with
    | nil => exact hp
    | cons q rest => exact hp.choice (ih hrest)

/-- A repetition ends when each occurrence moves, because the text ends. Where it succeeds
there is no further occurrence. -/
theorem loops {p : Parser t} (h : ∀ k, i ≤ k → k ≤ input.size → p.Proceeds input scope k)
    (hi : i ≤ input.size) (values : List t.Elem) :
    (∃ all j, i ≤ j ∧ p.Refuses input scope j ∧
      p.Loops input scope values i (.success all) j) ∨
      ∃ expected j, p.Loops input scope values i (.failure ⟨expected, true⟩) j := by
  induction hleft : input.size - i using Nat.strongRecOn generalizing i values with
  | ind left ih =>
    rcases h i (Nat.le_refl i) hi with (hp | ⟨expected, j, hp⟩) | ⟨v, k, hik, hp⟩
    · exact .inl ⟨_, i, Nat.le_refl i, hp, .stop hp⟩
    · exact .inr ⟨expected, j, .broken hp⟩
    · have hk := hp.le_size hi
      have hlater : ∀ m, k ≤ m → m ≤ input.size → p.Proceeds input scope m :=
        fun m hm => h m (by omega)
      rcases ih (input.size - k) (by omega) hlater hk (v :: values) rfl with
        ⟨all, j, hkj, hlast, hrest⟩ | ⟨expected, j, hrest⟩
      · exact .inl ⟨all, j, by omega, hlast, hrest.again hp hik⟩
      · exact .inr ⟨expected, j, hrest.again hp hik⟩

theorem many {p : Parser t} (h : ∀ k, i ≤ k → k ≤ input.size → p.Proceeds input scope k)
    (hi : i ≤ input.size) : (Parser.many p).Exhausts input scope i := by
  rcases loops h hi [] with ⟨all, j, hij, hlast, hloops⟩ | ⟨expected, j, hloops⟩
  · have hstill : p.Loops input scope [] j (.success []) j := .stop hlast
    exact .inr ⟨all, [], j, hij, hloops.many, hstill.many⟩
  · exact .inl ⟨expected, j, hloops.many⟩

end Proceeds

/-- Runs from one place show the same. -/
theorem ShowsFrom.unique {p : Parser t} {memoize : Bool}
    {seen seen' : Except Fault (Outcome t.Elem × Nat)} (h : p.ShowsFrom input memoize i seen)
    (h' : p.ShowsFrom input memoize i seen') : seen = seen' := by
  rw [Parser.showsFrom_iff] at h h'
  have hsame := h.symm.trans h'
  revert hsame
  cases seen <;> cases seen' <;> simp

/-- What a whole run shows is what the parser does when nothing is remembered. -/
theorem WellLabelled.showsFrom_iff {p : Parser t} {outcome : Outcome t.Elem}
    (hlabelled : p.WellLabelled) (hp : p.Runs input Scope.root i outcome j) (hi : i ≤ input.size)
    (memoize : Bool) {seen : Except Fault (Outcome t.Elem × Nat)} :
    p.ShowsFrom input memoize i seen ↔ seen = .ok (outcome, j) := by
  obtain ⟨after, hdone, hafter⟩ := hp Scope.root.held _ (stands_startAt hi)
  have hplain : p.meaning Scope.root (.startAt input false i) = .done (outcome, after) := hdone
  have hshown : (Result.done (outcome, after)).seen = .done (outcome, j) := by
    rw [← hafter.position_eq]
    rfl
  rw [Parser.showsFrom_iff, hlabelled.seen_eq_plain (by rw [hplain]; simp) memoize, hplain, hshown]
  cases seen with
  | ok shown => simp [eq_comm]
  | error cause => simp

theorem WellLabelled.not_showsFrom_success {p : Parser t} (hlabelled : p.WellLabelled)
    (hp : p.Fails input Scope.root i) (hi : i ≤ input.size) (memoize : Bool) (v : t.Elem) :
    ¬ p.ShowsFrom input memoize i (.ok (.success v, j)) := by
  obtain ⟨cause, k, hp⟩ := hp.exists_runs
  simp [hlabelled.showsFrom_iff hp hi]

end Parser

end ParserKit
