import ParserKit.Proofs.Comparison

/-!
What a run comes to, together with the state in which it breaks off. The direct meaning
of a parser says only which fault breaks it off; a course also tells where that is: in
the part that breaks off, or between the parts. Two courses that compare break off in
states that belong together.
-/

namespace ParserKit

/-- Where a computation breaks off that goes on from a result: in the part with this
result, or in what comes after it. -/
def Result.brokenAt {α : Type} (result : Result α) (part : State) (rest : α → State) : State :=
  match result with
  | .done value => rest value
  | .fault _ => part
  | .timeout => part

/-- An action with the state in which it breaks off, if it does. -/
structure Course (α : Type) where
  run : Action α
  broken : State → State

namespace Course

variable {α β : Type}

/-- The state in which a run ends, whichever way it does. -/
def final (course : Course α) (s : State) : State :=
  (course.run s).brokenAt (course.broken s) fun (_, after) => after

/-- Without an outcome, a reader breaks off where it has come to. -/
def atom {t : Ty} (atom : Atom t) : Course t.Elem where
  run := .atom atom
  broken s := (Result.ofExcept (s.read atom)).brokenAt s fun (_, after) => after

def wrapped {a b : Ty} (wrapper : Wrapper a b) (part : Course a.Elem) : Course b.Elem where
  run := part.run.wrapped wrapper
  broken s := (part.run s).brokenAt (part.broken s) fun (_, after) => after

def chain (first : Course α) (next : α → Course β) : Course β where
  run := first.run.chain fun value => (next value).run
  broken s := (first.run s).brokenAt (first.broken s) fun
    | (.success value, middle) => (next value).broken middle
    | (.failure _, after) => after

def itemsBroken {n : Nat} (item : Fin n → Course (Option α)) : List (Fin n) → State → State
  | [], s => s
  | i :: rest, s => ((item i).run s).brokenAt ((item i).broken s) fun
    | (.success _, after) => itemsBroken item rest after
    | (.failure _, after) => after

def sequence {n : Nat} (item : Fin n → Course (Option α)) : Course (List α) where
  run s := Action.sequence (fun i => (item i).run) s.position (List.finRange n) [] s
  broken := itemsBroken item (List.finRange n)

def choice (first second : Course α) : Course α where
  run := first.run.choice second.run
  broken s := (first.run s).brokenAt (first.broken s) fun (_, after) =>
    (Result.ofExcept (after.jumpTo s.position)).brokenAt after second.broken

/-- A hit does not break off. -/
def remembered {t : Ty} (key : Key) (part : Course t.Elem) : Course t.Elem where
  run := part.run.remembered key
  broken s := part.broken (s.lookup key t).2

def turnsBroken (occurrence : Course α) : (fuel : Nat) → (values : List α) → State → State
  | 0, _, s => s
  | fuel + 1, values, s => (occurrence.run s).brokenAt (occurrence.broken s) fun (outcome, after) =>
    (Result.ofExcept (Turn.next s.position values outcome after)).brokenAt after fun
      | (.again values, after) => turnsBroken occurrence fuel values after
      | (.stop _, after) => after

def many (occurrence : Course α) (fuel : Nat) : Course (List α) where
  run := occurrence.run.repeatFrom fuel []
  broken := turnsBroken occurrence fuel []

def many1 (occurrence : Course α) (fuel : Nat) : Course (List α) where
  run := occurrence.run.repeatFrom1 (occurrence.run.repeatFrom fuel)
  broken s := (occurrence.run s).brokenAt (occurrence.broken s) fun (outcome, after) =>
    match Turn.first s.position outcome after with
    | .again values => turnsBroken occurrence fuel values after
    | .stop _ => after

def renewed (part : Nat → Course α) : Course α where
  run := .renewed fun generation => (part generation).run
  broken s := (part s.renew.1).broken s.renew.2

def tick (counter : Nat) (part : Course α) : Course α where
  run s := part.run (s.tick counter)
  broken s := part.broken (s.tick counter)

end Course

namespace Parser

/-- The course of the evaluation of a parser. -/
def course : (fuel : Nat) → {t : Ty} → Scope → Parser t → Course t.Elem
  | 0, _, _, _ => { run := fun _ => .timeout, broken := id }
  | fuel + 1, t, scope, p =>
    match p with
    | .atom a => .atom a
    | .wrap wrapper p => (course fuel scope p).wrapped wrapper
    | .bind p captures next =>
      (course fuel (scope.holding captures) p).chain fun value => course fuel scope (next value)
    | .sequence items =>
      .sequence fun i => course fuel (scope.holding (ownedItems items)) (items i)
    | .choice first second =>
      (course fuel (scope.holding second.owned) first).choice (course fuel scope second)
    | .memo label p => (course fuel scope p).remembered (scope.key label)
    | .many p => (course fuel (scope.holding p.owned) p).many fuel
    | .many1 p => (course fuel (scope.holding p.owned) p).many1 fuel
    | .recursive name body => course fuel (scope.define name body) body
    | .rule name =>
      match scope.resolve name t with
      | some (body, scope) => course fuel scope body
      | none => { run := fun _ => .fault .ruleDropped, broken := id }
    | .fresh level _ body =>
      .renewed fun generation => course fuel (scope.renew level generation) (body ())
    | .tick counter p => (course fuel scope p).tick counter

/-- A course runs as the parser is evaluated. -/
theorem run_course (fuel : Nat) {t : Ty} (scope : Scope) (p : Parser t) :
    (p.course fuel scope).run = p.eval fuel scope := by
  induction fuel generalizing t scope with
  | zero => rfl
  | succ fuel ih =>
    cases p with
    | atom a => rfl
    | wrap wrapper p => simp only [course, eval, Course.wrapped, ih]
    | bind p captures next => simp only [course, eval, Course.chain, ih]
    | sequence items => simp only [course, eval, Course.sequence, ih]
    | choice first second => simp only [course, eval, Course.choice, ih]
    | memo label p => simp only [course, eval, Course.remembered, ih]
    | many p => simp only [course, eval, Course.many, ih]
    | many1 p => simp only [course, eval, Course.many1, ih]
    | recursive name body => exact ih (scope.define name body) body
    | rule name =>
      simp only [course, eval]
      cases scope.resolve name t with
      | none => rfl
      | some found => exact ih found.2 found.1
    | fresh level captures body => simp only [course, eval, Course.renewed, ih]
    | tick counter p => simp only [course, eval, Course.tick, ih]

end Parser

namespace Comparison

variable {ω : Type} [Preorder ω] (c : Comparison ω) {α β : Type}

/-- Two computations that break off by a fault that excuses nothing do so in states that
belong together. -/
def Breaks (x : Result (α × State)) (broken : State) (y : Result (α × State)) (broken' : State) :
    Prop :=
  ∀ cause, x = .fault cause → y = .fault cause → ¬ c.firstExcuse cause → ¬ c.secondExcuse cause →
    ∃ w, c.states w broken broken'

/-- Two courses that compare from now on. -/
structure Courses (w : ω) (x y : Course α) : Prop where
  actions : c.Actions w x.run y.run
  breaks : ∀ w', w ≤ w' → ∀ s s', c.states w' s s' →
    c.Breaks (x.run s) (x.broken s) (y.run s') (y.broken s')

variable {c} {w w' : ω}

namespace Breaks

theorem done (a a' : α) {s s' broken broken' : State} :
    c.Breaks (.done (a, s)) broken (.done (a', s')) broken' :=
  fun _ h => absurd h (by simp)

theorem fault {s s' : State} (hs : c.states w s s') (cause cause' : Fault) :
    c.Breaks (α := α) (.fault cause) s (.fault cause') s' :=
  fun _ _ _ _ _ => ⟨w, hs⟩

/-- A computation breaks off in its first part, or in the rest after it. -/
theorem bind {x y : Result (α × State)} {f g : α × State → Result (β × State)}
    {broken broken' : State} {rest rest' : α × State → State} (hresults : c.Results w x y)
    (h : c.Breaks x broken y broken')
    (hf : ∀ w', w ≤ w' → ∀ a s s', c.states w' s s' →
      c.Breaks (f (a, s)) (rest (a, s)) (g (a, s')) (rest' (a, s'))) :
    c.Breaks (x >>= f) (x.brokenAt broken rest) (y >>= g) (y.brokenAt broken' rest') := by
  intro cause hx hy hfirst hsecond
  cases hresults with
  | timeout => exact absurd hx (by simp)
  | firstExcused hexcuse =>
    obtain rfl := Result.fault.inj hx
    exact absurd hexcuse hfirst
  | secondExcused hexcuse =>
    obtain rfl := Result.fault.inj hy
    exact absurd hexcuse hsecond
  | fault cause' =>
    obtain rfl := Result.fault.inj hx
    exact h cause' rfl rfl hfirst hsecond
  | done hw a hs => exact hf _ hw a _ _ hs cause hx hy hfirst hsecond

/-- What only treats the end of a last part does not break off. -/
theorem last {x y : Result (α × State)} {f g : α × State → Result (β × State)}
    {broken broken' : State} (h : c.Breaks x broken y broken')
    (hf : ∀ a s, ∃ result, f (a, s) = .done result)
    (hg : ∀ a s, ∃ result, g (a, s) = .done result) :
    c.Breaks (x >>= f) broken (y >>= g) broken' := by
  have hpart : ∀ {x : Result (α × State)} {f : α × State → Result (β × State)} {cause : Fault},
      (∀ a s, ∃ result, f (a, s) = .done result) → (x >>= f) = .fault cause →
      x = .fault cause := by
    intro x f cause hf hx
    cases x with
    | fault cause' => exact congrArg _ (Result.fault.inj hx)
    | timeout => exact absurd hx (by simp)
    | done result =>
      obtain ⟨result', hresult⟩ := hf result.1 result.2
      exact absurd (hresult.symm.trans hx) (by simp)
  intro cause hx hy hfirst hsecond
  exact h cause (hpart hf hx) (hpart hg hy) hfirst hsecond

/-- A step between the parts breaks off where the states stand. -/
theorem ofSameMove {x y : Except Fault (α × State)} {s s' : State} (hs : c.states w s s')
    (hsame : SameMove s s' x y) {f g : α × State → Result (β × State)}
    {rest rest' : α × State → State}
    (hf : ∀ a q, c.Breaks (f (a, s.movedTo q)) (rest (a, s.movedTo q))
      (g (a, s'.movedTo q)) (rest' (a, s'.movedTo q))) :
    c.Breaks (.ofExcept x >>= f) ((Result.ofExcept x).brokenAt s rest)
      (.ofExcept y >>= g) ((Result.ofExcept y).brokenAt s' rest') := by
  cases hsame with
  | fault cause => exact .fault hs cause cause
  | move a q => exact hf a q

theorem jumpTo {s s' : State} (hs : c.states w s s') (q : Nat) {f g : State → Result (β × State)}
    {rest rest' : State → State}
    (h : c.Breaks (f (s.movedTo q)) (rest (s.movedTo q)) (g (s'.movedTo q))
      (rest' (s'.movedTo q))) :
    c.Breaks (.ofExcept (s.jumpTo q) >>= f) ((Result.ofExcept (s.jumpTo q)).brokenAt s rest)
      (.ofExcept (s'.jumpTo q) >>= g) ((Result.ofExcept (s'.jumpTo q)).brokenAt s' rest') := by
  simp only [State.jumpTo_eq, (c.beside hs).input_eq]
  by_cases hq : q ≤ s'.cursor.input.size
  · simp only [hq, if_true]
    exact h
  · simp only [hq, if_false]
    exact .fault hs _ _

end Breaks

namespace Courses

theorem atom {t : Ty} (a : Atom t) : c.Courses w (.atom a) (.atom a) where
  actions := .atom a
  breaks := by
    intro w' _ s s' hs
    refine .ofSameMove hs (State.read_sameMove (c.beside hs) a) fun outcome q => ?_
    cases outcome with
    | some outcome => exact .done _ _
    | none => exact .fault (c.movedTo hs q) _ _

theorem wrapped {a b : Ty} (wrapper : Wrapper a b) {x y : Course a.Elem} (h : c.Courses w x y) :
    c.Courses w (x.wrapped wrapper) (y.wrapped wrapper) where
  actions := h.actions.wrapped wrapper
  breaks := by
    intro w' hw s s' hs
    refine .bind (h.actions w' hw s s' hs) (h.breaks w' hw s s' hs) ?_
    exact fun w'' _ _ _ _ hafter _ _ _ _ _ => ⟨w'', hafter⟩

theorem chain {x y : Course α} {f g : α → Course β} (h : c.Courses w x y)
    (hf : ∀ value, c.Courses w (f value) (g value)) :
    c.Courses w (x.chain f) (y.chain g) where
  actions := h.actions.chain fun value => (hf value).actions
  breaks := by
    intro w' hw s s' hs
    refine .bind (h.actions w' hw s s' hs) (h.breaks w' hw s s' hs) ?_
    intro w'' hw' outcome middle middle' hmiddle
    cases outcome with
    | failure cause => exact .done _ _
    | success value =>
      exact ((hf value).breaks w'' (le_trans hw hw') middle middle' hmiddle).last
        (fun _ _ => ⟨_, rfl⟩) fun _ _ => ⟨_, rfl⟩

theorem itemsBroken {n : Nat} {x y : Fin n → Course (Option α)} (h : ∀ i, c.Courses w (x i) (y i))
    (start : Nat) (items : List (Fin n)) (values : List α) {w' : ω} (hw : w ≤ w') {s s' : State}
    (hs : c.states w' s s') :
    c.Breaks (Action.sequence (fun i => (x i).run) start items values s)
      (Course.itemsBroken x items s) (Action.sequence (fun i => (y i).run) start items values s')
      (Course.itemsBroken y items s') := by
  induction items generalizing values w' s s' with
  | nil => exact .done _ _
  | cons i rest ih =>
    refine .bind ((h i).actions w' hw s s' hs) ((h i).breaks w' hw s s' hs) ?_
    intro w'' hw' outcome after after' hafter
    cases outcome with
    | success value => exact ih (collect values value) (le_trans hw hw') hafter
    | failure cause => exact .done _ _

theorem sequence {n : Nat} {x y : Fin n → Course (Option α)} (h : ∀ i, c.Courses w (x i) (y i)) :
    c.Courses w (.sequence x) (.sequence y) where
  actions := by
    intro w' hw s s' hs
    have hitems := Actions.sequence (fun i => (h i).actions) s.position (List.finRange n) []
    simp only [Course.sequence, ← (c.beside hs).position_eq]
    exact hitems w' hw s s' hs
  breaks := by
    intro w' hw s s' hs
    simp only [Course.sequence, ← (c.beside hs).position_eq]
    exact itemsBroken h s.position (List.finRange n) [] hw hs

theorem choice {x y x' y' : Course α} (h : c.Courses w x y) (h' : c.Courses w x' y') :
    c.Courses w (x.choice x') (y.choice y') where
  actions := h.actions.choice h'.actions
  breaks := by
    intro w' hw s s' hs
    refine .bind (h.actions w' hw s s' hs) (h.breaks w' hw s s' hs) ?_
    intro w'' hw' outcome after after' hafter
    cases outcome with
    | success value => exact .done _ _
    | failure cause =>
      by_cases hc : cause.consumed = true
      · simp only [hc, if_true]
        exact .done _ _
      · simp only [hc, (c.beside hs).position_eq]
        refine .jumpTo hafter s'.position ?_
        have hback := c.movedTo hafter s'.position
        exact (h'.breaks w'' (le_trans hw hw') _ _ hback).last
          (fun _ _ => ⟨_, rfl⟩) fun _ _ => ⟨_, rfl⟩

theorem turnsBroken {x y : Course α} (h : c.Courses w x y) (fuel : Nat) (values : List α) {w' : ω}
    (hw : w ≤ w') {s s' : State} (hs : c.states w' s s') :
    c.Breaks (x.run.repeatFrom fuel values s) (x.turnsBroken fuel values s)
      (y.run.repeatFrom fuel values s') (y.turnsBroken fuel values s') := by
  induction fuel generalizing values w' s s' with
  | zero => exact fun _ hx => absurd hx (by simp [Action.repeatFrom])
  | succ fuel ih =>
    refine .bind (h.actions w' hw s s' hs) (h.breaks w' hw s s' hs) ?_
    intro w'' hw' outcome after after' hafter
    have hnext := Turn.next_sameMove (c.beside hafter) s'.position values outcome
    simp only [(c.beside hs).position_eq]
    refine .ofSameMove hafter hnext fun turn q => ?_
    cases turn with
    | again values => exact ih values (le_trans hw hw') (c.movedTo hafter q)
    | stop outcome => exact .done _ _

theorem many {x y : Course α} (h : c.Courses w x y) (fuel : Nat) :
    c.Courses w (x.many fuel) (y.many fuel) where
  actions := h.actions.repeatFrom (Nat.le_refl fuel) []
  breaks _ hw _ _ hs := h.turnsBroken fuel [] hw hs

theorem many1 {x y : Course α} (h : c.Courses w x y) (fuel : Nat) :
    c.Courses w (x.many1 fuel) (y.many1 fuel) where
  actions := h.actions.repeatFrom1 fun values =>
    h.actions.repeatFrom (Nat.le_refl fuel) values
  breaks := by
    intro w' hw s s' hs
    refine .bind (h.actions w' hw s s' hs) (h.breaks w' hw s s' hs) ?_
    intro w'' hw' outcome after after' hafter
    have hfirst := Turn.first_eq (c.beside hs) (c.beside hafter) outcome
    simp only [hfirst]
    cases Turn.first s'.position outcome after' with
    | again values => exact h.turnsBroken fuel values (le_trans hw hw') hafter
    | stop outcome => exact .done _ _

theorem tick {x y : Course α} (h : c.Courses w x y) (counter : Nat) :
    c.Courses w (x.tick counter) (y.tick counter) where
  actions := h.actions.tick counter
  breaks w' hw _ _ hs := h.breaks w' hw _ _ (c.tick hs counter)

/-- Two runs that both end, and not by a fault that excuses a difference, end in states
that belong together. -/
theorem final {x y : Course α} (h : c.Courses w x y) {s s' : State} (hs : c.states w s s')
    (hends : x.run s ≠ .timeout) (hfirst : ∀ cause, x.run s = .fault cause → ¬ c.firstExcuse cause)
    (hsecond : ∀ cause, y.run s' = .fault cause → ¬ c.secondExcuse cause) :
    ∃ w', c.states w' (x.final s) (y.final s') := by
  have hbreaks := h.breaks w (le_refl w) s s' hs
  have hresults := h.actions w (le_refl w) s s' hs
  simp only [Course.final]
  generalize x.run s = first at *
  generalize y.run s' = second at *
  cases hresults with
  | timeout => exact absurd rfl hends
  | firstExcused hexcuse => exact absurd hexcuse (hfirst _ rfl)
  | secondExcused hexcuse => exact absurd hexcuse (hsecond _ rfl)
  | fault cause => exact hbreaks cause rfl rfl (hfirst cause rfl) (hsecond cause rfl)
  | done _ a hafter => exact ⟨_, hafter⟩

end Courses

end Comparison

end ParserKit
