import Mathlib.Order.Defs.PartialOrder
import ParserKit.Proofs.Motion

/-!
Two runs side by side. A comparison says which states of the two runs belong
together, relative to what is known so far, and which faults of either run excuse
every difference. A first run that has used up its fuel is below everything.

Each kind of parser keeps a comparison: when the parts of two actions compare,
so do the actions. The parsers that depend on more than the place where they run,
those that remember, refer to rules or begin a generation, are not treated here.
-/

namespace ParserKit

/-- What belongs together in two runs. The type `ω` holds what is known about
the runs, which only grows. -/
structure Comparison (ω : Type) [Preorder ω] where
  states : ω → State → State → Prop
  /-- The faults of the first run that excuse a difference. -/
  firstExcuse : Fault → Prop
  /-- The faults of the second run that excuse a difference. -/
  secondExcuse : Fault → Prop
  beside : ∀ {w s s'}, states w s s' → s.Beside s'
  movedTo : ∀ {w s s'}, states w s s' → ∀ q, states w (s.movedTo q) (s'.movedTo q)
  tick : ∀ {w s s'}, states w s s' → ∀ counter, states w (s.tick counter) (s'.tick counter)

namespace Comparison

variable {ω : Type} [Preorder ω] (c : Comparison ω) {α β : Type}

inductive Results (w : ω) : Result (α × State) → Result (α × State) → Prop where
  | timeout (y : Result (α × State)) : Results w .timeout y
  | firstExcused {cause : Fault} (h : c.firstExcuse cause) (y : Result (α × State)) :
      Results w (.fault cause) y
  | secondExcused {cause : Fault} (h : c.secondExcuse cause) (x : Result (α × State)) :
      Results w x (.fault cause)
  | fault (cause : Fault) : Results w (.fault cause) (.fault cause)
  | done {w' : ω} (hw : w ≤ w') (a : α) {s s' : State} (hs : c.states w' s s') :
      Results w (.done (a, s)) (.done (a, s'))

/-- Two actions that compare from now on. -/
def Actions (w : ω) (x y : Action α) : Prop :=
  ∀ w', w ≤ w' → ∀ s s', c.states w' s s' → c.Results w' (x s) (y s')

variable {c} {w w' : ω}

namespace Results

theorem earlier {x y : Result (α × State)} (hw : w ≤ w') (h : c.Results w' x y) :
    c.Results w x y := by
  cases h with
  | timeout => exact .timeout y
  | firstExcused h => exact .firstExcused h y
  | secondExcused h => exact .secondExcused h x
  | fault cause => exact .fault cause
  | done hw' a hs => exact .done (le_trans hw hw') a hs

theorem bind_of_eq {x y : Result (α × State)} {f g : α × State → Result (β × State)}
    (h : c.Results w x y)
    (hf : ∀ w', w ≤ w' → ∀ a s s', x = .done (a, s) → y = .done (a, s') → c.states w' s s' →
      c.Results w' (f (a, s)) (g (a, s'))) :
    c.Results w (x >>= f) (y >>= g) := by
  cases h with
  | timeout => exact .timeout _
  | firstExcused h => exact .firstExcused h _
  | secondExcused h => exact .secondExcused h _
  | fault cause => exact .fault cause
  | done hw a hs => exact (hf _ hw a _ _ rfl rfl hs).earlier hw

theorem bind {x y : Result (α × State)} {f g : α × State → Result (β × State)}
    (h : c.Results w x y)
    (hf : ∀ w', w ≤ w' → ∀ a s s', c.states w' s s' → c.Results w' (f (a, s)) (g (a, s'))) :
    c.Results w (x >>= f) (y >>= g) :=
  h.bind_of_eq fun w' hw a s s' _ _ hs => hf w' hw a s s' hs

theorem ofSameMove {x y : Except Fault (α × State)} {s s' : State} (hs : c.states w s s')
    (h : SameMove s s' x y) : c.Results w (.ofExcept x) (.ofExcept y) := by
  cases h with
  | fault cause => exact .fault cause
  | move a q => exact .done (le_refl w) a (c.movedTo hs q)

end Results

namespace Actions

theorem atom {t : Ty} (a : Atom t) : c.Actions w (Action.atom a) (Action.atom a) := by
  intro w' hw s s' hs
  have hread := Results.ofSameMove hs (State.read_sameMove (c.beside hs) a)
  refine hread.bind ?_
  intro w'' _ outcome s s' hs
  cases outcome with
  | some outcome => exact .done (le_refl w'') outcome hs
  | none => exact .fault .noOutcome

theorem wrapped {a b : Ty} (wrapper : Wrapper a b) {x y : Action a.Elem}
    (h : c.Actions w x y) : c.Actions w (x.wrapped wrapper) (y.wrapped wrapper) := by
  intro w' hw s s' hs
  refine (h w' hw s s' hs).bind ?_
  intro w'' _ outcome after after' hafter
  simp only [(c.beside hs).position_eq]
  exact .ofSameMove hafter (State.finish_sameMove (c.beside hafter) wrapper s'.position outcome)

theorem chain {x y : Action α} {f g : α → Action β} (h : c.Actions w x y)
    (hf : ∀ value, c.Actions w (f value) (g value)) :
    c.Actions w (x.chain f) (y.chain g) := by
  intro w' hw s s' hs
  refine (h w' hw s s' hs).bind ?_
  intro w'' hw' outcome middle middle' hmiddle
  cases outcome with
  | failure cause => exact .done (le_refl w'') _ hmiddle
  | success value =>
    refine (hf value w'' (le_trans hw hw') middle middle' hmiddle).bind ?_
    intro w''' _ outcome after after' hafter
    simp only [(c.beside hs).position_eq, State.settle_eq (c.beside hafter)]
    exact .done (le_refl w''') _ hafter

theorem sequence {n : Nat} {x y : Fin n → Action (Option α)} (h : ∀ i, c.Actions w (x i) (y i))
    (start : Nat) (items : List (Fin n)) (values : List α) :
    c.Actions w (Action.sequence x start items values) (Action.sequence y start items values) := by
  induction items generalizing values with
  | nil =>
    intro w' _ s s' hs
    exact .done (le_refl w') _ hs
  | cons i rest ih =>
    intro w' hw s s' hs
    refine (h i w' hw s s' hs).bind ?_
    intro w'' hw' outcome after after' hafter
    cases outcome with
    | success value => exact ih (collect values value) w'' (le_trans hw hw') after after' hafter
    | failure cause =>
      simp only [State.settle_eq (c.beside hafter)]
      exact .done (le_refl w'') _ hafter

theorem jumpTo {s s' : State} (hs : c.states w s s') (q : Nat)
    {f g : State → Result (β × State)}
    (h : c.Results w (f (s.movedTo q)) (g (s'.movedTo q))) :
    c.Results w (.ofExcept (s.jumpTo q) >>= f) (.ofExcept (s'.jumpTo q) >>= g) := by
  simp only [State.jumpTo_eq, (c.beside hs).input_eq]
  by_cases hq : q ≤ s'.cursor.input.size
  · simpa only [hq, if_true, Result.ofExcept_ok, Result.done_bind] using h
  · simp only [hq, if_false]
    exact .fault _

theorem choice {x y x' y' : Action α} (h : c.Actions w x y) (h' : c.Actions w x' y') :
    c.Actions w (x.choice x') (y.choice y') := by
  intro w' hw s s' hs
  refine (h w' hw s s' hs).bind ?_
  intro w'' hw' outcome after after' hafter
  cases outcome with
  | success value => exact .done (le_refl w'') _ hafter
  | failure cause =>
    by_cases hc : cause.consumed = true
    · simp only [hc, if_true]
      exact .done (le_refl w'') _ hafter
    · simp only [hc, (c.beside hs).position_eq]
      refine jumpTo hafter s'.position ?_
      have hback := c.movedTo hafter s'.position
      refine (h' w'' (le_trans hw hw') _ _ hback).bind ?_
      intro w''' _ outcome after after' hafter
      exact .done (le_refl w''') (outcome.join cause.expected) hafter

theorem repeatFrom {x y : Action α} (h : c.Actions w x y) {fuel fuel' : Nat}
    (hfuel : fuel ≤ fuel') (values : List α) :
    c.Actions w (x.repeatFrom fuel values) (y.repeatFrom fuel' values) := by
  induction fuel generalizing fuel' values with
  | zero =>
    intro w' _ s s' _
    exact .timeout _
  | succ fuel ih =>
    obtain ⟨more, rfl⟩ : ∃ more, fuel' = more + 1 := ⟨fuel' - 1, by omega⟩
    intro w' hw s s' hs
    refine (h w' hw s s' hs).bind ?_
    intro w'' hw' outcome after after' hafter
    simp only [(c.beside hs).position_eq]
    have hnext := Turn.next_sameMove (c.beside hafter) s'.position values outcome
    refine (Results.ofSameMove hafter hnext).bind ?_
    intro w''' hw'' turn after after' hafter
    cases turn with
    | again values =>
      have hlater : w ≤ w''' := le_trans hw (le_trans hw' hw'')
      exact ih (by omega) values w''' hlater after after' hafter
    | stop outcome => exact .done (le_refl w''') outcome hafter

theorem repeatFrom1 {x y : Action α} {f g : List α → Action (List α)} (h : c.Actions w x y)
    (hf : ∀ values, c.Actions w (f values) (g values)) :
    c.Actions w (x.repeatFrom1 f) (y.repeatFrom1 g) := by
  intro w' hw s s' hs
  refine (h w' hw s s' hs).bind ?_
  intro w'' hw' outcome after after' hafter
  have hfirst := Turn.first_eq (c.beside hs) (c.beside hafter) outcome
  simp only [hfirst]
  cases Turn.first s'.position outcome after' with
  | again values => exact hf values w'' (le_trans hw hw') after after' hafter
  | stop outcome => exact .done (le_refl w'') outcome hafter

theorem tick {x y : Action α} (h : c.Actions w x y) (counter : Nat) :
    c.Actions w (fun s => x (s.tick counter)) (fun s => y (s.tick counter)) := by
  intro w' hw s s' hs
  exact h w' hw _ _ (c.tick hs counter)

end Actions

end Comparison

end ParserKit
