import ParserKit.Proofs.Consumption

/-!
Relations between the two ends of a run, which its parts pass on to it. Two of them are
about what is counted: nothing is ever taken back, and where each memoized parser counts
its executions, there are as many of these as misses.
-/

namespace ParserKit

open Result

/-- What holds between the states at the ends of a run: of every motion, and of two runs
one after the other if it does of both. -/
structure Passage where
  holds : State → State → Prop
  refl : ∀ s, holds s s
  trans : ∀ {s s' s''}, holds s s' → holds s' s'' → holds s s''
  movedTo : ∀ s q, holds s (s.movedTo q)

theorem Passage.ofSameMove (passage : Passage) {α : Type} {found : Except Fault (α × State)}
    {s : State} (h : SameMove s s found found) :
    (Result.ofExcept found).Ensures fun result => passage.holds s result.2 := by
  intro result hresult
  obtain rfl := ofExcept_eq_done hresult
  cases h with
  | move a q => exact passage.movedTo s q

/-- Wherever an action begins, the passage holds to where it ends. -/
def Action.Passes (passage : Passage) {α : Type} (x : Action α) : Prop :=
  ∀ s, (x s).Ensures fun result => passage.holds s result.2

namespace Action.Passes

variable {passage : Passage} {α β : Type} {x y : Action α}

theorem timeout : Passes passage (fun _ => .timeout : Action α) :=
  fun _ _ h => absurd h (by simp)

theorem fault (cause : Fault) : Passes passage (fun _ => .fault cause : Action α) :=
  fun _ _ h => absurd h (by simp)

theorem atom {t : Ty} (a : Atom t) : Passes passage (Action.atom a) := by
  intro s
  refine (passage.ofSameMove (State.read_sameMove ⟨rfl, rfl⟩ a)).bind ?_
  rintro ⟨found, after⟩ hafter
  cases found with
  | some outcome => exact .done hafter
  | none => exact fun _ h => absurd h (by simp)

theorem wrapped {a b : Ty} (wrapper : Wrapper a b) {x : Action a.Elem} (h : x.Passes passage) :
    (x.wrapped wrapper).Passes passage := by
  intro s
  refine (h s).bind ?_
  rintro ⟨outcome, after⟩ hafter
  have hbeside : after.Beside after := ⟨rfl, rfl⟩
  have hfinish := passage.ofSameMove (State.finish_sameMove hbeside wrapper s.position outcome)
  exact fun result hresult => passage.trans hafter (hfinish result hresult)

theorem chain {f : α → Action β} (h : x.Passes passage) (hf : ∀ value, (f value).Passes passage) :
    (x.chain f).Passes passage := by
  intro s
  refine (h s).bind ?_
  rintro ⟨outcome, middle⟩ hmiddle
  cases outcome with
  | failure cause => exact .done hmiddle
  | success value =>
    refine (hf value middle).bind ?_
    rintro ⟨outcome, after⟩ hafter
    exact .done (passage.trans hmiddle hafter)

theorem sequence {n : Nat} {x : Fin n → Action (Option α)} (h : ∀ i, (x i).Passes passage)
    (start : Nat) (items : List (Fin n)) (values : List α) :
    (Action.sequence x start items values).Passes passage := by
  induction items generalizing values with
  | nil => exact fun s => .done (passage.refl s)
  | cons i rest ih =>
    intro s
    refine (h i s).bind ?_
    rintro ⟨outcome, after⟩ hafter
    cases outcome with
    | success value =>
      have hrest := ih (collect values value) after
      exact fun result hresult => passage.trans hafter (hrest result hresult)
    | failure cause => exact .done hafter

theorem choice (hx : x.Passes passage) (hy : y.Passes passage) : (x.choice y).Passes passage := by
  intro s
  refine (hx s).bind ?_
  rintro ⟨outcome, after⟩ hafter
  cases outcome with
  | success value => exact .done hafter
  | failure cause =>
    by_cases hc : cause.consumed = true
    · simp only [hc, if_true]
      exact .done hafter
    · simp only [hc, State.jumpTo_eq]
      by_cases hback : s.position ≤ after.cursor.input.size
      · simp only [hback, if_true]
        refine (hy (after.movedTo s.position)).bind ?_
        rintro ⟨outcome, final⟩ hfinal
        exact .done (passage.trans (passage.trans hafter (passage.movedTo after s.position)) hfinal)
      · simp only [hback, if_false]
        exact fun _ h => absurd h (by simp)

theorem repeatFrom (h : x.Passes passage) (fuel : Nat) (values : List α) :
    (x.repeatFrom fuel values).Passes passage := by
  induction fuel generalizing values with
  | zero => exact timeout
  | succ fuel ih =>
    intro s
    refine (h s).bind ?_
    rintro ⟨outcome, after⟩ hafter
    refine (passage.ofSameMove (Turn.next_sameMove ⟨rfl, rfl⟩ s.position values outcome)).bind ?_
    rintro ⟨turn, later⟩ hlater
    cases turn with
    | again values =>
      exact fun result hresult => passage.trans (passage.trans hafter hlater)
        (ih values later result hresult)
    | stop outcome => exact .done (passage.trans hafter hlater)

theorem repeatFrom1 (h : x.Passes passage) (fuel : Nat) :
    (x.repeatFrom1 (x.repeatFrom fuel)).Passes passage := by
  intro s
  refine (h s).bind ?_
  rintro ⟨outcome, after⟩ hafter
  dsimp only
  cases Turn.first s.position outcome after with
  | again values =>
    exact fun result hresult => passage.trans hafter (h.repeatFrom fuel values after result hresult)
  | stop outcome => exact .done hafter

end Action.Passes

/-- Whatever was counted before a run is counted after it. -/
def Passage.ticks : Passage where
  holds s s' := s.ticks <:+ s'.ticks
  refl s := List.suffix_refl s.ticks
  trans h h' := h.trans h'
  movedTo s _ := List.suffix_refl s.ticks

/-- In a run that remembers, a counter goes up as often as a lookup misses. -/
def Passage.executions (counter : Nat) : Passage where
  holds s s' := s.cursor.memoize = true → s'.cursor.memoize = true ∧
    s'.ticks.count counter + s.cursor.misses = s.ticks.count counter + s'.cursor.misses
  refl _ hm := ⟨hm, rfl⟩
  trans h h' hm := by
    obtain ⟨hm', hfirst⟩ := h hm
    obtain ⟨hm'', hsecond⟩ := h' hm'
    exact ⟨hm'', by omega⟩
  movedTo _ _ hm := ⟨hm, rfl⟩

namespace Parser

variable {t : Ty}

theorem eval_ticks (fuel : Nat) (scope : Scope) (p : Parser t) :
    (p.eval fuel scope).Passes .ticks := by
  induction fuel generalizing t scope with
  | zero => exact .timeout
  | succ fuel ih =>
    cases p with
    | atom a => exact .atom a
    | wrap wrapper p => exact (ih scope p).wrapped wrapper
    | bind p captures next =>
      exact (ih (scope.holding captures) p).chain fun value => ih scope (next value)
    | sequence items =>
      have hitems := fun i => ih (scope.holding (ownedItems items)) (items i)
      exact fun s => Action.Passes.sequence hitems s.position (List.finRange _) [] s
    | choice first second =>
      exact (ih (scope.holding second.owned) first).choice (ih scope second)
    | memo label p =>
      intro s
      by_cases hm : s.cursor.memoize = true
      · rcases Action.remembered_cases hm (scope.key label) (p.eval fuel scope) with
          ⟨outcome, stop, -, hhit⟩ | hmiss
        · simp only [eval, hhit]
          exact .done (List.suffix_refl s.ticks)
        · simp only [eval, hmiss]
          refine (ih scope p _).bind ?_
          rintro ⟨outcome, after⟩ hafter
          exact .done hafter
      · simp only [eval, Action.remembered, hm]
        exact ih scope p s
    | many p => exact (ih (scope.holding p.owned) p).repeatFrom fuel []
    | many1 p => exact (ih (scope.holding p.owned) p).repeatFrom1 fuel
    | recursive name body => exact ih (scope.define name body) body
    | rule name =>
      simp only [eval]
      cases scope.resolve name t with
      | none => exact .fault _
      | some found => exact ih found.2 found.1
    | fresh level captures body =>
      exact fun s => ih (scope.renew level s.renew.1) (body ()) s.renew.2
    | tick counter p =>
      intro s result hresult
      exact (List.suffix_cons counter s.ticks).trans (ih scope p (s.tick counter) result hresult)

/-- Each memoized parser counts its executions by the counter, which counts nothing else. -/
inductive CountsExecutions (counter : Nat) : {t : Ty} → Parser t → Prop where
  | atom {t : Ty} (a : Atom t) : CountsExecutions counter (.atom a)
  | wrap {a b : Ty} (wrapper : Wrapper a b) {p : Parser a} (hp : CountsExecutions counter p) :
      CountsExecutions counter (.wrap wrapper p)
  | bind {a b : Ty} {p : Parser a} {captures : List Label} {next : a.Elem → Parser b}
      (hp : CountsExecutions counter p) (hnext : ∀ value, CountsExecutions counter (next value)) :
      CountsExecutions counter (.bind p captures next)
  | sequence {t : Ty} {n : Nat} {items : Fin n → Parser (.option t)}
      (h : ∀ i, CountsExecutions counter (items i)) : CountsExecutions counter (.sequence items)
  | choice {t : Ty} {first second : Parser t} (h : CountsExecutions counter first)
      (h' : CountsExecutions counter second) : CountsExecutions counter (.choice first second)
  | memo {t : Ty} (label : Label) {p : Parser t} (hp : CountsExecutions counter p) :
      CountsExecutions counter (.memo label (.tick counter p))
  | many {t : Ty} {p : Parser t} (hp : CountsExecutions counter p) :
      CountsExecutions counter (.many p)
  | many1 {t : Ty} {p : Parser t} (hp : CountsExecutions counter p) :
      CountsExecutions counter (.many1 p)
  | recursive {t : Ty} (name : Label) {body : Parser t} (hbody : CountsExecutions counter body) :
      CountsExecutions counter (.recursive name body)
  | rule {t : Ty} (name : Label) : CountsExecutions counter (.rule name : Parser t)
  | fresh {t : Ty} (level : Nat) (captures : List Label) {body : Unit → Parser t}
      (hbody : CountsExecutions counter (body ())) :
      CountsExecutions counter (.fresh level captures body)
  | tick {t : Ty} {other : Nat} (hother : other ≠ counter) {p : Parser t}
      (hp : CountsExecutions counter p) : CountsExecutions counter (.tick other p)

variable {counter : Nat}

/-- A miss goes with an execution, which counts itself. -/
theorem remembered_executions {x : Action t.Elem} (h : x.Passes (.executions counter)) (key : Key) :
    (Action.remembered key fun s => x (s.tick counter)).Passes (.executions counter) := by
  intro s
  by_cases hm : s.cursor.memoize = true
  · rcases Action.remembered_cases hm key fun s => x (s.tick counter) with
      ⟨outcome, stop, -, hhit⟩ | hmiss
    · rw [hhit]
      exact .done fun _ => ⟨hm, rfl⟩
    · rw [hmiss]
      refine (h _).bind ?_
      rintro ⟨outcome, after⟩ hafter
      obtain ⟨hmemoize, hcount⟩ := hafter hm
      have hafter : after.cursor.memoize = true := hmemoize
      refine .done fun _ => ?_
      simp only [State.tick, List.count_cons_self] at hcount
      simp only [State.remember, Cursor.remember, hafter, if_true]
      exact ⟨trivial, by omega⟩
  · exact fun _ _ hon => absurd hon hm

theorem eval_executions (fuel : Nat) (scope : Scope) (p : Parser t)
    (hscope : ∀ rule ∈ scope.rules, rule.body.CountsExecutions counter)
    (hp : p.CountsExecutions counter) : (p.eval fuel scope).Passes (.executions counter) := by
  -- a memoized parser takes a unit of fuel for its count
  induction fuel using Nat.strongRecOn generalizing t scope with
  | ind fuel ihbelow =>
    cases fuel with
    | zero => exact .timeout
    | succ fuel =>
      have ih := fun {t : Ty} (scope : Scope) (p : Parser t) =>
        ihbelow fuel (Nat.lt_succ_self fuel) scope p
      cases hp with
      | atom a => exact .atom a
      | @wrap a b wrapper p hp => exact (ih scope p hscope hp).wrapped wrapper
      | @bind a b p captures next hp hnext =>
        exact (ih (scope.holding captures) p hscope hp).chain fun value =>
          ih scope (next value) hscope (hnext value)
      | @sequence t n items h =>
        have hitems := fun i => ih (scope.holding (ownedItems items)) (items i) hscope (h i)
        exact fun s => Action.Passes.sequence hitems s.position (List.finRange _) [] s
      | @choice t first second h h' =>
        exact (ih (scope.holding second.owned) first hscope h).choice (ih scope second hscope h')
      | @memo t label p hp =>
        cases fuel with
        | zero => exact remembered_executions .timeout (scope.key label)
        | succ fuel =>
          exact remembered_executions (ihbelow fuel (by omega) scope p hscope hp) (scope.key label)
      | @many t p hp => exact (ih (scope.holding p.owned) p hscope hp).repeatFrom fuel []
      | @many1 t p hp => exact (ih (scope.holding p.owned) p hscope hp).repeatFrom1 fuel
      | @recursive t name body hbody =>
        exact ih (scope.define name body) body (List.forall_mem_cons.2 ⟨hbody, hscope⟩) hbody
      | rule name =>
        simp only [eval]
        cases hfound : scope.resolve name t with
        | none => exact .fault _
        | some found =>
          obtain ⟨hbody, hinner⟩ := Scope.forall_of_resolve hscope hfound
          exact ih found.2 found.1 hinner hbody
      | @fresh t level captures body hbody =>
        exact fun s => ih (scope.renew level s.renew.1) (body ()) hscope hbody s.renew.2
      | @tick t other hother p hp =>
        intro s result hresult hm
        have hpart := ih scope p hscope hp (s.tick other) result hresult hm
        simpa [State.tick, List.count_cons, hother] using hpart

end Parser

end ParserKit
