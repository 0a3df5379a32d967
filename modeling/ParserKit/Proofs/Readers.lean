import ParserKit.Proofs.Termination

/-!
A run comes to no readers but those of its grammar: everything that waits on the stack, and
every rule in scope, is a part of it.
-/

namespace ParserKit

variable (P : ∀ t, Atom t → Prop)

/-- All readers in what a frame goes on with. -/
def Frame.All {a b : Ty} : Frame a b → Prop
  | .wrap _ _ => True
  | .bind _ next scope => (∀ value, (next value).All P) ∧ scope.All P
  | .settle _ => True
  | .item _ items _ _ scope => (∀ i, (items i).All P) ∧ scope.All P
  | .alternative _ second scope => second.All P ∧ scope.All P
  | .join _ => True
  | .memo _ _ => True
  | .turn _ p _ scope => p.All P ∧ scope.All P
  | .firstTurn _ p scope => p.All P ∧ scope.All P

def Stack.All {a r : Ty} : Stack a r → Prop
  | .done => True
  | .push frame stack => frame.All P ∧ stack.All

def Control.All {r : Ty} : Control r → Prop
  | .run p scope stack => p.All P ∧ scope.All P ∧ stack.All P
  | .resume _ stack => stack.All P
  | .halted _ => True
  | .broken _ => True

namespace Machine

variable {P} {r t : Ty} {m m' : Machine r}

theorem ofExcept_all {α : Type} {s : State} {x : Except Fault α} {next : α → Machine r}
    (h : ∀ a, (next a).control.All P) : (ofExcept s x next).control.All P := by
  cases x with
  | ok a => exact h a
  | error cause => trivial

theorem nextItem_all {n : Nat} {items : Fin n → Parser (.option t)} {scope : Scope}
    {stack : Stack (.list t) r} (hitems : ∀ i, (items i).All P) (hscope : scope.All P)
    (hstack : stack.All P) (start : Nat) (rest : List (Fin n)) (values : List t.Elem) (s : State) :
    (nextItem start items rest values scope stack s).control.All P := by
  cases rest with
  | nil => exact hstack
  | cons i rest => exact ⟨hitems i, hscope, ⟨hitems, hscope⟩, hstack⟩

theorem afterTurn_all {p : Parser t} {scope : Scope} {stack : Stack (.list t) r} (hp : p.All P)
    (hscope : scope.All P) (hstack : stack.All P) (turn : Turn t.Elem) (s : State) :
    (afterTurn turn p scope stack s).control.All P := by
  cases turn with
  | again values => exact ⟨hp, hscope, ⟨hp, hscope⟩, hstack⟩
  | stop outcome => exact hstack

/-- A parser is started with nothing but its own readers. -/
theorem enter_all {p : Parser t} {scope : Scope} {stack : Stack t r} (hp : p.All P)
    (hscope : scope.All P) (hstack : stack.All P) (s : State) :
    (enter p scope stack s).control.All P := by
  cases p with
  | atom a =>
    refine ofExcept_all ?_
    rintro ⟨outcome, after⟩
    cases outcome with
    | some outcome => exact hstack
    | none => trivial
  | wrap wrapper p => exact ⟨hp, hscope, trivial, hstack⟩
  | bind p captures next => exact ⟨hp.1, hscope, ⟨hp.2, hscope⟩, hstack⟩
  | sequence items =>
    have hinner : (scope.holding (Parser.ownedItems items)).All P := hscope
    exact nextItem_all hp hinner hstack s.position (List.finRange _) [] s
  | choice first second => exact ⟨hp.1, hscope, ⟨hp.2, hscope⟩, hstack⟩
  | memo label p =>
    simp only [enter]
    split
    · split
      · exact hstack
      · exact ⟨hp, hscope, trivial, hstack⟩
    · exact ⟨hp, hscope, hstack⟩
  | many p => exact ⟨hp, hscope, ⟨hp, hscope⟩, hstack⟩
  | many1 p => exact ⟨hp, hscope, ⟨hp, hscope⟩, hstack⟩
  | recursive name body => exact ⟨hp, List.forall_mem_cons.2 ⟨hp, hscope⟩, hstack⟩
  | rule name =>
    simp only [enter]
    cases hfound : scope.resolve name t with
    | none => trivial
    | some found =>
      obtain ⟨hbody, hinner⟩ := hscope.resolve hfound
      exact ⟨hbody, hinner, hstack⟩
  | fresh level captures body => exact ⟨hp, hscope, hstack⟩
  | tick counter p => exact ⟨hp, hscope, hstack⟩

theorem leave_all {a b : Ty} {frame : Frame a b} {stack : Stack b r} (hframe : frame.All P)
    (hstack : stack.All P) (outcome : Outcome a.Elem) (s : State) :
    (leave frame outcome stack s).control.All P := by
  cases frame with
  | wrap wrapper start => exact ofExcept_all fun _ => hstack
  | bind start next scope =>
    cases outcome with
    | success value => exact ⟨hframe.1 value, hframe.2, trivial, hstack⟩
    | failure cause => exact hstack
  | settle start => exact hstack
  | item start items rest values scope =>
    cases outcome with
    | success value => exact nextItem_all hframe.1 hframe.2 hstack _ _ _ _
    | failure cause => exact hstack
  | alternative start second scope =>
    cases outcome with
    | success value => exact hstack
    | failure cause =>
      simp only [leave]
      split
      · exact hstack
      · exact ofExcept_all fun _ => ⟨hframe.1, hframe.2, trivial, hstack⟩
  | join first => exact hstack
  | memo key start => exact hstack
  | turn before p values scope =>
    exact ofExcept_all fun _ => afterTurn_all hframe.1 hframe.2 hstack _ _
  | firstTurn before p scope => exact afterTurn_all hframe.1 hframe.2 hstack _ _

/-- A step comes to no readers that were not there. -/
theorem step_all (hm : m.control.All P) (h : m.step = .next m') : m'.control.All P := by
  obtain ⟨control, s⟩ := m
  cases control with
  | run p scope stack =>
    obtain rfl := Step.next.inj h
    exact enter_all hm.1 hm.2.1 hm.2.2 s
  | resume outcome stack =>
    cases stack with
    | done =>
      obtain rfl := Step.next.inj h
      trivial
    | push frame stack =>
      obtain rfl := Step.next.inj h
      exact leave_all hm.1 hm.2 outcome s
  | halted outcome => exact absurd h (by simp [step])
  | broken cause => exact absurd h (by simp [step])

theorem steps_all {n : Nat} (h : Steps step n m m') (hm : m.control.All P) :
    m'.control.All P := by
  induction h with
  | refl m => exact hm
  | head first _ ih => exact ih (step_all hm first)

/-- The readers that a run comes to are readers of its grammar. -/
theorem Reaches.all {p : Parser r} {s : State} (h : (Machine.start p s).Reaches m)
    (hp : p.All P) : m.control.All P := by
  obtain ⟨n, hsteps⟩ := h
  exact steps_all hsteps ⟨hp, Scope.root_all P, trivial⟩

end Machine

end ParserKit
