import ParserKit.Proofs.Courses
import ParserKit.Proofs.Meaning
import ParserKit.Runner

/-!
The stepwise run computes the direct meaning. From a parser on top of any stack
of frames, the machine comes back to that stack with exactly the outcome and the
state of the direct evaluation; it breaks off where the evaluation breaks off,
in the state that the course of the parser tells; and while the evaluation lacks
fuel the machine keeps going for as many steps.

Driving in slices visits the same states in the same order, so the report is the
same for every interval.
-/

namespace ParserKit

section Driving

variable {σ : Type} {step : σ → Step σ}

/-- A number of steps from one state to another. -/
inductive Steps (step : σ → Step σ) : Nat → σ → σ → Prop where
  | refl (s : σ) : Steps step 0 s s
  | head {n : Nat} {s s' s'' : σ} (first : step s = .next s') (rest : Steps step n s' s'') :
      Steps step (n + 1) s s''

namespace Steps

theorem trans {n k : Nat} {a b c : σ} (h : Steps step n a b) (h' : Steps step k b c) :
    Steps step (n + k) a c := by
  induction h with
  | refl s => simpa only [Nat.zero_add] using h'
  | head first rest ih =>
    have hrest := Steps.head first (ih h')
    simpa only [Nat.add_right_comm] using hrest

theorem split {n k : Nat} {a c : σ} (h : Steps step (n + k) a c) :
    ∃ b, Steps step n a b ∧ Steps step k b c := by
  induction n generalizing a with
  | zero => exact ⟨a, .refl a, by simpa only [Nat.zero_add] using h⟩
  | succ n ih =>
    rw [Nat.add_right_comm] at h
    cases h with
    | head first rest =>
      obtain ⟨b, hab, hbc⟩ := ih rest
      exact ⟨b, .head first hab, hbc⟩

/-- A run that ends is never longer than the steps to its end. -/
theorem le_of_ended {n k : Nat} {a b c e : σ} (h : Steps step n a b) (hend : step b = .done e)
    (h' : Steps step k a c) : k ≤ n := by
  induction h generalizing k with
  | refl s =>
    cases h' with
    | refl => exact Nat.le_refl 0
    | head first rest => exact absurd (first.symm.trans hend) (by simp)
  | head first rest ih =>
    cases h' with
    | refl => exact Nat.zero_le _
    | head first' rest' =>
      obtain rfl := Step.next.inj (first.symm.trans first')
      exact Nat.succ_le_succ (ih hend rest')

end Steps

theorem drive_eq {n : Nat} {s s' e : σ} (h : Steps step n s s') (hend : step s' = .done e)
    {fuel : Nat} (hfuel : n < fuel) (steps : Nat) :
    drive step fuel steps s = some (steps + n, e) := by
  induction h generalizing fuel steps with
  | refl s =>
    obtain ⟨fuel, rfl⟩ : ∃ more, fuel = more + 1 := ⟨fuel - 1, by omega⟩
    simp only [drive, hend, Nat.add_zero]
  | @head n s m s' first rest ih =>
    obtain ⟨fuel, rfl⟩ : ∃ more, fuel = more + 1 := ⟨fuel - 1, by omega⟩
    simp only [drive, first]
    rw [ih hend (by omega) (steps + 1), Nat.add_right_comm, Nat.add_assoc]

/-- What a drive that came to an end has done. -/
theorem steps_of_drive {fuel steps total : Nat} {s e : σ}
    (h : drive step fuel steps s = some (total, e)) :
    ∃ n s', total = steps + n ∧ n < fuel ∧ Steps step n s s' ∧ step s' = .done e := by
  induction fuel generalizing steps s with
  | zero => exact absurd h (by simp [drive])
  | succ fuel ih =>
    cases hs : step s with
    | done e' =>
      simp only [drive, hs, Option.some.injEq, Prod.mk.injEq] at h
      obtain ⟨rfl, rfl⟩ := h
      exact ⟨0, s, rfl, by omega, .refl s, hs⟩
    | next m =>
      simp only [drive, hs] at h
      obtain ⟨n, s', htotal, hfuel, hsteps, hend⟩ := ih h
      exact ⟨n + 1, s', by omega, by omega, .head hs hsteps, hend⟩

/-- However far it may go, a drive comes to the same end. -/
theorem drive_unique {fuel fuel' steps total total' : Nat} {s e e' : σ}
    (h : drive step fuel steps s = some (total, e))
    (h' : drive step fuel' steps s = some (total', e')) : total = total' ∧ e = e' := by
  obtain ⟨n, last, rfl, -, hsteps, hend⟩ := steps_of_drive h
  obtain ⟨n', last', rfl, -, hsteps', hend'⟩ := steps_of_drive h'
  have hdrive := drive_eq hsteps hend (show n < n + n' + 1 by omega) steps
  rw [drive_eq hsteps' hend' (show n' < n + n' + 1 by omega) steps] at hdrive
  obtain ⟨htotal, hlast⟩ := Prod.mk.inj (Option.some.inj hdrive)
  exact ⟨htotal.symm, hlast.symm⟩

theorem driveSlice_paused {n : Nat} {s s' : σ} (h : Steps step n s s') (steps : Nat) :
    driveSlice step n steps s = .paused (steps + n) s' := by
  induction h generalizing steps with
  | refl s => rfl
  | head first rest ih =>
    simp only [driveSlice, first]
    rw [ih (steps + 1), Nat.add_right_comm, Nat.add_assoc]

theorem driveSlice_finished {n : Nat} {s s' e : σ} (h : Steps step n s s')
    (hend : step s' = .done e) {count : Nat} (hcount : n < count) (steps : Nat) :
    driveSlice step count steps s = .finished (steps + n) e := by
  induction h generalizing count steps with
  | refl s =>
    obtain ⟨count, rfl⟩ : ∃ more, count = more + 1 := ⟨count - 1, by omega⟩
    simp only [driveSlice, hend, Nat.add_zero]
  | @head n s m s' first rest ih =>
    obtain ⟨count, rfl⟩ : ∃ more, count = more + 1 := ⟨count - 1, by omega⟩
    simp only [driveSlice, first]
    rw [ih hend (by omega) (steps + 1), Nat.add_right_comm, Nat.add_assoc]

/-- Slices of any width lead to the same end in the same number of steps. -/
theorem driveSliced_eq (interval : Nat) {n : Nat} {s s' e : σ} (h : Steps step n s s')
    (hend : step s' = .done e) {fuel : Nat} (hfuel : n < fuel) (steps : Nat) :
    driveSliced step interval fuel steps s = some (steps + n, e) := by
  induction fuel generalizing n s steps with
  | zero => exact absurd hfuel (Nat.not_lt_zero n)
  | succ fuel ih =>
    have hwidth : 1 ≤ max interval 1 := by omega
    by_cases hn : n < max interval 1
    · simp only [driveSliced, driveSlice_finished h hend hn]
    · obtain ⟨rest, rfl⟩ : ∃ rest, n = max interval 1 + rest :=
        ⟨n - max interval 1, by omega⟩
      obtain ⟨middle, hslice, hrest⟩ := h.split
      simp only [driveSliced, driveSlice_paused hslice]
      rw [ih hrest (by omega) (steps + max interval 1), Nat.add_assoc]

end Driving

namespace Machine

variable {r : Ty}

/-- A machine that has ended without an outcome. -/
def Fails (m : Machine r) (cause : Fault) : Prop :=
  m.control = .broken cause ∨ m.control = .halted none ∧ cause = .noOutcome

/-- What the machine does when it is started on a computation with the given
result: it comes back to the stack, fails likewise in the state where that breaks
off, or goes on for `n` steps. -/
def Tracks {a : Ty} (n : Nat) (m : Machine r) (stack : Stack a r) (broken : State) :
    Result (Outcome a.Elem × State) → Prop
  | .done (outcome, s) => ∃ k, Steps step k m { control := .resume outcome stack, state := s }
  | .fault cause => ∃ k m', Steps step k m m' ∧ m'.Fails cause ∧ m'.state = broken
  | .timeout => ∃ k m', n ≤ k ∧ Steps step k m m'

namespace Tracks

variable {a b : Ty} {n k : Nat} {m m' : Machine r} {broken : State}

theorem resume (n : Nat) (outcome : Outcome a.Elem) (stack : Stack a r) (s : State) :
    Tracks n { control := .resume outcome stack, state := s } stack broken (.done (outcome, s)) :=
  ⟨0, .refl _⟩

theorem fewer {stack : Stack a r} {x : Result (Outcome a.Elem × State)}
    (h : Tracks n m stack broken x) (hk : k ≤ n) : Tracks k m stack broken x := by
  cases x with
  | done result => exact h
  | fault cause => exact h
  | timeout =>
    obtain ⟨steps, m', hn, hsteps⟩ := h
    exact ⟨steps, m', by omega, hsteps⟩

theorem next {stack : Stack a r} {x : Result (Outcome a.Elem × State)} (hm : m.step = .next m')
    (h : Tracks n m' stack broken x) : Tracks (n + 1) m stack broken x := by
  cases x with
  | done result =>
    obtain ⟨steps, hsteps⟩ := h
    exact ⟨steps + 1, .head hm hsteps⟩
  | fault cause =>
    obtain ⟨steps, m'', hsteps, hfails⟩ := h
    exact ⟨steps + 1, m'', .head hm hsteps, hfails⟩
  | timeout =>
    obtain ⟨steps, m'', hn, hsteps⟩ := h
    exact ⟨steps + 1, m'', by omega, .head hm hsteps⟩

theorem after {stack : Stack a r} {x : Result (Outcome a.Elem × State)}
    (hm : Steps step k m m') (h : Tracks n m' stack broken x) :
    Tracks (n + k) m stack broken x := by
  induction hm with
  | refl m => exact h
  | head first rest ih => exact (ih h).next first

/-- A part with a frame above the stack, and then what the frame does. -/
theorem bind {frame : Frame a b} {stack : Stack b r} {x : Result (Outcome a.Elem × State)}
    {g : Outcome a.Elem × State → Result (Outcome b.Elem × State)}
    {rest : Outcome a.Elem × State → State}
    (h : Tracks n m (.push frame stack) broken x) (hn : n ≤ k + 1)
    (hg : ∀ outcome s,
      Tracks k (leave frame outcome stack s) stack (rest (outcome, s)) (g (outcome, s))) :
    Tracks n m stack (x.brokenAt broken rest) (x >>= g) := by
  cases x with
  | fault cause => exact h
  | timeout => exact h
  | done result =>
    obtain ⟨steps, hsteps⟩ := h
    have hleave : Tracks (k + 1) ⟨.resume result.1 (.push frame stack), result.2⟩ stack
        (rest result) (g result) :=
      (hg result.1 result.2).next rfl
    exact (hleave.after hsteps).fewer (by omega)

/-- A last part, whose frame only treats its end. -/
theorem last {frame : Frame a b} {stack : Stack b r} {x : Result (Outcome a.Elem × State)}
    {g : Outcome a.Elem × State → Outcome b.Elem × State}
    (h : Tracks n m (.push frame stack) broken x) (hn : n ≤ k + 1)
    (hg : ∀ outcome s, leave frame outcome stack s =
      ⟨.resume (g (outcome, s)).1 stack, (g (outcome, s)).2⟩) :
    Tracks n m stack broken (x >>= fun result => .done (g result)) := by
  have hbind : Tracks n m stack (x.brokenAt broken fun _ => broken)
      (x >>= fun result => .done (g result)) :=
    h.bind hn fun outcome s => by rw [hg]; exact .resume k _ stack _
  cases x with
  | fault cause => exact h
  | timeout => exact h
  | done result => exact hbind

theorem ofExcept {α : Type} {stack : Stack b r} {s : State} {x : Except Fault α}
    {f : α → Machine r} {g : α → Result (Outcome b.Elem × State)} {rest : α → State}
    (h : ∀ value, Tracks n (f value) stack (rest value) (g value)) :
    Tracks n (Machine.ofExcept s x f) stack ((Result.ofExcept x).brokenAt s rest)
      (.ofExcept x >>= g) := by
  cases x with
  | ok value => exact h value
  | error cause => exact ⟨0, _, .refl _, .inl rfl, rfl⟩

end Tracks

variable {a b t : Ty}

/-- What `enter` does for a parser, given what it does for the parts. -/
def Enters (n : Nat) (p : Parser t) (scope : Scope) (x : Course t.Elem) : Prop :=
  ∀ (r : Ty) (stack : Stack t r) (s : State),
    Tracks n ⟨.run p scope stack, s⟩ stack (x.broken s) (x.run s)

namespace Enters

variable {n : Nat} {scope : Scope}

theorem atom (n : Nat) (x : Atom t) : Enters (n + 1) (.atom x) scope (.atom x) := by
  intro r stack s
  refine Tracks.next rfl (Tracks.ofExcept ?_)
  rintro ⟨outcome, s⟩
  cases outcome with
  | some outcome => exact .resume n outcome stack s
  | none => exact ⟨0, _, .refl _, .inr ⟨rfl, rfl⟩, rfl⟩

theorem wrap {x : Course a.Elem} {p : Parser a} (wrapper : Wrapper a b) (h : Enters n p scope x) :
    Enters (n + 1) (.wrap wrapper p) scope (x.wrapped wrapper) := by
  intro r stack s
  refine Tracks.next rfl ((h r _ s).bind (Nat.le_succ n) fun outcome after => ?_)
  simp only [leave]
  cases after.finish wrapper s.position outcome with
  | ok result => exact .resume n result.1 stack result.2
  | error cause => exact ⟨0, _, .refl _, .inl rfl, rfl⟩

theorem bind {x : Course a.Elem} {f : a.Elem → Course b.Elem} {p : Parser a}
    {captures : List Label} {next : a.Elem → Parser b} (h : Enters n p (scope.holding captures) x)
    (hf : ∀ value, Enters n (next value) scope (f value)) :
    Enters (n + 1) (.bind p captures next) scope (x.chain f) := by
  intro r stack s
  refine Tracks.next rfl ((h r _ s).bind (Nat.le_succ n) fun outcome middle => ?_)
  cases outcome with
  | failure cause => exact .resume n _ stack middle
  | success value => exact (hf value r _ middle).last (Nat.le_succ n) fun _ _ => rfl

theorem items {k : Nat} {x : Fin k → Course (Option t.Elem)}
    {items : Fin k → Parser (.option t)} (h : ∀ i, Enters n (items i) scope (x i))
    (start : Nat) (rest : List (Fin k)) (values : List t.Elem) {r : Ty} (stack : Stack (.list t) r)
    (s : State) :
    Tracks n (nextItem start items rest values scope stack s) stack (Course.itemsBroken x rest s)
      (Action.sequence (fun i => (x i).run) start rest values s) := by
  induction rest generalizing values s with
  | nil => exact .resume n _ stack s
  | cons i rest ih =>
    refine (h i r _ s).bind (Nat.le_succ n) fun outcome after => ?_
    cases outcome with
    | success value => exact ih (collect values value) after
    | failure cause => exact .resume n _ stack after

theorem choice {x y : Course t.Elem} {first second : Parser t}
    (h : Enters n first (scope.holding second.owned) x) (h' : Enters n second scope y) :
    Enters (n + 1) (.choice first second) scope (x.choice y) := by
  intro r stack s
  refine Tracks.next rfl ((h r _ s).bind (Nat.le_succ n) fun outcome after => ?_)
  cases outcome with
  | success value => exact .resume n _ stack after
  | failure cause =>
    simp only [leave]
    by_cases hc : cause.consumed = true
    · simp only [hc, if_true]
      exact .resume n _ stack after
    · simp only [hc]
      refine Tracks.ofExcept fun back => ?_
      exact (h' r _ back).last (Nat.le_succ n) fun _ _ => rfl

theorem memo {x : Course t.Elem} {p : Parser t} (label : Label) (h : Enters n p scope x) :
    Enters (n + 1) (.memo label p) scope (x.remembered (scope.key label)) := by
  intro r stack s
  refine Tracks.next rfl ?_
  simp only [enter, Course.remembered, Action.remembered]
  by_cases hm : s.cursor.memoize = true
  · simp only [hm, if_true]
    cases s.lookup (scope.key label) t with
    | mk found missed =>
      cases found with
      | some outcome => exact .resume n _ stack missed
      | none => exact (h r _ missed).last (Nat.le_succ n) fun _ _ => rfl
  · have hstay : (s.lookup (scope.key label) t).2 = s := by
      simp [State.lookup, Cursor.lookup, hm]
    simp only [hm, hstay]
    exact h r stack s

/-- The steps of a repetition cover the fuel it has, one for each occurrence. -/
theorem turns {x : Course t.Elem} {p : Parser t} (h : Enters n p scope x) {fuel : Nat}
    (hfuel : fuel ≤ n) (values : List t.Elem) {r : Ty} (stack : Stack (.list t) r) (s : State) :
    Tracks fuel (nextTurn p values scope stack s) stack (x.turnsBroken fuel values s)
      (x.run.repeatFrom fuel values s) := by
  induction fuel generalizing values s with
  | zero => exact ⟨0, _, Nat.le_refl 0, .refl _⟩
  | succ fuel ih =>
    refine ((h r _ s).fewer hfuel).bind (Nat.le_refl (fuel + 1)) fun outcome after => ?_
    refine Tracks.ofExcept ?_
    rintro ⟨turn, after⟩
    cases turn with
    | again values => exact ih (by omega) values after
    | stop outcome => exact .resume fuel _ stack after

theorem many1 {x : Course t.Elem} {p : Parser t}
    (h : Enters n p (scope.holding p.owned) x) :
    Enters (n + 1) (.many1 p) scope (x.many1 n) := by
  intro r stack s
  refine Tracks.next rfl ((h r _ s).bind (Nat.le_succ n) fun outcome after => ?_)
  simp only [leave]
  cases Turn.first s.position outcome after with
  | again values => exact h.turns (Nat.le_refl n) values stack after
  | stop outcome => exact .resume n _ stack after

end Enters

/-- The machine follows the course of every parser, on any stack. -/
theorem enters_course (fuel : Nat) (p : Parser t) (scope : Scope) :
    Enters fuel p scope (p.course fuel scope) := by
  induction fuel generalizing t scope with
  | zero => exact fun _ _ _ => ⟨0, _, Nat.le_refl 0, .refl _⟩
  | succ fuel ih =>
    cases p with
    | atom x => exact .atom fuel x
    | wrap wrapper p => exact (ih p scope).wrap wrapper
    | bind p captures next =>
      exact (ih p (scope.holding captures)).bind fun value => ih (next value) scope
    | sequence items =>
      intro r stack s
      have hitems := fun i => ih (items i) (scope.holding (Parser.ownedItems items))
      exact Tracks.next rfl (Enters.items hitems s.position (List.finRange _) [] stack s)
    | choice first second =>
      exact (ih first (scope.holding second.owned)).choice (ih second scope)
    | memo label p => exact (ih p scope).memo label
    | many p =>
      intro r stack s
      have hp := ih p (scope.holding p.owned)
      exact Tracks.next rfl (hp.turns (Nat.le_refl fuel) [] stack s)
    | many1 p => exact (ih p (scope.holding p.owned)).many1
    | recursive name body => exact fun r stack s => Tracks.next rfl (ih body _ r stack s)
    | rule name =>
      intro r stack s
      refine Tracks.next rfl ?_
      simp only [enter, Parser.course]
      cases scope.resolve name t with
      | some found => exact ih found.1 found.2 r stack s
      | none => exact ⟨0, _, .refl _, .inl rfl, rfl⟩
    | fresh level captures body => exact fun r stack s => Tracks.next rfl (ih (body ()) _ r stack _)
    | tick counter p => exact fun r stack s => Tracks.next rfl (ih p scope r stack _)

/-- The machine follows the direct evaluation. -/
theorem tracks_eval (fuel : Nat) (p : Parser t) (scope : Scope) {r : Ty} (stack : Stack t r)
    (s : State) :
    Tracks fuel ⟨.run p scope stack, s⟩ stack ((p.course fuel scope).broken s)
      (p.eval fuel scope s) := by
  rw [← p.run_course]
  exact enters_course fuel p scope r stack s

/-- The outcome that a machine is about to hand to the end of the run. -/
def delivery : Machine r → Option (Outcome r.Elem)
  | ⟨.resume outcome .done, _⟩ => some outcome
  | _ => none

/-- The outcomes that are handed to the end of the run within some steps. -/
def deliveries : Nat → Machine r → List (Outcome r.Elem)
  | 0, _ => []
  | fuel + 1, m =>
    match m.step with
    | .next m' => m.delivery.toList ++ deliveries fuel m'
    | .done _ => []

/-- A delivery is the last step but one: the run halts right after it. -/
theorem step_eq_of_delivery {m : Machine r} {outcome : Outcome r.Elem}
    (h : m.delivery = some outcome) :
    m.step = .next { control := .halted (some outcome), state := m.state } := by
  obtain ⟨control, s⟩ := m
  cases control with
  | run p scope stack => exact absurd h (by simp [delivery])
  | halted outcome => exact absurd h (by simp [delivery])
  | broken cause => exact absurd h (by simp [delivery])
  | resume outcome' stack =>
    cases stack with
    | push frame stack => exact absurd h (by simp [delivery])
    | done =>
      obtain rfl : outcome' = outcome := by simpa [delivery] using h
      rfl

/-- Until the run delivers or fails it has delivered nothing. -/
theorem deliveries_of_steps {n : Nat} {m m' : Machine r} (h : Steps step n m m')
    (hm' : ∀ outcome, m'.control ≠ .halted (some outcome)) (fuel : Nat) :
    deliveries (n + fuel) m = deliveries fuel m' := by
  induction h with
  | refl m => rw [Nat.zero_add]
  | @head n m next m' first rest ih =>
    have hm : m.delivery = none := by
      cases hd : m.delivery with
      | none => rfl
      | some outcome =>
        obtain rfl := Step.next.inj (first.symm.trans (step_eq_of_delivery hd))
        cases rest with
        | refl => exact absurd rfl (hm' outcome)
        | head first' rest' => exact absurd first' (by simp [step])
    rw [Nat.add_right_comm]
    simp only [deliveries, first, hm, Option.toList_none, List.nil_append]
    exact ih hm'

theorem step_of_fails {m : Machine r} {cause : Fault} (h : m.Fails cause) : m.step = .done m := by
  obtain ⟨control, s⟩ := m
  rcases h with h | ⟨h, -⟩
  · obtain rfl : control = .broken cause := h
    rfl
  · obtain rfl : control = .halted none := h
    rfl

/-- What a machine has come to. -/
def result (m : Machine r) : Result (Outcome r.Elem × State) :=
  match m.control with
  | .halted (some outcome) => .done (outcome, m.state)
  | .halted none => .fault .noOutcome
  | .broken cause => .fault cause
  | .run _ _ _ => .timeout
  | .resume _ _ => .timeout

theorem eq_of_result_done {m : Machine r} {outcome : Outcome r.Elem} {s : State}
    (h : m.result = .done (outcome, s)) : m = ⟨.halted (some outcome), s⟩ := by
  obtain ⟨control, s'⟩ := m
  cases control with
  | run p scope stack => exact absurd h (by simp [result])
  | resume outcome stack => exact absurd h (by simp [result])
  | broken cause => exact absurd h (by simp [result])
  | halted outcome =>
    cases outcome with
    | none => exact absurd h (by simp [result])
    | some outcome =>
      obtain ⟨rfl, rfl⟩ := Prod.mk.inj (Result.done.inj h)
      rfl

theorem broken_of_result {m : Machine r} (h : m.result = .fault .ruleDropped) :
    m.control = .broken .ruleDropped := by
  obtain ⟨control, s⟩ := m
  cases control with
  | run p scope stack => exact absurd h (by simp [result])
  | resume outcome stack => exact absurd h (by simp [result])
  | halted outcome => cases outcome <;> exact absurd h (by simp [result])
  | broken cause => exact congrArg Control.broken (Result.fault.inj h)

theorem result_of_fails {m : Machine r} {cause : Fault} (h : m.Fails cause) :
    m.result = .fault cause := by
  rcases h with h | ⟨h, rfl⟩
  · simp only [result, h]
  · simp only [result, h]

end Machine

open Machine

variable {t : Ty}

/-- The outcomes that a computation with the given result delivers. -/
def Result.delivered : Result (Outcome t.Elem × State) → List (Outcome t.Elem)
  | .done (outcome, _) => [outcome]
  | .fault _ => []
  | .timeout => []

/-- The end of a stepwise run whose direct evaluation ends. -/
theorem Machine.start_ends {p : Parser t} {s : State} {fuel : Nat}
    {result : Result (Outcome t.Elem × State)} (h : p.eval fuel Scope.root s = result)
    (hresult : result ≠ .timeout) :
    ∃ n m, Steps step n (start p s) m ∧ m.step = .done m ∧ m.result = result ∧
      m.state = (p.course fuel Scope.root).final s ∧
      ∀ limit, n < limit → deliveries limit (start p s) = result.delivered := by
  have htracks := tracks_eval fuel p Scope.root .done s
  simp only [Course.final, p.run_course]
  rw [h] at htracks ⊢
  cases result with
  | timeout => exact absurd rfl hresult
  | fault cause =>
    obtain ⟨n, m, hsteps, hfails, hstate⟩ := htracks
    refine ⟨n, m, hsteps, step_of_fails hfails, result_of_fails hfails, hstate,
      fun limit hlimit => ?_⟩
    obtain ⟨more, rfl⟩ : ∃ more, limit = n + (more + 1) := ⟨limit - n - 1, by omega⟩
    have hnone : ∀ outcome, m.control ≠ .halted (some outcome) := by
      rcases hfails with hcontrol | ⟨hcontrol, -⟩
      · simp [hcontrol]
      · simp [hcontrol]
    have hrest := deliveries_of_steps hsteps hnone (more + 1)
    simp only [deliveries, step_of_fails hfails] at hrest
    exact hrest
  | done value =>
    obtain ⟨outcome, final⟩ := value
    obtain ⟨n, hsteps⟩ := htracks
    let last : Machine t := ⟨.halted (some outcome), final⟩
    have hlast : Steps step 1 ⟨.resume outcome .done, final⟩ last := .head rfl (.refl last)
    refine ⟨n + 1, last, hsteps.trans hlast, rfl, rfl, rfl, fun limit hlimit => ?_⟩
    obtain ⟨more, rfl⟩ : ∃ more, limit = n + (more + 2) := ⟨limit - n - 2, by omega⟩
    exact (deliveries_of_steps hsteps (by simp) (more + 2)).trans rfl

/-- The stepwise run of a parser from a state comes to an end, with an outcome in
a final state or with a fault. -/
def Parser.Ends (p : Parser t) (s : State) (e : Except Fault (Outcome t.Elem × State)) : Prop :=
  ∃ limit steps m, drive step limit 0 (start p s) = some (steps, m) ∧ m.result = .ofExcept e

/-- A run that comes to an end has a direct evaluation that ends the same way. -/
theorem Parser.eval_of_drive {p : Parser t} {s : State} {limit steps : Nat} {m : Machine t}
    (h : drive step limit 0 (start p s) = some (steps, m)) :
    ∃ fuel, p.eval fuel Scope.root s = m.result ∧ m.result ≠ .timeout ∧
      m.state = (p.course fuel Scope.root).final s := by
  obtain ⟨n, last, -, -, hsteps, hend⟩ := steps_of_drive h
  have hfuel : p.eval (n + 1) Scope.root s ≠ .timeout := by
    intro htimeout
    have htracks := tracks_eval (n + 1) p Scope.root .done s
    rw [htimeout] at htracks
    obtain ⟨k, m', hk, hlonger⟩ := htracks
    have hle := hsteps.le_of_ended hend hlonger
    omega
  obtain ⟨n', m', hsteps', hend', hresult, hstate, -⟩ := start_ends rfl hfuel
  obtain ⟨-, rfl⟩ := drive_unique h (drive_eq hsteps' hend' (Nat.lt_succ_self n') 0)
  exact ⟨n + 1, hresult.symm, fun htimeout => hfuel (hresult.symm.trans htimeout), hstate⟩

/-- A run ends exactly as the meaning of the parser says. -/
theorem Parser.ends_iff (p : Parser t) (s : State) (e : Except Fault (Outcome t.Elem × State)) :
    p.Ends s e ↔ p.meaning Scope.root s = .ofExcept e := by
  constructor
  · rintro ⟨limit, steps, m, hdrive, hm⟩
    obtain ⟨fuel, hfuel, hends, -⟩ := eval_of_drive hdrive
    rw [← hfuel] at hends
    rw [meaning_eq_eval hends, hfuel, hm]
  · intro h
    have hends : p.meaning Scope.root s ≠ .timeout := h.trans_ne (Result.ofExcept_ne_timeout e)
    obtain ⟨fuel, hfuel⟩ := exists_eval_eq_meaning hends
    obtain ⟨n, last, hsteps, hend, hresult, -⟩ := start_ends hfuel hends
    exact ⟨n + 1, _, last, drive_eq hsteps hend (Nat.lt_succ_self n) 0, hresult.trans h⟩

/-- What is reported about a computation with the given result. -/
def Report.ofResult (steps : Nat) : Result (Outcome t.Elem × State) → Result (Report t)
  | .done (outcome, state) => .done { outcome, steps, state }
  | .fault cause => .fault cause
  | .timeout => .timeout

namespace Runner

theorem finish_eq (steps : Nat) (m : Machine t) :
    finish steps m = Report.ofResult steps m.result := by
  obtain ⟨control, s⟩ := m
  cases control with
  | halted outcome => cases outcome <;> rfl
  | broken cause => rfl
  | run p scope stack => rfl
  | resume outcome stack => rfl

/-- The stepwise run computes the direct meaning: when the evaluation ends, the
run ends with the same outcome and the same state, having delivered one outcome
exactly if there is one; and a run in slices of any width, zero included, reports
the same as the run without a pause. -/
theorem execute_eq_eval (runner : Runner) (p : Parser t) (input : Array Char) (fuel : Nat)
    (result : Result (Outcome t.Elem × State))
    (h : p.eval fuel Scope.root (.startAt input runner.memoize 0) = result)
    (hresult : result ≠ .timeout) :
    ∃ steps, ∀ limit, steps < limit →
      runner.execute limit p input = Report.ofResult steps result ∧
      deliveries limit (runner.begin p input) = result.delivered ∧
      ∀ interval, { runner with yieldEvery := interval }.executeSliced limit p input =
        Report.ofResult steps result := by
  obtain ⟨n, m, hsteps, hend, hm, -, hdelivered⟩ := start_ends h hresult
  refine ⟨n, fun limit hlimit => ⟨?_, hdelivered limit hlimit, fun interval => ?_⟩⟩
  · simp only [execute, begin, drive_eq hsteps hend hlimit, conclude, finish_eq, hm, Nat.zero_add]
  · simp only [executeSliced, begin, driveSliced_eq interval hsteps hend hlimit, conclude,
      finish_eq, hm, Nat.zero_add]

theorem execute_eq_eval_repetition :
    Parser.eval 4 Scope.root (.many (.atom (.char 'a'))) (.startAt #['a', 'b'] false 0) =
        .done (.success ['a'], .startAt #['a', 'b'] false 1) ∧
      ∃ steps, ∀ limit, steps < limit →
        Runner.execute {} limit (.many (.atom (.char 'a'))) #['a', 'b'] =
          .done { outcome := .success ['a'], steps, state := .startAt #['a', 'b'] false 1 } ∧
        deliveries limit (Runner.begin {} (.many (.atom (.char 'a'))) #['a', 'b']) =
          [.success ['a']] ∧
        ∀ interval, Runner.executeSliced { yieldEvery := interval } limit
            (.many (.atom (.char 'a'))) #['a', 'b'] =
          .done { outcome := .success ['a'], steps, state := .startAt #['a', 'b'] false 1 } :=
  ⟨rfl, execute_eq_eval {} (.many (.atom (.char 'a'))) #['a', 'b'] 4
    (.done (.success ['a'], .startAt #['a', 'b'] false 1)) rfl (by simp)⟩

end Runner

end ParserKit
