import ParserKit.Proofs.Trampoline

/-!
Hits and misses against the steps of a run. A key is looked up by a step that enters a
memoized parser, and by no other one, so a run has at most as many hits and misses as
steps.
-/

namespace ParserKit

/-- How often a key was looked up. -/
def State.lookups (s : State) : Nat :=
  s.cursor.hits + s.cursor.misses

@[simp] theorem State.lookups_movedTo (s : State) (q : Nat) : (s.movedTo q).lookups = s.lookups :=
  rfl

@[simp] theorem State.lookups_tick (s : State) (counter : Nat) :
    (s.tick counter).lookups = s.lookups := rfl

@[simp] theorem State.lookups_renew (s : State) : s.renew.2.lookups = s.lookups := rfl

@[simp] theorem State.lookups_remember {t : Ty} (s : State) (key : Key) (start : Nat)
    (outcome : Outcome t.Elem) : (s.remember key start outcome).lookups = s.lookups := by
  simp only [remember, Cursor.remember, lookups]
  split <;> rfl

theorem State.lookups_lookup (s : State) (key : Key) (t : Ty) :
    (s.lookup key t).2.lookups ≤ s.lookups + 1 := by
  by_cases hm : s.cursor.memoize = true
  · rcases lookup_cases hm key t with ⟨outcome, stop, -, hlookup⟩ | hlookup
    · rw [hlookup]
      exact Nat.le_of_eq (Nat.add_right_comm _ _ _)
    · rw [hlookup]
      exact Nat.le_refl _
  · simp [lookup, Cursor.lookup, hm, lookups]

namespace Machine

variable {r : Ty}

theorem lookups_ofExcept {α : Type} {s : State} {x : Except Fault (α × State)}
    (hsame : SameMove s s x x) {next : α × State → Machine r}
    (hnext : ∀ a s, (next (a, s)).state.lookups = s.lookups) :
    (ofExcept s x next).state.lookups = s.lookups := by
  cases hsame with
  | fault cause => rfl
  | move a q => exact hnext a (s.movedTo q)

theorem lookups_nextItem {t : Ty} {n : Nat} (start : Nat) (items : Fin n → Parser (.option t))
    (rest : List (Fin n)) (values : List t.Elem) (scope : Scope) (stack : Stack (.list t) r)
    (s : State) : (nextItem start items rest values scope stack s).state.lookups = s.lookups := by
  cases rest <;> rfl

theorem lookups_afterTurn {t : Ty} (turn : Turn t.Elem) (p : Parser t) (scope : Scope)
    (stack : Stack (.list t) r) (s : State) :
    (afterTurn turn p scope stack s).state.lookups = s.lookups := by
  cases turn <;> rfl

theorem lookups_enter {t : Ty} (p : Parser t) (scope : Scope) (stack : Stack t r) (s : State) :
    (enter p scope stack s).state.lookups ≤ s.lookups + 1 := by
  cases p with
  | atom a =>
    refine Nat.le_succ_of_le (Nat.le_of_eq (lookups_ofExcept (State.read_sameMove ⟨rfl, rfl⟩ a) ?_))
    rintro (_ | _) s <;> rfl
  | sequence items =>
    exact Nat.le_succ_of_le (Nat.le_of_eq (lookups_nextItem s.position items _ [] _ stack s))
  | memo label p =>
    have hlookup := s.lookups_lookup (scope.key label) t
    simp only [enter]
    split
    · split
      · rename_i hfound
        rwa [hfound] at hlookup
      · rename_i hfound
        rwa [hfound] at hlookup
    · exact Nat.le_succ _
  | rule name =>
    simp only [enter]
    split <;> exact Nat.le_succ _
  | wrap wrapper p => exact Nat.le_succ _
  | bind p captures next => exact Nat.le_succ _
  | choice first second => exact Nat.le_succ _
  | many p => exact Nat.le_succ _
  | many1 p => exact Nat.le_succ _
  | recursive name body => exact Nat.le_succ _
  | fresh level captures body => exact Nat.le_succ _
  | tick counter p => exact Nat.le_succ _

theorem lookups_leave {a b : Ty} (frame : Frame a b) (outcome : Outcome a.Elem) (stack : Stack b r)
    (s : State) : (leave frame outcome stack s).state.lookups = s.lookups := by
  cases frame with
  | wrap wrapper start =>
    exact lookups_ofExcept (State.finish_sameMove ⟨rfl, rfl⟩ wrapper start outcome) fun _ _ => rfl
  | bind start next scope => cases outcome <;> rfl
  | settle start => rfl
  | item start items rest values scope =>
    cases outcome with
    | success value =>
      exact lookups_nextItem start items rest (collect values value) scope stack s
    | failure cause => rfl
  | alternative start second scope =>
    cases outcome with
    | success value => rfl
    | failure cause =>
      simp only [leave, State.jumpTo_eq]
      split
      · rfl
      · split <;> rfl
  | join first => rfl
  | memo key start => exact s.lookups_remember key start outcome
  | turn before p values scope =>
    exact lookups_ofExcept (Turn.next_sameMove ⟨rfl, rfl⟩ before values outcome)
      fun turn s => lookups_afterTurn turn p scope stack s
  | firstTurn before p scope => exact lookups_afterTurn _ p scope stack s

/-- A step looks up at most one key. -/
theorem lookups_step {m m' : Machine r} (h : m.step = .next m') :
    m'.state.lookups ≤ m.state.lookups + 1 := by
  obtain ⟨control, s⟩ := m
  cases control with
  | run p scope stack =>
    obtain rfl := Step.next.inj h
    exact lookups_enter p scope stack s
  | resume outcome stack =>
    cases stack with
    | done =>
      obtain rfl := Step.next.inj h
      exact Nat.le_succ _
    | push frame stack =>
      obtain rfl := Step.next.inj h
      exact Nat.le_succ_of_le (Nat.le_of_eq (lookups_leave frame outcome stack s))
  | halted outcome => exact absurd h (by simp [step])
  | broken cause => exact absurd h (by simp [step])

theorem lookups_steps {n : Nat} {m m' : Machine r} (h : Steps step n m m') :
    m'.state.lookups ≤ m.state.lookups + n := by
  induction h with
  | refl m => exact Nat.le_refl _
  | head first rest ih =>
    have hfirst := lookups_step first
    omega

theorem eq_of_step_done {m m' : Machine r} (h : m.step = .done m') : m = m' := by
  obtain ⟨control, s⟩ := m
  cases control with
  | run p scope stack => exact absurd h (by simp [step])
  | resume outcome stack => cases stack <;> exact absurd h (by simp [step])
  | halted outcome => exact Step.done.inj h
  | broken cause => exact Step.done.inj h

/-- The counters of hits and misses are bounded by the steps of the run, so that none of them
overflows as long as the number of steps does not. -/
theorem lookups_le_steps {p : Parser r} {input : Array Char} {memoize : Bool}
    {start limit steps : Nat} {m : Machine r}
    (h : drive step limit 0 (Machine.start p (.startAt input memoize start)) = some (steps, m)) :
    m.state.cursor.hits + m.state.cursor.misses ≤ steps := by
  obtain ⟨n, last, rfl, -, hsteps, hend⟩ := steps_of_drive h
  have hlookups := lookups_steps hsteps
  rw [eq_of_step_done hend] at hlookups
  simpa [Machine.start, State.startAt, State.lookups] using hlookups

end Machine

end ParserKit
