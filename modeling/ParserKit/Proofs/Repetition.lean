import ParserKit.Proofs.Alternatives
import ParserKit.Proofs.Resuming
import ParserKit.Proofs.Scanning
import ParserKit.Proofs.Values

/-!
The repetitions are one loop. The occurrences of a repetition are runs of its parser, each from
where the one before it ended, and the loop tells from what they deliver and where they end how
the repetition ends. The other combinators that repeat do the same and only deliver something
else: whether the first occurrence is looked at by itself, is the first part of a sequence or
begins the loop makes no difference, and neither do the guards against standing still.
-/

namespace ParserKit

/-- A loop of runs that are given by the place where they begin, their outcome and the place
where they end. -/
inductive Repeats {α : Type} (run : Nat → Outcome α → Nat → Prop) :
    Nat → Outcome (List α) → Nat → Prop where
  /-- A run that fails without consuming ends the loop where that run began. -/
  | refused {i j : Nat} {expected : Expectation} (hrun : run i (.fail expected) j) :
    Repeats run i (.success []) i
  /-- One that fails and has consumed is how the loop ends. -/
  | broken {i j : Nat} {expected : Expectation} (hrun : run i (.failure ⟨expected, true⟩) j) :
    Repeats run i (.failure ⟨expected, true⟩) j
  /-- One that succeeds without moving is the last. -/
  | still {i : Nat} {value : α} (hrun : run i (.success value) i) :
    Repeats run i (.success [value]) i
  | again {i j k : Nat} {value : α} {outcome : Outcome (List α)}
    (hrun : run i (.success value) j) (hmoved : j ≠ i) (hrest : Repeats run j outcome k) :
    Repeats run i (outcome.map (value :: ·)) k

namespace Repeats

variable {α : Type} {run run' : Nat → Outcome α → Nat → Prop} {i j j' : Nat}
  {outcome outcome' : Outcome (List α)}

theorem mono (h : Repeats run i outcome j) (hruns : ∀ i found j, run i found j → run' i found j) :
    Repeats run' i outcome j := by
  induction h with
  | refused hrun => exact .refused (hruns _ _ _ hrun)
  | broken hrun => exact .broken (hruns _ _ _ hrun)
  | still hrun => exact .still (hruns _ _ _ hrun)
  | again hrun hmoved _ ih => exact .again (hruns _ _ _ hrun) hmoved ih

/-- A loop ends in one way if its runs do. -/
theorem unique
    (hruns : ∀ {i found j found' j'}, run i found j → run i found' j' → found = found' ∧ j = j')
    (h : Repeats run i outcome j) (h' : Repeats run i outcome' j') :
    outcome = outcome' ∧ j = j' := by
  induction h generalizing outcome' j' with
  | refused hrun => cases h' <;> grind [Outcome.fail]
  | broken hrun => cases h' <;> grind [Outcome.fail]
  | still hrun => cases h' <;> grind [Outcome.fail]
  | again hrun hmoved _ ih => cases h' <;> grind [Outcome.fail]

end Repeats

/-- What is done to the value of a result is done to the value that it comes to. -/
theorem Result.map_eq_ofExcept_iff {α β : Type} {result : Result α} {f : α → β}
    {e : Except Fault β} :
    (result >>= fun value => .done (f value)) = .ofExcept e ↔
      ∃ e', result = .ofExcept e' ∧ e = e'.map f := by
  constructor
  · intro h
    cases result with
    | timeout => exact absurd h.symm (ofExcept_ne_timeout e)
    | fault cause =>
      refine ⟨.error cause, rfl, ?_⟩
      cases e with
      | ok value => exact absurd h (by simp)
      | error cause' => exact congrArg Except.error (Result.fault.inj h).symm
    | done value =>
      refine ⟨.ok value, rfl, ?_⟩
      cases e with
      | ok value' => exact congrArg Except.ok (Result.done.inj h).symm
      | error cause => exact absurd h (by simp)
  · rintro ⟨e', rfl, rfl⟩
    cases e' <;> rfl

namespace Action

open Result

section Occurrences

variable {α : Type} {x : Action α} {s final : State} {outcome : Outcome (List α)}

/-- What the first occurrence of a repetition can do. -/
theorem repeatFrom_cases {fuel : Nat}
    (h : x.repeatFrom (fuel + 1) [] s = .done (outcome, final)) :
    (∃ expected after, x s = .done (.fail expected, after) ∧
      after.jumpTo s.position = .ok final ∧ outcome = .success []) ∨
    (∃ expected, x s = .done (.failure ⟨expected, true⟩, final) ∧
      outcome = .failure ⟨expected, true⟩) ∨
    (∃ value, x s = .done (.success value, final) ∧ final.position = s.position ∧
      outcome = .success [value]) ∨
    ∃ value after later, x s = .done (.success value, after) ∧ after.position ≠ s.position ∧
      x.repeatFrom fuel [] after = .done (later, final) ∧ outcome = later.map (value :: ·) := by
  obtain ⟨⟨found, after⟩, hfound, hrest⟩ := bind_eq_done h
  cases found with
  | success value =>
    simp only [Turn.next, Turn.ofValue, ofExcept_ok, done_bind] at hrest
    by_cases hmoved : after.position = s.position
    · simp only [if_pos hmoved] at hrest
      obtain ⟨rfl, rfl⟩ := Prod.mk.inj (Result.done.inj hrest)
      exact .inr (.inr (.inl ⟨value, hfound, hmoved, rfl⟩))
    · simp only [if_neg hmoved] at hrest
      rw [← List.nil_append [value], repeatFrom_append] at hrest
      obtain ⟨⟨later, last⟩, hlater, hmap⟩ := bind_eq_done hrest
      obtain ⟨rfl, rfl⟩ := Prod.mk.inj (Result.done.inj hmap)
      exact .inr (.inr (.inr ⟨value, after, later, hfound, hmoved, hlater, rfl⟩))
  | failure cause =>
    obtain ⟨expected, consumed⟩ := cause
    cases consumed with
    | true =>
      obtain ⟨rfl, rfl⟩ := Prod.mk.inj (Result.done.inj hrest)
      exact .inr (.inl ⟨expected, hfound, rfl⟩)
    | false =>
      cases hback : after.jumpTo s.position with
      | error cause => simp [Turn.next, hback] at hrest
      | ok back =>
        simp only [Turn.next, hback] at hrest
        obtain ⟨rfl, rfl⟩ := Prod.mk.inj (Result.done.inj hrest)
        exact .inl ⟨expected, after, hfound, hback, rfl⟩

theorem repeatFrom_consumes {fuel : Nat} {cause : Failure}
    (h : x.repeatFrom fuel [] s = .done (.failure cause, final)) : cause.consumed = true := by
  induction fuel generalizing s with
  | zero => exact absurd h (by simp [repeatFrom])
  | succ fuel ih =>
    rcases repeatFrom_cases h with ⟨_, _, -, -, houtcome⟩ | ⟨expected, -, houtcome⟩ |
      ⟨_, -, -, houtcome⟩ | ⟨value, after, later, -, -, hlater, houtcome⟩
    · exact absurd houtcome (by simp)
    · rw [Outcome.failure.inj houtcome]
    · exact absurd houtcome (by simp)
    · cases later with
      | success values => exact absurd houtcome (by simp)
      | failure cause' =>
        obtain rfl := Outcome.failure.inj houtcome
        exact ih hlater

theorem exists_repeatFrom (h : x.repeated [] s = .done (outcome, final)) :
    ∃ fuel, x.repeatFrom fuel [] s = .done (outcome, final) := by
  obtain ⟨fuel, hfuel⟩ : ∃ fuel, x.repeatFrom fuel [] s = x.repeated [] s :=
    exists_eq_limit (h.trans_ne (by simp))
  exact ⟨fuel, hfuel.trans h⟩

/-- Where a repetition fails it has consumed. -/
theorem repeated_consumes {values : List α} {cause : Failure}
    (h : x.repeated values s = .done (.failure cause, final)) : cause.consumed = true := by
  rw [repeated_values] at h
  obtain ⟨⟨later, last⟩, hlater, hmap⟩ := bind_eq_done h
  obtain ⟨houtcome, rfl⟩ := Prod.mk.inj (Result.done.inj hmap)
  cases later with
  | success values => exact absurd houtcome (by simp)
  | failure cause' =>
    obtain rfl := Outcome.failure.inj houtcome
    obtain ⟨fuel, hfuel⟩ := exists_repeatFrom hlater
    exact repeatFrom_consumes hfuel

/-- A repetition requires an occurrence, or else it is empty. -/
theorem repeated_eq_choice (x : Action α) :
    x.repeated [] = (x.repeatFrom1 x.repeated).choice (deliver []) := by
  funext s
  cases hx : x s with
  | fault cause => simp [repeated_eq x [] s, choice, repeatFrom1, hx]
  | timeout => simp [repeated_eq x [] s, choice, repeatFrom1, hx]
  | done result =>
    obtain ⟨found, after⟩ := result
    cases found with
    | success value =>
      by_cases hmoved : after.position = s.position
      · have hfirst := repeatFrom1_still x.repeated hx hmoved
        rw [repeated_still hx hmoved, choice_of_not_refuses, hfirst]
        · rfl
        · rintro ⟨expected, final, hrefuses⟩
          exact absurd (hfirst.symm.trans hrefuses) (by simp [Outcome.fail])
      · have hfirst := repeatFrom1_again x.repeated hx hmoved
        rw [repeated_again hx hmoved, choice_of_not_refuses, hfirst]
        rintro ⟨expected, final, hrefuses⟩
        exact absurd (repeated_consumes (hfirst.symm.trans hrefuses)) (by simp)
    | failure cause =>
      have hfirst := repeatFrom1_failure x.repeated hx
      obtain ⟨expected, consumed⟩ := cause
      cases consumed with
      | true =>
        rw [repeated_broken hx, choice_of_not_refuses, hfirst]
        rintro ⟨expected', final, hrefuses⟩
        exact absurd (hfirst.symm.trans hrefuses) (by simp [Outcome.fail])
      | false =>
        rw [choice_of_refuses hfirst, repeated_eq x [] s, hx]
        simp only [done_bind, Turn.next]
        cases after.jumpTo s.position with
        | error cause => rfl
        | ok back => rfl

end Occurrences

section Resuming

variable {t : Ty} {input : Array Char} {x : Action t.Elem}

/-- What the action does on its own from a place, where nothing is remembered. -/
def Alone (input : Array Char) (x : Action t.Elem) (i : Nat) (found : Outcome t.Elem) (j : Nat) :
    Prop :=
  (x (.startAt input false i)).seen = .done (found, j)

theorem Resumes.alone_iff (h : x.Resumes input) {s : State} (hs : s.Resumable input)
    {found : Outcome t.Elem} {j : Nat} :
    x.Alone input s.position found j ↔
      ∃ after, x s = .done (found, after) ∧ after.position = j := by
  rw [Alone, h.seen_eq _ s (.startAt hs.kept.within) hs rfl, Result.seen_eq_done_iff]

theorem Resumes.repeats_of_repeatFrom (h : x.Resumes input) {fuel : Nat} {s final : State}
    (hs : s.Resumable input) {outcome : Outcome (List t.Elem)}
    (hdone : x.repeatFrom fuel [] s = .done (outcome, final)) :
    Repeats (x.Alone input) s.position outcome final.position := by
  induction fuel generalizing s outcome with
  | zero => exact absurd hdone (by simp [repeatFrom])
  | succ fuel ih =>
    have halone : ∀ found after, x s = .done (found, after) →
        x.Alone input s.position found after.position :=
      fun found after hfound => (h.alone_iff hs).2 ⟨after, hfound, rfl⟩
    rcases repeatFrom_cases hdone with ⟨expected, after, hfound, hback, rfl⟩ |
      ⟨expected, hfound, rfl⟩ | ⟨value, hfound, hstill, rfl⟩ |
      ⟨value, after, later, hfound, hmoved, hlater, rfl⟩
    · have hposition : final.position = s.position := by
        rw [State.jumpTo_eq] at hback
        split at hback
        · rw [← Except.ok.inj hback, State.position_movedTo]
        · exact absurd hback (by simp)
      rw [hposition]
      exact .refused (halone _ _ hfound)
    · exact .broken (halone _ _ hfound)
    · have hrun := halone _ _ hfound
      rw [hstill] at hrun ⊢
      exact .still hrun
    · exact .again (halone _ _ hfound) hmoved (ih (h.resumable s hs _ hfound) hlater)

theorem Resumes.repeated_of_repeats (h : x.Resumes input) {i j : Nat}
    {outcome : Outcome (List t.Elem)} (hrepeats : Repeats (x.Alone input) i outcome j) {s : State}
    (hs : s.Resumable input) (hi : s.position = i) :
    ∃ final, x.repeated [] s = .done (outcome, final) ∧ final.position = j := by
  induction hrepeats generalizing s with
  | @refused i j expected hrun =>
    subst hi
    obtain ⟨after, hfound, -⟩ := (h.alone_iff hs).1 hrun
    have hinput := (h.resumable s hs _ hfound).kept.input_eq
    have hback : after.jumpTo s.position = .ok (after.movedTo s.position) := by
      rw [State.jumpTo_eq, if_pos (hinput ▸ hs.kept.within)]
    exact ⟨_, repeated_stop hfound hback [], rfl⟩
  | broken hrun =>
    subst hi
    obtain ⟨after, hfound, hafter⟩ := (h.alone_iff hs).1 hrun
    exact ⟨after, repeated_broken hfound [], hafter⟩
  | still hrun =>
    subst hi
    obtain ⟨after, hfound, hafter⟩ := (h.alone_iff hs).1 hrun
    exact ⟨after, repeated_still hfound hafter [], hafter⟩
  | @again i j k value outcome hrun hmoved _ ih =>
    subst hi
    obtain ⟨after, hfound, rfl⟩ := (h.alone_iff hs).1 hrun
    obtain ⟨final, hlater, hfinal⟩ := ih (h.resumable s hs _ hfound) rfl
    refine ⟨final, ?_, hfinal⟩
    rw [repeated_again hfound hmoved, repeated_values]
    simp only [mapped, hlater]
    rfl

/-- A repetition is the loop of what its occurrences do on their own. -/
theorem Resumes.repeated_iff (h : x.Resumes input) {s : State} (hs : s.Resumable input)
    {outcome : Outcome (List t.Elem)} {j : Nat} :
    (∃ final, x.repeated [] s = .done (outcome, final) ∧ final.position = j) ↔
      Repeats (x.Alone input) s.position outcome j := by
  constructor
  · rintro ⟨final, hdone, rfl⟩
    obtain ⟨fuel, hfuel⟩ := exists_repeatFrom hdone
    exact h.repeats_of_repeatFrom hs hfuel
  · exact fun hrepeats => h.repeated_of_repeats hrepeats hs rfl

/-- What follows an action that can be taken up finds nothing remembered either. -/
theorem Resumes.chain_remembered {b : Ty} (h : x.Resumes input) {s : State}
    (hs : s.Resumable input) (key : Key) (next : Action b.Elem) :
    x.chain (fun _ => next.remembered key) s = x.chain (fun _ => next) s := by
  simp only [chain]
  cases hx : x s with
  | fault cause => rfl
  | timeout => rfl
  | done result =>
    obtain ⟨found, after⟩ := result
    cases found with
    | failure cause => rfl
    | success value =>
      have hplain := (h.resumable s hs _ hx).plain
      simp only [done_bind, remembered_of_plain hplain]

/-- An occurrence and then a repetition, whose value is given up, end like a repetition that
requires an occurrence. After an occurrence that did not move, the repetition begins with the
same one and stands still as well. -/
theorem Resumes.seen_chain_repeated (h : x.Resumes input) {s : State} (hs : s.Resumable input) :
    Result.seen (t := .unit) (x.chain (fun _ => (x.repeated []).mapped fun _ => ()) s) =
      Result.seen (t := .unit) ((x.repeatFrom1 x.repeated).mapped (fun _ => ()) s) := by
  cases hx : x s with
  | fault cause => simp only [chain, mapped, repeatFrom1, hx, fault_bind]
  | timeout => simp only [chain, mapped, repeatFrom1, hx, timeout_bind]
  | done result =>
    obtain ⟨found, after⟩ := result
    cases found with
    | failure cause =>
      simp only [mapped, repeatFrom1_failure _ hx, chain, hx]
      rfl
    | success value =>
      by_cases hmoved : after.position = s.position
      · have hagain : x.Alone input after.position (.success value) after.position := by
          rw [hmoved, h.alone_iff hs]
          exact ⟨after, hx, hmoved⟩
        obtain ⟨final, hfinal, hposition⟩ := (h.alone_iff (h.resumable s hs _ hx)).1 hagain
        have hlater := repeated_still hfinal hposition []
        simp only [mapped, repeatFrom1_still _ hx hmoved, chain, hx, done_bind, hlater]
        simp [Result.seen, State.settle, hposition, Outcome.consumedIf]
      · simp only [mapped, repeatFrom1_again _ hx hmoved, repeated_values x [value], chain, hx,
          done_bind]
        cases hlater : x.repeated [] after with
        | fault cause => rfl
        | timeout => rfl
        | done result =>
          obtain ⟨later, final⟩ := result
          cases later with
          | success values => rfl
          | failure cause =>
            obtain ⟨expected, consumed⟩ := cause
            obtain rfl : consumed = true := repeated_consumes hlater
            rfl

end Resuming

end Action

namespace Parser

variable {a b t : Ty} {input : Array Char} {memoize : Bool} {start : Nat}

theorem meaning_many_root (p : Parser t) :
    (many p).meaning Scope.root = (p.meaning Scope.root).repeated [] := by
  rw [meaning_many, p.meaning_holding rfl]

theorem meaning_many1_root (p : Parser t) :
    (many1 p).meaning Scope.root =
      (p.meaning Scope.root).repeatFrom1 (p.meaning Scope.root).repeated := by
  rw [meaning_many1, p.meaning_holding rfl]

/-- In every scope, a repetition is a choice between one that requires an occurrence and the empty
list. -/
theorem meaning_many_eq_choice (scope : Scope) (p : Parser t) :
    (many p).meaning scope =
      (choice (many1 p) (ret (t := .list t) [])).meaning scope := by
  rw [meaning_choice, meaning_many, meaning_ret]
  show _ = ((many1 p).meaning scope).choice _
  rw [meaning_many1, Action.repeated_eq_choice]

/-- Runs of the first parser show what those of the second one show, with the value changed. -/
def ShowsMapped (p : Parser b) (q : Parser a) (f : a.Elem → b.Elem) (input : Array Char)
    (memoize : Bool) (start : Nat) : Prop :=
  ∀ seen, p.ShowsFrom input memoize start seen ↔
    ∃ seen', q.ShowsFrom input memoize start seen' ∧
      seen = seen'.map fun (outcome, stop) => (outcome.map f, stop)

theorem ShowsMapped.of_seen {p : Parser b} {q : Parser a} {f : a.Elem → b.Elem}
    (h : (p.meaning Scope.root (.startAt input memoize start)).seen =
      ((q.meaning Scope.root).mapped f (.startAt input memoize start)).seen) :
    p.ShowsMapped q f input memoize start := by
  intro seen
  simp only [showsFrom_iff, h]
  have hmapped : ((q.meaning Scope.root).mapped f (.startAt input memoize start)).seen = (do
      let (outcome, stop) ← (q.meaning Scope.root (.startAt input memoize start)).seen
      .done (outcome.map f, stop)) := by
    simp only [Action.mapped]
    cases q.meaning Scope.root (.startAt input memoize start) <;> rfl
  rw [hmapped]
  exact Result.map_eq_ofExcept_iff

theorem map_showsMapped (q : Parser a) (f : a.Elem → b.Elem) :
    (q.map f).ShowsMapped q f input memoize start :=
  .of_seen (by rw [meaning_map])

/-- Where a run that remembers nothing ends, one that remembers shows the same. -/
theorem WellLabelled.showsFrom_plain_iff {p : Parser t} (hp : p.WellLabelled)
    (hends : memoize = true → ∃ found, p.ShowsFrom input false start (.ok found))
    {seen : Except Fault (Outcome t.Elem × Nat)} :
    p.ShowsFrom input memoize start seen ↔ p.ShowsFrom input false start seen := by
  cases memoize with
  | false => rfl
  | true =>
    obtain ⟨found, hfound⟩ := hends rfl
    have hkept : p.meaning Scope.root (.startAt input false start) ≠ .fault .ruleDropped := by
      intro hdropped
      rw [Parser.showsFrom_iff, hdropped] at hfound
      exact absurd hfound (by simp [Result.seen])
    rw [Parser.showsFrom_iff, Parser.showsFrom_iff, hp.seen_eq_plain hkept]

theorem ShowsMapped.remembered {p : Parser b} {q : Parser a} {f : a.Elem → b.Elem}
    (h : p.ShowsMapped q f input false start) (hp : p.WellLabelled) (hq : q.WellLabelled)
    (hends : memoize = true → ∃ found, q.ShowsFrom input false start (.ok found)) :
    p.ShowsMapped q f input memoize start := by
  have hends' : memoize = true → ∃ found, p.ShowsFrom input false start (.ok found) := by
    intro hmemoize
    obtain ⟨found, hfound⟩ := hends hmemoize
    exact ⟨_, (h _).2 ⟨.ok found, hfound, rfl⟩⟩
  intro seen
  simp only [hp.showsFrom_plain_iff hends', hq.showsFrom_plain_iff hends]
  exact h seen

theorem exists_many1_showsFrom {p : Parser t}
    (h : ∃ found, (many p).ShowsFrom input memoize start (.ok found)) :
    ∃ found, (many1 p).ShowsFrom input memoize start (.ok found) := by
  obtain ⟨⟨outcome, stop⟩, h⟩ := h
  rw [showsFrom_iff, meaning_many_eq_choice, meaning_choice] at h
  obtain ⟨final, hdone, -⟩ := Result.seen_eq_done_iff.1 h
  obtain ⟨⟨outcome', after⟩, hfirst, -⟩ := Result.bind_eq_done hdone
  exact ⟨(outcome', after.position),
    showsFrom_iff.2 (Result.seen_eq_done_iff.2 ⟨after, hfirst, rfl⟩)⟩

section Loop

variable {p : Parser t}

/-- Where nothing is remembered, a repetition is the loop of the runs that its parser makes on its
own. -/
theorem WellLabelled.many_iff_repeats_plain (hp : p.WellLabelled) (hstart : start ≤ input.size)
    {outcome : Outcome (List t.Elem)} {stop : Nat} :
    (many p).ShowsFrom input false start (.ok (outcome, stop)) ↔
      Repeats (fun i found j => p.ShowsFrom input false i (.ok (found, j))) start outcome stop := by
  have halone : (fun i found j => p.ShowsFrom input false i (.ok (found, j))) =
      (p.meaning Scope.root).Alone input := by
    funext i found j
    exact propext Parser.showsFrom_iff
  rw [halone, Parser.showsFrom_iff, meaning_many_root]
  exact Result.seen_eq_done_iff.trans ((hp.resumes input).repeated_iff (.startAt hstart))

/-- So is one that remembers, if the repetition ends. -/
theorem WellLabelled.many_iff_repeats (hp : p.WellLabelled) (hstart : start ≤ input.size)
    (hends : memoize = true → ∃ found, (many p).ShowsFrom input false start (.ok found))
    {outcome : Outcome (List t.Elem)} {stop : Nat} :
    (many p).ShowsFrom input memoize start (.ok (outcome, stop)) ↔
      Repeats (fun i found j => p.ShowsFrom input memoize i (.ok (found, j)))
        start outcome stop := by
  cases memoize with
  | false => exact hp.many_iff_repeats_plain hstart
  | true =>
    -- the runs of the loop end, and so they show the same when they remember
    have hloop : ∀ {outcome stop}, (many p).ShowsFrom input false start (.ok (outcome, stop)) →
        Repeats (fun i found j => p.ShowsFrom input true i (.ok (found, j)))
          start outcome stop := by
      intro outcome stop hplain
      refine ((hp.many_iff_repeats_plain hstart).1 hplain).mono fun i found j hrun => ?_
      exact (hp.showsFrom_plain_iff fun _ => ⟨_, hrun⟩).2 hrun
    have hmany : (many p).WellLabelled := hp
    rw [hmany.showsFrom_plain_iff hends]
    refine ⟨hloop, fun hrepeats => ?_⟩
    obtain ⟨⟨outcome', stop'⟩, hplain⟩ := hends rfl
    obtain ⟨rfl, rfl⟩ := hrepeats.unique
      (fun h h' => Prod.mk.inj (Except.ok.inj (h.unique h'))) (hloop hplain)
    exact hplain

end Loop

end Parser

namespace Build

variable {t : Ty} {level : Nat}

theorem skipMany1_made (p : Parser t) :
    Yields level (skipMany1 p) fun _ q => ∃ label label',
      q = .memo label (p.andThen (.memo label' ((Parser.many p).map (b := .unit) fun _ => ()))) :=
  (skipMany_made p).bind fun _ => memo_meets fun label => by
    rintro ⟨label', rfl⟩
    exact ⟨label, label', rfl⟩

theorem assemble_skipMany (build : Build (Parser t)) :
    ∃ label, (do skipMany (← build)).assemble 0 =
      .memo label ((Parser.many (build.assemble 0)).map (b := .unit) fun _ => ()) := by
  obtain ⟨-, hmade⟩ := (skipMany_made (build.assemble 0)).assembled_bind
  exact hmade

theorem assemble_skipMany1 (build : Build (Parser t)) :
    ∃ label label', (do skipMany1 (← build)).assemble 0 =
      .memo label ((build.assemble 0).andThen
        (.memo label' ((Parser.many (build.assemble 0)).map (b := .unit) fun _ => ()))) := by
  obtain ⟨-, hmade⟩ := (skipMany1_made (build.assemble 0)).assembled_bind
  exact hmade

end Build

namespace Parser

variable {t : Ty} {input : Array Char} {memoize : Bool} {start : Nat} {build : Build (Parser t)}

theorem meaning_memo_startAt (label : Label) (p : Parser t) (input : Array Char) (start : Nat) :
    (Parser.memo label p).meaning Scope.root (.startAt input false start) =
      p.meaning Scope.root (.startAt input false start) := by
  rw [meaning_memo]
  rfl

theorem skipMany_showsMapped (hbuild : Build.Labelled 0 build)
    (hends : memoize = true →
      ∃ found, (many (build.assemble 0)).ShowsFrom input false start (.ok found)) :
    ((do Build.skipMany (← build)).assemble 0).ShowsMapped (many (build.assemble 0))
      (fun _ => ()) input memoize start := by
  have hlabelled : ((do Build.skipMany (← build)).assemble 0).WellLabelled :=
    Build.assemble_wellLabelled (hbuild.bind fun p => Build.skipMany_yields p)
  have hmany : (many (build.assemble 0)).WellLabelled := Build.assemble_wellLabelled hbuild
  refine ShowsMapped.remembered ?_ hlabelled hmany hends
  obtain ⟨label, hmade⟩ := Build.assemble_skipMany build
  refine .of_seen ?_
  rw [hmade, meaning_memo_startAt, meaning_map]

theorem skipMany1_showsMapped (hbuild : Build.Labelled 0 build) (hstart : start ≤ input.size)
    (hends : memoize = true →
      ∃ found, (many (build.assemble 0)).ShowsFrom input false start (.ok found)) :
    ((do Build.skipMany1 (← build)).assemble 0).ShowsMapped (many1 (build.assemble 0))
      (fun _ => ()) input memoize start := by
  have hlabelled : ((do Build.skipMany1 (← build)).assemble 0).WellLabelled :=
    Build.assemble_wellLabelled (hbuild.bind fun p => Build.skipMany1_yields p)
  have hp : (build.assemble 0).WellLabelled := Build.assemble_wellLabelled hbuild
  have hmany1 : (many1 (build.assemble 0)).WellLabelled := hp
  refine ShowsMapped.remembered ?_ hlabelled hmany1 fun hmemoize =>
    exists_many1_showsFrom (hends hmemoize)
  obtain ⟨label, label', hmade⟩ := Build.assemble_skipMany1 build
  have hresumes := hp.resumes input
  refine .of_seen ?_
  rw [hmade, meaning_memo_startAt, andThen, meaning_bind, meaning_holding _ rfl, meaning_memo,
    hresumes.chain_remembered (.startAt hstart), meaning_map, meaning_many_root, meaning_many1_root]
  exact hresumes.seen_chain_repeated (.startAt hstart)

theorem presentValues_eq_reduceOption (values : List (Option t.Elem)) :
    presentValues values = values.reduceOption :=
  rfl

theorem manyPresent_showsMapped (p : Parser (.option t)) :
    (manyPresent p).ShowsMapped (many p) List.reduceOption input memoize start := by
  rw [← funext presentValues_eq_reduceOption]
  exact map_showsMapped (b := .list t) (many p) presentValues

theorem many1Present_showsMapped (p : Parser (.option t)) :
    (many1Present p).ShowsMapped (many1 p) List.reduceOption input memoize start := by
  rw [← funext presentValues_eq_reduceOption]
  exact map_showsMapped (b := .list t) (many1 p) presentValues

/-- The repetitions agree with each other and with their loop. A repetition that ends, ends as the
loop of the runs that its parser makes on its own tells: after runs that succeed and move, the
first one that does not ends it, where that one began if it fails without consuming, with its
value as the last if it succeeds, and with its failure otherwise. Giving the values up, with or
without an occurrence that is required, changes nothing else. Nor does leaving out absent values;
and a repetition is the choice between one that requires an occurrence and the empty list, down to
the final state. Whether a repetition ends is asked of a run that remembers nothing, and only one
that remembers needs to ask. -/
theorem repetitions_agree (build : Build (Parser t)) (hbuild : Build.Labelled 0 build)
    (input : Array Char) (memoize : Bool) (start : Nat) (hstart : start ≤ input.size) :
    ((memoize = true →
        ∃ found, (many (build.assemble 0)).ShowsFrom input false start (.ok found)) →
      (∀ outcome stop, (many (build.assemble 0)).ShowsFrom input memoize start
          (.ok (outcome, stop)) ↔
        Repeats (fun i found j => (build.assemble 0).ShowsFrom input memoize i (.ok (found, j)))
          start outcome stop) ∧
      ((do Build.skipMany (← build)).assemble 0).ShowsMapped (many (build.assemble 0))
        (fun _ => ()) input memoize start ∧
      ((do Build.skipMany1 (← build)).assemble 0).ShowsMapped (many1 (build.assemble 0))
        (fun _ => ()) input memoize start) ∧
    (∀ e, (many (build.assemble 0)).Ends (.startAt input memoize start) e ↔
      (choice (many1 (build.assemble 0)) (ret (t := .list t) [])).Ends
        (.startAt input memoize start) e) ∧
    ∀ (u : Ty) (q : Parser (.option u)),
      (manyPresent q).ShowsMapped (many q) List.reduceOption input memoize start ∧
      (many1Present q).ShowsMapped (many1 q) List.reduceOption input memoize start := by
  have hp : (build.assemble 0).WellLabelled := Build.assemble_wellLabelled hbuild
  refine ⟨fun hends => ⟨fun outcome stop => hp.many_iff_repeats hstart hends,
    skipMany_showsMapped hbuild hends, skipMany1_showsMapped hbuild hstart hends⟩, fun e => ?_,
    fun u q => ⟨manyPresent_showsMapped q, many1Present_showsMapped q⟩⟩
  rw [ends_iff, ends_iff, meaning_many_eq_choice]

/-- An `a`, which is kept, or a `b`, which is not. -/
def keptOrNot : Parser (.option .char) :=
  .choice (map (b := .option .char) (.atom (.char 'a')) some)
    (map (b := .option .char) (.atom (.char 'b')) fun _ => none)

/-- Two occurrences, and a third one that fails and has consumed; and characters on the way to
it of which some are kept. -/
theorem repetitions_agree_broken :
    Build.Labelled 0 (Build.string "ab") ∧ 0 ≤ "ababac".toList.toArray.size ∧
      (∃ found, (many ((Build.string "ab").assemble 0)).ShowsFrom "ababac".toList.toArray false 0
        (.ok found)) ∧
      ((do Build.skipMany1 (← Build.string "ab")).assemble 0).ShowsFrom "ababac".toList.toArray
        true 0 (.ok (.failure ⟨.positioned "ab" 4, true⟩, 5)) ∧
      (manyPresent keptOrNot).ShowsFrom "ababac".toList.toArray true 0
        (.ok (.success ['a', 'a', 'a'], 5)) := by
  have hends : ∃ found, (many ((Build.string "ab").assemble 0)).ShowsFrom "ababac".toList.toArray
      false 0 (.ok found) :=
    ⟨_, showsFrom_ok_iff.2 ⟨_, ⟨40, _, _, rfl, rfl⟩, rfl⟩⟩
  have hplain : (many1 ((Build.string "ab").assemble 0)).ShowsFrom "ababac".toList.toArray false 0
      (.ok (.failure ⟨.positioned "ab" 4, true⟩, 5)) :=
    showsFrom_ok_iff.2 ⟨_, ⟨40, _, _, rfl, rfl⟩, rfl⟩
  have hlabelled : (many1 ((Build.string "ab").assemble 0)).WellLabelled :=
    Build.assemble_wellLabelled (Build.string_labelled "ab")
  have hmany1 : (many1 ((Build.string "ab").assemble 0)).ShowsFrom "ababac".toList.toArray true 0
      (.ok (.failure ⟨.positioned "ab" 4, true⟩, 5)) :=
    (hlabelled.showsFrom_plain_iff fun _ => ⟨_, hplain⟩).2 hplain
  have hkept : (many keptOrNot).ShowsFrom "ababac".toList.toArray true 0
      (.ok (.success [some 'a', none, some 'a', none, some 'a'], 5)) :=
    showsFrom_ok_iff.2 ⟨_, ⟨60, _, _, rfl, rfl⟩, rfl⟩
  obtain ⟨hagree, -, hpresent⟩ := repetitions_agree (Build.string "ab")
    (Build.string_labelled "ab") "ababac".toList.toArray true 0 (Nat.zero_le _)
  obtain ⟨-, -, hskip⟩ := hagree fun _ => hends
  exact ⟨Build.string_labelled "ab", Nat.zero_le _, hends, (hskip _).2 ⟨_, hmany1, rfl⟩,
    ((hpresent .char keptOrNot).1 _).2 ⟨_, hkept, rfl⟩⟩

end Parser

end ParserKit
