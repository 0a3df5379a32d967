import ParserKit.Proofs.Associativity
import ParserKit.Proofs.Places

/-!
A choice among any number of alternatives. It is built as a fold of binary choices, each
with a start of its own to return to and a merge of its own, but it acts as a single one:
the alternatives run in order from the same start up to the first that does not refuse, and
its outcome is the outcome of the whole. A failure carries what all the alternatives before
it expected, in one flat set and in the order of the attempts, however the choices nest.
-/

namespace ParserKit

open Result

namespace Expectation

/-- What alternatives expected, as one expectation: the only one as it is, and several as a
set, of which those that are sets become members one by one. -/
def alternatives : List Expectation → Expectation
  | [] => .nothing
  | [expected] => expected
  | tried => .oneOf (tried.flatMap members)

theorem merge_alternatives (expected : Expectation) {tried : List Expectation} (h : tried ≠ []) :
    expected.merge (alternatives tried) = alternatives (expected :: tried) := by
  cases tried with
  | nil => exact absurd rfl h
  | cons first rest =>
    cases rest with
    | nil => simp [merge, alternatives]
    | cons second rest => simp [merge, alternatives, members]

theorem merge_assoc (first second third : Expectation) :
    (first.merge second).merge third = first.merge (second.merge third) := by
  simp [merge, members]

end Expectation

namespace Outcome

variable {α : Type}

/-- The outcome of an alternative behind others that refused. -/
def behind (refused : List Expectation) : Outcome α → Outcome α
  | .success value => .success value
  | .failure cause =>
    .failure { cause with expected := .alternatives (refused ++ [cause.expected]) }

@[simp] theorem behind_nil (outcome : Outcome α) : outcome.behind [] = outcome := by
  cases outcome <;> rfl

theorem join_behind (expected : Expectation) (refused : List Expectation) (outcome : Outcome α) :
    (outcome.behind refused).join expected = outcome.behind (expected :: refused) := by
  cases outcome with
  | success value => rfl
  | failure cause =>
    have hmerge := expected.merge_alternatives (List.append_ne_nil_of_right_ne_nil refused
      (List.cons_ne_nil cause.expected []))
    simp only [behind, join, hmerge, List.cons_append]

theorem join_join (first second : Expectation) (outcome : Outcome α) :
    (outcome.join second).join first = outcome.join (first.merge second) := by
  cases outcome with
  | success value => rfl
  | failure cause => simp only [join, Expectation.merge_assoc]

end Outcome

namespace Result

variable {α : Type}

/-- A result with its outcome treated. -/
def treated (f : Outcome α → Outcome α) (result : Result (Outcome α × State)) :
    Result (Outcome α × State) := do
  let (outcome, after) ← result
  .done (f outcome, after)

theorem treated_treated (f g : Outcome α → Outcome α) (result : Result (Outcome α × State)) :
    (result.treated f).treated g = result.treated fun outcome => g (f outcome) := by
  cases result <;> rfl

theorem treated_behind_nil (result : Result (Outcome α × State)) :
    result.treated (Outcome.behind []) = result := by
  unfold treated
  simp only [Outcome.behind_nil]
  exact bind_done result

end Result

namespace Action

variable {α : Type} {first : Action α} {s : State}

/-- An action refuses in a state: it fails there without consuming. -/
def Refuses (first : Action α) (s : State) : Prop :=
  ∃ expected after, first s = .done (.fail expected, after)

theorem choice_of_not_refuses (h : ¬ first.Refuses s) (second : Action α) :
    first.choice second s = first s := by
  simp only [choice]
  cases hfirst : first s with
  | fault cause => rfl
  | timeout => rfl
  | done result =>
    obtain ⟨outcome, after⟩ := result
    cases outcome with
    | success value => rfl
    | failure cause =>
      obtain ⟨expected, consumed⟩ := cause
      cases consumed with
      | true => rfl
      | false => exact absurd ⟨expected, after, hfirst⟩ h

theorem choice_of_refuses {expected : Expectation} {after : State}
    (h : first s = .done (.fail expected, after)) (second : Action α) :
    first.choice second s =
      (Result.ofExcept (after.jumpTo s.position) >>= second).treated (Outcome.join expected) := by
  simp only [choice, h, Outcome.fail, done_bind, Bool.false_eq_true, if_false]
  cases after.jumpTo s.position <;> rfl

theorem choice_of_refuses_within {expected : Expectation} {after : State}
    (h : first s = .done (.fail expected, after)) (hs : s.position ≤ after.cursor.input.size)
    (second : Action α) :
    first.choice second s =
      (second (after.movedTo s.position)).treated (Outcome.join expected) := by
  rw [choice_of_refuses h, State.jumpTo_eq, if_pos hs]
  rfl

theorem choice_of_refuses_outside {expected : Expectation} {after : State}
    (h : first s = .done (.fail expected, after)) (hs : ¬ s.position ≤ after.cursor.input.size)
    (second : Action α) :
    first.choice second s = .fault (.jumpPastEnd s.position after.cursor.input.size) := by
  rw [choice_of_refuses h, State.jumpTo_eq, if_neg hs]
  rfl

/-- What an earlier alternative expected does not make a refusal. -/
theorem refuses_of_treated_join {expected expected' : Expectation} {after : State}
    (h : (first s).treated (Outcome.join expected) = .done (.fail expected', after)) :
    first.Refuses s := by
  obtain ⟨⟨outcome, final⟩, hfirst, hjoin⟩ := bind_eq_done h
  obtain ⟨houtcome, rfl⟩ := Prod.mk.inj (Result.done.inj hjoin)
  cases outcome with
  | success value => exact absurd houtcome (by simp [Outcome.join, Outcome.fail])
  | failure cause =>
    have hconsumed : cause.consumed = false :=
      congrArg Failure.consumed (Outcome.failure.inj houtcome)
    exact ⟨cause.expected, final, by rw [hfirst, Outcome.fail, ← hconsumed]⟩

/-- Three alternatives are the same however they are grouped: each begins where the first
one began, and what the refused ones expected ends up in one set. -/
theorem choice_assoc (x y z : Action α) : (x.choice y).choice z = x.choice (y.choice z) := by
  funext s
  by_cases hx : x.Refuses s
  · obtain ⟨expected, after, hx⟩ := hx
    by_cases hs : s.position ≤ after.cursor.input.size
    · have hxy := choice_of_refuses_within hx hs y
      rw [choice_of_refuses_within hx hs]
      by_cases hy : y.Refuses (after.movedTo s.position)
      · obtain ⟨expected', late, hy⟩ := hy
        rw [hy] at hxy
        rw [choice_of_refuses hxy, choice_of_refuses hy, treated_treated]
        simp only [Outcome.join_join]
        rfl
      · have hrefuses : ¬ (x.choice y).Refuses s := by
          intro hrefuses
          obtain ⟨expected', final, hfail⟩ := hrefuses
          exact hy (refuses_of_treated_join (hxy.symm.trans hfail))
        rw [choice_of_not_refuses hrefuses, choice_of_not_refuses hy, hxy]
    · have hxy := choice_of_refuses_outside hx hs y
      have hrefuses : ¬ (x.choice y).Refuses s := by
        unfold Refuses
        simp [hxy]
      rw [choice_of_not_refuses hrefuses, hxy, choice_of_refuses_outside hx hs]
  · have hxy := choice_of_not_refuses hx y
    have hrefuses : ¬ (x.choice y).Refuses s := by
      unfold Refuses
      rw [hxy]
      exact hx
    rw [choice_of_not_refuses hx, choice_of_not_refuses hrefuses, hxy]

end Action

namespace Scope

/-- Only which labels are held counts. -/
theorem holding_alike_of_mem_iff (scope : Scope) {labels labels' : List Label}
    (h : ∀ label, label ∈ labels ↔ label ∈ labels') :
    (scope.holding labels).Alike (scope.holding labels') := by
  refine ⟨rfl, rfl, fun key => ?_⟩
  simp only [mem_held_holding, h]

end Scope

namespace Parser

variable {t : Ty} {scope : Scope} {s : State} {input : Array Char}

/-- The rules that two parsers keep in use are the same. -/
def OwnsAs (p q : Parser t) : Prop :=
  ∀ label, label ∈ p.owned ↔ label ∈ q.owned

theorem meaning_holding_of_ownsAs (p : Parser t) {q r : Parser t} (h : q.OwnsAs r)
    (scope : Scope) : p.meaning (scope.holding q.owned) = p.meaning (scope.holding r.owned) :=
  p.meaning_alike (scope.holding_alike_of_mem_iff h)

theorem mem_owned_choice {p q : Parser t} {label : Label} :
    label ∈ (choice p q).owned ↔ label ∈ p.owned ∨ label ∈ q.owned :=
  Label.mem_join

theorem choiceAll_cons (p : Parser t) {rest : List (Parser t)} (h : rest ≠ []) :
    choiceAll (p :: rest) = choice p (choiceAll rest) := by
  cases rest with
  | nil => exact absurd rfl h
  | cons q rest => rfl

theorem mem_owned_choiceAll {items : List (Parser t)} {label : Label} :
    label ∈ (choiceAll items).owned ↔ ∃ p ∈ items, label ∈ p.owned := by
  induction items with
  | nil =>
    have hnone : (choiceAll ([] : List (Parser t))).owned = [] := rfl
    simp [hnone]
  | cons p rest ih =>
    cases rest with
    | nil => simp [choiceAll]
    | cons q rest =>
      rw [choiceAll_cons p (List.cons_ne_nil q rest), mem_owned_choice, ih]
      simp only [List.mem_cons, exists_eq_or_imp]

/-- A run in any scope stays inside the input. -/
theorem meaning_keeps_input (scope : Scope) (p : Parser t) :
    (p.meaning scope).Keeps (fun _ => True) input := by
  intro s hs result hresult
  obtain ⟨fuel, hfuel⟩ := exists_eval_eq_meaning (hresult.trans_ne (by simp))
  have hscope : scope.Remembers fun _ => True :=
    fun rule _ => remembers_of_forall (fun _ => trivial) rule.body
  have hp : p.Remembers fun _ => True := remembers_of_forall (fun _ => trivial) p
  exact eval_keeps (fun _ _ _ => trivial) fuel scope p hscope hp s hs result (hfuel.trans hresult)

/-- The meaning of an alternative while others wait behind it. -/
noncomputable def before (p : Parser t) (back : List (Parser t)) (scope : Scope) :
    Action t.Elem :=
  p.meaning (scope.holding (choiceAll back).owned)

/-- Alternatives that refuse one after the other, all from where the first began, while those
of `back` wait. What they expected is collected, and the state is the one that the next
alternative finds. -/
inductive RefuseAll (scope : Scope) (back : List (Parser t)) :
    List (Parser t) → State → List Expectation → State → Prop
  | nil {s : State} : RefuseAll scope back [] s [] s
  | cons {p : Parser t} {rest : List (Parser t)} {s middle final : State}
      {expected : Expectation} {refused : List Expectation}
      (head : p.before (rest ++ back) scope s = .done (.fail expected, middle))
      (tail : RefuseAll scope back rest (middle.movedTo s.position) refused final) :
      RefuseAll scope back (p :: rest) s (expected :: refused) final

/-- The alternative at which a choice is decided: those in front of it refuse, and it does not
or is the last one. -/
structure Decided (scope : Scope) (front : List (Parser t)) (p : Parser t)
    (back : List (Parser t)) (s : State) (refused : List Expectation) (middle : State) : Prop where
  refuseAll : RefuseAll scope (p :: back) front s refused middle
  decides : back = [] ∨ ¬ (p.before back scope).Refuses middle

theorem meaning_choiceAll_cons (p : Parser t) {rest : List (Parser t)} (h : rest ≠ [])
    (scope : Scope) :
    (choiceAll (p :: rest)).meaning scope =
      (p.before rest scope).choice ((choiceAll rest).meaning scope) := by
  rw [choiceAll_cons p h, meaning_choice]
  rfl

theorem meaning_choiceAll_of_decides {p : Parser t} {back : List (Parser t)}
    (h : back = [] ∨ ¬ (p.before back scope).Refuses s) :
    (choiceAll (p :: back)).meaning scope s = p.before back scope s := by
  by_cases hback : back = []
  · subst hback
    rfl
  · rw [meaning_choiceAll_cons p hback]
    exact Action.choice_of_not_refuses (h.resolve_left hback) _

/-- The outcome of the deciding alternative, behind those that refused, is the outcome of the
choice. -/
theorem RefuseAll.meaning_eq {front back : List (Parser t)} {p : Parser t}
    {refused : List Expectation} {middle : State}
    (h : RefuseAll scope (p :: back) front s refused middle)
    (hdecides : back = [] ∨ ¬ (p.before back scope).Refuses middle)
    (hs : s.Kept (fun _ => True) input) :
    middle.position = s.position ∧
      (choiceAll (front ++ p :: back)).meaning scope s =
        (p.before back scope middle).treated (Outcome.behind refused) := by
  induction h with
  | nil => exact ⟨rfl, by rw [treated_behind_nil]; exact meaning_choiceAll_of_decides hdecides⟩
  | @cons q rest s late final expected refused hq hrest ih =>
    have hlate : late.Kept (fun _ => True) input := meaning_keeps_input _ q s hs _ hq
    have hback : s.position ≤ late.cursor.input.size := by
      rw [hlate.input_eq]
      exact hs.within
    obtain ⟨hposition, hmeaning⟩ := ih hdecides (hlate.movedTo hs.within)
    refine ⟨hposition, ?_⟩
    have hrest : rest ++ p :: back ≠ [] := by simp
    rw [List.cons_append, meaning_choiceAll_cons q hrest,
      Action.choice_of_refuses_within hq hback, hmeaning, treated_treated]
    simp only [Outcome.join_behind]

theorem exists_decided {items : List (Parser t)} (h : items ≠ []) (scope : Scope) (s : State) :
    ∃ front p back refused middle, items = front ++ p :: back ∧
      Decided scope front p back s refused middle := by
  induction items generalizing s with
  | nil => exact absurd rfl h
  | cons q rest ih =>
    by_cases hdecides : rest = [] ∨ ¬ (q.before rest scope).Refuses s
    · exact ⟨[], q, rest, [], s, rfl, .nil, hdecides⟩
    · obtain ⟨hrest, hrefuses⟩ := not_or.1 hdecides
      obtain ⟨expected, late, hq⟩ := not_not.1 hrefuses
      obtain ⟨front, p, back, refused, middle, rfl, hfront, hp⟩ :=
        ih hrest (late.movedTo s.position)
      exact ⟨q :: front, p, back, expected :: refused, middle, rfl, .cons hq hfront, hp⟩

section Waiting

variable {back back' : List (Parser t)}

theorem before_congr (h : (choiceAll back).OwnsAs (choiceAll back')) (p : Parser t) :
    p.before back scope = p.before back' scope :=
  p.meaning_holding_of_ownsAs h scope

theorem ownsAs_append (h : (choiceAll back).OwnsAs (choiceAll back')) (front : List (Parser t)) :
    (choiceAll (front ++ back)).OwnsAs (choiceAll (front ++ back')) := by
  intro label
  have hback := h label
  simp only [mem_owned_choiceAll] at hback
  simp only [mem_owned_choiceAll, List.mem_append, or_and_right, exists_or, hback]

theorem RefuseAll.congr {front : List (Parser t)} {refused : List Expectation} {middle : State}
    (h : (choiceAll back).OwnsAs (choiceAll back'))
    (hfront : RefuseAll scope back front s refused middle) :
    RefuseAll scope back' front s refused middle := by
  induction hfront with
  | nil => exact .nil
  | @cons q rest s late final expected refused hq hrest ih =>
    rw [before_congr (ownsAs_append h rest)] at hq
    exact .cons hq ih

/-- Alternatives behind one that does not refuse are never run: any others that keep the same
rules in use could stand there. -/
theorem Decided.meaning_congr {front : List (Parser t)} {p : Parser t}
    {refused : List Expectation} {middle : State} (h : Decided scope front p back s refused middle)
    (hp : ¬ (p.before back scope).Refuses middle)
    (howns : (choiceAll back').OwnsAs (choiceAll back)) (hs : s.Kept (fun _ => True) input) :
    (choiceAll (front ++ p :: back')).meaning scope s =
      (choiceAll (front ++ p :: back)).meaning scope s := by
  have howns' : (choiceAll back).OwnsAs (choiceAll back') := fun label => (howns label).symm
  have hfront : RefuseAll scope (p :: back') front s refused middle :=
    h.refuseAll.congr (ownsAs_append howns' [p])
  have hp' : ¬ (p.before back' scope).Refuses middle := by
    rw [before_congr howns]
    exact hp
  rw [(hfront.meaning_eq (.inr hp') hs).2, (h.refuseAll.meaning_eq h.decides hs).2,
    before_congr howns]

end Waiting

theorem meaning_choice_assoc (p q r : Parser t) (scope : Scope) :
    (choice (choice p q) r).meaning scope = (choice p (choice q r)).meaning scope := by
  have hp := p.meaning_alike (scope.holding_alike q.owned r.owned)
  rw [meaning_choice, meaning_choice, Action.choice_assoc, hp, meaning_choice, meaning_choice]
  rfl

theorem meaning_choiceAll_append {items more : List (Parser t)} (hitems : items ≠ [])
    (hmore : more ≠ []) (scope : Scope) :
    (choiceAll (items ++ more)).meaning scope =
      (choice (choiceAll items) (choiceAll more)).meaning scope := by
  induction items with
  | nil => exact absurd rfl hitems
  | cons p rest ih =>
    by_cases hrest : rest = []
    · subst hrest
      rw [List.singleton_append, choiceAll_cons p hmore]
      rfl
    · have howns : (choiceAll (rest ++ more)).OwnsAs
          (choice (choiceAll rest) (choiceAll more)) := by
        intro label
        simp only [mem_owned_choice, mem_owned_choiceAll, List.mem_append, or_and_right, exists_or]
      have happend : rest ++ more ≠ [] := by simp [hrest]
      calc (choiceAll (p :: rest ++ more)).meaning scope
          = (p.before (rest ++ more) scope).choice ((choiceAll (rest ++ more)).meaning scope) :=
            meaning_choiceAll_cons p happend scope
        _ = (choice p (choice (choiceAll rest) (choiceAll more))).meaning scope := by
            rw [before, meaning_holding_of_ownsAs p howns, ih hrest, ← meaning_choice]
        _ = (choice (choiceAll (p :: rest)) (choiceAll more)).meaning scope := by
            rw [← meaning_choice_assoc, ← choiceAll_cons p hrest]

/-- What a choice among a list of alternatives does, in any scope and in any state inside the
input: without alternatives it fails and expects nothing. Else there is an alternative that
decides it: those in front of it refuse, each from the start of the choice, and it does not or
is the last. The choice ends as that one does, with a failure put behind what the refused ones
expected, and alternatives behind one that does not refuse are never run. So binary choices
may be grouped as one likes, and a list may be cut anywhere. -/
theorem choiceAll_meaning (items : List (Parser t)) (scope : Scope) (s : State)
    (hs : s.Kept (fun _ => True) input) :
    (items = [] → (choiceAll items).meaning scope s = .done (.fail .nothing, s)) ∧
    (items ≠ [] → ∃ front p back refused middle, items = front ++ p :: back ∧
      Decided scope front p back s refused middle) ∧
    (∀ front p back refused middle, items = front ++ p :: back →
      Decided scope front p back s refused middle →
        middle.position = s.position ∧
        (choiceAll items).meaning scope s =
          (p.before back scope middle).treated (Outcome.behind refused) ∧
        ∀ back', ¬ (p.before back scope).Refuses middle →
          (choiceAll back').OwnsAs (choiceAll back) →
            (choiceAll (front ++ p :: back')).meaning scope s =
              (choiceAll items).meaning scope s) ∧
    (∀ p q r : Parser t,
      (choice (choice p q) r).meaning scope = (choice p (choice q r)).meaning scope) ∧
    ∀ more, items ≠ [] → more ≠ [] →
      (choiceAll (items ++ more)).meaning scope =
        (choice (choiceAll items) (choiceAll more)).meaning scope := by
  refine ⟨?_, fun hitems => exists_decided hitems scope s, ?_,
    fun p q r => meaning_choice_assoc p q r scope,
    fun more hitems hmore => meaning_choiceAll_append hitems hmore scope⟩
  · intro hitems
    subst hitems
    show (Parser.atom (.fail .nothing)).meaning scope s = _
    rw [meaning_atom]
    rfl
  · intro front p back refused middle hitems hdecided
    subst hitems
    obtain ⟨hposition, hmeaning⟩ := hdecided.refuseAll.meaning_eq hdecided.decides hs
    exact ⟨hposition, hmeaning, fun back' hp howns => hdecided.meaning_congr hp howns hs⟩

/-- A hand-written alternative that runs to the end and refuses there, a text that breaks off in
the middle, and a third that never runs. -/
theorem choiceAll_meaning_commits :
    let far : Parser .text := .atom (.custom fun _ _ => .deliver (.fail (.message "far")) 2)
    let start : State := .startAt #['b', 'd'] false 0
    (choiceAll [far, .atom (.string "bc"), .tick 0 (fail "never")]).meaning Scope.root start =
      .done (.failure ⟨.oneOf [.message "far", .positioned "bc" 0], true⟩,
        .startAt #['b', 'd'] false 1) := by
  intro far start
  have hs : start.Kept (fun _ => True) #['b', 'd'] := .startAt _ _ (Nat.zero_le _)
  have hfar : far.before ([] ++ [.atom (.string "bc"), .tick 0 (fail "never")]) Scope.root start =
      .done (.fail (.message "far"), start.movedTo 2) :=
    meaning_eq_done (show Parser.eval 1 _ _ _ = _ from rfl)
  have hbreaks : (Parser.atom (.string "bc")).before [.tick 0 (fail "never")] Scope.root start =
      .done (.failure ⟨.positioned "bc" 0, true⟩, start.movedTo 1) :=
    meaning_eq_done (show Parser.eval 1 _ _ _ = _ from rfl)
  have hdecided : Decided Scope.root [far] (.atom (.string "bc")) [.tick 0 (fail "never")] start
      [.message "far"] start := by
    refine ⟨.cons hfar .nil, .inr ?_⟩
    intro hrefuses
    obtain ⟨expected, after, hfail⟩ := hrefuses
    rw [hbreaks] at hfail
    simp [Outcome.fail] at hfail
  have hmeaning := ((choiceAll_meaning _ Scope.root start hs).2.2.1 [far] _ _ _ _ rfl hdecided).2.1
  refine hmeaning.trans ?_
  rw [hbreaks]
  rfl

end Parser

end ParserKit
