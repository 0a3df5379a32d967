import ParserKit.Parser.Combine
import ParserKit.Proofs.Consumption
import ParserKit.Proofs.Interchange

/-!
Two ways to group three parsers, each made from the value of the one before. Both
groupings run the same parsers in the same order, so they differ at most in the
flag of a failure: the inner pair has another start in each grouping, and a failure
counts as consuming when it ends away from a start.

They do differ on a detour: the first parser moves away, a later one comes back to
the start, and the last one fails there without consuming. The grouping from the
left has forgotten the motion by then, and the grouping from the right has not. A
grammar without jumps makes no detours.
-/

namespace ParserKit

open Result

namespace Scope

/-- Scopes that differ at most in how often and in what order they hold rules. -/
structure Alike (scope scope' : Scope) : Prop where
  rules_eq : scope.rules = scope'.rules
  generations_eq : scope.generations = scope'.generations
  held_iff : ∀ key, key ∈ scope.held ↔ key ∈ scope'.held

theorem Alike.interchangeable {scope scope' : Scope} (h : scope.Alike scope') :
    scope.Interchangeable scope' :=
  ⟨h.rules_eq, h.generations_eq, fun key =>
    Bool.eq_iff_iff.2 (by rw [keeps_iff, keeps_iff, h.held_iff])⟩

/-- Holding two lists one after the other is holding them as one. -/
theorem holding_alike (scope : Scope) (labels labels' : List Label) :
    ((scope.holding labels').holding labels).Alike (scope.holding (Label.join labels labels')) := by
  refine ⟨rfl, rfl, fun key => ?_⟩
  have hkey : ∀ label, (scope.holding labels').key label = scope.key label := fun _ => rfl
  simp only [mem_held_holding, hkey, Label.mem_join, or_and_right, exists_or, or_assoc]

end Scope

namespace Parser

theorem meaning_alike {t : Ty} (p : Parser t) {scope scope' : Scope} (h : scope.Alike scope') :
    p.meaning scope = p.meaning scope' :=
  p.meaning_interchangeable h.interchangeable

end Parser

namespace Action

variable {α β γ : Type}

/-- Three actions in a row of which the first moves away from where the row began,
and the last fails there again without consuming. -/
def Detour (first : Action α) (next : α → Action β) (last : β → Action γ) (s : State)
    (expected : Expectation) (final : State) : Prop :=
  ∃ x middle y late, first s = .done (.success x, middle) ∧
    next x middle = .done (.success y, late) ∧
    last y late = .done (.failure { expected, consumed := false }, final) ∧
    middle.position ≠ s.position ∧ final.position = s.position

variable {first : Action α} {next : α → Action β} {last : β → Action γ} {s final : State}
  {expected : Expectation}

/-- On a detour the groupings differ in the flag, and only there. -/
theorem chain_of_detour (h : Detour first next last s expected final) :
    (first.chain next).chain last s = .done (.failure ⟨expected, false⟩, final) ∧
      first.chain (fun x => (next x).chain last) s = .done (.failure ⟨expected, true⟩, final) := by
  obtain ⟨x, middle, y, late, hfirst, hnext, hlast, haway, hback⟩ := h
  have haway' : s.position ≠ middle.position := Ne.symm haway
  constructor
  · simp [chain, hfirst, hnext, hlast, State.settle, Outcome.consumedIf, hback]
  · simp [chain, hfirst, hnext, hlast, State.settle, Outcome.consumedIf, hback, haway']

/-- Only a failure back at the start that says nothing was consumed can tell whether the
flag was settled at a place in between, too. -/
theorem consumed_settled_twice {consumed : Bool} {start middle stop : Nat}
    (h : ¬ (consumed = false ∧ middle ≠ start ∧ stop = start)) :
    (consumed || stop != start) = ((consumed || stop != middle) || stop != start) := by
  by_cases hback : stop = start
  · cases consumed with
    | true => simp
    | false =>
      have hmiddle : middle = start := by
        by_contra haway
        exact h ⟨rfl, haway, hback⟩
      simp [hback, hmiddle]
  · have haway : (stop != start) = true := by simpa using hback
    rw [haway, Bool.or_true, Bool.or_true]

theorem chain_assoc (h : ∀ expected final, ¬ Detour first next last s expected final) :
    (first.chain next).chain last s = first.chain (fun x => (next x).chain last) s := by
  simp only [chain]
  cases hfirst : first s with
  | fault cause => rfl
  | timeout => rfl
  | done result =>
    obtain ⟨outcome, middle⟩ := result
    cases outcome with
    | failure cause => rfl
    | success x =>
      simp only [done_bind]
      cases hnext : next x middle with
      | fault cause => rfl
      | timeout => rfl
      | done result =>
        obtain ⟨outcome, late⟩ := result
        cases outcome with
        | failure cause => rfl
        | success y =>
          simp only [done_bind, State.settle, Outcome.consumedIf]
          cases hlast : last y late with
          | fault cause => rfl
          | timeout => rfl
          | done result =>
            obtain ⟨outcome, final⟩ := result
            cases outcome with
            | success z => rfl
            | failure cause =>
              obtain ⟨expected, consumed⟩ := cause
              have hflag := consumed_settled_twice fun hdetour => h expected final
                ⟨x, middle, y, late, hfirst, hnext, hdetour.1 ▸ hlast, hdetour.2⟩
              simp only [done_bind, hflag]

theorem not_detour_of_fair (hfirst : Fair True first) (hnext : ∀ x, Fair True (next x))
    (hlast : ∀ y, Fair True (last y)) (hs : s.Sound True) :
    ¬ Detour first next last s expected final := by
  rintro ⟨x, middle, y, late, hx, hy, hfail, haway, hback⟩
  have hmiddle := hfirst s hs _ hx
  have hlate := hnext x middle hmiddle.sound _ hy
  have hfinal := hlast y late hlate.sound _ hfail
  have hle : s.position ≤ middle.position := hmiddle.honest.ahead trivial
  have hle' : middle.position ≤ late.position := hlate.honest.ahead trivial
  have hle'' : late.position ≤ final.position := hfinal.honest.ahead trivial
  omega

end Action

open ParserKit.Action

namespace Parser

variable {a b c : Ty}

/-- Three parsers in a row, the first two of them grouped. Each list of labels names
the rules that the function after it keeps in use. -/
def bindLeft (p : Parser a) (captures : List Label) (f : a.Elem → Parser b)
    (captures' : List Label) (g : b.Elem → Parser c) : Parser c :=
  .bind (.bind p captures f) captures' g

/-- Three parsers in a row, the last two of them grouped. -/
def bindRight (p : Parser a) (captures : List Label) (f : a.Elem → Parser b)
    (captures' : List Label) (g : b.Elem → Parser c) : Parser c :=
  .bind p (Label.join captures captures') fun x => .bind (f x) captures' g

/-- The three parsers make a detour from a state. -/
def MakesDetour (scope : Scope) (p : Parser a) (captures : List Label) (f : a.Elem → Parser b)
    (captures' : List Label) (g : b.Elem → Parser c) (s : State) (expected : Expectation)
    (final : State) : Prop :=
  Detour (p.meaning (scope.holding (Label.join captures captures')))
    (fun x => (f x).meaning (scope.holding captures')) (fun y => (g y).meaning scope) s
    expected final

section

variable (scope : Scope) (p : Parser a) (captures : List Label) (f : a.Elem → Parser b)
  (captures' : List Label) (g : b.Elem → Parser c)

theorem meaning_bindLeft :
    (bindLeft p captures f captures' g).meaning scope =
      ((p.meaning (scope.holding (Label.join captures captures'))).chain fun x =>
        (f x).meaning (scope.holding captures')).chain fun y => (g y).meaning scope := by
  rw [bindLeft, meaning_bind, meaning_bind,
    p.meaning_alike (scope.holding_alike captures captures')]

theorem meaning_bindRight :
    (bindRight p captures f captures' g).meaning scope =
      (p.meaning (scope.holding (Label.join captures captures'))).chain fun x =>
        ((f x).meaning (scope.holding captures')).chain fun y => (g y).meaning scope := by
  simp only [bindRight, meaning_bind]

end

theorem not_makesDetour_of_forward {scope : Scope} (hscope : scope.All fun _ x => x.Forward)
    {p : Parser a} (hp : p.All fun _ x => x.Forward) (captures : List Label)
    {f : a.Elem → Parser b} (hf : ∀ x, (f x).All fun _ x => x.Forward) (captures' : List Label)
    {g : b.Elem → Parser c} (hg : ∀ y, (g y).All fun _ x => x.Forward) {s : State}
    (hs : s.Sound True) (expected : Expectation) (final : State) :
    ¬ MakesDetour scope p captures f captures' g s expected final := by
  refine not_detour_of_fair ?_ (fun x => ?_) (fun y => ?_) hs
  · exact meaning_fair (fun _ _ => Atom.Forward.fair) _ p hscope hp
  · exact meaning_fair (fun _ _ => Atom.Forward.fair) _ (f x) hscope (hf x)
  · exact meaning_fair (fun _ _ => Atom.Forward.fair) _ (g y) hscope (hg y)

/-- Runs of a grammar without jumps end the same way however it is grouped. -/
theorem ends_bindLeft_iff {p : Parser a} (hp : p.All fun _ x => x.Forward) (captures : List Label)
    {f : a.Elem → Parser b} (hf : ∀ x, (f x).All fun _ x => x.Forward) (captures' : List Label)
    {g : b.Elem → Parser c} (hg : ∀ y, (g y).All fun _ x => x.Forward) (input : Array Char)
    (memoize : Bool) {start : Nat} (hstart : start ≤ input.size)
    (e : Except Fault (Outcome c.Elem × State)) :
    (bindLeft p captures f captures' g).Ends (.startAt input memoize start) e ↔
      (bindRight p captures f captures' g).Ends (.startAt input memoize start) e := by
  have hsound : (State.startAt input memoize start).Sound True :=
    State.startAt_sound input memoize hstart
  have hdetour := not_makesDetour_of_forward (Scope.root_all _) hp captures hf captures' hg hsound
  rw [ends_iff, ends_iff, meaning_bindLeft, meaning_bindRight, chain_assoc hdetour]

/-- Grouping from the left and from the right give the same result, whatever the
parsers, the scope and the state, with one exception: on a detour both fail with
the same expectation in the same state, and only the grouping from the right says
that input was consumed. -/
theorem bind_assoc_iff_no_detour (scope : Scope) (p : Parser a) (captures : List Label)
    (f : a.Elem → Parser b) (captures' : List Label) (g : b.Elem → Parser c) (s : State) :
    ((bindLeft p captures f captures' g).meaning scope s =
        (bindRight p captures f captures' g).meaning scope s ↔
      ∀ expected final, ¬ MakesDetour scope p captures f captures' g s expected final) ∧
    ∀ expected final, MakesDetour scope p captures f captures' g s expected final →
      (bindLeft p captures f captures' g).meaning scope s =
          .done (.failure { expected, consumed := false }, final) ∧
        (bindRight p captures f captures' g).meaning scope s =
          .done (.failure { expected, consumed := true }, final) := by
  rw [meaning_bindLeft, meaning_bindRight]
  refine ⟨⟨fun heq expected final hdetour => ?_, chain_assoc⟩, fun _ _ => chain_of_detour⟩
  obtain ⟨hleft, hright⟩ := chain_of_detour hdetour
  rw [hleft, hright] at heq
  exact absurd heq (by simp)

/-- A character, a jump back and a failure: only grouped from the right is the
character consumed. -/
theorem bind_not_assoc :
    (Runner.execute {} 20 (bindLeft (.atom (.char 'a')) [] (fun _ => setPosition 0) []
        fun _ => fail (t := .unit) "x") #['a'] =
      .done ⟨.failure ⟨.message "x", false⟩, 10, .startAt #['a'] false 0⟩) ∧
    (Runner.execute {} 20 (bindRight (.atom (.char 'a')) [] (fun _ => setPosition 0) []
        fun _ => fail (t := .unit) "x") #['a'] =
      .done ⟨.failure ⟨.message "x", true⟩, 10, .startAt #['a'] false 0⟩) :=
  ⟨rfl, rfl⟩

end Parser

end ParserKit
