import ParserKit.Proofs.Places
import ParserKit.Proofs.Transparency

/-!
A run that remembers nothing may be taken up anywhere. Of what was done before, its state shows
only the place and the number of generations that began. From the same place two such runs begin
their generations in step, so they number them at a constant distance and do the same otherwise,
down to the faults.
-/

namespace ParserKit

open Comparison

/-- Generations moved out of the way of others. What is built once stays where it is. -/
def shifted (distance generation : Nat) : Nat :=
  if generation = 0 then 0 else generation + distance

theorem shifted_zero (distance : Nat) : shifted distance 0 = 0 :=
  if_pos rfl

theorem shifted_of_pos {generation : Nat} (h : 0 < generation) (distance : Nat) :
    shifted distance generation = generation + distance :=
  if_neg (Nat.ne_of_gt h)

theorem shifted_injective (distance : Nat) : Function.Injective (shifted distance) := by
  intro x y hxy
  simp only [shifted] at hxy
  split at hxy
  · split at hxy
    · omega
    · omega
  · split at hxy
    · omega
    · omega

/-- Two states at one place in which nothing is remembered. Moved by these distances, the next
generations of both are the same. -/
structure State.InStep (distance distance' bound : Nat) (s s' : State) : Prop where
  beside : s.Beside s'
  plain : s.Plain bound
  pos : 0 < bound
  plain' : s'.Plain 1
  next_eq : s.nextGeneration + distance = s'.nextGeneration + distance'

namespace State.InStep

variable {distance distance' bound : Nat} {s s' : State}

theorem movedTo (h : s.InStep distance distance' bound s') (q : Nat) :
    (s.movedTo q).InStep distance distance' bound (s'.movedTo q) :=
  ⟨h.beside.movedTo q, ⟨h.plain.1, h.plain.2⟩, h.pos, ⟨h.plain'.1, h.plain'.2⟩, h.next_eq⟩

theorem tick (h : s.InStep distance distance' bound s') (counter : Nat) :
    (s.tick counter).InStep distance distance' bound (s'.tick counter) :=
  ⟨⟨h.beside.1, h.beside.2⟩, ⟨h.plain.1, h.plain.2⟩, h.pos, ⟨h.plain'.1, h.plain'.2⟩, h.next_eq⟩

theorem renew (h : s.InStep distance distance' bound s') :
    s.renew.2.InStep distance distance' (s.nextGeneration + 1) s'.renew.2 := by
  have hnext := h.next_eq
  refine ⟨⟨h.beside.1, h.beside.2⟩, ⟨h.plain.1, Nat.le_refl _⟩, Nat.succ_pos _,
    ⟨h.plain'.1, Nat.le_succ_of_le h.plain'.2⟩, ?_⟩
  simp only [State.renew]
  omega

/-- Both generations that begin next are moved to the same one. -/
theorem shifted_next (h : s.InStep distance distance' bound s') :
    shifted distance s.nextGeneration = shifted distance' s'.nextGeneration := by
  have hpos : 0 < s.nextGeneration := Nat.lt_of_lt_of_le h.pos h.plain.2
  rw [shifted_of_pos hpos, shifted_of_pos h.plain'.2]
  exact h.next_eq

end State.InStep

/-- Scopes of two runs in step: they are the same when both are moved out of the way. -/
structure Scope.Parallel (distance distance' bound : Nat) (names : Names) (level : Nat)
    (scope scope' : Scope) : Prop where
  meets : scope.Meets names level bound
  rename_eq : scope.rename (shifted distance) = scope'.rename (shifted distance')

namespace Scope.Parallel

variable {distance distance' bound level : Nat} {names : Names} {scope scope' : Scope}

theorem holding (h : Parallel distance distance' bound names level scope scope')
    (labels : List Label) :
    Parallel distance distance' bound names level (scope.holding labels)
      (scope'.holding labels) := by
  refine ⟨h.meets.holding labels, ?_⟩
  rw [← holding_rename (shifted_zero distance), ← holding_rename (shifted_zero distance'),
    h.rename_eq]

theorem define (h : Parallel distance distance' bound names level scope scope') {t : Ty}
    {name : Label} {body : Parser t} (hlevel : name.level ≤ level)
    (hname : names name = some ⟨t, body⟩) (hbody : body.Labelled names name.level) :
    Parallel distance distance' bound names level (scope.define name body)
      (scope'.define name body) := by
  refine ⟨h.meets.define hlevel hname hbody, ?_⟩
  rw [← define_rename (shifted_zero distance), ← define_rename (shifted_zero distance'),
    h.rename_eq]

/-- Both scopes find a rule or neither does. -/
theorem resolve (h : Parallel distance distance' bound names level scope scope') {name : Label}
    (hlevel : name.level ≤ level) (t : Ty) :
    (∃ body inner inner', scope.resolve name t = some (body, inner) ∧
      scope'.resolve name t = some (body, inner') ∧ body.Labelled names name.level ∧
      Parallel distance distance' bound names name.level inner inner') ∨
    (scope.resolve name t = none ∧ scope'.resolve name t = none) := by
  have hmoved := resolve_rename (shifted_zero distance) (shifted_injective distance) scope name t
  have hmoved' :=
    resolve_rename (shifted_zero distance') (shifted_injective distance') scope' name t
  rw [h.rename_eq, hmoved'] at hmoved
  cases hfirst : scope.resolve name t with
  | none =>
    rw [hfirst] at hmoved
    exact .inr ⟨rfl, Option.map_eq_none_iff.1 hmoved⟩
  | some found =>
    obtain ⟨body, inner⟩ := found
    rw [hfirst] at hmoved
    obtain ⟨⟨body', inner'⟩, hsecond, hsame⟩ := Option.map_eq_some_iff.1 hmoved
    obtain ⟨rfl, hinner⟩ := Prod.mk.inj hsame
    obtain ⟨-, hbody, -, hmeets⟩ := h.meets.resolve hlevel hfirst
    exact .inl ⟨body', inner, inner', rfl, hsecond, hbody, hmeets, hinner.symm⟩

theorem renew (h : Parallel distance distance' bound names level scope scope') {names' : Names}
    {inner : Nat} {s s' : State} (hs : s.InStep distance distance' bound s') (hpos : 0 < inner)
    (hinner : inner ≤ level + 1)
    (hbelow : ∀ label : Label, label.level < inner → names label = names' label) :
    Parallel distance distance' (s.nextGeneration + 1) names' inner
      (scope.renew inner s.nextGeneration) (scope'.renew inner s'.nextGeneration) := by
  refine ⟨h.meets.renew hpos hinner hbelow hs.plain.2, ?_⟩
  rw [← renew_rename, ← renew_rename, h.rename_eq, hs.shifted_next]

theorem root (names : Names) : Parallel distance distance' 1 names 0 Scope.root Scope.root :=
  ⟨.root names, rfl⟩

end Scope.Parallel

namespace Comparison

/-- Two runs in step. There is nothing to excuse. -/
def inStep (distance distance' : Nat) : Comparison Nat where
  states := State.InStep distance distance'
  firstExcuse _ := False
  secondExcuse _ := False
  beside h := h.beside
  movedTo h := h.movedTo
  tick h := h.tick

def inStepScoping (distance distance' : Nat) : (inStep distance distance').Scoping where
  related := Scope.Parallel distance distance'
  later hw h := ⟨h.meets.raise hw, h.rename_eq⟩
  lower hle h := ⟨h.meets.lower hle, h.rename_eq⟩
  holding h := h.holding
  define h := h.define
  resolve h hlevel t := (h.resolve hlevel t).imp_right .inl
  renew {_ _ _ _ _ _ _ s _} h hs hpos hinner hbelow :=
    ⟨s.nextGeneration + 1, Nat.le_succ_of_le hs.plain.2, hs.renew, h.renew hs hpos hinner hbelow⟩
  remembered _ _ _ hp := by
    intro w' hw s s' hs
    rw [Action.remembered_of_plain hs.plain, Action.remembered_of_plain hs.plain']
    exact hp w' hw s s' hs

end Comparison

/-- A state inside the input where a run that remembers nothing can be taken up. -/
structure State.Resumable (input : Array Char) (s : State) : Prop where
  kept : s.Kept (fun _ => True) input
  plain : s.Plain 1

theorem State.Resumable.startAt {input : Array Char} {i : Nat} (hi : i ≤ input.size) :
    (State.startAt input false i).Resumable input :=
  ⟨.startAt input false hi, rfl, Nat.le_refl 1⟩

/-- An action that shows the same in all states at a place where it can be taken up, and
leads to such states. -/
structure Action.Resumes {t : Ty} (input : Array Char) (x : Action t.Elem) : Prop where
  seen_eq : ∀ s s' : State, s.Resumable input → s'.Resumable input → s.position = s'.position →
    (x s).seen = (x s').seen
  resumable : ∀ s : State, s.Resumable input → (x s).Ensures fun result => result.2.Resumable input

namespace Parser.WellLabelled

variable {t : Ty} {p : Parser t} {input : Array Char} {s s' : State}

theorem inStep (hp : p.WellLabelled) (hs : s.Plain 1) (hs' : s'.Plain 1) (hbeside : s.Beside s')
    (hends : p.meaning Scope.root s ≠ .timeout) :
    (Comparison.inStep s'.nextGeneration s.nextGeneration).Results 1 (p.meaning Scope.root s)
      (p.meaning Scope.root s') := by
  obtain ⟨names, hp⟩ := hp
  obtain ⟨fuel, hfuel⟩ := exists_eval_eq_meaning hends
  rw [← hfuel]
  exact (inStepScoping _ _).actions fuel p hp (.root names) 1 (Nat.le_refl 1) s s'
    ⟨hbeside, hs, Nat.one_pos, hs', Nat.add_comm _ _⟩

/-- A run that ends tells how one in step with it ends. -/
theorem seen_inStep (hp : p.WellLabelled) (hs : s.Plain 1) (hs' : s'.Plain 1)
    (hbeside : s.Beside s') (hends : p.meaning Scope.root s ≠ .timeout) :
    (p.meaning Scope.root s').seen = (p.meaning Scope.root s).seen := by
  have hresults := hp.inStep hs hs' hbeside hends
  generalize p.meaning Scope.root s = first at *
  generalize p.meaning Scope.root s' = second at *
  cases hresults with
  | timeout => exact absurd rfl hends
  | firstExcused hcause => exact absurd hcause id
  | secondExcused hcause => exact absurd hcause id
  | fault cause => rfl
  | done hw outcome hs => simp [Result.seen, hs.beside.position_eq]

/-- A grammar can be taken up anywhere by a run that remembers nothing. -/
theorem resumes (hp : p.WellLabelled) (input : Array Char) :
    (p.meaning Scope.root).Resumes input where
  seen_eq s s' hs hs' hposition := by
    have hbeside : s.Beside s' := ⟨hs.kept.input_eq.trans hs'.kept.input_eq.symm, hposition⟩
    have hbeside' : s'.Beside s := ⟨hbeside.1.symm, hbeside.2.symm⟩
    by_cases hends : p.meaning Scope.root s = .timeout
    · by_cases hends' : p.meaning Scope.root s' = .timeout
      · rw [hends, hends']
      · exact hp.seen_inStep hs'.plain hs.plain hbeside' hends'
    · exact (hp.seen_inStep hs.plain hs'.plain hbeside hends).symm
  resumable s hs := by
    intro result hresult
    have hkeeps : Action.Keeps (fun _ => True) input (p.meaning Scope.root) :=
      meaning_keeps (fun _ _ _ => trivial) (p.remembers_of_forall fun _ => trivial)
    have hkept := hkeeps s hs.kept result hresult
    have hresults := hp.inStep hs.plain hs.plain ⟨rfl, rfl⟩ (hresult.trans_ne (by simp))
    rw [hresult] at hresults
    cases hresults with
    | done hw _ hfinal => exact ⟨hkept, hfinal.plain'⟩

end Parser.WellLabelled

end ParserKit
