import ParserKit.Proofs.Meaning

/-!
Scopes that a parser cannot tell apart. Of the rules that waiting parsers hold, a scope asks
only whether one of them is a certain rule, and it does not even ask that of a rule that is
built once. So in a grammar of which no part was rebuilt it makes no difference who waits.
-/

namespace ParserKit

namespace Scope

/-- Scopes with the same rules and generations that keep the same rules in use. -/
structure Interchangeable (scope scope' : Scope) : Prop where
  rules_eq : scope.rules = scope'.rules
  generations_eq : scope.generations = scope'.generations
  keeps_eq : ∀ key, scope.keeps key = scope'.keeps key

namespace Interchangeable

variable {scope scope' : Scope}

theorem key_eq (h : scope.Interchangeable scope') (label : Label) :
    scope.key label = scope'.key label := by
  simp only [key, h.generations_eq]

theorem holding (h : scope.Interchangeable scope') (labels : List Label) :
    (scope.holding labels).Interchangeable (scope'.holding labels) := by
  refine ⟨h.rules_eq, h.generations_eq, fun key => Bool.eq_iff_iff.2 ?_⟩
  have hkeeps : scope.keeps key = true ↔ scope'.keeps key = true := by rw [h.keeps_eq]
  simp only [keeps_iff, mem_held_holding, h.key_eq] at hkeeps ⊢
  rw [or_left_comm, hkeeps, or_left_comm]

theorem renew (h : scope.Interchangeable scope') (level generation : Nat) :
    (scope.renew level generation).Interchangeable (scope'.renew level generation) :=
  ⟨h.rules_eq, congrArg (List.cons (level, generation)) h.generations_eq, h.keeps_eq⟩

theorem define {t : Ty} (h : scope.Interchangeable scope') (name : Label) (body : Parser t) :
    (scope.define name body).Interchangeable (scope'.define name body) := by
  refine ⟨?_, h.generations_eq, h.keeps_eq⟩
  simp only [Scope.define, h.key_eq, h.generations_eq, h.rules_eq]

/-- Either scope finds a rule when the other does. -/
theorem resolve (h : scope.Interchangeable scope') (name : Label) (t : Ty) :
    (scope.resolve name t = none ∧ scope'.resolve name t = none) ∨
      ∃ body inner inner', scope.resolve name t = some (body, inner) ∧
        scope'.resolve name t = some (body, inner') ∧ inner.Interchangeable inner' := by
  simp only [Scope.resolve, rulesFrom, h.rules_eq, h.key_eq, h.keeps_eq]
  split
  · exact .inl ⟨rfl, rfl⟩
  · split
    · split
      · exact .inr ⟨_, _, _, rfl, rfl, rfl, rfl, h.keeps_eq⟩
      · exact .inl ⟨rfl, rfl⟩
    · exact .inl ⟨rfl, rfl⟩

end Interchangeable

/-- The labels of a scope with no rebuilt part are of generation zero, and so are their keys. -/
theorem holding_interchangeable {scope : Scope} (h : scope.generations = []) (labels : List Label) :
    (scope.holding labels).Interchangeable scope := by
  refine ⟨rfl, rfl, fun key => Bool.eq_iff_iff.2 ?_⟩
  simp only [keeps_iff, mem_held_holding]
  have hbuiltOnce : (∃ label ∈ labels, scope.key label = key) → key.generation = 0 := by
    rintro ⟨label, -, rfl⟩
    simp [Scope.key, generationOf, h]
  rw [or_left_comm]
  exact or_iff_right_of_imp fun hlabel => .inl (hbuiltOnce hlabel)

end Scope

namespace Parser

variable {t : Ty} {scope scope' : Scope}

theorem eval_interchangeable (fuel : Nat) (p : Parser t) (h : scope.Interchangeable scope') :
    p.eval fuel scope = p.eval fuel scope' := by
  induction fuel generalizing t scope scope' with
  | zero => rfl
  | succ fuel ih =>
    cases p with
    | atom a => rfl
    | wrap wrapper p => simp only [eval, ih p h]
    | bind p captures next =>
      simp only [eval, ih p (h.holding captures), fun value => ih (next value) h]
    | sequence items => simp only [eval, fun i => ih (items i) (h.holding (ownedItems items))]
    | choice first second => simp only [eval, ih first (h.holding second.owned), ih second h]
    | memo label p => simp only [eval, h.key_eq, ih p h]
    | many p => simp only [eval, ih p (h.holding p.owned)]
    | many1 p => simp only [eval, ih p (h.holding p.owned)]
    | recursive name body => simp only [eval, ih body (h.define name body)]
    | rule name =>
      simp only [eval]
      rcases h.resolve name t with ⟨hnone, hnone'⟩ | ⟨body, inner, inner', hsome, hsome', hinner⟩
      · rw [hnone, hnone']
      · rw [hsome, hsome']
        exact ih body hinner
    | fresh level captures body =>
      simp only [eval, fun generation => ih (body ()) (h.renew level generation)]
    | tick counter p => simp only [eval, ih p h]

theorem meaning_interchangeable (p : Parser t) (h : scope.Interchangeable scope') :
    p.meaning scope = p.meaning scope' := by
  funext s
  simp only [meaning, fun fuel => eval_interchangeable fuel p h]

/-- Where nothing was rebuilt, it does not matter which rules waiting parsers hold. -/
theorem meaning_holding (p : Parser t) (h : scope.generations = []) (labels : List Label) :
    p.meaning (scope.holding labels) = p.meaning scope :=
  p.meaning_interchangeable (scope.holding_interchangeable h labels)

end Parser

end ParserKit
