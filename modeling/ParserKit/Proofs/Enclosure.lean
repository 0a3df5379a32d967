import Mathlib.Data.List.TakeWhile
import ParserKit.Proofs.Agreement

/-!
Grammars that cannot drop a rule. A rule that is built once is never dropped; when a
parser refers to no other rules, and to none that it is not inside of, a run finds each
rule that it comes to.
-/

namespace ParserKit

variable {t : Ty}

namespace Parser

/-- No rule is defined in a part that is rebuilt. -/
def RulesBuiltOnce : {t : Ty} → Parser t → Prop
  | _, .atom _ => True
  | _, .wrap _ p => p.RulesBuiltOnce
  | _, .bind p _ next => p.RulesBuiltOnce ∧ ∀ value, (next value).RulesBuiltOnce
  | _, .sequence items => ∀ i, (items i).RulesBuiltOnce
  | _, .choice first second => first.RulesBuiltOnce ∧ second.RulesBuiltOnce
  | _, .memo _ p => p.RulesBuiltOnce
  | _, .many p => p.RulesBuiltOnce
  | _, .many1 p => p.RulesBuiltOnce
  | _, .recursive name body => name.level = 0 ∧ body.RulesBuiltOnce
  | _, .rule _ => True
  | _, .fresh _ _ body => (body ()).RulesBuiltOnce
  | _, .tick _ p => p.RulesBuiltOnce

/-- All rules are built once, and each is referred to inside of its definition only, but
for those that are given. -/
def Enclosed : {t : Ty} → (given : Label → Prop) → Parser t → Prop
  | _, _, .atom _ => True
  | _, given, .wrap _ p => p.Enclosed given
  | _, given, .bind p _ next => p.Enclosed given ∧ ∀ value, (next value).Enclosed given
  | _, given, .sequence items => ∀ i, (items i).Enclosed given
  | _, given, .choice first second => first.Enclosed given ∧ second.Enclosed given
  | _, given, .memo _ p => p.Enclosed given
  | _, given, .many p => p.Enclosed given
  | _, given, .many1 p => p.Enclosed given
  | _, given, .recursive name body =>
    name.level = 0 ∧ body.Enclosed fun label => label = name ∨ given label
  | _, given, .rule name => given name
  | _, given, .fresh _ _ body => (body ()).Enclosed given
  | _, given, .tick _ p => p.Enclosed given

theorem Enclosed.mono {given given' : Label → Prop} {p : Parser t} (h : p.Enclosed given)
    (hgiven : ∀ label, given label → given' label) : p.Enclosed given' := by
  induction p generalizing given given' with
  | atom a => trivial
  | wrap wrapper p ih => exact ih h hgiven
  | bind p captures next ihp ihnext =>
    exact ⟨ihp h.1 hgiven, fun value => ihnext value (h.2 value) hgiven⟩
  | sequence items ih => exact fun i => ih i (h i) hgiven
  | choice first second ihfirst ihsecond => exact ⟨ihfirst h.1 hgiven, ihsecond h.2 hgiven⟩
  | memo label p ih => exact ih h hgiven
  | many p ih => exact ih h hgiven
  | many1 p ih => exact ih h hgiven
  | recursive name body ih =>
    exact ⟨h.1, ih h.2 fun label hlabel => hlabel.imp_right (hgiven label)⟩
  | rule name => exact hgiven name h
  | fresh inner captures body ih => exact ih () h hgiven
  | tick counter p ih => exact ih h hgiven

end Parser

/-- A rule that is built once is among the rules. -/
def Label.Among (name : Label) (rules : List Rule) : Prop :=
  name.level = 0 ∧ ∃ rule ∈ rules, rule.key = ⟨0, name.index⟩

/-- Rules that are built once, innermost first, none of which refers to one further in. -/
def Rule.AllEnclosed : List Rule → Prop
  | [] => True
  | rule :: outer => rule.key.generation = 0 ∧
    (rule.body.Enclosed fun name => name.Among (rule :: outer)) ∧ AllEnclosed outer

theorem Rule.AllEnclosed.dropWhile {rules : List Rule} (h : AllEnclosed rules) (key : Key) :
    AllEnclosed (rules.dropWhile (·.key != key)) := by
  induction rules with
  | nil => exact h
  | cons rule outer ih =>
    rw [List.dropWhile_cons]
    split
    · exact ih h.2.2
    · exact h

namespace Scope

/-- The scope has all rules that the parser comes to. -/
structure Serves (scope : Scope) (p : Parser t) : Prop where
  rules : Rule.AllEnclosed scope.rules
  enclosed : p.Enclosed fun name => name.Among scope.rules

namespace Serves

variable {scope : Scope}

theorem root {p : Parser t} (h : p.Enclosed fun _ => False) : Scope.root.Serves p :=
  ⟨trivial, h.mono fun _ => False.elim⟩

theorem define {name : Label} {body : Parser t} (h : scope.Serves (.recursive name body)) :
    (scope.define name body).Serves body := by
  obtain ⟨hrules, hlevel, hbody⟩ := h
  have hkey : scope.key name = ⟨0, name.index⟩ := key_of_level hlevel scope
  have henclosed : body.Enclosed fun label => label.Among (scope.define name body).rules := by
    refine hbody.mono fun label hlabel => ?_
    rcases hlabel with rfl | ⟨hzero, rule, hmem, hrule⟩
    · exact ⟨hlevel, _, List.mem_cons_self, hkey⟩
    · exact ⟨hzero, rule, List.mem_cons_of_mem _ hmem, hrule⟩
  exact ⟨⟨congrArg Key.generation hkey, henclosed, hrules⟩, henclosed⟩

/-- The definition that is found is served where it is found. -/
theorem resolve {name : Label} (h : scope.Serves (.rule name : Parser t)) {body : Parser t}
    {inner : Scope} (hfound : scope.resolve name t = some (body, inner)) : inner.Serves body := by
  obtain ⟨rule, outer, hfrom, hrule, rfl⟩ := resolve_eq_some hfound
  have hinner : Rule.AllEnclosed (rule :: outer) := hfrom ▸ h.rules.dropWhile (scope.key name)
  have hbody := hinner.2.1
  rw [hrule] at hbody
  exact ⟨hinner, hrule ▸ hbody⟩

/-- Only a rule for values of another type is not found. -/
theorem resolve_eq_none {name : Label} (h : scope.Serves (.rule name : Parser t))
    (hnone : scope.resolve name t = none) :
    ∃ rule ∈ scope.rules, rule.key = scope.key name ∧ rule.ty ≠ t := by
  obtain ⟨-, hlevel, found, hmem, hfound⟩ := h
  have hkey : scope.key name = ⟨0, name.index⟩ := key_of_level hlevel scope
  cases hfrom : scope.rulesFrom (scope.key name) with
  | nil =>
    simp only [rulesFrom, List.dropWhile_eq_nil_iff] at hfrom
    exact absurd (hfound.trans hkey.symm) (by simpa using hfrom found hmem)
  | cons rule outer =>
    obtain ⟨hrule, hsub⟩ := key_of_rulesFrom hfrom
    have hkeeps : scope.keeps rule.key = true :=
      keeps_iff.2 (.inl (congrArg Key.generation (hrule.trans hkey)))
    refine ⟨rule, hsub rule List.mem_cons_self, hrule, fun hty => ?_⟩
    simp only [Scope.resolve, hfrom, hkeeps, if_true, dif_pos hty] at hnone
    exact absurd hnone (by simp)

end Serves

end Scope

end ParserKit
