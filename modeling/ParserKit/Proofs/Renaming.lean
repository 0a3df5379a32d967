import Mathlib.Data.List.Basic
import ParserKit.Proofs.Agreement

/-!
Scopes with renamed generations. Two runs of one grammar number their generations
differently when one of them skips work that the other does. As long as different
generations keep different names, everything that a scope is used for goes through
the renaming.
-/

namespace ParserKit

def Key.rename (rename : Nat → Nat) (key : Key) : Key :=
  { key with generation := rename key.generation }

def renameGenerations (rename : Nat → Nat) (generations : List (Nat × Nat)) : List (Nat × Nat) :=
  generations.map fun entry => (entry.1, rename entry.2)

def Rule.rename (rename : Nat → Nat) (rule : Rule) : Rule :=
  ⟨rule.key.rename rename, rule.ty, rule.body, renameGenerations rename rule.generations⟩

def Scope.rename (rename : Nat → Nat) (scope : Scope) : Scope :=
  ⟨scope.rules.map (Rule.rename rename), renameGenerations rename scope.generations,
    scope.held.map (Key.rename rename)⟩

/-- All generations of a scope are below a bound. -/
structure Scope.Below (scope : Scope) (bound : Nat) : Prop where
  rule_key : ∀ rule ∈ scope.rules, rule.key.generation < bound
  rule_generations : ∀ rule ∈ scope.rules, ∀ entry ∈ rule.generations, entry.2 < bound
  generations : ∀ entry ∈ scope.generations, entry.2 < bound
  held : ∀ key ∈ scope.held, key.generation < bound

variable {rename rename' : Nat → Nat}

theorem generationOf_lt {generations : List (Nat × Nat)} {bound : Nat} (hbound : 0 < bound)
    (h : ∀ entry ∈ generations, entry.2 < bound) (level : Nat) :
    generationOf generations level < bound := by
  simp only [generationOf]
  split
  · exact hbound
  · cases hfound : generations.find? (·.1 == level) with
    | none => exact hbound
    | some entry => exact h entry (List.mem_of_find?_eq_some hfound)

theorem generationOf_rename (hzero : rename 0 = 0) (generations : List (Nat × Nat)) (level : Nat) :
    generationOf (renameGenerations rename generations) level =
      rename (generationOf generations level) := by
  simp only [generationOf, renameGenerations]
  split
  · exact hzero.symm
  · simp only [List.find?_map, Function.comp_def]
    cases generations.find? (·.1 == level) with
    | none => exact hzero.symm
    | some entry => rfl

theorem Key.rename_injective (hinjective : Function.Injective rename) :
    Function.Injective (Key.rename rename) := by
  intro key key' h
  obtain ⟨generation, index⟩ := key
  obtain ⟨generation', index'⟩ := key'
  obtain ⟨hgeneration, hindex⟩ := Key.mk.inj h
  obtain rfl := hinjective hgeneration
  obtain rfl : index = index' := hindex
  rfl

namespace Scope

variable {scope : Scope} {bound : Nat}

theorem key_rename (hzero : rename 0 = 0) (scope : Scope) (label : Label) :
    (scope.rename rename).key label = (scope.key label).rename rename := by
  simp only [key, Scope.rename, Key.rename, generationOf_rename hzero]

theorem holding_rename (hzero : rename 0 = 0) (scope : Scope) (labels : List Label) :
    (scope.rename rename).holding labels = (scope.holding labels).rename rename := by
  have hheld : ∀ held, labels.foldl (fun held label => (scope.rename rename).key label :: held)
      (held.map (Key.rename rename)) =
        (labels.foldl (fun held label => scope.key label :: held) held).map
          (Key.rename rename) := by
    intro held
    induction labels generalizing held with
    | nil => rfl
    | cons label rest ih =>
      rw [List.foldl_cons, List.foldl_cons, key_rename hzero]
      exact ih (scope.key label :: held)
  simp only [holding, Scope.rename] at hheld ⊢
  rw [hheld]

theorem define_rename (hzero : rename 0 = 0) {t : Ty} (scope : Scope) (name : Label)
    (body : Parser t) :
    (scope.rename rename).define name body = (scope.define name body).rename rename := by
  simp only [define, key_rename hzero]
  rfl

theorem renew_rename (scope : Scope) (level generation : Nat) :
    (scope.rename rename).renew level (rename generation) =
      (scope.renew level generation).rename rename := rfl

theorem keeps_rename (hzero : rename 0 = 0) (hinjective : Function.Injective rename)
    (scope : Scope) (key : Key) :
    (scope.rename rename).keeps (key.rename rename) = scope.keeps key := by
  refine Bool.eq_iff_iff.2 ?_
  have hgeneration : rename key.generation = 0 ↔ key.generation = 0 := by
    constructor
    · intro h
      exact hinjective (h.trans hzero.symm)
    · intro h
      rw [h, hzero]
  have hheld : key.rename rename ∈ scope.held.map (Key.rename rename) ↔ key ∈ scope.held :=
    List.mem_map_of_injective (Key.rename_injective hinjective)
  rw [keeps_iff, keeps_iff]
  exact or_congr hgeneration hheld

theorem rulesFrom_rename (hinjective : Function.Injective rename) (scope : Scope) (key : Key) :
    (scope.rename rename).rulesFrom (key.rename rename) =
      (scope.rulesFrom key).map (Rule.rename rename) := by
  have hsame : ((fun rule : Rule => rule.key != key.rename rename) ∘ Rule.rename rename) =
      fun rule => rule.key != key := by
    funext rule
    have hkey : rule.key.rename rename = key.rename rename ↔ rule.key = key :=
      (Key.rename_injective hinjective).eq_iff
    exact Bool.eq_iff_iff.2 (by simp only [Function.comp, Rule.rename, bne_iff_ne, Ne, hkey])
  simp only [rulesFrom, Scope.rename, List.dropWhile_map, hsame]

/-- A renamed scope finds the same rules, in renamed scopes. -/
theorem resolve_rename (hzero : rename 0 = 0) (hinjective : Function.Injective rename)
    (scope : Scope) (name : Label) (t : Ty) :
    (scope.rename rename).resolve name t =
      (scope.resolve name t).map fun (body, inner) => (body, inner.rename rename) := by
  simp only [resolve, key_rename hzero, rulesFrom_rename hinjective]
  cases scope.rulesFrom (scope.key name) with
  | nil => rfl
  | cons rule outer =>
    simp only [List.map_cons, Rule.rename, keeps_rename hzero hinjective]
    split
    · split
      · rfl
      · rfl
    · rfl

/-- Only the generations in use matter for a renaming. -/
theorem rename_congr (h : scope.Below bound)
    (hsame : ∀ generation < bound, rename generation = rename' generation) :
    scope.rename rename = scope.rename rename' := by
  have hgenerations : ∀ generations : List (Nat × Nat), (∀ entry ∈ generations, entry.2 < bound) →
      renameGenerations rename generations = renameGenerations rename' generations :=
    fun generations hlt => List.map_congr_left fun entry hentry => by
      rw [hsame entry.2 (hlt entry hentry)]
  have hkey : ∀ key : Key, key.generation < bound → key.rename rename = key.rename rename' :=
    fun key hlt => by simp only [Key.rename, hsame key.generation hlt]
  have hrules : scope.rules.map (Rule.rename rename) = scope.rules.map (Rule.rename rename') :=
    List.map_congr_left fun rule hrule => by
      simp only [Rule.rename, hkey rule.key (h.rule_key rule hrule),
        hgenerations rule.generations (h.rule_generations rule hrule)]
  have hheld : scope.held.map (Key.rename rename) = scope.held.map (Key.rename rename') :=
    List.map_congr_left fun key hmem => hkey key (h.held key hmem)
  simp only [Scope.rename, hrules, hgenerations scope.generations h.generations, hheld]

namespace Below

theorem raise (h : scope.Below bound) {bound' : Nat} (hle : bound ≤ bound') :
    scope.Below bound' :=
  ⟨fun rule hrule => Nat.lt_of_lt_of_le (h.rule_key rule hrule) hle,
    fun rule hrule entry hentry =>
      Nat.lt_of_lt_of_le (h.rule_generations rule hrule entry hentry) hle,
    fun entry hentry => Nat.lt_of_lt_of_le (h.generations entry hentry) hle,
    fun key hkey => Nat.lt_of_lt_of_le (h.held key hkey) hle⟩

theorem holding (h : scope.Below bound) (hbound : 0 < bound) (labels : List Label) :
    (scope.holding labels).Below bound := by
  refine ⟨h.rule_key, h.rule_generations, h.generations, fun key hkey => ?_⟩
  rcases mem_held_holding.1 hkey with ⟨label, -, rfl⟩ | hkey
  · exact generationOf_lt hbound h.generations label.level
  · exact h.held key hkey

theorem define (h : scope.Below bound) (hbound : 0 < bound) {t : Ty} (name : Label)
    (body : Parser t) : (scope.define name body).Below bound := by
  refine ⟨fun rule hrule => ?_, fun rule hrule => ?_, h.generations, h.held⟩
  · rcases List.mem_cons.1 hrule with rfl | hrule
    · exact generationOf_lt hbound h.generations name.level
    · exact h.rule_key rule hrule
  · rcases List.mem_cons.1 hrule with rfl | hrule
    · exact h.generations
    · exact h.rule_generations rule hrule

theorem resolve (h : scope.Below bound) {name : Label} {t : Ty} {body : Parser t} {inner : Scope}
    (hfound : scope.resolve name t = some (body, inner)) : inner.Below bound := by
  obtain ⟨rule, outer, hrules, -, rfl⟩ := resolve_eq_some hfound
  obtain ⟨-, hmem⟩ := key_of_rulesFrom hrules
  exact ⟨fun rule' hrule' => h.rule_key rule' (hmem rule' hrule'),
    fun rule' hrule' => h.rule_generations rule' (hmem rule' hrule'),
    h.rule_generations rule (hmem rule (List.mem_cons_self ..)), h.held⟩

theorem renew (h : scope.Below bound) (level : Nat) :
    (scope.renew level bound).Below (bound + 1) := by
  have hraise := h.raise (Nat.le_succ bound)
  refine ⟨hraise.rule_key, hraise.rule_generations, fun entry hentry => ?_, hraise.held⟩
  rcases List.mem_cons.1 hentry with rfl | hentry
  · exact Nat.lt_succ_self bound
  · exact hraise.generations entry hentry

end Below

/-- What a scope names is not changed by renaming its generations. -/
theorem Meets.renamed {names : Names} {level bound' : Nat} (h : scope.Meets names level bound)
    (hzero : rename 0 = 0) (hinjective : Function.Injective rename)
    (hlt : ∀ generation < bound, rename generation < bound') :
    (scope.rename rename).Meets names level bound' := by
  refine ⟨fun rule hrule name hlevel hkey => ?_, fun l hl l' hl' heq => ?_, fun rule hrule => ?_,
    fun l hl => ?_⟩
  · obtain ⟨original, horiginal, rfl⟩ := List.mem_map.1 hrule
    rw [key_rename hzero] at hkey
    obtain ⟨hname, hbody, hgenerations⟩ :=
      h.rule original horiginal name hlevel (Key.rename_injective hinjective hkey)
    refine ⟨hname, hbody, fun l hl => ?_⟩
    simp only [Rule.rename, Scope.rename, generationOf_rename hzero, hgenerations l hl]
  · simp only [Scope.rename, generationOf_rename hzero] at heq
    exact h.injective l hl l' hl' (hinjective heq)
  · obtain ⟨original, horiginal, rfl⟩ := List.mem_map.1 hrule
    exact hlt _ (h.rule_lt original horiginal)
  · simp only [Scope.rename, generationOf_rename hzero]
    exact hlt _ (h.generation_lt l hl)

end Scope

end ParserKit
