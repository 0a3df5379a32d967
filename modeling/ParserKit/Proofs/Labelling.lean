import Mathlib.Data.Sigma.Basic
import ParserKit.Proofs.Meaning

/-!
Labels as names. In a well labelled grammar each label names one parser: every
memoized parser and every rule with the label is that parser. A rebuilt part has
names of its own for the labels of its level and shares those of the levels
outside of it. A part that rebuilds itself, however often, is a rule of level zero
whose body is rebuilt.

A comparison of two runs extends from the parsers that do not care about their
scope to all well labelled ones, if it comes with a relation between scopes that
the operations on scopes keep.
-/

namespace ParserKit

/-- The parser that each label names. -/
abbrev Names := Label → Option ((t : Ty) × Parser t)

namespace Names

/-- The names of the levels up to a level. -/
def upTo (names : Names) (level : Nat) : Names := fun label =>
  if label.level ≤ level then names label else none

/-- Names that are the same up to a level. -/
def Agree (names names' : Names) (level : Nat) : Prop :=
  ∀ label : Label, label.level ≤ level → names label = names' label

theorem agree_upTo (names : Names) (level : Nat) : Agree names (names.upTo level) level := by
  intro label h
  simp only [upTo, h, if_true]

theorem Agree.lower {names names' : Names} {level level' : Nat} (h : Agree names names' level)
    (hle : level' ≤ level) : Agree names names' level' :=
  fun label hlevel => h label (Nat.le_trans hlevel hle)

theorem Agree.trans {names names' names'' : Names} {level : Nat} (h : Agree names names' level)
    (h' : Agree names' names'' level) : Agree names names'' level :=
  fun label hlevel => (h label hlevel).trans (h' label hlevel)

theorem upTo_eq_of_agree {names names' : Names} {level : Nat} (h : Agree names names' level) :
    names.upTo level = names'.upTo level := by
  funext label
  by_cases hlevel : label.level ≤ level
  · simp only [upTo, hlevel, if_true, h label hlevel]
  · simp only [upTo, hlevel, if_false]

end Names

namespace Parser

variable {t : Ty}

/-- The labels of a parser that stands at a level name what the names say. -/
def Labelled : {t : Ty} → Names → (level : Nat) → Parser t → Prop
  | _, _, _, .atom _ => True
  | _, names, level, .wrap _ p => p.Labelled names level
  | _, names, level, .bind p _ next =>
    p.Labelled names level ∧ ∀ value, (next value).Labelled names level
  | _, names, level, .sequence items => ∀ i, (items i).Labelled names level
  | _, names, level, .choice first second =>
    first.Labelled names level ∧ second.Labelled names level
  | t, names, level, .memo label p =>
    label.level ≤ level ∧ names label = some ⟨t, p⟩ ∧ p.Labelled names label.level
  | _, names, level, .many p => p.Labelled names level
  | _, names, level, .many1 p => p.Labelled names level
  | t, names, level, .recursive name body =>
    name.level ≤ level ∧ names name = some ⟨t, body⟩ ∧ body.Labelled names name.level
  | _, _, level, .rule name => name.level ≤ level
  | _, names, level, .fresh inner _ body =>
    0 < inner ∧ inner ≤ level + 1 ∧ ∃ names', (body ()).Labelled names' inner ∧
      ∀ label : Label, label.level < inner → names label = names' label
  | _, names, level, .tick _ p => p.Labelled names level

/-- A whole grammar in which each label names one parser. -/
def WellLabelled (p : Parser t) : Prop :=
  ∃ names, p.Labelled names 0

/-- Only the names up to the level of a parser matter. -/
theorem Labelled.congr {names names' : Names} {level : Nat} {p : Parser t}
    (h : p.Labelled names level) (hnames : names.Agree names' level) : p.Labelled names' level := by
  induction p generalizing names names' level with
  | atom a => trivial
  | wrap wrapper p ih => exact ih h hnames
  | bind p captures next ihp ihnext =>
    exact ⟨ihp h.1 hnames, fun value => ihnext value (h.2 value) hnames⟩
  | sequence items ih => exact fun i => ih i (h i) hnames
  | choice first second ihfirst ihsecond => exact ⟨ihfirst h.1 hnames, ihsecond h.2 hnames⟩
  | memo label p ih =>
    obtain ⟨hlevel, hname, hp⟩ := h
    exact ⟨hlevel, (hnames label hlevel).symm.trans hname, ih hp (hnames.lower hlevel)⟩
  | many p ih => exact ih h hnames
  | many1 p ih => exact ih h hnames
  | recursive name body ih =>
    obtain ⟨hlevel, hname, hbody⟩ := h
    exact ⟨hlevel, (hnames name hlevel).symm.trans hname, ih hbody (hnames.lower hlevel)⟩
  | rule name => exact h
  | fresh inner captures body ih =>
    obtain ⟨hpos, hinner, names'', hbody, hbelow⟩ := h
    refine ⟨hpos, hinner, names'', hbody, fun label hlabel => ?_⟩
    exact (hnames label (by omega)).symm.trans (hbelow label hlabel)
  | tick counter p ih => exact ih h hnames

/-- A parser may stand at any further level. -/
theorem Labelled.raise {names : Names} {level level' : Nat} {p : Parser t}
    (h : p.Labelled names level) (hle : level ≤ level') : p.Labelled names level' := by
  induction p generalizing names level level' with
  | atom a => trivial
  | wrap wrapper p ih => exact ih h hle
  | bind p captures next ihp ihnext =>
    exact ⟨ihp h.1 hle, fun value => ihnext value (h.2 value) hle⟩
  | sequence items ih => exact fun i => ih i (h i) hle
  | choice first second ihfirst ihsecond => exact ⟨ihfirst h.1 hle, ihsecond h.2 hle⟩
  | memo label p ih => exact ⟨Nat.le_trans h.1 hle, h.2⟩
  | many p ih => exact ih h hle
  | many1 p ih => exact ih h hle
  | recursive name body ih => exact ⟨Nat.le_trans h.1 hle, h.2⟩
  | rule name => exact Nat.le_trans h hle
  | fresh inner captures body ih =>
    exact ⟨h.1, Nat.le_trans h.2.1 (Nat.succ_le_succ hle), h.2.2⟩
  | tick counter p ih => exact ih h hle

end Parser

open ParserKit.Parser

namespace Comparison

variable {ω : Type} [Preorder ω]

/-- A comparison of runs together with a relation between the scopes of the two
runs, for the names and the level in force. Each operation on scopes keeps it. -/
structure Scoping (c : Comparison ω) where
  related : ω → Names → Nat → Scope → Scope → Prop
  later : ∀ {w w' names level scope scope'}, w ≤ w' → related w names level scope scope' →
    related w' names level scope scope'
  lower : ∀ {w names level level' scope scope'}, level' ≤ level →
    related w names level scope scope' → related w names level' scope scope'
  holding : ∀ {w names level scope scope'}, related w names level scope scope' →
    ∀ labels, related w names level (scope.holding labels) (scope'.holding labels)
  define : ∀ {w names level scope scope'} {t : Ty} {name : Label} {body : Parser t},
    related w names level scope scope' → name.level ≤ level → names name = some ⟨t, body⟩ →
    body.Labelled names name.level →
    related w names level (scope.define name body) (scope'.define name body)
  /-- Both runs find a rule, or neither does, or the one that does not is excused. -/
  resolve : ∀ {w names level scope scope'} {name : Label}, related w names level scope scope' →
    name.level ≤ level → ∀ t,
    (∃ body inner inner', scope.resolve name t = some (body, inner) ∧
      scope'.resolve name t = some (body, inner') ∧ body.Labelled names name.level ∧
      related w names name.level inner inner') ∨
    (scope.resolve name t = none ∧ scope'.resolve name t = none) ∨
    (scope.resolve name t = none ∧ c.firstExcuse .ruleDropped) ∨
    (scope'.resolve name t = none ∧ c.secondExcuse .ruleDropped)
  renew : ∀ {w names names' level inner scope scope' s s'},
    related w names level scope scope' → c.states w s s' → 0 < inner → inner ≤ level + 1 →
    (∀ label : Label, label.level < inner → names label = names' label) →
    ∃ w', w ≤ w' ∧ c.states w' s.renew.2 s'.renew.2 ∧
      related w' names' inner (scope.renew inner s.renew.1) (scope'.renew inner s'.renew.1)
  remembered : ∀ {w names scope scope'} {t : Ty} {label : Label} {p : Parser t} {fuel : Nat},
    related w names label.level scope scope' → names label = some ⟨t, p⟩ →
    p.Labelled names label.level → c.Actions w (p.eval fuel scope) (p.meaning scope') →
    c.Actions w ((p.eval fuel scope).remembered (scope.key label))
      ((p.meaning scope').remembered (scope'.key label))

variable {c : Comparison ω} {w : ω} {α : Type}

theorem Actions.repeated {x y : Action α} (h : c.Actions w x y) (fuel : Nat) (values : List α) :
    c.Actions w (x.repeatFrom fuel values) (y.repeated values) := by
  intro w' hw s s' hs
  obtain ⟨bound, hbound⟩ := Action.repeatFrom_settles y values s'
  rw [← hbound (max bound fuel) (by omega)]
  exact h.repeatFrom (Nat.le_max_right bound fuel) values w' hw s s' hs

/-- Well labelled parsers compare in related scopes. -/
theorem Scoping.actions (sc : c.Scoping) (fuel : Nat) {t : Ty} (p : Parser t) {names : Names}
    {level : Nat} {scope scope' : Scope} (hp : p.Labelled names level)
    (h : sc.related w names level scope scope') :
    c.Actions w (p.eval fuel scope) (p.meaning scope') := by
  induction fuel generalizing t names level scope scope' w with
  | zero =>
    intro w' _ s s' _
    exact .timeout _
  | succ fuel ih =>
    cases p with
    | atom a =>
      rw [meaning_atom]
      exact .atom a
    | wrap wrapper p =>
      rw [meaning_wrap]
      exact (ih p hp h).wrapped wrapper
    | bind p captures next =>
      rw [meaning_bind]
      exact (ih p hp.1 (sc.holding h captures)).chain fun value => ih (next value) (hp.2 value) h
    | sequence items =>
      intro w' hw s s' hs
      rw [meaning_sequence, ← (c.beside hs).position_eq]
      have hitems := fun i => ih (items i) (hp i) (sc.holding h (ownedItems items))
      exact Actions.sequence hitems s.position (List.finRange _) [] w' hw s s' hs
    | choice first second =>
      rw [meaning_choice]
      exact (ih first hp.1 (sc.holding h second.owned)).choice (ih second hp.2 h)
    | memo label p =>
      rw [meaning_memo]
      obtain ⟨hlevel, hname, hp⟩ := hp
      have hlower := sc.lower hlevel h
      exact sc.remembered hlower hname hp (ih p hp hlower)
    | many p =>
      rw [meaning_many]
      exact (ih p hp (sc.holding h p.owned)).repeated fuel []
    | many1 p =>
      rw [meaning_many1]
      have hoccurrence := ih p hp (sc.holding h p.owned)
      exact hoccurrence.repeatFrom1 fun values => hoccurrence.repeated fuel values
    | recursive name body =>
      rw [meaning_recursive]
      obtain ⟨hlevel, hname, hbody⟩ := hp
      exact ih body hbody (sc.lower hlevel (sc.define h hlevel hname hbody))
    | rule name =>
      rw [meaning_rule]
      simp only [eval]
      rcases sc.resolve h hp t with ⟨body, inner, inner', hfirst, hsecond, hbody, hinner⟩ |
        ⟨hfirst, hsecond⟩ | ⟨hfirst, hexcuse⟩ | ⟨hsecond, hexcuse⟩
      · rw [hfirst, hsecond]
        exact ih body hbody hinner
      · rw [hfirst, hsecond]
        exact fun _ _ _ _ _ => .fault _
      · rw [hfirst]
        exact fun _ _ _ _ _ => .firstExcused hexcuse _
      · rw [hsecond]
        exact fun _ _ _ _ _ => .secondExcused hexcuse _
    | fresh inner captures body =>
      rw [meaning_fresh]
      obtain ⟨hpos, hinner, names', hbody, hbelow⟩ := hp
      intro w' hw s s' hs
      obtain ⟨w'', hw', hs', hrenewed⟩ := sc.renew (sc.later hw h) hs hpos hinner hbelow
      exact (ih (body ()) hbody hrenewed w'' le_rfl _ _ hs').earlier hw'
    | tick counter p =>
      rw [meaning_tick]
      exact (ih p hp h).tick counter

end Comparison

end ParserKit
