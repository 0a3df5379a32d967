import Mathlib.Data.Nat.Basic
import ParserKit.Proofs.Labelling

/-!
A well labelled parser means the same in all scopes that give its labels the same
names, as long as nothing is remembered: from the same place it ends the same way.
The scopes may number their generations differently and hold different rules, so
either run may find that a rule was dropped where the other does not; nothing else
tells them apart.
-/

namespace ParserKit

open Comparison

/-- A scope in which the rules that can be referred to are what the names say. The
generations in use are below the bound. -/
structure Scope.Meets (scope : Scope) (names : Names) (level bound : Nat) : Prop where
  rule : ∀ rule ∈ scope.rules, ∀ name : Label, name.level ≤ level → scope.key name = rule.key →
    names name = some ⟨rule.ty, rule.body⟩ ∧ rule.body.Labelled names name.level ∧
    ∀ l ≤ name.level, generationOf rule.generations l = generationOf scope.generations l
  injective : ∀ l ≤ level, ∀ l' ≤ level,
    generationOf scope.generations l = generationOf scope.generations l' → l = l'
  rule_lt : ∀ rule ∈ scope.rules, rule.key.generation < bound
  generation_lt : ∀ l ≤ level, generationOf scope.generations l < bound

theorem generationOf_cons_self {generations : List (Nat × Nat)} {level generation : Nat}
    (h : 0 < level) : generationOf ((level, generation) :: generations) level = generation := by
  simp [generationOf, Nat.pos_iff_ne_zero.1 h]

theorem generationOf_cons_of_ne {generations : List (Nat × Nat)} {level generation l : Nat}
    (h : l ≠ level) :
    generationOf ((level, generation) :: generations) l = generationOf generations l := by
  simp [generationOf, Ne.symm h]

namespace Scope

variable {scope : Scope} {names names' : Names} {level bound : Nat}

/-- What is built once has the same key everywhere. -/
theorem key_of_level {label : Label} (h : label.level = 0) (scope : Scope) :
    scope.key label = ⟨0, label.index⟩ := by
  simp [key, generationOf, h]

/-- The rules from a key outwards begin with one that has the key. -/
theorem key_of_rulesFrom {key : Key} {rule : Rule} {outer : List Rule}
    (h : scope.rulesFrom key = rule :: outer) :
    rule.key = key ∧ ∀ r ∈ rule :: outer, r ∈ scope.rules := by
  simp only [rulesFrom] at h
  constructor
  · have hhead := List.head?_dropWhile_not (fun r : Rule => r.key != key) scope.rules
    rw [h] at hhead
    simpa using hhead
  · intro r hr
    exact (List.dropWhile_sublist _).subset (h ▸ hr)

/-- What is found for a name, and when nothing is found. -/
theorem resolve_eq_some {name : Label} {t : Ty} {body : Parser t} {inner : Scope}
    (h : scope.resolve name t = some (body, inner)) :
    ∃ rule outer, scope.rulesFrom (scope.key name) = rule :: outer ∧
      rule = { key := rule.key, ty := t, body, generations := rule.generations } ∧
      inner = { scope with rules := rule :: outer, generations := rule.generations } := by
  simp only [resolve] at h
  split at h
  · exact absurd h (by simp)
  · rename_i rule outer hrules
    split at h
    · split at h
      · rename_i hty
        obtain ⟨key, ty, stored, generations⟩ := rule
        cases hty
        obtain ⟨rfl, rfl⟩ := Prod.mk.inj (Option.some.inj h)
        exact ⟨_, outer, hrules, rfl, rfl⟩
      · exact absurd h (by simp)
    · exact absurd h (by simp)

/-- What holds of all rules in scope holds of one that is found, and of all in scope there. -/
theorem forall_of_resolve {P : ∀ t, Parser t → Prop} (h : ∀ rule ∈ scope.rules, P rule.ty rule.body)
    {name : Label} {t : Ty} {body : Parser t} {inner : Scope}
    (hfound : scope.resolve name t = some (body, inner)) :
    P t body ∧ ∀ rule ∈ inner.rules, P rule.ty rule.body := by
  obtain ⟨rule, outer, hrules, hrule, rfl⟩ := resolve_eq_some hfound
  obtain ⟨-, hmem⟩ := key_of_rulesFrom hrules
  have hself := h rule (hmem rule List.mem_cons_self)
  rw [hrule] at hself
  exact ⟨hself, fun rule' hrule' => h rule' (hmem rule' hrule')⟩

namespace Meets

theorem lower (h : scope.Meets names level bound) {level' : Nat} (hle : level' ≤ level) :
    scope.Meets names level' bound := by
  refine ⟨fun rule hrule name hname => h.rule rule hrule name (Nat.le_trans hname hle), ?_,
    h.rule_lt, fun l hl => h.generation_lt l (Nat.le_trans hl hle)⟩
  intro l hl l' hl'
  exact h.injective l (Nat.le_trans hl hle) l' (Nat.le_trans hl' hle)

theorem raise (h : scope.Meets names level bound) {bound' : Nat} (hle : bound ≤ bound') :
    scope.Meets names level bound' :=
  ⟨h.rule, h.injective, fun rule hrule => Nat.lt_of_lt_of_le (h.rule_lt rule hrule) hle,
    fun l hl => Nat.lt_of_lt_of_le (h.generation_lt l hl) hle⟩

theorem congr (h : scope.Meets names level bound) (hnames : names.Agree names' level) :
    scope.Meets names' level bound := by
  refine ⟨fun rule hrule name hname hkey => ?_, h.injective, h.rule_lt, h.generation_lt⟩
  obtain ⟨hnamed, hbody, hgenerations⟩ := h.rule rule hrule name hname hkey
  exact ⟨(hnames name hname).symm.trans hnamed, hbody.congr (hnames.lower hname), hgenerations⟩

theorem holding (h : scope.Meets names level bound) (labels : List Label) :
    (scope.holding labels).Meets names level bound :=
  ⟨h.rule, h.injective, h.rule_lt, h.generation_lt⟩

/-- A key belongs to one label of the levels in use. -/
theorem key_injective (h : scope.Meets names level bound) {name name' : Label}
    (hname : name.level ≤ level) (hname' : name'.level ≤ level)
    (hkey : scope.key name = scope.key name') : name = name' := by
  obtain ⟨l, i⟩ := name
  obtain ⟨l', i'⟩ := name'
  obtain ⟨hgeneration, hindex⟩ := Key.mk.inj hkey
  obtain rfl := h.injective l hname l' hname' hgeneration
  obtain rfl : i = i' := hindex
  rfl

theorem define (h : scope.Meets names level bound) {t : Ty} {name : Label} {body : Parser t}
    (hlevel : name.level ≤ level) (hname : names name = some ⟨t, body⟩)
    (hbody : body.Labelled names name.level) :
    (scope.define name body).Meets names level bound := by
  refine ⟨fun rule hrule name' hlevel' hkey => ?_, h.injective, fun rule hrule => ?_,
    h.generation_lt⟩
  · rcases List.mem_cons.1 hrule with rfl | hrule
    · obtain rfl := h.key_injective hlevel' hlevel hkey
      exact ⟨hname, hbody, fun _ _ => rfl⟩
    · exact h.rule rule hrule name' hlevel' hkey
  · rcases List.mem_cons.1 hrule with rfl | hrule
    · exact h.generation_lt name.level hlevel
    · exact h.rule_lt rule hrule

/-- The scope of a rule that was found meets the names of its level. -/
theorem resolve (h : scope.Meets names level bound) {name : Label} (hlevel : name.level ≤ level)
    {t : Ty} {body : Parser t} {inner : Scope}
    (hfound : scope.resolve name t = some (body, inner)) :
    names name = some ⟨t, body⟩ ∧ body.Labelled names name.level ∧
      (∀ l ≤ name.level, generationOf inner.generations l = generationOf scope.generations l) ∧
      inner.Meets names name.level bound := by
  obtain ⟨rule, outer, hrules, hrule, rfl⟩ := resolve_eq_some hfound
  obtain ⟨hkey, hmem⟩ := key_of_rulesFrom hrules
  obtain ⟨hname, hbody, hgenerations⟩ := h.rule rule (hmem rule (List.mem_cons_self ..)) name hlevel
    hkey.symm
  rw [hrule] at hname hbody
  refine ⟨hname, hbody, hgenerations, ⟨fun rule' hrule' name' hlevel' hkey' => ?_, ?_, ?_, ?_⟩⟩
  · have hsame : scope.key name' = rule'.key := by
      rw [← hkey']
      simp only [key, hgenerations name'.level hlevel']
    obtain ⟨hname', hbody', hgenerations'⟩ :=
      h.rule rule' (hmem rule' hrule') name' (Nat.le_trans hlevel' hlevel) hsame
    refine ⟨hname', hbody', fun l hl => ?_⟩
    exact (hgenerations' l hl).trans (hgenerations l (Nat.le_trans hl hlevel')).symm
  · intro l hl l' hl' heq
    simp only [hgenerations l hl, hgenerations l' hl'] at heq
    exact h.injective l (Nat.le_trans hl hlevel) l' (Nat.le_trans hl' hlevel) heq
  · exact fun rule' hrule' => h.rule_lt rule' (hmem rule' hrule')
  · intro l hl
    simp only [hgenerations l hl]
    exact h.generation_lt l (Nat.le_trans hl hlevel)

/-- A rebuilt part has its own names for its level, under a generation that no rule
has yet. -/
theorem renew (h : scope.Meets names level bound) {inner generation : Nat} (hpos : 0 < inner)
    (hinner : inner ≤ level + 1)
    (hbelow : ∀ label : Label, label.level < inner → names label = names' label)
    (hnew : bound ≤ generation) :
    (scope.renew inner generation).Meets names' inner (generation + 1) := by
  have hself : generationOf (scope.renew inner generation).generations inner = generation :=
    generationOf_cons_self hpos
  have hother : ∀ l, l ≠ inner → generationOf (scope.renew inner generation).generations l =
      generationOf scope.generations l :=
    fun l hl => generationOf_cons_of_ne hl
  have hold : ∀ l ≤ inner, l ≠ inner → generationOf scope.generations l < generation :=
    fun l hl hne => Nat.lt_of_lt_of_le (h.generation_lt l (by omega)) hnew
  refine ⟨fun rule hrule name hlevel hkey => ?_, ?_, fun rule hrule => ?_, fun l hl => ?_⟩
  · have hgeneration := congrArg Key.generation hkey
    simp only [key] at hgeneration
    have hlt := h.rule_lt rule hrule
    by_cases hname : name.level = inner
    · rw [hname, hself] at hgeneration
      omega
    · have hkey' : scope.key name = rule.key := by
        rw [← hkey]
        simp only [key, hother name.level hname]
      obtain ⟨hnamed, hbody, hgenerations⟩ := h.rule rule hrule name (by omega) hkey'
      have hagree : names.Agree names' name.level := fun label hlabel => hbelow label (by omega)
      refine ⟨(hagree name (Nat.le_refl _)).symm.trans hnamed, hbody.congr hagree, fun l hl => ?_⟩
      rw [hgenerations l hl, hother l (by omega)]
  · intro l hl l' hl' heq
    by_cases hne : l = inner
    · by_cases hne' : l' = inner
      · exact hne.trans hne'.symm
      · rw [hne, hself, hother l' hne'] at heq
        have := hold l' hl' hne'
        omega
    · by_cases hne' : l' = inner
      · rw [hne', hself, hother l hne] at heq
        have := hold l hl hne
        omega
      · rw [hother l hne, hother l' hne'] at heq
        exact h.injective l (by omega) l' (by omega) heq
  · have := h.rule_lt rule hrule
    omega
  · by_cases hne : l = inner
    · rw [hne, hself]
      omega
    · rw [hother l hne]
      have := hold l hl hne
      omega

theorem root (names : Names) : Scope.root.Meets names 0 1 := by
  refine ⟨fun rule hrule => absurd hrule (by simp [Scope.root]), fun l hl l' hl' _ => by omega,
    fun rule hrule => absurd hrule (by simp [Scope.root]), fun l hl => ?_⟩
  obtain rfl : l = 0 := by omega
  exact Nat.one_pos

end Meets

end Scope

/-- A state in which nothing is remembered and the generations below the bound are
taken. -/
structure State.Plain (s : State) (bound : Nat) : Prop where
  memoize_eq : s.cursor.memoize = false
  le_generation : bound ≤ s.nextGeneration

theorem Action.remembered_of_plain {t : Ty} {s : State} {bound : Nat} (h : s.Plain bound)
    (key : Key) (part : Action t.Elem) : part.remembered key s = part s := by
  simp [Action.remembered, h.memoize_eq]

namespace Comparison

/-- Two runs that remember nothing. Either may find that a rule was dropped. -/
def unremembered : Comparison (Nat × Nat) where
  states w s s' := s.Beside s' ∧ s.Plain w.1 ∧ s'.Plain w.2
  firstExcuse cause := cause = .ruleDropped
  secondExcuse cause := cause = .ruleDropped
  beside h := h.1
  movedTo h q := ⟨h.1.movedTo q, ⟨h.2.1.1, h.2.1.2⟩, h.2.2.1, h.2.2.2⟩
  tick h _ := ⟨⟨h.1.1, h.1.2⟩, ⟨h.2.1.1, h.2.1.2⟩, h.2.2.1, h.2.2.2⟩

/-- Scopes that meet the same names. -/
def unrememberedScoping : unremembered.Scoping where
  related w names level scope scope' :=
    scope.Meets names level w.1 ∧ scope'.Meets names level w.2
  later hw h := ⟨h.1.raise hw.1, h.2.raise hw.2⟩
  lower hle h := ⟨h.1.lower hle, h.2.lower hle⟩
  holding h labels := ⟨h.1.holding labels, h.2.holding labels⟩
  define h hlevel hname hbody := ⟨h.1.define hlevel hname hbody, h.2.define hlevel hname hbody⟩
  resolve {w names level scope scope' name} h hlevel t := by
    cases hfirst : scope.resolve name t with
    | none => exact .inr (.inr (.inl ⟨rfl, rfl⟩))
    | some found =>
      cases hsecond : scope'.resolve name t with
      | none => exact .inr (.inr (.inr ⟨rfl, rfl⟩))
      | some found' =>
        obtain ⟨body, inner⟩ := found
        obtain ⟨body', inner'⟩ := found'
        obtain ⟨hname, hbody, -, hinner⟩ := h.1.resolve hlevel hfirst
        obtain ⟨hname', -, -, hinner'⟩ := h.2.resolve hlevel hsecond
        -- both bodies are what the name stands for
        obtain rfl : body = body' := by
          simpa using (hname.symm.trans hname')
        exact .inl ⟨body, inner, inner', rfl, rfl, hbody, hinner, hinner'⟩
  renew {w names names' level inner scope scope' s s'} h hs hpos hinner hbelow := by
    obtain ⟨hbeside, hplain, hplain'⟩ := hs
    refine ⟨(s.nextGeneration + 1, s'.nextGeneration + 1), ?_, ?_, ?_, ?_⟩
    · exact ⟨Nat.le_succ_of_le hplain.2, Nat.le_succ_of_le hplain'.2⟩
    · exact ⟨⟨hbeside.1, hbeside.2⟩, ⟨hplain.1, Nat.le_refl _⟩, hplain'.1, Nat.le_refl _⟩
    · exact h.1.renew hpos hinner hbelow hplain.2
    · exact h.2.renew hpos hinner hbelow hplain'.2
  remembered {w names scope scope' t label p fuel} _ _ _ hp := by
    intro w' hw s s' hs
    rw [Action.remembered_of_plain hs.2.1, Action.remembered_of_plain hs.2.2]
    exact hp w' hw s s' hs

end Comparison

/-- From the same place, a parser ends the same way in any two scopes that give its
labels the same names, unless the second finds a rule dropped. -/
theorem Parser.meaning_agree {t : Ty} {p : Parser t} {names : Names} {level bound bound' : Nat}
    {scope scope' : Scope} (hp : p.Labelled names level) (h : scope.Meets names level bound)
    (h' : scope'.Meets names level bound') {s s' : State} (hs : s.Plain bound)
    (hs' : s'.Plain bound') (hbeside : s.Beside s') {outcome : Outcome t.Elem} {final : State}
    (hdone : p.meaning scope s = .done (outcome, final)) :
    p.meaning scope' s' = .fault .ruleDropped ∨
      ∃ final', p.meaning scope' s' = .done (outcome, final') ∧ final.Beside final' ∧
        final'.Plain bound' := by
  obtain ⟨fuel, hfuel⟩ := exists_eval_eq_meaning (hdone.trans_ne (by simp))
  have hactions := unrememberedScoping.actions (w := (bound, bound')) fuel p hp ⟨h, h'⟩
  have hresults := hactions (bound, bound') le_rfl s s' ⟨hbeside, hs, hs'⟩
  rw [hfuel, hdone] at hresults
  cases hresult : p.meaning scope' s' with
  | timeout =>
    rw [hresult] at hresults
    cases hresults
  | fault cause =>
    rw [hresult] at hresults
    cases hresults with
    | secondExcused hcause => exact .inl (congrArg Result.fault hcause)
  | done value =>
    rw [hresult] at hresults
    cases hresults with
    | done hw _ hfinal =>
      exact .inr ⟨_, rfl, hfinal.1, hfinal.2.2.1, Nat.le_trans hw.2 hfinal.2.2.2⟩

end ParserKit
