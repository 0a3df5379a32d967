import ParserKit.Proofs.Enclosure
import ParserKit.Proofs.Unfolding

/-!
Parsers of one form. Two parsers that were put together by the same steps differ only in
their labels, in the lists of rules that they keep in use, and in the parts that the steps
were given. By names they do the same from the same place, as long as those parts do.
-/

namespace ParserKit

open Comparison

/-- Two runs over the same text that stand at the same place. -/
def Comparison.placed : Comparison Unit where
  states _ s s' := s.Beside s'
  firstExcuse _ := False
  secondExcuse _ := False
  beside h := h
  movedTo h q := h.movedTo q
  tick h _ := ⟨h.1, h.2⟩

/-- Parsers of one form, that stand at levels of their own. The given parts are paired by
`parts`, the rules that the parsers are inside of by the list, innermost first. -/
inductive Parser.SameForm (parts : ∀ t, Parser t → Parser t → Prop) :
    List (Label × Label) → (level level' : Nat) → {t : Ty} → Parser t → Parser t → Prop where
  | part {rules : List (Label × Label)} {level level' : Nat} {t : Ty} {p p' : Parser t}
      (h : parts t p p') : SameForm parts rules level level' p p'
  | atom {rules : List (Label × Label)} {level level' : Nat} {t : Ty} (a : Atom t) :
      SameForm parts rules level level' (.atom a) (.atom a)
  | wrap {rules : List (Label × Label)} {level level' : Nat} {a b : Ty} (wrapper : Wrapper a b)
      {p p' : Parser a} (hp : SameForm parts rules level level' p p') :
      SameForm parts rules level level' (.wrap wrapper p) (.wrap wrapper p')
  | bind {rules : List (Label × Label)} {level level' : Nat} {a b : Ty} {p p' : Parser a}
      {captures captures' : List Label} {next next' : a.Elem → Parser b}
      (hp : SameForm parts rules level level' p p')
      (hnext : ∀ value, SameForm parts rules level level' (next value) (next' value)) :
      SameForm parts rules level level' (.bind p captures next) (.bind p' captures' next')
  | sequence {rules : List (Label × Label)} {level level' : Nat} {t : Ty} {n : Nat}
      {items items' : Fin n → Parser (.option t)}
      (h : ∀ i, SameForm parts rules level level' (items i) (items' i)) :
      SameForm parts rules level level' (.sequence items) (.sequence items')
  | choice {rules : List (Label × Label)} {level level' : Nat} {t : Ty}
      {first first' second second' : Parser t}
      (h : SameForm parts rules level level' first first')
      (h' : SameForm parts rules level level' second second') :
      SameForm parts rules level level' (.choice first second) (.choice first' second')
  | memo {rules : List (Label × Label)} {level level' : Nat} {t : Ty} {label label' : Label}
      {p p' : Parser t} (hlabel : label.level = level) (hlabel' : label'.level = level')
      (hp : SameForm parts rules level level' p p') :
      SameForm parts rules level level' (.memo label p) (.memo label' p')
  | many {rules : List (Label × Label)} {level level' : Nat} {t : Ty} {p p' : Parser t}
      (hp : SameForm parts rules level level' p p') :
      SameForm parts rules level level' (.many p) (.many p')
  | many1 {rules : List (Label × Label)} {level level' : Nat} {t : Ty} {p p' : Parser t}
      (hp : SameForm parts rules level level' p p') :
      SameForm parts rules level level' (.many1 p) (.many1 p')
  | recursive {rules : List (Label × Label)} {level level' : Nat} {t : Ty} {name name' : Label}
      {body body' : Parser t} (hname : name.level = level) (hname' : name'.level = level')
      (hbody : SameForm parts ((name, name') :: rules) level level' body body') :
      SameForm parts rules level level' (.recursive name body) (.recursive name' body')
  | rule {rules : List (Label × Label)} {level level' : Nat} {t : Ty} {name name' : Label}
      (h : (name, name') ∈ rules) :
      SameForm parts rules level level' (.rule name : Parser t) (.rule name')
  | fresh {rules : List (Label × Label)} {level level' : Nat} {t : Ty}
      (captures captures' : List Label) {body body' : Unit → Parser t}
      (hbody : SameForm parts rules (level + 1) (level' + 1) (body ()) (body' ())) :
      SameForm parts rules level level' (.fresh (level + 1) captures body)
        (.fresh (level' + 1) captures' body')
  | tick {rules : List (Label × Label)} {level level' : Nat} {t : Ty} (counter : Nat)
      {p p' : Parser t} (hp : SameForm parts rules level level' p p') :
      SameForm parts rules level level' (.tick counter p) (.tick counter p')

namespace Parser

/-- Parsers of one form refer to the rules that they are inside of, and to what their parts
refer to. -/
theorem SameForm.enclosed {parts : ∀ t, Parser t → Parser t → Prop} {given : Label → Prop}
    (hparts : ∀ t p p', parts t p p' → p.RulesBuiltOnce → p.Enclosed given)
    {rules : List (Label × Label)} {level level' : Nat} {t : Ty} {p p' : Parser t}
    (h : SameForm parts rules level level' p p') (hp : p.RulesBuiltOnce) :
    p.Enclosed fun label => (∃ label', (label, label') ∈ rules) ∨ given label := by
  induction h with
  | part h => exact (hparts _ _ _ h hp).mono fun _ => .inr
  | atom a => trivial
  | wrap wrapper _ ih => exact ih hp
  | bind _ _ ihp ihnext => exact ⟨ihp hp.1, fun value => ihnext value (hp.2 value)⟩
  | sequence _ ih => exact fun i => ih i (hp i)
  | choice _ _ ih ih' => exact ⟨ih hp.1, ih' hp.2⟩
  | memo _ _ _ ih => exact ih hp
  | many _ ih => exact ih hp
  | many1 _ ih => exact ih hp
  | recursive _ _ _ ih =>
    refine ⟨hp.1, (ih hp.2).mono fun label hlabel => ?_⟩
    rcases hlabel with ⟨label', hmem⟩ | hgiven
    · rcases List.mem_cons.1 hmem with heq | hmem
      · exact .inl (Prod.mk.inj heq).1
      · exact .inr (.inl ⟨label', hmem⟩)
    · exact .inr (.inr hgiven)
  | rule h => exact .inl ⟨_, h⟩
  | fresh _ _ _ ih => exact ih hp
  | tick _ _ ih => exact ih hp

theorem SameForm.enclosed_of_nil {parts : ∀ t, Parser t → Parser t → Prop} {given : Label → Prop}
    (hparts : ∀ t p p', parts t p p' → p.RulesBuiltOnce → p.Enclosed given) {level level' : Nat}
    {t : Ty} {p p' : Parser t} (h : SameForm parts [] level level' p p') (hp : p.RulesBuiltOnce) :
    p.Enclosed given :=
  (h.enclosed hparts hp).mono fun _ hlabel =>
    hlabel.resolve_left fun ⟨_, hmem⟩ => List.not_mem_nil hmem

/-- The rules that parsers of one form are inside of: each pair of them has definitions of
one form, inside of the same rules. -/
inductive RulesNamed (parts : ∀ t, Parser t → Parser t → Prop) (names names' : Names) :
    (level level' : Nat) → List (Label × Label) → Prop where
  | nil (level level' : Nat) : RulesNamed parts names names' level level' []
  | cons {level level' : Nat} {rules : List (Label × Label)} {t : Ty} {name name' : Label}
      {body body' : Parser t} (hlevel : name.level ≤ level) (hlevel' : name'.level ≤ level')
      (hname : names name = some ⟨t, body⟩) (hname' : names' name' = some ⟨t, body'⟩)
      (hbody : body.Labelled names name.level) (hbody' : body'.Labelled names' name'.level)
      (hform : SameForm parts ((name, name') :: rules) name.level name'.level body body')
      (hrules : RulesNamed parts names names' name.level name'.level rules) :
      RulesNamed parts names names' level level' ((name, name') :: rules)

namespace RulesNamed

variable {parts : ∀ t, Parser t → Parser t → Prop} {names names' names₁ names₁' : Names}
  {level level' level₁ level₁' : Nat} {rules : List (Label × Label)}

/-- Only the names up to the levels of the rules matter. -/
theorem congr (h : RulesNamed parts names names' level level' rules)
    (hnames : names.Agree names₁ level) (hnames' : names'.Agree names₁' level')
    (hle : level ≤ level₁) (hle' : level' ≤ level₁') :
    RulesNamed parts names₁ names₁' level₁ level₁' rules := by
  induction h generalizing level₁ level₁' with
  | nil => exact .nil _ _
  | cons hlevel hlevel' hname hname' hbody hbody' hform _ ih =>
    have hlower := hnames.lower hlevel
    have hlower' := hnames'.lower hlevel'
    exact .cons (Nat.le_trans hlevel hle) (Nat.le_trans hlevel' hle')
      ((hnames _ hlevel).symm.trans hname) ((hnames' _ hlevel').symm.trans hname')
      (hbody.congr hlower) (hbody'.congr hlower') hform
      (ih hlower hlower' (Nat.le_refl _) (Nat.le_refl _))

/-- The definitions of a pair of rules, and the rules that those are inside of. -/
theorem find {name name' : Label} (h : RulesNamed parts names names' level level' rules)
    (hmem : (name, name') ∈ rules) :
    ∃ (t : Ty) (body body' : Parser t) (inner : List (Label × Label)),
      names name = some ⟨t, body⟩ ∧ names' name' = some ⟨t, body'⟩ ∧
      name.level ≤ level ∧ name'.level ≤ level' ∧
      body.Labelled names name.level ∧ body'.Labelled names' name'.level ∧
      SameForm parts inner name.level name'.level body body' ∧
      RulesNamed parts names names' name.level name'.level inner := by
  induction h with
  | nil => exact absurd hmem List.not_mem_nil
  | cons hlevel hlevel' hname hname' hbody hbody' hform hrules ih =>
    rcases List.mem_cons.1 hmem with heq | hmem
    · obtain ⟨rfl, rfl⟩ := Prod.mk.inj heq
      exact ⟨_, _, _, _, hname, hname', hlevel, hlevel', hbody, hbody', hform,
        .cons (Nat.le_refl _) (Nat.le_refl _) hname hname' hbody hbody' hform hrules⟩
    · obtain ⟨t, body, body', inner, hfound, hfound', hle, hle', hrest⟩ := ih hmem
      exact ⟨t, body, body', inner, hfound, hfound', Nat.le_trans hle hlevel,
        Nat.le_trans hle' hlevel', hrest⟩

end RulesNamed

/-- The parts that two parsers were given do the same by names, with as much fuel as that.
All names will do that are the given ones at the level that is built once. -/
def PartsAgree (parts : ∀ t, Parser t → Parser t → Prop) (given given' : Names) (bound : Nat) :
    Prop :=
  ∀ (t : Ty) (p p' : Parser t), parts t p p' → ∀ names names' : Names, given.Agree names 0 →
    given'.Agree names' 0 → ∀ fuel ≤ bound,
      placed.Actions () (p.evalBy fuel names) (p'.meaningBy names')

variable {t : Ty}

/-- What the first of two parsers of one form does by names, the second one does as well. -/
theorem SameForm.actions {parts : ∀ t, Parser t → Parser t → Prop} {given given' : Names}
    {bound : Nat} (hparts : PartsAgree parts given given' bound) {fuel : Nat}
    (hfuel : fuel ≤ bound) {rules : List (Label × Label)} {level level' : Nat} {p p' : Parser t}
    (hform : SameForm parts rules level level' p p') {names names' : Names}
    (hp : p.Labelled names level) (hp' : p'.Labelled names' level')
    (hrules : RulesNamed parts names names' level level' rules) (hgiven : given.Agree names 0)
    (hgiven' : given'.Agree names' 0) :
    placed.Actions () (p.evalBy fuel names) (p'.meaningBy names') := by
  induction fuel generalizing t rules level level' p p' names names' with
  | zero => exact fun _ _ _ _ _ => .timeout _
  | succ fuel ih =>
    have hbound : fuel ≤ bound := Nat.le_of_succ_le hfuel
    cases hform with
    | part h => exact hparts _ _ _ h names names' hgiven hgiven' _ hfuel
    | atom a =>
      rw [meaningBy_atom]
      exact .atom a
    | wrap wrapper hform =>
      rw [meaningBy_wrap]
      exact (ih hbound hform hp hp' hrules hgiven hgiven').wrapped wrapper
    | bind hform hnext =>
      rw [meaningBy_bind]
      exact (ih hbound hform hp.1 hp'.1 hrules hgiven hgiven').chain fun value =>
        ih hbound (hnext value) (hp.2 value) (hp'.2 value) hrules hgiven hgiven'
    | sequence h =>
      intro w' hw s s' hs
      rw [meaningBy_sequence, ← (placed.beside hs).position_eq]
      have hitems := fun i => ih hbound (h i) (hp i) (hp' i) hrules hgiven hgiven'
      exact Actions.sequence hitems s.position (List.finRange _) [] w' hw s s' hs
    | choice h h' =>
      rw [meaningBy_choice]
      exact (ih hbound h hp.1 hp'.1 hrules hgiven hgiven').choice
        (ih hbound h' hp.2 hp'.2 hrules hgiven hgiven')
    | many hform =>
      rw [meaningBy_many]
      exact (ih hbound hform hp hp' hrules hgiven hgiven').repeated fuel []
    | many1 hform =>
      rw [meaningBy_many1]
      have hoccurrence := ih hbound hform hp hp' hrules hgiven hgiven'
      exact hoccurrence.repeatFrom1 fun values => hoccurrence.repeated fuel values
    | @memo _ _ _ _ label label' p p' hlabel hlabel' hform =>
      subst hlabel hlabel'
      rw [meaningBy_memo]
      obtain ⟨-, -, hp⟩ := hp
      obtain ⟨-, -, hp'⟩ := hp'
      have hup := names.agree_upTo label.level
      have hup' := names'.agree_upTo label'.level
      have hpart := ih hbound hform (hp.congr hup) (hp'.congr hup')
        (hrules.congr hup hup' (Nat.le_refl _) (Nat.le_refl _))
        (hgiven.trans (hup.lower (Nat.zero_le _))) (hgiven'.trans (hup'.lower (Nat.zero_le _)))
      exact fun w' hw s s' hs => hpart w' hw s.missed s'.missed ⟨hs.1, hs.2⟩
    | recursive hname hname' hform =>
      subst hname hname'
      rw [meaningBy_recursive]
      obtain ⟨-, hfound, hbody⟩ := hp
      obtain ⟨-, hfound', hbody'⟩ := hp'
      exact ih hbound hform hbody hbody' (.cons (Nat.le_refl _) (Nat.le_refl _) hfound hfound'
        hbody hbody' hform hrules) hgiven hgiven'
    | rule hmem =>
      obtain ⟨u, body, body', inner, hfound, hfound', -, -, hbody, hbody', hform, hinner⟩ :=
        hrules.find hmem
      by_cases hu : u = t
      · subst hu
        rw [meaningBy_rule names' hfound']
        simp only [evalBy, Names.find_eq hfound]
        exact ih hbound hform hbody hbody' hinner hgiven hgiven'
      · rw [meaningBy_rule_of_ne names' hfound' hu]
        simp only [evalBy, Names.find_eq_none hfound hu]
        exact fun _ _ _ _ _ => .fault _
    | fresh captures captures' hform =>
      rw [meaningBy_fresh]
      obtain ⟨-, -, hnames⟩ := hp
      obtain ⟨-, -, hnames'⟩ := hp'
      obtain ⟨hbody, hbelow⟩ := Names.renewed_spec hnames
      obtain ⟨hbody', hbelow'⟩ := Names.renewed_spec hnames'
      have hagree : names.Agree (names.renewed (_ + 1) _) _ :=
        fun label hlabel => hbelow label (Nat.lt_succ_of_le hlabel)
      have hagree' : names'.Agree (names'.renewed (_ + 1) _) _ :=
        fun label hlabel => hbelow' label (Nat.lt_succ_of_le hlabel)
      exact ih hbound hform hbody hbody'
        (hrules.congr hagree hagree' (Nat.le_succ _) (Nat.le_succ _))
        (hgiven.trans (hagree.lower (Nat.zero_le _)))
        (hgiven'.trans (hagree'.lower (Nat.zero_le _)))
    | tick counter hform =>
      rw [meaningBy_tick]
      exact (ih hbound hform hp hp' hrules hgiven hgiven').tick counter

end Parser

end ParserKit
