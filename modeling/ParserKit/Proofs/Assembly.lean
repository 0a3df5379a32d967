import ParserKit.Character
import ParserKit.Proofs.Labelling

/-!
Assembled grammars are well labelled. An assembly step hands out a range of the
labels of its level, each of them for one parser. What holds of the result of a step
is said for all names that include those, so that steps combine although none knows
the labels of the others.
-/

namespace ParserKit

namespace Names

/-- The names that only one label has. -/
def single {t : Ty} (label : Label) (p : Parser t) : Names := fun label' =>
  if label' = label then some ⟨t, p⟩ else none

/-- The names of two steps. -/
def union (own own' : Names) : Names := fun label =>
  (own label).or (own' label)

def Includes (names own : Names) : Prop :=
  ∀ label target, own label = some target → names label = some target

/-- Names of labels in a range of a level. -/
def Within (own : Names) (level first last : Nat) : Prop :=
  ∀ label target, own label = some target →
    label.level = level ∧ first ≤ label.index ∧ label.index < last

variable {names own own' : Names} {level first middle last : Nat}

theorem within_empty : Within (fun _ => none) level first last := by
  intro label target h
  cases h

theorem within_single {t : Ty} (p : Parser t) :
    (single ⟨level, first⟩ p).Within level first (first + 1) := by
  intro label target h
  by_cases hlabel : label = ⟨level, first⟩
  · subst hlabel
    exact ⟨rfl, Nat.le_refl first, Nat.lt_succ_self first⟩
  · simp [single, hlabel] at h

theorem Within.union (h : own.Within level first middle) (h' : own'.Within level middle last)
    (hfirst : first ≤ middle) (hlast : middle ≤ last) :
    (own.union own').Within level first last := by
  intro label target htarget
  rcases Option.or_eq_some_iff.1 htarget with hown | ⟨-, hown⟩
  · have hrange := h label target hown
    exact ⟨hrange.1, hrange.2.1, by omega⟩
  · have hrange := h' label target hown
    exact ⟨hrange.1, by omega, hrange.2.2⟩

theorem Includes.of_single {t : Ty} {label : Label} {p : Parser t}
    (h : names.Includes (single label p)) : names label = some ⟨t, p⟩ :=
  h label ⟨t, p⟩ (if_pos rfl)

theorem Includes.left (h : names.Includes (own.union own')) : names.Includes own := by
  intro label target hown
  exact h label target (Option.or_eq_some_iff.2 (.inl hown))

/-- The second names are included too, unless a label has names of both. -/
theorem Includes.right (h : names.Includes (own.union own'))
    (hapart : ∀ label target, own' label = some target → own label = none) :
    names.Includes own' := by
  intro label target htarget
  exact h label target (Option.or_eq_some_iff.2 (.inr ⟨hapart label target htarget, htarget⟩))

theorem Within.apart (hown : own.Within level first middle)
    (hown' : own'.Within level middle last) (label : Label) (target : (t : Ty) × Parser t)
    (htarget : own' label = some target) : own label = none := by
  cases hlabel : own label with
  | none => rfl
  | some other =>
    have hbefore := hown label other hlabel
    have hafter := hown' label target htarget
    omega

/-- The names of a rebuilt part together with those outside of it. -/
theorem agree_union (hown : own.Within (level + 1) first last) :
    names.Agree ((names.upTo level).union own) level := by
  intro label hlevel
  have hnone : own label = none := by
    cases hlabel : own label with
    | none => rfl
    | some target =>
      have hrange := hown label target hlabel
      omega
  simp [union, upTo, hlevel, hnone]

theorem includes_union (hown : own.Within (level + 1) first last) :
    ((names.upTo level).union own).Includes own := by
  have hself : ((names.upTo level).union own).Includes ((names.upTo level).union own) :=
    fun label target htarget => htarget
  refine hself.right fun label target htarget => ?_
  have hrange := hown label target htarget
  exact if_neg (by omega)

end Names

namespace Parser.Labelled

variable {a b c t : Ty} {names : Names} {level : Nat} {p : Parser a} {q : Parser b}

theorem ret (value : t.Elem) : (Parser.ret value : Parser t).Labelled names level :=
  trivial

theorem map (hp : p.Labelled names level) (f : a.Elem → b.Elem) :
    (p.map f).Labelled names level :=
  hp

theorem andThen (hp : p.Labelled names level) (hq : q.Labelled names level) :
    (p.andThen q).Labelled names level :=
  ⟨hp, fun _ => hq⟩

theorem lift2 (hp : p.Labelled names level) (hq : q.Labelled names level)
    (f : a.Elem → b.Elem → c.Elem) : (p.lift2 q f).Labelled names level :=
  ⟨hp, fun _ => hq.map _⟩

theorem followedBy (hp : p.Labelled names level) {next : a.Elem → Parser b}
    (hnext : ∀ value, (next value).Labelled names level) :
    (p.followedBy next).Labelled names level :=
  ⟨hp, hnext⟩

theorem choice {q : Parser a} (hp : p.Labelled names level) (hq : q.Labelled names level) :
    (Parser.choice p q).Labelled names level :=
  ⟨hp, hq⟩

theorem sepBy1 (hp : p.Labelled names level) (hq : q.Labelled names level) :
    (p.sepBy1 q).Labelled names level :=
  hp.lift2 (q := .many (q.andThen p)) (hq.andThen hp) _

theorem sepBy (hp : p.Labelled names level) (hq : q.Labelled names level) :
    (p.sepBy q).Labelled names level :=
  (hp.sepBy1 hq).choice (.ret _)

end Parser.Labelled

/-- Parsers that are all labelled. -/
def AllLabelled (names : Names) (level : Nat) (parsers : List ((t : Ty) × Parser t)) : Prop :=
  ∀ p ∈ parsers, p.2.Labelled names level

/-- What is labelled outside of a rebuilt part is labelled inside, too. -/
theorem AllLabelled.inner {names names' : Names} {level : Nat}
    {parsers : List ((t : Ty) × Parser t)} (h : AllLabelled names level parsers)
    (hnames : names.Agree names' level) :
    AllLabelled names' (level + 1) parsers :=
  fun p hp => ((h p hp).congr hnames).raise (Nat.le_succ level)

namespace Build

variable {α β : Type} {a t : Ty} {level : Nat}

/-- A step at a level has results that meet a condition for all names that include
those it hands out. -/
def Yields (level : Nat) (build : Build α) (post : Names → α → Prop) : Prop :=
  ∀ first, ∃ value last own, (build.run level).run first = (value, last) ∧ first ≤ last ∧
    own.Within level first last ∧ ∀ names : Names, names.Includes own → post names value

namespace Yields

theorem pure {post : Names → α → Prop} {value : α} (h : ∀ names, post names value) :
    Yields level (pure value) post := by
  intro first
  exact ⟨value, first, _, rfl, Nat.le_refl first, Names.within_empty, fun names _ => h names⟩

/-- What the later step may suppose of the earlier result holds of the same names. -/
theorem bind {build : Build α} {next : α → Build β} {post : Names → α → Prop}
    {post' : Names → β → Prop} (h : Yields level build post)
    (hnext : ∀ value, Yields level (next value) fun names result =>
      post names value → post' names result) :
    Yields level (build >>= next) post' := by
  intro first
  obtain ⟨value, middle, own, hrun, hfirst, hown, hpost⟩ := h first
  obtain ⟨result, last, own', hrun', hlast, hown', hpost'⟩ := hnext value middle
  refine ⟨result, last, own.union own', ?_, Nat.le_trans hfirst hlast,
    hown.union hown' hfirst hlast, fun names hnames => ?_⟩
  · simp only [ReaderT.run_bind, StateT.run_bind, hrun]
    exact hrun'
  · exact hpost' names (hnames.right (hown.apart hown')) (hpost names hnames.left)

/-- What a step yields whatever the names are can be told of it in several parts. -/
theorem and {build : Build α} {post : Names → α → Prop} {post' : α → Prop}
    (h : Yields level build post) (h' : Yields level build fun _ value => post' value) :
    Yields level build fun names value => post names value ∧ post' value := by
  intro first
  obtain ⟨value, last, own, hrun, hfirst, hown, hpost⟩ := h first
  obtain ⟨value', last', own', hrun', -, -, hpost'⟩ := h' first
  obtain ⟨rfl, rfl⟩ := Prod.mk.inj (hrun.symm.trans hrun')
  exact ⟨value, last, own, hrun, hfirst, hown, fun names hnames =>
    ⟨hpost names hnames, hpost' own' fun _ _ hfound => hfound⟩⟩

theorem mono {build : Build α} {post post' : Names → α → Prop} (h : Yields level build post)
    (himp : ∀ names value, post names value → post' names value) : Yields level build post' := by
  intro first
  obtain ⟨value, last, own, hrun, hfirst, hown, hpost⟩ := h first
  exact ⟨value, last, own, hrun, hfirst, hown, fun names hnames =>
    himp names value (hpost names hnames)⟩

end Yields

/-- Steps whose result is labelled, whatever else there is. -/
abbrev Labelled (level : Nat) (build : Build (Parser t)) : Prop :=
  Yields level build fun names p => p.Labelled names level

/-- A whole grammar has only the labels that its assembly hands out. -/
theorem assemble_wellLabelled {build : Build (Parser t)} (h : Labelled 0 build) :
    (build.assemble 0).WellLabelled := by
  obtain ⟨p, last, own, hrun, -, -, hp⟩ := h 0
  refine ⟨own, ?_⟩
  simp only [assemble, hrun]
  exact hp own fun label target hown => hown

theorem memo_yields (p : Parser t) :
    Yields level (memo p) fun names q => p.Labelled names level → q.Labelled names level := by
  intro first
  refine ⟨.memo ⟨level, first⟩ p, first + 1, .single ⟨level, first⟩ p, rfl, Nat.le_succ first,
    Names.within_single p, fun names hnames hp => ?_⟩
  exact ⟨Nat.le_refl level, hnames.of_single, hp⟩

theorem run_recursive (define : Parser t → Build (Parser t)) (level index : Nat) :
    ((recursive define).run level).run index =
      let (body, last) := ((define (.rule ⟨level, index⟩)).run level).run (index + 1)
      (.recursive ⟨level, index⟩ body, last) :=
  rfl

/-- The body may refer to the rule and to whatever else is supposed. -/
theorem recursive_yields {define : Parser t → Build (Parser t)} {given : Names → Prop}
    (h : ∀ name, name.level = level → Yields level (define (.rule name)) fun names body =>
      given names → body.Labelled names level) :
    Yields level (recursive define) fun names p => given names → p.Labelled names level := by
  intro first
  obtain ⟨body, last, own, hrun, hlast, hown, hbody⟩ := h ⟨level, first⟩ rfl (first + 1)
  refine ⟨.recursive ⟨level, first⟩ body, last, (Names.single ⟨level, first⟩ body).union own, ?_,
    by omega, (Names.within_single body).union hown (Nat.le_succ first) hlast,
    fun names hnames hgiven => ?_⟩
  · simp only [run_recursive, hrun]
  · exact ⟨Nat.le_refl level, hnames.left.of_single,
      hbody names (hnames.right ((Names.within_single body).apart hown)) hgiven⟩

/-- A rebuilt part has labels of its own and may use parsers from outside. -/
theorem labelled_rebuilt {part : Build (Parser t)} {outer : List ((t : Ty) × Parser t)}
    {names : Names} (h : Yields (level + 1) part fun names p =>
      AllLabelled names (level + 1) outer → p.Labelled names (level + 1))
    (houter : AllLabelled names level outer) (captures : List Label) :
    (Parser.fresh (level + 1) captures fun _ => part.assemble (level + 1)).Labelled names
      level := by
  obtain ⟨p, last, own, hrun, -, hown, hp⟩ := h 0
  have hagree : names.Agree ((names.upTo level).union own) level := Names.agree_union hown
  refine ⟨Nat.succ_pos level, Nat.le_refl (level + 1), (names.upTo level).union own, ?_,
    fun label hlabel => hagree label (Nat.le_of_lt_succ hlabel)⟩
  simp only [assemble, hrun]
  exact hp _ (Names.includes_union hown) (houter.inner hagree)

theorem bindFresh_yields {p : Parser a} {next : a.Elem → Build (Parser t)}
    {outer : List ((t : Ty) × Parser t)}
    (h : ∀ value, Yields (level + 1) (next value) fun names q =>
      AllLabelled names (level + 1) outer → q.Labelled names (level + 1)) :
    Yields level (bindFresh p next) fun names q =>
      p.Labelled names level → AllLabelled names level outer → q.Labelled names level := by
  intro first
  exact ⟨_, first, _, rfl, Nat.le_refl first, Names.within_empty, fun names _ hp houter =>
    hp.followedBy fun value => labelled_rebuilt (h value) houter []⟩

theorem attempt_yields (p : Parser t) :
    Yields level (attempt p) fun names q => p.Labelled names level → q.Labelled names level :=
  memo_yields (.wrap .attempt p)

theorem label_yields (p : Parser t) (message : String) :
    Yields level (label p message) fun names q =>
      p.Labelled names level → q.Labelled names level :=
  memo_yields (.wrap (.label message) p)

theorem skipMany_yields (p : Parser t) :
    Yields level (skipMany p) fun names q => p.Labelled names level → q.Labelled names level :=
  memo_yields (Parser.map (b := .unit) (.many p) fun _ => ())

theorem skipMany1_yields (p : Parser t) :
    Yields level (skipMany1 p) fun names q => p.Labelled names level → q.Labelled names level :=
  (skipMany_yields p).bind fun later => (memo_yields (p.andThen later)).mono
    fun _ _ hmemo hlater hp => hmemo (hp.andThen (hlater hp))

theorem satisfy_labelled (accepts : Char → Bool) : Labelled level (satisfy accepts) :=
  (memo_yields (.atom (.satisfy accepts))).mono fun _ _ hmemo => hmemo trivial

theorem char_labelled (c : Char) : Labelled level (char c) :=
  (memo_yields (.atom (.char c))).mono fun _ _ hmemo => hmemo trivial

theorem string_labelled (chars : String) : Labelled level (string chars) :=
  (memo_yields (.atom (.string chars))).mono fun _ _ hmemo => hmemo trivial

end Build

end ParserKit
