import ParserKit.Proofs.Assembly
import ParserKit.Proofs.Forms
import ParserKit.Proofs.Naming

/-!
Three ways to tie a recursion. A definition that refers to itself can be a rule, it can be
unrolled once around that rule, or it can be rebuilt each time that it is come to. The
rule shares its labels with every use of it, the rebuilt definition has new ones each time;
by names that makes no difference.
-/

namespace ParserKit

open Build Comparison

namespace Build

variable {α : Type} {level : Nat}

/-- The step gives the value when it is taken at the level, from some label on. -/
def Makes (build : Build α) (level : Nat) (value : α) : Prop :=
  ∃ first, ((build.run level).run first).1 = value

theorem Yields.made {build : Build α} {post : Names → α → Prop} (h : Yields level build post) :
    Yields level build fun names value => build.Makes level value ∧ post names value := by
  intro first
  obtain ⟨value, last, own, hrun, hlast, hown, hpost⟩ := h first
  exact ⟨value, last, own, hrun, hlast, hown, fun names hnames =>
    ⟨⟨first, by rw [hrun]⟩, hpost names hnames⟩⟩

/-- A rule, together with what its definition is. -/
theorem rule_yields {t : Ty} {define : Parser t → Build (Parser t)}
    {post : Label → Names → Parser t → Prop}
    (h : ∀ name : Label, name.level = level → Yields level (define (.rule name)) (post name)) :
    Yields level (recursive define) fun names p => ∃ name body, name.level = level ∧
      p = .recursive name body ∧ names name = some ⟨t, body⟩ ∧ post name names body := by
  intro first
  obtain ⟨body, last, own, hrun, hlast, hown, hbody⟩ := h ⟨level, first⟩ rfl (first + 1)
  refine ⟨.recursive ⟨level, first⟩ body, last, (Names.single ⟨level, first⟩ body).union own, ?_,
    by omega, (Names.within_single body).union hown (Nat.le_succ first) hlast,
    fun names hnames => ?_⟩
  · simp only [run_recursive, hrun]
  · exact ⟨⟨level, first⟩, body, rfl, rfl, hnames.left.of_single,
      hbody names (hnames.right ((Names.within_single body).apart hown))⟩

end Build

variable {t : Ty}

/-- The parsers that a copy of a definition is made from: the one that stands for the
definition itself, and those that all copies share. -/
inductive Template.Around (shared : List ((a : Ty) × Parser a)) (hole hole' : Parser t) :
    ∀ a, Parser a → Parser a → Prop where
  | hole : Around shared hole hole' t hole hole'
  | shared {a : Ty} {p : Parser a} (h : ⟨a, p⟩ ∈ shared) : Around shared hole hole' a p p

/-- A definition that may refer to itself. A copy of it is assembled around a parser that
stands for the definition, in the same way whatever parser that is. -/
structure Template (t : Ty) where
  /-- Assembles the parsers that all copies share. -/
  share : Build (List ((a : Ty) × Parser a))
  copy : List ((a : Ty) × Parser a) → Parser t → Build (Parser t)
  share_labelled : Yields 0 share fun names shared => AllLabelled names 0 shared
  share_closed : ∀ p ∈ share.assemble 0, p.2.SameForm (fun _ _ _ => False) [] 0 0 p.2
  copy_labelled : ∀ (shared : List ((a : Ty) × Parser a)) (hole : Parser t) (level : Nat),
    Yields level (copy shared hole) fun names body => AllLabelled names level shared →
      hole.Labelled names level → body.Labelled names level
  copy_form : ∀ (shared : List ((a : Ty) × Parser a)) (hole hole' : Parser t) (level level' : Nat)
    (body body' : Parser t), (copy shared hole).Makes level body →
    (copy shared hole').Makes level' body' →
    body.SameForm (Template.Around shared hole hole') [] level level' body'

namespace Template

variable (F : Template t)

/-- The definition as a rule. -/
def tied : Parser t :=
  Build.assemble (do Build.recursive (F.copy (← F.share))) 0

/-- The definition, unrolled once around the rule. -/
def unrolled : Parser t :=
  Build.assemble (do
    let shared ← F.share
    F.copy shared (← Build.recursive (F.copy shared))) 0

/-- The definition, rebuilt wherever it refers to itself: what stands for it is a rule that
begins a generation each time that it runs. -/
def rebuilt : Parser t :=
  Build.assemble (do
    let shared ← F.share
    F.copy shared (← Build.recursive fun self => Build.fresh [] (F.copy shared self))) 0

/-- The parsers that all copies share. -/
def parts : List ((a : Ty) × Parser a) :=
  F.share.assemble 0

variable {F} {names names' given given' : Names} {hole hole' : Parser t} {level level' : Nat}
  {body body' : Parser t}

/-- A copy around a parser, with the names that its labels have. -/
structure Copy (F : Template t) (names : Names) (hole : Parser t) (level : Nat) (body : Parser t) :
    Prop where
  made : (F.copy F.parts hole).Makes level body
  labelled : body.Labelled names level

/-- Parsers that stand for the definition: each of them does, by names, what a copy around
one of them does, and with less fuel. -/
structure Knot (F : Template t) (given : Names) (holes : Parser t → Prop) : Prop where
  shared : AllLabelled given 0 F.parts
  turn : ∀ hole, holes hole → ∀ names : Names, given.Agree names 0 →
    ∃ (next : Parser t) (level : Nat) (body : Parser t) (names' : Names), holes next ∧
      given.Agree names' 0 ∧ F.Copy names' next level body ∧
      hole.meaningBy names = body.meaningBy names' ∧
      ∀ fuel s, hole.evalBy fuel names s = .timeout ∨
        ∃ less < fuel, hole.evalBy fuel names s = body.evalBy less names' s

/-- The shared parsers do the same in all grammars. -/
theorem Around.agree (hshared : AllLabelled given 0 F.parts)
    (hshared' : AllLabelled given' 0 F.parts) {bound : Nat}
    (hhole : ∀ names names' : Names, given.Agree names 0 → given'.Agree names' 0 →
      ∀ fuel ≤ bound, placed.Actions () (hole.evalBy fuel names) (hole'.meaningBy names')) :
    Parser.PartsAgree (Around F.parts hole hole') given given' bound := by
  intro a p p' hpart names names' hnames hnames' fuel hfuel
  cases hpart with
  | hole => exact hhole names names' hnames hnames' fuel hfuel
  | shared hmem =>
    have hnone : Parser.PartsAgree (fun _ _ _ => False) given given' fuel :=
      fun _ _ _ h => absurd h id
    exact Parser.SameForm.actions hnone (Nat.le_refl fuel) (F.share_closed _ hmem)
      ((hshared _ hmem).congr hnames) ((hshared' _ hmem).congr hnames') (.nil 0 0) hnames hnames'

/-- Copies do the same, as long as what they are around does. -/
theorem Copy.actions (hbody : F.Copy names hole level body)
    (hbody' : F.Copy names' hole' level' body') (hshared : AllLabelled given 0 F.parts)
    (hshared' : AllLabelled given' 0 F.parts) (hnames : given.Agree names 0)
    (hnames' : given'.Agree names' 0) {fuel : Nat}
    (hhole : ∀ names names' : Names, given.Agree names 0 → given'.Agree names' 0 →
      ∀ less ≤ fuel, placed.Actions () (hole.evalBy less names) (hole'.meaningBy names')) :
    placed.Actions () (body.evalBy fuel names) (body'.meaningBy names') :=
  Parser.SameForm.actions (Around.agree hshared hshared' hhole) (Nat.le_refl fuel)
    (F.copy_form _ _ _ _ _ _ _ hbody.made hbody'.made) hbody.labelled hbody'.labelled (.nil _ _)
    hnames hnames'

namespace Knot

variable {holes holes' : Parser t → Prop}

/-- However the recursion is tied, the parsers that stand for the definition do the same. -/
theorem actions (h : F.Knot given holes) (h' : F.Knot given' holes') (fuel : Nat)
    (hhole : holes hole) (hhole' : holes' hole') (hnames : given.Agree names 0)
    (hnames' : given'.Agree names' 0) :
    placed.Actions () (hole.evalBy fuel names) (hole'.meaningBy names') := by
  induction fuel using Nat.strongRecOn generalizing hole hole' names names' with
  | ind fuel ih =>
    intro w hw s s' hs
    obtain ⟨next, level, body, inner, hnext, hinner, hbody, -, hfuel⟩ :=
      h.turn hole hhole names hnames
    obtain ⟨next', level', body', inner', hnext', hinner', hbody', hmeaning', -⟩ :=
      h'.turn hole' hhole' names' hnames'
    rcases hfuel fuel s with htimeout | ⟨less, hless, heval⟩
    · rw [htimeout]
      exact .timeout _
    · rw [heval, hmeaning']
      refine hbody.actions hbody' h.shared h'.shared hinner hinner' ?_ w hw s s' hs
      intro names names' hnames hnames' fewer hfewer
      exact ih fewer (by omega) hnext hnext' hnames hnames'

/-- The rule of a definition, wherever it is referred to. -/
theorem tied (hshared : AllLabelled given 0 F.parts) {name : Label} (hlevel : name.level = 0)
    (hname : given name = some ⟨t, body⟩) (hbody : F.Copy given (.rule name) 0 body) :
    F.Knot given fun p => p = .rule name ∨ p = .recursive name body := by
  refine ⟨hshared, fun hole hhole names hnames => ?_⟩
  have hbody' : F.Copy names (.rule name) 0 body := ⟨hbody.made, hbody.labelled.congr hnames⟩
  have hname' : names name = some ⟨t, body⟩ :=
    (hnames name (Nat.le_of_eq hlevel)).symm.trans hname
  refine ⟨.rule name, 0, body, names, .inl rfl, hnames, hbody', ?_, fun fuel s => ?_⟩
  · rcases hhole with rfl | rfl
    · exact Parser.meaningBy_rule names hname'
    · exact Parser.meaningBy_recursive names name body
  · cases fuel with
    | zero => exact .inl rfl
    | succ fuel =>
      refine .inr ⟨fuel, Nat.lt_succ_self fuel, ?_⟩
      rcases hhole with rfl | rfl
      · simp only [Parser.evalBy, Names.find_eq hname']
      · rfl

/-- A rule the definition of which is rebuilt each time. -/
theorem rebuilt (hshared : AllLabelled given 0 F.parts) {name : Label} (hlevel : name.level = 0)
    {again : Unit → Parser t} {captures : List Label}
    (hname : given name = some ⟨t, .fresh 1 captures again⟩)
    (hlabelled : (Parser.fresh 1 captures again).Labelled given 0)
    (hmade : (F.copy F.parts (.rule name)).Makes 1 (again ())) :
    F.Knot given fun p => p = .rule name ∨ p = .recursive name (.fresh 1 captures again) := by
  refine ⟨hshared, fun hole hhole names hnames => ?_⟩
  obtain ⟨-, -, hrenewed⟩ := hlabelled.congr hnames
  obtain ⟨hbody, hbelow⟩ := Names.renewed_spec hrenewed
  have hname' : names name = some ⟨t, .fresh 1 captures again⟩ :=
    (hnames name (Nat.le_of_eq hlevel)).symm.trans hname
  have hinner : names.Agree (names.renewed 1 (again ())) 0 :=
    fun label hlabel => hbelow label (Nat.lt_succ_of_le hlabel)
  refine ⟨.rule name, 1, again (), names.renewed 1 (again ()), .inl rfl, hnames.trans hinner,
    ⟨hmade, hbody⟩, ?_, fun fuel s => ?_⟩
  · rcases hhole with rfl | rfl
    · rw [Parser.meaningBy_rule names hname', Parser.meaningBy_fresh]
    · rw [Parser.meaningBy_recursive, Parser.meaningBy_fresh]
  · -- one unit of fuel for the rule, and one for the part that is rebuilt
    cases fuel with
    | zero => exact .inl rfl
    | succ fuel =>
      have hrule : hole.evalBy (fuel + 1) names =
          (Parser.fresh 1 captures again).evalBy fuel names := by
        rcases hhole with rfl | rfl
        · simp only [Parser.evalBy, Names.find_eq hname']
        · rfl
      rw [hrule]
      cases fuel with
      | zero => exact .inl rfl
      | succ fuel => exact .inr ⟨fuel, by omega, rfl⟩

end Knot

/-- A copy refers to what the parser that it is around refers to. -/
theorem Copy.enclosed (hbody : F.Copy names hole level body) (honce : body.RulesBuiltOnce)
    {given : Label → Prop} (hhole : hole.RulesBuiltOnce → hole.Enclosed given) :
    body.Enclosed given := by
  have hparts : ∀ (a : Ty) (p p' : Parser a), Around F.parts hole hole a p p' →
      p.RulesBuiltOnce → p.Enclosed given := by
    intro a p p' hpart honce
    cases hpart with
    | hole => exact hhole honce
    | shared hmem =>
      exact (F.share_closed _ hmem).enclosed_of_nil (fun _ _ _ h => absurd h id) honce
  exact (F.copy_form _ _ _ _ _ _ _ hbody.made hbody.made).enclosed_of_nil hparts honce

/-- A grammar that is a copy of the definition around a parser that stands for it. -/
structure Knotted (F : Template t) (given : Names) (p : Parser t) : Prop where
  labelled : p.Labelled given 0
  enclosed : p.RulesBuiltOnce → p.Enclosed fun _ => False
  copied : ∃ (holes : Parser t → Prop) (hole body : Parser t), F.Knot given holes ∧ holes hole ∧
    F.Copy given hole 0 body ∧ p.meaningBy given = body.meaningBy given

/-- All grammars begin with the shared parsers. -/
theorem exists_names {build : List ((a : Ty) × Parser a) → Build (Parser t)}
    {post : Names → Parser t → Prop}
    (h : Yields 0 (build F.parts) fun names p => AllLabelled names 0 F.parts → post names p) :
    ∃ names, post names (Build.assemble (do build (← F.share)) 0) := by
  obtain ⟨shared, middle, own, hrun, hfirst, hown, hshared⟩ := F.share_labelled 0
  have hparts : F.parts = shared := by
    simp only [parts, Build.assemble, hrun]
  rw [hparts] at h
  obtain ⟨p, last, own', hrun', -, hown', hpost⟩ := h middle
  have hall : (own.union own').Includes (own.union own') := fun _ _ htarget => htarget
  refine ⟨own.union own', ?_⟩
  have hassemble : Build.assemble (do build (← F.share)) 0 = p := by
    simp only [Build.assemble, ReaderT.run_bind, StateT.run_bind, hrun]
    exact congrArg Prod.fst hrun'
  rw [hassemble]
  exact hpost _ (hall.right (hown.apart hown')) (hshared _ hall.left)

/-- A copy is labelled, given that it is around a labelled parser. -/
theorem copy_yields (F : Template t) (hole : Parser t) (level : Nat) :
    Yields level (F.copy F.parts hole) fun names body => (F.copy F.parts hole).Makes level body ∧
      (AllLabelled names level F.parts → hole.Labelled names level → body.Labelled names level) :=
  (F.copy_labelled F.parts hole level).made

theorem tied_rule_yields (F : Template t) :
    Yields 0 (Build.recursive (F.copy F.parts)) fun names p => ∃ name body, name.level = 0 ∧
      p = .recursive name body ∧ names name = some ⟨t, body⟩ ∧
      (AllLabelled names 0 F.parts → F.Copy names (.rule name) 0 body) :=
  rule_yields fun name hname => (F.copy_yields (.rule name) 0).mono
    fun _ _ hbody hshared => ⟨hbody.1, hbody.2 hshared (Nat.le_of_eq hname)⟩

theorem rebuilt_rule_yields (F : Template t) :
    Yields 0 (Build.recursive fun self => Build.fresh [] (F.copy F.parts self)) fun names p =>
      ∃ name body, name.level = 0 ∧ p = .recursive name body ∧ names name = some ⟨t, body⟩ ∧
        ∃ again : Unit → Parser t, body = .fresh 1 [] again ∧
          (F.copy F.parts (.rule name)).Makes 1 (again ()) ∧
          (AllLabelled names 0 F.parts → body.Labelled names 0) := by
  refine rule_yields fun name hname first => ?_
  have hpart : Yields 1 (F.copy F.parts (.rule name)) fun names body =>
      AllLabelled names 1 F.parts → body.Labelled names 1 :=
    (F.copy_labelled F.parts (.rule name) 1).mono fun _ _ hbody hshared =>
      hbody hshared (by show name.level ≤ 1; omega)
  exact ⟨_, first, _, rfl, Nat.le_refl first, Names.within_empty, fun names _ =>
    ⟨_, rfl, ⟨0, rfl⟩, fun hshared => labelled_rebuilt hpart hshared []⟩⟩

/-- The rule around a copy of its own. -/
theorem Copy.recursive {name : Label} (hlevel : name.level = 0)
    (hname : names name = some ⟨t, body⟩) (hbody : F.Copy names (.rule name) 0 body) :
    (Parser.recursive name body).Labelled names 0 ∧
      ((Parser.recursive name body).RulesBuiltOnce →
        (Parser.recursive name body).Enclosed fun _ => False) := by
  refine ⟨⟨Nat.le_of_eq hlevel, hname, ?_⟩, fun honce => ⟨hlevel, ?_⟩⟩
  · rw [hlevel]
    exact hbody.labelled
  · exact hbody.enclosed honce.2 fun _ => .inl rfl

theorem tied_knotted (F : Template t) : ∃ given, F.Knotted given F.tied := by
  apply exists_names
  refine F.tied_rule_yields.mono fun names p h hshared => ?_
  obtain ⟨name, body, hlevel, rfl, hname, hbody⟩ := h
  have hcopy := hbody hshared
  obtain ⟨hlabelled, henclosed⟩ := hcopy.recursive hlevel hname
  exact ⟨hlabelled, henclosed, _, .rule name, body, .tied hshared hlevel hname hcopy, .inl rfl,
    hcopy, Parser.meaningBy_recursive names name body⟩

theorem unrolled_knotted (F : Template t) : ∃ given, F.Knotted given F.unrolled := by
  apply exists_names
  refine F.tied_rule_yields.bind fun rest => (F.copy_yields rest 0).mono fun names p h hrest => ?_
  obtain ⟨name, body, hlevel, rfl, hname, hbody⟩ := hrest
  intro hshared
  have hinner := hbody hshared
  obtain ⟨hrule, henclosed⟩ := hinner.recursive hlevel hname
  have hcopy : F.Copy names (.recursive name body) 0 p := ⟨h.1, h.2 hshared hrule⟩
  exact ⟨hcopy.labelled, fun honce => hcopy.enclosed honce henclosed, _, .recursive name body, p,
    .tied hshared hlevel hname hinner, .inr rfl, hcopy, rfl⟩

theorem rebuilt_knotted (F : Template t) : ∃ given, F.Knotted given F.rebuilt := by
  apply exists_names
  refine F.rebuilt_rule_yields.bind fun rest => (F.copy_yields rest 0).mono
    fun names p h hrest => ?_
  obtain ⟨name, body, hlevel, rfl, hname, again, rfl, hmade, hbody⟩ := hrest
  intro hshared
  have hagain := hbody hshared
  have hrule : (Parser.recursive name (.fresh 1 [] again)).Labelled names 0 := by
    refine ⟨Nat.le_of_eq hlevel, hname, ?_⟩
    rw [hlevel]
    exact hagain
  have hcopy : F.Copy names (.recursive name (.fresh 1 [] again)) 0 p := ⟨h.1, h.2 hshared hrule⟩
  refine ⟨hcopy.labelled, fun honce => hcopy.enclosed honce fun hinner => ⟨hlevel, ?_⟩, _,
    .recursive name (.fresh 1 [] again), p, .rebuilt hshared hlevel hname hagain hmade, .inr rfl,
    hcopy, rfl⟩
  -- the definition in its own generation
  obtain ⟨-, -, hrenewed⟩ := hagain
  have hrebuilt : F.Copy (names.renewed 1 (again ())) (.rule name) 1 (again ()) :=
    ⟨hmade, (Names.renewed_spec hrenewed).1⟩
  exact hrebuilt.enclosed hinner.2 fun _ => .inl rfl

/-- By names, such a grammar ends no other way than any other one. -/
theorem Knotted.results {p p' : Parser t} (h : F.Knotted given p) (h' : F.Knotted given' p')
    (s : State) : placed.Results () (p.meaningBy given s) (p'.meaningBy given' s) := by
  obtain ⟨holes, hole, body, hknot, hhole, hbody, hmeaning⟩ := h.copied
  obtain ⟨holes', hole', body', hknot', hhole', hbody', hmeaning'⟩ := h'.copied
  have hsame : ∀ {N : Names}, N.Agree N 0 := fun _ _ => rfl
  obtain ⟨fuel, hfuel⟩ := Parser.exists_evalBy_eq_meaningBy given body s
  have hactions : placed.Actions () (body.evalBy fuel given) (body'.meaningBy given') :=
    hbody.actions hbody' hknot.shared hknot'.shared hsame hsame fun _ _ hnames hnames' less _ =>
      hknot.actions hknot' less hhole hhole' hnames hnames'
  rw [hmeaning, hmeaning', ← hfuel]
  exact hactions () le_rfl s s ⟨rfl, rfl⟩

theorem Knotted.seen_eq {p p' : Parser t} (h : F.Knotted given p) (h' : F.Knotted given' p')
    (s : State) : (p.meaningBy given s).seen = (p'.meaningBy given' s).seen := by
  have hresults := h.results h' s
  have hback := h'.results h s
  generalize p.meaningBy given s = first at *
  generalize p'.meaningBy given' s = second at *
  cases hresults with
  | firstExcused hcause => exact absurd hcause id
  | secondExcused hcause => exact absurd hcause id
  | fault cause => rfl
  | done _ outcome hs =>
    have hposition : _ = _ := State.Beside.position_eq hs
    simp [Result.seen, hposition]
  | timeout =>
    cases hback with
    | timeout => rfl
    | firstExcused hcause => exact absurd hcause id

/-- The three ways to tie the recursion. -/
def grammars (F : Template t) : List (Parser t) :=
  [F.tied, F.unrolled, F.rebuilt]

theorem knotted_of_mem {F : Template t} {p : Parser t} (h : p ∈ F.grammars) :
    ∃ given, F.Knotted given p := by
  simp only [grammars, List.mem_cons, List.not_mem_nil, or_false] at h
  rcases h with rfl | rfl | rfl
  · exact F.tied_knotted
  · exact F.unrolled_knotted
  · exact F.rebuilt_knotted

end Template

/-- A run from a place ends, and this is what is seen of its end: the outcome and the
position, or a fault. -/
def Parser.ShowsFrom (p : Parser t) (input : Array Char) (memoize : Bool) (start : Nat)
    (seen : Except Fault (Outcome t.Elem × Nat)) : Prop :=
  ∃ e, p.Ends (.startAt input memoize start) e ∧ (Result.ofExcept e).seen = .ofExcept seen

theorem Parser.showsFrom_iff {p : Parser t} {input : Array Char} {memoize : Bool} {start : Nat}
    {seen : Except Fault (Outcome t.Elem × Nat)} :
    p.ShowsFrom input memoize start seen ↔
      (p.meaning Scope.root (.startAt input memoize start)).seen = .ofExcept seen := by
  constructor
  · rintro ⟨e, hends, hseen⟩
    rw [(p.ends_iff _ e).1 hends, hseen]
  · intro h
    cases hmeaning : p.meaning Scope.root (.startAt input memoize start) with
    | timeout =>
      rw [hmeaning] at h
      exact absurd h (Result.ofExcept_ne_timeout seen).symm
    | fault cause =>
      rw [hmeaning] at h
      exact ⟨.error cause, (p.ends_iff _ _).2 hmeaning, h⟩
    | done result =>
      rw [hmeaning] at h
      exact ⟨.ok result, (p.ends_iff _ _).2 hmeaning, h⟩

theorem Parser.showsFrom_ok_iff {p : Parser t} {input : Array Char} {memoize : Bool} {start : Nat}
    {outcome : Outcome t.Elem} {stop : Nat} :
    p.ShowsFrom input memoize start (.ok (outcome, stop)) ↔
      ∃ final, p.Ends (.startAt input memoize start) (.ok (outcome, final)) ∧
        final.position = stop := by
  rw [p.showsFrom_iff, p.exists_ends_iff]
  rfl

namespace Template

/-- A way to tie the recursion does what it does by names, unless it finds a rule dropped
that is defined in a rebuilt part. -/
theorem Knotted.seen_byNames {F : Template t} {given : Names} {p : Parser t}
    (h : F.Knotted given p) (input : Array Char) (memoize : Bool) (start : Nat)
    (hkept : p.meaning Scope.root (.startAt input memoize start) ≠ .fault .ruleDropped ∨
      p.RulesBuiltOnce) :
    (p.meaning Scope.root (.startAt input memoize start)).seen =
      (p.meaningBy given (.startAt input false start)).seen := by
  rcases hkept with hkept | honce
  · exact h.labelled.seen_byNames input memoize start hkept
  · exact h.labelled.seen_byNames_of_enclosed (h.enclosed honce) input memoize start

/-- The ways to tie a recursion agree with each other up to dropped rules. Take any two of
them, with or without remembering, from the same place of a text. When one of the runs
ends, and not because it refers to a rule that was dropped, the other one ends as well, with
the same outcome at the same position, unless it refers to a rule that was dropped. Grammars
that define no rule in a rebuilt part drop none, so among those there is no exception. -/
theorem grammars_agree (F : Template t) (input : Array Char) (start : Nat)
    (memoize memoize' : Bool) (p p' : Parser t) (hp : p ∈ F.grammars) (hp' : p' ∈ F.grammars)
    (seen : Except Fault (Outcome t.Elem × Nat)) (h : p.ShowsFrom input memoize start seen)
    (hkept : seen ≠ .error .ruleDropped ∨ p.RulesBuiltOnce) :
    p'.ShowsFrom input memoize' start seen ∨
      p'.ShowsFrom input memoize' start (.error .ruleDropped) ∧ ¬ p'.RulesBuiltOnce := by
  obtain ⟨given, hknotted⟩ := knotted_of_mem hp
  obtain ⟨given', hknotted'⟩ := knotted_of_mem hp'
  simp only [Parser.showsFrom_iff] at h ⊢
  have hfirst : p.meaning Scope.root (.startAt input memoize start) ≠ .fault .ruleDropped ∨
      p.RulesBuiltOnce := by
    refine hkept.imp_left fun hne hdropped => ?_
    rw [hdropped] at h
    cases seen with
    | ok value => exact absurd h (by simp [Result.seen])
    | error cause => exact hne (congrArg Except.error (Result.fault.inj h).symm)
  by_cases hsecond : p'.meaning Scope.root (.startAt input memoize' start) = .fault .ruleDropped ∧
      ¬ p'.RulesBuiltOnce
  · rw [hsecond.1]
    exact .inr ⟨rfl, hsecond.2⟩
  · left
    have hkept' : p'.meaning Scope.root (.startAt input memoize' start) ≠ .fault .ruleDropped ∨
        p'.RulesBuiltOnce := by
      simpa only [not_and_or, not_not] using hsecond
    calc (p'.meaning Scope.root (.startAt input memoize' start)).seen
        = (p'.meaningBy given' (.startAt input false start)).seen :=
          hknotted'.seen_byNames input memoize' start hkept'
      _ = (p.meaningBy given (.startAt input false start)).seen := hknotted'.seen_eq hknotted _
      _ = (p.meaning Scope.root (.startAt input memoize start)).seen :=
          (hknotted.seen_byNames input memoize start hfirst).symm
      _ = .ofExcept seen := h

/-- A `b` and the definition again, or a rule of its own that reads an `a` and itself up to
the end of the text. -/
def bThenAs : Template .unit where
  share := pure []
  copy _ hole := do
    let first ← Build.char 'b'
    let rest ← Build.recursive fun rest => do
      return .choice .eof (.andThen (← Build.char 'a') rest)
    return .choice (first.andThen hole) rest
  share_labelled := .pure fun _ _ hmem => absurd hmem List.not_mem_nil
  share_closed := fun _ hmem => absurd hmem List.not_mem_nil
  copy_labelled := fun shared hole level => by
    have hrest : ∀ name : Label, name.level = level → Yields level
        (do return .choice .eof (.andThen (← Build.char 'a') (.rule name)))
        fun names (body : Parser .unit) => True → body.Labelled names level :=
      fun name hname => (char_labelled 'a').bind fun letter => .pure fun names hletter _ =>
        Parser.Labelled.choice trivial (hletter.andThen (Nat.le_of_eq hname))
    exact (char_labelled 'b').bind fun first => (recursive_yields hrest).bind fun rest =>
      .pure fun names hrule hfirst _ hhole => (hfirst.andThen hhole).choice (hrule trivial)
  copy_form := by
    rintro shared hole hole' level level' _ _ ⟨first, rfl⟩ ⟨first', rfl⟩
    exact .choice (.bind (.memo rfl rfl (.atom _)) fun _ => .part .hole)
      (.recursive rfl rfl (.choice (.atom _)
        (.bind (.memo rfl rfl (.atom _)) fun _ => .rule List.mem_cons_self)))

/-- After the `b`, the rule in the rebuilt definition is dropped before it comes round
again, while the rules that are built once stay in use. -/
theorem grammars_not_agree :
    bThenAs.tied.ShowsFrom #['b', 'a'] false 0 (.ok (.success (), 2)) ∧
    bThenAs.unrolled.ShowsFrom #['b', 'a'] false 0 (.ok (.success (), 2)) ∧
    bThenAs.rebuilt.ShowsFrom #['b', 'a'] false 0 (.error .ruleDropped) ∧
    ¬ bThenAs.rebuilt.ShowsFrom #['b', 'a'] false 0 (.ok (.success (), 2)) := by
  have hdropped : bThenAs.rebuilt.ShowsFrom #['b', 'a'] false 0 (.error .ruleDropped) :=
    ⟨.error .ruleDropped, ⟨40, _, _, rfl, rfl⟩, rfl⟩
  refine ⟨Parser.showsFrom_ok_iff.2 ⟨_, ⟨40, _, _, rfl, rfl⟩, rfl⟩,
    Parser.showsFrom_ok_iff.2 ⟨_, ⟨40, _, _, rfl, rfl⟩, rfl⟩, hdropped, fun hshows => ?_⟩
  rw [Parser.showsFrom_iff] at hshows hdropped
  exact absurd (hshows.symm.trans hdropped) (by simp)

theorem grammars_agree_bThenAs :
    bThenAs.tied ∈ bThenAs.grammars ∧ bThenAs.unrolled ∈ bThenAs.grammars ∧
    bThenAs.tied.ShowsFrom #['a', 'b'] false 1 (.ok (.success (), 2)) ∧
    bThenAs.unrolled.RulesBuiltOnce ∧
    bThenAs.unrolled.ShowsFrom #['a', 'b'] true 1 (.ok (.success (), 2)) := by
  have htied : bThenAs.tied ∈ bThenAs.grammars := by simp [grammars]
  have hunrolled : bThenAs.unrolled ∈ bThenAs.grammars := by simp [grammars]
  have hshows : bThenAs.tied.ShowsFrom #['a', 'b'] false 1 (.ok (.success (), 2)) :=
    Parser.showsFrom_ok_iff.2 ⟨_, ⟨40, _, _, rfl, rfl⟩, rfl⟩
  have hrest : ∀ name : Label, name.level = 0 → ∀ label : Label,
      (Parser.recursive name (.choice .eof ((Parser.memo label (.atom (.char 'a'))).andThen
        (.rule name)))).RulesBuiltOnce :=
    fun name hname label => ⟨hname, trivial, trivial, fun _ => trivial⟩
  have honce : bThenAs.unrolled.RulesBuiltOnce :=
    ⟨⟨trivial, fun _ => ⟨rfl, ⟨trivial, fun _ => trivial⟩, hrest _ rfl _⟩⟩, hrest _ rfl _⟩
  have hagree := grammars_agree bThenAs _ _ false true _ _ htied hunrolled _ hshows (.inl (by simp))
  exact ⟨htied, hunrolled, hshows, honce, hagree.resolve_right fun h => h.2 honce⟩

end Template

end ParserKit
