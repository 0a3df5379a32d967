import ParserKit.Parser.Combine
import ParserKit.Proofs.Renaming
import ParserKit.Proofs.Trampoline

/-!
Remembering outcomes does not change what a run does. The run that remembers skips
what it remembers, so it begins fewer generations than the run that does not, and
the two correspond up to a renaming of generations.

An entry of the cache is valid when a run that remembers nothing would end the same
way from there, in every scope that gives the labels the names they had when the
generation of the entry was built. Only a rule that was dropped in the meantime can
keep such a run from ending the same way: a hit does not look at the rules at all.
-/

namespace ParserKit

open Comparison

/-- How the generations of a run that remembers correspond to those of a run that
does not, and what each of them was built with. -/
structure Correspondence where
  /-- The text that both runs are over. -/
  input : Array Char
  /-- The generations below this one are taken in the run that remembers. -/
  taken : Nat
  /-- Their counterparts are below this one. -/
  limit : Nat
  rename : Nat → Nat
  /-- The level of each generation and the names of its labels. -/
  birth : Nat → Nat × Names
  taken_pos : 0 < taken
  rename_zero : rename 0 = 0
  rename_injective : Function.Injective rename
  rename_lt : ∀ generation < taken, rename generation < limit

namespace Correspondence

/-- Later in the same two runs: what was known of a generation stays true. -/
structure Extends (w w' : Correspondence) : Prop where
  input_eq : w.input = w'.input
  taken_le : w.taken ≤ w'.taken
  limit_le : w.limit ≤ w'.limit
  rename_eq : ∀ generation < w.taken, w.rename generation = w'.rename generation
  birth_eq : ∀ generation < w.taken, w.birth generation = w'.birth generation

instance : Preorder Correspondence where
  le := Extends
  le_refl w := ⟨rfl, Nat.le_refl _, Nat.le_refl _, fun _ _ => rfl, fun _ _ => rfl⟩
  le_trans w w' w'' h h' := by
    refine ⟨h.input_eq.trans h'.input_eq, Nat.le_trans h.taken_le h'.taken_le,
      Nat.le_trans h.limit_le h'.limit_le, fun x hx => ?_, fun x hx => ?_⟩
    · exact (h.rename_eq x hx).trans (h'.rename_eq x (Nat.lt_of_lt_of_le hx h.taken_le))
    · exact (h.birth_eq x hx).trans (h'.birth_eq x (Nat.lt_of_lt_of_le hx h.taken_le))

/-- The generations at the beginning of two runs. -/
def initial (input : Array Char) (names : Names) : Correspondence where
  input := input
  taken := 1
  limit := 1
  rename := id
  birth _ := (0, names.upTo 0)
  taken_pos := Nat.one_pos
  rename_zero := rfl
  rename_injective := Function.injective_id
  rename_lt _ h := h

/-- Both runs begin a generation, for a part with the given level and names. -/
def extend (w : Correspondence) (level : Nat) (names : Names) (generation : Nat)
    (h : w.limit ≤ generation) : Correspondence where
  input := w.input
  taken := w.taken + 1
  limit := generation + 1
  rename x := if x < w.taken then w.rename x else generation + (x - w.taken)
  birth x := if x = w.taken then (level, names.upTo level) else w.birth x
  taken_pos := Nat.succ_pos _
  rename_zero := by rw [if_pos w.taken_pos, w.rename_zero]
  rename_injective := by
    intro x y hxy
    by_cases hx : x < w.taken
    · have hltx := w.rename_lt x hx
      by_cases hy : y < w.taken
      · simp only [hx, hy, if_true] at hxy
        exact w.rename_injective hxy
      · simp only [hx, hy, if_true, if_false] at hxy
        omega
    · by_cases hy : y < w.taken
      · have hlty := w.rename_lt y hy
        simp only [hx, hy, if_true, if_false] at hxy
        omega
      · simp only [hx, hy, if_false] at hxy
        omega
  rename_lt x hx := by
    by_cases hlt : x < w.taken
    · have := w.rename_lt x hlt
      simp only [hlt, if_true]
      omega
    · simp only [hlt, if_false]
      omega

variable {w : Correspondence} {level generation : Nat} {names : Names} {h : w.limit ≤ generation}

theorem le_extend : w ≤ w.extend level names generation h := by
  refine ⟨rfl, Nat.le_succ _, Nat.le_succ_of_le h, fun x hx => ?_, fun x hx => ?_⟩
  · simp only [extend, hx, if_true]
  · simp only [extend, Nat.ne_of_lt hx, if_false]

@[simp] theorem extend_rename_taken :
    (w.extend level names generation h).rename w.taken = generation := by
  simp [extend]

@[simp] theorem extend_birth_taken :
    (w.extend level names generation h).birth w.taken = (level, names.upTo level) := by
  simp [extend]

end Correspondence

/-- The scopes of the two runs, where labels have the given names: the same up to the
numbering of generations, and each level is of a generation built with its names. -/
structure Scope.Twins (w : Correspondence) (names : Names) (level : Nat) (scope scope' : Scope) :
    Prop where
  eq_rename : scope' = scope.rename w.rename
  below : scope.Below w.taken
  meets : scope.Meets names level w.taken
  birth : ∀ l ≤ level, w.birth (generationOf scope.generations l) = (l, names.upTo l)

namespace Scope.Twins

variable {w w' : Correspondence} {names names' : Names} {level : Nat} {scope scope' : Scope}

theorem initial (input : Array Char) (names : Names) :
    Twins (.initial input names) names 0 Scope.root Scope.root := by
  refine ⟨rfl, ⟨?_, ?_, ?_, ?_⟩, .root names, fun l hl => ?_⟩
  · exact fun rule hrule => absurd hrule (by simp [Scope.root])
  · exact fun rule hrule => absurd hrule (by simp [Scope.root])
  · exact fun entry hentry => absurd hentry (by simp [Scope.root])
  · exact fun key hkey => absurd hkey (by simp [Scope.root])
  · obtain rfl : l = 0 := by omega
    rfl

theorem later (hw : w ≤ w') (h : Twins w names level scope scope') :
    Twins w' names level scope scope' := by
  refine ⟨?_, h.below.raise hw.taken_le, h.meets.raise hw.taken_le, fun l hl => ?_⟩
  · exact h.eq_rename.trans (rename_congr h.below hw.rename_eq)
  · rw [← hw.birth_eq _ (h.meets.generation_lt l hl)]
    exact h.birth l hl

theorem lower (h : Twins w names level scope scope') {level' : Nat} (hle : level' ≤ level) :
    Twins w names level' scope scope' :=
  ⟨h.eq_rename, h.below, h.meets.lower hle, fun l hl => h.birth l (Nat.le_trans hl hle)⟩

theorem holding (h : Twins w names level scope scope') (labels : List Label) :
    Twins w names level (scope.holding labels) (scope'.holding labels) := by
  refine ⟨?_, h.below.holding w.taken_pos labels, h.meets.holding labels, h.birth⟩
  rw [h.eq_rename, holding_rename w.rename_zero]

theorem define (h : Twins w names level scope scope') {t : Ty} {name : Label} {body : Parser t}
    (hlevel : name.level ≤ level) (hname : names name = some ⟨t, body⟩)
    (hbody : body.Labelled names name.level) :
    Twins w names level (scope.define name body) (scope'.define name body) := by
  refine ⟨?_, h.below.define w.taken_pos name body, h.meets.define hlevel hname hbody, h.birth⟩
  rw [h.eq_rename, define_rename w.rename_zero]

/-- A rule is dropped in both runs or in neither. -/
theorem resolve (h : Twins w names level scope scope') {name : Label} (hlevel : name.level ≤ level)
    (t : Ty) :
    (∃ body inner inner', scope.resolve name t = some (body, inner) ∧
      scope'.resolve name t = some (body, inner') ∧ body.Labelled names name.level ∧
      Twins w names name.level inner inner') ∨
    (scope.resolve name t = none ∧ scope'.resolve name t = none) := by
  have hrename := resolve_rename w.rename_zero w.rename_injective scope name t
  rw [← h.eq_rename] at hrename
  cases hfound : scope.resolve name t with
  | none => exact .inr ⟨rfl, by rw [hrename, hfound]; rfl⟩
  | some found =>
    obtain ⟨body, inner⟩ := found
    obtain ⟨-, hbody, hgenerations, hinner⟩ := h.meets.resolve hlevel hfound
    refine .inl ⟨body, inner, inner.rename w.rename, rfl, by rw [hrename, hfound]; rfl, hbody, ?_⟩
    refine ⟨rfl, h.below.resolve hfound, hinner, fun l hl => ?_⟩
    rw [hgenerations l hl]
    exact h.birth l (Nat.le_trans hl hlevel)

theorem renew (h : Twins w names level scope scope') {inner generation : Nat} (hpos : 0 < inner)
    (hinner : inner ≤ level + 1)
    (hbelow : ∀ label : Label, label.level < inner → names label = names' label)
    (hnew : w.limit ≤ generation) :
    Twins (w.extend inner names' generation hnew) names' inner (scope.renew inner w.taken)
      (scope'.renew inner generation) := by
  have hle : w ≤ w.extend inner names' generation hnew := w.le_extend
  refine ⟨?_, h.below.renew inner, h.meets.renew hpos hinner hbelow (Nat.le_refl _), fun l hl => ?_⟩
  · rw [(h.later hle).eq_rename, ← renew_rename, Correspondence.extend_rename_taken]
  · by_cases hne : l = inner
    · subst hne
      have hself : generationOf (scope.renew l w.taken).generations l = w.taken :=
        generationOf_cons_self hpos
      rw [hself, Correspondence.extend_birth_taken]
    · have hother : generationOf (scope.renew inner w.taken).generations l =
          generationOf scope.generations l := generationOf_cons_of_ne hne
      have hagree : names.Agree names' l := fun label hlabel => hbelow label (by omega)
      rw [hother, (h.later hle).birth l (by omega), Names.upTo_eq_of_agree hagree]

/-- The names that the key of a label stands for in the run that remembers. -/
theorem birth_key (h : Twins w names level scope scope') {label : Label}
    (hlevel : label.level ≤ level) :
    w.birth (scope.key label).generation = (label.level, names.upTo label.level) :=
  h.birth label.level hlevel

theorem meets_second (h : Twins w names level scope scope') :
    scope'.Meets (names.upTo level) level w.limit := by
  rw [h.eq_rename]
  have hmeets := h.meets.renamed w.rename_zero w.rename_injective w.rename_lt
  exact hmeets.congr (names.agree_upTo level)

end Scope.Twins

/-- A run of a parser that remembers nothing, from the place of an entry, ends the way
the entry says. -/
def Entry.Replays (entry : Entry) (input : Array Char) (start : Nat) (p : Parser entry.ty)
    (scope : Scope) (bound : Nat) : Prop :=
  ∀ s : State, s.cursor.input = input → s.position = start → s.Plain bound →
    p.meaning scope s = .fault .ruleDropped ∨
      ∃ final, p.meaning scope s = .done (entry.outcome, final) ∧ final.cursor.input = input ∧
        final.position = entry.stop ∧ final.Plain bound

/-- An entry that every run of the parser its key stands for ends like. -/
def Entry.Valid (entry : Entry) (w : Correspondence) (key : Key) (start : Nat) : Prop :=
  key.generation < w.taken ∧ ∃ p,
    (w.birth key.generation).2 ⟨(w.birth key.generation).1, key.index⟩ = some ⟨entry.ty, p⟩ ∧
    ∀ scope bound, scope.Meets (w.birth key.generation).2 (w.birth key.generation).1 bound →
      entry.Replays w.input start p scope bound

theorem Entry.Valid.later {entry : Entry} {w w' : Correspondence} {key : Key} {start : Nat}
    (hw : w ≤ w') (h : entry.Valid w key start) : entry.Valid w' key start := by
  obtain ⟨hlt, hrest⟩ := h
  refine ⟨Nat.lt_of_lt_of_le hlt hw.taken_le, ?_⟩
  rw [← hw.birth_eq key.generation hlt, ← hw.input_eq]
  exact hrest

/-- The states of a run that remembers and of one that does not. -/
structure State.Paired (w : Correspondence) (s s' : State) : Prop where
  beside : s.Beside s'
  input_eq : s.cursor.input = w.input
  memoize_eq : s.cursor.memoize = true
  taken_eq : s.nextGeneration = w.taken
  plain : s'.Plain w.limit
  valid : ∀ (key : Key) (start : Nat) (entry : Entry),
    s.cursor.cache[(key, start)]? = some entry → entry.Valid w key start

namespace State.Paired

variable {w w' : Correspondence} {s s' : State}

theorem movedTo (h : s.Paired w s') (q : Nat) : (s.movedTo q).Paired w (s'.movedTo q) :=
  ⟨h.beside.movedTo q, h.input_eq, h.memoize_eq, h.taken_eq, ⟨h.plain.1, h.plain.2⟩, h.valid⟩

theorem tick (h : s.Paired w s') (counter : Nat) : (s.tick counter).Paired w (s'.tick counter) :=
  ⟨⟨h.beside.1, h.beside.2⟩, h.input_eq, h.memoize_eq, h.taken_eq, ⟨h.plain.1, h.plain.2⟩, h.valid⟩

theorem startAt (names : Names) (input : Array Char) (start : Nat) :
    (State.startAt input true start).Paired (.initial input names) (.startAt input false start) :=
  ⟨⟨rfl, rfl⟩, rfl, rfl, rfl, ⟨rfl, Nat.le_refl _⟩, fun _ _ _ hentry =>
    absurd hentry (by simp [State.startAt])⟩

theorem renew (h : s.Paired w s') (level : Nat) (names : Names) :
    s.renew.2.Paired (w.extend level names s'.nextGeneration h.plain.2) s'.renew.2 := by
  refine ⟨⟨h.beside.1, h.beside.2⟩, h.input_eq, h.memoize_eq, ?_, ⟨h.plain.1, Nat.le_refl _⟩, ?_⟩
  · exact congrArg (· + 1) h.taken_eq
  · intro key start entry hentry
    exact (h.valid key start entry hentry).later w.le_extend

theorem missed (h : s.Paired w s') (misses : Nat) :
    State.Paired w { s with cursor := { s.cursor with misses } } s' :=
  ⟨⟨h.beside.1, h.beside.2⟩, h.input_eq, h.memoize_eq, h.taken_eq, h.plain, h.valid⟩

variable {names : Names} {scope scope' : Scope} {t : Ty} {label : Label} {p : Parser t}

/-- What a hit gives is what a run that remembers nothing does from there. -/
theorem hit (h : s.Paired w s') (hscope : Scope.Twins w names label.level scope scope')
    (hname : names label = some ⟨t, p⟩) {outcome : Outcome t.Elem} {stop : Nat}
    (hentry : s.cursor.cache[(scope.key label, s.cursor.position)]? =
      some { ty := t, outcome, stop }) (hits : Nat) :
    p.meaning scope' s' = .fault .ruleDropped ∨
      ∃ final, p.meaning scope' s' = .done (outcome, final) ∧
        State.Paired w { s with cursor := { s.cursor with position := stop, hits } } final := by
  obtain ⟨-, stored, hstored, hreplays⟩ := h.valid _ _ _ hentry
  rw [hscope.birth_key (Nat.le_refl _)] at hstored hreplays
  -- the entry was stored for the parser that the label names now
  obtain rfl : stored = p := by
    have hsame : names.upTo label.level label = some ⟨t, p⟩ :=
      (names.agree_upTo label.level label (Nat.le_refl _)).symm.trans hname
    simpa using hstored.symm.trans hsame
  have hinput' : s'.cursor.input = w.input := h.beside.input_eq.symm.trans h.input_eq
  have hrun := hreplays scope' w.limit hscope.meets_second s' hinput' h.beside.position_eq.symm
    h.plain
  rcases hrun with hdropped | ⟨final, hdone, hinput, hstop, hplain⟩
  · exact .inl hdropped
  · have hsame : s.cursor.input = final.cursor.input := h.input_eq.trans hinput.symm
    exact .inr ⟨final, hdone, ⟨hsame, hstop.symm⟩, h.input_eq, h.memoize_eq, h.taken_eq, hplain,
      h.valid⟩

/-- An outcome that was reached by both runs may be remembered. -/
theorem remember (hstart : s.Paired w s') (hscope : Scope.Twins w names label.level scope scope')
    (hname : names label = some ⟨t, p⟩) (hp : p.Labelled names label.level)
    {outcome : Outcome t.Elem} {after after' : State} (hw : w ≤ w') (h : after.Paired w' after')
    (hdone : p.meaning scope' s' = .done (outcome, after')) :
    (after.remember (scope.key label) s.position outcome).Paired w' after' := by
  have hcursor : (after.remember (scope.key label) s.position outcome).cursor.memoize = true := by
    simp [State.remember, Cursor.remember, h.memoize_eq]
  refine ⟨⟨?_, ?_⟩, ?_, hcursor, h.taken_eq, h.plain, fun key start entry hentry => ?_⟩
  · simpa only [State.remember, Cursor.input_remember] using h.beside.input_eq
  · simpa only [State.remember, State.position, Cursor.position_remember] using h.beside.position_eq
  · simpa only [State.remember, Cursor.input_remember] using h.input_eq
  simp only [State.remember] at hentry
  rw [Cursor.cache_remember h.memoize_eq] at hentry
  split at hentry
  · rename_i hplace
    obtain ⟨rfl, rfl⟩ := Prod.mk.inj hplace
    obtain rfl := Option.some.inj hentry
    have hlt : (scope.key label).generation < w.taken :=
      hscope.meets.generation_lt label.level (Nat.le_refl _)
    refine Entry.Valid.later hw ⟨hlt, p, ?_, ?_⟩
    · rw [hscope.birth_key (Nat.le_refl _)]
      exact (names.agree_upTo label.level label (Nat.le_refl _)).symm.trans hname
    · rw [hscope.birth_key (Nat.le_refl _)]
      intro other bound hmeets s'' hinput'' hposition'' hplain''
      have hbeside : s'.Beside s'' := by
        refine ⟨?_, hstart.beside.position_eq.symm.trans hposition''.symm⟩
        rw [hinput'', ← hstart.input_eq, hstart.beside.input_eq]
      have hlabelled := hp.congr (names.agree_upTo label.level)
      have hagree := Parser.meaning_agree hlabelled hscope.meets_second hmeets hstart.plain hplain''
        hbeside hdone
      rcases hagree with hdropped | ⟨final, hfinal, hbeside', hplain⟩
      · exact .inl hdropped
      · refine .inr ⟨final, hfinal, ?_, ?_, hplain⟩
        · rw [← hbeside'.input_eq, ← h.beside.input_eq, h.input_eq, hw.input_eq]
        · exact hbeside'.position_eq.symm.trans h.beside.position_eq.symm
  · exact h.valid key start entry hentry

end State.Paired

namespace Comparison

/-- A run that remembers, beside one that does not. Only the second may find a rule
dropped that the first did not look for. -/
def remembering : Comparison Correspondence where
  states w s s' := s.Paired w s'
  firstExcuse _ := False
  secondExcuse cause := cause = .ruleDropped
  beside h := h.beside
  movedTo h := h.movedTo
  tick h := h.tick

/-- The same two runs, the one that does not remember first. -/
def forgetting : Comparison Correspondence where
  states w s s' := s'.Paired w s
  firstExcuse cause := cause = .ruleDropped
  secondExcuse _ := False
  beside h := ⟨h.beside.1.symm, h.beside.2.symm⟩
  movedTo h := h.movedTo
  tick h := h.tick

def rememberingScoping : remembering.Scoping where
  related w names level scope scope' := Scope.Twins w names level scope scope'
  later := Scope.Twins.later
  lower hle h := h.lower hle
  holding h := h.holding
  define h := h.define
  resolve h hlevel t := (h.resolve hlevel t).imp_right .inl
  renew {w names names' level inner scope scope' s s'} h hs hpos hinner hbelow := by
    have htwins := h.renew hpos hinner hbelow hs.plain.2
    rw [← hs.taken_eq] at htwins
    exact ⟨_, w.le_extend, hs.renew inner names', htwins⟩
  remembered {w names scope scope' t label p fuel} h hname hp hactions := by
    intro w' hw s s' hs
    have hscope := h.later hw
    rw [Action.remembered_of_plain hs.plain]
    rcases Action.remembered_cases hs.memoize_eq (scope.key label) (p.eval fuel scope) with
      ⟨outcome, stop, hentry, hhit⟩ | hmiss
    · rw [hhit]
      rcases hs.hit hscope hname hentry _ with hdropped | ⟨final, hdone, hfinal⟩
      · rw [hdropped]
        exact .secondExcused rfl _
      · rw [hdone]
        exact .done le_rfl outcome hfinal
    · rw [hmiss]
      have hresults := hactions w' hw _ s' (hs.missed (s.cursor.misses + 1))
      rw [← Result.bind_done (p.meaning scope' s')]
      refine hresults.bind_of_eq ?_
      intro w'' hw' outcome after after' _ hsecond hafter
      exact .done le_rfl outcome (hs.remember hscope hname hp hw' hafter hsecond)

def forgettingScoping : forgetting.Scoping where
  related w names level scope scope' := Scope.Twins w names level scope' scope
  later := Scope.Twins.later
  lower hle h := h.lower hle
  holding h := h.holding
  define h := h.define
  resolve h hlevel t := by
    rcases h.resolve hlevel t with ⟨body, inner, inner', hfound, hfound', hbody, hinner⟩ | hnone
    · exact .inl ⟨body, inner', inner, hfound', hfound, hbody, hinner⟩
    · exact .inr (.inl hnone.symm)
  renew {w names names' level inner scope scope' s s'} h hs hpos hinner hbelow := by
    have htwins := h.renew hpos hinner hbelow hs.plain.2
    rw [← hs.taken_eq] at htwins
    exact ⟨_, w.le_extend, hs.renew inner names', htwins⟩
  remembered {w names scope scope' t label p fuel} h hname hp hactions := by
    intro w' hw s s' hs
    have hscope := h.later hw
    rw [Action.remembered_of_plain hs.plain]
    rcases Action.remembered_cases hs.memoize_eq (scope'.key label) (p.meaning scope') with
      ⟨outcome, stop, hentry, hhit⟩ | hmiss
    · rw [hhit]
      by_cases hfuel : p.eval fuel scope s = .timeout
      · rw [hfuel]
        exact .timeout _
      · rw [← Parser.meaning_eq_eval hfuel]
        rcases hs.hit hscope hname hentry _ with hdropped | ⟨final, hdone, hfinal⟩
        · rw [hdropped]
          exact .firstExcused rfl _
        · rw [hdone]
          exact .done le_rfl outcome hfinal
    · rw [hmiss, ← Result.bind_done (p.eval fuel scope s)]
      refine (hactions w' hw s _ (hs.missed (s'.cursor.misses + 1))).bind_of_eq ?_
      intro w'' hw' outcome after after' hfirst _ hafter
      exact .done le_rfl outcome
        (hs.remember hscope hname hp hw' hafter (Parser.meaning_eq_done hfirst))

end Comparison

variable {t : Ty}

/-- What is seen of the end of a computation. -/
def Result.seen (result : Result (Outcome t.Elem × State)) : Result (Outcome t.Elem × Nat) := do
  let (outcome, final) ← result
  .done (outcome, final.position)

theorem Result.seen_eq_done_iff {result : Result (Outcome t.Elem × State)}
    {outcome : Outcome t.Elem} {stop : Nat} :
    result.seen = .done (outcome, stop) ↔
      ∃ final, result = .done (outcome, final) ∧ final.position = stop := by
  constructor
  · intro h
    obtain ⟨⟨outcome', final⟩, hdone, hseen⟩ := bind_eq_done h
    obtain ⟨rfl, rfl⟩ := Prod.mk.inj (Result.done.inj hseen)
    exact ⟨final, hdone, rfl⟩
  · rintro ⟨final, rfl, rfl⟩
    rfl

/-- A whole grammar run both ways, the run that remembers first. -/
theorem Parser.WellLabelled.remembering {p : Parser t} (h : p.WellLabelled) (input : Array Char)
    (start fuel : Nat) :
    ∃ w, Comparison.remembering.Results w (p.eval fuel Scope.root (.startAt input true start))
      (p.meaning Scope.root (.startAt input false start)) := by
  obtain ⟨names, hp⟩ := h
  have hactions := rememberingScoping.actions fuel p hp (Scope.Twins.initial input names)
  exact ⟨.initial input names, hactions _ le_rfl _ _ (State.Paired.startAt names input start)⟩

theorem Parser.WellLabelled.forgetting {p : Parser t} (h : p.WellLabelled) (input : Array Char)
    (start fuel : Nat) :
    ∃ w, Comparison.forgetting.Results w (p.eval fuel Scope.root (.startAt input false start))
      (p.meaning Scope.root (.startAt input true start)) := by
  obtain ⟨names, hp⟩ := h
  have hactions := forgettingScoping.actions fuel p hp (Scope.Twins.initial input names)
  exact ⟨.initial input names, hactions _ le_rfl _ _ (State.Paired.startAt names input start)⟩

/-- When the run that remembers ends, so does the other, in the same way unless it
finds a rule dropped. -/
theorem Parser.WellLabelled.seen_plain {p : Parser t} (h : p.WellLabelled) (input : Array Char)
    (start : Nat) (hends : p.meaning Scope.root (.startAt input true start) ≠ .timeout) :
    (p.meaning Scope.root (.startAt input false start)).seen =
        (p.meaning Scope.root (.startAt input true start)).seen ∨
      p.meaning Scope.root (.startAt input false start) = .fault .ruleDropped := by
  obtain ⟨fuel, hfuel⟩ := exists_eval_eq_meaning hends
  obtain ⟨w, hresults⟩ := h.remembering input start fuel
  rw [hfuel] at hresults
  generalize p.meaning Scope.root (.startAt input true start) = first at *
  generalize p.meaning Scope.root (.startAt input false start) = second at *
  cases hresults with
  | timeout => exact absurd rfl hends
  | firstExcused hcause => exact absurd hcause id
  | secondExcused hcause => exact .inr (congrArg Result.fault hcause)
  | fault cause => exact .inl rfl
  | done hw outcome hs => exact .inl (by simp [Result.seen, hs.beside.position_eq])

/-- When the run that does not remember ends otherwise than by a dropped rule, so does
the other, in the same way. -/
theorem Parser.WellLabelled.seen_remembering {p : Parser t} (h : p.WellLabelled)
    (input : Array Char) (start : Nat)
    (hends : p.meaning Scope.root (.startAt input false start) ≠ .timeout)
    (hkept : p.meaning Scope.root (.startAt input false start) ≠ .fault .ruleDropped) :
    (p.meaning Scope.root (.startAt input true start)).seen =
      (p.meaning Scope.root (.startAt input false start)).seen := by
  obtain ⟨fuel, hfuel⟩ := exists_eval_eq_meaning hends
  obtain ⟨w, hresults⟩ := h.forgetting input start fuel
  rw [hfuel] at hresults
  generalize p.meaning Scope.root (.startAt input false start) = first at *
  generalize p.meaning Scope.root (.startAt input true start) = second at *
  cases hresults with
  | timeout => exact absurd rfl hends
  | firstExcused hcause => exact absurd (congrArg Result.fault hcause) hkept
  | secondExcused hcause => exact absurd hcause id
  | fault cause => rfl
  | done hw outcome hs => simp [Result.seen, hs.beside.position_eq]

/-- A run that remembers shows the same as one that does not, if that one finds no rule
dropped. -/
theorem Parser.WellLabelled.seen_eq_plain {p : Parser t} (hp : p.WellLabelled) {input : Array Char}
    {start : Nat} (hkept : p.meaning Scope.root (.startAt input false start) ≠ .fault .ruleDropped)
    (memoize : Bool) :
    (p.meaning Scope.root (.startAt input memoize start)).seen =
      (p.meaning Scope.root (.startAt input false start)).seen := by
  cases memoize with
  | false => rfl
  | true =>
    by_cases hplain : p.meaning Scope.root (.startAt input false start) = .timeout
    · by_cases hends : p.meaning Scope.root (.startAt input true start) = .timeout
      · rw [hplain, hends]
      · exact (hp.seen_plain input start hends).elim Eq.symm fun hdropped => absurd hdropped hkept
    · exact hp.seen_remembering input start hplain hkept

theorem Parser.exists_ends_iff {p : Parser t} {s : State} {outcome : Outcome t.Elem} {stop : Nat} :
    (∃ final, p.Ends s (.ok (outcome, final)) ∧ final.position = stop) ↔
      (p.meaning Scope.root s).seen = .done (outcome, stop) := by
  simp only [p.ends_iff]
  exact Result.seen_eq_done_iff.symm

namespace Runner

/-- A run over an input ends, and this is what is seen of its end: the outcome and the
position, or a fault. -/
def Shows (runner : Runner) (p : Parser t) (input : Array Char)
    (seen : Except Fault (Outcome t.Elem × Nat)) : Prop :=
  ∃ limit, (do
    let report ← runner.execute limit p input
    .done (report.outcome, report.position)) = Result.ofExcept seen

theorem seen_execute {runner : Runner} {p : Parser t} {input : Array Char} {limit steps : Nat}
    {m : Machine t} (h : drive Machine.step limit 0 (runner.begin p input) = some (steps, m)) :
    (do
      let report ← runner.execute limit p input
      .done (report.outcome, report.position)) = m.result.seen := by
  simp only [execute, h, conclude, finish_eq]
  cases m.result with
  | done value => rfl
  | fault cause => rfl
  | timeout => rfl

theorem shows_iff {runner : Runner} {p : Parser t} {input : Array Char}
    {seen : Except Fault (Outcome t.Elem × Nat)} :
    runner.Shows p input seen ↔
      (p.meaning Scope.root (.startAt input runner.memoize 0)).seen = .ofExcept seen := by
  have hseen : (.timeout : Result (Outcome t.Elem × Nat)) ≠ .ofExcept seen :=
    (Result.ofExcept_ne_timeout seen).symm
  constructor
  · rintro ⟨limit, h⟩
    cases hdrive : drive Machine.step limit 0 (runner.begin p input) with
    | none =>
      simp only [execute, hdrive, conclude] at h
      exact absurd h hseen
    | some ended =>
      obtain ⟨steps, m⟩ := ended
      rw [seen_execute hdrive] at h
      have hends : ∀ e, m.result = .ofExcept e →
          p.meaning Scope.root (.startAt input runner.memoize 0) = m.result := fun e he =>
        ((p.ends_iff _ e).1 ⟨limit, steps, m, hdrive, he⟩).trans he.symm
      cases hresult : m.result with
      | timeout =>
        rw [hresult] at h
        exact absurd h hseen
      | done value => rw [hends (.ok value) hresult, h]
      | fault cause => rw [hends (.error cause) hresult, h]
  · intro h
    have hends : ∀ e, p.meaning Scope.root (.startAt input runner.memoize 0) = .ofExcept e →
        runner.Shows p input seen := by
      intro e he
      obtain ⟨limit, steps, m, hdrive, hm⟩ := (p.ends_iff _ e).2 he
      exact ⟨limit, by rw [seen_execute hdrive, hm, ← he, h]⟩
    cases hmeaning : p.meaning Scope.root (.startAt input runner.memoize 0) with
    | timeout =>
      rw [hmeaning] at h
      exact absurd h hseen
    | done value => exact hends (.ok value) hmeaning
    | fault cause => exact hends (.error cause) hmeaning

/-- Remembering is transparent up to dropped rules. A run that does not remember and
ends otherwise than by a dropped rule shows the same when it remembers; and when a
run that remembers ends, the one that does not ends too, and shows the same unless
it finds a rule dropped. -/
theorem memoize_transparent (runner : Runner) (p : Parser t) (hp : p.WellLabelled)
    (input : Array Char) (seen : Except Fault (Outcome t.Elem × Nat)) :
    ((runner.withMemoize false).Shows p input seen → seen ≠ .error .ruleDropped →
      (runner.withMemoize true).Shows p input seen) ∧
    ((runner.withMemoize true).Shows p input seen →
      (runner.withMemoize false).Shows p input seen ∨
        (runner.withMemoize false).Shows p input (.error .ruleDropped)) := by
  have hseen : (.timeout : Result (Outcome t.Elem × Nat)) ≠ .ofExcept seen :=
    (Result.ofExcept_ne_timeout seen).symm
  simp only [shows_iff, withMemoize]
  constructor
  · intro h hkept
    have hends : p.meaning Scope.root (.startAt input false 0) ≠ .timeout := by
      intro htimeout
      rw [htimeout] at h
      exact hseen h
    rw [hp.seen_remembering input 0 hends, h]
    intro hdropped
    rw [hdropped] at h
    cases seen with
    | ok value => exact absurd h (by simp [Result.seen])
    | error cause => exact hkept (congrArg Except.error (Result.fault.inj h).symm)
  · intro h
    have hends : p.meaning Scope.root (.startAt input true 0) ≠ .timeout := by
      intro htimeout
      rw [htimeout] at h
      exact hseen h
    rcases hp.seen_plain input 0 hends with hsame | hdropped
    · exact .inl (hsame.trans h)
    · exact .inr (by rw [hdropped]; rfl)

theorem memoize_transparent_repetition :
    (Parser.many (.memo ⟨0, 0⟩ (.atom (.char 'a')))).WellLabelled ∧
      (Runner.withMemoize {} false).Shows (.many (.memo ⟨0, 0⟩ (.atom (.char 'a'))))
        #['a', 'a', 'b'] (.ok (.success ['a', 'a'], 2)) ∧
      (Runner.withMemoize {} true).Shows (.many (.memo ⟨0, 0⟩ (.atom (.char 'a'))))
        #['a', 'a', 'b'] (.ok (.success ['a', 'a'], 2)) := by
  have hlabelled : (Parser.many (.memo ⟨0, 0⟩ (.atom (.char 'a')))).WellLabelled :=
    ⟨fun _ => some ⟨.char, .atom (.char 'a')⟩, Nat.le_refl 0, rfl, trivial⟩
  have hshows : (Runner.withMemoize {} false).Shows (.many (.memo ⟨0, 0⟩ (.atom (.char 'a'))))
      #['a', 'a', 'b'] (.ok (.success ['a', 'a'], 2)) := ⟨12, rfl⟩
  exact ⟨hlabelled, hshows, (memoize_transparent {} _ hlabelled _ _).1 hshows (by simp)⟩

end Runner

namespace Parser

/-- In a text of one character, a jump to its end and then a rule. -/
def jumpToEnd : Parser .unit :=
  .andThen (.setPosition 1) (.rule ⟨1, 0⟩)

/-- The rule: the end of the text, or a jump there, which is remembered. -/
def untilEnd : Parser .unit :=
  .recursive ⟨1, 0⟩ (.choice .eof (.memo ⟨1, 1⟩ jumpToEnd))

/-- A rebuilt part that uses a rule twice from the same place. The second time nothing
that waits contains the rule any more. -/
def usedTwice : Parser .unit :=
  .fresh 1 [] fun _ => .andThen (.andThen untilEnd (.setPosition 0)) untilEnd

def usedTwiceNames : Names
  | ⟨1, 0⟩ => some ⟨.unit, .choice .eof (.memo ⟨1, 1⟩ jumpToEnd)⟩
  | ⟨1, 1⟩ => some ⟨.unit, jumpToEnd⟩
  | _ => none

theorem usedTwice_wellLabelled : usedTwice.WellLabelled := by
  have hrule : untilEnd.Labelled usedTwiceNames 1 :=
    ⟨Nat.le_refl 1, rfl, trivial, Nat.le_refl 1, rfl, trivial, fun _ => Nat.le_refl 1⟩
  refine ⟨fun _ => none, Nat.one_pos, Nat.le_refl 1, usedTwiceNames,
    ⟨⟨hrule, fun _ => trivial⟩, fun _ => hrule⟩, fun label hlevel => ?_⟩
  obtain ⟨level, index⟩ := label
  obtain rfl : level = 0 := Nat.lt_one_iff.1 hlevel
  rfl

theorem meaning_untilEnd (scope : Scope) :
    untilEnd.meaning scope = (Action.atom .eof).choice
      ((jumpToEnd.meaning (scope.define ⟨1, 0⟩ (.choice .eof (.memo ⟨1, 1⟩ jumpToEnd)))).remembered
        (scope.key ⟨1, 1⟩)) := by
  rw [untilEnd, meaning_recursive, meaning_choice, meaning_memo, Parser.eof, meaning_atom]
  rfl

/-- The first use of the rule remembers where the jump leads. -/
theorem meaning_untilEnd_first :
    ∃ cache, untilEnd.meaning ((Scope.root.renew 1 1).holding [⟨1, 0⟩])
        ⟨⟨#['a'], 0, true, ∅, 0, 0⟩, 2, []⟩ =
          .done (.success (), ⟨⟨#['a'], 1, true, cache, 0, 1⟩, 2, []⟩) ∧
      cache[((⟨1, 1⟩ : Key), 0)]? = some ⟨.unit, .success (), 1⟩ := by
  let inner := ((Scope.root.renew 1 1).holding [⟨1, 0⟩]).define ⟨1, 0⟩
    (.choice .eof (.memo ⟨1, 1⟩ jumpToEnd))
  have hjump : jumpToEnd.meaning inner ⟨⟨#['a'], 0, true, ∅, 0, 1⟩, 2, []⟩ =
      .done (.success (), ⟨⟨#['a'], 1, true, ∅, 0, 1⟩, 2, []⟩) :=
    @meaning_eq_done _ _ _ _ 5 _ rfl
  have hmiss : (jumpToEnd.meaning inner).remembered ⟨1, 1⟩ ⟨⟨#['a'], 0, true, ∅, 0, 0⟩, 2, []⟩ =
      .done (.success (), ⟨⟨#['a'], 1, true, (∅ : Std.HashMap (Key × Nat) Entry).insert (⟨1, 1⟩, 0)
        ⟨.unit, .success (), 1⟩, 0, 1⟩, 2, []⟩) := by
    rw [Action.remembered_of_miss rfl (by simp), hjump]
    rfl
  rw [meaning_untilEnd]
  exact ⟨_, Action.choice_of_failure rfl rfl hmiss, by simp⟩

/-- The second use finds that, and does not look for the rule. -/
theorem meaning_untilEnd_second (cache : Std.HashMap (Key × Nat) Entry)
    (h : cache[((⟨1, 1⟩ : Key), 0)]? = some ⟨.unit, .success (), 1⟩) :
    untilEnd.meaning (Scope.root.renew 1 1) ⟨⟨#['a'], 0, true, cache, 0, 1⟩, 2, []⟩ =
      .done (.success (), ⟨⟨#['a'], 1, true, cache, 1, 1⟩, 2, []⟩) := by
  have hhit := fun part => @Action.remembered_of_hit .unit ⟨⟨#['a'], 0, true, cache, 0, 1⟩, 2, []⟩
    ⟨1, 1⟩ (.success ()) 1 rfl h part
  rw [meaning_untilEnd]
  exact Action.choice_of_failure rfl rfl (hhit _)

/-- So the part succeeds where a run that remembers nothing breaks off. -/
theorem meaning_usedTwice :
    ∃ cache, usedTwice.meaning Scope.root (.startAt #['a'] true 0) =
      .done (.success (), ⟨⟨#['a'], 1, true, cache, 1, 1⟩, 2, []⟩) := by
  obtain ⟨cache, hfirst, hentry⟩ := meaning_untilEnd_first
  have hjump : (Parser.setPosition 0).meaning ((Scope.root.renew 1 1).holding [⟨1, 0⟩])
      ⟨⟨#['a'], 1, true, cache, 0, 1⟩, 2, []⟩ =
        .done (.success (), ⟨⟨#['a'], 0, true, cache, 0, 1⟩, 2, []⟩) :=
    @meaning_eq_done _ _ _ _ 1 _ rfl
  have hback : (untilEnd.andThen (.setPosition 0)).meaning ((Scope.root.renew 1 1).holding [⟨1, 0⟩])
      ⟨⟨#['a'], 0, true, ∅, 0, 0⟩, 2, []⟩ =
        .done (.success (), ⟨⟨#['a'], 0, true, cache, 0, 1⟩, 2, []⟩) := by
    rw [andThen, meaning_bind]
    refine Action.chain_of_success hfirst ?_
    exact hjump
  refine ⟨cache, ?_⟩
  rw [usedTwice, meaning_fresh, andThen]
  simp only [meaning_bind]
  refine Action.chain_of_success hback ?_
  exact meaning_untilEnd_second cache hentry

theorem seen_usedTwice :
    (usedTwice.meaning Scope.root (.startAt #['a'] true 0)).seen = .done (.success (), 1) := by
  obtain ⟨cache, hwhole⟩ := meaning_usedTwice
  rw [hwhole]
  rfl

end Parser

/-- A rule that was dropped breaks off the run that does not remember, while the run
that remembers does not need it any more. -/
theorem Runner.memoize_not_transparent :
    Parser.usedTwice.WellLabelled ∧
      (Runner.withMemoize {} false).Shows Parser.usedTwice #['a'] (.error .ruleDropped) ∧
      (Runner.withMemoize {} true).Shows Parser.usedTwice #['a'] (.ok (.success (), 1)) ∧
      ¬ (Runner.withMemoize {} true).Shows Parser.usedTwice #['a'] (.error .ruleDropped) := by
  have hseen := Parser.seen_usedTwice
  refine ⟨Parser.usedTwice_wellLabelled, ⟨40, rfl⟩, shows_iff.2 hseen, fun h => ?_⟩
  have hdropped := hseen.symm.trans (shows_iff.1 h)
  exact absurd hdropped (by simp)

end ParserKit
