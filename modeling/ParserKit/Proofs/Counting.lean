import ParserKit.Proofs.Passages
import ParserKit.Proofs.Transparency

/-!
Remembering never does more work. What a run counts while it remembers is what it counts
otherwise, with the parts left out that it has remembered, whichever way both end. Only
where the run that does not remember finds a rule dropped is there nothing to compare:
that run is over, while the other one may go on.
-/

namespace ParserKit

open Comparison

namespace Comparison

/-- A run that remembers nothing, beside one that remembers and leaves out counts. -/
def counting : Comparison Correspondence where
  states w s s' := s'.Paired w s ∧ s'.ticks.Sublist s.ticks
  firstExcuse cause := cause = .ruleDropped
  secondExcuse _ := False
  beside h := ⟨h.1.beside.1.symm, h.1.beside.2.symm⟩
  movedTo h q := ⟨h.1.movedTo q, h.2⟩
  tick h counter := ⟨h.1.tick counter, h.2.cons_cons counter⟩

variable {w : Correspondence} {names : Names} {scope scope' : Scope} {t : Ty} {label : Label}
  {p : Parser t} {fuel : Nat}

/-- What is left out at a hit is all that the run of the part counts. -/
theorem counting_hit (hscope : Scope.Twins w names label.level scope' scope)
    (hname : names label = some ⟨t, p⟩) {s s' : State} (hs : counting.states w s s')
    {outcome : Outcome t.Elem} {stop : Nat}
    (hentry : s'.cursor.cache[(scope'.key label, s'.cursor.position)]? =
      some { ty := t, outcome, stop }) (hits : Nat) :
    counting.Results w (p.eval fuel scope s) (.done (outcome,
      { s' with cursor := { s'.cursor with position := stop, hits } })) := by
  obtain ⟨hpaired, hticks⟩ := hs
  by_cases hfuel : p.eval fuel scope s = .timeout
  · rw [hfuel]
    exact .timeout _
  · have hrun := hpaired.hit hscope hname hentry hits
    rw [Parser.meaning_eq_eval hfuel] at hrun
    rcases hrun with hdropped | ⟨final, hdone, hfinal⟩
    · rw [hdropped]
      exact .firstExcused rfl _
    · rw [hdone]
      have hgrown : s.ticks <:+ final.ticks := p.eval_ticks fuel scope s _ hdone
      exact .done le_rfl outcome ⟨hfinal, hticks.trans hgrown.sublist⟩

theorem counting_remembered (hscope : Scope.Twins w names label.level scope' scope)
    (hname : names label = some ⟨t, p⟩) (hp : p.Labelled names label.level)
    (h : counting.Courses w (p.course fuel scope) (p.course fuel scope')) :
    counting.Courses w ((p.course fuel scope).remembered (scope.key label))
      ((p.course fuel scope').remembered (scope'.key label)) where
  actions := by
    intro w' hw s s' hs
    have hscope := hscope.later hw
    have hactions := h.actions
    simp only [Course.remembered, Parser.run_course] at hactions ⊢
    rw [Action.remembered_of_plain hs.1.plain]
    rcases Action.remembered_cases hs.1.memoize_eq (scope'.key label) (p.eval fuel scope') with
      ⟨outcome, stop, hentry, hhit⟩ | hmiss
    · rw [hhit]
      exact counting_hit hscope hname hs hentry _
    · rw [hmiss, ← Result.bind_done (p.eval fuel scope s)]
      refine (hactions w' hw s s'.missed ⟨hs.1.missed _, hs.2⟩).bind_of_eq ?_
      intro w'' hw' outcome after after' hfirst _ hafter
      have hdone := Parser.meaning_eq_done hfirst
      exact .done le_rfl outcome ⟨hs.1.remember hscope hname hp hw' hafter.1 hdone, hafter.2⟩
  breaks := by
    intro w' hw s s' hs
    have hscope := hscope.later hw
    have hstay : (s.lookup (scope.key label) t).2 = s := by
      simp [State.lookup, Cursor.lookup, hs.1.plain.memoize_eq]
    simp only [Course.remembered, hstay]
    rw [Action.remembered_of_plain hs.1.plain]
    rcases State.lookup_cases hs.1.memoize_eq (scope'.key label) t with
      ⟨outcome, stop, -, hlookup⟩ | hlookup
    · simp only [Action.remembered, hs.1.memoize_eq, if_true, hlookup]
      exact fun _ _ hdone => absurd hdone (by simp)
    · simp only [Action.remembered, hs.1.memoize_eq, if_true, hlookup]
      rw [← Result.bind_done ((p.course fuel scope).run s)]
      exact (h.breaks w' hw s s'.missed ⟨hs.1.missed _, hs.2⟩).last
        (fun _ _ => ⟨_, rfl⟩) fun _ _ => ⟨_, rfl⟩

end Comparison

namespace Parser

variable {t : Ty}

/-- Well labelled parsers count no more when they remember. -/
theorem course_counting (fuel : Nat) (p : Parser t) {w : Correspondence} {names : Names}
    {level : Nat} {scope scope' : Scope} (hp : p.Labelled names level)
    (h : Scope.Twins w names level scope' scope) :
    counting.Courses w (p.course fuel scope) (p.course fuel scope') := by
  induction fuel generalizing t w names level scope scope' with
  | zero => exact ⟨fun _ _ _ _ _ => .timeout _, fun _ _ _ _ _ _ hx => absurd hx (by simp [course])⟩
  | succ fuel ih =>
    cases p with
    | atom a => exact .atom a
    | wrap wrapper p => exact (ih p hp h).wrapped wrapper
    | bind p captures next =>
      exact (ih p hp.1 (h.holding captures)).chain fun value => ih (next value) (hp.2 value) h
    | sequence items => exact .sequence fun i => ih (items i) (hp i) (h.holding (ownedItems items))
    | choice first second =>
      exact (ih first hp.1 (h.holding second.owned)).choice (ih second hp.2 h)
    | memo label p =>
      obtain ⟨hlevel, hname, hp⟩ := hp
      have hlower := h.lower hlevel
      exact counting_remembered hlower hname hp (ih p hp hlower)
    | many p => exact (ih p hp (h.holding p.owned)).many fuel
    | many1 p => exact (ih p hp (h.holding p.owned)).many1 fuel
    | recursive name body =>
      obtain ⟨hlevel, hname, hbody⟩ := hp
      exact ih body hbody ((h.define hlevel hname hbody).lower hlevel)
    | rule name =>
      simp only [course]
      rcases h.resolve hp t with ⟨body, inner, inner', hfound, hfound', hbody, hinner⟩ |
        ⟨hnone, hnone'⟩
      · rw [hfound, hfound']
        exact ih body hbody hinner
      · rw [hnone, hnone']
        exact ⟨fun _ _ _ _ _ => .fault _, fun _ _ _ _ hs => .fault hs _ _⟩
    | fresh inner captures body =>
      obtain ⟨hpos, hinner, names', hbody, hbelow⟩ := hp
      have hrenewed : ∀ w', w ≤ w' → ∀ s s', counting.states w' s s' →
          ∃ w'', w' ≤ w'' ∧ counting.states w'' s.renew.2 s'.renew.2 ∧
            counting.Courses w'' ((body ()).course fuel (scope.renew inner s.renew.1))
              ((body ()).course fuel (scope'.renew inner s'.renew.1)) := by
        intro w' hw s s' hs
        have htwins := (h.later hw).renew hpos hinner hbelow hs.1.plain.2
        rw [← hs.1.taken_eq] at htwins
        exact ⟨_, w'.le_extend, ⟨hs.1.renew inner names', hs.2⟩, ih (body ()) hbody htwins⟩
      constructor
      · intro w' hw s s' hs
        obtain ⟨w'', hw', hs', hbody⟩ := hrenewed w' hw s s' hs
        exact (hbody.actions w'' le_rfl _ _ hs').earlier hw'
      · intro w' hw s s' hs
        obtain ⟨w'', -, hs', hbody⟩ := hrenewed w' hw s s' hs
        exact hbody.breaks w'' le_rfl _ _ hs'
    | tick counter p => exact (ih p hp h).tick counter

end Parser

namespace Runner

variable {t : Ty}

/-- Remembering never does more work. When a run that remembers nothing comes to an end,
with an outcome or by any fault but that of a dropped rule, so does one that remembers, and
whatever that one has counted then, it has counted at most as often. -/
theorem ticks_le_plain (runner : Runner) (p : Parser t) (hp : p.WellLabelled) (input : Array Char)
    (limit steps : Nat) (m : Machine t)
    (h : drive Machine.step limit 0 ((runner.withMemoize false).begin p input) = some (steps, m))
    (hkept : m.control ≠ .broken .ruleDropped) :
    (∃ limit' steps' m',
      drive Machine.step limit' 0 ((runner.withMemoize true).begin p input) = some (steps', m')) ∧
    ∀ limit' steps' m',
      drive Machine.step limit' 0 ((runner.withMemoize true).begin p input) = some (steps', m') →
      ∀ counter, m'.state.ticks.count counter ≤ m.state.ticks.count counter := by
  obtain ⟨names, hp⟩ := hp
  obtain ⟨fuel, hfuel, hends, hstate⟩ := Parser.eval_of_drive h
  replace hkept : m.result ≠ .fault .ruleDropped :=
    fun hdropped => hkept (Machine.broken_of_result hdropped)
  have hcourses := Parser.course_counting fuel p hp (Scope.Twins.initial input names)
  have hstart : counting.states (.initial input names) (.startAt input false 0)
      (.startAt input true 0) := ⟨.startAt names input 0, List.Sublist.refl _⟩
  have hresults := hcourses.actions _ le_rfl _ _ hstart
  simp only [p.run_course] at hresults
  have hplain : p.eval fuel Scope.root (.startAt input false 0) = m.result := hfuel
  have hremembering : p.eval fuel Scope.root (.startAt input true 0) ≠ .timeout := by
    intro htimeout
    rw [hplain, htimeout] at hresults
    generalize m.result = first at *
    cases hresults with
    | timeout => exact hends rfl
    | firstExcused hcause => exact hkept (congrArg Result.fault hcause)
  -- what one fuel is enough for in both runs
  obtain ⟨n, last, hsteps, hend, -, hlast, -⟩ := Machine.start_ends rfl hremembering
  have hdrive := drive_eq hsteps hend (Nat.lt_succ_self n) 0
  obtain ⟨w, -, hticks⟩ := hcourses.final hstart (by rwa [p.run_course, hplain])
    (fun cause hcause => by
      rintro rfl
      exact hkept (by rw [← hplain, ← p.run_course, hcause])) (fun _ _ => id)
  refine ⟨⟨n + 1, _, last, hdrive⟩, fun limit' steps' m' h' counter => ?_⟩
  obtain ⟨-, rfl⟩ := drive_unique h' hdrive
  rw [hlast, hstate]
  exact hticks.count_le counter

/-- A part that is rebuilt each time it runs, which counts how often it is. -/
def countedLetter : Parser .char :=
  .tick 0 (.fresh 1 [] fun _ => .atom (.char 'a'))

/-- The part is looked at, refused, and then read; after that comes a jump. -/
def countedTwice (target : Nat) : Parser .unit :=
  .andThen (.choice (.notFollowedBy (.memo ⟨0, 0⟩ countedLetter)) (.ret (t := .unit) ()))
    (.andThen (.memo ⟨0, 0⟩ countedLetter) (.setPosition target))

theorem countedTwice_wellLabelled (target : Nat) : (countedTwice target).WellLabelled := by
  have hcounted : countedLetter.Labelled (fun _ => some ⟨.char, countedLetter⟩) 0 :=
    ⟨Nat.one_pos, Nat.le_refl 1, fun _ => some ⟨.char, countedLetter⟩, trivial, fun _ _ => rfl⟩
  have hmemo : (Parser.memo ⟨0, 0⟩ countedLetter).Labelled
      (fun _ => some ⟨.char, countedLetter⟩) 0 := ⟨Nat.le_refl 0, rfl, hcounted⟩
  exact ⟨fun _ => some ⟨.char, countedLetter⟩, ⟨hmemo, trivial⟩, fun _ => ⟨hmemo, fun _ => trivial⟩⟩

/-- The jump stays inside the text in one run, and breaks the other one off. -/
theorem ticks_le_plain_countedTwice :
    ((countedTwice 1).WellLabelled ∧ ∃ steps m limit' steps' m',
      drive Machine.step 60 0 ((Runner.withMemoize {} false).begin (countedTwice 1) #['a']) =
        some (steps, m) ∧
      m.control = .halted (some (.success ())) ∧ m.state.ticks = [0, 0] ∧
      drive Machine.step limit' 0 ((Runner.withMemoize {} true).begin (countedTwice 1) #['a']) =
        some (steps', m') ∧
      ∀ counter, m'.state.ticks.count counter ≤ m.state.ticks.count counter) ∧
    ((countedTwice 2).WellLabelled ∧ ∃ steps m limit' steps' m',
      drive Machine.step 60 0 ((Runner.withMemoize {} false).begin (countedTwice 2) #['a']) =
        some (steps, m) ∧
      m.control = .broken (.jumpPastEnd 2 1) ∧ m.state.ticks = [0, 0] ∧
      drive Machine.step limit' 0 ((Runner.withMemoize {} true).begin (countedTwice 2) #['a']) =
        some (steps', m') ∧
      ∀ counter, m'.state.ticks.count counter ≤ m.state.ticks.count counter) := by
  have hread : ∃ steps m,
      drive Machine.step 60 0 ((Runner.withMemoize {} false).begin (countedTwice 1) #['a']) =
        some (steps, m) ∧
      m.control = .halted (some (.success ())) ∧ m.state.ticks = [0, 0] := ⟨_, _, rfl, rfl, rfl⟩
  have hbroken : ∃ steps m,
      drive Machine.step 60 0 ((Runner.withMemoize {} false).begin (countedTwice 2) #['a']) =
        some (steps, m) ∧
      m.control = .broken (.jumpPastEnd 2 1) ∧ m.state.ticks = [0, 0] := ⟨_, _, rfl, rfl, rfl⟩
  constructor
  · obtain ⟨steps, m, hdrive, hcontrol, hticks⟩ := hread
    have hlabelled := countedTwice_wellLabelled 1
    obtain ⟨⟨limit', steps', m', hdrive'⟩, hle⟩ :=
      ticks_le_plain {} (countedTwice 1) hlabelled #['a'] 60 steps m hdrive (by simp [hcontrol])
    exact ⟨hlabelled, steps, m, limit', steps', m', hdrive, hcontrol, hticks, hdrive',
      hle limit' steps' m' hdrive'⟩
  · obtain ⟨steps, m, hdrive, hcontrol, hticks⟩ := hbroken
    have hlabelled := countedTwice_wellLabelled 2
    obtain ⟨⟨limit', steps', m', hdrive'⟩, hle⟩ :=
      ticks_le_plain {} (countedTwice 2) hlabelled #['a'] 60 steps m hdrive (by simp [hcontrol])
    exact ⟨hlabelled, steps, m, limit', steps', m', hdrive, hcontrol, hticks, hdrive',
      hle limit' steps' m' hdrive'⟩

/-- A rule is used twice, and then a part that counts how often it is rebuilt. -/
def countedAfter : Parser .unit :=
  .andThen .usedTwice (.tick 0 (.fresh 1 [] fun _ => .ret (t := .unit) ()))

theorem countedAfter_wellLabelled : countedAfter.WellLabelled := by
  obtain ⟨names, husedTwice⟩ := Parser.usedTwice_wellLabelled
  exact ⟨names, husedTwice, fun _ =>
    ⟨Nat.one_pos, Nat.le_refl 1, names, trivial, fun _ _ => rfl⟩⟩

/-- A run that finds a rule dropped does not come to what is counted behind it, where one
that remembers does. -/
theorem ticks_not_le_plain :
    countedAfter.WellLabelled ∧ ∃ limit steps m limit' steps' m',
      drive Machine.step limit 0 ((Runner.withMemoize {} false).begin countedAfter #['a']) =
        some (steps, m) ∧
      drive Machine.step limit' 0 ((Runner.withMemoize {} true).begin countedAfter #['a']) =
        some (steps', m') ∧
      m.control = .broken .ruleDropped ∧ m.state.ticks = [] ∧
      m'.control = .halted (some (.success ())) ∧ m'.state.ticks = [0] ∧
      ¬ m'.state.ticks.count 0 ≤ m.state.ticks.count 0 := by
  have hplain : ∃ steps m,
      drive Machine.step 60 0 ((Runner.withMemoize {} false).begin countedAfter #['a']) =
        some (steps, m) ∧
      m.control = .broken .ruleDropped ∧ m.state.ticks = [] := ⟨_, _, rfl, rfl, rfl⟩
  obtain ⟨cache, hfirst⟩ := Parser.meaning_usedTwice
  have hcounted : (Parser.tick 0 (.fresh 1 [] fun _ => .ret (t := .unit) ())).meaning Scope.root
      ⟨⟨#['a'], 1, true, cache, 1, 1⟩, 2, []⟩ =
        .done (.success (), ⟨⟨#['a'], 1, true, cache, 1, 1⟩, 3, [0]⟩) :=
    @Parser.meaning_eq_done _ _ _ _ 3 _ rfl
  have hwhole : countedAfter.meaning Scope.root (.startAt #['a'] true 0) =
      .done (.success (), ⟨⟨#['a'], 1, true, cache, 1, 1⟩, 3, [0]⟩) := by
    rw [countedAfter, Parser.andThen, Parser.meaning_bind]
    refine Action.chain_of_success hfirst ?_
    exact hcounted
  obtain ⟨limit', steps', m', hdrive', hresult⟩ :=
    (Parser.ends_iff countedAfter _ (.ok (_, _))).2 hwhole
  obtain rfl := Machine.eq_of_result_done hresult
  obtain ⟨steps, m, hdrive, hcontrol, hticks⟩ := hplain
  refine ⟨countedAfter_wellLabelled, 60, steps, m, limit', steps', _, hdrive, hdrive', hcontrol,
    hticks, rfl, rfl, ?_⟩
  simp [hticks]

end Runner

end ParserKit
