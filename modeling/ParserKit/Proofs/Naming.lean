import ParserKit.Proofs.Packrat

/-!
Every run of a grammar beside the run by names, whether it remembers or not. The two end
the same way unless the run in its scope finds a rule dropped.
-/

namespace ParserKit

open Comparison

/-- The same run twice, with misses that have not fallen since it began. -/
def Comparison.growing (origin : State) : Comparison Unit where
  states _ s s' := s = s' ∧ origin.cursor.misses ≤ s.cursor.misses
  firstExcuse _ := False
  secondExcuse _ := False
  beside h := h.1 ▸ ⟨rfl, rfl⟩
  movedTo h q := ⟨congrArg (State.movedTo · q) h.1, h.2⟩
  tick h counter := ⟨congrArg (State.tick · counter) h.1, h.2⟩

/-- A run by names only adds to the misses before it. -/
theorem Parser.meaningBy_grows {t : Ty} {names : Names} {p : Parser t} {s final : State}
    {outcome : Outcome t.Elem} (h : p.meaningBy names s = .done (outcome, final)) :
    s.cursor.misses ≤ final.cursor.misses := by
  obtain ⟨fuel, hfuel⟩ := exists_evalBy_eq_meaningBy names p s
  have hactions := evalBy_actions (c := .growing s) names
    (fun _ _ _ h => ⟨congrArg State.missed h.1, Nat.le_succ_of_le h.2⟩)
    (Nat.le_refl fuel) p ()
  have hresults := hactions () le_rfl s s ⟨rfl, Nat.le_refl _⟩
  rw [hfuel, h] at hresults
  cases hresults with
  | done _ _ hfinal => exact hfinal.2

/-- The states of a run and of the run by names that goes along with it. -/
structure State.Named (memoize : Bool) (w : Correspondence) (s s' : State) : Prop where
  beside : s.Beside s'
  input_eq : s.cursor.input = w.input
  memoize_eq : s.cursor.memoize = memoize
  taken_eq : s.nextGeneration = w.taken
  unfolds : ∀ (key : Key) (start : Nat) (entry : Entry),
    s.cursor.cache[(key, start)]? = some entry → ∃ cost, entry.Unfolds w key start cost

namespace State.Named

variable {memoize : Bool} {w w' : Correspondence} {s s' : State}

theorem startAt (names : Names) (input : Array Char) (memoize : Bool) (start : Nat) :
    (State.startAt input memoize start).Named memoize (.initial input names)
      (.startAt input false start) :=
  ⟨⟨rfl, rfl⟩, rfl, rfl, rfl, fun _ _ _ hentry => absurd hentry (by simp [State.startAt])⟩

theorem movedTo (h : s.Named memoize w s') (q : Nat) :
    (s.movedTo q).Named memoize w (s'.movedTo q) :=
  ⟨h.beside.movedTo q, h.input_eq, h.memoize_eq, h.taken_eq, h.unfolds⟩

theorem tick (h : s.Named memoize w s') (counter : Nat) :
    (s.tick counter).Named memoize w (s'.tick counter) :=
  ⟨⟨h.beside.1, h.beside.2⟩, h.input_eq, h.memoize_eq, h.taken_eq, h.unfolds⟩

theorem renew (h : s.Named memoize w s') (level : Nat) (names : Names) :
    s.renew.2.Named memoize (w.extend level names w.limit (Nat.le_refl _)) s' := by
  refine ⟨⟨h.beside.1, h.beside.2⟩, h.input_eq, h.memoize_eq, congrArg (· + 1) h.taken_eq,
    fun key start entry hentry => ?_⟩
  obtain ⟨cost, hunfolds⟩ := h.unfolds key start entry hentry
  exact ⟨cost, hunfolds.later w.le_extend⟩

/-- The misses of either run are not compared. -/
theorem missed (h : s.Named memoize w s') : s.missed.Named memoize w s'.missed :=
  ⟨⟨h.beside.1, h.beside.2⟩, h.input_eq, h.memoize_eq, h.taken_eq, h.unfolds⟩

theorem missed_second (h : s.Named memoize w s') : s.Named memoize w s'.missed :=
  ⟨⟨h.beside.1, h.beside.2⟩, h.input_eq, h.memoize_eq, h.taken_eq, h.unfolds⟩

variable {names : Names} {scope scope' : Scope} {t : Ty} {label : Label} {p : Parser t}

/-- A hit is a run by names that is not run. -/
theorem hit (h : s.Named true w s') (hscope : Scope.Twins w names label.level scope scope')
    (hname : names label = some ⟨t, p⟩) {outcome : Outcome t.Elem} {stop : Nat}
    (hentry : s.cursor.cache[(scope.key label, s.cursor.position)]? =
      some { ty := t, outcome, stop }) (hits : Nat) :
    ∃ final, p.meaningBy (names.upTo label.level) s'.missed = .done (outcome, final) ∧
      State.Named true w { s with cursor := { s.cursor with position := stop, hits } } final := by
  obtain ⟨cost, hunfolds⟩ := h.unfolds _ _ _ hentry
  obtain ⟨outcome', stop', heq, hruns⟩ := hunfolds.of_label hscope hname
  obtain ⟨rfl, rfl⟩ : outcome = outcome' ∧ stop = stop' := by
    simpa using heq
  have hinput' : s'.cursor.input = w.input := h.beside.input_eq.symm.trans h.input_eq
  obtain ⟨final, hdone, hinput, hstop, -⟩ := hruns s'.missed hinput' h.beside.position_eq.symm
  exact ⟨final, hdone, ⟨h.input_eq.trans hinput.symm, hstop.symm⟩, h.input_eq, h.memoize_eq,
    h.taken_eq, h.unfolds⟩

/-- An outcome that both runs came to may be remembered. -/
theorem remember (hstart : s.Named true w s')
    (hscope : Scope.Twins w names label.level scope scope') (hname : names label = some ⟨t, p⟩)
    (hw : w ≤ w') {after after' : State} (h : after.Named true w' after') {outcome : Outcome t.Elem}
    (hdone : p.meaningBy (names.upTo label.level) s'.missed = .done (outcome, after')) :
    (after.remember (scope.key label) s.position outcome).Named true w' after' := by
  have hinput' : s'.cursor.input = w'.input :=
    (hstart.beside.input_eq.symm.trans hstart.input_eq).trans hw.input_eq
  have hbeside := h.beside
  refine ⟨⟨?_, ?_⟩, ?_, ?_, h.taken_eq, fun key start entry hentry => ?_⟩
  · simpa only [State.remember, Cursor.input_remember] using hbeside.input_eq
  · simpa only [State.remember, State.position, Cursor.position_remember] using hbeside.position_eq
  · simpa only [State.remember, Cursor.input_remember] using h.input_eq
  · simp [State.remember, Cursor.remember, h.memoize_eq]
  · simp only [State.remember] at hentry
    rw [Cursor.cache_remember h.memoize_eq] at hentry
    split at hentry
    · rename_i hplace
      obtain ⟨rfl, rfl⟩ := Prod.mk.inj hplace
      obtain rfl := Option.some.inj hentry
      have hmisses := Parser.meaningBy_grows hdone
      have hstop : after.cursor.position = after'.position := hbeside.position_eq
      have hposition : s.position = s'.missed.position := hstart.beside.position_eq
      rw [hstop, hposition]
      exact ⟨_, .of_run (s := s'.missed) (hscope.later hw) hname hinput' hdone
        (hbeside.input_eq.symm.trans h.input_eq) (Nat.add_sub_of_le hmisses).symm⟩
    · exact h.unfolds key start entry hentry

end State.Named

namespace Comparison

/-- The two runs in exchanged places. -/
def swap {ω : Type} [Preorder ω] (c : Comparison ω) : Comparison ω where
  states w s s' := c.states w s' s
  firstExcuse := c.secondExcuse
  secondExcuse := c.firstExcuse
  beside h := ⟨(c.beside h).1.symm, (c.beside h).2.symm⟩
  movedTo h := c.movedTo h
  tick h := c.tick h

/-- A run, which may find a rule dropped, beside the run by names. -/
def naming (memoize : Bool) : Comparison Correspondence where
  states w s s' := s.Named memoize w s'
  firstExcuse cause := cause = .ruleDropped
  secondExcuse _ := False
  beside h := h.beside
  movedTo h := h.movedTo
  tick h := h.tick

/-- The same of grammars that drop no rule. -/
def enclosedNaming (memoize : Bool) : Comparison Correspondence :=
  { naming memoize with firstExcuse := fun _ => False }

variable {memoize : Bool} {w : Correspondence} {names : Names} {scope scope' : Scope} {t : Ty}
  {label : Label} {p : Parser t}

/-- Whatever is excused, a memoized parser keeps a comparison with the run by names. -/
theorem named_remembered {c : Comparison Correspondence}
    (hc : ∀ {w s s'}, c.states w s s' ↔ s.Named memoize w s')
    (hscope : Scope.Twins w names label.level scope scope')
    (hname : names label = some ⟨t, p⟩) {x : Action t.Elem}
    (hx : c.Actions w x (p.meaningBy (names.upTo label.level))) :
    c.Actions w (x.remembered (scope.key label)) fun s =>
      p.meaningBy (names.upTo label.level) s.missed := by
  intro w' hw s s' hs
  show c.Results w' _ (p.meaningBy (names.upTo label.level) s'.missed)
  have hscope' := hscope.later hw
  replace hs : s.Named memoize w' s' := hc.1 hs
  cases memoize with
  | false =>
    simp only [Action.remembered, hs.memoize_eq]
    exact hx w' hw s s'.missed (hc.2 hs.missed_second)
  | true =>
    rcases Action.remembered_cases hs.memoize_eq (scope.key label) x with
      ⟨outcome, stop, hentry, hhit⟩ | hmiss
    · obtain ⟨final, hdone, hfinal⟩ := hs.hit hscope' hname hentry (s.cursor.hits + 1)
      rw [hhit, hdone]
      exact .done le_rfl outcome (hc.2 hfinal)
    · rw [hmiss, ← Result.bind_done (p.meaningBy (names.upTo label.level) s'.missed)]
      refine (hx w' hw s.missed s'.missed (hc.2 hs.missed)).bind_of_eq ?_
      intro w'' hw' outcome after after' _ hsecond hafter
      exact .done le_rfl outcome (hc.2 (hs.remember hscope' hname hw' (hc.1 hafter) hsecond))

theorem naming_byNames : ByNames naming where
  taken_eq hs := hs.taken_eq
  renew hs := hs.renew
  remembered hscope hname hx := named_remembered Iff.rfl hscope hname (hx _)

theorem enclosedNaming_byNames : ByNames enclosedNaming where
  taken_eq hs := State.Named.taken_eq hs
  renew hs := State.Named.renew hs
  remembered hscope hname hx := named_remembered Iff.rfl hscope hname (hx _)

/-- The other way round: the run by names may lack fuel, the run in a scope may not. -/
theorem naming_swap_remembered (hscope : Scope.Twins w names label.level scope scope')
    (hname : names label = some ⟨t, p⟩) {x : Action t.Elem} {fuel : Nat}
    (hx : (naming memoize).swap.Actions w (p.evalBy fuel (names.upTo label.level)) x) :
    (naming memoize).swap.Actions w (fun s => p.evalBy fuel (names.upTo label.level) s.missed)
      (x.remembered (scope.key label)) := by
  intro w' hw s s' hs
  show (naming memoize).swap.Results w' (p.evalBy fuel (names.upTo label.level) s.missed) _
  have hscope' := hscope.later hw
  have hs : s'.Named memoize w' s := hs
  cases memoize with
  | false =>
    simp only [Action.remembered, hs.memoize_eq]
    exact hx w' hw s.missed s' hs.missed_second
  | true =>
    rcases Action.remembered_cases hs.memoize_eq (scope.key label) x with
      ⟨outcome, stop, hentry, hhit⟩ | hmiss
    · obtain ⟨final, hdone, hfinal⟩ := hs.hit hscope' hname hentry (s'.cursor.hits + 1)
      rw [hhit]
      by_cases hfuel : p.evalBy fuel (names.upTo label.level) s.missed = .timeout
      · rw [hfuel]
        exact .timeout _
      · rw [← Parser.meaningBy_eq_evalBy hfuel, hdone]
        exact .done le_rfl outcome hfinal
    · rw [hmiss, ← Result.bind_done (p.evalBy fuel (names.upTo label.level) s.missed)]
      refine (hx w' hw s.missed s'.missed hs.missed).bind_of_eq ?_
      intro w'' hw' outcome after after' hfirst _ hafter
      have hdone := (Parser.meaningBy_eq_evalBy (hfirst.trans_ne (by simp))).trans hfirst
      exact .done le_rfl outcome (hs.remember hscope' hname hw' hafter hdone)

end Comparison

namespace Parser

variable {t : Ty}

/-- Wherever the run by names ends, so does a run in a scope that meets the names. -/
theorem naming_swap_actions (fuel : Nat) (p : Parser t) {memoize : Bool} {w : Correspondence}
    {names : Names} {level : Nat} {scope scope' : Scope} (hp : p.Labelled names level)
    (h : Scope.Twins w names level scope scope') :
    (naming memoize).swap.Actions w (p.evalBy fuel names) (p.meaning scope) := by
  induction fuel generalizing t w names level scope scope' with
  | zero => exact fun _ _ _ _ _ => .timeout _
  | succ fuel ih =>
    cases p with
    | atom a =>
      rw [meaning_atom]
      exact .atom a
    | wrap wrapper p =>
      rw [meaning_wrap]
      exact (ih p hp h).wrapped wrapper
    | bind p captures next =>
      rw [meaning_bind]
      exact (ih p hp.1 (h.holding captures)).chain fun value => ih (next value) (hp.2 value) h
    | sequence items =>
      intro w' hw s s' hs
      rw [meaning_sequence, ← ((naming memoize).swap.beside hs).position_eq]
      have hitems := fun i => ih (items i) (hp i) (h.holding (ownedItems items))
      exact Actions.sequence hitems s.position (List.finRange _) [] w' hw s s' hs
    | choice first second =>
      rw [meaning_choice]
      exact (ih first hp.1 (h.holding second.owned)).choice (ih second hp.2 h)
    | memo label p =>
      rw [meaning_memo]
      obtain ⟨hlevel, hname, hp⟩ := hp
      have hlower := h.lower hlevel
      exact naming_swap_remembered hlower hname
        (ih p (hp.congr (names.agree_upTo label.level)) hlower.upTo)
    | many p =>
      rw [meaning_many]
      exact (ih p hp (h.holding p.owned)).repeated fuel []
    | many1 p =>
      rw [meaning_many1]
      have hoccurrence := ih p hp (h.holding p.owned)
      exact hoccurrence.repeatFrom1 fun values => hoccurrence.repeated fuel values
    | recursive name body =>
      rw [meaning_recursive]
      obtain ⟨hlevel, hname, hbody⟩ := hp
      exact ih body hbody ((h.define hlevel hname hbody).lower hlevel)
    | rule name =>
      rw [meaning_rule]
      rcases h.resolve hp t with ⟨body, inner, inner', hfound, -, hbody, hinner⟩ | ⟨hnone, -⟩
      · simp only [evalBy, Names.find_eq (h.meets.resolve hp hfound).1, hfound]
        exact ih body hbody hinner
      · simp only [hnone]
        exact fun _ _ _ _ _ => .secondExcused rfl _
    | fresh inner captures body =>
      rw [meaning_fresh]
      obtain ⟨hpos, hinner, hnames⟩ := hp
      obtain ⟨hbody, hbelow⟩ := Names.renewed_spec hnames
      intro w' hw s s' hs
      have hs : s'.Named memoize w' s := hs
      have htwins := (h.later hw).renew hpos hinner hbelow (Nat.le_refl w'.limit)
      rw [← hs.taken_eq] at htwins
      have hrenewed := hs.renew inner (names.renewed inner (body ()))
      exact (ih (body ()) hbody htwins _ le_rfl _ _ hrenewed).earlier w'.le_extend
    | tick counter p =>
      rw [meaning_tick]
      exact (ih p hp h).tick counter

variable {p : Parser t} {names : Names}

/-- A grammar does by names what it does in any other way, if that comes to an end. -/
theorem Labelled.naming (hp : p.Labelled names 0) (input : Array Char) (memoize : Bool)
    (start : Nat) (hends : p.meaning Scope.root (.startAt input memoize start) ≠ .timeout) :
    (Comparison.naming memoize).Results (.initial input names)
      (p.meaning Scope.root (.startAt input memoize start))
      (p.meaningBy names (.startAt input false start)) := by
  obtain ⟨fuel, hfuel⟩ := exists_eval_eq_meaning hends
  rw [← hfuel]
  exact naming_byNames.actions fuel p hp (.initial input names) (.inl fun _ => rfl) _ le_rfl _ _
    (.startAt names input memoize start)

/-- A grammar ends by names if and only if it ends otherwise, and the same way, unless
it finds a rule dropped. -/
theorem Labelled.seen_byNames (hp : p.Labelled names 0) (input : Array Char) (memoize : Bool)
    (start : Nat)
    (hkept : p.meaning Scope.root (.startAt input memoize start) ≠ .fault .ruleDropped) :
    (p.meaning Scope.root (.startAt input memoize start)).seen =
      (p.meaningBy names (.startAt input false start)).seen := by
  by_cases hends : p.meaning Scope.root (.startAt input memoize start) = .timeout
  · obtain ⟨fuel, hfuel⟩ := exists_evalBy_eq_meaningBy names p (.startAt input false start)
    have hresults := naming_swap_actions fuel p hp (.initial input names) _ le_rfl _ _
      (State.Named.startAt names input memoize start)
    rw [hfuel, hends] at hresults
    rw [hends]
    generalize p.meaningBy names (.startAt input false start) = second at *
    cases hresults with
    | timeout => rfl
    | firstExcused hcause => exact absurd hcause id
  · have hresults := hp.naming input memoize start hends
    generalize p.meaning Scope.root (.startAt input memoize start) = first at *
    generalize p.meaningBy names (.startAt input false start) = second at *
    cases hresults with
    | timeout => exact absurd rfl hends
    | firstExcused hcause => exact absurd (congrArg Result.fault hcause) hkept
    | secondExcused hcause => exact absurd hcause id
    | fault cause => rfl
    | done _ outcome hs => simp [Result.seen, hs.beside.position_eq]

/-- A grammar that drops no rule ends by names if and only if it ends otherwise, and the
same way. -/
theorem Labelled.seen_byNames_of_enclosed (hp : p.Labelled names 0)
    (henclosed : p.Enclosed fun _ => False) (input : Array Char) (memoize : Bool) (start : Nat) :
    (p.meaning Scope.root (.startAt input memoize start)).seen =
      (p.meaningBy names (.startAt input false start)).seen := by
  by_cases hkept : p.meaning Scope.root (.startAt input memoize start) = .fault .ruleDropped
  · -- a fault of its own, which the run by names comes to as well
    obtain ⟨fuel, hfuel⟩ := exists_eval_eq_meaning (hkept.trans_ne (by simp))
    have hresults := enclosedNaming_byNames.actions (i := memoize) fuel p hp
      (.initial input names) (.inr (.root henclosed)) _ le_rfl _ _
      (State.Named.startAt names input memoize start)
    rw [hfuel, hkept] at hresults
    rw [hkept]
    generalize p.meaningBy names (.startAt input false start) = second at *
    cases hresults with
    | firstExcused hcause => exact absurd hcause id
    | secondExcused hcause => exact absurd hcause id
    | fault cause => rfl
  · exact hp.seen_byNames input memoize start hkept

/-- Where a grammar has an outcome, it has the same one by names. -/
theorem Labelled.exists_named (hp : p.Labelled names 0) {input : Array Char} {memoize : Bool}
    {start : Nat} {outcome : Outcome t.Elem} {final : State}
    (hdone : p.meaning Scope.root (.startAt input memoize start) = .done (outcome, final)) :
    ∃ w final', p.meaningBy names (.startAt input false start) = .done (outcome, final') ∧
      final.Named memoize w final' := by
  have hresults := hp.naming input memoize start (hdone.trans_ne (by simp))
  rw [hdone] at hresults
  generalize p.meaningBy names (.startAt input false start) = second at *
  cases hresults with
  | secondExcused hcause => exact absurd hcause id
  | done _ _ hfinal => exact ⟨_, _, rfl, hfinal⟩

end Parser

end ParserKit
