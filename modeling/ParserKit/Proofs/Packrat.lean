import Mathlib.Data.Finset.Card
import Mathlib.Data.Finset.Prod
import Mathlib.Data.Finset.Range
import ParserKit.Proofs.ByNames
import ParserKit.Proofs.Passages
import ParserKit.Proofs.Places

/-!
No memoized parser runs twice from the same place. A second run could only begin while
the first has not ended, for afterwards the outcome is remembered. But what a parser
does depends on the place alone: the inner run would have to come to that place once
more, and so on without end.

The argument is a count. A run by names goes along with the run that remembers; of
every remembered outcome it is known how many misses the run by names takes for it.
Whatever is remembered while a parser runs has taken less than that parser has taken
so far, so the parser itself is not among it when it ends, and its outcome is stored
at a place that was free.
-/

namespace ParserKit

open Comparison

namespace Cursor

variable {t : Ty} {cursor : Cursor} {key : Key} {start : Nat}

@[simp] theorem misses_remember (cursor : Cursor) (key : Key) (start : Nat)
    (outcome : Outcome t.Elem) :
    (cursor.remember key start outcome).misses = cursor.misses := by
  simp only [remember]
  split <;> rfl

theorem size_remember (h : cursor.memoize = true) (hfree : cursor.cache[(key, start)]? = none)
    (outcome : Outcome t.Elem) :
    (cursor.remember key start outcome).cache.size = cursor.cache.size + 1 := by
  have hnot : (key, start) ∉ cursor.cache := by
    simpa using hfree
  simp only [remember, h, if_true, Std.HashMap.size_insert, hnot, if_false]

end Cursor

/-- A run by names of the parser that a key stands for ends like the entry, from every
state at its place, and takes so many misses. -/
def Entry.Unfolds (entry : Entry) (w : Correspondence) (key : Key) (start cost : Nat) : Prop :=
  key.generation < w.taken ∧ ∃ p,
    (w.birth key.generation).2 ⟨(w.birth key.generation).1, key.index⟩ = some ⟨entry.ty, p⟩ ∧
    ∀ s : State, s.cursor.input = w.input → s.position = start →
      ∃ final, p.meaningBy (w.birth key.generation).2 s = .done (entry.outcome, final) ∧
        final.cursor.input = w.input ∧ final.position = entry.stop ∧
        final.cursor.misses = s.cursor.misses + cost

namespace Entry.Unfolds

variable {entry entry' : Entry} {w w' : Correspondence} {key : Key} {start cost cost' : Nat}

theorem later (hw : w ≤ w') (h : entry.Unfolds w key start cost) :
    entry.Unfolds w' key start cost := by
  obtain ⟨hlt, hrest⟩ := h
  refine ⟨Nat.lt_of_lt_of_le hlt hw.taken_le, ?_⟩
  rw [← hw.birth_eq key.generation hlt, ← hw.input_eq]
  exact hrest

/-- The misses are those of the parser and the place. -/
theorem cost_eq (h : entry.Unfolds w key start cost) (h' : entry'.Unfolds w key start cost') :
    cost = cost' := by
  obtain ⟨ty, outcome, stop⟩ := entry
  obtain ⟨ty', outcome', stop'⟩ := entry'
  obtain ⟨-, p, hname, hruns⟩ := h
  obtain ⟨-, p', hname', hruns'⟩ := h'
  obtain ⟨hty, hp⟩ := Sigma.mk.inj (Option.some.inj (hname.symm.trans hname'))
  obtain rfl : ty = ty' := hty
  obtain rfl : p = p' := eq_of_heq hp
  obtain ⟨final, hdone, -, -, hmisses⟩ := hruns (.startAt w.input false start) rfl rfl
  obtain ⟨final', hdone', -, -, hmisses'⟩ := hruns' (.startAt w.input false start) rfl rfl
  obtain ⟨-, rfl⟩ := Prod.mk.inj (Result.done.inj (hdone.symm.trans hdone'))
  omega

variable {names : Names} {scope scope' : Scope} {t : Ty} {label : Label} {p : Parser t}

/-- What is stored under the key of a label is what the label names. -/
theorem of_label (h : entry.Unfolds w (scope.key label) start cost)
    (hscope : Scope.Twins w names label.level scope scope') (hname : names label = some ⟨t, p⟩) :
    ∃ outcome stop, entry = { ty := t, outcome, stop } ∧
      ∀ s : State, s.cursor.input = w.input → s.position = start →
        ∃ final, p.meaningBy (names.upTo label.level) s = .done (outcome, final) ∧
          final.cursor.input = w.input ∧ final.position = stop ∧
          final.cursor.misses = s.cursor.misses + cost := by
  obtain ⟨ty, outcome, stop⟩ := entry
  obtain ⟨-, stored, hstored, hruns⟩ := h
  rw [hscope.birth_key (Nat.le_refl _)] at hstored hruns
  have hnamed : names.upTo label.level label = some ⟨t, p⟩ :=
    (names.agree_upTo label.level label (Nat.le_refl _)).symm.trans hname
  obtain ⟨hty, hp⟩ := Sigma.mk.inj (Option.some.inj (hstored.symm.trans hnamed))
  obtain rfl : ty = t := hty
  obtain rfl : stored = p := eq_of_heq hp
  exact ⟨outcome, stop, rfl, hruns⟩

/-- An outcome that a run by names came to may be remembered. -/
theorem of_run (hscope : Scope.Twins w names label.level scope scope')
    (hname : names label = some ⟨t, p⟩) {s after : State} (hinput : s.cursor.input = w.input)
    {outcome : Outcome t.Elem}
    (hdone : p.meaningBy (names.upTo label.level) s = .done (outcome, after))
    (hafter : after.cursor.input = w.input)
    (hcost : after.cursor.misses = s.cursor.misses + cost) :
    Unfolds { ty := t, outcome, stop := after.position } w (scope.key label) s.position cost := by
  refine ⟨hscope.meets.generation_lt label.level (Nat.le_refl _), p, ?_, ?_⟩
  · rw [hscope.birth_key (Nat.le_refl _)]
    exact (names.agree_upTo label.level label (Nat.le_refl _)).symm.trans hname
  · rw [hscope.birth_key (Nat.le_refl _)]
    intro s' hinput' hposition'
    obtain ⟨final, hfinal, hbeside, hmisses⟩ :=
      Parser.meaningBy_beside ⟨hinput.trans hinput'.symm, hposition'.symm⟩ hdone
    exact ⟨final, hfinal, hbeside.input_eq.symm.trans hafter, hbeside.position_eq.symm, by omega⟩

end Entry.Unfolds

/-- The innermost memoized parser that runs: what had been remembered when it began, the
count of the run by names at that time, and how many memoized parsers run. -/
structure Visit where
  before : Key × Nat → Prop
  base : Nat
  depth : Nat

/-- The visit that begins with a miss. -/
def Visit.enter (v : Visit) (s s' : State) : Visit where
  before place := s.cursor.cache[place]? ≠ none
  base := s'.cursor.misses + 1
  depth := v.depth + 1

/-- The states of a run that remembers and of the run by names that goes along with it.
What was remembered during the visit has taken less than the visit so far. -/
structure State.Tallied (v : Visit) (w : Correspondence) (s s' : State) : Prop where
  beside : s.Beside s'
  input_eq : s.cursor.input = w.input
  memoize_eq : s.cursor.memoize = true
  taken_eq : s.nextGeneration = w.taken
  base_le : v.base ≤ s'.cursor.misses
  misses_eq : s.cursor.misses = s.cursor.cache.size + v.depth
  unfolds : ∀ (key : Key) (start : Nat) (entry : Entry),
    s.cursor.cache[(key, start)]? = some entry → ∃ cost, entry.Unfolds w key start cost ∧
      (¬ v.before (key, start) → v.base + cost < s'.cursor.misses)

namespace State.Tallied

variable {v : Visit} {w w' : Correspondence} {s s' : State}

theorem startAt (names : Names) (input : Array Char) (start : Nat) :
    (State.startAt input true start).Tallied ⟨fun _ => False, 0, 0⟩ (.initial input names)
      (State.startAt input true start) :=
  ⟨⟨rfl, rfl⟩, rfl, rfl, rfl, Nat.le_refl _, rfl, fun _ _ _ hentry =>
    absurd hentry (by simp [State.startAt])⟩

theorem movedTo (h : s.Tallied v w s') (q : Nat) : (s.movedTo q).Tallied v w (s'.movedTo q) :=
  ⟨h.beside.movedTo q, h.input_eq, h.memoize_eq, h.taken_eq, h.base_le, h.misses_eq, h.unfolds⟩

theorem tick (h : s.Tallied v w s') (counter : Nat) :
    (s.tick counter).Tallied v w (s'.tick counter) :=
  ⟨⟨h.beside.1, h.beside.2⟩, h.input_eq, h.memoize_eq, h.taken_eq, h.base_le, h.misses_eq,
    h.unfolds⟩

/-- A new generation only concerns the run that remembers. -/
theorem renew (h : s.Tallied v w s') (level : Nat) (names : Names) :
    s.renew.2.Tallied v (w.extend level names w.limit (Nat.le_refl _)) s' := by
  refine ⟨⟨h.beside.1, h.beside.2⟩, h.input_eq, h.memoize_eq, congrArg (· + 1) h.taken_eq,
    h.base_le, h.misses_eq, fun key start entry hentry => ?_⟩
  obtain ⟨cost, hunfolds, hless⟩ := h.unfolds key start entry hentry
  exact ⟨cost, hunfolds.later w.le_extend, hless⟩

theorem missed (h : s.Tallied v w s') : s.missed.Tallied (v.enter s s') w s'.missed := by
  refine ⟨⟨h.beside.1, h.beside.2⟩, h.input_eq, h.memoize_eq, h.taken_eq, Nat.le_refl _, ?_, ?_⟩
  · have := h.misses_eq
    simp only [State.missed, Visit.enter]
    omega
  · intro key start entry hentry
    obtain ⟨cost, hunfolds, -⟩ := h.unfolds key start entry hentry
    exact ⟨cost, hunfolds, fun hnew => absurd (hentry.trans_ne (by simp)) hnew⟩

variable {names : Names} {scope scope' : Scope} {t : Ty} {label : Label} {p : Parser t}

/-- A hit is a run by names that is not run. -/
theorem hit (h : s.Tallied v w s') (hscope : Scope.Twins w names label.level scope scope')
    (hname : names label = some ⟨t, p⟩) {entry : Entry}
    (hentry : s.cursor.cache[(scope.key label, s.cursor.position)]? = some entry) :
    ∃ outcome stop final, entry = { ty := t, outcome, stop } ∧
      p.meaningBy (names.upTo label.level) s'.missed = .done (outcome, final) ∧
      State.Tallied v w
        { s with cursor := { s.cursor with
          position := stop
          hits := s.cursor.hits + 1 } } final := by
  obtain ⟨cost, hunfolds, -⟩ := h.unfolds _ _ _ hentry
  obtain ⟨outcome, stop, rfl, hruns⟩ := hunfolds.of_label hscope hname
  have hinput' : s'.cursor.input = w.input := h.beside.input_eq.symm.trans h.input_eq
  obtain ⟨final, hdone, hinput, hstop, hmisses⟩ := hruns s'.missed hinput' h.beside.position_eq.symm
  have hmore : s'.cursor.misses < final.cursor.misses := by
    simp only [State.missed] at hmisses
    omega
  refine ⟨outcome, stop, final, rfl, hdone, ⟨h.input_eq.trans hinput.symm, hstop.symm⟩, h.input_eq,
    h.memoize_eq, h.taken_eq, Nat.le_trans h.base_le (Nat.le_of_lt hmore), h.misses_eq, ?_⟩
  intro key start entry hentry
  obtain ⟨cost, hunfolds, hless⟩ := h.unfolds key start entry hentry
  exact ⟨cost, hunfolds, fun hnew => Nat.lt_trans (hless hnew) hmore⟩

/-- When a visit ends, its own place is still free: what has been remembered there would
have taken as much as the whole visit. -/
theorem free (hstart : s.Tallied v w s') (hw : w ≤ w') {after after' : State}
    (h : after.Tallied (v.enter s s') w' after')
    (hscope : Scope.Twins w names label.level scope scope') (hname : names label = some ⟨t, p⟩)
    (hnone : s.cursor.cache[(scope.key label, s.position)]? = none) {outcome : Outcome t.Elem}
    (hdone : p.meaningBy (names.upTo label.level) s'.missed = .done (outcome, after')) :
    after.cursor.cache[(scope.key label, s.position)]? = none := by
  cases hentry : after.cursor.cache[(scope.key label, s.position)]? with
  | none => rfl
  | some entry =>
    obtain ⟨cost, hunfolds, hless⟩ := h.unfolds _ _ _ hentry
    have hbelow : (v.enter s s').base + cost < after'.cursor.misses := hless fun hbefore =>
      hbefore hnone
    obtain ⟨outcome', stop, rfl, hruns⟩ := hunfolds.of_label (hscope.later hw) hname
    have hinput' : s'.cursor.input = w'.input :=
      (hstart.beside.input_eq.symm.trans hstart.input_eq).trans hw.input_eq
    obtain ⟨final, hfinal, -, -, hmisses⟩ := hruns s'.missed hinput' hstart.beside.position_eq.symm
    obtain ⟨-, rfl⟩ := Prod.mk.inj (Result.done.inj (hdone.symm.trans hfinal))
    simp only [Visit.enter, State.missed] at hbelow hmisses
    omega

/-- What is known of the entries inside a visit tells enough of them for the visit around
it: some had been there before, and the others have taken less than this visit. -/
theorem around (hstart : s.Tallied v w s') (hw : w ≤ w') {after after' : State}
    (h : after.Tallied (v.enter s s') w' after') {key : Key} {start : Nat} {entry : Entry}
    (hentry : after.cursor.cache[(key, start)]? = some entry) :
    ∃ cost, entry.Unfolds w' key start cost ∧
      (¬ v.before (key, start) → v.base + cost < after'.cursor.misses) := by
  have hbase : s'.cursor.misses + 1 ≤ after'.cursor.misses := h.base_le
  obtain ⟨cost, hunfolds, hless⟩ := h.unfolds key start entry hentry
  refine ⟨cost, hunfolds, fun hnew => ?_⟩
  cases hbefore : s.cursor.cache[(key, start)]? with
  | none =>
    have hlater := hless fun hsome => hsome hbefore
    have hbegan := hstart.base_le
    simp only [Visit.enter] at hlater
    omega
  | some entry' =>
    obtain ⟨cost', hunfolds', hless'⟩ := hstart.unfolds key start entry' hbefore
    have hcost := hunfolds.cost_eq (hunfolds'.later hw)
    have hearlier := hless' hnew
    omega

/-- The end of a visit: its outcome is remembered, and the visit around it goes on. -/
theorem leave (hstart : s.Tallied v w s') (hw : w ≤ w') {after after' : State}
    (h : after.Tallied (v.enter s s') w' after')
    (hscope : Scope.Twins w names label.level scope scope') (hname : names label = some ⟨t, p⟩)
    (hnone : s.cursor.cache[(scope.key label, s.position)]? = none) {outcome : Outcome t.Elem}
    (hdone : p.meaningBy (names.upTo label.level) s'.missed = .done (outcome, after')) :
    (after.remember (scope.key label) s.position outcome).Tallied v w' after' := by
  have hfree := hstart.free hw h hscope hname hnone hdone
  have hinput' : s'.cursor.input = w'.input :=
    (hstart.beside.input_eq.symm.trans hstart.input_eq).trans hw.input_eq
  have hbase : s'.cursor.misses + 1 ≤ after'.cursor.misses := h.base_le
  have hown : Entry.Unfolds { ty := t, outcome, stop := after'.position } w' (scope.key label)
      s'.missed.position (after'.cursor.misses - (s'.cursor.misses + 1)) := by
    refine .of_run (s := s'.missed) (hscope.later hw) hname hinput' hdone
      (h.beside.input_eq.symm.trans h.input_eq) ?_
    simp only [State.missed]
    omega
  refine ⟨⟨?_, ?_⟩, ?_, ?_, h.taken_eq, ?_, ?_, fun key start entry hentry => ?_⟩
  · simpa only [State.remember, Cursor.input_remember] using h.beside.input_eq
  · simpa only [State.remember, State.position, Cursor.position_remember] using h.beside.position_eq
  · simpa only [State.remember, Cursor.input_remember] using h.input_eq
  · simp [State.remember, Cursor.remember, h.memoize_eq]
  · exact Nat.le_trans hstart.base_le (Nat.le_of_lt hbase)
  · have hmisses := h.misses_eq
    simp only [State.remember, Cursor.size_remember h.memoize_eq hfree, Cursor.misses_remember]
    simp only [Visit.enter] at hmisses
    omega
  · simp only [State.remember] at hentry
    rw [Cursor.cache_remember h.memoize_eq] at hentry
    split at hentry
    · rename_i hplace
      obtain ⟨rfl, rfl⟩ := Prod.mk.inj hplace
      obtain rfl := Option.some.inj hentry
      have hstop : after.cursor.position = after'.position := h.beside.position_eq
      have hposition : s.position = s'.missed.position := hstart.beside.position_eq
      rw [hstop, hposition]
      refine ⟨_, hown, fun _ => ?_⟩
      have hbegan := hstart.base_le
      omega
    · exact hstart.around hw h hentry

end State.Tallied

namespace Comparison

/-- A run that remembers, beside the run by names, during a visit. Whatever fault the
first runs into excuses it; the second has none of its own. -/
def tallied (v : Visit) : Comparison Correspondence where
  states w s s' := s.Tallied v w s'
  firstExcuse _ := True
  secondExcuse _ := False
  beside h := h.beside
  movedTo h := h.movedTo
  tick h := h.tick

variable {v : Visit} {w : Correspondence} {names : Names} {scope scope' : Scope} {t : Ty}
  {label : Label} {p : Parser t}

/-- A memoized parser that is hit has been run by names before, and one that is missed
begins a visit of its own. -/
theorem tallied_remembered (hscope : Scope.Twins w names label.level scope scope')
    (hname : names label = some ⟨t, p⟩) {x : Action t.Elem}
    (hx : ∀ v, (tallied v).Actions w x (p.meaningBy (names.upTo label.level))) :
    (tallied v).Actions w (x.remembered (scope.key label)) fun s =>
      p.meaningBy (names.upTo label.level) s.missed := by
  intro w' hw s s' hs
  change (tallied v).Results w' (x.remembered (scope.key label) s)
    (p.meaningBy (names.upTo label.level) s'.missed)
  cases hentry : s.cursor.cache[(scope.key label, s.cursor.position)]? with
  | some entry =>
    obtain ⟨outcome, stop, final, rfl, hdone, hfinal⟩ := hs.hit (hscope.later hw) hname hentry
    rw [Action.remembered_of_hit hs.memoize_eq hentry, hdone]
    exact .done le_rfl outcome hfinal
  | none =>
    have hresults := hx (v.enter s s') w' hw _ _ hs.missed
    rw [Action.remembered_of_miss hs.memoize_eq hentry]
    change (tallied v).Results w' (x s.missed >>= _)
      (p.meaningBy (names.upTo label.level) s'.missed)
    generalize x s.missed = first at *
    generalize hsecond : p.meaningBy (names.upTo label.level) s'.missed = second at *
    cases hresults with
    | timeout => exact .timeout _
    | firstExcused => exact .firstExcused trivial _
    | secondExcused hcause => exact absurd hcause id
    | fault cause => exact .fault cause
    | done hw' outcome hafter =>
      exact .done hw' outcome (hs.leave hw' hafter (hscope.later hw) hname hentry hsecond)

/-- The run by names goes along with the run that remembers wherever that one ends. -/
theorem tallied_byNames : ByNames tallied where
  taken_eq hs := hs.taken_eq
  renew hs := hs.renew
  remembered hscope hname hx := tallied_remembered hscope hname hx

end Comparison

/-- A map has no more entries than there are places for its keys. -/
theorem size_le_card {K V : Type} [BEq K] [LawfulBEq K] [Hashable K] [DecidableEq K]
    (m : Std.HashMap K V) (places : Finset K) (h : ∀ k ∈ m, k ∈ places) :
    m.size ≤ places.card := by
  have hnodup : m.keys.Nodup := m.distinct_keys.imp fun hne => by simpa using hne
  rw [← m.length_keys, ← List.toFinset_card_of_nodup hnodup]
  exact Finset.card_le_card fun k hk => h k (Std.HashMap.mem_keys.1 (List.mem_toFinset.1 hk))

namespace Parser

variable {t : Ty} {p : Parser t} {input : Array Char} {start : Nat} {outcome : Outcome t.Elem}
  {final : State}

theorem WellLabelled.misses_eq_size (hp : p.WellLabelled)
    (hdone : p.meaning Scope.root (.startAt input true start) = .done (outcome, final)) :
    final.cursor.misses = final.cursor.cache.size := by
  obtain ⟨names, hp⟩ := hp
  obtain ⟨fuel, hfuel⟩ := exists_eval_eq_meaning (hdone.trans_ne (by simp))
  have hactions := tallied_byNames.actions (i := ⟨fun _ => False, 0, 0⟩) fuel p hp
    (.initial input names) (.inl fun _ => trivial)
  have hresults := hactions _ le_rfl _ _ (.startAt names input start)
  rw [hfuel, hdone] at hresults
  generalize p.meaningBy names (.startAt input true start) = second at *
  cases hresults with
  | secondExcused hcause => exact absurd hcause id
  | done _ _ hfinal => exact hfinal.misses_eq

/-- In a run that remembers, memoized parsers are executed as often as they are missed. -/
theorem CountsExecutions.count_eq_misses {counter : Nat} (h : p.CountsExecutions counter)
    (hdone : p.meaning Scope.root (.startAt input true start) = .done (outcome, final)) :
    final.ticks.count counter = final.cursor.misses := by
  obtain ⟨fuel, hfuel⟩ := exists_eval_eq_meaning (hdone.trans_ne (by simp))
  have hroot : ∀ rule ∈ Scope.root.rules, rule.body.CountsExecutions counter :=
    fun rule hrule => absurd hrule (by simp [Scope.root])
  obtain ⟨-, hcount⟩ := eval_executions fuel Scope.root p hroot h _ _ (hfuel.trans hdone) rfl
  simpa [State.startAt] using hcount

/-- Every place of the cache is in the input. -/
theorem start_le_of_done (hstart : start ≤ input.size)
    (hdone : p.meaning Scope.root (.startAt input true start) = .done (outcome, final)) {key : Key}
    {place : Nat} {entry : Entry} (hentry : final.cursor.cache[(key, place)]? = some entry) :
    place ≤ input.size := by
  have hkeeps : Action.Keeps (fun _ => True) input (p.meaning Scope.root) :=
    meaning_keeps (fun _ _ _ => trivial) (remembers_of_forall (fun _ => trivial) p)
  exact ((hkeeps _ (.startAt input true hstart) _ hdone).places key place entry hentry).2.1

/-- A grammar remembers at most once for each of its labels and each place. -/
theorem size_le_of_done {labels : Finset Label}
    (hlabels : p.Remembers fun label => label.level = 0 ∧ label ∈ labels)
    (hstart : start ≤ input.size)
    (hdone : p.meaning Scope.root (.startAt input true start) = .done (outcome, final)) :
    final.cursor.cache.size ≤ labels.card * (input.size + 1) := by
  let keys : Finset Key := labels.image fun label => ⟨0, label.index⟩
  have hkeeps : Action.Keeps (· ∈ keys) input (p.meaning Scope.root) := by
    refine meaning_keeps (fun label hlabel scope => ?_) hlabels
    rw [Scope.key_of_level hlabel.1]
    exact Finset.mem_image_of_mem _ hlabel.2
  have hkept := hkeeps _ (.startAt input true hstart) _ hdone
  have hplaces : ∀ place ∈ final.cursor.cache, place ∈ keys ×ˢ Finset.range (input.size + 1) := by
    rintro ⟨key, place⟩ hplace
    obtain ⟨hkey, hle, -⟩ := hkept.places key place _ (Std.HashMap.getElem?_eq_some_getElem hplace)
    exact Finset.mem_product.2 ⟨hkey, Finset.mem_range.2 (Nat.lt_succ_of_le hle)⟩
  calc final.cursor.cache.size
      ≤ (keys ×ˢ Finset.range (input.size + 1)).card := size_le_card _ _ hplaces
    _ = keys.card * (input.size + 1) := by rw [Finset.card_product, Finset.card_range]
    _ ≤ labels.card * (input.size + 1) := Nat.mul_le_mul_right _ Finset.card_image_le

end Parser

namespace Runner

variable {t : Ty}

theorem meaning_of_execute {runner : Runner} {p : Parser t} {input : Array Char} {limit : Nat}
    {report : Report t} (h : runner.execute limit p input = .done report) :
    p.meaning Scope.root (.startAt input runner.memoize 0) =
      .done (report.outcome, report.state) := by
  cases hdrive : drive Machine.step limit 0 (runner.begin p input) with
  | none => simp [execute, hdrive, conclude] at h
  | some ended =>
    obtain ⟨steps, m⟩ := ended
    simp only [execute, hdrive, conclude, finish_eq] at h
    cases hresult : m.result with
    | timeout => simp [hresult, Report.ofResult] at h
    | fault cause => simp [hresult, Report.ofResult] at h
    | done value =>
      rw [hresult] at h
      obtain rfl := Result.done.inj h
      exact (p.ends_iff _ (.ok value)).1 ⟨limit, steps, m, hdrive, hresult⟩

theorem exists_execute_of_ends (runner : Runner) {p : Parser t} {input : Array Char}
    {outcome : Outcome t.Elem} {final : State}
    (h : p.Ends (.startAt input runner.memoize 0) (.ok (outcome, final))) :
    ∃ limit report, runner.execute limit p input = .done report := by
  obtain ⟨limit, steps, m, hdrive, hresult⟩ := h
  refine ⟨limit, { outcome, steps, state := final }, ?_⟩
  have hbegin : drive Machine.step limit 0 (runner.begin p input) = some (steps, m) := hdrive
  simp only [execute, hbegin, conclude, finish_eq, hresult]
  rfl

/-- The packrat guarantee. When a run that remembers ends with an outcome, each miss has
left an entry of its own, so no memoized parser has run twice from the same place; all
of them are for places in the input; and a grammar that only remembers under certain
labels, none of which is rebuilt, has missed at most once for each label and place. Where
memoized parsers count their executions, there are as many of these as entries. -/
theorem misses_eq_entries (runner : Runner) (p : Parser t) (hp : p.WellLabelled)
    (input : Array Char) (limit : Nat) (report : Report t)
    (h : (runner.withMemoize true).execute limit p input = .done report) :
    report.statistics.misses = report.statistics.entries ∧
    (∀ (key : Key) (start : Nat) (entry : Entry),
      report.state.cursor.cache[(key, start)]? = some entry → start ≤ input.size) ∧
    (∀ labels : Finset Label, (p.Remembers fun label => label.level = 0 ∧ label ∈ labels) →
      report.statistics.misses ≤ labels.card * (input.size + 1)) ∧
    ∀ counter, p.CountsExecutions counter →
      report.state.ticks.count counter = report.statistics.entries := by
  have hdone := meaning_of_execute h
  have hmisses : report.statistics.misses = report.statistics.entries := hp.misses_eq_size hdone
  refine ⟨hmisses, fun key start entry hentry => ?_, fun labels hlabels => ?_, fun counter hp => ?_⟩
  · exact Parser.start_le_of_done (Nat.zero_le _) hdone hentry
  · rw [hmisses]
    exact Parser.size_le_of_done hlabels (Nat.zero_le _) hdone
  · exact (hp.count_eq_misses hdone).trans hmisses

/-- An `a` that is looked at, refused, and then read, and a count of how often it is tried. -/
def lookedAt : Parser .char :=
  .andThen (.choice (.notFollowedBy (.memo ⟨0, 0⟩ (.tick 0 (.atom (.char 'a')))))
    (.ret (t := .unit) ())) (.memo ⟨0, 0⟩ (.tick 0 (.atom (.char 'a'))))

theorem misses_eq_entries_lookedAt :
    lookedAt.WellLabelled ∧
    (lookedAt.Remembers fun label => label.level = 0 ∧ label ∈ ({⟨0, 0⟩} : Finset Label)) ∧
    lookedAt.CountsExecutions 0 ∧
    ∃ limit report, (Runner.withMemoize {} true).execute limit lookedAt #['a'] = .done report ∧
      report.statistics.misses = report.statistics.entries ∧ report.statistics.misses ≤ 1 * 2 ∧
      report.state.ticks.count 0 = report.statistics.entries := by
  have hlabelled : lookedAt.WellLabelled :=
    ⟨fun _ => some ⟨.char, .tick 0 (.atom (.char 'a'))⟩, ⟨⟨Nat.le_refl 0, rfl, trivial⟩, trivial⟩,
      fun _ => ⟨Nat.le_refl 0, rfl, trivial⟩⟩
  have hlabel : (⟨0, 0⟩ : Label).level = 0 ∧ (⟨0, 0⟩ : Label) ∈ ({⟨0, 0⟩} : Finset Label) :=
    ⟨rfl, Finset.mem_singleton_self _⟩
  have hremembers : lookedAt.Remembers fun label =>
      label.level = 0 ∧ label ∈ ({⟨0, 0⟩} : Finset Label) :=
    ⟨⟨⟨hlabel, trivial⟩, trivial⟩, fun _ => ⟨hlabel, trivial⟩⟩
  have hmemo : (Parser.memo ⟨0, 0⟩ (.tick 0 (.atom (.char 'a')))).CountsExecutions 0 :=
    .memo ⟨0, 0⟩ (.atom _)
  have hcounts : lookedAt.CountsExecutions 0 :=
    .bind (.choice (.wrap _ hmemo) (.atom _)) fun _ => hmemo
  have hplain : ∃ final, lookedAt.meaning Scope.root (.startAt #['a'] false 0) =
      .done (.success 'a', final) := ⟨_, @Parser.meaning_eq_done _ _ _ _ 8 _ rfl⟩
  obtain ⟨plain, hplain⟩ := hplain
  have hseen := hlabelled.seen_eq_plain (hplain.trans_ne (by simp)) true
  rw [hplain] at hseen
  obtain ⟨final, hends, -⟩ := Parser.exists_ends_iff.2 hseen
  obtain ⟨limit, report, hreport⟩ := exists_execute_of_ends (Runner.withMemoize {} true) hends
  obtain ⟨hentries, -, hbound, hcount⟩ :=
    misses_eq_entries {} lookedAt hlabelled #['a'] limit report hreport
  exact ⟨hlabelled, hremembers, hcounts, limit, report, hreport, hentries, hbound _ hremembers,
    hcount 0 hcounts⟩

end Runner

end ParserKit
