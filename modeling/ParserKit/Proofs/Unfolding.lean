import ParserKit.Proofs.Labelling

/-!
Runs in which labels stand for what the names say. A rule is whatever its name says, so
none is ever dropped; nothing is remembered, and a memoized parser counts a miss each
time it is come to. Such a run looks at nothing but the input and the position. The
number of misses it takes from a place measures how far the run unfolds there.
-/

namespace ParserKit

namespace Names

/-- The parser of a type that a label names. -/
def find (names : Names) (label : Label) (t : Ty) : Option (Parser t) :=
  match names label with
  | some ⟨t', p⟩ => if h : t' = t then some (h ▸ p) else none
  | none => none

theorem find_eq {names : Names} {label : Label} {t : Ty} {p : Parser t}
    (h : names label = some ⟨t, p⟩) : names.find label t = some p := by
  simp [find, h]

theorem find_eq_none {names : Names} {label : Label} {t u : Ty} {p : Parser u}
    (h : names label = some ⟨u, p⟩) (hne : u ≠ t) : names.find label t = none := by
  simp [find, h, hne]

/-- Names for the labels of a part that is rebuilt, as good as there are. -/
noncomputable def renewed (names : Names) (inner : Nat) {t : Ty} (body : Parser t) : Names :=
  Classical.epsilon fun names' =>
    body.Labelled names' inner ∧ ∀ label : Label, label.level < inner → names label = names' label

theorem renewed_spec {names : Names} {inner : Nat} {t : Ty} {body : Parser t}
    (h : ∃ names', body.Labelled names' inner ∧
      ∀ label : Label, label.level < inner → names label = names' label) :
    body.Labelled (names.renewed inner body) inner ∧
      ∀ label : Label, label.level < inner → names label = names.renewed inner body label :=
  Classical.epsilon_spec h

end Names

/-- The direct evaluation with names for the labels of the parser. -/
noncomputable def Parser.evalBy : (fuel : Nat) → {t : Ty} → Names → Parser t → Action t.Elem
  | 0, _, _, _ => fun _ => .timeout
  | fuel + 1, t, names, p =>
    match p with
    | .atom a => Action.atom a
    | .wrap wrapper p => (evalBy fuel names p).wrapped wrapper
    | .bind p _ next => (evalBy fuel names p).chain fun value => evalBy fuel names (next value)
    | .sequence items => fun s =>
      Action.sequence (fun i => evalBy fuel names (items i)) s.position (List.finRange _) [] s
    | .choice first second => (evalBy fuel names first).choice (evalBy fuel names second)
    | .memo label p => fun s => evalBy fuel (names.upTo label.level) p s.missed
    | .many p => (evalBy fuel names p).repeatFrom fuel []
    | .many1 p => (evalBy fuel names p).repeatFrom1 ((evalBy fuel names p).repeatFrom fuel)
    | .recursive _ body => evalBy fuel names body
    | .rule name =>
      match names.find name t with
      | some body => evalBy fuel names body
      | none => fun _ => .fault .ruleDropped
    | .fresh inner _ body => evalBy fuel (names.renewed inner (body ())) (body ())
    | .tick counter p => fun s => evalBy fuel names p (s.tick counter)

open Comparison Result

namespace Parser

variable {a b t : Ty} (names : Names)

/-- More fuel and the place apart, only what a comparison cannot see makes a difference. -/
theorem evalBy_actions {ω : Type} [Preorder ω] {c : Comparison ω}
    (hmissed : ∀ w s s', c.states w s s' → c.states w s.missed s'.missed) {fuel fuel' : Nat}
    (hfuel : fuel ≤ fuel') (p : Parser t) (w : ω) :
    c.Actions w (p.evalBy fuel names) (p.evalBy fuel' names) := by
  induction fuel generalizing t names fuel' with
  | zero => exact fun _ _ _ _ _ => .timeout _
  | succ fuel ih =>
    obtain ⟨more, rfl⟩ : ∃ more, fuel' = more + 1 := ⟨fuel' - 1, by omega⟩
    have hmore : fuel ≤ more := by omega
    cases p with
    | atom a => exact .atom a
    | wrap wrapper p => exact (ih names hmore p).wrapped wrapper
    | bind p captures next =>
      exact (ih names hmore p).chain fun value => ih names hmore (next value)
    | sequence items =>
      intro w' hw s s' hs
      have hitems := Actions.sequence (fun i => ih names hmore (items i)) s.position
        (List.finRange _) []
      have hresults := hitems w' hw s s' hs
      simp only [evalBy, ← (c.beside hs).position_eq]
      exact hresults
    | choice first second => exact (ih names hmore first).choice (ih names hmore second)
    | memo label p =>
      intro w' hw s s' hs
      exact ih (names.upTo label.level) hmore p w' hw _ _ (hmissed w' s s' hs)
    | many p => exact (ih names hmore p).repeatFrom hmore []
    | many1 p =>
      have hp := ih names hmore p
      exact hp.repeatFrom1 fun values => hp.repeatFrom hmore values
    | recursive name body => exact ih names hmore body
    | rule name =>
      simp only [evalBy]
      cases names.find name t with
      | none => exact fun _ _ _ _ _ => .fault _
      | some body => exact ih names hmore body
    | fresh inner captures body => exact ih (names.renewed inner (body ())) hmore (body ())
    | tick counter p => exact (ih names hmore p).tick counter

theorem evalBy_fueled {fuel fuel' : Nat} (hfuel : fuel ≤ fuel') (p : Parser t) :
    fueled.Actions () (p.evalBy fuel names) (p.evalBy fuel' names) :=
  evalBy_actions names (fun _ _ _ h => congrArg State.missed h) hfuel p ()

theorem evalBy_rising (p : Parser t) (s : State) : Rising fun fuel => p.evalBy fuel names s :=
  fun _ _ hfuel hends => fueled_results_eq (evalBy_fueled names hfuel p () le_rfl s s rfl) hends

/-- What a parser does by names when it has all the fuel it needs. -/
noncomputable def meaningBy (p : Parser t) : Action t.Elem := fun s =>
  limit fun fuel => p.evalBy fuel names s

theorem evalBy_settles (p : Parser t) :
    Action.Settles (fun fuel => p.evalBy fuel names) (p.meaningBy names) :=
  fun s => limit_settles (evalBy_rising names p s)

theorem exists_evalBy_eq_meaningBy (p : Parser t) (s : State) :
    ∃ fuel, p.evalBy fuel names s = p.meaningBy names s :=
  (evalBy_settles names p s).imp fun fuel h => h fuel (Nat.le_refl fuel)

variable {names} in
theorem meaningBy_eq_evalBy {p : Parser t} {s : State} {fuel : Nat}
    (h : p.evalBy fuel names s ≠ .timeout) : p.meaningBy names s = p.evalBy fuel names s :=
  eq_limit (evalBy_rising names p s) h

theorem evalBy_fueled_meaningBy (fuel : Nat) (p : Parser t) :
    fueled.Actions () (p.evalBy fuel names) (p.meaningBy names) :=
  fueled_actions_of fun _ h => meaningBy_eq_evalBy h

/-- The meaning by names is what all evaluations with one more unit of fuel settle on. -/
theorem meaningBy_eq {p : Parser t} {x : Action t.Elem}
    (h : Action.Settles (fun fuel => p.evalBy (fuel + 1) names) x) : p.meaningBy names = x :=
  funext fun s => (evalBy_settles names p s).succ.unique (h s)

theorem meaningBy_atom (x : Atom t) : (Parser.atom x).meaningBy names = Action.atom x :=
  meaningBy_eq names fun _ => .const _

theorem meaningBy_wrap (wrapper : Wrapper a b) (p : Parser a) :
    (Parser.wrap wrapper p).meaningBy names = (p.meaningBy names).wrapped wrapper :=
  meaningBy_eq names (.wrapped wrapper (evalBy_settles names p))

theorem meaningBy_bind (p : Parser a) (captures : List Label) (next : a.Elem → Parser b) :
    (Parser.bind p captures next).meaningBy names =
      (p.meaningBy names).chain fun value => (next value).meaningBy names :=
  meaningBy_eq names (.chain (evalBy_settles names p) fun value =>
    evalBy_settles names (next value))

theorem meaningBy_sequence {n : Nat} (items : Fin n → Parser (.option t)) (s : State) :
    (Parser.sequence items).meaningBy names s =
      Action.sequence (fun i => (items i).meaningBy names) s.position (List.finRange n) [] s :=
  (evalBy_settles names (.sequence items) s).succ.unique
    (Action.Settles.sequence (fun i => evalBy_settles names (items i)) s.position (List.finRange n)
      [] s)

theorem meaningBy_choice (first second : Parser t) :
    (Parser.choice first second).meaningBy names =
      (first.meaningBy names).choice (second.meaningBy names) :=
  meaningBy_eq names (.choice (evalBy_settles names first) (evalBy_settles names second))

theorem meaningBy_memo (label : Label) (p : Parser t) :
    (Parser.memo label p).meaningBy names = fun s =>
      p.meaningBy (names.upTo label.level) s.missed :=
  meaningBy_eq names fun s => evalBy_settles (names.upTo label.level) p s.missed

theorem meaningBy_many (p : Parser t) :
    (Parser.many p).meaningBy names = (p.meaningBy names).repeated [] :=
  meaningBy_eq names (.repeated (evalBy_settles names p)
    (fun fuel => evalBy_fueled_meaningBy names fuel p) [])

theorem meaningBy_many1 (p : Parser t) :
    (Parser.many1 p).meaningBy names =
      (p.meaningBy names).repeatFrom1 (p.meaningBy names).repeated :=
  meaningBy_eq names (.repeatFrom1 (evalBy_settles names p)
    (.repeated (evalBy_settles names p) fun fuel => evalBy_fueled_meaningBy names fuel p))

theorem meaningBy_recursive (name : Label) (body : Parser t) :
    (Parser.recursive name body).meaningBy names = body.meaningBy names :=
  meaningBy_eq names (evalBy_settles names body)

theorem meaningBy_rule {name : Label} {body : Parser t} (h : names name = some ⟨t, body⟩) :
    (Parser.rule name : Parser t).meaningBy names = body.meaningBy names := by
  refine meaningBy_eq names ?_
  simp only [evalBy, Names.find_eq h]
  exact evalBy_settles names body

/-- A name of another type does not stand for the rule. -/
theorem meaningBy_rule_of_ne {name : Label} {u : Ty} {body : Parser u}
    (h : names name = some ⟨u, body⟩) (hne : u ≠ t) :
    (Parser.rule name : Parser t).meaningBy names = fun _ => .fault .ruleDropped := by
  refine meaningBy_eq names ?_
  simp only [evalBy, Names.find_eq_none h hne]
  exact fun s => .const _

theorem meaningBy_fresh (inner : Nat) (captures : List Label) (body : Unit → Parser t) :
    (Parser.fresh inner captures body).meaningBy names =
      (body ()).meaningBy (names.renewed inner (body ())) :=
  meaningBy_eq names (evalBy_settles _ (body ()))

theorem meaningBy_tick (counter : Nat) (p : Parser t) :
    (Parser.tick counter p).meaningBy names = fun s => p.meaningBy names (s.tick counter) :=
  meaningBy_eq names fun s => evalBy_settles names p (s.tick counter)

end Parser

/-- Two runs from the same place, the counts of which differ as much as at the beginning. -/
def Comparison.displaced (misses misses' : Nat) : Comparison Unit where
  states _ s s' := s.Beside s' ∧ s.cursor.misses + misses' = s'.cursor.misses + misses
  firstExcuse _ := False
  secondExcuse _ := False
  beside h := h.1
  movedTo h q := ⟨h.1.movedTo q, h.2⟩
  tick h _ := ⟨⟨h.1.1, h.1.2⟩, h.2⟩

/-- From the same place, the same happens and as many misses are counted. -/
theorem Parser.meaningBy_beside {t : Ty} {names : Names} {p : Parser t} {s s' : State}
    (hs : s.Beside s') {outcome : Outcome t.Elem} {final : State}
    (h : p.meaningBy names s = .done (outcome, final)) :
    ∃ final', p.meaningBy names s' = .done (outcome, final') ∧ final.Beside final' ∧
      final.cursor.misses + s'.cursor.misses = final'.cursor.misses + s.cursor.misses := by
  obtain ⟨fuel, hfuel⟩ := evalBy_settles names p s
  obtain ⟨fuel', hfuel'⟩ := evalBy_settles names p s'
  have hactions := evalBy_actions (c := .displaced s.cursor.misses s'.cursor.misses) names
    (fun _ s s' h => ⟨⟨h.1.1, h.1.2⟩, by have := h.2; simp only [State.missed]; omega⟩)
    (Nat.le_refl (max fuel fuel')) p ()
  have hresults := hactions () le_rfl s s' ⟨hs, Nat.add_comm _ _⟩
  have hfirst : p.evalBy (max fuel fuel') names s = .done (outcome, final) :=
    (hfuel _ (by omega)).trans h
  have hsecond : p.evalBy (max fuel fuel') names s' = p.meaningBy names s' := hfuel' _ (by omega)
  rw [hfirst, hsecond] at hresults
  generalize p.meaningBy names s' = second at *
  cases hresults with
  | secondExcused hcause => exact absurd hcause id
  | done _ _ hfinal => exact ⟨_, rfl, hfinal.1, hfinal.2⟩

end ParserKit
