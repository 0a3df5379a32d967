import ParserKit.Proofs.Agreement
import ParserKit.Proofs.Consumption

/-!
Where outcomes are remembered. A run never leaves its input, so it remembers outcomes
for places inside the input only, under the keys that its memoized parsers have.
-/

namespace ParserKit

namespace Atom

/-- A reader ends inside the input, hand-written ones included. -/
theorem read_within {t : Ty} {a : Atom t} {c after : Cursor} {outcome : Outcome t.Elem}
    (hc : c.position ≤ c.input.size) (h : a.read c = .ok (some outcome, after)) :
    after.position ≤ c.input.size := by
  by_cases ha : a.Builtin
  · have hforward : False → a.Forward := False.elim
    exact (read_honest ha hforward hc h).within
  · cases a with
    | custom act =>
      simp only [read] at h
      cases hreply : act c.input c.position with
      | fault cause => simp [perform, hreply] at h
      | abandon => simp [perform, hreply] at h
      | deliver outcome target =>
        rw [hreply] at h
        obtain ⟨next, hjump, hpair⟩ := Except.exists_of_map_eq_ok h
        obtain ⟨-, rfl⟩ := Prod.mk.inj hpair
        obtain ⟨htarget, hnext⟩ := Cursor.jumpTo_eq_ok hjump
        omega
    | _ => exact absurd trivial ha

end Atom

namespace Wrapper

theorem finish_within {a b : Ty} {wrapper : Wrapper a b} {c after : Cursor} {start : Nat}
    {outcome : Outcome a.Elem} {treated : Outcome b.Elem} (hc : c.position ≤ c.input.size)
    (h : wrapper.finish start outcome c = .ok (treated, after)) :
    after.position ≤ c.input.size := by
  cases wrapper with
  | convert f =>
    obtain ⟨converted, -, hpair⟩ := Except.exists_of_map_eq_ok h
    obtain ⟨-, rfl⟩ := Prod.mk.inj hpair
    exact hc
  | attempt =>
    cases outcome with
    | success value =>
      obtain ⟨-, rfl⟩ := Prod.mk.inj (Except.ok.inj h)
      exact hc
    | failure cause =>
      obtain ⟨next, hjump, hpair⟩ := Except.exists_of_map_eq_ok h
      obtain ⟨-, rfl⟩ := Prod.mk.inj hpair
      obtain ⟨hstart, hnext⟩ := Cursor.jumpTo_eq_ok hjump
      omega
  | label message =>
    obtain ⟨-, rfl⟩ := Prod.mk.inj (Except.ok.inj h)
    exact hc
  | refuse =>
    simp only [finish, finishRefuse, bind, Except.bind] at h
    split at h
    · exact absurd h (by simp)
    · rename_i back hjump
      obtain ⟨hstart, hback⟩ := Cursor.jumpTo_eq_ok hjump
      split at h
      · split at h
        · exact absurd h (by simp)
        · obtain ⟨-, rfl⟩ := Prod.mk.inj (Except.ok.inj h)
          omega
      · obtain ⟨-, rfl⟩ := Prod.mk.inj (Except.ok.inj h)
        omega
  | spanned =>
    obtain ⟨-, rfl⟩ := Prod.mk.inj (Except.ok.inj h)
    exact hc

end Wrapper

/-- A state inside the input that remembers outcomes inside the input only, and only
under certain keys. -/
structure State.Kept (keys : Key → Prop) (input : Array Char) (s : State) : Prop where
  input_eq : s.cursor.input = input
  within : s.position ≤ input.size
  places : ∀ (key : Key) (start : Nat) (entry : Entry),
    s.cursor.cache[(key, start)]? = some entry →
      keys key ∧ start ≤ input.size ∧ entry.stop ≤ input.size

/-- An action that leads from such states to such states. -/
def Action.Keeps {α : Type} (keys : Key → Prop) (input : Array Char) (x : Action α) : Prop :=
  ∀ s : State, s.Kept keys input → (x s).Ensures fun result => result.2.Kept keys input

theorem SameMove.exists_movedTo {α : Type} {s s' after : State} {a : α}
    {x y : Except Fault (α × State)} (h : SameMove s s' x y) (hx : x = .ok (a, after)) :
    ∃ q, after = s.movedTo q := by
  cases h with
  | fault cause => exact absurd hx (by simp)
  | move a q =>
    obtain ⟨-, rfl⟩ := Prod.mk.inj (Except.ok.inj hx)
    exact ⟨q, rfl⟩

namespace State.Kept

variable {keys : Key → Prop} {input : Array Char} {s : State}

theorem startAt (input : Array Char) (memoize : Bool) {start : Nat} (h : start ≤ input.size) :
    (State.startAt input memoize start).Kept keys input :=
  ⟨rfl, h, fun _ _ _ hentry => absurd hentry (by simp [State.startAt])⟩

theorem movedTo (h : s.Kept keys input) {q : Nat} (hq : q ≤ input.size) :
    (s.movedTo q).Kept keys input :=
  ⟨h.input_eq, hq, h.places⟩

theorem jumpTo (h : s.Kept keys input) (q : Nat) :
    (Result.ofExcept (s.jumpTo q)).Ensures fun after => after.Kept keys input := by
  refine .ofExcept fun after hjump => ?_
  rw [State.jumpTo_eq] at hjump
  split at hjump
  · rename_i hq
    obtain rfl := Except.ok.inj hjump
    exact h.movedTo (h.input_eq ▸ hq)
  · exact absurd hjump (by simp)

/-- What only moves the cursor, and inside the input, keeps the state so. -/
theorem moved (h : s.Kept keys input) {after : State} (hmoved : ∃ q, after = s.movedTo q)
    (hin : after.position ≤ s.cursor.input.size) : after.Kept keys input := by
  obtain ⟨q, rfl⟩ := hmoved
  exact h.movedTo (h.input_eq ▸ hin)

theorem position_le (h : s.Kept keys input) : s.cursor.position ≤ s.cursor.input.size :=
  h.input_eq ▸ h.within

theorem read (h : s.Kept keys input) {t : Ty} {a : Atom t} {outcome : Outcome t.Elem}
    {after : State} (hread : s.read a = .ok (some outcome, after)) : after.Kept keys input := by
  have hmoved := (State.read_sameMove ⟨rfl, rfl⟩ a).exists_movedTo hread
  obtain ⟨⟨found, cursor⟩, hcursor, hpair⟩ := Except.exists_of_map_eq_ok hread
  obtain ⟨rfl, rfl⟩ := Prod.mk.inj hpair
  exact h.moved hmoved (Atom.read_within h.position_le hcursor)

theorem finish (h : s.Kept keys input) {a b : Ty} {wrapper : Wrapper a b} {start : Nat}
    {outcome : Outcome a.Elem} {treated : Outcome b.Elem} {after : State}
    (hfinish : s.finish wrapper start outcome = .ok (treated, after)) : after.Kept keys input := by
  have hmoved := (State.finish_sameMove ⟨rfl, rfl⟩ wrapper start outcome).exists_movedTo hfinish
  obtain ⟨⟨found, cursor⟩, hcursor, hpair⟩ := Except.exists_of_map_eq_ok hfinish
  obtain ⟨rfl, rfl⟩ := Prod.mk.inj hpair
  exact h.moved hmoved (Wrapper.finish_within h.position_le hcursor)

theorem remember (h : s.Kept keys input) {t : Ty} {key : Key} (hkey : keys key) {start : Nat}
    (hstart : start ≤ input.size) (outcome : Outcome t.Elem) :
    (s.remember key start outcome).Kept keys input := by
  refine ⟨by simpa [State.remember] using h.input_eq,
    by simpa [State.remember, position] using h.within, fun key' start' entry hentry => ?_⟩
  simp only [State.remember] at hentry
  by_cases hm : s.cursor.memoize = true
  · rw [Cursor.cache_remember hm] at hentry
    split at hentry
    · rename_i hplace
      obtain ⟨rfl, rfl⟩ := Prod.mk.inj hplace
      obtain rfl := Option.some.inj hentry
      exact ⟨hkey, hstart, h.within⟩
    · exact h.places key' start' entry hentry
  · simp only [Cursor.remember, hm] at hentry
    exact h.places key' start' entry hentry

end State.Kept

namespace Action.Keeps

open Result

variable {keys : Key → Prop} {input : Array Char} {α β : Type}

theorem atom {t : Ty} (a : Atom t) : Keeps keys input (Action.atom a) := by
  intro s hs
  have hread : (Result.ofExcept (s.read a)).Ensures fun found => s.read a = .ok found :=
    .ofExcept fun _ h => h
  refine hread.bind ?_
  rintro ⟨found, after⟩ hread
  cases found with
  | none => exact fun _ h => absurd h (by simp)
  | some outcome => exact .done (hs.read hread)

theorem wrapped {a b : Ty} (wrapper : Wrapper a b) {x : Action a.Elem} (h : Keeps keys input x) :
    Keeps keys input (x.wrapped wrapper) := by
  intro s hs
  refine (h s hs).bind ?_
  rintro ⟨outcome, after⟩ hafter
  exact .ofExcept fun _ hfinish => hafter.finish hfinish

theorem chain {x : Action α} {f : α → Action β} (h : Keeps keys input x)
    (hf : ∀ value, Keeps keys input (f value)) : Keeps keys input (x.chain f) := by
  intro s hs
  refine (h s hs).bind ?_
  rintro ⟨outcome, middle⟩ hmiddle
  cases outcome with
  | failure cause => exact .done hmiddle
  | success value => exact (hf value middle hmiddle).bind fun _ hafter => .done hafter

theorem sequence {n : Nat} {x : Fin n → Action (Option α)} (h : ∀ i, Keeps keys input (x i))
    (start : Nat) (items : List (Fin n)) (values : List α) :
    Keeps keys input (Action.sequence x start items values) := by
  induction items generalizing values with
  | nil => exact fun s hs => .done hs
  | cons i rest ih =>
    intro s hs
    refine (h i s hs).bind ?_
    rintro ⟨outcome, after⟩ hafter
    cases outcome with
    | success value => exact ih (collect values value) after hafter
    | failure cause => exact .done hafter

theorem choice {x y : Action α} (hx : Keeps keys input x) (hy : Keeps keys input y) :
    Keeps keys input (x.choice y) := by
  intro s hs
  refine (hx s hs).bind ?_
  rintro ⟨outcome, after⟩ hafter
  cases outcome with
  | success value => exact .done hafter
  | failure cause =>
    by_cases hc : cause.consumed = true
    · simp only [hc, if_true]
      exact .done hafter
    · simp only [hc]
      exact (hafter.jumpTo s.position).bind fun back hback =>
        (hy back hback).bind fun _ hfinal => .done hfinal

theorem remembered {t : Ty} {key : Key} (hkey : keys key) {x : Action t.Elem}
    (h : Keeps keys input x) : Keeps keys input (x.remembered key) := by
  intro s hs
  by_cases hm : s.cursor.memoize = true
  · rcases remembered_cases hm key x with ⟨outcome, stop, hentry, hhit⟩ | hmiss
    · rw [hhit]
      exact .done ⟨hs.input_eq, (hs.places _ _ _ hentry).2.2, hs.places⟩
    · rw [hmiss]
      refine Ensures.bind (h _ ⟨hs.input_eq, hs.within, hs.places⟩) ?_
      rintro ⟨outcome, after⟩ hafter
      exact .done (hafter.remember hkey hs.within outcome)
  · simp only [Action.remembered, hm]
    exact h s hs

theorem next {s after : State} {before : Nat} {values : List α} {outcome : Outcome α}
    {turn : Turn α} (hs : s.Kept keys input)
    (h : Turn.next before values outcome s = .ok (turn, after)) : after.Kept keys input := by
  cases outcome with
  | success value =>
    obtain ⟨-, rfl⟩ := Prod.mk.inj (Except.ok.inj h)
    exact hs
  | failure cause =>
    simp only [Turn.next] at h
    split at h
    · obtain ⟨-, rfl⟩ := Prod.mk.inj (Except.ok.inj h)
      exact hs
    · obtain ⟨back, hjump, hpair⟩ := Except.exists_of_map_eq_ok h
      obtain ⟨-, rfl⟩ := Prod.mk.inj hpair
      exact hs.jumpTo before back (by rw [hjump]; rfl)

theorem repeatFrom {x : Action α} (h : Keeps keys input x) (fuel : Nat) (values : List α) :
    Keeps keys input (x.repeatFrom fuel values) := by
  induction fuel generalizing values with
  | zero => exact fun s _ _ h => absurd h (by simp [Action.repeatFrom])
  | succ fuel ih =>
    intro s hs
    refine (h s hs).bind ?_
    rintro ⟨outcome, after⟩ hafter
    have hturn : (Result.ofExcept (Turn.next s.position values outcome after)).Ensures
        fun result => result.2.Kept keys input := .ofExcept fun _ hnext => next hafter hnext
    refine hturn.bind ?_
    rintro ⟨turn, final⟩ hfinal
    cases turn with
    | again values => exact ih values final hfinal
    | stop outcome => exact .done hfinal

theorem repeatFrom1 {x : Action α} (h : Keeps keys input x) {again : List α → Action (List α)}
    (hagain : ∀ values, Keeps keys input (again values)) :
    Keeps keys input (x.repeatFrom1 again) := by
  intro s hs
  refine (h s hs).bind ?_
  rintro ⟨outcome, after⟩ hafter
  simp only
  cases Turn.first s.position outcome after with
  | again values => exact hagain values after hafter
  | stop outcome => exact .done hafter

end Action.Keeps

namespace Parser

variable {t : Ty}

/-- What holds of the label of every memoized parser that can come to run in a parser,
those in the parsers that its functions make included. -/
def Remembers (P : Label → Prop) : {t : Ty} → Parser t → Prop
  | _, .atom _ => True
  | _, .wrap _ p => p.Remembers P
  | _, .bind p _ next => p.Remembers P ∧ ∀ value, (next value).Remembers P
  | _, .sequence items => ∀ i, (items i).Remembers P
  | _, .choice first second => first.Remembers P ∧ second.Remembers P
  | _, .memo label p => P label ∧ p.Remembers P
  | _, .many p => p.Remembers P
  | _, .many1 p => p.Remembers P
  | _, .recursive _ body => body.Remembers P
  | _, .rule _ => True
  | _, .fresh _ _ body => (body ()).Remembers P
  | _, .tick _ p => p.Remembers P

theorem remembers_of_forall {P : Label → Prop} (hP : ∀ label, P label) (p : Parser t) :
    p.Remembers P := by
  induction p with
  | atom a => trivial
  | wrap wrapper p ih => exact ih
  | bind p captures next ihp ihnext => exact ⟨ihp, ihnext⟩
  | sequence items ih => exact ih
  | choice first second ihfirst ihsecond => exact ⟨ihfirst, ihsecond⟩
  | memo label p ih => exact ⟨hP label, ih⟩
  | many p ih => exact ih
  | many1 p ih => exact ih
  | recursive name body ih => exact ih
  | rule name => trivial
  | fresh level captures body ih => exact ih ()
  | tick counter p ih => exact ih

end Parser

/-- The rules in scope are made of such memoized parsers. -/
def Scope.Remembers (P : Label → Prop) (scope : Scope) : Prop :=
  ∀ rule ∈ scope.rules, rule.body.Remembers P

theorem Scope.Remembers.resolve {P : Label → Prop} {scope inner : Scope} (h : scope.Remembers P)
    {name : Label} {t : Ty} {body : Parser t} (hfound : scope.resolve name t = some (body, inner)) :
    body.Remembers P ∧ inner.Remembers P :=
  Scope.forall_of_resolve h hfound

/-- A run stays inside its input and remembers under the keys of its memoized parsers. -/
theorem Parser.eval_keeps {keys : Key → Prop} {input : Array Char} {P : Label → Prop}
    (hP : ∀ label, P label → ∀ scope : Scope, keys (scope.key label)) (fuel : Nat) (scope : Scope)
    {t : Ty} (p : Parser t) (hscope : scope.Remembers P) (hp : p.Remembers P) :
    Action.Keeps keys input (p.eval fuel scope) := by
  induction fuel generalizing t scope with
  | zero => exact fun s _ _ h => absurd h (by simp [eval])
  | succ fuel ih =>
    cases p with
    | atom a => exact .atom a
    | wrap wrapper p => exact (ih scope p hscope hp).wrapped wrapper
    | bind p captures next =>
      exact (ih (scope.holding captures) p hscope hp.1).chain fun value =>
        ih scope (next value) hscope (hp.2 value)
    | sequence items =>
      intro s hs
      have hitems := fun i => ih (scope.holding (ownedItems items)) (items i) hscope (hp i)
      exact Action.Keeps.sequence hitems s.position _ [] s hs
    | choice first second =>
      exact (ih (scope.holding second.owned) first hscope hp.1).choice (ih scope second hscope hp.2)
    | memo label p => exact (ih scope p hscope hp.2).remembered (hP label hp.1 scope)
    | many p => exact (ih (scope.holding p.owned) p hscope hp).repeatFrom fuel []
    | many1 p =>
      have hoccurrence := ih (scope.holding p.owned) p hscope hp
      exact hoccurrence.repeatFrom1 fun values => hoccurrence.repeatFrom fuel values
    | recursive name body =>
      exact ih (scope.define name body) body (List.forall_mem_cons.2 ⟨hp, hscope⟩) hp
    | rule name =>
      simp only [eval]
      cases hfound : scope.resolve name t with
      | none => exact fun s _ _ h => absurd h (by simp)
      | some found =>
        obtain ⟨hbody, hinner⟩ := hscope.resolve hfound
        exact ih found.2 found.1 hinner hbody
    | fresh level captures body =>
      intro s hs
      exact ih (scope.renew level s.renew.1) (body ()) hscope hp s.renew.2
        ⟨hs.input_eq, hs.within, hs.places⟩
    | tick counter p =>
      intro s hs
      exact ih scope p hscope hp (s.tick counter) ⟨hs.input_eq, hs.within, hs.places⟩

theorem Parser.meaning_keeps {keys : Key → Prop} {input : Array Char} {P : Label → Prop}
    (hP : ∀ label, P label → ∀ scope : Scope, keys (scope.key label)) {t : Ty} {p : Parser t}
    (hp : p.Remembers P) : Action.Keeps keys input (p.meaning Scope.root) := by
  intro s hs result hresult
  obtain ⟨fuel, hfuel⟩ := exists_eval_eq_meaning (hresult.trans_ne (by simp))
  have hroot : Scope.root.Remembers P := fun rule hrule => absurd hrule (by simp [Scope.root])
  exact eval_keeps hP fuel Scope.root p hroot hp s hs result (hfuel.trans hresult)

end ParserKit
