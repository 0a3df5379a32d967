import ParserKit.Proofs.Identity
import ParserKit.Proofs.Peg
import ParserKit.Proofs.Reading
import ParserKit.Proofs.Transparency
import ParserKit.Proofs.Values

/-!
The parser of a parsing expression does what the expression says. Whether a failure
counts as consuming and where it ends is told by the flag and the position; since
every alternative but the last and every body of a repetition is attempted, neither
is ever looked at, and only success, failure and the end of a success remain.
-/

namespace ParserKit

theorem Result.ne_timeout_of_bind {α β : Type} {x : Result α} {f : α → Result β}
    (h : (x >>= f) ≠ .timeout) : x ≠ .timeout := by
  rintro rfl
  exact h rfl

namespace Peg

/-- A run that remembers nothing stands at a position of the input. -/
structure Stands (input : Array Char) (i : Nat) (s : State) : Prop where
  input_eq : s.cursor.input = input
  position_eq : s.position = i
  within : i ≤ input.size
  memoize_eq : s.cursor.memoize = false

theorem Stands.movedTo {input : Array Char} {i j : Nat} {s : State} (h : Stands input i s)
    (hj : j ≤ input.size) : Stands input j (s.movedTo j) :=
  ⟨h.input_eq, rfl, hj, h.memoize_eq⟩

theorem Stands.position_within {input : Array Char} {i : Nat} {s : State} (h : Stands input i s) :
    s.position ≤ s.cursor.input.size := by
  rw [h.input_eq, h.position_eq]
  exact h.within

/-- An action does what an expression says: it ends at the given position with a success,
or anywhere with a failure. -/
def Answers {α : Type} (x : Action α) (s : State) : Option Nat → Prop
  | some stop => ∃ value, x s = .done (.success value, s.movedTo stop)
  | none => ∃ cause stop, x s = .done (.failure cause, s.movedTo stop)

theorem wrapped_of_done {a b : Ty} {wrapper : Wrapper a b} {x : Action a.Elem}
    {s middle after : State} {outcome : Outcome a.Elem} {treated : Outcome b.Elem}
    (hx : x s = .done (outcome, middle))
    (hfinish : middle.finish wrapper s.position outcome = .ok (treated, after)) :
    x.wrapped wrapper s = .done (treated, after) := by
  simp only [Action.wrapped, hx, Result.done_bind, hfinish, Result.ofExcept_ok]

namespace Answers

variable {α β : Type} {x : Action α} {y : Action β} {s : State} {j : Nat} {r : Option Nat}

theorem congr {x' : Action α} (h : Answers x s r) (hx : x' s = x s) : Answers x' s r := by
  cases r with
  | some stop => exact h.imp fun _ h => hx.trans h
  | none => exact h.imp fun _ => Exists.imp fun _ h => hx.trans h

theorem ne_fault (h : Answers x s r) (cause : Fault) : x s ≠ .fault cause := by
  intro hfault
  cases r with
  | some stop => exact h.elim fun _ h => absurd (hfault.symm.trans h) (by simp)
  | none => exact h.elim fun _ h => h.elim fun _ h => absurd (hfault.symm.trans h) (by simp)

/-- What is seen of the action determines the answer. -/
theorem eq_of_seen {t : Ty} {x : Action t.Elem} (h : Answers x s r) {outcome : Outcome t.Elem}
    {stop : Nat} (hseen : (x s).seen = .done (outcome, stop)) :
    r = if outcome.isSuccess then some stop else none := by
  cases r with
  | some stop' =>
    obtain ⟨value, hdone⟩ := h
    rw [hdone] at hseen
    obtain ⟨rfl, rfl⟩ := Prod.mk.inj (Result.done.inj hseen)
    rfl
  | none =>
    obtain ⟨cause, stop', hdone⟩ := h
    rw [hdone] at hseen
    obtain ⟨rfl, rfl⟩ := Prod.mk.inj (Result.done.inj hseen)
    rfl

theorem chain (hx : Answers x s (some j)) (hy : Answers y (s.movedTo j) r) :
    Answers (x.chain fun _ => y) s r := by
  obtain ⟨value, hx⟩ := hx
  cases r with
  | some stop =>
    obtain ⟨value', hy⟩ := hy
    exact ⟨value', Action.chain_of_success hx hy⟩
  | none =>
    obtain ⟨cause, stop, hy⟩ := hy
    refine ⟨{ cause with consumed := cause.consumed || stop != s.position }, stop, ?_⟩
    simp only [Action.chain, hx, Result.done_bind, hy]
    rfl

theorem chain_fails {f : α → Action β} (hx : Answers x s none) : Answers (x.chain f) s none := by
  obtain ⟨cause, stop, hx⟩ := hx
  refine ⟨cause, stop, ?_⟩
  simp only [Action.chain, hx, Result.done_bind]

/-- An attempt that fails is as if it had not been made. -/
theorem attempt_fails {t : Ty} {x : Action t.Elem} (hx : Answers x s none)
    (hs : s.position ≤ s.cursor.input.size) :
    ∃ expected, x.wrapped .attempt s = .done (.fail expected, s) := by
  obtain ⟨cause, stop, hx⟩ := hx
  have hback : (s.movedTo stop).cursor.jumpTo s.position = .ok s.cursor := if_pos hs
  refine ⟨cause.expected, wrapped_of_done hx ?_⟩
  simp only [State.finish, Wrapper.finish, Wrapper.finishAttempt, hback]
  rfl

theorem attempt {t : Ty} {x : Action t.Elem} (hx : Answers x s (some j)) :
    Answers (x.wrapped .attempt) s (some j) :=
  hx.imp fun _ hx => wrapped_of_done hx rfl

theorem choice_first {y : Action α} (hx : Answers x s (some j)) :
    Answers (x.choice y) s (some j) := by
  obtain ⟨value, hx⟩ := hx
  exact ⟨value, by simp only [Action.choice, hx, Result.done_bind]⟩

theorem choice_second {y : Action α} {expected : Expectation} (hx : x s = .done (.fail expected, s))
    (hs : s.position ≤ s.cursor.input.size) (hy : Answers y s r) : Answers (x.choice y) s r := by
  have hback := State.jumpTo_self hs
  cases r with
  | some stop =>
    obtain ⟨value, hy⟩ := hy
    exact ⟨value, Action.choice_of_failure hx hback hy⟩
  | none =>
    obtain ⟨cause, stop, hy⟩ := hy
    refine ⟨{ cause with expected := expected.merge cause.expected }, stop, ?_⟩
    simp only [Action.choice, hx, Outcome.fail, Result.done_bind, hback, Result.ofExcept_ok, hy]
    rfl

theorem refuse {t : Ty} {x : Action t.Elem} (hx : Answers x s (some j)) (hj : s.position ≤ j)
    (hin : j ≤ s.cursor.input.size) (hsize : s.cursor.input.size < Index.limit) :
    Answers (x.wrapped .refuse) s none := by
  obtain ⟨value, hx⟩ := hx
  have hback : (s.movedTo j).cursor.jumpTo s.position = .ok s.cursor := if_pos (Nat.le_trans hj hin)
  have hdistance : (s.movedTo j).cursor.position = j := rfl
  have hwhole : s.cursor.position + (j - s.position) ≤ s.cursor.input.size := by
    simp only [State.position] at *
    omega
  obtain ⟨read, hread⟩ := s.cursor.slice_eq (j - s.position) hwhole hsize
  refine ⟨⟨.unexpected read s.position, false⟩, s.position, wrapped_of_done hx ?_⟩
  simp only [State.finish, Wrapper.finish, Wrapper.finishRefuse, hback, hdistance, bind,
    Except.bind, hread]
  rfl

theorem refuse_fails {t : Ty} {x : Action t.Elem} (hx : Answers x s none)
    (hs : s.position ≤ s.cursor.input.size) : Answers (x.wrapped .refuse) s (some s.position) := by
  obtain ⟨cause, stop, hx⟩ := hx
  have hback : (s.movedTo stop).cursor.jumpTo s.position = .ok s.cursor := if_pos hs
  refine ⟨(), wrapped_of_done hx ?_⟩
  simp only [State.finish, Wrapper.finish, Wrapper.finishRefuse, hback]
  rfl

end Answers

section Repetition

variable {α : Type} {x : Action α} {s : State}

theorem repeatFrom_again {value : α} {j : Nat} (hx : x s = .done (.success value, s.movedTo j))
    (hj : s.position < j) (fuel : Nat) (values : List α) :
    x.repeatFrom (fuel + 1) values s = x.repeatFrom fuel (value :: values) (s.movedTo j) := by
  have hmoved : (s.movedTo j).position ≠ s.position := Nat.ne_of_gt hj
  simp only [Action.repeatFrom, hx, Result.done_bind, Turn.next, Turn.ofValue, if_neg hmoved,
    Result.ofExcept_ok]

end Repetition

/-- An action of which only success and failure are kept. -/
def erased {α : Type} (x : Action α) : Action Unit :=
  x.chain fun _ => Action.deliver ()

theorem erased_eq {α : Type} (x : Action α) : erased x = x.mapped fun _ => () := by
  funext s
  simp only [erased, Action.chain, Action.mapped]
  cases x s with
  | fault cause => rfl
  | timeout => rfl
  | done result =>
    obtain ⟨outcome, after⟩ := result
    cases outcome with
    | success value => rfl
    | failure cause => rfl

/-- Where a repetition ends does not depend on what it has collected. -/
theorem erased_repeated {α : Type} (x : Action α) (values : List α) :
    erased (x.repeated values) = erased (x.repeated []) := by
  rw [erased_eq, erased_eq, x.repeated_values values, Action.mapped_mapped]

/-- The rules in scope are the parsers of the definitions in force. -/
inductive Realizes (input : Array Char) :
    {n : Nat} → Env n → (Fin n → Label) → List Rule → Prop where
  | nil : Realizes input .nil Fin.elim0 []
  | define {n : Nat} {env : Env n} {names : Fin n → Label} {rules : List Rule}
    {body : Expr (n + 1)} {p : Parser .unit} {name : Label} (generations : List (Nat × Nat))
    (hlevel : name.level = 0) (hnew : ∀ i, names i ≠ name)
    (hbody : Renders (extend name names) body p)
    (hstars : body.StarsConsume input (env.define body)) :
    Realizes input env names rules → Realizes input (env.define body) (extend name names)
      (⟨⟨0, name.index⟩, .unit, p, generations⟩ :: rules)

section Rules

variable {input : Array Char} {n : Nat} {env : Env n} {names : Fin n → Label} {scope : Scope}
  {rules : List Rule}

theorem Realizes.level (h : Realizes input env names rules) (i : Fin n) : (names i).level = 0 := by
  induction h with
  | nil => exact i.elim0
  | define generations hlevel hnew hbody hstars _ ih =>
    cases i using Fin.cases with
    | zero => exact hlevel
    | succ i => exact ih i

theorem Realizes.key_ne {name : Label} (h : Realizes input env names rules)
    (hlevel : name.level = 0) (hnew : ∀ i, names i ≠ name) (i : Fin n) (scope : Scope) :
    scope.key (names i) ≠ ⟨0, name.index⟩ := by
  rw [Scope.key_of_level (h.level i)]
  intro hkey
  refine hnew i ?_
  have hlevel' := h.level i
  generalize names i = other at *
  obtain ⟨level, index⟩ := other
  obtain ⟨level', index'⟩ := name
  obtain rfl : level = 0 := hlevel'
  obtain rfl : level' = 0 := hlevel
  obtain ⟨-, rfl⟩ := Key.mk.inj hkey
  rfl

theorem Realizes.holding (h : Realizes input env names scope.rules) (labels : List Label) :
    Realizes input env names (scope.holding labels).rules :=
  h

theorem Realizes.extend (h : Realizes input env names scope.rules) {name : Label}
    {body : Expr (n + 1)} {p : Parser .unit} (hlevel : name.level = 0) (hnew : ∀ i, names i ≠ name)
    (hbody : Renders (extend name names) body p)
    (hstars : body.StarsConsume input (env.define body)) :
    Realizes input (env.define body) (extend name names) (scope.define name p).rules := by
  simp only [Scope.define, Scope.key_of_level hlevel]
  exact .define scope.generations hlevel hnew hbody hstars h

/-- The innermost rule is found at once. -/
theorem resolve_here {name : Label} {p : Parser .unit} {generations : List (Nat × Nat)}
    (hlevel : name.level = 0)
    (hrules : scope.rules = ⟨⟨0, name.index⟩, .unit, p, generations⟩ :: rules) :
    scope.resolve name .unit = some (p, { scope with generations }) := by
  have hfrom : scope.rulesFrom (scope.key name) = scope.rules := by
    simp [Scope.rulesFrom, Scope.key_of_level hlevel, hrules]
  simp only [Scope.resolve, hfrom, hrules, Scope.keeps]
  simp [← hrules]

/-- Any other is found further out. -/
theorem resolve_there {rule : Rule} {name : Label} (hrules : scope.rules = rule :: rules)
    (hkey : rule.key ≠ scope.key name) (t : Ty) :
    scope.resolve name t = { scope with rules }.resolve name t := by
  have hfrom : scope.rulesFrom (scope.key name) =
      { scope with rules }.rulesFrom (Scope.key { scope with rules } name) := by
    simp [Scope.rulesFrom, hrules, Scope.key] at hkey ⊢
    simp [hkey]
  simp only [Scope.resolve, hfrom]
  rfl

theorem Realizes.resolve (h : Realizes input env names scope.rules) (i : Fin n) :
    ∃ (m : Nat) (outer : Env m) (names' : Fin (m + 1) → Label) (body : Expr (m + 1))
      (p : Parser .unit) (inner : Scope),
      scope.resolve (names i) .unit = some (p, inner) ∧ Renders names' body p ∧
      Realizes input (outer.define body) names' inner.rules ∧
      body.StarsConsume input (outer.define body) ∧
      ∀ j r, Matches input (outer.define body) body j r → Matches input env (.rule i) j r := by
  generalize hrules : scope.rules = rules at h
  induction h generalizing scope with
  | nil => exact i.elim0
  | @define n env names rules body p name generations hlevel hnew hbody hstars h ih =>
    cases i using Fin.cases with
    | zero =>
      refine ⟨n, env, _, body, p, _, resolve_here hlevel hrules, hbody, ?_, hstars,
        fun _ _ => .here⟩
      simp only [hrules]
      exact .define generations hlevel hnew hbody hstars h
    | succ i =>
      obtain ⟨m, outer, names', body', p', inner, hresolve, hrest⟩ :=
        @ih { scope with rules } i rfl
      refine ⟨m, outer, names', body', p', inner, ?_, hrest.1, hrest.2.1, hrest.2.2.1, fun j r hj =>
        .there (hrest.2.2.2 j r hj)⟩
      rw [← hresolve]
      exact resolve_there hrules (h.key_ne hlevel hnew i scope).symm .unit

end Rules

section Meaning

variable {input : Array Char} {i : Nat} {s : State} {scope : Scope} {t : Ty}

theorem meaning_memo_plain (hs : Stands input i s) (label : Label) (p : Parser t) :
    (Parser.memo label p).meaning scope s = p.meaning scope s := by
  rw [Parser.meaning_memo]
  exact Action.remembered_of_plain ⟨hs.memoize_eq, Nat.zero_le _⟩ _ _

theorem meaning_attempt (hs : Stands input i s) (label : Label) (p : Parser t) :
    (Parser.memo label (.wrap .attempt p)).meaning scope s =
      (p.meaning scope).wrapped .attempt s := by
  rw [meaning_memo_plain hs, Parser.meaning_wrap]

theorem meaning_erased (p : Parser t) :
    (p.andThen (.ret (t := .unit) ())).meaning scope = erased (p.meaning (scope.holding [])) := by
  rw [Parser.andThen, Parser.meaning_bind]
  simp only [Parser.meaning_ret]
  rfl

theorem Answers.erased {α : Type} {x : Action α} {r : Option Nat} (hx : Answers x s r) :
    Answers (Peg.erased x) s r := by
  cases r with
  | none => exact hx.chain_fails
  | some stop =>
    obtain ⟨value, hx⟩ := hx
    exact ⟨(), Action.chain_of_success hx rfl⟩

theorem atom_of_read {a : Atom t} {outcome : Outcome t.Elem} {stop : Nat}
    (h : a.read s.cursor = .ok (some outcome, s.cursor.movedTo stop)) :
    Action.atom a s = .done (outcome, s.movedTo stop) := by
  simp only [Action.atom, State.read, h, Except.map, Result.ofExcept_ok, Result.done_bind]
  rfl

theorem Answers.accepted (hs : Stands input i s) (hsize : input.size < Index.limit)
    {accepts : Char → Bool} {c : Char} (hchar : input[i]? = some c) (hc : accepts c = true) :
    Answers (Action.atom (.satisfy accepts)) s (some (i + 1)) := by
  obtain ⟨rfl, rfl, -, -⟩ := hs
  refine ⟨c, atom_of_read ?_⟩
  simp only [Atom.read, Atom.readSatisfy_accepted hsize hchar hc]
  rfl

theorem Answers.rejected (hs : Stands input i s) (hsize : input.size < Index.limit)
    {accepts : Char → Bool} (hchar : ∀ c, input[i]? = some c → accepts c = false) :
    Answers (Action.atom (.satisfy accepts)) s none := by
  obtain ⟨rfl, rfl, hin, -⟩ := hs
  obtain ⟨found, hread⟩ := Atom.readSatisfy_rejected hsize hin hchar
  refine ⟨⟨.unexpected found s.position, false⟩, s.position, atom_of_read ?_⟩
  simp only [Atom.read, hread]
  rfl

theorem Answers.literal (hs : Stands input i s) (hsize : input.size < Index.limit) {chars : String}
    (hbegins : chars.toList <+: input.toList.drop i) :
    Answers (Action.atom (.string chars)) s (some (i + chars.toList.length)) := by
  obtain ⟨rfl, rfl, hin, -⟩ := hs
  rcases Atom.readString_eq chars hsize hin with ⟨-, hread⟩ | ⟨hdiffers, -⟩
  · refine ⟨chars, atom_of_read ?_⟩
    simp only [Atom.read, hread]
    rfl
  · exact absurd hbegins hdiffers

theorem Answers.differs (hs : Stands input i s) (hsize : input.size < Index.limit) {chars : String}
    (hdiffers : ¬ chars.toList <+: input.toList.drop i) :
    Answers (Action.atom (.string chars)) s none := by
  obtain ⟨rfl, rfl, hin, -⟩ := hs
  rcases Atom.readString_eq chars hsize hin with ⟨hbegins, -⟩ | ⟨-, consumed, stop, hread⟩
  · exact absurd hbegins hdiffers
  · refine ⟨⟨.positioned chars s.position, consumed⟩, stop, atom_of_read ?_⟩
    simp only [Atom.read, hread]
    rfl

/-- A token is read and its value forgotten. -/
theorem Answers.token (hs : Stands input i s) {a : Atom t} {r : Option Nat}
    (h : Answers (Action.atom a) s r) (label : Label) :
    Answers (((Parser.memo label (.atom a)).andThen (.ret (t := .unit) ())).meaning scope) s r := by
  rw [meaning_erased]
  refine .erased (h.congr ?_)
  rw [meaning_memo_plain hs, Parser.meaning_atom]

theorem Answers.again {α : Type} {x : Action α} {value : α} {j : Nat} {r : Option Nat}
    (hx : x s = .done (.success value, s.movedTo j)) (hj : s.position < j)
    (hrest : Answers (Peg.erased (x.repeated [])) (s.movedTo j) r) :
    Answers (Peg.erased (x.repeated [])) s r := by
  have hsame : Peg.erased (x.repeated []) s = Peg.erased (x.repeated []) (s.movedTo j) := by
    have hmoved : (s.movedTo j).position ≠ s.position := Nat.ne_of_gt hj
    have hagain := Action.repeated_again hx hmoved []
    calc Peg.erased (x.repeated []) s
        = Peg.erased (x.repeated [value]) (s.movedTo j) := by
          simp only [erased_eq, Action.mapped, hagain]
      _ = Peg.erased (x.repeated []) (s.movedTo j) := by rw [erased_repeated]
  cases r with
  | none => exact hrest.imp fun _ => Exists.imp fun _ h => hsame.trans h
  | some stop => exact hrest.imp fun _ h => hsame.trans h

end Meaning

/-- The parser of an expression does what the expression says, from wherever a run that
remembers nothing stands. -/
theorem Matches.answers {input : Array Char} (hsize : input.size < Index.limit) {n : Nat}
    {env : Env n} {e : Expr n} {i : Nat} {r : Option Nat} (h : Matches input env e i r)
    {names : Fin n → Label} {q : Parser .unit} {scope : Scope} {s : State} (hq : Renders names e q)
    (hstars : e.StarsConsume input env) (hscope : Realizes input env names scope.rules)
    (hs : Stands input i s) : Answers (q.meaning scope) s r := by
  induction h generalizing q scope s with
  | empty =>
    cases hq
    obtain ⟨-, rfl, -, -⟩ := hs
    rw [Parser.meaning_ret]
    exact ⟨(), rfl⟩
  | accepted hchar hc =>
    cases hq with
    | accept accepts label => exact .token hs (.accepted hs hsize hchar hc) label
  | rejected hchar =>
    cases hq with
    | accept accepts label => exact .token hs (.rejected hs hsize hchar) label
  | literal hbegins =>
    cases hq with
    | literal chars label => exact .token hs (.literal hs hsize hbegins) label
  | differs hdiffers =>
    cases hq with
    | literal chars label => exact .token hs (.differs hs hsize hdiffers) label
  | seq ha hb iha ihb =>
    cases hq with
    | seq hp hq =>
      obtain ⟨-, hj⟩ := ha.bounds rfl hs.within
      rw [Parser.andThen, Parser.meaning_bind]
      exact (iha hp hstars.1 (hscope.holding _) hs).chain (ihb hq hstars.2 hscope (hs.movedTo hj))
  | seqFails ha iha =>
    cases hq with
    | seq hp hq =>
      rw [Parser.andThen, Parser.meaning_bind]
      exact (iha hp hstars.1 (hscope.holding _) hs).chain_fails
  | first ha iha =>
    cases hq with
    | @choice _ _ _ _ p q label hp hq =>
      rw [Parser.meaning_choice]
      have hattempt := (iha hp hstars.1 (hscope.holding q.owned) hs).attempt
      exact (hattempt.congr (meaning_attempt hs label p)).choice_first
  | second ha hb iha ihb =>
    cases hq with
    | @choice _ _ _ _ p q label hp hq =>
      rw [Parser.meaning_choice]
      obtain ⟨expected, hfails⟩ :=
        (iha hp hstars.1 (hscope.holding q.owned) hs).attempt_fails hs.position_within
      exact Answers.choice_second ((meaning_attempt hs label p).trans hfails) hs.position_within
        (ihb hq hstars.2 hscope hs)
  | stop ha iha =>
    cases hq with
    | @star _ _ _ p label hp =>
      have hscope' := (hscope.holding []).holding (Parser.memo label (.wrap .attempt p)).owned
      obtain ⟨expected, hfails⟩ := (iha hp hstars.2 hscope' hs).attempt_fails hs.position_within
      have hstop := Action.repeated_stop ((meaning_attempt hs label p).trans hfails)
        (State.jumpTo_self hs.position_within) []
      obtain ⟨-, rfl, -, -⟩ := id hs
      rw [meaning_erased, Parser.meaning_many]
      exact ⟨(), Action.chain_of_success hstop rfl⟩
  | again ha hstar iha ihstar =>
    cases hq with
    | @star _ _ _ p label hp =>
      have hscope' := (hscope.holding []).holding (Parser.memo label (.wrap .attempt p)).owned
      obtain ⟨-, hj⟩ := ha.bounds rfl hs.within
      obtain ⟨value, hoccurs⟩ := (iha hp hstars.2 hscope' hs).attempt
      have hmoved := hstars.1 _ _ ha
      rw [← hs.position_eq] at hmoved
      have hrest := ihstar (.star label hp) hstars hscope (hs.movedTo hj)
      rw [meaning_erased, Parser.meaning_many] at hrest ⊢
      refine Answers.again ((meaning_attempt hs label p).trans hoccurs) hmoved hrest
  | found ha iha =>
    cases hq with
    | refuse hp =>
      obtain ⟨hij, hj⟩ := ha.bounds rfl hs.within
      rw [Parser.notFollowedBy, Parser.meaning_wrap]
      obtain ⟨rfl, rfl, -, -⟩ := id hs
      exact (iha hp hstars hscope hs).refuse hij hj hsize
  | missing ha iha =>
    cases hq with
    | refuse hp =>
      rw [Parser.notFollowedBy, Parser.meaning_wrap]
      obtain ⟨-, rfl, -, -⟩ := id hs
      exact (iha hp hstars hscope hs).refuse_fails hs.position_within
  | recursive h ih =>
    cases hq with
    | recursive hlevel hnew hp =>
      rw [Parser.meaning_recursive]
      exact ih hp hstars (hscope.extend hlevel hnew hp hstars) hs
  | @here n env body i r h ih =>
    cases hq
    generalize hrules : scope.rules = rules at hscope
    cases hscope with
    | define generations hlevel hnew hbody hstars' hscope' =>
      rw [Parser.meaning_rule, extend_zero, resolve_here hlevel hrules]
      exact ih hbody hstars' (hrules ▸ .define generations hlevel hnew hbody hstars' hscope') hs
  | there h ih =>
    cases hq
    generalize hrules : scope.rules = rules at hscope
    cases hscope with
    | @define _ _ _ rules _ _ _ generations hlevel hnew hbody hstars' hscope' =>
      rw [Parser.meaning_rule, extend_succ,
        resolve_there hrules (hscope'.key_ne hlevel hnew _ scope).symm, ← Parser.meaning_rule]
      exact ih (.rule _) trivial hscope' hs

section Ending

variable {input : Array Char} {n : Nat} {env : Env n} {e : Expr n} {names : Fin n → Label}
  {p q : Parser .unit} {scope : Scope} {s : State} {i fuel : Nat}

/-- With enough fuel, too, a parser does what the expression says. -/
theorem Matches.answers_eval (hsize : input.size < Index.limit) {r : Option Nat}
    (h : Matches input env e i r) (hq : Renders names e q) (hstars : e.StarsConsume input env)
    (hscope : Realizes input env names scope.rules) (hs : Stands input i s)
    (hends : q.eval fuel scope s ≠ .timeout) : Answers (q.eval fuel scope) s r :=
  (h.answers hsize hq hstars hscope hs).congr (Parser.meaning_eq_eval hends).symm

theorem eval_of_attempt (hs : Stands input i s) {label : Label}
    (h : (Parser.memo label (.wrap .attempt p)).eval fuel scope s ≠ .timeout) :
    ∃ k < fuel, p.eval k scope s ≠ .timeout := by
  cases fuel with
  | zero => exact absurd rfl h
  | succ fuel =>
    have hplain : ((Parser.wrap .attempt p).eval fuel scope).remembered (scope.key label) s =
        (Parser.wrap .attempt p).eval fuel scope s :=
      Action.remembered_of_plain ⟨hs.memoize_eq, Nat.zero_le _⟩ _ _
    have hwrap : (Parser.wrap .attempt p).eval fuel scope s ≠ .timeout := hplain ▸ h
    cases fuel with
    | zero => exact absurd rfl hwrap
    | succ fuel => exact ⟨fuel, by omega, Result.ne_timeout_of_bind hwrap⟩

theorem rest_of_chain {α β : Type} {x : Action α} {y : Action β} {value : α} {middle : State}
    (hx : x s = .done (.success value, middle)) (h : x.chain (fun _ => y) s ≠ .timeout) :
    y middle ≠ .timeout := by
  simp only [Action.chain, hx, Result.done_bind] at h
  exact Result.ne_timeout_of_bind h

theorem rest_of_choice {α : Type} {x y : Action α} {expected : Expectation}
    (hx : x s = .done (.fail expected, s)) (hs : s.position ≤ s.cursor.input.size)
    (h : x.choice y s ≠ .timeout) : y s ≠ .timeout := by
  simp only [Action.choice, hx, Outcome.fail, Result.done_bind, State.jumpTo_self hs,
    Result.ofExcept_ok] at h
  exact Result.ne_timeout_of_bind h

/-- If every occurrence that ends does what an expression says, a repetition that ends
does what the repetition of it says. -/
theorem star_matches {x : Action Unit}
    (hmoves : ∀ i j, Matches input env e i (some j) → i < j)
    (hx : ∀ i s, Stands input i s → x s ≠ .timeout →
      (∃ j value, Matches input env e i (some j) ∧ x s = .done (.success value, s.movedTo j)) ∨
      Matches input env e i none)
    (values : List Unit) (hs : Stands input i s) (h : x.repeatFrom fuel values s ≠ .timeout) :
    ∃ r, Matches input env (.star e) i r := by
  induction fuel generalizing values s i with
  | zero => exact absurd rfl h
  | succ fuel ih =>
    rcases hx i s hs (Result.ne_timeout_of_bind h) with ⟨j, value, hmatch, hoccurs⟩ | hmatch
    · obtain ⟨-, hj⟩ := hmatch.bounds rfl hs.within
      have hij := hmoves i j hmatch
      rw [← hs.position_eq] at hij
      rw [repeatFrom_again hoccurs hij] at h
      obtain ⟨r, hrest⟩ := ih (value :: values) (hs.movedTo hj) h
      exact ⟨r, .again hmatch hrest⟩
    · exact ⟨some i, .stop hmatch⟩

/-- What is known of the parser of an expression when less fuel than there is is enough. -/
def Decides (input : Array Char) (fuel : Nat) : Prop :=
  ∀ {n : Nat} {env : Env n} {e : Expr n} {names : Fin n → Label} {q : Parser .unit} {scope : Scope}
    {s : State} {i k : Nat}, k < fuel → Renders names e q → e.StarsConsume input env →
    Realizes input env names scope.rules → Stands input i s → q.eval k scope s ≠ .timeout →
    ∃ r, Matches input env e i r

theorem Decides.attempt (hdecides : Decides input fuel) (hsize : input.size < Index.limit)
    (hp : Renders names e p) (hstars : e.StarsConsume input env)
    (hscope : Realizes input env names scope.rules) (hs : Stands input i s) {label : Label}
    {k : Nat} (hk : k ≤ fuel) (h : (Parser.memo label (.wrap .attempt p)).eval k scope s ≠ .timeout) :
    (∃ j value, Matches input env e i (some j) ∧
      (Parser.memo label (.wrap .attempt p)).eval k scope s = .done (.success value, s.movedTo j)) ∨
    (∃ expected, Matches input env e i none ∧
      (Parser.memo label (.wrap .attempt p)).eval k scope s = .done (.fail expected, s)) := by
  obtain ⟨k', hk', hends⟩ := eval_of_attempt hs h
  obtain ⟨r, hmatch⟩ := hdecides (Nat.lt_of_lt_of_le hk' hk) hp hstars hscope hs hends
  have hanswers := hmatch.answers hsize hp hstars hscope hs
  rw [← Parser.meaning_eq_eval h, meaning_attempt hs]
  cases r with
  | some j =>
    obtain ⟨value, hattempt⟩ := hanswers.attempt
    exact .inl ⟨j, value, hmatch, hattempt⟩
  | none =>
    obtain ⟨expected, hattempt⟩ := hanswers.attempt_fails hs.position_within
    exact .inr ⟨expected, hmatch, hattempt⟩

theorem Decides.succ (hdecides : Decides input fuel) (hsize : input.size < Index.limit)
    (hq : Renders names e q) (hstars : e.StarsConsume input env)
    (hscope : Realizes input env names scope.rules) (hs : Stands input i s)
    (h : q.eval fuel scope s ≠ .timeout) : ∃ r, Matches input env e i r := by
  cases fuel with
  | zero => exact absurd rfl h
  | succ fuel =>
  cases hq with
  | empty => exact ⟨_, .empty⟩
  | accept accepts label =>
    by_cases hchar : ∀ c, input[i]? = some c → accepts c = false
    · exact ⟨_, .rejected hchar⟩
    · push Not at hchar
      obtain ⟨c, hfound, hc⟩ := hchar
      exact ⟨_, .accepted hfound (by simpa using hc)⟩
  | literal chars label =>
    by_cases hbegins : chars.toList <+: input.toList.drop i
    · exact ⟨_, .literal hbegins⟩
    · exact ⟨_, .differs hbegins⟩
  | @seq _ _ a b p q hp hq =>
    have hscope' := hscope.holding q.owned
    have hends : p.eval fuel (scope.holding q.owned) s ≠ .timeout := Result.ne_timeout_of_bind h
    obtain ⟨r, ha⟩ := hdecides (Nat.lt_succ_self fuel) hp hstars.1 hscope' hs hends
    have hanswers := ha.answers_eval hsize hp hstars.1 hscope' hs hends
    cases r with
    | none => exact ⟨none, .seqFails ha⟩
    | some j =>
      obtain ⟨-, hj⟩ := ha.bounds rfl hs.within
      obtain ⟨value, hdone⟩ := hanswers
      have hrest : q.eval fuel scope (s.movedTo j) ≠ .timeout := rest_of_chain hdone h
      obtain ⟨r, hb⟩ := hdecides (Nat.lt_succ_self fuel) hq hstars.2 hscope (hs.movedTo hj) hrest
      exact ⟨r, .seq ha hb⟩
  | @choice _ _ a b p q label hp hq =>
    have hends : (Parser.memo label (.wrap .attempt p)).eval fuel (scope.holding q.owned) s ≠
        .timeout := Result.ne_timeout_of_bind h
    have hscope' := hscope.holding q.owned
    rcases hdecides.attempt hsize hp hstars.1 hscope' hs (Nat.le_succ fuel) hends with
      ⟨j, value, ha, -⟩ | ⟨expected, ha, hfails⟩
    · exact ⟨some j, .first ha⟩
    · have hrest : q.eval fuel scope s ≠ .timeout := rest_of_choice hfails hs.position_within h
      obtain ⟨r, hb⟩ := hdecides (Nat.lt_succ_self fuel) hq hstars.2 hscope hs hrest
      exact ⟨r, .second ha hb⟩
  | @star _ _ a p label hp =>
    have hends : (Parser.many (.memo label (.wrap .attempt p))).eval fuel (scope.holding []) s ≠
        .timeout := Result.ne_timeout_of_bind h
    cases fuel with
    | zero => exact absurd rfl hends
    | succ fuel =>
      refine star_matches hstars.1 (fun i s hs hoccurs => ?_) [] hs hends
      have hscope' := (hscope.holding []).holding (Parser.memo label (.wrap .attempt p)).owned
      exact (hdecides.attempt hsize hp hstars.2 hscope' hs (by omega) hoccurs).imp_right
        fun ⟨_, ha, _⟩ => ha
  | @refuse _ _ a p hp =>
    have hends : p.eval fuel scope s ≠ .timeout := Result.ne_timeout_of_bind h
    obtain ⟨r, ha⟩ := hdecides (Nat.lt_succ_self fuel) hp hstars hscope hs hends
    cases r with
    | none => exact ⟨_, .missing ha⟩
    | some j => exact ⟨_, .found ha⟩
  | rule i =>
    obtain ⟨m, outer, names', body, p, inner, hfound, hbody, hinner, hstars', hmatches⟩ :=
      hscope.resolve i
    have hends : p.eval fuel inner s ≠ .timeout := by
      simpa only [Parser.eval, hfound] using h
    obtain ⟨r, hr⟩ := hdecides (Nat.lt_succ_self fuel) hbody hstars' hinner hs hends
    exact ⟨r, hmatches _ r hr⟩
  | recursive hlevel hnew hbody =>
    have hinner := hscope.extend hlevel hnew hbody hstars
    obtain ⟨r, hr⟩ := hdecides (Nat.lt_succ_self fuel) hbody hstars hinner hs h
    exact ⟨r, .recursive hr⟩

/-- Where the parser of an expression comes to an end, the expression matches or fails. -/
theorem decides (hsize : input.size < Index.limit) (fuel : Nat) : Decides input fuel := by
  induction fuel with
  | zero => exact fun hk => absurd hk (Nat.not_lt_zero _)
  | succ fuel ih =>
    intro n env e names q scope s i k hk hq hstars hscope hs hends
    rcases Nat.lt_succ_iff_lt_or_eq.1 hk with hless | rfl
    · exact ih hless hq hstars hscope hs hends
    · exact ih.succ hsize hq hstars hscope hs hends

end Ending

section WholeRuns

variable {input : Array Char} {e : Expr 0} {start : Nat}

theorem Matches.answers_parser (hsize : input.size < Index.limit) (hstart : start ≤ input.size)
    (he : e.StarsConsume input .nil) {r : Option Nat} (h : Matches input .nil e start r) :
    Answers (e.parser.meaning Scope.root) (.startAt input false start) r :=
  h.answers hsize e.parser_renders he .nil ⟨rfl, rfl, hstart, rfl⟩

theorem matches_of_ends (hsize : input.size < Index.limit) (hstart : start ≤ input.size)
    (he : e.StarsConsume input .nil)
    (hends : e.parser.meaning Scope.root (.startAt input false start) ≠ .timeout) :
    ∃ r, Matches input .nil e start r := by
  obtain ⟨fuel, hfuel⟩ := Parser.exists_eval_eq_meaning hends
  exact decides hsize (fuel + 1) (Nat.lt_succ_self fuel) e.parser_renders he .nil
    ⟨rfl, rfl, hstart, rfl⟩ (hfuel.trans_ne hends)

/-- What is seen of a run that remembers nothing is what the expression does. -/
theorem matches_of_seen (hsize : input.size < Index.limit) (hstart : start ≤ input.size)
    (he : e.StarsConsume input .nil) {outcome : Outcome Unit} {stop : Nat}
    (h : (e.parser.meaning Scope.root (.startAt input false start)).seen = .done (outcome, stop)) :
    Matches input .nil e start (if outcome.isSuccess then some stop else none) := by
  obtain ⟨r, hr⟩ := matches_of_ends hsize hstart he fun htimeout =>
    absurd (htimeout ▸ h) (by simp [Result.seen])
  exact (hr.answers_parser hsize hstart he).eq_of_seen h ▸ hr

theorem not_dropped (hsize : input.size < Index.limit) (hstart : start ≤ input.size)
    (he : e.StarsConsume input .nil) :
    e.parser.meaning Scope.root (.startAt input false start) ≠ .fault .ruleDropped := by
  intro hdropped
  obtain ⟨r, hr⟩ := matches_of_ends hsize hstart he (by rw [hdropped]; simp)
  exact (hr.answers_parser hsize hstart he).ne_fault .ruleDropped hdropped

/-- Attempted where it matters, an expression is parsed as it says. From every position of
every input, and whether or not outcomes are remembered, the run of its parser succeeds
and ends at a position exactly if the expression matches up to there, and it fails
exactly if the expression fails. -/
theorem parser_agrees (e : Expr 0) (input : Array Char) (hsize : input.size < Index.limit)
    (he : e.StarsConsume input .nil) (memoize : Bool) (start : Nat) (hstart : start ≤ input.size) :
    (∀ stop, (∃ final, e.parser.Ends (.startAt input memoize start) (.ok (.success (), final)) ∧
      final.position = stop) ↔ Matches input .nil e start (some stop)) ∧
    ((∃ cause final, e.parser.Ends (.startAt input memoize start) (.ok (.failure cause, final))) ↔
      Matches input .nil e start none) := by
  have hseen := e.parser_wellLabelled.seen_eq_plain (not_dropped hsize hstart he) memoize
  constructor
  · intro stop
    rw [Parser.exists_ends_iff, hseen]
    constructor
    · exact matches_of_seen hsize hstart he
    · intro h
      obtain ⟨value, hdone⟩ := h.answers_parser hsize hstart he
      rw [hdone]
      rfl
  · constructor
    · rintro ⟨cause, final, hends⟩
      have hshown := Parser.exists_ends_iff.1 ⟨final, hends, rfl⟩
      exact matches_of_seen hsize hstart he (hseen.symm.trans hshown)
    · intro h
      obtain ⟨cause, stop, hdone⟩ := h.answers_parser hsize hstart he
      rw [hdone] at hseen
      obtain ⟨final, hends, -⟩ := Parser.exists_ends_iff.2 hseen
      exact ⟨cause, final, hends⟩

/-- Brackets around what is in brackets itself, or digits. -/
def bracketed : Expr 1 :=
  .choice (.seq (.literal "[") (.seq (.rule 0) (.literal "]"))) (.star (.accept Char.isDigit))

theorem parser_agrees_bracketed :
    #['[', '7', ']'].size < Index.limit ∧
    (Expr.recursive bracketed).StarsConsume #['[', '7', ']'] .nil ∧ 0 ≤ #['[', '7', ']'].size ∧
    ∃ final, (Expr.recursive bracketed).parser.Ends (.startAt #['[', '7', ']'] true 0)
      (.ok (.success (), final)) ∧ final.position = 3 := by
  have hsize : #['[', '7', ']'].size < Index.limit := by decide
  have hstars : (Expr.recursive bracketed).StarsConsume #['[', '7', ']'] .nil := by
    refine ⟨⟨trivial, trivial, trivial⟩, fun i j h => ?_, trivial⟩
    cases h with
    | accepted => exact Nat.lt_succ_self i
  have hnone : ∀ c, #['[', '7', ']'][2]? = some c → c.isDigit = false := by
    intro c hc
    obtain rfl : ']' = c := Option.some.inj hc
    decide
  have hdigits : Matches #['[', '7', ']'] (Env.nil.define bracketed)
      (.star (.accept Char.isDigit)) 1 (some 2) :=
    .again (.accepted rfl (by decide)) (.stop (.rejected hnone))
  have hinner : Matches #['[', '7', ']'] (Env.nil.define bracketed) bracketed 1 (some 2) :=
    .second (.seqFails (.differs (by decide))) hdigits
  have hwhole : Matches #['[', '7', ']'] .nil (.recursive bracketed) 0 (some 3) :=
    .recursive (.first (.seq (.literal (by decide)) (.seq (.here hinner) (.literal (by decide)))))
  exact ⟨hsize, hstars, Nat.zero_le _,
    ((parser_agrees (.recursive bracketed) _ hsize hstars true 0 (Nat.zero_le _)).1 3).2 hwhole⟩

end WholeRuns

end Peg

end ParserKit
