import ParserKit.Proofs.TokenLabels

/-!
Parsing expressions and the parsers that they are written as. An expression either
fails at a position or succeeds and ends at one; a choice takes its second
alternative wherever the first fails, however far that got. As a parser, every
alternative but the last and every body of a repetition is attempted, so that a
failure inside it is as good as one at its start.
-/

namespace ParserKit

theorem Build.run_bind {α β : Type} (build : Build α) (next : α → Build β) (level first : Nat) :
    ((build >>= next).run level).run first =
      ((next ((build.run level).run first).1).run level).run ((build.run level).run first).2 :=
  rfl

namespace Peg

/-- The innermost of some rules, and the others. -/
def extend {α : Type} {n : Nat} (innermost : α) (others : Fin n → α) : Fin (n + 1) → α :=
  Fin.cases innermost others

@[simp] theorem extend_zero {α : Type} {n : Nat} (innermost : α) (others : Fin n → α) :
    extend innermost others 0 = innermost := rfl

@[simp] theorem extend_succ {α : Type} {n : Nat} (innermost : α) (others : Fin n → α) (i : Fin n) :
    extend innermost others i.succ = others i := rfl

/-- Parsing expressions with `n` rules in scope, the innermost first. -/
inductive Expr : Nat → Type where
  | empty {n : Nat} : Expr n
  /-- One character of a class. -/
  | accept {n : Nat} (accepts : Char → Bool) : Expr n
  | literal {n : Nat} (chars : String) : Expr n
  | seq {n : Nat} (first second : Expr n) : Expr n
  /-- The second where the first fails. -/
  | choice {n : Nat} (first second : Expr n) : Expr n
  /-- As many occurrences as there are. -/
  | star {n : Nat} (body : Expr n) : Expr n
  /-- Succeeds without reading where the expression fails. -/
  | refuse {n : Nat} (body : Expr n) : Expr n
  | rule {n : Nat} (i : Fin n) : Expr n
  /-- A rule that its own definition may refer to. -/
  | recursive {n : Nat} (body : Expr (n + 1)) : Expr n

/-- The definitions of the rules in scope, each in the scope of its own definition. -/
inductive Env : Nat → Type where
  | nil : Env 0
  | define {n : Nat} (outer : Env n) (body : Expr (n + 1)) : Env (n + 1)

/-- What an expression does from a position of the input: it succeeds and ends at a
position, or it fails. -/
inductive Matches (input : Array Char) :
    {n : Nat} → Env n → Expr n → Nat → Option Nat → Prop where
  | empty {n : Nat} {env : Env n} {i : Nat} : Matches input env .empty i (some i)
  | accepted {n : Nat} {env : Env n} {accepts : Char → Bool} {i : Nat} {c : Char} :
    input[i]? = some c → accepts c = true → Matches input env (.accept accepts) i (some (i + 1))
  | rejected {n : Nat} {env : Env n} {accepts : Char → Bool} {i : Nat} :
    (∀ c, input[i]? = some c → accepts c = false) → Matches input env (.accept accepts) i none
  | literal {n : Nat} {env : Env n} {chars : String} {i : Nat} :
    chars.toList <+: input.toList.drop i →
      Matches input env (.literal chars) i (some (i + chars.toList.length))
  | differs {n : Nat} {env : Env n} {chars : String} {i : Nat} :
    ¬ chars.toList <+: input.toList.drop i → Matches input env (.literal chars) i none
  | seq {n : Nat} {env : Env n} {a b : Expr n} {i j : Nat} {r : Option Nat} :
    Matches input env a i (some j) → Matches input env b j r → Matches input env (.seq a b) i r
  | seqFails {n : Nat} {env : Env n} {a b : Expr n} {i : Nat} :
    Matches input env a i none → Matches input env (.seq a b) i none
  | first {n : Nat} {env : Env n} {a b : Expr n} {i j : Nat} :
    Matches input env a i (some j) → Matches input env (.choice a b) i (some j)
  | second {n : Nat} {env : Env n} {a b : Expr n} {i : Nat} {r : Option Nat} :
    Matches input env a i none → Matches input env b i r → Matches input env (.choice a b) i r
  | stop {n : Nat} {env : Env n} {a : Expr n} {i : Nat} :
    Matches input env a i none → Matches input env (.star a) i (some i)
  | again {n : Nat} {env : Env n} {a : Expr n} {i j : Nat} {r : Option Nat} :
    Matches input env a i (some j) → Matches input env (.star a) j r →
      Matches input env (.star a) i r
  | found {n : Nat} {env : Env n} {a : Expr n} {i j : Nat} :
    Matches input env a i (some j) → Matches input env (.refuse a) i none
  | missing {n : Nat} {env : Env n} {a : Expr n} {i : Nat} :
    Matches input env a i none → Matches input env (.refuse a) i (some i)
  | recursive {n : Nat} {env : Env n} {body : Expr (n + 1)} {i : Nat} {r : Option Nat} :
    Matches input (env.define body) body i r → Matches input env (.recursive body) i r
  | here {n : Nat} {env : Env n} {body : Expr (n + 1)} {i : Nat} {r : Option Nat} :
    Matches input (env.define body) body i r → Matches input (env.define body) (.rule 0) i r
  | there {n : Nat} {env : Env n} {body : Expr (n + 1)} {k : Fin n} {i : Nat} {r : Option Nat} :
    Matches input env (.rule k) i r → Matches input (env.define body) (.rule k.succ) i r

/-- Every body of a repetition reads something whenever it matches. -/
def Expr.StarsConsume (input : Array Char) : {n : Nat} → Env n → Expr n → Prop
  | _, _, .empty => True
  | _, _, .accept _ => True
  | _, _, .literal _ => True
  | _, env, .seq a b => a.StarsConsume input env ∧ b.StarsConsume input env
  | _, env, .choice a b => a.StarsConsume input env ∧ b.StarsConsume input env
  | _, env, .star body =>
    (∀ i j, Matches input env body i (some j) → i < j) ∧ body.StarsConsume input env
  | _, env, .refuse body => body.StarsConsume input env
  | _, _, .rule _ => True
  | _, env, .recursive body => body.StarsConsume input (env.define body)

/-- The parser of an expression, given parsers for the rules in scope. -/
def Expr.translate : {n : Nat} → Expr n → (Fin n → Parser .unit) → Build (Parser .unit)
  | _, .empty, _ => return .ret (t := .unit) ()
  | _, .accept accepts, _ => return (← Build.satisfy accepts).andThen (.ret (t := .unit) ())
  | _, .literal chars, _ => return (← Build.string chars).andThen (.ret (t := .unit) ())
  | _, .seq a b, handles => return (← a.translate handles).andThen (← b.translate handles)
  | _, .choice a b, handles =>
    return .choice (← Build.attempt (← a.translate handles)) (← b.translate handles)
  | _, .star body, handles =>
    return (Parser.many (← Build.attempt (← body.translate handles))).andThen (.ret (t := .unit) ())
  | _, .refuse body, handles => return (← body.translate handles).notFollowedBy
  | _, .rule i, handles => return handles i
  | _, .recursive body, handles =>
    Build.recursive fun handle => body.translate (extend handle handles)

/-- The parser of an expression that refers to no rules but its own. -/
def Expr.parser (e : Expr 0) : Parser .unit :=
  (e.translate Fin.elim0).assemble 0

theorem Matches.bounds {input : Array Char} {n : Nat} {env : Env n} {e : Expr n} {i stop : Nat}
    {r : Option Nat} (h : Matches input env e i r) (hr : r = some stop) (hi : i ≤ input.size) :
    i ≤ stop ∧ stop ≤ input.size := by
  induction h generalizing stop with
  | empty =>
    obtain rfl := Option.some.inj hr
    exact ⟨Nat.le_refl _, hi⟩
  | accepted hchar =>
    obtain rfl := Option.some.inj hr
    obtain ⟨hlt, -⟩ := Array.getElem?_eq_some_iff.1 hchar
    exact ⟨Nat.le_succ _, hlt⟩
  | literal hbegins =>
    obtain rfl := Option.some.inj hr
    have hlength := hbegins.length_le
    simp only [List.length_drop, Array.length_toList] at hlength
    omega
  | rejected => cases hr
  | differs => cases hr
  | seqFails => cases hr
  | found => cases hr
  | seq _ _ iha ihb =>
    obtain ⟨hij, hj⟩ := iha rfl hi
    obtain ⟨hjstop, hstop⟩ := ihb hr hj
    exact ⟨Nat.le_trans hij hjstop, hstop⟩
  | first _ ih => exact ih hr hi
  | second _ _ _ ihb => exact ihb hr hi
  | stop =>
    obtain rfl := Option.some.inj hr
    exact ⟨Nat.le_refl _, hi⟩
  | again _ _ iha ihstar =>
    obtain ⟨hij, hj⟩ := iha rfl hi
    obtain ⟨hjstop, hstop⟩ := ihstar hr hj
    exact ⟨Nat.le_trans hij hjstop, hstop⟩
  | missing =>
    obtain rfl := Option.some.inj hr
    exact ⟨Nat.le_refl _, hi⟩
  | recursive _ ih => exact ih hr hi
  | here _ ih => exact ih hr hi
  | there _ ih => exact ih hr hi

/-- The parsers of an expression, up to the labels under which outcomes are remembered;
the rules in scope have the given names. -/
inductive Renders : {n : Nat} → (Fin n → Label) → Expr n → Parser .unit → Prop where
  | empty {n : Nat} {names : Fin n → Label} : Renders names .empty (.ret (t := .unit) ())
  | accept {n : Nat} {names : Fin n → Label} (accepts : Char → Bool) (label : Label) :
    Renders names (.accept accepts)
      ((Parser.memo label (.atom (.satisfy accepts))).andThen (.ret (t := .unit) ()))
  | literal {n : Nat} {names : Fin n → Label} (chars : String) (label : Label) :
    Renders names (.literal chars)
      ((Parser.memo label (.atom (.string chars))).andThen (.ret (t := .unit) ()))
  | seq {n : Nat} {names : Fin n → Label} {a b : Expr n} {p q : Parser .unit} :
    Renders names a p → Renders names b q → Renders names (.seq a b) (p.andThen q)
  | choice {n : Nat} {names : Fin n → Label} {a b : Expr n} {p q : Parser .unit} (label : Label) :
    Renders names a p → Renders names b q →
      Renders names (.choice a b) (.choice (.memo label (.wrap .attempt p)) q)
  | star {n : Nat} {names : Fin n → Label} {a : Expr n} {p : Parser .unit} (label : Label) :
    Renders names a p → Renders names (.star a)
      ((Parser.many (.memo label (.wrap .attempt p))).andThen (.ret (t := .unit) ()))
  | refuse {n : Nat} {names : Fin n → Label} {a : Expr n} {p : Parser .unit} :
    Renders names a p → Renders names (.refuse a) p.notFollowedBy
  | rule {n : Nat} {names : Fin n → Label} (i : Fin n) : Renders names (.rule i) (.rule (names i))
  | recursive {n : Nat} {names : Fin n → Label} {body : Expr (n + 1)} {p : Parser .unit}
    {name : Label} (hlevel : name.level = 0) (hnew : ∀ i, names i ≠ name) :
    Renders (extend name names) body p → Renders names (.recursive body) (.recursive name p)

/-- The labels of the rules in scope are handed out before those of the expression. -/
theorem Expr.translate_renders {n : Nat} (e : Expr n) (names : Fin n → Label) (first : Nat)
    (hnames : ∀ i, (names i).level = 0 ∧ (names i).index < first) :
    ∃ q last, ((e.translate fun i => .rule (names i)).run 0).run first = (q, last) ∧
      first ≤ last ∧ Renders names e q := by
  induction e generalizing first with
  | empty => exact ⟨_, first, rfl, Nat.le_refl first, .empty⟩
  | accept accepts => exact ⟨_, first + 1, rfl, Nat.le_succ first, .accept accepts ⟨0, first⟩⟩
  | literal chars => exact ⟨_, first + 1, rfl, Nat.le_succ first, .literal chars ⟨0, first⟩⟩
  | seq a b iha ihb =>
    obtain ⟨p, middle, hp, hmiddle, ha⟩ := iha names first hnames
    obtain ⟨q, last, hq, hlast, hb⟩ := ihb names middle fun i =>
      ⟨(hnames i).1, Nat.lt_of_lt_of_le (hnames i).2 hmiddle⟩
    refine ⟨p.andThen q, last, ?_, Nat.le_trans hmiddle hlast, ha.seq hb⟩
    rw [translate, Build.run_bind, hp, Build.run_bind, hq]
    rfl
  | choice a b iha ihb =>
    obtain ⟨p, middle, hp, hmiddle, ha⟩ := iha names first hnames
    obtain ⟨q, last, hq, hlast, hb⟩ := ihb names (middle + 1) fun i =>
      ⟨(hnames i).1, by have := (hnames i).2; omega⟩
    refine ⟨_, last, ?_, by omega, ha.choice ⟨0, middle⟩ hb⟩
    have hattempt : ((Build.attempt p).run 0).run middle =
        (.memo ⟨0, middle⟩ (.wrap .attempt p), middle + 1) := rfl
    rw [translate, Build.run_bind, hp, Build.run_bind, hattempt, Build.run_bind, hq]
    rfl
  | star a ih =>
    obtain ⟨p, last, hp, hlast, ha⟩ := ih names first hnames
    refine ⟨_, last + 1, ?_, Nat.le_succ_of_le hlast, ha.star ⟨0, last⟩⟩
    rw [translate, Build.run_bind, hp]
    rfl
  | refuse a ih =>
    obtain ⟨p, last, hp, hlast, ha⟩ := ih names first hnames
    refine ⟨p.notFollowedBy, last, ?_, hlast, ha.refuse⟩
    rw [translate, Build.run_bind, hp]
    rfl
  | rule i => exact ⟨_, first, rfl, Nat.le_refl first, .rule i⟩
  | recursive body ih =>
    have hhandles : (fun i => .rule (extend ⟨0, first⟩ names i)) =
        extend (.rule ⟨0, first⟩ : Parser .unit) fun i => .rule (names i) := by
      funext i
      cases i using Fin.cases <;> rfl
    obtain ⟨p, last, hp, hlast, hbody⟩ := ih (extend ⟨0, first⟩ names) (first + 1) fun i => by
      cases i using Fin.cases with
      | zero => exact ⟨rfl, Nat.lt_succ_self first⟩
      | succ i => exact ⟨(hnames i).1, Nat.lt_succ_of_lt (hnames i).2⟩
    refine ⟨.recursive ⟨0, first⟩ p, last, ?_, by omega, .recursive rfl (fun i hi => ?_) hbody⟩
    · rw [hhandles] at hp
      rw [translate, Build.run_recursive, hp]
    · have hlt := (hnames i).2
      rw [hi] at hlt
      exact Nat.lt_irrefl first hlt

theorem Expr.parser_renders (e : Expr 0) : Renders Fin.elim0 e e.parser := by
  obtain ⟨q, last, hrun, -, hq⟩ := e.translate_renders Fin.elim0 0 fun i => i.elim0
  have hhandles : (fun i : Fin 0 => (.rule (i.elim0) : Parser .unit)) = Fin.elim0 :=
    funext fun i => i.elim0
  rw [hhandles] at hrun
  simp only [parser, Build.assemble, hrun]
  exact hq

/-- What is built for an expression is well labelled if the rules in scope are. -/
theorem Expr.translate_yields {level n : Nat} (e : Expr n) (handles : Fin n → Parser .unit) :
    Build.Yields level (e.translate handles) fun names p =>
      (∀ i, (handles i).Labelled names level) → p.Labelled names level := by
  induction e with
  | empty => exact .pure fun _ _ => trivial
  | accept accepts =>
    exact (Build.satisfy_labelled accepts).bind fun p => .pure fun _ hp _ => hp.andThen (.ret _)
  | literal chars =>
    exact (Build.string_labelled chars).bind fun p => .pure fun _ hp _ => hp.andThen (.ret _)
  | seq a b iha ihb =>
    exact (iha handles).bind fun p => (ihb handles).bind fun q =>
      .pure fun _ hq hp hhandles => (hp hhandles).andThen (hq hhandles)
  | choice a b iha ihb =>
    exact (iha handles).bind fun p => (Build.attempt_yields p).bind fun p' =>
      (ihb handles).bind fun q => .pure fun _ hq hp' hp hhandles =>
        (hp' (hp hhandles)).choice (hq hhandles)
  | star a ih =>
    exact (ih handles).bind fun p => (Build.attempt_yields p).bind fun p' =>
      .pure fun _ hp' hp hhandles => .andThen (p := .many p') (hp' (hp hhandles)) (.ret _)
  | refuse a ih =>
    exact (ih handles).bind fun p => .pure fun _ hp hhandles => hp hhandles
  | rule i => exact .pure fun _ hhandles => hhandles i
  | recursive body ih =>
    refine Build.recursive_yields fun name hlevel => (ih _).mono fun _ _ hbody hhandles => ?_
    refine hbody fun i => ?_
    cases i using Fin.cases with
    | zero => exact Nat.le_of_eq hlevel
    | succ i => exact hhandles i

theorem Expr.parser_wellLabelled (e : Expr 0) : e.parser.WellLabelled :=
  Build.assemble_wellLabelled ((e.translate_yields Fin.elim0).mono fun _ _ hp =>
    hp fun i => i.elim0)

end Peg

end ParserKit
