import ParserKit.Proofs.Numerals
import ParserKit.Proofs.Termination

/-!
Parts that are rebuilt and refer to no rules. A scope says which rules a parser may refer to
and which generations its labels belong to. A run that remembers nothing does not look at the
generations, and a parser without references does not look at the rules, so such a parser does
the same in every scope. What has been shown of it in one of them therefore holds wherever it is
rebuilt.
-/

namespace ParserKit

open Comparison

/-- Two runs that remember nothing and are in the same state. -/
def Comparison.unscoped : Comparison Unit where
  states _ s s' := s = s' ∧ s.cursor.memoize = false
  firstExcuse _ := False
  secondExcuse _ := False
  beside h := ⟨congrArg (·.cursor.input) h.1, congrArg State.position h.1⟩
  movedTo h q := ⟨congrArg (·.movedTo q) h.1, h.2⟩
  tick h counter := ⟨congrArg (·.tick counter) h.1, h.2⟩

namespace Parser

variable {a t : Ty} {input : Array Char} {scope : Scope} {i j : Nat}

/-- Without references to rules the scope makes no difference. -/
theorem RuleFree.actions (fuel : Nat) {p : Parser t} (h : p.RuleFree) (scope scope' : Scope) :
    unscoped.Actions () (p.eval fuel scope) (p.eval fuel scope') := by
  induction fuel generalizing t scope scope' with
  | zero => exact fun _ _ _ _ _ => .timeout _
  | succ fuel ih =>
    cases p with
    | atom a => exact .atom a
    | wrap wrapper p => exact (ih (p := p) h scope scope').wrapped wrapper
    | bind p captures next => exact (ih h.1 _ _).chain fun value => ih (h.2 value) scope scope'
    | sequence items =>
      intro w hw s s' hs
      have hitems := fun k => ih (h k) (scope.holding (ownedItems items))
        (scope'.holding (ownedItems items))
      have hresults := Actions.sequence hitems s.position (List.finRange _) [] w hw s s' hs
      simp only [eval, ← (unscoped.beside hs).position_eq]
      exact hresults
    | choice first second => exact (ih h.1 _ _).choice (ih h.2 scope scope')
    | memo label p =>
      -- an identity is looked at only to remember
      intro w hw s s' hs
      have hplain : s.Plain 0 := ⟨hs.2, Nat.zero_le _⟩
      have hplain' : s'.Plain 0 := hs.1 ▸ hplain
      simp only [eval, Action.remembered_of_plain hplain, Action.remembered_of_plain hplain']
      exact ih (p := p) h scope scope' w hw s s' hs
    | many p => exact (ih (p := p) h _ _).repeatFrom (Nat.le_refl fuel) []
    | many1 p =>
      have hp := ih (p := p) h (scope.holding p.owned) (scope'.holding p.owned)
      exact hp.repeatFrom1 fun values => hp.repeatFrom (Nat.le_refl fuel) values
    | recursive name body => exact ih (p := body) h _ _
    | rule name => exact absurd h id
    | fresh level captures body =>
      intro w hw s s' hs
      obtain ⟨rfl, hmemoize⟩ := hs
      exact ih (p := body ()) h _ _ w hw s.renew.2 s.renew.2 ⟨rfl, hmemoize⟩
    | tick counter p => exact (ih (p := p) h scope scope').tick counter

theorem RuleFree.runs {p : Parser t} {outcome : Outcome t.Elem} (h : p.RuleFree)
    (hruns : p.Runs input scope i outcome j) (scope' : Scope) :
    p.Runs input scope' i outcome j := by
  intro held s hs
  obtain ⟨after, hdone, hafter⟩ := hruns scope.held s hs
  obtain ⟨fuel, hfuel⟩ := exists_eval_eq_meaning (hdone.trans_ne (by simp))
  have hresults := RuleFree.actions fuel h { scope with held := scope.held }
    { scope' with held } () le_rfl s s ⟨rfl, hs.memoize_eq⟩
  rw [hfuel, hdone] at hresults
  generalize hresult : p.eval fuel { scope' with held } s = result at hresults
  cases hresults with
  | secondExcused hcause => exact absurd hcause id
  | done _ _ hafters =>
    obtain ⟨rfl, -⟩ := hafters
    exact ⟨_, meaning_eq_done hresult, hafter⟩

section Fresh

variable {level : Nat} {captures : List Label} {body : Unit → Parser t} {outcome : Outcome t.Elem}

/-- A part does what it does in each scope with a new generation. -/
theorem Runs.fresh
    (h : ∀ generation, (body ()).Runs input (scope.renew level generation) i outcome j) :
    (Parser.fresh level captures body).Runs input scope i outcome j := by
  intro held s hs
  rw [meaning_fresh]
  exact h s.renew.1 held s.renew.2 ⟨hs.input_eq, hs.position_eq, hs.within, hs.memoize_eq⟩

theorem RuleFree.fresh_runs (hbody : (body ()).RuleFree)
    (h : (body ()).Runs input scope i outcome j) :
    (Parser.fresh level captures body).Runs input scope i outcome j :=
  .fresh fun _ => hbody.runs h _

theorem RuleFree.fresh_concludes {begun : Bool} {value? : Option t.Elem}
    (hbody : (body ()).RuleFree) (h : (body ()).Concludes input scope i begun value? j) :
    (Parser.fresh level captures body).Concludes input scope i begun value? j := by
  cases value? with
  | some v => exact hbody.fresh_runs h
  | none =>
    cases begun with
    | true =>
      obtain ⟨expected, k, h⟩ := h
      exact ⟨expected, k, hbody.fresh_runs h⟩
    | false =>
      obtain ⟨expected, h⟩ := h
      exact ⟨expected, hbody.fresh_runs h⟩

end Fresh

/-- A part that is rebuilt reads what it reads in each scope. -/
theorem Reads.fresh {level : Nat} {captures : List Label} {body : Unit → Parser a}
    {texts : Texts a.Elem} (hbody : (body ()).RuleFree) (h : (body ()).Reads input scope texts) :
    (Parser.fresh level captures body).Reads input scope texts where
  found htext hi hread := hbody.fresh_runs (h.found htext hi hread)
  decided {i} hi := by
    refine (h.decided hi).imp_right fun hfails => ?_
    have hconcludes : ∃ begun, (body ()).Concludes input scope i begun none i :=
      hfails.elim (fun hrefuses => ⟨false, hrefuses⟩) fun hbreaks => ⟨true, hbreaks⟩
    obtain ⟨begun, hconcludes⟩ := hconcludes
    exact (hbody.fresh_concludes hconcludes).fails

end Parser

namespace Build

variable {a t : Ty} {level : Nat}

theorem bindFresh_made (p : Parser a) (next : a.Elem → Build (Parser t)) :
    Yields level (bindFresh p next) fun _ q => q = p.followedBy fun value =>
      .fresh (level + 1) [] fun _ => (next value).assemble (level + 1) := by
  intro first
  exact ⟨_, first, _, rfl, Nat.le_refl first, Names.within_empty, fun _ _ => rfl⟩

/-- An identity adds no references. -/
theorem memo_ruleFree (p : Parser t) :
    Yields level (memo p) fun _ q => p.RuleFree → q.RuleFree :=
  memo_meets fun _ h => h

theorem label_ruleFree (p : Parser t) (message : String) :
    Yields level (label p message) fun _ q => p.RuleFree → q.RuleFree :=
  memo_ruleFree (.wrap (.label message) p)

theorem satisfy_ruleFree (accepts : Char → Bool) :
    Yields level (satisfy accepts) fun _ p => p.RuleFree :=
  (memo_ruleFree _).mono fun _ _ h => h trivial

theorem char_ruleFree (c : Char) : Yields level (char c) fun _ p => p.RuleFree :=
  (memo_ruleFree _).mono fun _ _ h => h trivial

theorem classOf_ruleFree (accepts : Char → Bool) (name : String) :
    Yields level (classOf accepts name) fun _ p => p.RuleFree :=
  (satisfy_ruleFree accepts).bind fun p => label_ruleFree p name

end Build

namespace Lexer

open Build

variable {t : Ty} {level : Nat}

theorem accept_ruleFree (value? : Option t.Elem) : (accept value?).RuleFree := by
  cases value? <;> trivial

theorem digits_ruleFree {digit : Parser .char} (h : digit.RuleFree) (base : Nat) :
    (digits base digit).RuleFree :=
  ⟨h, fun _ => accept_ruleFree (t := .natural) _⟩

theorem decimal_ruleFree : Yields level decimal fun _ p => p.RuleFree :=
  (classOf_ruleFree _ _).bind fun _ => .pure fun _ hdigit => digits_ruleFree hdigit 10

theorem hexTail_ruleFree : Yields level hexTail fun _ p => p.RuleFree :=
  (satisfy_ruleFree _).bind fun _ => (classOf_ruleFree _ _).bind fun _ =>
    .pure fun _ hdigit hmark => ⟨hmark, fun _ => digits_ruleFree hdigit 16⟩

theorem octTail_ruleFree : Yields level octTail fun _ p => p.RuleFree :=
  (satisfy_ruleFree _).bind fun _ => (classOf_ruleFree _ _).bind fun _ =>
    .pure fun _ hdigit hmark => ⟨hmark, fun _ => digits_ruleFree hdigit 8⟩

theorem naturalNumber_ruleFree : Yields level naturalNumber fun _ p => p.RuleFree := by
  refine hexTail_ruleFree.bind fun hex => octTail_ruleFree.bind fun oct => ?_
  refine decimal_ruleFree.bind fun tail => (char_ruleFree '0').bind fun zero => ?_
  refine (label_ruleFree _ _).bind fun zeroFirst => decimal_ruleFree.bind fun number => .pure ?_
  intro names hnumber hlabel hzero htail hoct hhex
  exact ⟨hlabel ⟨hzero, fun _ => ⟨hhex, hoct, htail, trivial⟩⟩, hnumber⟩

end Lexer

end ParserKit
