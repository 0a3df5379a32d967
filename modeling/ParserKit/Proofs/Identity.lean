import ParserKit.Proofs.Associativity

/-!
A parser that succeeds at once is an identity of bind, on the left and on the right.
After it the cursor has not moved, so bind settles the outcome of what follows from
the very place where that began. A failure that counts as not consuming ends there,
whatever was remembered and wherever the grammar jumps, so settling it changes
nothing.
-/

namespace ParserKit

/-- Settling an honest outcome from its own start leaves it as it is. -/
theorem Honest.consumedIf_eq {forward : Prop} {size start stop : Nat} {α : Type}
    {outcome : Outcome α} (h : Honest forward size start stop outcome) :
    outcome.consumedIf (stop != start) = outcome := by
  cases outcome with
  | success value => rfl
  | failure cause =>
    obtain ⟨expected, consumed⟩ := cause
    cases consumed with
    | true => rfl
    | false =>
      have hstop : stop = start := h.unmoved rfl
      simp [Outcome.consumedIf, hstop]

namespace Action

variable {α β : Type}

/-- An action that delivers a value without touching the state. -/
def deliver (value : α) : Action α := fun s =>
  .done (.success value, s)

theorem chain_deliver (first : Action α) : first.chain deliver = first := by
  funext s
  simp only [chain]
  cases first s with
  | fault cause => rfl
  | timeout => rfl
  | done result =>
    obtain ⟨outcome, after⟩ := result
    cases outcome with
    | success value => rfl
    | failure cause => rfl

theorem deliver_chain {forward : Prop} {next : α → Action β} {value : α}
    (h : Fair forward (next value)) {s : State} (hs : s.Sound forward) :
    (deliver value).chain next s = next value s := by
  simp only [chain, deliver, Result.done_bind]
  cases hnext : next value s with
  | fault cause => rfl
  | timeout => rfl
  | done result =>
    obtain ⟨outcome, after⟩ := result
    have hreached := h s hs _ hnext
    have hsettled : after.settle s.position outcome = outcome := hreached.honest.consumedIf_eq
    simp only [Result.done_bind, hsettled]

end Action

namespace Parser

variable {a b : Ty}

theorem meaning_ret (scope : Scope) (value : a.Elem) :
    (ret value : Parser a).meaning scope = Action.deliver value :=
  meaning_atom scope (.ret value)

/-- Binding the identity to a parser changes nothing, in any scope and any state. -/
theorem meaning_followedBy_ret (scope : Scope) (p : Parser b) :
    (p.followedBy ret).meaning scope = p.meaning scope := by
  have hret : (fun value => (ret value : Parser b).meaning scope) = Action.deliver :=
    funext fun value => meaning_ret scope value
  rw [followedBy, meaning_bind, hret, Action.chain_deliver]
  rfl

/-- Binding a function to the identity is applying it, wherever a run can stand. -/
theorem meaning_bind_ret {scope : Scope} (hscope : scope.All fun _ y => y.Builtin) (x : a.Elem)
    (captures : List Label) {f : a.Elem → Parser b} (hf : (f x).All fun _ y => y.Builtin)
    {s : State} (hs : s.Sound False) :
    (Parser.bind (ret x) captures f).meaning scope s = (f x).meaning scope s := by
  have hbuiltin : ∀ t (y : Atom t), y.Builtin → y.Builtin ∧ (False → y.Forward) :=
    fun _ _ hy => ⟨hy, False.elim⟩
  have hfair := meaning_fair hbuiltin scope (f x) hscope hf
  rw [meaning_bind, meaning_ret]
  exact @Action.deliver_chain a.Elem b.Elem False (fun value => (f value).meaning scope) x
    hfair s hs

/-- The parser that succeeds at once is the left and the right identity of bind: a run
from any place ends in the same way, with the same outcome and in the same final state,
and if one of the two runs never ends then neither does the other. Whatever a function
or a parser is made of, except for hand-written parsers, it may jump. -/
theorem ret_identity (x : a.Elem) (captures : List Label) (f : a.Elem → Parser b)
    (hf : (f x).All fun _ y => y.Builtin) (p : Parser b) (input : Array Char) (memoize : Bool)
    (start : Nat) (hstart : start ≤ input.size) (e : Except Fault (Outcome b.Elem × State)) :
    ((Parser.bind (ret x) captures f).Ends (.startAt input memoize start) e ↔
      (f x).Ends (.startAt input memoize start) e) ∧
    ((p.followedBy ret).Ends (.startAt input memoize start) e ↔
      p.Ends (.startAt input memoize start) e) := by
  have hsound : (State.startAt input memoize start).Sound False :=
    State.startAt_sound input memoize hstart
  constructor
  · rw [ends_iff, ends_iff, meaning_bind_ret (Scope.root_all _) x captures hf hsound]
  · rw [ends_iff, ends_iff, meaning_followedBy_ret]

/-- A jump back before a failure, and a repetition. -/
theorem ret_identity_jump :
    ((setPosition 0).andThen (fail (t := .text) "x")).All (fun _ y => y.Builtin) ∧ 1 ≤ #['a'].size ∧
    (Parser.bind (a := .char) (ret 'a') [] fun _ =>
      (setPosition 0).andThen (fail (t := .text) "x")).Ends
      (.startAt #['a'] true 1) (.ok (.failure ⟨.message "x", true⟩, .startAt #['a'] true 0)) ∧
    ((fail (t := .text) "x").followedBy ret).Ends (.startAt #['a'] true 1)
      (.ok (.failure ⟨.message "x", false⟩, .startAt #['a'] true 1)) := by
  have hbuiltin : ((setPosition 0).andThen (fail (t := .text) "x")).All fun _ y => y.Builtin :=
    ⟨trivial, fun _ => trivial⟩
  refine ⟨hbuiltin, by decide, ?_, ?_⟩
  · refine (ret_identity (a := .char) 'a' [] (fun _ => (setPosition 0).andThen (fail "x")) hbuiltin
      (fail "x") #['a'] true 1 (by decide) _).1.2 ?_
    exact ⟨8, _, _, rfl, rfl⟩
  · refine (ret_identity (a := .char) 'a' [] (fun _ => (setPosition 0).andThen (fail "x")) hbuiltin
      (fail "x") #['a'] true 1 (by decide) _).2.2 ?_
    exact ⟨8, _, _, rfl, rfl⟩

end Parser

end ParserKit
