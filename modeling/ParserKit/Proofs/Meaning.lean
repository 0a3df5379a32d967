import Mathlib.Data.Nat.Init
import Mathlib.Order.CompleteBooleanAlgebra
import Mathlib.Order.CompletePartialOrder
import ParserKit.Proofs.Comparison

/-!
The meaning of a parser without fuel. More fuel never changes a result, so the
results for growing fuel settle: on the one result that some fuel reaches, or on
`timeout` when no fuel is enough and the run never ends. The meaning of a parser
is the action it settles on, and it satisfies the equations of `Parser.eval` with
the meanings of the parts in place of their evaluation.
-/

namespace ParserKit

namespace Result

variable {α β : Type}

/-- Results for growing fuel, none of which changes once it is there. -/
def Rising (x : Nat → Result α) : Prop :=
  ∀ n m, n ≤ m → x n ≠ .timeout → x m = x n

def Settles (x : Nat → Result α) (r : Result α) : Prop :=
  ∃ bound, ∀ n, bound ≤ n → x n = r

open Classical in
/-- The result that some fuel reaches. -/
noncomputable def limit (x : Nat → Result α) : Result α :=
  if h : ∃ n, x n ≠ .timeout then x h.choose else .timeout

theorem limit_settles {x : Nat → Result α} (hx : Rising x) : Settles x (limit x) := by
  by_cases h : ∃ n, x n ≠ .timeout
  · simp only [limit, dif_pos h]
    exact ⟨h.choose, fun n hn => hx _ n hn h.choose_spec⟩
  · simp only [limit, dif_neg h]
    exact ⟨0, fun n _ => Classical.byContradiction fun hn => h ⟨n, hn⟩⟩

theorem eq_limit {x : Nat → Result α} (hx : Rising x) {n : Nat} (hn : x n ≠ .timeout) :
    limit x = x n := by
  obtain ⟨bound, hbound⟩ := limit_settles hx
  rw [← hbound (max bound n) (by omega)]
  exact hx n (max bound n) (by omega) hn

theorem exists_eq_limit {x : Nat → Result α} (h : limit x ≠ .timeout) :
    ∃ n, x n = limit x := by
  by_cases hx : ∃ n, x n ≠ .timeout
  · exact ⟨hx.choose, by simp only [limit, dif_pos hx]⟩
  · simp only [limit, dif_neg hx] at h
    exact absurd rfl h

namespace Settles

theorem const (r : Result α) : Settles (fun _ => r) r := ⟨0, fun _ _ => rfl⟩

theorem unique {x : Nat → Result α} {r r' : Result α} (h : Settles x r) (h' : Settles x r') :
    r = r' := by
  obtain ⟨bound, hr⟩ := h
  obtain ⟨bound', hr'⟩ := h'
  exact (hr (max bound bound') (by omega)).symm.trans (hr' (max bound bound') (by omega))

theorem succ {x : Nat → Result α} {r : Result α} (h : Settles x r) :
    Settles (fun n => x (n + 1)) r := by
  obtain ⟨bound, hr⟩ := h
  exact ⟨bound, fun n hn => hr (n + 1) (by omega)⟩

theorem bind {x : Nat → Result α} {r : Result α} {f : Nat → α → Result β} {g : α → Result β}
    (h : Settles x r) (hf : ∀ a, r = .done a → Settles (fun n => f n a) (g a)) :
    Settles (fun n => x n >>= f n) (r >>= g) := by
  obtain ⟨bound, hr⟩ := h
  cases r with
  | fault cause => exact ⟨bound, fun n hn => by simp only [hr n hn]; rfl⟩
  | timeout => exact ⟨bound, fun n hn => by simp only [hr n hn]; rfl⟩
  | done a =>
    obtain ⟨bound', hg⟩ := hf a rfl
    refine ⟨max bound bound', fun n hn => ?_⟩
    simp only [hr n (by omega), done_bind]
    exact hg n (by omega)

end Settles

end Result

open Result

namespace Comparison

variable {α : Type}

/-- Two runs in the same states, of which the first may lack fuel. -/
def fueled : Comparison Unit where
  states _ s s' := s = s'
  firstExcuse _ := False
  secondExcuse _ := False
  beside h := h ▸ ⟨rfl, rfl⟩
  movedTo h q := by rw [h]
  tick h counter := by rw [h]

theorem fueled_results_eq {w : Unit} {x y : Result (α × State)} (h : fueled.Results w x y)
    (hx : x ≠ .timeout) : y = x := by
  cases h with
  | timeout => exact absurd rfl hx
  | firstExcused h => exact absurd h id
  | secondExcused h => exact absurd h id
  | fault cause => rfl
  | done hw a hs =>
    have hs : _ = _ := hs
    rw [hs]

theorem fueled_actions_of {x y : Action α} (h : ∀ s, x s ≠ .timeout → y s = x s) :
    fueled.Actions () x y := by
  intro w _ s s' hs
  obtain rfl : s = s' := hs
  cases hx : x s with
  | timeout => exact .timeout _
  | fault cause =>
    rw [h s (by simp [hx]), hx]
    exact .fault cause
  | done result =>
    rw [h s (by simp [hx]), hx]
    exact .done (le_refl w) result.1 rfl

theorem fueled_remembered {t : Ty} (key : Key) {x y : Action t.Elem}
    (h : fueled.Actions () x y) : fueled.Actions () (x.remembered key) (y.remembered key) := by
  refine fueled_actions_of fun s hs => ?_
  simp only [Action.remembered] at hs ⊢
  by_cases hm : s.cursor.memoize = true
  · simp only [hm, if_true] at hs ⊢
    cases hlook : s.lookup key t with
    | mk found missed =>
      cases found with
      | some outcome => rfl
      | none =>
        simp only [hlook] at hs ⊢
        have hx : x missed ≠ .timeout := by
          intro hx
          exact hs (by rw [hx]; rfl)
        rw [fueled_results_eq (h () le_rfl missed missed rfl) hx]
  · simp only [hm] at hs ⊢
    exact fueled_results_eq (h () le_rfl s s rfl) hs

end Comparison

open Comparison

namespace Parser

variable {t : Ty}

/-- One more unit of fuel changes nothing but a lack of fuel. -/
theorem eval_succ_fueled (fuel : Nat) (scope : Scope) (p : Parser t) :
    fueled.Actions () (p.eval fuel scope) (p.eval (fuel + 1) scope) := by
  induction fuel generalizing t scope with
  | zero =>
    intro w _ s s' _
    exact .timeout _
  | succ fuel ih =>
    cases p with
    | atom a => exact .atom a
    | wrap wrapper p => exact (ih scope p).wrapped wrapper
    | bind p captures next =>
      exact (ih (scope.holding captures) p).chain fun value => ih scope (next value)
    | sequence items =>
      refine fueled_actions_of fun s hs => ?_
      have hitems := Actions.sequence (fun i => ih (scope.holding (ownedItems items)) (items i))
        s.position (List.finRange _) []
      exact fueled_results_eq (hitems () le_rfl s s rfl) hs
    | choice first second =>
      exact (ih (scope.holding second.owned) first).choice (ih scope second)
    | memo label p => exact fueled_remembered (scope.key label) (ih scope p)
    | many p => exact (ih (scope.holding p.owned) p).repeatFrom (by omega) []
    | many1 p =>
      have hp := ih (scope.holding p.owned) p
      exact hp.repeatFrom1 fun values => hp.repeatFrom (by omega) values
    | recursive name body => exact ih (scope.define name body) body
    | rule name =>
      simp only [eval]
      cases scope.resolve name t with
      | none => exact fueled_actions_of fun _ _ => rfl
      | some found => exact ih found.2 found.1
    | fresh level captures body =>
      refine fueled_actions_of fun s hs => ?_
      have hbody := ih (scope.renew level s.renew.1) (body ())
      exact fueled_results_eq (hbody () le_rfl s.renew.2 s.renew.2 rfl) hs
    | tick counter p => exact (ih scope p).tick counter

theorem eval_rising (scope : Scope) (p : Parser t) (s : State) :
    Rising fun fuel => p.eval fuel scope s := by
  intro n m hnm hn
  induction m, hnm using Nat.le_induction with
  | base => rfl
  | succ m _ ih =>
    rw [← ih] at hn ⊢
    exact fueled_results_eq (eval_succ_fueled m scope p () le_rfl s s rfl) hn

/-- What a parser does when it has all the fuel it needs; `timeout` stands for a
run without end. -/
noncomputable def meaning (scope : Scope) (p : Parser t) : Action t.Elem := fun s =>
  limit fun fuel => p.eval fuel scope s

theorem eval_settles (scope : Scope) (p : Parser t) (s : State) :
    Settles (fun fuel => p.eval fuel scope s) (p.meaning scope s) :=
  limit_settles (eval_rising scope p s)

theorem meaning_eq_eval {scope : Scope} {p : Parser t} {s : State} {fuel : Nat}
    (h : p.eval fuel scope s ≠ .timeout) : p.meaning scope s = p.eval fuel scope s :=
  eq_limit (eval_rising scope p s) h

theorem meaning_eq_done {scope : Scope} {p : Parser t} {s : State} {fuel : Nat}
    {result : Outcome t.Elem × State} (h : p.eval fuel scope s = .done result) :
    p.meaning scope s = .done result :=
  (meaning_eq_eval (h.trans_ne (by simp))).trans h

theorem exists_eval_eq_meaning {scope : Scope} {p : Parser t} {s : State}
    (h : p.meaning scope s ≠ .timeout) : ∃ fuel, p.eval fuel scope s = p.meaning scope s :=
  exists_eq_limit h

theorem eval_fueled_meaning (fuel : Nat) (scope : Scope) (p : Parser t) :
    fueled.Actions () (p.eval fuel scope) (p.meaning scope) :=
  fueled_actions_of fun _ h => meaning_eq_eval h

end Parser

namespace Action

variable {α β : Type}

/-- Actions for growing fuel that settle everywhere. -/
def Settles (x : Nat → Action α) (y : Action α) : Prop :=
  ∀ s, Result.Settles (fun n => x n s) (y s)

/-- Repeats an occurrence until it stops matching, however long that takes. -/
noncomputable def repeated (occurrence : Action α) (values : List α) : Action (List α) := fun s =>
  limit fun fuel => occurrence.repeatFrom fuel values s

theorem repeatFrom_rising (occurrence : Action α) (values : List α) (s : State) :
    Rising fun fuel => occurrence.repeatFrom fuel values s := by
  intro n m hnm hn
  have hsame : fueled.Actions () occurrence occurrence := fueled_actions_of fun _ _ => rfl
  exact fueled_results_eq (hsame.repeatFrom hnm values () le_rfl s s rfl) hn

theorem repeatFrom_settles (occurrence : Action α) (values : List α) :
    Settles (fun fuel => occurrence.repeatFrom fuel values) (occurrence.repeated values) :=
  fun s => limit_settles (repeatFrom_rising occurrence values s)

namespace Settles

theorem wrapped {a b : Ty} (wrapper : Wrapper a b) {x : Nat → Action a.Elem} {y : Action a.Elem}
    (h : Settles x y) : Settles (fun n => (x n).wrapped wrapper) (y.wrapped wrapper) :=
  fun s => (h s).bind fun _ _ => .const _

theorem chain {x : Nat → Action α} {y : Action α} {f : Nat → α → Action β} {g : α → Action β}
    (h : Settles x y) (hf : ∀ value, Settles (fun n => f n value) (g value)) :
    Settles (fun n => (x n).chain (f n)) (y.chain g) := by
  refine fun s => (h s).bind ?_
  rintro ⟨outcome, middle⟩ -
  cases outcome with
  | failure cause => exact .const _
  | success value => exact (hf value middle).bind fun _ _ => .const _

theorem sequence {k : Nat} {x : Nat → Fin k → Action (Option α)} {y : Fin k → Action (Option α)}
    (h : ∀ i, Settles (fun n => x n i) (y i)) (start : Nat) (items : List (Fin k))
    (values : List α) :
    Settles (fun n => Action.sequence (x n) start items values)
      (Action.sequence y start items values) := by
  induction items generalizing values with
  | nil => exact fun s => .const _
  | cons i rest ih =>
    refine fun s => (h i s).bind ?_
    rintro ⟨outcome, after⟩ -
    cases outcome with
    | failure cause => exact .const _
    | success value => exact ih (collect values value) after

theorem choice {x x' : Nat → Action α} {y y' : Action α} (h : Settles x y) (h' : Settles x' y') :
    Settles (fun n => (x n).choice (x' n)) (y.choice y') := by
  refine fun s => (h s).bind ?_
  rintro ⟨outcome, after⟩ -
  cases outcome with
  | success value => exact .const _
  | failure cause =>
    by_cases hc : cause.consumed = true
    · simp only [hc, if_true]
      exact .const _
    · simp only [hc]
      exact (Result.Settles.const _).bind fun back _ => (h' back).bind fun _ _ => .const _

theorem remembered {t : Ty} (key : Key) {x : Nat → Action t.Elem} {y : Action t.Elem}
    (h : Settles x y) : Settles (fun n => (x n).remembered key) (y.remembered key) := by
  intro s
  simp only [Action.remembered]
  by_cases hm : s.cursor.memoize = true
  · simp only [hm, if_true]
    cases s.lookup key t with
    | mk found missed =>
      cases found with
      | some outcome => exact .const _
      | none => exact (h missed).bind fun _ _ => .const _
  · simp only [hm]
    exact h s

theorem repeatFrom {x : Nat → Action α} {y : Action α} (h : Settles x y) (fuel : Nat)
    (values : List α) :
    Settles (fun n => (x n).repeatFrom fuel values) (y.repeatFrom fuel values) := by
  induction fuel generalizing values with
  | zero => exact fun s => .const _
  | succ fuel ih =>
    refine fun s => (h s).bind ?_
    rintro ⟨outcome, after⟩ -
    refine (Result.Settles.const _).bind ?_
    rintro ⟨turn, after⟩ -
    cases turn with
    | again values => exact ih values after
    | stop outcome => exact .const _

/-- The fuel of a repetition and that of its occurrences may grow together. -/
theorem repeated {x : Nat → Action α} {y : Action α} (h : Settles x y)
    (hbelow : ∀ n, fueled.Actions () (x n) y) (values : List α) :
    Settles (fun n => (x n).repeatFrom n values) (y.repeated values) := by
  intro s
  by_cases hy : y.repeated values s = .timeout
  · -- no fuel ends the repetition of `y`, and `x n` never gets further than `y`
    refine ⟨0, fun n _ => ?_⟩
    rw [hy]
    by_contra hn
    have hresults := (hbelow n).repeatFrom (Nat.le_refl n) values () le_rfl s s rfl
    have hyn := fueled_results_eq hresults hn
    have hlimit := eq_limit (repeatFrom_rising y values s) (hyn.trans_ne hn)
    exact hn (hyn.symm.trans (hlimit.symm.trans hy))
  · obtain ⟨fuel, hfuel⟩ := exists_eq_limit hy
    obtain ⟨bound, hbound⟩ := h.repeatFrom fuel values s
    refine ⟨max bound fuel, fun n hn => ?_⟩
    have hx : (x n).repeatFrom fuel values s = y.repeated values s :=
      (hbound n (by omega)).trans hfuel
    have hrise := repeatFrom_rising (x n) values s fuel n (by omega) (hx.trans_ne hy)
    exact hrise.trans hx

theorem repeatFrom1 {x : Nat → Action α} {y : Action α} {f : Nat → List α → Action (List α)}
    {g : List α → Action (List α)} (h : Settles x y)
    (hf : ∀ values, Settles (fun n => f n values) (g values)) :
    Settles (fun n => (x n).repeatFrom1 (f n)) (y.repeatFrom1 g) := by
  refine fun s => (h s).bind ?_
  rintro ⟨outcome, after⟩ -
  simp only
  cases Turn.first s.position outcome after with
  | again values => exact hf values after
  | stop outcome => exact .const _

end Settles

/-- One occurrence of a repetition, and then the rest of it. -/
theorem repeated_eq (occurrence : Action α) (values : List α) (s : State) :
    occurrence.repeated values s = (do
      let (outcome, after) ← occurrence s
      let (turn, after) ← .ofExcept (Turn.next s.position values outcome after)
      match turn with
      | .again values => occurrence.repeated values after
      | .stop outcome => .done (outcome, after)) := by
  refine (repeatFrom_settles occurrence values s).succ.unique ?_
  refine (Result.Settles.const (occurrence s)).bind ?_
  rintro ⟨outcome, after⟩ -
  refine (Result.Settles.const _).bind ?_
  rintro ⟨turn, after⟩ -
  cases turn with
  | again values => exact repeatFrom_settles occurrence values after
  | stop outcome => exact .const _

section Repetition

variable {x : Action α} {s after : State} {value : α} {expected : Expectation}

/-- An occurrence that moves is kept, and the repetition goes on. -/
theorem repeated_again (hx : x s = .done (.success value, after))
    (hmoved : after.position ≠ s.position) (values : List α) :
    x.repeated values s = x.repeated (value :: values) after := by
  simp only [repeated_eq x values s, hx, done_bind, Turn.next, Turn.ofValue, if_neg hmoved,
    ofExcept_ok]

/-- An occurrence that does not move is kept and ends it. -/
theorem repeated_still (hx : x s = .done (.success value, after))
    (hstill : after.position = s.position) (values : List α) :
    x.repeated values s = .done (.success (value :: values).reverse, after) := by
  simp only [repeated_eq x values s, hx, done_bind, Turn.next, Turn.ofValue, if_pos hstill,
    ofExcept_ok]

/-- A failure that did not consume ends it where the occurrence began. -/
theorem repeated_stop {back : State} (hx : x s = .done (.fail expected, after))
    (hback : after.jumpTo s.position = .ok back) (values : List α) :
    x.repeated values s = .done (.success values.reverse, back) := by
  simp only [repeated_eq x values s, hx, done_bind, Turn.next, Outcome.fail, hback]
  rfl

/-- A failure that consumed is its outcome. -/
theorem repeated_broken (hx : x s = .done (.failure ⟨expected, true⟩, after)) (values : List α) :
    x.repeated values s = .done (.failure ⟨expected, true⟩, after) := by
  simp only [repeated_eq x values s, hx, done_bind, Turn.next, if_true, ofExcept_ok]

variable (again : List α → Action (List α))

theorem repeatFrom1_again (hx : x s = .done (.success value, after))
    (hmoved : after.position ≠ s.position) : x.repeatFrom1 again s = again [value] after := by
  simp only [repeatFrom1, hx, done_bind, Turn.first, Turn.ofValue, if_neg hmoved]

theorem repeatFrom1_still (hx : x s = .done (.success value, after))
    (hstill : after.position = s.position) :
    x.repeatFrom1 again s = .done (.success [value], after) := by
  simp only [repeatFrom1, hx, done_bind, Turn.first, Turn.ofValue, if_pos hstill]
  rfl

/-- Whatever the failure of a required occurrence is, it is the outcome. -/
theorem repeatFrom1_failure {cause : Failure} (hx : x s = .done (.failure cause, after)) :
    x.repeatFrom1 again s = .done (.failure cause, after) := by
  simp only [repeatFrom1, hx, done_bind, Turn.first]

end Repetition

end Action

namespace Parser

variable {a b t : Ty} (scope : Scope)

theorem meaning_atom (x : Atom t) : (Parser.atom x).meaning scope = Action.atom x :=
  funext fun s => (eval_settles scope (.atom x) s).succ.unique (.const _)

theorem meaning_wrap (wrapper : Wrapper a b) (p : Parser a) :
    (Parser.wrap wrapper p).meaning scope = (p.meaning scope).wrapped wrapper :=
  funext fun s => (eval_settles scope (.wrap wrapper p) s).succ.unique
    (Action.Settles.wrapped wrapper (eval_settles scope p) s)

theorem meaning_bind (p : Parser a) (captures : List Label) (next : a.Elem → Parser b) :
    (Parser.bind p captures next).meaning scope =
      (p.meaning (scope.holding captures)).chain fun value => (next value).meaning scope :=
  funext fun s => (eval_settles scope (.bind p captures next) s).succ.unique
    (Action.Settles.chain (eval_settles _ p) (fun value => eval_settles scope (next value)) s)

theorem meaning_sequence {n : Nat} (items : Fin n → Parser (.option t)) (s : State) :
    (Parser.sequence items).meaning scope s =
      Action.sequence (fun i => (items i).meaning (scope.holding (ownedItems items)))
        s.position (List.finRange n) [] s :=
  (eval_settles scope (.sequence items) s).succ.unique
    (Action.Settles.sequence (fun i => eval_settles _ (items i)) s.position (List.finRange n) [] s)

theorem meaning_choice (first second : Parser t) :
    (Parser.choice first second).meaning scope =
      (first.meaning (scope.holding second.owned)).choice (second.meaning scope) :=
  funext fun s => (eval_settles scope (.choice first second) s).succ.unique
    (Action.Settles.choice (eval_settles _ first) (eval_settles scope second) s)

theorem meaning_memo (label : Label) (p : Parser t) :
    (Parser.memo label p).meaning scope = (p.meaning scope).remembered (scope.key label) :=
  funext fun s => (eval_settles scope (.memo label p) s).succ.unique
    (Action.Settles.remembered (scope.key label) (eval_settles scope p) s)

theorem meaning_many (p : Parser t) :
    (Parser.many p).meaning scope = (p.meaning (scope.holding p.owned)).repeated [] :=
  funext fun s => (eval_settles scope (.many p) s).succ.unique
    (Action.Settles.repeated (eval_settles _ p) (fun n => eval_fueled_meaning n _ p) [] s)

theorem meaning_many1 (p : Parser t) :
    (Parser.many1 p).meaning scope =
      (p.meaning (scope.holding p.owned)).repeatFrom1
        (p.meaning (scope.holding p.owned)).repeated :=
  funext fun s => (eval_settles scope (.many1 p) s).succ.unique
    (Action.Settles.repeatFrom1 (eval_settles _ p)
      (Action.Settles.repeated (eval_settles _ p) fun n => eval_fueled_meaning n _ p) s)

theorem meaning_recursive (name : Label) (body : Parser t) :
    (Parser.recursive name body).meaning scope = body.meaning (scope.define name body) :=
  funext fun s => (eval_settles scope (.recursive name body) s).succ.unique
    (eval_settles (scope.define name body) body s)

theorem meaning_rule (name : Label) :
    (Parser.rule name : Parser t).meaning scope =
      match scope.resolve name t with
      | some (body, inner) => body.meaning inner
      | none => fun _ => .fault .ruleDropped := by
  funext s
  refine (eval_settles scope (.rule name : Parser t) s).succ.unique ?_
  simp only [eval]
  cases scope.resolve name t with
  | some found => exact eval_settles found.2 found.1 s
  | none => exact .const _

theorem meaning_fresh (level : Nat) (captures : List Label) (body : Unit → Parser t) :
    (Parser.fresh level captures body).meaning scope =
      .renewed fun generation => (body ()).meaning (scope.renew level generation) :=
  funext fun s => (eval_settles scope (.fresh level captures body) s).succ.unique
    (eval_settles (scope.renew level s.renew.1) (body ()) s.renew.2)

theorem meaning_tick (counter : Nat) (p : Parser t) :
    (Parser.tick counter p).meaning scope = fun s => p.meaning scope (s.tick counter) :=
  funext fun s => (eval_settles scope (.tick counter p) s).succ.unique
    (eval_settles scope p (s.tick counter))

end Parser

end ParserKit
