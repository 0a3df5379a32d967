import ParserKit.Proofs.Identity
import ParserKit.Proofs.Values

/-!
A sequence is bind over and over. Bound from the left, each parser goes on with the list of the
values so far; bound from the right, each puts its value in front of what the later ones
collect. The groupings settle a failure from different places: the sequence and the chain from
the left only from where the whole began, the chain from the right from where each of its
parsers began. That is the same as long as no parser goes back.
-/

namespace ParserKit

open Result

namespace Action

variable {α : Type}

/-- Runs actions in order and puts the values that are present behind those there are, latest
first. A failure is settled from where the row began. -/
def row (start : Nat) : List (Action (Option α)) → (values : List α) → Action (List α)
  | [], values, s => .done (.success values.reverse, s)
  | part :: rest, values, s => do
    match ← part s with
    | (.success value, after) => row start rest (collect values value) after
    | (.failure cause, after) => .done (after.settle start (.failure cause), after)

theorem sequence_eq_row {n : Nat} (item : Fin n → Action (Option α)) (start : Nat)
    (left : List (Fin n)) (values : List α) :
    Action.sequence item start left values = row start (left.map item) values := by
  induction left generalizing values with
  | nil => rfl
  | cons i rest ih =>
    funext s
    simp only [Action.sequence, List.map_cons, row]
    cases item i s with
    | fault cause => rfl
    | timeout => rfl
    | done result =>
      obtain ⟨outcome, after⟩ := result
      cases outcome with
      | success value => exact congrFun (ih (collect values value)) after
      | failure cause => rfl

theorem reverse_collect (values : List α) (value : Option α) :
    (collect values value).reverse = values.reverse ++ value.toList := by
  cases value with
  | none => exact (List.append_nil _).symm
  | some value => exact List.reverse_cons

/-- What a row does after a part of it is decided where that part has ended with a success. -/
theorem row_append (start : Nat) (front back : List (Action (Option α))) (values : List α)
    (s : State) :
    row start (front ++ back) values s = (do
      match ← row start front values s with
      | (.success found, middle) => row start back found.reverse middle
      | (.failure cause, after) => .done (.failure cause, after)) := by
  induction front generalizing values s with
  | nil => simp only [List.nil_append, row, done_bind, List.reverse_reverse]
  | cons part front ih =>
    simp only [List.cons_append, row]
    cases part s with
    | fault cause => rfl
    | timeout => rfl
    | done result =>
      obtain ⟨outcome, after⟩ := result
      cases outcome with
      | success value => exact ih (collect values value) after
      | failure cause => rfl

/-- Runs a part behind an action, whose values come first. -/
def appended (acc : Action (List α)) (part : Action (Option α)) : Action (List α) :=
  acc.chain fun values => part.mapped fun value => values ++ value.toList

/-- Runs a part before an action, whose values come last. -/
def prepended (part : Action (Option α)) (rest : Action (List α)) : Action (List α) :=
  part.chain fun value => rest.mapped fun values => value.toList ++ values

/-- A chain from the left goes on like a row, from where it began. -/
theorem foldl_appended (parts : List (Action (Option α))) (acc : Action (List α)) (s : State) :
    parts.foldl appended acc s = (do
      match ← acc s with
      | (.success values, middle) => row s.position parts values.reverse middle
      | (.failure cause, after) => .done (.failure cause, after)) := by
  induction parts generalizing acc with
  | nil =>
    simp only [List.foldl_nil, row]
    cases acc s with
    | fault cause => rfl
    | timeout => rfl
    | done result =>
      obtain ⟨outcome, middle⟩ := result
      cases outcome with
      | success values => simp only [done_bind, List.reverse_reverse]
      | failure cause => rfl
  | cons part rest ih =>
    rw [List.foldl_cons, ih]
    simp only [appended, chain, mapped, row]
    cases acc s with
    | fault cause => rfl
    | timeout => rfl
    | done result =>
      obtain ⟨outcome, middle⟩ := result
      cases outcome with
      | failure cause => rfl
      | success values =>
        simp only [done_bind]
        cases part middle with
        | fault cause => rfl
        | timeout => rfl
        | done result =>
          obtain ⟨outcome, after⟩ := result
          cases outcome with
          | failure cause => rfl
          | success value =>
            have hvalues : (values ++ value.toList).reverse = collect values.reverse value := by
              rw [← List.reverse_reverse (collect _ _), reverse_collect, List.reverse_reverse]
            simp only [done_bind, Outcome.map_success, State.settle, Outcome.consumedIf, hvalues]

theorem row_eq_foldl (parts : List (Action (Option α))) (s : State) :
    row s.position parts [] s = parts.foldl appended (deliver []) s := by
  rw [foldl_appended]
  rfl

theorem Fair.mapped {β : Type} {forward : Prop} {x : Action α} (h : Fair forward x) (f : α → β) :
    Fair forward (x.mapped f) := by
  intro s hs
  refine (h s hs).bind fun result hresult => .done (hresult.congr fun b hfail => ?_)
  cases houtcome : result.1 with
  | success value => exact absurd hfail (by simp [houtcome])
  | failure cause => simpa [houtcome] using hfail

theorem Fair.deliver {forward : Prop} (value : α) : Fair forward (deliver value) :=
  fun _ hs => .done (.ofSuccess value rfl hs fun _ => Nat.le_refl _)

theorem Fair.foldr_prepended {forward : Prop} {parts : List (Action (Option α))}
    (hparts : ∀ part ∈ parts, Fair forward part) :
    Fair forward (parts.foldr prepended (Action.deliver [])) := by
  induction parts with
  | nil => exact .deliver []
  | cons part rest ih =>
    obtain ⟨hpart, hrest⟩ := List.forall_mem_cons.1 hparts
    exact hpart.chain fun _ => (ih hrest).mapped _

/-- Parts that never go back fail away from where the row began whenever they fail away from a
later place, so it does not matter that the chain from the right settles them there, too. -/
theorem row_eq_settled_foldr {parts : List (Action (Option α))}
    (hparts : ∀ part ∈ parts, Fair True part) {start : Nat} (values : List α) {s : State}
    (hs : s.Sound True) (hstart : start ≤ s.position) :
    row start parts values s = (do
      let (outcome, after) ← parts.foldr prepended (deliver []) s
      .done (after.settle start (outcome.map (values.reverse ++ ·)), after)) := by
  induction parts generalizing values s with
  | nil => simp [row, deliver, State.settle, Outcome.consumedIf]
  | cons part rest ih =>
    obtain ⟨hpart, hrest⟩ := List.forall_mem_cons.1 hparts
    simp only [row, List.foldr_cons, prepended, chain, mapped]
    cases hfirst : part s with
    | fault cause => rfl
    | timeout => rfl
    | done result =>
      obtain ⟨outcome, middle⟩ := result
      cases outcome with
      | failure cause => rfl
      | success value =>
        have hmiddle := hpart s hs _ hfirst
        have hahead : s.position ≤ middle.position := hmiddle.honest.ahead trivial
        have hlater := ih hrest (collect values value) hmiddle.sound (Nat.le_trans hstart hahead)
        simp only [done_bind, hlater]
        cases hsecond : rest.foldr prepended (deliver []) middle with
        | fault cause => rfl
        | timeout => rfl
        | done result =>
          obtain ⟨outcome, after⟩ := result
          cases outcome with
          | success found =>
            simp [State.settle, Outcome.consumedIf, reverse_collect]
          | failure cause =>
            have hafter := Fair.foldr_prepended hrest middle hmiddle.sound _ hsecond
            have hlate : middle.position ≤ after.position := hafter.honest.ahead trivial
            have hflag : (cause.consumed || after.position != start) =
                ((cause.consumed || after.position != s.position) || after.position != start) :=
              consumed_settled_twice (by omega)
            simp only [done_bind, Outcome.map_failure, State.settle, Outcome.consumedIf, hflag]

theorem row_eq_foldr {parts : List (Action (Option α))} (hparts : ∀ part ∈ parts, Fair True part)
    {s : State} (hs : s.Sound True) :
    row s.position parts [] s = parts.foldr prepended (deliver []) s := by
  rw [row_eq_settled_foldr hparts [] hs (Nat.le_refl _)]
  cases hresult : parts.foldr prepended (deliver []) s with
  | fault cause => rfl
  | timeout => rfl
  | done result =>
    obtain ⟨outcome, after⟩ := result
    have hreached := Fair.foldr_prepended hparts s hs _ hresult
    have hsame : outcome.map (([] : List α).reverse ++ ·) = outcome := by cases outcome <;> rfl
    have hsettled : after.settle s.position outcome = outcome := hreached.honest.consumedIf_eq
    simp only [done_bind, hsame, hsettled]

end Action

namespace Parser

variable {t : Ty}

/-- The parsers bound one after the other to the list of the values so far. -/
def boundLeft (items : List (Parser (.option t))) : Parser (.list t) :=
  items.foldl (fun acc p => .bind acc p.owned fun values =>
    p.map (b := .list t) fun value => values ++ value.toList) (ret (t := .list t) [])

/-- Each parser bound to the later ones, whose values come behind its own. -/
def boundRight : List (Parser (.option t)) → Parser (.list t)
  | [] => ret (t := .list t) []
  | p :: rest => .bind p (boundRight rest).owned fun value =>
    (boundRight rest).map (b := .list t) fun values => value.toList ++ values

variable {scope : Scope}

theorem meaning_sequenceAll (h : scope.generations = []) (items : List (Parser (.option t)))
    (s : State) :
    (sequenceAll items.toArray).meaning scope s =
      Action.row s.position (items.map fun p => p.meaning scope) [] s := by
  have hitems : (List.finRange items.toArray.size).map (fun i => (items.toArray[i]).meaning scope) =
      items.map fun p => p.meaning scope :=
    List.ext_getElem (by simp) fun i _ _ => by simp
  simp only [sequenceAll, meaning_sequence, meaning_holding _ h]
  rw [Action.sequence_eq_row, hitems]

theorem meaning_boundLeft (h : scope.generations = []) (items : List (Parser (.option t))) :
    (boundLeft items).meaning scope =
      (items.map fun p => p.meaning scope).foldl Action.appended (Action.deliver []) := by
  rw [boundLeft, ← meaning_ret scope (a := .list t) []]
  generalize ret (t := .list t) [] = acc
  induction items generalizing acc with
  | nil => rfl
  | cons p rest ih =>
    rw [List.foldl_cons, ih, List.map_cons, List.foldl_cons, meaning_bind, meaning_holding _ h]
    simp only [meaning_map]
    rfl

theorem meaning_boundRight (h : scope.generations = []) (items : List (Parser (.option t))) :
    (boundRight items).meaning scope =
      (items.map fun p => p.meaning scope).foldr Action.prepended (Action.deliver []) := by
  induction items with
  | nil => exact meaning_ret (a := .list t) scope []
  | cons p rest ih =>
    rw [boundRight, meaning_bind, meaning_holding _ h]
    simp only [meaning_map, ih]
    rfl

/-- A sequence is bind over and over. It does what the chain from the left does, whatever its
parsers are, and what the chain from the right does, if none of them is hand-written or jumps.
Where it comes to an end without a success, no parser behind it is run: the sequence that goes
on with others ends in the same way and in the same final state. -/
theorem sequence_eq_iterated_bind (items : List (Parser (.option t))) (input : Array Char)
    (memoize : Bool) (start : Nat) (e : Except Fault (Outcome (List t.Elem) × State)) :
    ((sequenceAll items.toArray).Ends (.startAt input memoize start) e ↔
      (boundLeft items).Ends (.startAt input memoize start) e) ∧
    ((∀ p ∈ items, p.All fun _ x => x.Forward) → start ≤ input.size →
      ((sequenceAll items.toArray).Ends (.startAt input memoize start) e ↔
        (boundRight items).Ends (.startAt input memoize start) e)) ∧
    ∀ back, (∀ values final, ¬ (sequenceAll items.toArray).Ends (.startAt input memoize start)
        (.ok (.success values, final))) →
      ((sequenceAll (items ++ back).toArray).Ends (.startAt input memoize start) e ↔
        (sequenceAll items.toArray).Ends (.startAt input memoize start) e) := by
  have hroot : Scope.root.generations = [] := rfl
  simp only [ends_iff, meaning_sequenceAll hroot]
  refine ⟨?_, fun hforward hstart => ?_, fun back hsuccess => ?_⟩
  · rw [meaning_boundLeft hroot, Action.row_eq_foldl]
  · have hparts : ∀ part ∈ items.map fun p => p.meaning Scope.root, Action.Fair True part := by
      intro part hpart
      obtain ⟨p, hp, rfl⟩ := List.mem_map.1 hpart
      exact meaning_fair (fun _ _ => Atom.Forward.fair) _ p (Scope.root_all _) (hforward p hp)
    rw [meaning_boundRight hroot, Action.row_eq_foldr hparts (State.startAt_sound _ _ hstart)]
  · rw [List.map_append, Action.row_append]
    generalize Action.row (State.position _) (items.map fun p => p.meaning Scope.root) [] _ = result
      at hsuccess ⊢
    cases result with
    | fault cause => rfl
    | timeout => rfl
    | done ended =>
      obtain ⟨outcome, after⟩ := ended
      cases outcome with
      | success values => exact absurd rfl (hsuccess values after)
      | failure cause => rfl

/-- A character that is remembered, nothing, and another character. -/
def twoLetters : List (Parser (.option .char)) :=
  [(Parser.memo ⟨0, 0⟩ (.atom (.char 'a'))).map (b := .option .char) some, absent,
    map (a := .char) (b := .option .char) (.atom (.char 'b')) some]

theorem twoLetters_forward : ∀ p ∈ twoLetters, p.All fun _ x => x.Forward := by
  simp [twoLetters, Parser.All, map, absent, ret, Atom.Forward]

/-- Where the second character is missing, a counter behind it does not tick. -/
theorem sequence_eq_iterated_bind_missing :
    (∀ p ∈ twoLetters, p.All fun _ x => x.Forward) ∧ 1 ≤ #['x', 'a', 'c'].size ∧
      (∀ values final, ¬ (sequenceAll twoLetters.toArray).Ends (.startAt #['x', 'a', 'c'] false 1)
        (.ok (.success values, final))) ∧
      (boundLeft twoLetters).Ends (.startAt #['x', 'a', 'c'] false 1)
        (.ok (.failure ⟨.positioned "b" 2, true⟩, .startAt #['x', 'a', 'c'] false 2)) ∧
      (boundRight twoLetters).Ends (.startAt #['x', 'a', 'c'] false 1)
        (.ok (.failure ⟨.positioned "b" 2, true⟩, .startAt #['x', 'a', 'c'] false 2)) ∧
      (sequenceAll (twoLetters ++ [Parser.tick 0 (absent (t := .char))]).toArray).Ends
        (.startAt #['x', 'a', 'c'] false 1)
        (.ok (.failure ⟨.positioned "b" 2, true⟩, .startAt #['x', 'a', 'c'] false 2)) := by
  have hends : (sequenceAll twoLetters.toArray).Ends (.startAt #['x', 'a', 'c'] false 1)
      (.ok (.failure ⟨.positioned "b" 2, true⟩, .startAt #['x', 'a', 'c'] false 2)) :=
    ⟨20, _, _, rfl, rfl⟩
  have hfails : ∀ values final, ¬ (sequenceAll twoLetters.toArray).Ends
      (.startAt #['x', 'a', 'c'] false 1) (.ok (.success values, final)) := by
    intro values final hsuccess
    have hsame := ((ends_iff _ _ _).1 hends).symm.trans ((ends_iff _ _ _).1 hsuccess)
    exact absurd hsame (by simp)
  obtain ⟨hleft, hright, hback⟩ := sequence_eq_iterated_bind twoLetters #['x', 'a', 'c'] false 1
    (.ok (.failure ⟨.positioned "b" 2, true⟩, .startAt #['x', 'a', 'c'] false 2))
  exact ⟨twoLetters_forward, by decide, hfails, hleft.1 hends,
    (hright twoLetters_forward (by decide)).1 hends, (hback [.tick 0 absent] hfails).2 hends⟩

end Parser

end ParserKit
