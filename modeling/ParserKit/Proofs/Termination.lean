import ParserKit.Parser.Combine
import ParserKit.Proofs.Agreement
import ParserKit.Proofs.Consumption

/-!
Grammars with guarded recursion end on every input. A rule is guarded when every
reference inside its definition comes after a parser that moves, so that less of the
input is left each time the rule comes round again. Repetitions need no guard: an
occurrence that does not move ends them. A rule that is assembled anew whenever it
runs is one whose definition begins a generation.

The measure is lexicographic: what is left of the input, then whether references are
in reach at all, then the structure of the parser. It needs that a parser without
jumps never moves back.
-/

namespace ParserKit

open Machine

namespace Result

variable {α β : Type}

theorem bind_ne_timeout {x : Result α} {f : α → Result β} (hx : x ≠ .timeout)
    (hf : ∀ a, x = .done a → f a ≠ .timeout) : (x >>= f) ≠ .timeout := by
  cases x with
  | done a => exact hf a rfl
  | fault cause => simp
  | timeout => exact absurd rfl hx

end Result

namespace Machine

variable {r : Ty} {origin m m' : Machine r}

/-- The run from `origin` comes to the state `m`. -/
def Reaches (origin m : Machine r) : Prop :=
  ∃ n, Steps step n origin m

namespace Reaches

theorem next (h : origin.Reaches m) (hm : m.step = .next m') : origin.Reaches m' := by
  obtain ⟨n, hsteps⟩ := h
  exact ⟨n + 1, hsteps.trans (.head hm (.refl m'))⟩

/-- When a part has its outcome, the frame above the stack goes on with it. -/
theorem leave {a b : Ty} {p : Parser a} {scope : Scope} {frame : Frame a b} {stack : Stack b r}
    {s after : State} {outcome : Outcome a.Elem}
    (h : origin.Reaches ⟨.run p scope (.push frame stack), s⟩)
    (hdone : p.meaning scope s = .done (outcome, after)) :
    origin.Reaches (leave frame outcome stack after) := by
  obtain ⟨fuel, hfuel⟩ := Parser.exists_eval_eq_meaning (hdone.trans_ne (by simp))
  have htracks := tracks_eval fuel p scope (.push frame stack) s
  rw [hfuel, hdone] at htracks
  obtain ⟨k, hk⟩ := htracks
  obtain ⟨n, hn⟩ := h
  have hresume : origin.Reaches ⟨.resume outcome (.push frame stack), after⟩ := ⟨n + k, hn.trans hk⟩
  exact hresume.next rfl

end Reaches

end Machine

namespace Parser

variable {r t : Ty}

/-- Whenever the run comes to the parser and the parser succeeds, it has moved on. -/
def MovesIn (origin : Machine r) (p : Parser t) : Prop :=
  ∀ (scope : Scope) (stack : Stack t r) (s : State) (value : t.Elem) (final : State),
    origin.Reaches ⟨.run p scope stack, s⟩ → p.meaning scope s = .done (.success value, final) →
      s.position < final.position

/-- References to rules come only after parsers that move. Where `moved` holds the cursor
has moved since the definition began; a definition begins anew. -/
def Guarded (moves : ∀ t, Parser t → Prop) : (moved : Prop) → {t : Ty} → Parser t → Prop
  | _, _, .atom _ => True
  | moved, _, .wrap _ p => p.Guarded moves moved
  | moved, _, .bind p _ next =>
    p.Guarded moves moved ∧ ∀ value, (next value).Guarded moves (moved ∨ moves _ p)
  | moved, _, .sequence items =>
    ∀ i, (items i).Guarded moves (moved ∨ ∃ j < i, moves _ (items j))
  | moved, _, .choice first second => first.Guarded moves moved ∧ second.Guarded moves moved
  | moved, _, .memo _ p => p.Guarded moves moved
  | moved, _, .many p => p.Guarded moves moved
  | moved, _, .many1 p => p.Guarded moves moved
  | _, _, .recursive _ body => body.Guarded moves False
  | moved, _, .rule _ => moved
  | moved, _, .fresh _ _ body => (body ()).Guarded moves moved
  | moved, _, .tick _ p => p.Guarded moves moved

/-- No reference to a rule anywhere, not even in the parsers that functions make. -/
def RuleFree : {t : Ty} → Parser t → Prop
  | _, .atom _ => True
  | _, .wrap _ p => p.RuleFree
  | _, .bind p _ next => p.RuleFree ∧ ∀ value, (next value).RuleFree
  | _, .sequence items => ∀ i, (items i).RuleFree
  | _, .choice first second => first.RuleFree ∧ second.RuleFree
  | _, .memo _ p => p.RuleFree
  | _, .many p => p.RuleFree
  | _, .many1 p => p.RuleFree
  | _, .recursive _ body => body.RuleFree
  | _, .rule _ => False
  | _, .fresh _ _ body => (body ()).RuleFree
  | _, .tick _ p => p.RuleFree

theorem RuleFree.guarded {moves : ∀ t, Parser t → Prop} {moved : Prop} {p : Parser t}
    (h : p.RuleFree) : p.Guarded moves moved := by
  induction p generalizing moved with
  | atom a => trivial
  | wrap wrapper p ih => exact ih h
  | bind p captures next ihp ihnext => exact ⟨ihp h.1, fun value => ihnext value (h.2 value)⟩
  | sequence items ih => exact fun i => ih i (h i)
  | choice first second ihfirst ihsecond => exact ⟨ihfirst h.1, ihsecond h.2⟩
  | memo label p ih => exact ih h
  | many p ih => exact ih h
  | many1 p ih => exact ih h
  | recursive name body ih => exact ih h
  | rule name => exact absurd h id
  | fresh level captures body ih => exact ih () h
  | tick counter p ih => exact ih h

end Parser

/-- The number of characters that are left. -/
def State.left (s : State) : Nat :=
  s.cursor.input.size - s.position

/-- All rules in scope are guarded and never move back. -/
structure Scope.Grounded {r : Ty} (origin : Machine r) (scope : Scope) : Prop where
  forward : scope.All fun _ a => a.Forward
  guarded : ∀ rule ∈ scope.rules, rule.body.Guarded (fun _ => Parser.MovesIn origin) False

namespace Scope.Grounded

variable {r : Ty} {origin : Machine r} {scope : Scope}

theorem define (h : scope.Grounded origin) {t : Ty} (name : Label) {body : Parser t}
    (hbody : body.All fun _ a => a.Forward)
    (hguarded : body.Guarded (fun _ => Parser.MovesIn origin) False) :
    (scope.define name body).Grounded origin :=
  ⟨List.forall_mem_cons.2 ⟨hbody, h.forward⟩, List.forall_mem_cons.2 ⟨hguarded, h.guarded⟩⟩

theorem resolve (h : scope.Grounded origin) {name : Label} {t : Ty} {body : Parser t}
    {inner : Scope} (hfound : scope.resolve name t = some (body, inner)) :
    (body.All fun _ a => a.Forward) ∧ body.Guarded (fun _ => Parser.MovesIn origin) False ∧
      inner.Grounded origin := by
  obtain ⟨hforward, hforward'⟩ := Scope.forall_of_resolve h.forward hfound
  obtain ⟨hguarded, hguarded'⟩ := Scope.forall_of_resolve h.guarded hfound
  exact ⟨hforward, hguarded, hforward', hguarded'⟩

theorem root : Scope.root.Grounded origin :=
  ⟨Scope.root_all _, fun rule hrule => absurd hrule (by simp [Scope.root])⟩

end Scope.Grounded

namespace Parser

variable {r : Ty} {origin : Machine r}

/-- Where the run comes to a guarded definition with at most `n` characters left, it
comes to its end. -/
def DefinitionsEnd (origin : Machine r) (n : Nat) : Prop :=
  ∀ (t : Ty) (body : Parser t) (scope : Scope) (stack : Stack t r) (s : State),
    (body.All fun _ a => a.Forward) → body.Guarded (fun _ => MovesIn origin) False →
    scope.Grounded origin → origin.Reaches ⟨.run body scope stack, s⟩ → s.Sound True →
    s.left ≤ n → body.meaning scope s ≠ .timeout

/-- A run may stand at `s`: definitions end once something is read from there, and where
references are in reach they end at once. -/
structure Ready (origin : Machine r) (moved : Prop) (s : State) : Prop where
  below : ∀ n < s.left, DefinitionsEnd origin n
  here : moved → DefinitionsEnd origin s.left

theorem DefinitionsEnd.mono {n k : Nat} (h : DefinitionsEnd origin n) (hk : k ≤ n) :
    DefinitionsEnd origin k :=
  fun t body scope stack s hbody hguarded hscope hreach hs hleft =>
    h t body scope stack s hbody hguarded hscope hreach hs (Nat.le_trans hleft hk)

theorem Ready.after {moved moved' : Prop} {s after : State} (h : Ready origin moved s)
    (hleft : after.left ≤ s.left) (hmoved : moved' → moved ∨ after.left < s.left) :
    Ready origin moved' after := by
  refine ⟨fun n hn => h.below n (by omega), fun hmoved' => ?_⟩
  rcases hmoved hmoved' with hbefore | hless
  · exact (h.here hbefore).mono hleft
  · exact h.below _ hless

end Parser

theorem Atom.readChar_moves {x value : Char} {c after : Cursor}
    (h : readChar x c = .ok (.success value, after)) : c.position < after.position := by
  simp only [readChar, bind, Except.bind] at h
  split at h
  · exact absurd h (by simp)
  · rename_i found hpeek
    split at h
    · rename_i hx
      split at h
      · exact absurd h (by simp)
      · rename_i hadvance
        obtain ⟨-, rfl⟩ := Prod.mk.inj (Except.ok.inj h)
        have hlt := Cursor.position_lt_of_peek (hx ▸ hpeek)
        have hafter := Cursor.advance_eq_ok hadvance
        omega
    · obtain ⟨hfail, -⟩ := Prod.mk.inj (Except.ok.inj h)
      exact absurd hfail (by simp [Outcome.fail])

/-- A repetition goes on only after an occurrence that succeeded and moved. -/
theorem Turn.eq_of_next_again {α : Type} {before : Nat} {values more : List α} {outcome : Outcome α}
    {s final : State} (h : Turn.next before values outcome s = .ok (.again more, final)) :
    ∃ value, outcome = .success value ∧ s.position ≠ before ∧ more = value :: values ∧
      final = s := by
  cases outcome with
  | failure cause =>
    simp only [Turn.next] at h
    split at h
    · simp at h
    · obtain ⟨back, -, hpair⟩ := Except.exists_of_map_eq_ok h
      simp at hpair
  | success value =>
    simp only [Turn.next, Turn.ofValue, Except.ok.injEq, Prod.mk.injEq] at h
    obtain ⟨hturn, rfl⟩ := h
    split at hturn
    · simp at hturn
    · exact ⟨value, rfl, ‹_›, (Turn.again.inj hturn).symm, rfl⟩

namespace Reached

variable {α : Type} {s : State} {result : Outcome α × State}

theorem left_le (h : Reached True s.cursor.input s.position result) : result.2.left ≤ s.left := by
  have hahead := h.honest.ahead trivial
  simp only [State.left, h.input_eq]
  omega

theorem left_lt (h : Reached True s.cursor.input s.position result)
    (hmoved : s.position < result.2.position) : result.2.left < s.left := by
  have hwithin := h.honest.within
  simp only [State.left, h.input_eq]
  omega

end Reached

namespace Parser

variable {r t : Ty} {origin : Machine r} {scope : Scope}

/-- A run of a parser that does not move back. -/
theorem reached {p : Parser t} (hp : p.All fun _ a => a.Forward) (hscope : scope.Grounded origin)
    {s : State} (hs : s.Sound True) {result : Outcome t.Elem × State}
    (hdone : p.meaning scope s = .done result) :
    Reached True s.cursor.input s.position result :=
  meaning_fair (fun _ _ => Atom.Forward.fair) scope p hscope.forward hp s hs result hdone

theorem atom_ends (x : Atom t) (s : State) : Action.atom x s ≠ .timeout := by
  refine Result.bind_ne_timeout (Result.ofExcept_ne_timeout _) ?_
  rintro ⟨outcome, after⟩ -
  cases outcome with
  | none => simp
  | some outcome => simp

/-- A repetition ends if its occurrences do: each of them but the last leaves less. -/
theorem repeated_ends {p : Parser t} (hp : p.All fun _ a => a.Forward)
    (hscope : scope.Grounded origin) {stack : Stack (.list t) r} {bound : Nat}
    (hends : ∀ (before : Nat) (values : List t.Elem) (s : State),
      origin.Reaches ⟨.run p scope (.push (.turn before p values scope) stack), s⟩ →
      s.Sound True → s.left ≤ bound → p.meaning scope s ≠ .timeout)
    (values : List t.Elem) {s : State}
    (hreach : origin.Reaches (nextTurn p values scope stack s)) (hs : s.Sound True)
    (hleft : s.left ≤ bound) : (p.meaning scope).repeated values s ≠ .timeout := by
  induction hn : s.left using Nat.strongRecOn generalizing values s with
  | ind n ih =>
    rw [Action.repeated_eq]
    refine Result.bind_ne_timeout (hends s.position values s hreach hs hleft) ?_
    rintro ⟨outcome, after⟩ hdone
    have hreached := reached hp hscope hs hdone
    have hleave := hreach.leave hdone
    refine Result.bind_ne_timeout (Result.ofExcept_ne_timeout _) ?_
    rintro ⟨turn, final⟩ hturn
    cases turn with
    | stop outcome => simp
    | again more =>
      have hnext := Result.ofExcept_eq_done hturn
      obtain ⟨value, rfl, haway, rfl, rfl⟩ := Turn.eq_of_next_again hnext
      have hahead : s.position ≤ final.position := hreached.honest.ahead trivial
      have hless : final.left < s.left := hreached.left_lt (by simp only; omega)
      simp only [leave, hnext, Machine.ofExcept] at hleave
      exact ih final.left (by omega) (value :: values) hleave hreached.sound (by omega) rfl

/-- The items of a sequence end one after the other. Those that are not left to run have
succeeded, and if one of them moves, less is left than at the start `s₀`. -/
theorem sequence_ends {k : Nat} {items : Fin k → Parser (.option t)} {moved : Prop} {s₀ : State}
    (hp : ∀ i, (items i).All fun _ a => a.Forward) (hscope : scope.Grounded origin)
    (hready : Ready origin moved s₀) {start : Nat} {stack : Stack (.list t) r}
    (hends : ∀ (i : Fin k) (rest : List (Fin k)) (values : List t.Elem) (s : State),
      origin.Reaches ⟨.run (items i) scope (.push (.item start items rest values scope) stack), s⟩ →
      s.Sound True → Ready origin (moved ∨ ∃ j < i, MovesIn origin (items j)) s →
      (items i).meaning scope s ≠ .timeout)
    (rest : List (Fin k)) (hsorted : rest.Pairwise (· < ·)) (values : List t.Elem) {s : State}
    (hpassed : ∀ j, j ∉ rest → MovesIn origin (items j) → s.left < s₀.left)
    (hleft : s.left ≤ s₀.left)
    (hreach : origin.Reaches (nextItem start items rest values scope stack s)) (hs : s.Sound True) :
    Action.sequence (fun i => (items i).meaning scope) start rest values s ≠ .timeout := by
  induction rest generalizing values s with
  | nil => simp [Action.sequence]
  | cons i rest ih =>
    obtain ⟨hfirst, hrest⟩ := List.pairwise_cons.1 hsorted
    have hready' : Ready origin (moved ∨ ∃ j < i, MovesIn origin (items j)) s := by
      refine hready.after hleft fun hmoved => hmoved.imp_right ?_
      rintro ⟨j, hj, hmoves⟩
      refine hpassed j (fun hmem => ?_) hmoves
      rcases List.mem_cons.1 hmem with rfl | hmem
      · exact absurd hj (Nat.lt_irrefl _)
      · exact absurd hj (Nat.lt_asymm (hfirst j hmem))
    refine Result.bind_ne_timeout (hends i rest values s hreach hs hready') ?_
    rintro ⟨outcome, after⟩ hdone
    have hreached := reached (hp i) hscope hs hdone
    have hless : after.left ≤ s.left := hreached.left_le
    cases outcome with
    | failure cause => simp
    | success value =>
      refine ih hrest (collect values value) (fun j hj hmoves => ?_) (by omega)
        (hreach.leave hdone) hreached.sound
      by_cases hji : j = i
      · subst hji
        have hstrict : after.left < s.left :=
          hreached.left_lt (hmoves _ _ s value after hreach hdone)
        omega
      · have hbefore := hpassed j (by simp [hji, hj]) hmoves
        omega

/-- A guarded parser ends wherever the run comes to it, as long as definitions end where
less is left. -/
theorem Guarded.ends {p : Parser t} {moved : Prop} (hp : p.All fun _ a => a.Forward)
    (hguarded : p.Guarded (fun _ => MovesIn origin) moved) (hscope : scope.Grounded origin)
    {stack : Stack t r} {s : State} (hreach : origin.Reaches ⟨.run p scope stack, s⟩)
    (hs : s.Sound True) (hready : Ready origin moved s) : p.meaning scope s ≠ .timeout := by
  induction p generalizing moved scope s with
  | atom x =>
    rw [meaning_atom]
    exact atom_ends x s
  | wrap wrapper p ih =>
    rw [meaning_wrap]
    refine Result.bind_ne_timeout (ih hp hguarded hscope (hreach.next rfl) hs hready) ?_
    exact fun _ _ => Result.ofExcept_ne_timeout _
  | bind p captures next ihp ihnext =>
    rw [meaning_bind]
    have hpart := hreach.next rfl
    have hscope' : (scope.holding captures).Grounded origin := ⟨hscope.forward, hscope.guarded⟩
    refine Result.bind_ne_timeout (ihp hp.1 hguarded.1 hscope' hpart hs hready) ?_
    rintro ⟨outcome, middle⟩ hdone
    cases outcome with
    | failure cause => simp
    | success value =>
      have hreached := reached hp.1 hscope' hs hdone
      have hmiddle : Ready origin (moved ∨ MovesIn origin p) middle := by
        refine hready.after hreached.left_le fun hmoved => hmoved.imp_right fun hmoves => ?_
        exact hreached.left_lt (hmoves _ _ s value middle hpart hdone)
      refine Result.bind_ne_timeout ?_ (fun _ _ => by simp)
      exact ihnext value (hp.2 value) (hguarded.2 value) hscope (hpart.leave hdone) hreached.sound
        hmiddle
  | sequence items ih =>
    rw [meaning_sequence]
    have hscope' : (scope.holding (ownedItems items)).Grounded origin :=
      ⟨hscope.forward, hscope.guarded⟩
    refine sequence_ends hp hscope' hready (fun i rest values s' hitem hs' hready' => ?_) _
      (List.pairwise_lt_finRange _) [] (fun j hj => absurd (List.mem_finRange j) hj) (Nat.le_refl _)
      (hreach.next rfl) hs
    exact ih i (hp i) (hguarded i) hscope' hitem hs' hready'
  | choice first second ihfirst ihsecond =>
    rw [meaning_choice]
    have hpart := hreach.next rfl
    have hscope' : (scope.holding second.owned).Grounded origin := ⟨hscope.forward, hscope.guarded⟩
    refine Result.bind_ne_timeout (ihfirst hp.1 hguarded.1 hscope' hpart hs hready) ?_
    rintro ⟨outcome, after⟩ hdone
    cases outcome with
    | success value => simp
    | failure cause =>
      have hreached := reached hp.1 hscope' hs hdone
      have hleave := hpart.leave hdone
      by_cases hc : cause.consumed = true
      · simp [hc]
      · have hinput : after.cursor.input = s.cursor.input := hreached.input_eq
        have hstart : s.position ≤ after.cursor.input.size := hinput ▸ hs.within
        have hleft : (after.movedTo s.position).left = s.left := by
          simp only [State.left, State.movedTo, Cursor.movedTo, hinput, State.position]
        simp only [leave, hc, Bool.false_eq_true, State.jumpTo_eq, hstart, if_true, if_false,
          Machine.ofExcept] at hleave
        simp only [hc, Bool.false_eq_true, State.jumpTo_eq, hstart, if_true, if_false,
          Result.ofExcept_ok, Result.done_bind]
        refine Result.bind_ne_timeout ?_ fun _ _ => by simp
        exact ihsecond hp.2 hguarded.2 hscope hleave (hreached.sound.movedTo hstart)
          (hready.after (Nat.le_of_eq hleft) .inl)
  | @memo t label p ih =>
    rw [meaning_memo]
    by_cases hm : s.cursor.memoize = true
    · rcases State.lookup_cases hm (scope.key label) t with ⟨outcome, _, -, hlookup⟩ | hlookup
      · simp [Action.remembered, hm, hlookup]
      · have hpart : step ⟨.run (.memo label p) scope stack, s⟩ = .next ⟨.run p scope
            (.push (.memo (scope.key label) s.position) stack), s.missed⟩ := by
          simp only [step, enter, hm, if_true, hlookup]
        simp only [Action.remembered, hm, if_true, hlookup]
        refine Result.bind_ne_timeout ?_ fun _ _ => by simp
        exact ih hp hguarded hscope (hreach.next hpart) ⟨hs.within, hs.remembered⟩
          (hready.after (Nat.le_refl _) .inl)
    · have hpart : step ⟨.run (.memo label p) scope stack, s⟩ = .next ⟨.run p scope stack, s⟩ := by
        simp only [step, enter, hm, Bool.false_eq_true, if_false]
      simp only [Action.remembered, hm, Bool.false_eq_true, if_false]
      exact ih hp hguarded hscope (hreach.next hpart) hs hready
  | many p ih =>
    rw [meaning_many]
    have hscope' : (scope.holding p.owned).Grounded origin := ⟨hscope.forward, hscope.guarded⟩
    have hstart : origin.Reaches (nextTurn p [] (scope.holding p.owned) stack s) := hreach.next rfl
    refine repeated_ends (p := p) hp hscope' (fun before values s' hturn hs' hleft => ?_) [] hstart
      hs (Nat.le_refl _)
    exact ih hp hguarded hscope' hturn hs' (hready.after hleft .inl)
  | many1 p ih =>
    rw [meaning_many1]
    have hpart := hreach.next rfl
    have hscope' : (scope.holding p.owned).Grounded origin := ⟨hscope.forward, hscope.guarded⟩
    refine Result.bind_ne_timeout (ih hp hguarded hscope' hpart hs hready) ?_
    rintro ⟨outcome, after⟩ hdone
    have hreached := reached (p := p) hp hscope' hs hdone
    have hleave := hpart.leave hdone
    simp only [leave] at hleave
    simp only
    cases hturn : Turn.first s.position outcome after with
    | stop outcome => simp
    | again values =>
      rw [hturn] at hleave
      refine repeated_ends (p := p) hp hscope' (fun before values s' hturn hs' hleft => ?_) values
        hleave hreached.sound hreached.left_le
      exact ih hp hguarded hscope' hturn hs' (hready.after hleft .inl)
  | recursive name body ih =>
    rw [meaning_recursive]
    have hbody : body.All fun _ a => a.Forward := hp
    refine ih hbody hguarded (hscope.define name hbody hguarded) (hreach.next rfl) hs ?_
    exact hready.after (Nat.le_refl _) False.elim
  | rule name =>
    rw [meaning_rule]
    cases hfound : scope.resolve name _ with
    | none => simp
    | some found =>
      obtain ⟨body, inner⟩ := found
      obtain ⟨hbody, hguarded', hinner⟩ := hscope.resolve hfound
      have hstart : step ⟨.run (.rule name) scope stack, s⟩ = .next ⟨.run body inner stack, s⟩ := by
        simp only [step, enter, hfound]
      exact hready.here hguarded _ body inner stack s hbody hguarded' hinner (hreach.next hstart) hs
        (Nat.le_refl _)
  | fresh level captures body ih =>
    rw [meaning_fresh]
    have hscope' : (scope.renew level s.renew.1).Grounded origin := ⟨hscope.forward, hscope.guarded⟩
    exact ih () hp hguarded hscope' (s := s.renew.2) (hreach.next rfl)
      ⟨hs.within, hs.remembered⟩ (hready.after (Nat.le_refl _) .inl)
  | tick counter p ih =>
    rw [meaning_tick]
    exact ih hp hguarded hscope (hreach.next rfl) ⟨hs.within, hs.remembered⟩
      (hready.after (Nat.le_refl _) .inl)

/-- A definition either moves before it refers to a rule or is done, so definitions end
however much is left. -/
theorem definitionsEnd (origin : Machine r) (n : Nat) : DefinitionsEnd origin n := by
  induction n using Nat.strongRecOn with
  | ind n ih =>
    intro t body scope stack s hbody hguarded hscope hreach hs hleft
    exact hguarded.ends hbody hscope hreach hs ⟨fun k hk => ih k (by omega), False.elim⟩

theorem movesIn_char (x : Char) : MovesIn origin (.atom (.char x)) := by
  intro scope stack s value final _ hdone
  rw [meaning_atom] at hdone
  obtain ⟨⟨found, after⟩, hread, hfound⟩ := Result.bind_eq_done hdone
  obtain ⟨⟨found, cursor⟩, hcursor, hpair⟩ :=
    Except.exists_of_map_eq_ok (Result.ofExcept_eq_done hread)
  obtain ⟨rfl, rfl⟩ := Prod.mk.inj hpair
  obtain ⟨⟨outcome, next⟩, hchar, hnext⟩ := Except.exists_of_map_eq_ok hcursor
  obtain ⟨rfl, rfl⟩ := Prod.mk.inj hnext
  obtain ⟨rfl, rfl⟩ := Prod.mk.inj (Result.done.inj hfound)
  exact Atom.readChar_moves hchar

/-- Grammars with guarded recursion end. Take a grammar without jumps and hand-written
parsers. If in every definition the references to rules come only after parsers that move
whenever they succeed in the run, then the run ends, wherever it begins; and so does
every run of a grammar without references, however its repetitions are nested. -/
theorem guarded_ends (p : Parser t) (hp : p.All fun _ a => a.Forward) (input : Array Char)
    (memoize : Bool) (start : Nat) (hstart : start ≤ input.size) :
    (p.Guarded (fun _ => MovesIn (Machine.start p (.startAt input memoize start))) True →
      ∃ e, p.Ends (.startAt input memoize start) e) ∧
    (p.RuleFree → ∃ e, p.Ends (.startAt input memoize start) e) := by
  have hends : p.Guarded (fun _ => MovesIn (Machine.start p (.startAt input memoize start))) True →
      ∃ e, p.Ends (.startAt input memoize start) e := by
    intro hguarded
    have hne := hguarded.ends hp .root ⟨0, .refl _⟩ (State.startAt_sound input memoize hstart)
      ⟨fun n _ => definitionsEnd _ n, fun _ => definitionsEnd _ _⟩
    cases hmeaning : p.meaning Scope.root (.startAt input memoize start) with
    | timeout => exact absurd hmeaning hne
    | fault cause => exact ⟨.error cause, (p.ends_iff _ _).2 hmeaning⟩
    | done result => exact ⟨.ok result, (p.ends_iff _ _).2 hmeaning⟩
  exact ⟨hends, fun hfree => hends hfree.guarded⟩

/-- An `x`, or an opening bracket, a part and a closing bracket. -/
def bracketed (part : Parser .char) : Parser .char :=
  .choice (.atom (.char 'x'))
    (andThen (.atom (.char '[')) (skip part (.atom (.char ']'))))

/-- An `x` in any number of brackets. -/
def nested : Parser .char :=
  .recursive ⟨0, 0⟩ (bracketed (.rule ⟨0, 0⟩))

/-- The same, assembled anew each time that a bracket has been opened. -/
def nestedAnew : Parser .char :=
  .recursive ⟨0, 0⟩ (.fresh 1 [] fun _ => bracketed (.rule ⟨0, 0⟩))

/-- A repetition of a repetition of what reads nothing. -/
def idle : Parser (.list (.list .unit)) :=
  .many (.many (.atom (.ret ())))

theorem guarded_ends_nested :
    (nested.All fun _ a => a.Forward) ∧
    nested.Guarded (fun _ => MovesIn (Machine.start nested (.startAt #['[', 'x'] true 0))) True ∧
    (∃ e, nested.Ends (.startAt #['[', 'x'] true 0) e) ∧
    (nestedAnew.All fun _ a => a.Forward) ∧
    nestedAnew.Guarded
      (fun _ => MovesIn (Machine.start nestedAnew (.startAt #['[', 'x'] true 0))) True ∧
    (∃ e, nestedAnew.Ends (.startAt #['[', 'x'] true 0) e) ∧
    (idle.All fun _ a => a.Forward) ∧ idle.RuleFree ∧
    ∃ e, idle.Ends (.startAt #['[', 'x'] false 1) e := by
  have hforward : (bracketed (.rule ⟨0, 0⟩)).All fun _ a => a.Forward :=
    ⟨trivial, trivial, fun _ => ⟨trivial, fun _ => trivial⟩⟩
  have hguarded : ∀ origin : Machine .char,
      (bracketed (.rule ⟨0, 0⟩)).Guarded (fun _ => MovesIn origin) False :=
    fun origin => ⟨trivial, trivial, fun _ => ⟨.inr (movesIn_char '['), fun _ => trivial⟩⟩
  exact ⟨hforward, hguarded _, (guarded_ends nested hforward _ true 0 (by decide)).1 (hguarded _),
    hforward, hguarded _, (guarded_ends nestedAnew hforward _ true 0 (by decide)).1 (hguarded _),
    trivial, trivial, (guarded_ends idle trivial _ false 1 (by decide)).2 trivial⟩

end Parser

end ParserKit
