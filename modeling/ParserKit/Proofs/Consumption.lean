import ParserKit.Proofs.Agreement
import ParserKit.Proofs.Trampoline

/-!
The flag of a failure tells the truth about the position. A failure that counts
as not consuming ends where the attempt began, even in grammars with jumps. In a
grammar without jumps no attempt ends before its start, and a failure counts as
consuming exactly when it ended after its start.

An attempt that keeps these rules is called honest. Remembered outcomes are
honest attempts too, which makes a hit as good as a run.
-/

namespace ParserKit

namespace Outcome

variable {α : Type}

/-- A failure with the given flag. -/
def Failed (consumed : Bool) : Outcome α → Prop
  | .success _ => False
  | .failure cause => cause.consumed = consumed

@[simp] theorem failed_success (b : Bool) (value : α) : ¬ (success value).Failed b := id

@[simp] theorem failed_failure (b : Bool) (cause : Failure) :
    (failure cause : Outcome α).Failed b ↔ cause.consumed = b := Iff.rfl

@[simp] theorem failed_fail (b : Bool) (expected : Expectation) :
    (fail expected : Outcome α).Failed b ↔ false = b := Iff.rfl

@[simp] theorem failed_join (b : Bool) (first : Expectation) (outcome : Outcome α) :
    (outcome.join first).Failed b ↔ outcome.Failed b := by
  cases outcome <;> rfl

end Outcome

/-- An attempt from `start` to `stop` whose outcome tells the truth about the
motion. Going forward is part of it only where it is promised. -/
structure Honest (forward : Prop) (size start stop : Nat) {α : Type} (outcome : Outcome α) :
    Prop where
  within : stop ≤ size
  unmoved : outcome.Failed false → stop = start
  ahead : forward → start ≤ stop
  moved : forward → outcome.Failed true → start < stop

namespace Honest

variable {forward : Prop} {size start middle stop : Nat} {α β : Type}

/-- An attempt that ends where it began. -/
theorem atRest {outcome : Outcome α} (hsize : start ≤ size) (h : ¬ outcome.Failed true) :
    Honest forward size start start outcome :=
  ⟨hsize, fun _ => rfl, fun _ => Nat.le_refl start, fun _ hfail => absurd hfail h⟩

theorem ofSuccess (value : α) (hsize : stop ≤ size) (h : forward → start ≤ stop) :
    Honest forward size start stop (.success value) :=
  ⟨hsize, fun hfail => absurd hfail id, h, fun _ hfail => absurd hfail id⟩

/-- Only the flag of an outcome matters. -/
theorem congr {outcome : Outcome α} {outcome' : Outcome β}
    (h : Honest forward size start stop outcome)
    (hflag : ∀ b, outcome'.Failed b → outcome.Failed b) :
    Honest forward size start stop outcome' :=
  ⟨h.within, fun hfail => h.unmoved (hflag false hfail), h.ahead,
    fun hf hfail => h.moved hf (hflag true hfail)⟩

/-- What comes after a motion is honest from the beginning of that motion, once
its failure is marked as consuming when the whole has moved. -/
theorem settled {outcome : Outcome α} (hbefore : forward → start ≤ middle)
    (h : Honest forward size middle stop outcome) :
    Honest forward size start stop (outcome.consumedIf (stop != start)) := by
  have hahead : forward → start ≤ stop := fun hf => Nat.le_trans (hbefore hf) (h.ahead hf)
  cases outcome with
  | success value => exact .ofSuccess value h.within hahead
  | failure cause =>
    refine ⟨h.within, fun hfail => ?_, hahead, fun hf hfail => ?_⟩
    · simp only [Outcome.consumedIf, Outcome.failed_failure, Bool.or_eq_false_iff] at hfail
      simpa using hfail.2
    · have hmoved := h.moved hf
      have hstart := hbefore hf
      have hstop := hahead hf
      simp only [Outcome.consumedIf, Outcome.failed_failure, Bool.or_eq_true, bne_iff_ne] at hfail
      rcases hfail with hfail | hfail
      · have := hmoved hfail
        omega
      · omega

end Honest

namespace Atom

variable {t : Ty}

/-- Any parser without parts that is not hand-written. -/
def Builtin : Atom t → Prop
  | .custom _ => False
  | _ => True

/-- A parser without parts that neither is hand-written nor jumps. -/
def Forward : Atom t → Prop
  | .custom _ => False
  | .jump _ => False
  | _ => True

end Atom

theorem Index.eq_add_of_ok {a b c : Nat} (h : Index.add a b = .ok c) : c = a + b := by
  simp only [Index.add, Word.add] at h
  split at h
  · exact (Except.ok.inj h).symm
  · exact absurd h (by simp)

theorem Except.exists_of_map_eq_ok {α β : Type} {f : α → β} {x : Except Fault α} {b : β}
    (h : x.map f = .ok b) : ∃ a, x = .ok a ∧ f a = b := by
  cases x with
  | error cause => exact absurd h (by simp [Except.map])
  | ok a => exact ⟨a, rfl, Except.ok.inj h⟩

namespace Cursor

variable {c after : Cursor}

theorem position_lt_of_peek {x : Char} (h : c.peek 0 = .ok (some x)) :
    c.position < c.input.size := by
  simp only [peek, bind, Except.bind] at h
  split at h
  · exact absurd h (by simp)
  · rename_i index hindex
    obtain rfl := Index.eq_add_of_ok hindex
    obtain ⟨hlt, -⟩ := Array.getElem?_eq_some_iff.1 (Except.ok.inj h)
    omega

theorem advance_eq_ok {n : Nat} (h : c.advance n = .ok after) :
    after.position = min (c.position + n) c.input.size := by
  simp only [advance, bind, Except.bind] at h
  split at h
  · exact absurd h (by simp)
  · rename_i target htarget
    obtain rfl := Index.eq_add_of_ok htarget
    rw [← Except.ok.inj h]

theorem jumpTo_eq_ok {q : Nat} (h : c.jumpTo q = .ok after) :
    q ≤ c.input.size ∧ after.position = q := by
  simp only [jumpTo] at h
  split at h
  · exact ⟨‹_›, by rw [← Except.ok.inj h]⟩
  · exact absurd h (by simp)

end Cursor

namespace Atom

variable {forward : Prop} {t : Ty} {c after : Cursor}

theorem matchFrom_pos {wanted : List Char} {matched : Nat} (h : matchFrom c wanted 0 = .ok matched)
    (hpos : 0 < matched) : c.position < c.input.size := by
  cases wanted with
  | nil =>
    obtain rfl : 0 = matched := Except.ok.inj h
    omega
  | cons x rest =>
    simp only [matchFrom, bind, Except.bind] at h
    split at h
    · exact absurd h (by simp)
    · rename_i found hfound
      split at h
      · rename_i hx
        exact Cursor.position_lt_of_peek (hx ▸ hfound)
      · obtain rfl : 0 = matched := Except.ok.inj h
        omega

theorem readSatisfy_honest {accepts : Char → Bool} {outcome : Outcome Char}
    (hc : c.position ≤ c.input.size) (h : readSatisfy accepts c = .ok (outcome, after)) :
    Honest forward c.input.size c.position after.position outcome := by
  simp only [readSatisfy, bind, Except.bind] at h
  split at h
  · exact absurd h (by simp)
  · split at h
    · split at h
      · split at h
        · exact absurd h (by simp)
        · rename_i hadvance
          obtain ⟨rfl, rfl⟩ := Prod.mk.inj (Except.ok.inj h)
          have hafter := Cursor.advance_eq_ok hadvance
          exact .ofSuccess _ (by omega) fun _ => by omega
      · obtain ⟨rfl, rfl⟩ := Prod.mk.inj (Except.ok.inj h)
        exact .atRest hc (by simp)
    · obtain ⟨rfl, rfl⟩ := Prod.mk.inj (Except.ok.inj h)
      exact .atRest hc (by simp)

theorem readChar_honest {x : Char} {outcome : Outcome Char} (hc : c.position ≤ c.input.size)
    (h : readChar x c = .ok (outcome, after)) :
    Honest forward c.input.size c.position after.position outcome := by
  simp only [readChar, bind, Except.bind] at h
  split at h
  · exact absurd h (by simp)
  · split at h
    · split at h
      · exact absurd h (by simp)
      · rename_i hadvance
        obtain ⟨rfl, rfl⟩ := Prod.mk.inj (Except.ok.inj h)
        have hafter := Cursor.advance_eq_ok hadvance
        exact .ofSuccess _ (by omega) fun _ => by omega
    · obtain ⟨rfl, rfl⟩ := Prod.mk.inj (Except.ok.inj h)
      exact .atRest hc (by simp)

/-- A literal that matches in part counts as consuming, and the part that matched
is what the cursor moves over. -/
theorem readString_honest {chars : String} {outcome : Outcome String}
    (hc : c.position ≤ c.input.size) (h : readString chars c = .ok (outcome, after)) :
    Honest forward c.input.size c.position after.position outcome := by
  simp only [readString, bind, Except.bind] at h
  split at h
  · exact absurd h (by simp)
  · rename_i matched hmatched
    split at h
    · exact absurd h (by simp)
    · rename_i hadvance
      have hafter := Cursor.advance_eq_ok hadvance
      split at h
      · obtain ⟨rfl, rfl⟩ := Prod.mk.inj (Except.ok.inj h)
        exact .ofSuccess _ (by omega) fun _ => by omega
      · obtain ⟨rfl, rfl⟩ := Prod.mk.inj (Except.ok.inj h)
        refine ⟨by omega, fun hfail => ?_, fun _ => by omega, fun _ hfail => ?_⟩
        · have hnone : ¬ 0 < matched := by simpa using hfail
          omega
        · have hpos : 0 < matched := by simpa using hfail
          have hlt := matchFrom_pos hmatched hpos
          omega

theorem some_inj {α : Type} {outcome outcome' : Outcome α}
    (h : (.ok (some outcome, c) : Except Fault _) = .ok (some outcome', after)) :
    outcome = outcome' ∧ c = after := by
  simpa using h

theorem eq_ok_of_map_some {α : Type} {x : Except Fault (Outcome α × Cursor)} {outcome : Outcome α}
    (h : x.map (fun (found, next) => (some found, next)) = .ok (some outcome, after)) :
    x = .ok (outcome, after) := by
  obtain ⟨⟨found, next⟩, rfl, hfound⟩ := Except.exists_of_map_eq_ok h
  obtain ⟨rfl, rfl⟩ := some_inj (congrArg Except.ok hfound)
  rfl

theorem read_honest {a : Atom t} (ha : a.Builtin) (hforward : forward → a.Forward)
    (hc : c.position ≤ c.input.size) {outcome : Outcome t.Elem}
    (h : a.read c = .ok (some outcome, after)) :
    Honest forward c.input.size c.position after.position outcome := by
  cases a with
  | ret value =>
    obtain ⟨rfl, rfl⟩ := some_inj h
    exact .atRest hc (by simp)
  | fail expected =>
    obtain ⟨rfl, rfl⟩ := some_inj h
    exact .atRest hc (by simp)
  | unexpected found =>
    obtain ⟨rfl, rfl⟩ := some_inj h
    exact .atRest hc (by simp)
  | satisfy accepts => exact readSatisfy_honest hc (eq_ok_of_map_some h)
  | char x => exact readChar_honest hc (eq_ok_of_map_some h)
  | string chars => exact readString_honest hc (eq_ok_of_map_some h)
  | eof =>
    obtain ⟨rfl, rfl⟩ := some_inj h
    refine .atRest hc ?_
    simp only [readEof]
    split <;> simp
  | position =>
    obtain ⟨rfl, rfl⟩ := some_inj h
    exact .atRest hc (by simp)
  | jump target =>
    obtain ⟨next, hjump, hfound⟩ := Except.exists_of_map_eq_ok h
    obtain ⟨rfl, rfl⟩ := some_inj (congrArg Except.ok hfound)
    obtain ⟨htarget, hnext⟩ := Cursor.jumpTo_eq_ok hjump
    exact .ofSuccess _ (by omega) fun hf => absurd (hforward hf) id
  | custom act => exact absurd ha id

end Atom

namespace Wrapper

variable {forward : Prop} {a b : Ty} {c after : Cursor} {start : Nat}

/-- A treated outcome is honest from the start of the part: a failure that is
undone ends there, and every other keeps its flag. -/
theorem finish_honest {wrapper : Wrapper a b} {outcome : Outcome a.Elem} {treated : Outcome b.Elem}
    (h : Honest forward c.input.size start c.position outcome)
    (hfinish : wrapper.finish start outcome c = .ok (treated, after)) :
    Honest forward c.input.size start after.position treated := by
  cases wrapper with
  | convert f =>
    obtain ⟨converted, hconvert, hpair⟩ := Except.exists_of_map_eq_ok hfinish
    obtain ⟨rfl, rfl⟩ := Prod.mk.inj hpair
    cases outcome with
    | success value =>
      obtain ⟨value', -, rfl⟩ := Except.exists_of_map_eq_ok hconvert
      exact h.congr fun _ hfail => absurd hfail id
    | failure cause =>
      obtain rfl := Except.ok.inj hconvert
      exact h.congr fun _ => id
  | attempt =>
    cases outcome with
    | success value =>
      obtain ⟨rfl, rfl⟩ := Prod.mk.inj (Except.ok.inj hfinish)
      exact h
    | failure cause =>
      obtain ⟨next, hjump, hpair⟩ := Except.exists_of_map_eq_ok hfinish
      obtain ⟨rfl, rfl⟩ := Prod.mk.inj hpair
      obtain ⟨hstart, hnext⟩ := Cursor.jumpTo_eq_ok hjump
      rw [hnext]
      exact .atRest hstart (by simp)
  | label message =>
    obtain ⟨rfl, rfl⟩ := Prod.mk.inj (Except.ok.inj hfinish)
    cases outcome with
    | success value => exact h
    | failure cause => exact h.congr fun _ => id
  | refuse =>
    simp only [finish, finishRefuse, bind, Except.bind] at hfinish
    split at hfinish
    · exact absurd hfinish (by simp)
    · rename_i back hjump
      obtain ⟨hstart, hback⟩ := Cursor.jumpTo_eq_ok hjump
      split at hfinish
      · split at hfinish
        · exact absurd hfinish (by simp)
        · obtain ⟨rfl, rfl⟩ := Prod.mk.inj (Except.ok.inj hfinish)
          rw [hback]
          exact .atRest hstart (by simp)
      · obtain ⟨rfl, rfl⟩ := Prod.mk.inj (Except.ok.inj hfinish)
        rw [hback]
        exact .atRest hstart (by simp)
  | spanned =>
    obtain ⟨rfl, rfl⟩ := Prod.mk.inj (Except.ok.inj hfinish)
    cases outcome with
    | success value => exact h.congr fun _ hfail => absurd hfail id
    | failure cause => exact h.congr fun _ => id

end Wrapper

/-- What holds of every value that a computation delivers. -/
def Result.Ensures {α : Type} (x : Result α) (post : α → Prop) : Prop :=
  ∀ a, x = .done a → post a

namespace Result.Ensures

variable {α β : Type}

theorem done {post : α → Prop} {a : α} (h : post a) : (Result.done a).Ensures post := by
  rintro _ ⟨rfl⟩
  exact h

theorem bind {x : Result α} {f : α → Result β} {mid : α → Prop} {post : β → Prop}
    (hx : x.Ensures mid) (hf : ∀ a, mid a → (f a).Ensures post) : (x >>= f).Ensures post := by
  intro b h
  obtain ⟨a, ha, hb⟩ := Result.bind_eq_done h
  exact hf a (hx a ha) b hb

theorem ofExcept {x : Except Fault α} {post : α → Prop} (h : ∀ a, x = .ok a → post a) :
    (Result.ofExcept x).Ensures post :=
  fun a ha => h a (Result.ofExcept_eq_done ha)

end Result.Ensures

open Result

/-- A state inside the input whose remembered outcomes are all honest. -/
structure State.Sound (forward : Prop) (s : State) : Prop where
  within : s.position ≤ s.cursor.input.size
  remembered : ∀ (key : Key) (start : Nat) (entry : Entry),
    s.cursor.cache[(key, start)]? = some entry →
      Honest forward s.cursor.input.size start entry.stop entry.outcome

/-- The end of an honest attempt that began at `start` over the given input. -/
structure Reached (forward : Prop) (input : Array Char) (start : Nat) {α : Type}
    (result : Outcome α × State) : Prop where
  input_eq : result.2.cursor.input = input
  sound : result.2.Sound forward
  honest : Honest forward input.size start result.2.position result.1

/-- An action whose attempts are honest wherever they begin. -/
def Action.Fair {α : Type} (forward : Prop) (x : Action α) : Prop :=
  ∀ s : State, s.Sound forward → (x s).Ensures (Reached forward s.cursor.input s.position)

namespace State

variable {forward : Prop} {s : State}

theorem Sound.movedTo (h : s.Sound forward) {q : Nat} (hq : q ≤ s.cursor.input.size) :
    (s.movedTo q).Sound forward :=
  ⟨hq, h.remembered⟩

theorem startAt_sound (input : Array Char) (memoize : Bool) {start : Nat}
    (h : start ≤ input.size) : (startAt input memoize start).Sound forward :=
  ⟨h, fun key start entry hentry => absurd hentry (by simp [startAt])⟩

theorem Sound.remember (h : s.Sound forward) {t : Ty} (key : Key) {start : Nat}
    {outcome : Outcome t.Elem}
    (hhonest : Honest forward s.cursor.input.size start s.position outcome) :
    (s.remember key start outcome).Sound forward := by
  refine ⟨by simpa [State.remember, position] using h.within,
    fun key' start' entry hentry => ?_⟩
  simp only [State.remember, Cursor.input_remember] at hentry ⊢
  by_cases hmemoize : s.cursor.memoize = true
  · simp only [Cursor.cache_remember hmemoize] at hentry
    split at hentry
    · rename_i hkey
      obtain ⟨-, rfl⟩ := Prod.mk.inj hkey
      obtain rfl := Option.some.inj hentry
      exact hhonest
    · exact h.remembered key' start' entry hentry
  · simp only [Cursor.remember, hmemoize] at hentry
    exact h.remembered key' start' entry hentry

end State

namespace Reached

variable {forward : Prop} {input : Array Char} {start : Nat} {α β : Type}
  {result : Outcome α × State}

/-- The same end with another outcome of the same flag. -/
theorem congr (h : Reached forward input start result) {outcome : Outcome β}
    (hflag : ∀ b, outcome.Failed b → result.1.Failed b) :
    Reached forward input start (outcome, result.2) :=
  ⟨h.input_eq, h.sound, h.honest.congr hflag⟩

theorem ofSuccess {s : State} (value : α) (hinput : s.cursor.input = input)
    (hs : s.Sound forward) (hahead : forward → start ≤ s.position) :
    Reached forward input start (.success value, s) :=
  ⟨hinput, hs, .ofSuccess value (hinput ▸ hs.within) hahead⟩

theorem settled {middle : Nat} (hbefore : forward → start ≤ middle)
    (h : Reached forward input middle result) :
    Reached forward input start (result.2.settle start result.1, result.2) :=
  ⟨h.input_eq, h.sound, h.honest.settled hbefore⟩

end Reached

namespace Action.Fair

variable {forward : Prop} {α β : Type}

theorem atom {t : Ty} {a : Atom t} (ha : a.Builtin) (hforward : forward → a.Forward) :
    Fair forward (Action.atom a) := by
  intro s hs
  have hread : (Result.ofExcept (s.read a)).Ensures fun found => s.read a = .ok found :=
    .ofExcept fun _ h => h
  refine hread.bind ?_
  rintro ⟨found, after⟩ hread
  cases found with
  | none => exact fun _ h => absurd h (by simp)
  | some outcome =>
    obtain ⟨⟨found, cursor⟩, hcursor, hpair⟩ := Except.exists_of_map_eq_ok hread
    obtain ⟨rfl, rfl⟩ := Prod.mk.inj hpair
    have hhonest := Atom.read_honest ha hforward hs.within hcursor
    rw [a.read_local s.cursor] at hcursor
    obtain ⟨moved, -, hmoved⟩ := Except.exists_of_map_eq_ok hcursor
    obtain ⟨-, rfl⟩ := Prod.mk.inj hmoved
    exact .done ⟨rfl, hs.movedTo hhonest.within, hhonest⟩

theorem wrapped {a b : Ty} (wrapper : Wrapper a b) {x : Action a.Elem} (h : Fair forward x) :
    Fair forward (x.wrapped wrapper) := by
  intro s hs
  refine (h s hs).bind ?_
  rintro ⟨outcome, after⟩ ⟨hinput, hafter, hhonest⟩
  refine .ofExcept ?_
  rintro ⟨treated, final⟩ hfinish
  obtain ⟨⟨found, cursor⟩, hcursor, hpair⟩ := Except.exists_of_map_eq_ok hfinish
  obtain ⟨rfl, rfl⟩ := Prod.mk.inj hpair
  rw [← hinput] at hhonest ⊢
  have htreated := Wrapper.finish_honest hhonest hcursor
  rw [wrapper.finish_local s.position outcome after.cursor] at hcursor
  obtain ⟨moved, -, hmoved⟩ := Except.exists_of_map_eq_ok hcursor
  obtain ⟨-, rfl⟩ := Prod.mk.inj hmoved
  exact ⟨rfl, hafter.movedTo htreated.within, htreated⟩

theorem chain {x : Action α} {f : α → Action β} (h : Fair forward x)
    (hf : ∀ value, Fair forward (f value)) : Fair forward (x.chain f) := by
  intro s hs
  refine (h s hs).bind ?_
  rintro ⟨outcome, middle⟩ hmiddle
  cases outcome with
  | failure cause => exact .done (hmiddle.congr fun _ => id)
  | success value =>
    refine (hf value middle hmiddle.sound).bind ?_
    intro result hresult
    rw [hmiddle.input_eq] at hresult
    exact .done (hresult.settled hmiddle.honest.ahead)

theorem sequence {n : Nat} {x : Fin n → Action (Option α)} (h : ∀ i, Fair forward (x i))
    (items : List (Fin n)) (values : List α) {input : Array Char} {start : Nat} {s : State}
    (hinput : s.cursor.input = input) (hs : s.Sound forward)
    (hahead : forward → start ≤ s.position) :
    (Action.sequence x start items values s).Ensures (Reached forward input start) := by
  induction items generalizing values s with
  | nil => exact .done (.ofSuccess _ hinput hs hahead)
  | cons i rest ih =>
    refine (h i s hs).bind ?_
    rintro ⟨outcome, after⟩ hafter
    rw [hinput] at hafter
    cases outcome with
    | success value =>
      exact ih (collect values value) hafter.input_eq hafter.sound fun hf =>
        Nat.le_trans (hahead hf) (hafter.honest.ahead hf)
    | failure cause =>
      have hfail : Reached forward input s.position ((.failure cause : Outcome (List α)), after) :=
        hafter.congr fun _ => id
      exact .done (hfail.settled hahead)

theorem choice {x y : Action α} (hx : Fair forward x) (hy : Fair forward y) :
    Fair forward (x.choice y) := by
  intro s hs
  refine (hx s hs).bind ?_
  rintro ⟨outcome, after⟩ hafter
  cases outcome with
  | success value => exact .done hafter
  | failure cause =>
    by_cases hc : cause.consumed = true
    · simp only [hc, if_true]
      exact .done hafter
    · have hstart : s.position ≤ after.cursor.input.size := hafter.input_eq ▸ hs.within
      simp only [hc, State.jumpTo_eq, hstart, if_true]
      refine (hy (after.movedTo s.position) (hafter.sound.movedTo hstart)).bind ?_
      intro result hresult
      have hinput : (after.movedTo s.position).cursor.input = s.cursor.input := hafter.input_eq
      rw [hinput] at hresult
      exact .done (hresult.congr fun b => (Outcome.failed_join b cause.expected result.1).1)

theorem remembered {t : Ty} (key : Key) {x : Action t.Elem} (h : Fair forward x) :
    Fair forward (x.remembered key) := by
  intro s hs
  by_cases hm : s.cursor.memoize = true
  · rcases remembered_cases hm key x with ⟨outcome, stop, hentry, hhit⟩ | hmiss
    · have hhonest := hs.remembered key s.cursor.position _ hentry
      rw [hhit]
      exact .done ⟨rfl, ⟨hhonest.within, hs.remembered⟩, hhonest⟩
    · rw [hmiss]
      refine Ensures.bind (h _ ⟨hs.within, hs.remembered⟩) ?_
      rintro ⟨outcome, after⟩ ⟨hinput, hafter, hhonest⟩
      refine .done ⟨?_, hafter.remember key (hinput ▸ hhonest), ?_⟩
      · simpa only [State.remember, Cursor.input_remember] using hinput
      · simpa only [State.remember, State.position, Cursor.position_remember] using hhonest
  · simp only [Action.remembered, hm]
    exact h s hs

/-- A repetition never ends with a failure that counts as not consuming. -/
theorem repeatFrom {x : Action α} (h : Fair forward x) (fuel : Nat) (values : List α)
    {input : Array Char} {start : Nat} {s : State} (hinput : s.cursor.input = input)
    (hs : s.Sound forward) (hahead : forward → start ≤ s.position) :
    (x.repeatFrom fuel values s).Ensures (Reached forward input start) := by
  induction fuel generalizing values s with
  | zero => exact fun _ h => absurd h (by simp [Action.repeatFrom])
  | succ fuel ih =>
    refine (h s hs).bind ?_
    rintro ⟨outcome, after⟩ hafter
    rw [hinput] at hafter
    have hahead' : forward → start ≤ after.position := fun hf =>
      Nat.le_trans (hahead hf) (hafter.honest.ahead hf)
    cases outcome with
    | success value =>
      simp only [Turn.next, Turn.ofValue, ofExcept_ok, done_bind]
      by_cases hmoved : after.position = s.position
      · rw [if_pos hmoved]
        exact .done (.ofSuccess _ hafter.input_eq hafter.sound hahead')
      · rw [if_neg hmoved]
        exact ih _ hafter.input_eq hafter.sound hahead'
    | failure cause =>
      by_cases hc : cause.consumed = true
      · simp only [Turn.next, hc, if_true, ofExcept_ok, done_bind]
        refine .done ⟨hafter.input_eq, hafter.sound, hafter.honest.within, ?_, hahead', ?_⟩
        · intro hfail
          exact absurd (hc.symm.trans hfail) (by simp)
        · intro hf _
          exact Nat.lt_of_le_of_lt (hahead hf) (hafter.honest.moved hf hc)
      · have hbefore : s.position ≤ after.cursor.input.size := by
          rw [hafter.input_eq, ← hinput]
          exact hs.within
        simp only [Turn.next, hc, State.jumpTo_eq, hbefore, if_true]
        exact .done (.ofSuccess _ hafter.input_eq (hafter.sound.movedTo hbefore) hahead)

theorem repeatFrom1 {x : Action α} (h : Fair forward x) (fuel : Nat) :
    Fair forward (x.repeatFrom1 (x.repeatFrom fuel)) := by
  intro s hs
  refine (h s hs).bind ?_
  rintro ⟨outcome, after⟩ hafter
  cases outcome with
  | failure cause => exact .done (hafter.congr fun _ => id)
  | success value =>
    simp only [Turn.first, Turn.ofValue]
    by_cases hmoved : after.position = s.position
    · rw [if_pos hmoved]
      exact .done (.ofSuccess _ hafter.input_eq hafter.sound hafter.honest.ahead)
    · rw [if_neg hmoved]
      exact h.repeatFrom fuel _ hafter.input_eq hafter.sound hafter.honest.ahead

end Action.Fair

namespace Parser

variable {t : Ty}

/-- What holds of every parser without parts that can come to run in a parser,
those in the parsers that its functions make included. -/
def All (P : ∀ t, Atom t → Prop) : {t : Ty} → Parser t → Prop
  | _, .atom a => P _ a
  | _, .wrap _ p => p.All P
  | _, .bind p _ next => p.All P ∧ ∀ value, (next value).All P
  | _, .sequence items => ∀ i, (items i).All P
  | _, .choice first second => first.All P ∧ second.All P
  | _, .memo _ p => p.All P
  | _, .many p => p.All P
  | _, .many1 p => p.All P
  | _, .recursive _ body => body.All P
  | _, .rule _ => True
  | _, .fresh _ _ body => (body ()).All P
  | _, .tick _ p => p.All P

end Parser

/-- The rules in scope are made of the given parsers without parts. -/
def Scope.All (P : ∀ t, Atom t → Prop) (scope : Scope) : Prop :=
  ∀ rule ∈ scope.rules, rule.body.All P

theorem Scope.All.resolve {P : ∀ t, Atom t → Prop} {scope : Scope} (h : scope.All P) {name : Label}
    {t : Ty} {found : Parser t × Scope} (hfound : scope.resolve name t = some found) :
    found.1.All P ∧ found.2.All P :=
  Scope.forall_of_resolve h hfound

namespace Parser

variable {t : Ty}

/-- Parsers made of fair parts are fair, at every depth of the evaluation. -/
theorem eval_fair {forward : Prop} {P : ∀ t, Atom t → Prop}
    (hP : ∀ t a, P t a → a.Builtin ∧ (forward → a.Forward)) (fuel : Nat) (scope : Scope)
    (p : Parser t) (hscope : scope.All P) (hp : p.All P) :
    Action.Fair forward (p.eval fuel scope) := by
  induction fuel generalizing t scope with
  | zero => exact fun s _ _ h => absurd h (by simp [eval])
  | succ fuel ih =>
    cases p with
    | atom a => exact .atom (hP _ a hp).1 (hP _ a hp).2
    | wrap wrapper p => exact (ih scope p hscope hp).wrapped wrapper
    | bind p captures next =>
      exact (ih (scope.holding captures) p hscope hp.1).chain fun value =>
        ih scope (next value) hscope (hp.2 value)
    | sequence items =>
      intro s hs
      have hitems := fun i => ih (scope.holding (ownedItems items)) (items i) hscope (hp i)
      exact Action.Fair.sequence hitems _ [] rfl hs fun _ => Nat.le_refl _
    | choice first second =>
      exact (ih (scope.holding second.owned) first hscope hp.1).choice (ih scope second hscope hp.2)
    | memo label p => exact (ih scope p hscope hp).remembered (scope.key label)
    | many p =>
      intro s hs
      have hoccurrence := ih (scope.holding p.owned) p hscope hp
      exact hoccurrence.repeatFrom fuel [] rfl hs fun _ => Nat.le_refl _
    | many1 p => exact (ih (scope.holding p.owned) p hscope hp).repeatFrom1 fuel
    | recursive name body =>
      refine ih (scope.define name body) body (fun rule hrule => ?_) hp
      rcases List.mem_cons.1 hrule with rfl | hrule
      · exact hp
      · exact hscope rule hrule
    | rule name =>
      simp only [eval]
      cases hfound : scope.resolve name t with
      | none => exact fun s _ _ h => absurd h (by simp)
      | some found => exact ih found.2 found.1 (hscope.resolve hfound).2 (hscope.resolve hfound).1
    | fresh level captures body =>
      intro s hs
      exact ih (scope.renew level s.renew.1) (body ()) hscope hp s.renew.2
        ⟨hs.within, hs.remembered⟩
    | tick counter p =>
      intro s hs
      exact ih scope p hscope hp (s.tick counter) ⟨hs.within, hs.remembered⟩

theorem meaning_fair {forward : Prop} {P : ∀ t, Atom t → Prop}
    (hP : ∀ t a, P t a → a.Builtin ∧ (forward → a.Forward)) (scope : Scope) (p : Parser t)
    (hscope : scope.All P) (hp : p.All P) : Action.Fair forward (p.meaning scope) := by
  intro s hs result hresult
  obtain ⟨fuel, hfuel⟩ := exists_eval_eq_meaning (hresult.trans_ne (by simp))
  exact eval_fair hP fuel scope p hscope hp s hs result (hfuel.trans hresult)

end Parser

theorem Scope.root_all (P : ∀ t, Atom t → Prop) : Scope.root.All P :=
  fun rule hrule => absurd hrule (by simp [Scope.root])

theorem Atom.Forward.fair {t : Ty} {a : Atom t} (h : a.Forward) :
    a.Builtin ∧ (True → a.Forward) := by
  cases a with
  | custom act => exact absurd h id
  | _ => exact ⟨trivial, fun _ => h⟩

namespace Parser

variable {t : Ty}

/-- A whole run that ends with an outcome is an honest attempt. -/
theorem honest_of_ends {forward : Prop} {P : ∀ t, Atom t → Prop}
    (hP : ∀ t a, P t a → a.Builtin ∧ (forward → a.Forward)) {p : Parser t} (hp : p.All P)
    {input : Array Char} {memoize : Bool} {start : Nat} (hstart : start ≤ input.size)
    {outcome : Outcome t.Elem} {final : State}
    (h : p.Ends (.startAt input memoize start) (.ok (outcome, final))) :
    Honest forward input.size start final.position outcome := by
  have hfair := meaning_fair hP Scope.root p (Scope.root_all P) hp
  have hsound : (State.startAt input memoize start).Sound forward :=
    State.startAt_sound input memoize hstart
  exact (hfair _ hsound _ ((p.ends_iff _ _).1 h)).honest

/-- The flag of a failure tells the truth about the position. Of any grammar without
hand-written parsers, a failure that counts as not consuming ends where it began;
if the grammar has no jump either, every attempt ends at or after its start and
inside the input, and a failure counts as consuming exactly when it has moved. -/
theorem consumed_iff_moved (p : Parser t) (hp : p.All fun _ a => a.Builtin) (input : Array Char)
    (memoize : Bool) (start : Nat) (hstart : start ≤ input.size) (outcome : Outcome t.Elem)
    (final : State) (h : p.Ends (.startAt input memoize start) (.ok (outcome, final))) :
    (∀ cause, outcome = .failure cause → cause.consumed = false → final.position = start) ∧
    ((p.All fun _ a => a.Forward) →
      start ≤ final.position ∧ final.position ≤ input.size ∧
      ∀ cause, outcome = .failure cause → (cause.consumed = true ↔ start < final.position)) := by
  constructor
  · rintro cause rfl hconsumed
    have hP : ∀ t (a : Atom t), a.Builtin → a.Builtin ∧ (False → a.Forward) :=
      fun t a ha => ⟨ha, False.elim⟩
    exact (honest_of_ends hP hp hstart h).unmoved hconsumed
  · intro hforward
    have hhonest := honest_of_ends (fun _ _ => Atom.Forward.fair) hforward hstart h
    refine ⟨hhonest.ahead trivial, hhonest.within, ?_⟩
    rintro cause rfl
    constructor
    · exact hhonest.moved trivial
    · intro hmoved
      by_contra hconsumed
      have hunmoved := hhonest.unmoved (Bool.eq_false_iff.2 hconsumed)
      omega

theorem consumed_iff_moved_literal :
    (Parser.atom (.string "ab")).Ends (.startAt #['x', 'a', 'c'] true 1)
        (.ok (.failure ⟨.positioned "ab" 1, true⟩, .startAt #['x', 'a', 'c'] true 2)) ∧
      ((Parser.atom (.string "ab")).All fun _ a => a.Forward) ∧
      1 ≤ 2 ∧ 2 ≤ 3 ∧ (true = true ↔ 1 < 2) := by
  have hends : (Parser.atom (.string "ab")).Ends (.startAt #['x', 'a', 'c'] true 1)
      (.ok (.failure ⟨.positioned "ab" 1, true⟩, .startAt #['x', 'a', 'c'] true 2)) :=
    ⟨3, _, _, rfl, rfl⟩
  obtain ⟨hstart, hsize, hflag⟩ :=
    (consumed_iff_moved (.atom (.string "ab")) trivial _ true 1 (by decide) _ _ hends).2 trivial
  exact ⟨hends, trivial, hstart, hsize, hflag _ rfl⟩

end Parser

end ParserKit
