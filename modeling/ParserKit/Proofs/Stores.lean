import Mathlib.Data.Finset.Card
import Mathlib.Data.List.Induction
import ParserKit.Proofs.Reading

/-!
A cursor and its cache as a history of stores. The operations come in any order: motions
that may break off, stores for any key at any start, and lookups at any type. What a lookup
answers is decided by the last store for the key at the position, and by nothing else that
happened: a store at another type takes the place of the one before, and a hit moves the
cursor to where that store was made. A position that was stored lies inside the input, so a
hit stays inside it although it does not check where it goes.
-/

namespace ParserKit

namespace Cursor

/-- An operation on a cursor. -/
inductive Operation where
  | advance (count : Nat)
  | jump (target : Nat)
  | store {t : Ty} (key : Key) (start : Nat) (outcome : Outcome t.Elem)
  | lookup (key : Key) (t : Ty)

namespace Operation

/-- The key and the start that a store is made for. -/
def place? : Operation → Option (Key × Nat)
  | .store key start _ => some (key, start)
  | _ => none

def isLookup : Operation → Bool
  | .lookup _ _ => true
  | _ => false

/-- The motions that break off: a step over the largest offset, and a jump out of the input. -/
def Overruns (cursor : Cursor) : Operation → Prop
  | .advance count => Index.limit ≤ cursor.position + count
  | .jump target => cursor.input.size < target
  | _ => False

end Operation

def perform (cursor : Cursor) : Operation → Except Fault Cursor
  | .advance count => cursor.advance count
  | .jump target => cursor.jumpTo target
  | .store key start outcome => .ok (cursor.remember key start outcome)
  | .lookup key t => .ok (cursor.lookup key t).2

/-- The cursor after an operation. One that breaks off leaves the cursor from before. -/
def after (cursor : Cursor) (op : Operation) : Cursor :=
  match cursor.perform op with
  | .ok next => next
  | .error _ => cursor

def afterAll (cursor : Cursor) (history : List Operation) : Cursor :=
  history.foldl after cursor

/-- The last store that a history has made for a key at a start: what was stored, and the
position at which it was stored. -/
def LastStore (fresh : Cursor) (history : List Operation) (key : Key) (start : Nat)
    (entry : Entry) : Prop :=
  ∃ before later, history = before ++ .store key start entry.outcome :: later ∧
    entry.stop = (fresh.afterAll before).position ∧ ∀ op ∈ later, op.place? ≠ some (key, start)

/-- The places that a history has stored for. -/
def placesOf (history : List Operation) : Finset (Key × Nat) :=
  (history.filterMap Operation.place?).toFinset

/-- A step forward breaks off exactly if its target is too large for an offset. -/
theorem advance_cases (cursor : Cursor) (count : Nat) :
    (Index.limit ≤ cursor.position + count ∧ cursor.advance count = .error .addOverflow) ∨
      (cursor.position + count < Index.limit ∧ cursor.advance count =
        .ok (cursor.movedTo (min (cursor.position + count) cursor.input.size))) := by
  by_cases hlimit : cursor.position + count < Index.limit
  · refine .inr ⟨hlimit, ?_⟩
    simp only [advance, Index.add_eq_ok hlimit]
    rfl
  · refine .inl ⟨Nat.not_lt.1 hlimit, ?_⟩
    have hadd : Index.add cursor.position count = .error .addOverflow := if_neg hlimit
    simp only [advance, hadd]
    rfl

/-- A motion moves the cursor inside the input, or breaks off and leaves it where it is. -/
theorem after_advance (cursor : Cursor) (count : Nat) :
    ∃ q, cursor.after (.advance count) = cursor.movedTo q ∧
      (cursor.position ≤ cursor.input.size → q ≤ cursor.input.size) := by
  rcases cursor.advance_cases count with ⟨-, hmoved⟩ | ⟨-, hmoved⟩
  · exact ⟨cursor.position, by simp only [after, perform, hmoved]; rfl, id⟩
  · exact ⟨min (cursor.position + count) cursor.input.size,
      by simp only [after, perform, hmoved], fun _ => Nat.min_le_right _ _⟩

theorem after_jump (cursor : Cursor) (target : Nat) :
    ∃ q, cursor.after (.jump target) = cursor.movedTo q ∧
      (cursor.position ≤ cursor.input.size → q ≤ cursor.input.size) := by
  by_cases htarget : target ≤ cursor.input.size
  · exact ⟨target, by simp only [after, perform, cursor.jumpTo_of_le htarget], fun _ => htarget⟩
  · exact ⟨cursor.position, by simp only [after, perform, jumpTo, htarget, if_false]; rfl, id⟩

section History

variable {fresh cursor : Cursor} {history : List Operation} {op : Operation} {key : Key}
  {start : Nat} {entry : Entry}

theorem afterAll_append_singleton (fresh : Cursor) (history : List Operation) (op : Operation) :
    fresh.afterAll (history ++ [op]) = (fresh.afterAll history).after op := by
  simp only [afterAll, List.foldl_append, List.foldl_cons, List.foldl_nil]

theorem placesOf_append_of_none (hplace : op.place? = none) :
    placesOf (history ++ [op]) = placesOf history := by
  unfold placesOf
  simp [List.filterMap_append, hplace]

theorem placesOf_append_of_some {place : Key × Nat} (hplace : op.place? = some place) :
    placesOf (history ++ [op]) = insert place (placesOf history) := by
  unfold placesOf
  simp [List.filterMap_append, hplace]

theorem not_lastStore_nil : ¬ LastStore fresh [] key start entry := by
  intro h
  obtain ⟨before, later, hsplit, -⟩ := h
  simp at hsplit

/-- An operation that does not store for a place leaves the last store for it. -/
theorem lastStore_append_of_ne (hplace : op.place? ≠ some (key, start)) :
    LastStore fresh (history ++ [op]) key start entry ↔
      LastStore fresh history key start entry := by
  constructor
  · intro h
    obtain ⟨before, later, hsplit, hstop, hfree⟩ := h
    rcases List.eq_nil_or_concat later with rfl | ⟨later, last, rfl⟩
    · have hop := (List.append_inj' hsplit rfl).2
      simp only [List.cons.injEq, and_true] at hop
      exact absurd (congrArg Operation.place? hop) hplace
    · have hassoc : history ++ [op] =
          (before ++ .store key start entry.outcome :: later) ++ [last] := by
        simpa using hsplit
      refine ⟨before, later, (List.append_inj' hassoc rfl).1, hstop, fun other hother => ?_⟩
      exact hfree other (by simp [hother])
  · intro h
    obtain ⟨before, later, rfl, hstop, hfree⟩ := h
    refine ⟨before, later ++ [op], by simp, hstop, fun other hother => ?_⟩
    rcases List.mem_append.1 hother with hother | hother
    · exact hfree other hother
    · rw [List.mem_singleton.1 hother]
      exact hplace

/-- A store is the last one for its place. -/
theorem lastStore_append_store {t : Ty} (outcome : Outcome t.Elem) :
    LastStore fresh (history ++ [.store key start outcome]) key start entry ↔
      entry = { ty := t, outcome, stop := (fresh.afterAll history).position } := by
  constructor
  · intro h
    obtain ⟨before, later, hsplit, hstop, hfree⟩ := h
    rcases List.eq_nil_or_concat later with rfl | ⟨later, last, rfl⟩
    · obtain ⟨rfl, hop⟩ := List.append_inj' hsplit rfl
      obtain ⟨ty, made, stop⟩ := entry
      cases hop
      exact congrArg (Entry.mk ty made) hstop
    · have hassoc : history ++ [.store key start outcome] =
          (before ++ .store key start entry.outcome :: later) ++ [last] := by
        simpa using hsplit
      obtain rfl : .store key start outcome = last := by
        simpa using (List.append_inj' hassoc rfl).2
      exact absurd rfl (hfree (.store key start outcome) (by simp))
  · intro h
    subst h
    exact ⟨history, [], rfl, rfl, by simp⟩

/-- What a history has made of a fresh cursor that remembers. -/
structure Follows (fresh : Cursor) (history : List Operation) (cursor : Cursor) : Prop where
  eq_afterAll : cursor = fresh.afterAll history
  input_eq : cursor.input = fresh.input
  memoize_eq : cursor.memoize = true
  position_le : cursor.position ≤ fresh.input.size
  stop_le : ∀ (place : Key × Nat) (entry : Entry),
    cursor.cache[place]? = some entry → entry.stop ≤ fresh.input.size
  last_iff : ∀ (key : Key) (start : Nat) (entry : Entry),
    cursor.cache[(key, start)]? = some entry ↔ LastStore fresh history key start entry
  mem_iff : ∀ place, place ∈ cursor.cache ↔ place ∈ placesOf history
  size_eq : cursor.cache.size = (placesOf history).card
  counts_eq : cursor.hits + cursor.misses = history.countP Operation.isLookup

namespace Follows

theorem begin (input : Array Char) :
    Follows { input, memoize := true } [] { input, memoize := true } where
  eq_afterAll := rfl
  input_eq := rfl
  memoize_eq := rfl
  position_le := Nat.zero_le _
  stop_le := by simp
  last_iff key start entry := by simp [not_lastStore_nil]
  mem_iff place := by simp [placesOf]
  size_eq := by simp [placesOf]
  counts_eq := rfl

/-- An operation that stores nothing and stays inside the input. -/
theorem stored_nothing (h : Follows fresh history cursor) {next : Cursor}
    (hnext : cursor.after op = next) (hplace : op.place? = none)
    (hinput : next.input = cursor.input) (hmemoize : next.memoize = cursor.memoize)
    (hcache : next.cache = cursor.cache) (hposition : next.position ≤ fresh.input.size)
    (hcounts : next.hits + next.misses =
      cursor.hits + cursor.misses + if op.isLookup then 1 else 0) :
    Follows fresh (history ++ [op]) next where
  eq_afterAll := by rw [afterAll_append_singleton, ← h.eq_afterAll, hnext]
  input_eq := hinput.trans h.input_eq
  memoize_eq := hmemoize.trans h.memoize_eq
  position_le := hposition
  stop_le := by
    rw [hcache]
    exact h.stop_le
  last_iff key start entry := by
    rw [hcache, lastStore_append_of_ne (by simp [hplace])]
    exact h.last_iff key start entry
  mem_iff place := by
    rw [hcache, placesOf_append_of_none hplace]
    exact h.mem_iff place
  size_eq := by
    rw [hcache, placesOf_append_of_none hplace]
    exact h.size_eq
  counts_eq := by
    rw [hcounts, h.counts_eq, List.countP_append, List.countP_singleton]

/-- A motion inside the input. -/
theorem moved (h : Follows fresh history cursor) (hplace : op.place? = none)
    (hlookup : op.isLookup = false)
    (hmoved : ∃ q, cursor.after op = cursor.movedTo q ∧
      (cursor.position ≤ cursor.input.size → q ≤ cursor.input.size)) :
    Follows fresh (history ++ [op]) (cursor.after op) := by
  obtain ⟨q, hnext, hq⟩ := hmoved
  rw [hnext]
  apply h.stored_nothing hnext hplace rfl rfl rfl
  · rw [← h.input_eq]
    apply hq
    rw [h.input_eq]
    exact h.position_le
  · rw [hlookup]
    rfl

theorem looked_up (h : Follows fresh history cursor) (key : Key) (t : Ty) :
    Follows fresh (history ++ [.lookup key t]) (cursor.after (.lookup key t)) := by
  rcases lookup_cases h.memoize_eq key t with ⟨outcome, stop, hentry, hlookup⟩ | hlookup
  · have hnext : cursor.after (.lookup key t) =
        { cursor with position := stop, hits := cursor.hits + 1 } := by
      simp only [after, perform, hlookup]
    rw [hnext]
    refine h.stored_nothing hnext rfl rfl rfl rfl (h.stop_le _ _ hentry) ?_
    show cursor.hits + 1 + cursor.misses = cursor.hits + cursor.misses + 1
    omega
  · have hnext : cursor.after (.lookup key t) = { cursor with misses := cursor.misses + 1 } := by
      simp only [after, perform, hlookup]
    rw [hnext]
    refine h.stored_nothing hnext rfl rfl rfl rfl h.position_le ?_
    show cursor.hits + (cursor.misses + 1) = cursor.hits + cursor.misses + 1
    omega

/-- An entry more, or another one in its place. -/
theorem size_insert (h : Follows fresh history cursor) (place : Key × Nat) (entry : Entry) :
    (cursor.cache.insert place entry).size = (insert place (placesOf history)).card := by
  rw [Std.HashMap.size_insert]
  by_cases hmem : place ∈ cursor.cache
  · rw [if_pos hmem, Finset.insert_eq_of_mem ((h.mem_iff place).1 hmem)]
    exact h.size_eq
  · have hnew : place ∉ placesOf history := fun hplace => hmem ((h.mem_iff place).2 hplace)
    rw [if_neg hmem, Finset.card_insert_of_notMem hnew, h.size_eq]

theorem last_iff_store (h : Follows fresh history cursor) {t : Ty} (key : Key) (start : Nat)
    (outcome : Outcome t.Elem) (key' : Key) (start' : Nat) (entry : Entry) :
    (cursor.remember key start outcome).cache[(key', start')]? = some entry ↔
      LastStore fresh (history ++ [.store key start outcome]) key' start' entry := by
  rw [cache_remember h.memoize_eq]
  by_cases hsame : (key, start) = (key', start')
  · obtain ⟨rfl, rfl⟩ := Prod.mk.inj hsame
    rw [if_pos rfl, lastStore_append_store, ← h.eq_afterAll, Option.some.injEq, eq_comm]
  · have hplace : (Operation.store key start outcome).place? ≠ some (key', start') :=
      fun hplace => hsame (Option.some.inj hplace)
    rw [if_neg hsame, lastStore_append_of_ne hplace]
    exact h.last_iff key' start' entry

theorem stored (h : Follows fresh history cursor) {t : Ty} (key : Key) (start : Nat)
    (outcome : Outcome t.Elem) :
    Follows fresh (history ++ [.store key start outcome])
      (cursor.after (.store key start outcome)) := by
  have hnext : cursor.after (.store key start outcome) = cursor.remember key start outcome := rfl
  have hopen : cursor.remember key start outcome = { cursor with
      cache := cursor.cache.insert (key, start) (Entry.mk t outcome cursor.position) } := by
    simp only [remember, h.memoize_eq, if_true]
  have hplaces : placesOf (history ++ [.store key start outcome]) =
      insert (key, start) (placesOf history) := placesOf_append_of_some rfl
  rw [hnext]
  constructor
  case eq_afterAll => rw [afterAll_append_singleton, ← h.eq_afterAll, hnext]
  case input_eq => rw [input_remember, h.input_eq]
  case memoize_eq => rw [hopen, ← h.memoize_eq]
  case position_le =>
    rw [position_remember]
    exact h.position_le
  case stop_le =>
    intro place entry hentry
    rw [cache_remember h.memoize_eq] at hentry
    split at hentry
    · obtain rfl := Option.some.inj hentry
      exact h.position_le
    · exact h.stop_le place entry hentry
  case last_iff => exact h.last_iff_store key start outcome
  case mem_iff =>
    intro place
    rw [hopen, hplaces, Finset.mem_insert, ← h.mem_iff, Std.HashMap.mem_insert, beq_iff_eq,
      eq_comm]
  case size_eq =>
    rw [hopen, hplaces]
    exact h.size_insert _ _
  case counts_eq =>
    rw [hopen, List.countP_append]
    exact h.counts_eq

theorem after (h : Follows fresh history cursor) (op : Operation) :
    Follows fresh (history ++ [op]) (cursor.after op) := by
  cases op with
  | advance count => exact h.moved rfl rfl (cursor.after_advance count)
  | jump target => exact h.moved rfl rfl (cursor.after_jump target)
  | store key start outcome => exact h.stored key start outcome
  | lookup key t => exact h.looked_up key t

theorem afterAll (input : Array Char) (history : List Operation) :
    Follows { input, memoize := true } history
      (({ input, memoize := true } : Cursor).afterAll history) := by
  induction history using List.reverseRecOn with
  | nil => exact begin input
  | append_singleton history op ih =>
    rw [afterAll_append_singleton]
    exact ih.after op

end Follows

end History

/-- What a lookup answers where the last store for the key at the position, if there is one, is
known: at the type of that store a hit, which moves to where it was made, and else a miss. -/
structure Recalls (cursor : Cursor) (key : Key) (t : Ty) (last : Entry → Prop) : Prop where
  unique : ∀ {entry entry' : Entry}, last entry → last entry' → entry = entry'
  hit : ∀ {outcome : Outcome t.Elem} {stop : Nat}, last { ty := t, outcome, stop } →
    cursor.lookup key t = (some outcome, { cursor with position := stop, hits := cursor.hits + 1 })
  other : ∀ {entry : Entry}, last entry → entry.ty ≠ t →
    cursor.lookup key t = (none, { cursor with misses := cursor.misses + 1 })
  never : (∀ entry, ¬ last entry) →
    cursor.lookup key t = (none, { cursor with misses := cursor.misses + 1 })

theorem Follows.recalls {fresh cursor : Cursor} {history : List Operation}
    (h : Follows fresh history cursor) (key : Key) (t : Ty) :
    cursor.Recalls key t (LastStore fresh history key cursor.position) where
  unique {entry entry'} hlast hlast' := by
    have hentry := (h.last_iff key cursor.position entry).2 hlast
    have hentry' := (h.last_iff key cursor.position entry').2 hlast'
    exact Option.some.inj (hentry.symm.trans hentry')
  hit {outcome stop} hlast := by
    have hentry := (h.last_iff key cursor.position _).2 hlast
    simp only [Cursor.lookup, h.memoize_eq, if_true, hentry, Entry.outcomeAt_self]
  other {entry} hlast htype := by
    have hentry := (h.last_iff key cursor.position entry).2 hlast
    have hnone : entry.outcomeAt t = none := dif_neg htype
    simp only [Cursor.lookup, h.memoize_eq, if_true, hentry, hnone]
  never hnone := by
    have hentry : cursor.cache[(key, cursor.position)]? = none := by
      apply Option.eq_none_iff_forall_ne_some.2
      intro entry hentry
      exact hnone entry ((h.last_iff key cursor.position entry).1 hentry)
    simp only [Cursor.lookup, h.memoize_eq, if_true, hentry]

/-- An operation breaks off exactly if it is a motion that overruns. -/
theorem perform_breaks_iff (cursor : Cursor) (op : Operation) :
    (∃ cause, cursor.perform op = .error cause) ↔ op.Overruns cursor := by
  cases op with
  | advance count =>
    rcases cursor.advance_cases count with ⟨hlimit, hmoved⟩ | ⟨hlimit, hmoved⟩
    · exact iff_of_true ⟨_, hmoved⟩ hlimit
    · apply iff_of_false
      · simp [perform, hmoved]
      · exact Nat.not_le.2 hlimit
  | jump target =>
    by_cases htarget : target ≤ cursor.input.size
    · apply iff_of_false
      · simp [perform, cursor.jumpTo_of_le htarget]
      · exact Nat.not_lt.2 htarget
    · exact iff_of_true ⟨_, if_neg htarget⟩ (Nat.not_le.1 htarget)
  | store key start outcome => exact iff_of_false (by simp [perform]) id
  | lookup key t => exact iff_of_false (by simp [perform]) id

/-- What a history leaves of a cursor that remembers nothing: only motions count. -/
structure Forgets (input : Array Char) (cursor : Cursor) : Prop where
  input_eq : cursor.input = input
  position_le : cursor.position ≤ input.size
  memoize_eq : cursor.memoize = false
  statistics_eq : cursor.statistics = { hits := 0, misses := 0, entries := 0 }

theorem Forgets.lookup_eq {input : Array Char} {cursor : Cursor} (h : Forgets input cursor)
    (key : Key) (t : Ty) : cursor.lookup key t = (none, cursor) := by
  unfold Cursor.lookup
  rw [h.memoize_eq]
  rfl

theorem Forgets.remember_eq {input : Array Char} {cursor : Cursor} (h : Forgets input cursor)
    {t : Ty} (key : Key) (start : Nat) (outcome : Outcome t.Elem) :
    cursor.remember key start outcome = cursor := by
  unfold Cursor.remember
  rw [h.memoize_eq]
  rfl

theorem Forgets.moved {input : Array Char} {cursor next : Cursor} (h : Forgets input cursor)
    (hmoved : ∃ q, next = cursor.movedTo q ∧
      (cursor.position ≤ cursor.input.size → q ≤ cursor.input.size)) : Forgets input next := by
  obtain ⟨q, rfl, hq⟩ := hmoved
  rw [h.input_eq] at hq
  exact ⟨h.input_eq, hq h.position_le, h.memoize_eq, h.statistics_eq⟩

theorem Forgets.after {input : Array Char} {cursor : Cursor} (h : Forgets input cursor)
    (op : Operation) : Forgets input (cursor.after op) := by
  cases op with
  | advance count => exact h.moved (cursor.after_advance count)
  | jump target => exact h.moved (cursor.after_jump target)
  | store key start outcome =>
    simp only [Cursor.after, perform, h.remember_eq]
    exact h
  | lookup key t =>
    simp only [Cursor.after, perform, h.lookup_eq]
    exact h

theorem Forgets.afterAll (input : Array Char) (history : List Operation) :
    Forgets input (({ input } : Cursor).afterAll history) := by
  induction history using List.reverseRecOn with
  | nil => exact ⟨rfl, Nat.zero_le _, rfl, rfl⟩
  | append_singleton history op ih =>
    rw [afterAll_append_singleton]
    exact ih.after op

/-- The cursor over an input after a history of operations. -/
def reached (input : Array Char) (memoize : Bool) (history : List Operation) : Cursor :=
  ({ input, memoize } : Cursor).afterAll history

/-- The cursor and its cache are a history of stores. After every history of operations the
position lies inside the input. A cursor that remembers answers a lookup by the last store for
the key at the position, counts every lookup as a hit or a miss, and has as many entries as
places were stored for. One that does not remember is changed by motions only. An operation
that breaks off, which only a motion does that overruns, leaves the cursor as it was. -/
theorem store_history (input : Array Char) (memoize : Bool) (history : List Operation) :
    let cursor := reached input memoize history
    cursor.position ≤ input.size ∧
    (memoize = true →
      (∀ key t, cursor.Recalls key t
        (LastStore { input, memoize } history key cursor.position)) ∧
      cursor.statistics.hits + cursor.statistics.misses = history.countP Operation.isLookup ∧
      cursor.statistics.entries = (placesOf history).card) ∧
    (memoize = false →
      cursor.statistics = { hits := 0, misses := 0, entries := 0 } ∧
      (∀ key t, cursor.lookup key t = (none, cursor)) ∧
      ∀ (t : Ty) key start (outcome : Outcome t.Elem),
        cursor.remember key start outcome = cursor) ∧
    ∀ op, ((∃ cause, cursor.perform op = .error cause) ↔ op.Overruns cursor) ∧
      (op.Overruns cursor → cursor.after op = cursor) := by
  intro cursor
  have hbroken : ∀ op, op.Overruns cursor → cursor.after op = cursor := by
    intro op hop
    obtain ⟨cause, hcause⟩ := (perform_breaks_iff cursor op).2 hop
    unfold after
    rw [hcause]
  cases memoize with
  | true =>
    have hfollows : Follows _ history cursor := .afterAll input history
    exact ⟨hfollows.position_le,
      fun _ => ⟨hfollows.recalls, hfollows.counts_eq, hfollows.size_eq⟩,
      fun hfalse => absurd hfalse (by decide),
      fun op => ⟨perform_breaks_iff cursor op, hbroken op⟩⟩
  | false =>
    have hforgets : Forgets input cursor := .afterAll input history
    exact ⟨hforgets.position_le,
      fun htrue => absurd htrue (by decide),
      fun _ => ⟨hforgets.statistics_eq, hforgets.lookup_eq, fun t => hforgets.remember_eq⟩,
      fun op => ⟨perform_breaks_iff cursor op, hbroken op⟩⟩

/-- An outcome stored ahead of the place where it is looked up, after a jump out of the input:
a hit moves forward to where it was stored, and at another type it is a miss. -/
theorem store_history_ahead :
    let key : Key := { generation := 0, index := 0 }
    let seven : Outcome Ty.natural.Elem := .success 7
    let cursor := reached #['a', 'b', 'c'] true
      [.advance 2, .store (t := .natural) key 0 seven, .jump 0, .jump 9]
    cursor.position = 0 ∧
      cursor.lookup key .natural =
        (some seven, { cursor with position := 2, hits := cursor.hits + 1 }) ∧
      cursor.lookup key .char = (none, { cursor with misses := cursor.misses + 1 }) := by
  intro key seven cursor
  have hlast : LastStore { input := #['a', 'b', 'c'], memoize := true }
      [.advance 2, .store (t := .natural) key 0 seven, .jump 0, .jump 9] key cursor.position
      { ty := .natural, outcome := seven, stop := 2 } :=
    ⟨[.advance 2], [.jump 0, .jump 9], rfl, rfl, by simp [Operation.place?]⟩
  have hrecalls := ((store_history #['a', 'b', 'c'] true
    [.advance 2, .store (t := .natural) key 0 seven, .jump 0, .jump 9]).2.1 rfl).1 key
  exact ⟨rfl, (hrecalls .natural).hit hlast, (hrecalls .char).other hlast (by decide)⟩

end Cursor

end ParserKit
