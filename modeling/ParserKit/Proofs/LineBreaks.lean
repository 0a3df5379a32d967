import Mathlib.Data.Prod.Lex
import Mathlib.Data.Set.Card
import ParserKit.Lines
import ParserKit.Span

/-!
Line and column as an address. Whether a character ends a line can be told from it and the
next one, so the line of an offset and its beginning go forward one character at a time. The
lines of the text go forward with them: as many are finished as line terminators lie behind.
The input is held in memory, where a character takes four bytes and no more than half of all
addresses are in use, so that there is room for the counters.
-/

namespace ParserKit

/-- A text that fits into memory. -/
def Fits (input : Array Char) : Prop :=
  4 * input.size < Word.limit 63

/-- Which leaves room to spare. -/
theorem Fits.room {input : Array Char} (h : Fits input) : 4 * input.size + 100 < Index.limit := by
  have hlimit : Index.limit = 2 * Word.limit 63 := by decide
  have hlarge : 100 < Word.limit 63 := by decide
  unfold Fits at h
  omega

namespace Lines

variable {input : Array Char} {i j k n : Nat} {c : Char} {span : Span}

/-- A region of the input that ends a line: a carriage return with a line feed, which count
once, or one of them without the other. -/
inductive Terminator (input : Array Char) : Span → Prop
  | pair {i : Nat} : input[i]? = some '\r' → input[i + 1]? = some '\n' →
      Terminator input ⟨i, i + 2⟩
  | lineFeed {i : Nat} : input[i]? = some '\n' → (∀ j, j + 1 = i → input[j]? ≠ some '\r') →
      Terminator input ⟨i, i + 1⟩
  | carriageReturn {i : Nat} : input[i]? = some '\r' → input[i + 1]? ≠ some '\n' →
      Terminator input ⟨i, i + 1⟩

/-- Whether a line ends behind the character at `i`. -/
def endsAt (input : Array Char) (i : Nat) : Bool :=
  input[i]? == some '\n' || input[i]? == some '\r' && input[i + 1]? != some '\n'

theorem endsAt_iff : endsAt input i = true ↔
    input[i]? = some '\n' ∨ input[i]? = some '\r' ∧ input[i + 1]? ≠ some '\n' := by
  simp [endsAt]

theorem charAt_eq (h : input[i]? = some c) : charAt input i = .ok c := by
  simp only [charAt, h]

theorem isBreak_eq (hi : i < input.size) (h : i + 1 < Index.limit) :
    isBreak input i = .ok (endsAt input i) := by
  obtain ⟨c, hchar⟩ : ∃ c, input[i]? = some c := ⟨_, Array.getElem?_eq_getElem hi⟩
  simp only [isBreak, charAt_eq hchar, bind, Except.bind]
  split
  · simp [endsAt, hchar, pure, Except.pure]
  · rw [Index.add_eq_ok h]
    simp [endsAt, hchar, pure, Except.pure]
  · next hfeed hreturn =>
    have hneither : endsAt input i = false := by
      rw [← Bool.not_eq_true, endsAt_iff, hchar]
      rintro (hends | ⟨hends, -⟩)
      · exact hfeed (Option.some.inj hends)
      · exact hreturn (Option.some.inj hends)
    rw [hneither]
    rfl

/-- A loop over the offsets before `n` that goes through the given values. -/
theorem foldlM_range_eq {β : Type} {f : β → Nat → Except Fault β} (value : Nat → β)
    (h : ∀ k < n, f (value k) k = .ok (value (k + 1))) :
    (List.range n).foldlM f (value 0) = .ok (value n) := by
  induction n with
  | zero => rfl
  | succ n ih =>
    rw [List.range_succ, List.foldlM_append, ih fun k hk => h k (Nat.lt_succ_of_lt hk)]
    show [n].foldlM f (value n) = .ok (value (n + 1))
    rw [List.foldlM_cons, h n (Nat.lt_succ_self n)]
    rfl

section Terminators

/-- A terminator ends where a line does. -/
theorem Terminator.stop_eq (h : Terminator input span) :
    ∃ i, span.stop = i + 1 ∧ endsAt input i = true := by
  cases h with
  | pair hreturn hfeed => exact ⟨_, rfl, endsAt_iff.2 (.inl hfeed)⟩
  | lineFeed hfeed halone => exact ⟨_, rfl, endsAt_iff.2 (.inl hfeed)⟩
  | carriageReturn hreturn halone => exact ⟨_, rfl, endsAt_iff.2 (.inr ⟨hreturn, halone⟩)⟩

theorem exists_terminator (h : endsAt input i = true) :
    ∃ start, Terminator input ⟨start, i + 1⟩ := by
  rcases endsAt_iff.1 h with hfeed | ⟨hreturn, halone⟩
  · by_cases hbefore : ∃ j, j + 1 = i ∧ input[j]? = some '\r'
    · obtain ⟨j, rfl, hreturn⟩ := hbefore
      exact ⟨j, .pair hreturn hfeed⟩
    · exact ⟨i, .lineFeed hfeed fun j hj hreturn => hbefore ⟨j, hj, hreturn⟩⟩
  · exact ⟨i, .carriageReturn hreturn halone⟩

/-- Two terminators with the same end are the same. -/
theorem Terminator.eq_of_stop_eq {span' : Span} (h : Terminator input span)
    (h' : Terminator input span') (hstop : span.stop = span'.stop) : span = span' := by
  have hstart : span.start = span'.start := by
    cases h with
    | pair hreturn hfeed =>
      cases h' with
      | pair _ _ => simpa using hstop
      | lineFeed _ halone => exact absurd hreturn (halone _ (by simpa using hstop))
      | carriageReturn hreturn' _ =>
        obtain rfl := Nat.succ.inj hstop
        exact absurd (hfeed.symm.trans hreturn') (by simp)
    | lineFeed hfeed halone =>
      cases h' with
      | pair hreturn' _ => exact absurd hreturn' (halone _ (by simpa using hstop.symm))
      | lineFeed _ _ => simpa using hstop
      | carriageReturn _ _ => simpa using hstop
    | carriageReturn hreturn halone =>
      cases h' with
      | pair _ hfeed' =>
        obtain rfl := Nat.succ.inj hstop
        exact absurd (hreturn.symm.trans hfeed') (by simp)
      | lineFeed _ _ => simpa using hstop
      | carriageReturn _ _ => simpa using hstop
  cases span
  cases span'
  simp_all

/-- Before an offset lie as many terminators as lines end. -/
theorem ncard_terminators (input : Array Char) (i : Nat) :
    {span | Terminator input span ∧ span.stop ≤ i}.ncard =
      ((Finset.range i).filter fun k => endsAt input k = true).card := by
  have himage : ((Finset.range i).filter fun k => endsAt input k = true : Set Nat) =
      (fun span : Span => span.stop - 1) '' {span | Terminator input span ∧ span.stop ≤ i} := by
    ext k
    simp only [Finset.coe_filter, Finset.mem_range, Set.mem_ofPred_eq, Set.mem_image]
    constructor
    · rintro ⟨hk, hends⟩
      obtain ⟨start, hterminator⟩ := exists_terminator hends
      exact ⟨_, ⟨hterminator, hk⟩, rfl⟩
    · rintro ⟨span, ⟨hterminator, hstop⟩, rfl⟩
      obtain ⟨k, hk, hends⟩ := hterminator.stop_eq
      rw [hk] at hstop ⊢
      exact ⟨hstop, hends⟩
  have hinjective : Set.InjOn (fun span : Span => span.stop - 1)
      {span | Terminator input span ∧ span.stop ≤ i} := by
    rintro span ⟨h, -⟩ span' ⟨h', -⟩ hsame
    obtain ⟨k, hk, -⟩ := h.stop_eq
    obtain ⟨k', hk', -⟩ := h'.stop_eq
    refine h.eq_of_stop_eq h' ?_
    simp only at hsame
    omega
  rw [← Set.ncard_coe_finset, himage, hinjective.ncard_image]

end Terminators

/-- The line that is reached before the character at an offset, and where it begins. -/
def markAt (input : Array Char) : Nat → Mark
  | 0 => { line := 1, start := 0 }
  | i + 1 =>
    if endsAt input i then { line := (markAt input i).line + 1, start := i + 1 }
    else markAt input i

section Marks

theorem markAt_of_ends (h : endsAt input i = true) :
    markAt input (i + 1) = { line := (markAt input i).line + 1, start := i + 1 } :=
  if_pos h

theorem markAt_of_not_ends (h : endsAt input i = false) :
    markAt input (i + 1) = markAt input i := by
  rw [markAt, h, if_neg Bool.false_ne_true]

theorem line_eq_card (input : Array Char) (i : Nat) : (markAt input i).line =
    ((Finset.range i).filter fun k => endsAt input k = true).card + 1 := by
  induction i with
  | zero => rfl
  | succ i ih =>
    rw [Finset.range_add_one, Finset.filter_insert]
    cases hends : endsAt input i with
    | true =>
      rw [markAt_of_ends hends, if_pos rfl, Finset.card_insert_of_notMem (by simp), ih]
    | false => rw [markAt_of_not_ends hends, if_neg Bool.false_ne_true, ih]

theorem start_le (input : Array Char) (i : Nat) : (markAt input i).start ≤ i := by
  induction i with
  | zero => exact Nat.le_refl 0
  | succ i ih =>
    cases hends : endsAt input i with
    | true => rw [markAt_of_ends hends]
    | false =>
      rw [markAt_of_not_ends hends]
      exact Nat.le_succ_of_le ih

theorem line_pos (input : Array Char) (i : Nat) : 1 ≤ (markAt input i).line := by
  rw [line_eq_card]
  exact Nat.le_add_left _ _

theorem line_le (input : Array Char) (i : Nat) : (markAt input i).line ≤ i + 1 := by
  rw [line_eq_card]
  have hcard := Finset.card_filter_le (Finset.range i) fun k => endsAt input k = true
  rw [Finset.card_range] at hcard
  omega

/-- A line begins with the text or behind a line that ends. -/
theorem start_eq (input : Array Char) (i : Nat) : (markAt input i).start = 0 ∨
    ∃ k < i, (markAt input i).start = k + 1 ∧ endsAt input k = true := by
  induction i with
  | zero => exact .inl rfl
  | succ i ih =>
    cases hends : endsAt input i with
    | true =>
      rw [markAt_of_ends hends]
      exact .inr ⟨i, Nat.lt_succ_self i, rfl, hends⟩
    | false =>
      rw [markAt_of_not_ends hends]
      refine ih.imp_right ?_
      rintro ⟨k, hk, hstart, hends⟩
      exact ⟨k, Nat.lt_succ_of_lt hk, hstart, hends⟩

theorem lt_start_of_ends (hk : k < i) (h : endsAt input k = true) :
    k < (markAt input i).start := by
  induction i with
  | zero => exact absurd hk (Nat.not_lt_zero k)
  | succ i ih =>
    cases hends : endsAt input i with
    | true =>
      rw [markAt_of_ends hends]
      exact hk
    | false =>
      rw [markAt_of_not_ends hends]
      rcases Nat.lt_succ_iff_lt_or_eq.1 hk with hlt | rfl
      · exact ih hlt
      · rw [h] at hends
        cases hends

/-- A further offset lies in a later line, or further on in the same one. -/
theorem line_lt_or_eq (input : Array Char) (hij : i ≤ j) :
    (markAt input i).line < (markAt input j).line ∨ markAt input i = markAt input j := by
  induction j, hij using Nat.le_induction with
  | base => exact .inr rfl
  | succ j _ ih =>
    cases hends : endsAt input j with
    | true =>
      rw [markAt_of_ends hends]
      rcases ih with hlt | hsame
      · exact .inl (Nat.lt_succ_of_lt hlt)
      · rw [hsame]
        exact .inl (Nat.lt_succ_self _)
    | false =>
      rw [markAt_of_not_ends hends]
      exact ih

end Marks

/-- The line and the column, when the counters have room. -/
def placeOf (input : Array Char) (i : Nat) : Nat × Nat :=
  ((markAt input i).line, i - (markAt input i).start + 1)

theorem Mark.pass_eq (hi : i < input.size) (h : i + 2 < Index.limit) :
    Mark.pass input (markAt input i) i = .ok (markAt input (i + 1)) := by
  have hline := line_le input i
  have hbreak : isBreak input i = .ok (endsAt input i) := isBreak_eq hi (by omega)
  simp only [Mark.pass, hbreak, bind, Except.bind]
  cases hends : endsAt input i with
  | true =>
    rw [markAt_of_ends hends, if_pos rfl, Index.add_eq_ok (by omega), Index.add_eq_ok (by omega)]
    rfl
  | false =>
    rw [markAt_of_not_ends hends]
    rfl

theorem lineAndColumn_eq (hroom : input.size + 2 < Index.limit) (hi : i ≤ input.size) :
    lineAndColumn input i = .ok (placeOf input i) := by
  have hfold : (List.range i).foldlM (Mark.pass input) { line := 1, start := 0 } =
      .ok (markAt input i) :=
    foldlM_range_eq (markAt input) fun k hk => Mark.pass_eq (by omega) (by omega)
  have hstart := start_le input i
  have hcolumn : Index.add (i - (markAt input i).start) 1 =
      .ok (i - (markAt input i).start + 1) := Index.add_eq_ok (by omega)
  simp only [lineAndColumn, Nat.min_eq_left hi, hfold, bind, Except.bind, Index.sub_eq_ok hstart,
    hcolumn]
  rfl

/-- The lines that are finished before the character at an offset, and what has been read of
the next one. -/
def draftAt (input : Array Char) : Nat → Draft
  | 0 => { finished := [], current := [] }
  | i + 1 =>
    let draft := draftAt input i
    if endsAt input i then { finished := draft.close, current := [] }
    else { draft with current := (input[i]?.filter (· != '\r')).toList ++ draft.current }

section Drafts

theorem draftAt_of_ends (h : endsAt input i = true) :
    draftAt input (i + 1) = { finished := (draftAt input i).close, current := [] } :=
  if_pos h

theorem draftAt_of_not_ends (h : endsAt input i = false) : draftAt input (i + 1) =
    { draftAt input i with
      current := (input[i]?.filter (· != '\r')).toList ++ (draftAt input i).current } := by
  rw [draftAt, h, if_neg Bool.false_ne_true]

theorem Draft.pass_eq (hi : i < input.size) (h : i + 1 < Index.limit) :
    Draft.pass input (draftAt input i) i = .ok (draftAt input (i + 1)) := by
  simp only [Draft.pass, isBreak_eq hi h, bind, Except.bind]
  cases hends : endsAt input i with
  | true =>
    rw [draftAt_of_ends hends]
    rfl
  | false =>
    obtain ⟨c, hchar⟩ : ∃ c, input[i]? = some c := ⟨_, Array.getElem?_eq_getElem hi⟩
    rw [draftAt_of_not_ends hends, charAt_eq hchar, hchar]
    by_cases hreturn : c = '\r'
    · subst hreturn
      rfl
    · simp [Option.filter, hreturn, pure, Except.pure]

/-- The lines, when the text is broken off at an offset. -/
def linesAt (input : Array Char) (i : Nat) : List String :=
  (draftAt input i).close.reverse

theorem split_eq (h : input.size + 1 < Index.limit) :
    split input = .ok (linesAt input input.size) := by
  have hfold : (List.range input.size).foldlM (Draft.pass input)
      { finished := [], current := [] } = .ok (draftAt input input.size) :=
    foldlM_range_eq (draftAt input) fun k hk => Draft.pass_eq hk (by omega)
  simp only [split, hfold, bind, Except.bind]
  rfl

/-- As many lines are finished as are counted, but for the one that is read. -/
theorem length_finished (input : Array Char) (i : Nat) :
    (draftAt input i).finished.length + 1 = (markAt input i).line := by
  induction i with
  | zero => rfl
  | succ i ih =>
    cases hends : endsAt input i with
    | true =>
      rw [draftAt_of_ends hends, markAt_of_ends hends, ← ih]
      rfl
    | false => rw [draftAt_of_not_ends hends, markAt_of_not_ends hends, ← ih]

theorem length_linesAt (input : Array Char) (i : Nat) :
    (linesAt input i).length = (markAt input i).line := by
  rw [linesAt, List.length_reverse, Draft.close, List.length_cons, length_finished]

end Drafts

/-- What a place says of the offset that it is the address of. -/
structure Addresses (input : Array Char) (i line column : Nat) : Prop where
  line_pos : 1 ≤ line
  line_eq : line - 1 = {span | Terminator input span ∧ span.stop ≤ i}.ncard
  column_pos : 1 ≤ column
  column_le : column - 1 ≤ i
  /-- The line begins behind a terminator, or with the text if none lies before the offset. -/
  begins : (∃ start, Terminator input ⟨start, i - (column - 1)⟩) ∨
    i - (column - 1) = 0 ∧ ∀ span, Terminator input span → i < span.stop
  /-- That terminator is the last one. -/
  last : ∀ span, Terminator input span → span.stop ≤ i → span.stop ≤ i - (column - 1)
  unbroken : ∀ span, Terminator input span → ¬ (i - (column - 1) < span.stop ∧ span.stop < i)

theorem placeOf_addresses (input : Array Char) (i : Nat) :
    Addresses input i (placeOf input i).1 (placeOf input i).2 := by
  have hstart := start_le input i
  have hbegin : i - ((placeOf input i).2 - 1) = (markAt input i).start := by
    simp only [placeOf]
    omega
  have hlast : ∀ span, Terminator input span → span.stop ≤ i →
      span.stop ≤ (markAt input i).start := by
    intro span hterminator hstop
    obtain ⟨k, hk, hends⟩ := hterminator.stop_eq
    have hbefore := lt_start_of_ends (i := i) (by omega) hends
    omega
  refine ⟨?_, ?_, Nat.succ_pos _, ?_, ?_, ?_, ?_⟩
  · exact line_pos input i
  · simp only [placeOf, line_eq_card, ncard_terminators, Nat.add_sub_cancel]
  · simp only [placeOf]
    omega
  · rw [hbegin]
    rcases start_eq input i with hzero | ⟨k, -, hk, hends⟩
    · refine .inr ⟨hzero, fun span hterminator => ?_⟩
      by_contra hbefore
      obtain ⟨k, hk, -⟩ := hterminator.stop_eq
      have hle := hlast span hterminator (by omega)
      omega
    · rw [hk]
      exact .inl (exists_terminator hends)
  · rw [hbegin]
    exact hlast
  · rw [hbegin]
    rintro span hterminator ⟨hafter, hbefore⟩
    have hle := hlast span hterminator (by omega)
    omega

theorem placeOf_lt (hij : i < j) : toLex (placeOf input i) < toLex (placeOf input j) := by
  rw [Prod.Lex.toLex_lt_toLex]
  rcases line_lt_or_eq input (Nat.le_of_lt hij) with hlt | hsame
  · exact .inl hlt
  · refine .inr ⟨congrArg Mark.line hsame, ?_⟩
    have hstart := start_le input i
    simp only [placeOf, ← hsame]
    omega

/-- Line and column are an address of an offset. The line counts the terminators that lie
before it, and the column goes back to the last of them; a further offset has a further
address; and the line at the end of the text is the number of its lines. -/
theorem lineAndColumn_addresses (input : Array Char) (hfits : Fits input) :
    ∃ place : Nat → Nat × Nat,
      (∀ i ≤ input.size, lineAndColumn input i = .ok (place i) ∧
        Addresses input i (place i).1 (place i).2) ∧
      (∀ i j, i < j → j ≤ input.size → toLex (place i) < toLex (place j)) ∧
      ∃ lines, split input = .ok lines ∧ (place input.size).1 = lines.length := by
  have hroom := hfits.room
  refine ⟨placeOf input, fun i hi => ⟨?_, placeOf_addresses input i⟩, ?_, ?_⟩
  · exact lineAndColumn_eq (by omega) hi
  · exact fun i j hij _ => placeOf_lt hij
  · exact ⟨_, split_eq (by omega), (length_linesAt input input.size).symm⟩

/-- All three kinds of terminators, and two carriage returns before a line feed. -/
theorem lineAndColumn_addresses_mixed :
    Fits "a\r\n\r\r\nb\n".toList.toArray ∧
    lineAndColumn "a\r\n\r\r\nb\n".toList.toArray 2 = .ok (1, 3) ∧
    Addresses "a\r\n\r\r\nb\n".toList.toArray 2 1 3 ∧
    lineAndColumn "a\r\n\r\r\nb\n".toList.toArray 8 = .ok (5, 1) ∧
    ∃ lines, split "a\r\n\r\r\nb\n".toList.toArray = .ok lines ∧ 5 = lines.length := by
  have hfits : Fits "a\r\n\r\r\nb\n".toList.toArray := by unfold Fits; decide
  obtain ⟨place, haddress, -, lines, hlines, hend⟩ := lineAndColumn_addresses _ hfits
  have hmiddle : lineAndColumn "a\r\n\r\r\nb\n".toList.toArray 2 = .ok (1, 3) := by decide +kernel
  have hlast : lineAndColumn "a\r\n\r\r\nb\n".toList.toArray 8 = .ok (5, 1) := by decide +kernel
  obtain ⟨hplace, haddresses⟩ := haddress 2 (by decide)
  obtain ⟨hplaceLast, -⟩ := haddress 8 (by decide)
  rw [← Except.ok.inj (hmiddle.symm.trans hplace)] at haddresses
  have hsize : "a\r\n\r\r\nb\n".toList.toArray.size = 8 := by decide
  rw [hsize, ← Except.ok.inj (hlast.symm.trans hplaceLast)] at hend
  exact ⟨hfits, hmiddle, haddresses, hlast, lines, hlines, hend⟩

end Lines

end ParserKit
