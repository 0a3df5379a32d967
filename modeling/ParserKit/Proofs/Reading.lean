import Mathlib.Data.List.Forall2
import ParserKit.Proofs.Motion

/-!
What the readers deliver when every offset of the input is in range: a character of a
class, the part that a literal and the input have in common, a piece of the text.
-/

namespace ParserKit

namespace Cursor

variable (c : Cursor) (count : Nat)

theorem peek_eq (h : c.position + count < Index.limit) :
    c.peek count = .ok c.input[c.position + count]? := by
  simp only [peek, Index.add_eq_ok h]
  rfl

theorem advance_eq (h : c.position + count < Index.limit)
    (hin : c.position + count ≤ c.input.size) :
    c.advance count = .ok (c.movedTo (c.position + count)) := by
  simp only [advance, Index.add_eq_ok h, bind, Except.bind, pure, Except.pure, Nat.min_eq_left hin]
  rfl

theorem jumpTo_of_le {q : Nat} (h : q ≤ c.input.size) : c.jumpTo q = .ok (c.movedTo q) :=
  if_pos h

theorem slice_eq_extract (hin : c.position + count ≤ c.input.size)
    (hsize : c.input.size < Index.limit) : c.slice 0 count =
      .ok (String.ofList (c.input.extract c.position (c.position + count)).toList) := by
  have hstart : Index.add c.position 0 = .ok c.position := Index.add_eq_ok (by omega)
  have hstop : Index.add c.position count = .ok (c.position + count) := Index.add_eq_ok (by omega)
  have hfirst : min c.position c.input.size = c.position := by omega
  have hlast : min (max c.position (c.position + count)) c.input.size = c.position + count := by
    omega
  have hslice := sliceChars_eq_ok (Nat.le_add_right c.position count) hin
  simp only [slice, hstart, hstop, bind, Except.bind, hfirst, hlast, hslice]
  rfl

theorem slice_eq (hin : c.position + count ≤ c.input.size) (hsize : c.input.size < Index.limit) :
    ∃ text, c.slice 0 count = .ok text :=
  ⟨_, c.slice_eq_extract count hin hsize⟩

end Cursor

/-- The longest beginning of a text that agrees letter by letter with given characters. -/
def agreeing (same : Char → Char → Bool) : (chars text : List Char) → List Char
  | expected :: chars, c :: text => if same expected c then c :: agreeing same chars text else []
  | _, _ => []

/-- The longest beginning that given characters and a text have in common. -/
def common (chars text : List Char) : List Char :=
  agreeing (fun expected c => c == expected) chars text

section Agreeing

variable {same : Char → Char → Bool} {chars text other : List Char}

theorem agreeing_prefix : agreeing same chars text <+: text := by
  fun_induction agreeing same chars text with
  | case1 expected chars c text hc ih => exact List.cons_prefix_cons.2 ⟨rfl, ih⟩
  | case2 => exact List.nil_prefix
  | case3 => exact List.nil_prefix

theorem forall₂_of_agreeing (h : (agreeing same chars text).length = chars.length) :
    List.Forall₂ (fun expected c => same expected c = true) chars (agreeing same chars text) := by
  fun_induction agreeing same chars text with
  | case1 expected chars c text hc ih => exact .cons hc (ih (Nat.succ.inj h))
  | case2 => exact absurd h (by simp)
  | case3 chars text hnone =>
    obtain rfl := List.length_eq_zero_iff.1 h.symm
    exact .nil

/-- A letter in which the text differs comes after those in which it agrees. -/
theorem agreeing_stops (h : (agreeing same chars text).length ≠ chars.length) :
    ∃ agreed expected more rest, chars = agreed ++ expected :: more ∧
      text = agreeing same chars text ++ rest ∧
      List.Forall₂ (fun expected c => same expected c = true) agreed (agreeing same chars text) ∧
      ∀ c, rest.head? = some c → same expected c = false := by
  fun_induction agreeing same chars text with
  | case1 expected chars c text hc ih =>
    obtain ⟨agreed, expected', more, rest, rfl, htext, hagreed, hrest⟩ :=
      ih fun heq => h (congrArg Nat.succ heq)
    exact ⟨expected :: agreed, expected', more, rest, rfl, congrArg (c :: ·) htext,
      .cons hc hagreed, hrest⟩
  | case2 expected chars c text hc =>
    exact ⟨[], expected, chars, c :: text, rfl, rfl, .nil, by simpa using hc⟩
  | case3 chars text hnone =>
    cases chars with
    | nil => exact absurd rfl h
    | cons expected chars =>
      cases text with
      | nil => exact ⟨[], expected, chars, [], rfl, rfl, .nil, by simp⟩
      | cons c text => exact absurd rfl (hnone expected chars c text rfl)

theorem common_prefix_left : common chars text <+: chars := by
  unfold common
  fun_induction agreeing _ chars text with
  | case1 expected chars c text hc ih => exact List.cons_prefix_cons.2 ⟨by simpa using hc, ih⟩
  | case2 => exact List.nil_prefix
  | case3 => exact List.nil_prefix

theorem common_prefix_right : common chars text <+: text :=
  agreeing_prefix

/-- Every common beginning is one of the longest. -/
theorem prefix_common (h : other <+: chars) (h' : other <+: text) :
    other <+: common chars text := by
  induction other generalizing chars text with
  | nil => exact List.nil_prefix
  | cons c other ih =>
    obtain ⟨chars, rfl, hchars⟩ := List.cons_prefix_iff.1 h
    obtain ⟨text, rfl, htext⟩ := List.cons_prefix_iff.1 h'
    rw [common, agreeing, if_pos (by simp)]
    exact List.cons_prefix_cons.2 ⟨rfl, ih hchars htext⟩

theorem common_eq_left_iff : common chars text = chars ↔ chars <+: text := by
  constructor
  · intro h
    rw [← h]
    exact common_prefix_right
  · intro h
    have hwhole : chars <+: common chars text := prefix_common (List.prefix_refl _) h
    exact common_prefix_left.eq_of_length_le hwhole.length_le

end Agreeing

namespace Atom

variable {c : Cursor}

theorem readSatisfy_accepted {accepts : Char → Bool} {x : Char}
    (hsize : c.input.size < Index.limit) (hchar : c.input[c.position]? = some x)
    (hx : accepts x = true) :
    readSatisfy accepts c = .ok (.success x, c.movedTo (c.position + 1)) := by
  obtain ⟨hlt, -⟩ := Array.getElem?_eq_some_iff.1 hchar
  simp only [readSatisfy, Cursor.peek_eq c 0 (by omega), Nat.add_zero, hchar, hx,
    Cursor.advance_eq c 1 (by omega) hlt, bind, Except.bind, if_true]
  rfl

theorem readSatisfy_rejected {accepts : Char → Bool} (hsize : c.input.size < Index.limit)
    (hin : c.position ≤ c.input.size)
    (hchar : ∀ x, c.input[c.position]? = some x → accepts x = false) :
    ∃ found, readSatisfy accepts c = .ok (.fail (.unexpected found c.position), c) := by
  simp only [readSatisfy, Cursor.peek_eq c 0 (by omega), Nat.add_zero, bind,
    Except.bind]
  cases hfound : c.input[c.position]? with
  | none => exact ⟨_, rfl⟩
  | some x =>
    simp only [hchar x hfound]
    exact ⟨_, rfl⟩

theorem readChar_accepted {x : Char} (hsize : c.input.size < Index.limit)
    (hchar : c.input[c.position]? = some x) :
    readChar x c = .ok (.success x, c.movedTo (c.position + 1)) := by
  obtain ⟨hlt, -⟩ := Array.getElem?_eq_some_iff.1 hchar
  simp only [readChar, Cursor.peek_eq c 0 (by omega), Nat.add_zero, hchar,
    Cursor.advance_eq c 1 (by omega) hlt, bind, Except.bind, if_true]
  rfl

theorem readChar_rejected {x : Char} (hsize : c.input.size < Index.limit)
    (hin : c.position ≤ c.input.size) (hchar : c.input[c.position]? ≠ some x) :
    readChar x c = .ok (.fail (.positioned (String.singleton x) c.position), c) := by
  simp only [readChar, Cursor.peek_eq c 0 (by omega), Nat.add_zero, bind, Except.bind,
    if_neg hchar]
  rfl

/-- As much of a literal matches as the text and the input have in common. -/
theorem matchFrom_eq (hsize : c.input.size < Index.limit) (wanted : List Char) (index : Nat)
    (hin : c.position + index ≤ c.input.size) :
    matchFrom c wanted index =
      .ok (index + (common wanted (c.input.toList.drop (c.position + index))).length) := by
  induction wanted generalizing index with
  | nil => rfl
  | cons x rest ih =>
    have hpeek := Cursor.peek_eq c index (by omega)
    have hhead : c.input[c.position + index]? = (c.input.toList.drop (c.position + index)).head? := by
      rw [List.head?_drop, Array.getElem?_toList]
    have htail : (c.input.toList.drop (c.position + index)).tail =
        c.input.toList.drop (c.position + (index + 1)) := List.tail_drop
    simp only [matchFrom, hpeek, bind, Except.bind, hhead]
    cases hahead : c.input.toList.drop (c.position + index) with
    | nil => rfl
    | cons y ahead =>
      rw [hahead] at htail
      simp only [List.head?_cons, Option.some.injEq, common, agreeing]
      by_cases hyx : y = x
      · have hmore : index + 1 ≤ c.input.size - c.position := by
          have hlength := congrArg List.length hahead
          simp only [List.length_drop, Array.length_toList, List.length_cons] at hlength
          omega
        simp only [hyx, beq_self_eq_true, if_true, ih (index + 1) (by omega), ← htail,
          List.tail_cons, List.length_cons, common]
        exact congrArg Except.ok (by omega)
      · simp only [hyx, beq_eq_false_iff_ne.2 hyx, if_false]
        rfl

theorem readString_common (chars : String) (hsize : c.input.size < Index.limit)
    (hin : c.position ≤ c.input.size) :
    ∃ read, read = common chars.toList (c.input.toList.drop c.position) ∧
      c.position + read.length ≤ c.input.size ∧
      readString chars c = .ok
        (if read = chars.toList then .success chars
          else .failure ⟨.positioned chars c.position, read ≠ []⟩,
          c.movedTo (c.position + read.length)) := by
  have hfront : common chars.toList (c.input.toList.drop c.position) <+: chars.toList :=
    common_prefix_left
  have hahead : common chars.toList (c.input.toList.drop c.position) <+:
      c.input.toList.drop c.position := common_prefix_right
  have hle := hahead.length_le
  have hmatch := matchFrom_eq hsize chars.toList 0 hin
  simp only [Nat.add_zero, Nat.zero_add] at hmatch
  generalize common chars.toList (c.input.toList.drop c.position) = read at *
  simp only [List.length_drop, Array.length_toList] at hle
  have hread : c.position + read.length ≤ c.input.size := by omega
  have hwhole : read.length = chars.toList.length ↔ read = chars.toList :=
    ⟨hfront.eq_of_length, congrArg List.length⟩
  refine ⟨read, rfl, hread, ?_⟩
  simp only [readString, hmatch, Cursor.advance_eq c _ (by omega) hread, bind, Except.bind, hwhole,
    List.length_pos_iff]
  split <;> rfl

theorem readString_eq (chars : String) (hsize : c.input.size < Index.limit)
    (hin : c.position ≤ c.input.size) :
    (chars.toList <+: c.input.toList.drop c.position ∧
      readString chars c = .ok (.success chars, c.movedTo (c.position + chars.toList.length))) ∨
    (¬ chars.toList <+: c.input.toList.drop c.position ∧
      ∃ consumed stop, readString chars c =
        .ok (.failure ⟨.positioned chars c.position, consumed⟩, c.movedTo stop)) := by
  obtain ⟨read, hcommon, -, hstring⟩ := readString_common chars hsize hin
  rw [hstring, ← common_eq_left_iff, ← hcommon]
  by_cases hwhole : read = chars.toList
  · rw [if_pos hwhole, hwhole]
    exact .inl ⟨rfl, rfl⟩
  · rw [if_neg hwhole]
    exact .inr ⟨hwhole, _, _, rfl⟩

end Atom

theorem State.jumpTo_self {s : State} (h : s.position ≤ s.cursor.input.size) :
    s.jumpTo s.position = .ok s := by
  rw [State.jumpTo_eq, if_pos h]
  rfl

end ParserKit
