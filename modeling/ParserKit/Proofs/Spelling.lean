import ParserKit.Proofs.Deciding
import ParserKit.Proofs.Tokens

/-!
A text read letter by letter. A sequence of parsers for one character each goes as far as the
characters ahead agree with what the parsers ask for, and its failure counts as consuming if it
got anywhere. The parser of a literal text compares first and moves once, and comes to the same
end.
-/

namespace ParserKit

/-- What holds of the members of an array in order holds of its places in order. -/
theorem forall₂_finRange {α β : Type} {R : α → β → Prop} {items : Array α} {xs : List β}
    (h : List.Forall₂ R items.toList xs) :
    List.Forall₂ (fun (k : Fin items.size) x => R items[k] x) (List.finRange items.size) xs := by
  have hmap : (List.finRange items.size).map (fun k => items[k]) = items.toList :=
    List.ext_getElem (by simp) (by simp)
  rw [← List.forall₂_map_left_iff (f := fun k : Fin items.size => items[k]), hmap]
  exact h

namespace Parser

section Letters

variable {input : Array Char} {scope : Scope} {i j n : Nat} {chars front rest : List Char}
  {same : Char → Char → Bool} {items : Fin n → Parser (.option .char)} {left more : List (Fin n)}
  {outcome : Outcome (List Char)}

/-- The parser reads one character of a class, which is present. -/
def Presents (input : Array Char) (scope : Scope) (p : Parser (.option .char))
    (accepts : Char → Bool) : Prop :=
  ∃ q : Parser .char, p = q.map (b := .option .char) some ∧ q.Accepts input scope accepts

/-- A sequence of letters goes on behind those with which the text agrees. -/
theorem Collects.agreed (start : Nat) (values : List Char)
    (hitems : List.Forall₂ (fun k expected => (items k).Presents input scope (same expected)) left
      chars)
    (hfront : List.Forall₂ (fun expected c => same expected c = true) chars front)
    (htext : input.toList.drop i = front ++ rest)
    (h : Collects (t := .char) input scope items start more (front.reverse ++ values)
      (i + front.length) outcome j) :
    Collects (t := .char) input scope items start (left ++ more) values i outcome j := by
  induction hfront generalizing left values i with
  | nil =>
    cases hitems
    exact h
  | @cons expected c chars front hc _ ih =>
    cases hitems with
    | cons hitem hitems =>
      obtain ⟨q, hq, haccepts⟩ := hitem
      have hruns := (haccepts.runs htext hc).map (b := .option .char) some
      rw [← hq] at hruns
      have hstop : i + (c :: front).length = i + 1 + front.length := by
        rw [List.length_cons]
        omega
      rw [List.reverse_cons, List.append_assoc, List.singleton_append, hstop] at h
      exact .cons hruns (ih (c :: values) hitems (drop_eq_cons_iff.1 htext).2 h)

/-- It fails at the first letter in which the text differs. -/
theorem Collects.stopped (start : Nat) (values : List Char)
    (hitems : List.Forall₂ (fun k expected => (items k).Presents input scope (same expected)) left
      chars)
    (hi : i ≤ input.size)
    (h : (agreeing same chars (input.toList.drop i)).length ≠ chars.length) :
    ∃ expectation, Collects (t := .char) input scope items start left values i
      (.failure ⟨expectation, i + (agreeing same chars (input.toList.drop i)).length != start⟩)
      (i + (agreeing same chars (input.toList.drop i)).length) := by
  obtain ⟨agreed, expected, more, rest, rfl, htext, hagreed, hrest⟩ := agreeing_stops h
  generalize agreeing same (agreed ++ expected :: more) (input.toList.drop i) = front at *
  have hfront := List.forall₂_take_append _ _ _ hitems
  obtain ⟨item, later, ⟨q, hq, haccepts⟩, -, hback⟩ :=
    List.forall₂_cons_right_iff.1 (List.forall₂_drop_append _ _ _ hitems)
  obtain ⟨expectation, hrefuses⟩ := haccepts.refuses (add_length_le htext hi) (by
    rw [drop_add_length htext]
    exact hrest)
  have hfails : (items item).Runs input scope (i + front.length) (.fail expectation)
      (i + front.length) := by
    rw [hq]
    exact hrefuses.convert_failure _
  rw [← List.take_append_drop agreed.length left, hback]
  exact ⟨expectation, .agreed start values hfront hagreed htext (.failed hfails)⟩

/-- What becomes of a text that is read from a place, when as much as is given lies ahead. -/
def spellingOutcome (text : String) (i : Nat) (read : List Char) : Outcome String :=
  if read = text.toList then .success text else .failure ⟨.positioned text i, read ≠ []⟩

theorem runs_string_common (hsize : input.size < Index.limit) (text : String)
    (hi : i ≤ input.size) {read : List Char}
    (hread : read = common text.toList (input.toList.drop i)) :
    (Parser.atom (.string text)).Runs input scope i (spellingOutcome text i read)
      (i + read.length) := by
  obtain ⟨_, rfl, hin, hstring⟩ :=
    Atom.readString_common (c := { input, position := i }) text hsize hi
  subst hread
  exact .atom (by simp only [Atom.read, hstring]; rfl) fun _ => hin

/-- A sequence of letters, described by the text that they spell. -/
theorem runs_letters {items : Array (Parser (.option .char))} (text : String)
    (hitems : List.Forall₂ (fun p expected => p.Presents input scope (· == expected)) items.toList
      text.toList)
    (hi : i ≤ input.size) {read : List Char}
    (hread : read = common text.toList (input.toList.drop i)) :
    (Parser.wrap (.label text) ((sequenceAll items).map (a := .list .char) (b := .text)
      String.ofList)).Runs input scope i (spellingOutcome text i read) (i + read.length) := by
  have hletters := forall₂_finRange hitems
  by_cases hwhole : read = text.toList
  · obtain ⟨rest, hrest⟩ := common_eq_left_iff.1 (hread.symm.trans hwhole)
    have hsame : List.Forall₂ (fun expected c => (c == expected) = true) text.toList text.toList :=
      List.forall₂_same.2 (by simp)
    have hcollects : Collects input scope (fun k => items[k]) i (List.finRange items.size ++ [])
        [] i (.success (text.toList.reverse ++ []).reverse) (i + text.toList.length) :=
      .agreed i [] hletters hsame hrest.symm .nil
    simp only [List.append_nil, List.reverse_reverse] at hcollects
    have hruns := (hcollects.sequence.map (b := .text) String.ofList).label text
    rw [String.ofList_toList] at hruns
    rw [spellingOutcome, if_pos hwhole, hwhole]
    exact hruns
  · have hshort : read.length ≠ text.toList.length := by
      intro hlength
      rw [hread] at hlength hwhole
      exact hwhole (common_prefix_left.eq_of_length hlength)
    obtain ⟨expectation, hcollects⟩ : ∃ expectation, Collects input scope (fun k => items[k]) i
        (List.finRange items.size) [] i (.failure ⟨expectation, i + read.length != i⟩)
        (i + read.length) := by
      subst hread
      exact Collects.stopped i [] hletters hi hshort
    have hruns := (hcollects.sequence.convert_failure (b := .text)
      fun letters => .ok (String.ofList letters)).label_failure text
    have hmoved : (i + read.length != i) = decide (read ≠ []) := Bool.eq_iff_iff.2 (by simp)
    rw [spellingOutcome, if_neg hwhole, ← hmoved]
    exact hruns

end Letters

end Parser

namespace Build

/-- A text spelled out: parsers of its characters, one after the other, whose failure is
described by the whole text. -/
def spelled (text : String) : Build (Parser .text) := do
  let letters ← text.toList.mapM fun c => do
    return (← char c).map (b := .option .char) some
  let spelling := Parser.sequenceAll letters.toArray
  label (spelling.map (a := .list .char) (b := .text) String.ofList) text

theorem spelled_labelled (text : String) {level : Nat} : Labelled level (spelled text) := by
  have hletter : ∀ c : Char, Labelled level (do return (← char c).map (b := .option .char) some) :=
    fun c => (char_labelled c).bind fun _ => .pure fun _ hp => hp.map _
  refine (Yields.mapM hletter text.toList).bind fun letters => (label_yields _ text).mono
    fun _ _ hlabel hletters => hlabel fun k => ?_
  exact hletters _ (List.getElem_mem k.isLt)

theorem spelled_runs {input : Array Char} (hsize : input.size < Index.limit) (text : String)
    {level : Nat} :
    Yields level (spelled text) fun _ p => ∀ scope i read, i ≤ input.size →
      read = common text.toList (input.toList.drop i) →
      p.Runs input scope i (Parser.spellingOutcome text i read) (i + read.length) := by
  have hletter : ∀ c : Char, Yields level (do return (← char c).map (b := .option .char) some)
      fun _ p => ∀ scope, p.Presents input scope (· == c) := fun c =>
    (char_accepts hsize c).bind fun q => .pure fun _ hq scope => ⟨q, rfl, hq scope⟩
  refine (Yields.forall₂ hletter text.toList).bind fun letters => memo_meets fun label hletters
    scope i read hi hread => ?_
  exact (Parser.runs_letters text (hletters.imp fun _ _ hp => hp scope) hi hread).memo label

end Build

namespace Parser

/-- The parser of a text does what its letters do one after the other, described as a whole. From
every place both read the longest beginning that the text and what lies ahead have in common;
they succeed if that is the whole text, and otherwise they fail, and have consumed if it is not
empty. -/
theorem string_eq_spelled (text : String) (input : Array Char) (hsize : input.size < Index.limit)
    (memoize : Bool) (start : Nat) (hstart : start ≤ input.size) :
    (∀ seen, ((Build.string text).assemble 0).ShowsFrom input memoize start seen ↔
      ((Build.spelled text).assemble 0).ShowsFrom input memoize start seen) ∧
    ∃ read, read <+: text.toList ∧ read <+: input.toList.drop start ∧
      (∀ other, other <+: text.toList → other <+: input.toList.drop start → other <+: read) ∧
      ((Build.string text).assemble 0).ShowsFrom input memoize start
        (.ok (if read = text.toList then .success text
          else .failure ⟨.positioned text start, read ≠ []⟩, start + read.length)) := by
  obtain ⟨_, hspelled⟩ := (@Build.spelled_runs input hsize text 0).assembled
  generalize hread : common text.toList (input.toList.drop start) = read at hspelled
  have hstring : ((Build.string text).assemble 0).Runs input Scope.root start
      (spellingOutcome text start read) (start + read.length) :=
    (runs_string_common hsize text hstart hread.symm).memo _
  have hshows : ∀ seen, ((Build.string text).assemble 0).ShowsFrom input memoize start seen ↔
      seen = .ok (spellingOutcome text start read, start + read.length) := fun seen =>
    (Build.assemble_wellLabelled (Build.string_labelled text)).showsFrom_iff hstring hstart memoize
  refine ⟨fun seen => ?_, read, ?_, ?_, fun other hleft hright => ?_, (hshows _).2 rfl⟩
  · rw [hshows, (Build.assemble_wellLabelled (Build.spelled_labelled text)).showsFrom_iff
      (hspelled Scope.root start read hstart hread.symm) hstart memoize]
  · exact hread ▸ common_prefix_left
  · exact hread ▸ common_prefix_right
  · exact hread ▸ prefix_common hleft hright

/-- Two of three letters lie ahead, and the third is another one. -/
theorem string_eq_spelled_differs :
    #['x', 'a', 'b', 'd'].size < Index.limit ∧ 1 ≤ #['x', 'a', 'b', 'd'].size ∧
      ((Build.string "abc").assemble 0).ShowsFrom #['x', 'a', 'b', 'd'] false 1
        (.ok (.failure ⟨.positioned "abc" 1, true⟩, 3)) ∧
      ((Build.spelled "abc").assemble 0).ShowsFrom #['x', 'a', 'b', 'd'] false 1
        (.ok (.failure ⟨.positioned "abc" 1, true⟩, 3)) := by
  have hsize : #['x', 'a', 'b', 'd'].size < Index.limit := by decide
  have hshows : ((Build.string "abc").assemble 0).ShowsFrom #['x', 'a', 'b', 'd'] false 1
      (.ok (.failure ⟨.positioned "abc" 1, true⟩, 3)) :=
    showsFrom_ok_iff.2 ⟨_, ⟨10, _, _, rfl, rfl⟩, rfl⟩
  exact ⟨hsize, by decide, hshows,
    ((string_eq_spelled "abc" _ hsize false 1 (by decide)).1 _).1 hshows⟩

end Parser

end ParserKit
