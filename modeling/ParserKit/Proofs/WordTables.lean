import Mathlib.Tactic.ByContra
import ParserKit.Lexer.Word

/-!
The tables in which reserved words are looked up. A table holds the names that it was made
from, in ascending order and each once, so that the search by halves finds exactly those.
-/

namespace ParserKit.Lexer

section Tables

variable {table : Array String} {name : String} {names : List String} {steps base size : Nat}

theorem mem_dropRepeats : name ∈ dropRepeats names ↔ name ∈ names := by
  induction names using dropRepeats.induct with
  | case1 => rfl
  | case2 first => rfl
  | case3 first rest ih =>
    rw [dropRepeats, if_pos rfl, ih]
    simp
  | case4 first next rest hne ih =>
    rw [dropRepeats, if_neg hne, List.mem_cons, ih, List.mem_cons (l := next :: rest)]

theorem dropRepeats_sublist (names : List String) : (dropRepeats names).Sublist names := by
  induction names using dropRepeats.induct with
  | case1 => exact .refl _
  | case2 first => exact .refl _
  | case3 first rest ih =>
    rw [dropRepeats, if_pos rfl]
    exact ih.cons _
  | case4 first next rest hne ih =>
    rw [dropRepeats, if_neg hne]
    exact ih.cons_cons _

theorem mem_tableOf : name ∈ tableOf names ↔ name ∈ names := by
  rw [tableOf, List.mem_toArray, mem_dropRepeats, List.mem_mergeSort]

theorem tableOf_sorted (names : List String) : (tableOf names).toList.Pairwise (· ≤ ·) := by
  have htrans : ∀ a b c : String, decide (a ≤ b) = true → decide (b ≤ c) = true →
      decide (a ≤ c) = true := fun a b c hab hbc =>
    decide_eq_true (String.le_trans (of_decide_eq_true hab) (of_decide_eq_true hbc))
  have htotal : ∀ a b : String, (decide (a ≤ b) || decide (b ≤ a)) = true := fun a b => by
    simpa using String.le_total a b
  have hsorted := List.pairwise_mergeSort htrans htotal names
  exact (hsorted.sublist (dropRepeats_sublist _)).imp of_decide_eq_true

/-- What a search finds is in the table. -/
theorem mem_of_search (h : search table name steps base size = true) : name ∈ table := by
  have hmem : ∀ k : Nat, (table[k]? == some name) = true → name ∈ table := fun k hk =>
    Array.mem_of_getElem? (by simpa using hk)
  induction steps generalizing base size with
  | zero => exact hmem base h
  | succ steps ih =>
    unfold search at h
    split at h
    · dsimp only at h
      split at h
      · exact ih h
      · exact ih h
    · exact hmem base h

theorem le_of_sorted (hsorted : table.toList.Pairwise (· ≤ ·)) {i j : Nat} {name' : String}
    (hij : i ≤ j) (hi : table[i]? = some name) (hj : table[j]? = some name') : name ≤ name' := by
  obtain ⟨hlti, rfl⟩ := Array.getElem?_eq_some_iff.1 hi
  obtain ⟨hltj, rfl⟩ := Array.getElem?_eq_some_iff.1 hj
  rcases Nat.eq_or_lt_of_le hij with rfl | hlt
  · exact String.le_refl _
  · exact List.pairwise_iff_getElem.1 hsorted i j hlti hltj hlt

/-- A name among the entries that are searched is found. -/
theorem search_of_mem (hsorted : table.toList.Pairwise (· ≤ ·)) (hsteps : size ≤ steps + 1)
    (hend : base + size ≤ table.size) {k : Nat} (hbase : base ≤ k) (hk : k < base + size)
    (hname : table[k]? = some name) : search table name steps base size = true := by
  induction steps generalizing base size k with
  | zero =>
    obtain rfl : k = base := by omega
    simp [search, hname]
  | succ steps ih =>
    unfold search
    split
    · next hmany =>
      obtain ⟨middle, hmiddle⟩ : ∃ middle, middle = base + size / 2 := ⟨_, rfl⟩
      obtain ⟨entry, hentry⟩ : ∃ entry, table[middle]? = some entry :=
        ⟨_, Array.getElem?_eq_getElem (by omega : middle < table.size)⟩
      simp only [← hmiddle, hentry, Option.any_some, decide_eq_true_eq]
      split
      · next habove =>
        have hbelow : k < middle := by
          by_contra hle
          have hentry' := le_of_sorted hsorted (Nat.le_of_not_lt hle) hentry hname
          exact String.not_lt.2 hentry' habove
        exact ih (by omega) (by omega) hbase (by omega) hname
      · next hnotabove =>
        by_cases hbelow : k < middle
        · -- entries between two that are equal are equal, too
          have hsame : entry = name := String.le_antisymm (String.not_lt.1 hnotabove)
            (le_of_sorted hsorted (Nat.le_of_lt hbelow) hname hentry)
          exact ih (by omega) (by omega) (Nat.le_refl middle) (by omega) (hsame ▸ hentry)
        · exact ih (by omega) (by omega) (Nat.le_of_not_lt hbelow) (by omega) hname
    · obtain rfl : k = base := by omega
      simp [hname]

/-- A table holds the names that it was made from. -/
theorem holds_tableOf : holds (tableOf names) name = true ↔ name ∈ names := by
  constructor
  · exact fun h => mem_tableOf.1 (mem_of_search h)
  · intro h
    obtain ⟨k, hk, hname⟩ := Array.mem_iff_getElem.1 (mem_tableOf.2 h)
    exact search_of_mem (tableOf_sorted names) (by omega) (by omega) (Nat.zero_le k) (by omega)
      (by rw [Array.getElem?_eq_getElem hk, hname])

theorem isReservedName_iff {lexer : Lexer} :
    lexer.isReservedName name = true ↔
      ∃ name' ∈ lexer.language.reservedNames, lexer.fold name' = lexer.fold name := by
  rw [isReservedName, holds_tableOf, List.mem_map]

theorem isReservedOperator_iff {lexer : Lexer} :
    lexer.isReservedOperator name = true ↔ name ∈ lexer.language.reservedOperators :=
  holds_tableOf

end Tables

end ParserKit.Lexer
