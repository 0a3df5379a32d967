import Mathlib.Data.List.Infix
import ParserKit.Lexer.WhiteSpace

/-!
A pass over a text that skips white space. It counts how many comments are open, and takes
the text piece by piece: blanks, a line comment, a block comment. The inside of a block
comment can also be taken by items, since to close two comments is to close one and then
the other.
-/

namespace ParserKit

namespace Lexer

/-- What lies behind a marker that a text begins with. An empty marker is nowhere. -/
def past? (marker : String) (text : List Char) : Option (List Char) :=
  if marker = "" then none else text.dropPrefix? marker.toList

/-- What lies behind the beginning of a comment in a comment, if comments may nest. -/
def inside? (language : Language) (text : List Char) : Option (List Char) :=
  if language.nestedComments then past? language.commentStart text else none

section Markers

variable {marker : String} {language : Language} {text rest : List Char} {c : Char}

theorem past?_eq_some_iff :
    past? marker text = some rest ↔ marker ≠ "" ∧ text = marker.toList ++ rest := by
  by_cases hempty : marker = ""
  · simp [past?, hempty]
  · simp only [past?, if_neg hempty, List.dropPrefix?_eq_some_iff, beq_iff_eq]
    constructor
    · rintro ⟨front, htext, rfl⟩
      exact ⟨hempty, htext⟩
    · rintro ⟨-, htext⟩
      exact ⟨marker.toList, htext, rfl⟩

theorem past?_eq_none_iff :
    past? marker text = none ↔ marker = "" ∨ ¬ marker.toList <+: text := by
  rw [Option.eq_none_iff_forall_ne_some, or_iff_not_imp_left]
  constructor
  · rintro h hmarker ⟨rest, hrest⟩
    exact h rest (past?_eq_some_iff.2 ⟨hmarker, hrest.symm⟩)
  · intro h rest hrest
    obtain ⟨hmarker, rfl⟩ := past?_eq_some_iff.1 hrest
    exact h hmarker ⟨rest, rfl⟩

theorem past?_nil : past? marker [] = none := by
  rw [past?_eq_none_iff, List.prefix_nil, String.toList_eq_nil_iff]
  exact em _

theorem past?_length (h : past? marker text = some rest) : rest.length < text.length := by
  obtain ⟨hmarker, rfl⟩ := past?_eq_some_iff.1 h
  have hpos := List.length_pos_of_ne_nil (mt String.toList_eq_nil_iff.1 hmarker)
  rw [List.length_append]
  omega

theorem past?_of_head?_ne (h : marker.toList.head? ≠ some c) : past? marker (c :: text) = none := by
  refine past?_eq_none_iff.2 (or_iff_not_imp_left.2 fun hmarker ⟨rest, hrest⟩ => h ?_)
  obtain ⟨d, ds, hchars⟩ :=
    List.exists_cons_of_ne_nil (mt String.toList_eq_nil_iff.1 hmarker)
  rw [hchars, List.cons_append] at hrest
  rw [hchars, List.head?_cons, (List.cons.inj hrest).1]

/-- A marker begins with one of its characters. -/
theorem past?_of_head (h : c ∉ marker.toList) : past? marker (c :: text) = none :=
  past?_of_head?_ne fun hhead => h (List.mem_of_mem_head? hhead)

theorem inside?_length (h : inside? language text = some rest) : rest.length < text.length := by
  unfold inside? at h
  split at h
  · exact past?_length h
  · cases h

end Markers

/-- The rest of a text behind the comments that are open, of which there are `depth`. -/
def closeComment (language : Language) (depth : Nat) (text : List Char) : Option (List Char) :=
  match text with
  | [] => none
  | c :: tail =>
    match opened : inside? language (c :: tail) with
    | some rest => closeComment language (depth + 1) rest
    | none =>
      match closed : past? language.commentEnd (c :: tail) with
      | some rest => if depth = 1 then some rest else closeComment language (depth - 1) rest
      | none => closeComment language depth tail
termination_by text.length
decreasing_by
  · exact inside?_length opened
  · exact past?_length closed
  · exact Nat.lt_succ_self _

section Comments

variable {language : Language} {text rest : List Char} {c : Char} {depth : Nat}

theorem closeComment_nil : closeComment language depth [] = none := by
  rw [closeComment]

theorem closeComment_opened (h : inside? language text = some rest) :
    closeComment language depth text = closeComment language (depth + 1) rest := by
  cases text with
  | nil => exact absurd (inside?_length h) (by simp)
  | cons c tail =>
    rw [closeComment]
    split
    · next found hfound =>
      rw [Option.some.inj (hfound.symm.trans h)]
    · next hfound => rw [hfound] at h; cases h

theorem closeComment_closed (hinside : inside? language text = none)
    (h : past? language.commentEnd text = some rest) :
    closeComment language depth text =
      if depth = 1 then some rest else closeComment language (depth - 1) rest := by
  cases text with
  | nil => exact absurd (past?_length h) (by simp)
  | cons c tail =>
    rw [closeComment]
    split
    · next found hfound => rw [hfound] at hinside; cases hinside
    · split
      · next found hfound =>
        rw [Option.some.inj (hfound.symm.trans h)]
      · next hfound => rw [hfound] at h; cases h

theorem closeComment_cons (hinside : inside? language (c :: text) = none)
    (h : past? language.commentEnd (c :: text) = none) :
    closeComment language depth (c :: text) = closeComment language depth text := by
  rw [closeComment]
  split
  · next found hfound => rw [hfound] at hinside; cases hinside
  · split
    · next found hfound => rw [hfound] at h; cases h
    · rfl

/-- To close some comments and then others is to close all of them. -/
theorem closeComment_add {more : Nat} (hdepth : 1 ≤ depth) (hmore : 1 ≤ more) :
    closeComment language (depth + more) text =
      (closeComment language depth text).bind (closeComment language more) := by
  induction depth, text using closeComment.induct language with
  | case1 depth => rw [closeComment_nil, closeComment_nil, Option.bind_none]
  | case2 depth c tail rest hinside ih =>
    rw [closeComment_opened hinside, closeComment_opened hinside, ← ih (by omega)]
    congr 1
    omega
  | case3 c tail hinside rest hend =>
    rw [closeComment_closed hinside hend, closeComment_closed hinside hend, if_pos rfl,
      if_neg (by omega), Option.bind_some, Nat.add_sub_cancel_left]
  | case4 depth c tail hinside rest hend hone ih =>
    rw [closeComment_closed hinside hend, closeComment_closed hinside hend, if_neg hone,
      if_neg (by omega), ← ih (by omega)]
    congr 1
    omega
  | case5 depth c tail hinside hend ih =>
    rw [closeComment_cons hinside hend, closeComment_cons hinside hend, ih hdepth]

/-- Characters outside the delimiters are passed over. -/
theorem closeComment_dropWhile {accepts : Char → Bool}
    (h : ∀ c, accepts c = true → c ∉ language.commentStart.toList ∧ c ∉ language.commentEnd.toList) :
    closeComment language depth (text.dropWhile accepts) = closeComment language depth text := by
  induction text with
  | nil => rfl
  | cons c tail ih =>
    by_cases hc : accepts c = true
    · obtain ⟨hstart, hend⟩ := h c hc
      have hinside : inside? language (c :: tail) = none := by
        unfold inside?
        split
        · exact past?_of_head hstart
        · rfl
      rw [List.dropWhile_cons_of_pos hc, ih, closeComment_cons hinside (past?_of_head hend)]
    · rw [List.dropWhile_cons_of_neg hc]

theorem closeComment_length (h : closeComment language depth text = some rest) :
    rest.length < text.length := by
  induction depth, text using closeComment.induct language with
  | case1 depth => rw [closeComment_nil] at h; cases h
  | case2 depth c tail inner hinside ih =>
    rw [closeComment_opened hinside] at h
    exact Nat.lt_trans (ih h) (inside?_length hinside)
  | case3 c tail hinside inner hend =>
    rw [closeComment_closed hinside hend, if_pos rfl] at h
    exact Option.some.inj h ▸ past?_length hend
  | case4 depth c tail hinside inner hend hone ih =>
    rw [closeComment_closed hinside hend, if_neg hone] at h
    exact Nat.lt_trans (ih h) (past?_length hend)
  | case5 depth c tail hinside hend ih =>
    rw [closeComment_cons hinside hend] at h
    exact Nat.lt_succ_of_lt (ih h)

/-- If comments do not nest, a comment ends where the closing delimiter first stands. -/
theorem closeComment_eq_some_iff (hnested : language.nestedComments = false)
    (hend : language.commentEnd ≠ "") : closeComment language 1 text = some rest ↔
      ∃ front, text = front ++ language.commentEnd.toList ++ rest ∧
        ∀ n < front.length, ¬ language.commentEnd.toList <+: text.drop n := by
  have hinside : ∀ text, inside? language text = none := by simp [inside?, hnested]
  induction text with
  | nil =>
    rw [closeComment_nil]
    have hchars := mt String.toList_eq_nil_iff.1 hend
    simp [hchars]
  | cons c tail ih =>
    cases hclosed : past? language.commentEnd (c :: tail) with
    | some found =>
      rw [closeComment_closed (hinside _) hclosed, if_pos rfl]
      obtain ⟨-, htext⟩ := past?_eq_some_iff.1 hclosed
      constructor
      · rintro h
        obtain rfl := Option.some.inj h
        exact ⟨[], htext, fun n hn => absurd hn (Nat.not_lt_zero n)⟩
      · rintro ⟨front, hfront, hfirst⟩
        cases front with
        | nil =>
          rw [htext, List.nil_append] at hfront
          rw [List.append_cancel_left hfront]
        | cons d front => exact absurd ⟨found, htext.symm⟩ (hfirst 0 (Nat.succ_pos _))
    | none =>
      have hdiffers := (past?_eq_none_iff.1 hclosed).resolve_left hend
      rw [closeComment_cons (hinside _) hclosed]
      refine ih.trans ⟨?_, ?_⟩
      · rintro ⟨front, rfl, hfirst⟩
        refine ⟨c :: front, rfl, fun n hn => ?_⟩
        cases n with
        | zero => exact hdiffers
        | succ n => exact hfirst n (Nat.lt_of_succ_lt_succ hn)
      · rintro ⟨front, hfront, hfirst⟩
        cases front with
        | nil => exact absurd ⟨rest, hfront.symm⟩ hdiffers
        | cons d front =>
          obtain ⟨rfl, htail⟩ := List.cons.inj hfront
          exact ⟨front, htail, fun n hn => hfirst (n + 1) (Nat.succ_lt_succ hn)⟩

end Comments

/-- What the text begins with. -/
inductive Found where
  | nothing
  /-- Something that is skipped, and what lies behind it. -/
  | past (rest : List Char)
  /-- A comment that does not end. -/
  | unclosed

/-- The first of two that is something. -/
def Found.or : Found → Found → Found
  | .nothing, later => later
  | found, _ => found

theorem Found.or_nothing (found : Found) : found.or .nothing = found := by
  cases found <;> rfl

theorem Found.or_assoc (first second third : Found) :
    (first.or second).or third = first.or (second.or third) := by
  cases first <;> rfl

theorem Found.or_eq_past {first second : Found} {rest : List Char}
    (h : first.or second = .past rest) : first = .past rest ∨ second = .past rest := by
  cases first with
  | nothing => exact .inr h
  | past found => exact .inl h
  | unclosed => cases h

theorem Found.or_eq_nothing {first second : Found} (h : first.or second = .nothing) :
    first = .nothing ∧ second = .nothing := by
  cases first with
  | nothing => exact ⟨rfl, h⟩
  | past found => cases h
  | unclosed => cases h

/-- A run of characters of a class. -/
def runAhead (accepts : Char → Bool) (text : List Char) : Found :=
  if text.head?.any accepts then .past (text.dropWhile accepts) else .nothing

/-- A line comment goes up to the end of the line. -/
def lineAhead (language : Language) (text : List Char) : Found :=
  match past? language.commentLine text with
  | some rest => .past (rest.dropWhile (· != '\n'))
  | none => .nothing

def blockAhead (language : Language) (text : List Char) : Found :=
  match past? language.commentStart text with
  | some rest =>
    match closeComment language 1 rest with
    | some rest => .past rest
    | none => .unclosed
  | none => .nothing

/-- Whether a character is one of a delimiter of comments. -/
def delimits (language : Language) (c : Char) : Bool :=
  (language.commentEnd ++ language.commentStart).toList.contains c

/-- A character of a delimiter where the closing delimiter does not stand. -/
def strayAhead (language : Language) : List Char → Found
  | [] => .nothing
  | c :: tail =>
    if delimits language c && (past? language.commentEnd (c :: tail)).isNone then .past tail
    else .nothing

/-- What stands inside a comment, before its end. -/
def itemAhead (language : Language) (text : List Char) : Found :=
  (runAhead (fun c => !delimits language c) text).or
    ((if language.nestedComments then blockAhead language text else .nothing).or
      (strayAhead language text))

/-- What white space begins with. -/
def pieceAhead (language : Language) (text : List Char) : Found :=
  (runAhead Text.isBlank text).or ((lineAhead language text).or (blockAhead language text))

section Pieces

variable {language : Language} {text rest : List Char}

theorem runAhead_length {accepts : Char → Bool} (h : runAhead accepts text = .past rest) :
    rest.length < text.length := by
  cases text with
  | nil => cases h
  | cons c tail =>
    by_cases hc : accepts c = true
    · simp only [runAhead, List.head?_cons, Option.any_some, hc, if_true,
        List.dropWhile_cons_of_pos hc, Found.past.injEq] at h
      rw [← h]
      exact Nat.lt_succ_of_le (List.dropWhile_suffix _).length_le
    · simp [runAhead, hc] at h

theorem past?_of_blockAhead (h : blockAhead language text = .nothing) :
    past? language.commentStart text = none := by
  unfold blockAhead at h
  split at h
  · split at h <;> cases h
  · assumption

theorem lineAhead_length (h : lineAhead language text = .past rest) :
    rest.length < text.length := by
  unfold lineAhead at h
  split at h
  · next found hfound =>
    rw [← Found.past.inj h]
    exact Nat.lt_of_le_of_lt (List.dropWhile_suffix _).length_le (past?_length hfound)
  · cases h

theorem pieceAhead_nil : pieceAhead language [] = .nothing := by
  simp [pieceAhead, runAhead, lineAhead, blockAhead, past?_nil, Found.or]

theorem pieceAhead_length (h : pieceAhead language text = .past rest) :
    rest.length < text.length := by
  rcases Found.or_eq_past h with hblanks | h
  · exact runAhead_length hblanks
  rcases Found.or_eq_past h with hline | hblock
  · exact lineAhead_length hline
  · unfold blockAhead at hblock
    split at hblock
    · next found hfound =>
      split at hblock
      · next inner hclose =>
        rw [← Found.past.inj hblock]
        exact Nat.lt_trans (closeComment_length hclose) (past?_length hfound)
      · cases hblock
    · cases hblock

theorem not_mem_of_not_delimits {c : Char} (h : delimits language c = false) :
    c ∉ language.commentStart.toList ∧ c ∉ language.commentEnd.toList := by
  simp only [delimits, String.toList_append, List.contains_eq_mem, List.mem_append,
    decide_eq_false_iff_not, not_or] at h
  exact ⟨h.2, h.1⟩

/-- The pass goes through the inside of a comment item by item. -/
theorem closeComment_eq_itemAhead (language : Language) (text : List Char) :
    closeComment language 1 text =
      match itemAhead language text with
      | .nothing => past? language.commentEnd text
      | .past rest => closeComment language 1 rest
      | .unclosed => none := by
  cases text with
  | nil =>
    simp [closeComment_nil, itemAhead, runAhead, strayAhead, blockAhead, past?_nil, Found.or]
  | cons c tail =>
    cases hc : delimits language c with
    | false =>
      simp only [itemAhead, runAhead, List.head?_cons, Option.any_some, hc, Bool.not_false, if_true,
        Found.or]
      exact (closeComment_dropWhile fun d hd => not_mem_of_not_delimits (by simpa using hd)).symm
    | true =>
      cases hinside : inside? language (c :: tail) with
      | some rest =>
        have hopened := hinside
        unfold inside? at hopened
        split at hopened
        · next hnested =>
          rw [closeComment_opened hinside, closeComment_add (Nat.le_refl 1) (Nat.le_refl 1)]
          simp only [itemAhead, runAhead, List.head?_cons, Option.any_some, hc, Bool.not_true,
            Bool.false_eq_true, if_false, Found.or, hnested, if_true, blockAhead, hopened]
          cases closeComment language 1 rest with
          | none => rfl
          | some after => rfl
        · cases hopened
      | none =>
        have hnothing : (if language.nestedComments then blockAhead language (c :: tail)
            else .nothing) = .nothing := by
          unfold inside? at hinside
          split at hinside
          · next hnested => simp only [hnested, if_true, blockAhead, hinside]
          · next hflat => rw [if_neg hflat]
        simp only [itemAhead, runAhead, List.head?_cons, Option.any_some, hc, Bool.not_true,
          Bool.false_eq_true, if_false, Found.or, hnothing, strayAhead, Bool.true_and]
        cases hend : past? language.commentEnd (c :: tail) with
        | none => exact closeComment_cons hinside hend
        | some rest => exact (closeComment_closed hinside hend).trans (if_pos rfl)

end Pieces

/-- The rest of a text behind the white space that it begins with, if each comment ends. -/
def skipBlanks (language : Language) (text : List Char) : Option (List Char) :=
  match _found : pieceAhead language text with
  | .nothing => some text
  | .past rest => skipBlanks language rest
  | .unclosed => none
termination_by text.length
decreasing_by exact pieceAhead_length _found

/-- The pass piece by piece. -/
theorem skipBlanks_eq (language : Language) (text : List Char) : skipBlanks language text =
    match pieceAhead language text with
    | .nothing => some text
    | .past rest => skipBlanks language rest
    | .unclosed => none := by
  rw [skipBlanks]
  split <;> rename_i found <;> rw [found]

end Lexer

end ParserKit
