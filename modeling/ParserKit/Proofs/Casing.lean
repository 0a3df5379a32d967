import Mathlib.Data.List.Forall2
import ParserKit.Character
import ParserKit.Text.Casing

/-!
Lower-case forms of texts that agree letter by letter. The letters that have a lower-case
form, and these forms, have case and are not passed over, so that such texts have their
sigmas in the same surroundings. Their lower-case forms can only differ in a sigma that ends
a word: it takes the final form as a capital, and stays what it is as a small letter.
-/

namespace ParserKit.Text

section Tables

variable {bounds : Array Nat} {point steps low high r : Nat}

namespace Boundaries

theorem rank_eq (hbelow : ∀ k < r, bounds[k]?.getD 0 ≤ point)
    (habove : ∀ k, r ≤ k → k < bounds.size → point < bounds[k]?.getD 0) (hlow : low ≤ r)
    (hhigh : r ≤ high) (hsize : high ≤ bounds.size) (hsteps : high ≤ low + steps) :
    rank bounds point steps low high = r := by
  induction steps generalizing low high with
  | zero =>
    rw [rank]
    omega
  | succ steps ih =>
    rw [rank]
    split
    · next hopen =>
      dsimp only
      by_cases hmiddle : (low + high) / 2 < r
      · rw [if_pos (hbelow _ hmiddle)]
        exact ih (by omega) hhigh hsize (by omega)
      · rw [if_neg (Nat.not_le.2 (habove _ (by omega) (by omega)))]
        exact ih hlow (by omega) (by omega) (by omega)
    · omega

/-- A point belongs to the set if the number of boundaries up to it is odd. -/
theorem contains_eq (hsorted : bounds.toList.Pairwise (· ≤ ·)) {a b : Nat}
    (hlow : (0 :: bounds.toList)[r]? = some a) (ha : a ≤ point) (hhigh : bounds.toList[r]? = some b)
    (hb : point < b) : contains bounds point = (r % 2 == 1) := by
  obtain ⟨hr, rfl⟩ := List.getElem?_eq_some_iff.1 hhigh
  have hentry : ∀ k (hk : k < bounds.size), bounds[k]?.getD 0 = bounds.toList[k] := fun k hk => by
    simp [hk]
  have hle := List.pairwise_iff_getElem.1 hsorted
  have hrank : rank bounds point bounds.size 0 bounds.size = r := by
    refine rank_eq (fun k hk => ?_) (fun k hk hsize => ?_) (Nat.zero_le r) (Nat.le_of_lt hr)
      (Nat.le_refl _) (by omega)
    · obtain ⟨r, rfl⟩ : ∃ n, r = n + 1 := ⟨r - 1, by omega⟩
      obtain ⟨hr', rfl⟩ := List.getElem?_eq_some_iff.1 ((List.getElem?_cons_succ).symm.trans hlow)
      rw [hentry k (by simpa using Nat.lt_trans hk hr)]
      rcases Nat.eq_or_lt_of_le (Nat.le_of_lt_succ hk) with rfl | hlt
      · exact ha
      · exact Nat.le_trans (hle k r _ hr' hlt) ha
    · rw [hentry k hsize]
      rcases Nat.eq_or_lt_of_le hk with rfl | hlt
      · exact hb
      · exact Nat.lt_of_lt_of_le hb (hle r k hr (by simpa using hsize) hlt)
  rw [contains, hrank]

/-- The stretches of a set and the gaps between them, from the one on that ends above a point. -/
def dropTo (point : Nat) : List Nat → List Nat
  | a :: b :: rest => if b ≤ point then dropTo point rest else a :: b :: rest
  | rest => rest

/-- Whether each of the ascending spans lies in one of the stretches. -/
def holdsEach : List (Nat × Nat) → List Nat → Bool
  | [], _ => true
  | (low, high) :: spans, bounds =>
    match dropTo low bounds with
    | a :: b :: rest => a ≤ low && high < b && holdsEach spans (a :: b :: rest)
    | _ => false

theorem exists_dropTo (point : Nat) (bounds : List Nat) :
    ∃ k, dropTo point bounds = bounds.drop (2 * k) := by
  induction bounds using dropTo.induct point with
  | case1 a b rest hle ih =>
    obtain ⟨k, hk⟩ := ih
    exact ⟨k + 1, by rw [dropTo, if_pos hle, hk]; rfl⟩
  | case2 a b rest hlt => exact ⟨0, by rw [dropTo, if_neg hlt]; rfl⟩
  | case3 rest hshort => exact ⟨0, by rw [dropTo]; exacts [rfl, hshort]⟩

theorem exists_of_holdsEach {spans : List (Nat × Nat)} {bounds : List Nat}
    (h : holdsEach spans bounds = true) : ∀ span ∈ spans, ∃ k a b,
      bounds[2 * k]? = some a ∧ bounds[2 * k + 1]? = some b ∧ a ≤ span.1 ∧ span.2 < b := by
  induction spans generalizing bounds with
  | nil => simp
  | cons span spans ih =>
    obtain ⟨k, hk⟩ := exists_dropTo span.1 bounds
    rw [holdsEach, hk] at h
    split at h
    · next a b rest hdrop =>
      simp only [Bool.and_eq_true, decide_eq_true_eq] at h
      obtain ⟨⟨hlow, hhigh⟩, hrest⟩ := h
      have hentry : ∀ n, (a :: b :: rest)[n]? = bounds[2 * k + n]? := fun n => by
        rw [← hdrop, List.getElem?_drop]
      refine List.forall_mem_cons.2
        ⟨⟨k, a, b, (hentry 0).symm, (hentry 1).symm, hlow, hhigh⟩, fun other hother => ?_⟩
      obtain ⟨m, a', b', ha, hb, hlow', hhigh'⟩ := ih hrest other hother
      rw [hentry] at ha hb
      exact ⟨k + m, a', b', by rwa [Nat.mul_add], by rwa [Nat.mul_add], hlow', hhigh'⟩
    · cases h

theorem contains_of_holdsEach {spans : List (Nat × Nat)}
    (hsorted : bounds.toList.Pairwise (· ≤ ·)) (h : holdsEach spans bounds.toList = true)
    {span : Nat × Nat} (hspan : span ∈ spans) (hlow : span.1 ≤ point) (hhigh : point ≤ span.2) :
    contains bounds point = true := by
  obtain ⟨k, a, b, ha, hb, hlow', hhigh'⟩ := exists_of_holdsEach h span hspan
  rw [contains_eq hsorted (r := 2 * k + 1) ha (by omega) hb (by omega)]
  simp

/-- Points that lie in the gaps between the stretches do not belong to the set. -/
theorem not_contains_of_holdsEach {spans : List (Nat × Nat)}
    (hsorted : bounds.toList.Pairwise (· ≤ ·)) (h : holdsEach spans (0 :: bounds.toList) = true)
    {span : Nat × Nat} (hspan : span ∈ spans) (hlow : span.1 ≤ point) (hhigh : point ≤ span.2) :
    contains bounds point = false := by
  obtain ⟨k, a, b, ha, hb, hlow', hhigh'⟩ := exists_of_holdsEach h span hspan
  rw [contains_eq hsorted (r := 2 * k) ha (by omega) hb (by omega)]
  simp

end Boundaries

/-- A letter that has case and is not passed over when looking for a neighbour with case. -/
structure HasCase (c : Char) : Prop where
  letter : isLetter c = true
  cased : isCased c = true
  regarded : isCaseIgnorable c = false

/-- Stretches of such letters: every character that has a lower-case form lies in one of them,
and so does that form. -/
def casedSpans : List (Nat × Nat) := [
  (0x41, 0x5a), (0x61, 0x7a), (0xc0, 0xd6), (0xd8, 0xf6), (0xf8, 0x1ba), (0x1bc, 0x1bf),
  (0x1c4, 0x293), (0x296, 0x2af), (0x370, 0x373), (0x376, 0x377), (0x37b, 0x37d),
  (0x37f, 0x37f), (0x386, 0x386), (0x388, 0x38a), (0x38c, 0x38c), (0x38e, 0x3a1),
  (0x3a3, 0x3f5), (0x3f7, 0x481), (0x48a, 0x52f), (0x531, 0x556), (0x560, 0x588),
  (0x10a0, 0x10c5), (0x10c7, 0x10c7), (0x10cd, 0x10cd), (0x10d0, 0x10fa), (0x10fd, 0x10ff),
  (0x13a0, 0x13f5), (0x13f8, 0x13fd), (0x1c80, 0x1c8a), (0x1c90, 0x1cba), (0x1cbd, 0x1cbf),
  (0x1d79, 0x1d9a), (0x1e00, 0x1f15), (0x1f18, 0x1f1d), (0x1f20, 0x1f45), (0x1f48, 0x1f4d),
  (0x1f50, 0x1f57), (0x1f59, 0x1f59), (0x1f5b, 0x1f5b), (0x1f5d, 0x1f5d), (0x1f5f, 0x1f7d),
  (0x1f80, 0x1fb4), (0x1fb6, 0x1fbc), (0x1fc2, 0x1fc4), (0x1fc6, 0x1fcc), (0x1fd0, 0x1fd3),
  (0x1fd6, 0x1fdb), (0x1fe0, 0x1fec), (0x1ff2, 0x1ff4), (0x1ff6, 0x1ffc), (0x2126, 0x2126),
  (0x212a, 0x212d), (0x212f, 0x2134), (0x214e, 0x214e), (0x2160, 0x217f), (0x2183, 0x2184),
  (0x24b6, 0x24e9), (0x2c00, 0x2c7b), (0x2c7e, 0x2ce4), (0x2ceb, 0x2cee), (0x2cf2, 0x2cf3),
  (0x2d00, 0x2d25), (0x2d27, 0x2d27), (0x2d2d, 0x2d2d), (0xa640, 0xa66d), (0xa680, 0xa69b),
  (0xa722, 0xa76f), (0xa771, 0xa787), (0xa78b, 0xa78e), (0xa790, 0xa7dc), (0xa7f5, 0xa7f6),
  (0xab30, 0xab5a), (0xab70, 0xabbf), (0xff21, 0xff3a), (0xff41, 0xff5a), (0x10400, 0x1044f),
  (0x104b0, 0x104d3), (0x104d8, 0x104fb), (0x10570, 0x1057a), (0x1057c, 0x1058a),
  (0x1058c, 0x10592), (0x10594, 0x10595), (0x10597, 0x105a1), (0x105a3, 0x105b1),
  (0x105b3, 0x105b9), (0x105bb, 0x105bc), (0x10c80, 0x10cb2), (0x10cc0, 0x10cf2),
  (0x10d50, 0x10d65), (0x10d70, 0x10d85), (0x118a0, 0x118df), (0x16e40, 0x16e7f),
  (0x16ea0, 0x16eb8), (0x16ebb, 0x16ed3), (0x1e900, 0x1e943)]

/-- Whether the code points from `low` up to `high` lie in one of the stretches. -/
def inCasedSpan (low high : Nat) : Bool :=
  casedSpans.any fun span => decide (high ≤ span.2) && decide (span.1 ≤ low)

theorem letterBounds_sorted : letterBounds.toList.Pairwise (· ≤ ·) :=
  List.isChain_iff_pairwise.1 (by decide +kernel)

theorem casedBounds_sorted : casedBounds.toList.Pairwise (· ≤ ·) :=
  List.isChain_iff_pairwise.1 (by decide +kernel)

theorem caseIgnorableBounds_sorted : caseIgnorableBounds.toList.Pairwise (· ≤ ·) :=
  List.isChain_iff_pairwise.1 (by decide +kernel)

theorem casedSpans_hold : Boundaries.holdsEach casedSpans letterBounds.toList = true ∧
    Boundaries.holdsEach casedSpans casedBounds.toList = true ∧
      Boundaries.holdsEach casedSpans (0 :: caseIgnorableBounds.toList) = true := by
  decide +kernel

theorem hasCase_of_inCasedSpan {c : Char} (h : inCasedSpan low high = true) (hlow : low ≤ c.toNat)
    (hhigh : c.toNat ≤ high) : HasCase c := by
  obtain ⟨span, hspan, hwithin⟩ := List.any_eq_true.1 h
  obtain ⟨hhigh', hlow'⟩ : high ≤ span.2 ∧ span.1 ≤ low := by simpa using hwithin
  have hlow := Nat.le_trans hlow' hlow
  have hhigh := Nat.le_trans hhigh hhigh'
  obtain ⟨hletter, hcased, hignorable⟩ := casedSpans_hold
  exact ⟨Boundaries.contains_of_holdsEach letterBounds_sorted hletter hspan hlow hhigh,
    Boundaries.contains_of_holdsEach casedBounds_sorted hcased hspan hlow hhigh,
    Boundaries.not_contains_of_holdsEach caseIgnorableBounds_sorted hignorable hspan hlow hhigh⟩

namespace CaseRun

/-- The code points of a run. -/
def points (run : CaseRun) : List Nat :=
  List.range' run.first ((run.last - run.first) / run.stride + 1) run.stride

/-- Whether the characters of a run lie in the stretches, and their lower-case forms in one. -/
def isCased (run : CaseRun) : Bool :=
  (inCasedSpan run.first run.last || run.points.all fun point => inCasedSpan point point) &&
    inCasedSpan (run.first + run.shift).toNat (run.last + run.shift).toNat

end CaseRun

/-- The lower-case forms of the characters of a run are characters. -/
theorem caseRuns_valid : ∀ run ∈ caseRuns.toList, 0 < run.stride ∧ 0 ≤ run.first + run.shift ∧
    (run.last + run.shift < 0xd800 ∨
      0xdfff < run.first + run.shift ∧ run.last + run.shift < 0x110000) := by
  decide +kernel

theorem caseRuns_cased : ∀ run ∈ caseRuns.toList, run.isCased = true := by
  decide +kernel

variable {c d : Char}

theorem toNat_ofNat {code : Nat} (h : code.isValidChar) : (Char.ofNat code).toNat = code := by
  rw [Char.ofNat, dif_pos h]
  rfl

namespace CaseRun

variable {run : CaseRun} (hrun : run ∈ caseRuns.toList) (hholds : run.holds c.toNat = true)

include hrun hholds

theorem hasCase : HasCase c := by
  simp only [holds, Bool.and_eq_true, decide_eq_true_eq, beq_iff_eq] at hholds
  obtain ⟨⟨hfirst, hlast⟩, hstride⟩ := hholds
  have hcased := caseRuns_cased run hrun
  simp only [isCased, Bool.and_eq_true, Bool.or_eq_true] at hcased
  rcases hcased.1 with hspan | hpoints
  · exact hasCase_of_inCasedSpan hspan hfirst hlast
  · obtain ⟨k, hk⟩ := Nat.dvd_of_mod_eq_zero hstride
    have hcount : k ≤ (run.last - run.first) / run.stride := by
      rw [Nat.le_div_iff_mul_le (caseRuns_valid run hrun).1, Nat.mul_comm]
      omega
    have hmem : c.toNat ∈ run.points := List.mem_range'.2 ⟨k, by omega, by omega⟩
    exact hasCase_of_inCasedSpan (List.all_eq_true.1 hpoints _ hmem) (Nat.le_refl _) (Nat.le_refl _)

theorem toNat_apply : ((run.apply c.toNat).toNat : Int) = c.toNat + run.shift := by
  simp only [holds, Bool.and_eq_true, decide_eq_true_eq] at hholds
  obtain ⟨⟨hfirst, hlast⟩, -⟩ := hholds
  obtain ⟨-, hnonneg, hvalid⟩ := caseRuns_valid run hrun
  have hchar : (c.toNat + run.shift).toNat.isValidChar := by
    rw [Nat.isValidChar]
    omega
  rw [apply, toNat_ofNat hchar]
  omega

/-- The lower-case form has case, too. -/
theorem apply_hasCase : HasCase (run.apply c.toNat) := by
  have happly := toNat_apply hrun hholds
  simp only [holds, Bool.and_eq_true, decide_eq_true_eq] at hholds
  obtain ⟨⟨hfirst, hlast⟩, -⟩ := hholds
  have hcased := caseRuns_cased run hrun
  simp only [isCased, Bool.and_eq_true] at hcased
  exact hasCase_of_inCasedSpan hcased.2 (by omega) (by omega)

end CaseRun

/-- A character has a lower-case form of two characters, another one, or it stays. -/
theorem lowerChar_cases (c : Char) :
    (c.toNat = 0x130 ∧ lowerChar c = [Char.ofNat 0x69, Char.ofNat 0x307]) ∨
    (∃ run ∈ caseRuns.toList, run.holds c.toNat = true ∧ lowerChar c = [run.apply c.toNat]) ∨
    lowerChar c = [c] := by
  unfold lowerChar
  split
  · next hdotted => exact .inl ⟨by simpa using hdotted, rfl⟩
  · split
    · next run hfound =>
      have hmem : run ∈ caseRuns := Array.mem_of_find?_eq_some hfound
      have hholds : run.holds c.toNat = true :=
        Array.find?_some (p := fun run : CaseRun => run.holds c.toNat) hfound
      exact .inr (.inl ⟨run, hmem.val, hholds, rfl⟩)
    · exact .inr (.inr rfl)

/-- Different characters with one lower-case form are letters with case. -/
theorem hasCase_of_lowerChar_eq (h : lowerChar c = lowerChar d) (hne : c ≠ d) : HasCase c := by
  rcases lowerChar_cases c with ⟨hc, hlowc⟩ | ⟨run, hrun, hholds, -⟩ | hlowc
  · rcases lowerChar_cases d with ⟨hd, -⟩ | ⟨run, -, -, hlowd⟩ | hlowd
    · exact absurd (Char.toNat_inj.1 (hc.trans hd.symm)) hne
    · simp [hlowc, hlowd] at h
    · simp [hlowc, hlowd] at h
  · exact run.hasCase hrun hholds
  · rcases lowerChar_cases d with ⟨-, hlowd⟩ | ⟨run, hrun, hholds, hlowd⟩ | hlowd
    · simp [hlowc, hlowd] at h
    · obtain rfl : c = run.apply d.toNat := by simpa [hlowc, hlowd] using h
      exact run.apply_hasCase hrun hholds
    · simp [hlowc, hlowd] at h
      exact absurd h hne

/-- Characters with one lower-case form are alike where all letters with case are. -/
theorem eq_of_lowerChar_eq {f : Char → Bool} {value : Bool} (hf : ∀ x, HasCase x → f x = value)
    (h : lowerChar c = lowerChar d) : f c = f d := by
  by_cases hne : c = d
  · rw [hne]
  · rw [hf c (hasCase_of_lowerChar_eq h hne), hf d (hasCase_of_lowerChar_eq h.symm (Ne.symm hne))]

/-- The characters that become a small sigma. -/
theorem lowerChar_eq_sigma (h : lowerChar c = ['\u03c3']) : c = '\u03a3' ∨ c = '\u03c3' := by
  rcases lowerChar_cases c with ⟨-, hlow⟩ | ⟨run, hrun, hholds, hlow⟩ | hlow
  · simp [hlow] at h
  · have hshift : ∀ run ∈ caseRuns.toList, run.first + run.shift ≤ 0x3c3 →
        0x3c3 ≤ run.last + run.shift → run.shift = 32 := by decide +kernel
    have happly := run.toNat_apply hrun hholds
    rw [hlow] at h
    rw [List.singleton_inj.1 h] at happly
    simp only [CaseRun.holds, Bool.and_eq_true, decide_eq_true_eq] at hholds
    have hcode : (Char.toNat '\u03c3' : Int) = 0x3c3 := rfl
    have hcapital : c.toNat = Char.toNat '\u03a3' := by
      have hrun32 := hshift run hrun (by omega) (by omega)
      have hcode' : (Char.toNat '\u03a3' : Int) = 0x3a3 := rfl
      omega
    exact .inl (Char.toNat_inj.1 hcapital)
  · rw [hlow] at h
    exact .inr (List.singleton_inj.1 h)

end Tables

section Words

variable {before before' word other : List Char} {c d : Char}

/-- Letters with the same lower-case form. -/
abbrev SameForm (c d : Char) : Prop := lowerChar c = lowerChar d

theorem casedNext_congr (h : List.Forall₂ SameForm word other) : casedNext word = casedNext other := by
  induction h with
  | nil => rfl
  | @cons c d word other hcd _ ih =>
    have hignorable : isCaseIgnorable c = isCaseIgnorable d :=
      eq_of_lowerChar_eq (fun x hx => hx.regarded) hcd
    have hcased : isCased c = isCased d := eq_of_lowerChar_eq (fun x hx => hx.cased) hcd
    cases hd : isCaseIgnorable d with
    | true =>
      rw [casedNext, casedNext, List.dropWhile_cons_of_pos (hignorable.trans hd),
        List.dropWhile_cons_of_pos hd]
      exact ih
    | false =>
      rw [casedNext, casedNext, List.dropWhile_cons_of_neg (by simp [hignorable, hd]),
        List.dropWhile_cons_of_neg (by simp [hd])]
      exact hcased

/-- What a letter becomes between two others. -/
def lowerAt (before : List Char) (c : Char) (rest : List Char) : List Char :=
  if c = '\u03a3' then
    if casedNext before = true ∧ casedNext rest = false then ['\u03c2'] else ['\u03c3']
  else lowerChar c

theorem lowerChars_cons (before : List Char) (c : Char) (rest : List Char) :
    lowerChars before (c :: rest) = lowerAt before c rest ++ lowerChars (c :: before) rest := by
  have hsigma : (c.toNat == 0x3a3) = decide (c = '\u03a3') := by
    rw [Bool.eq_iff_iff, beq_iff_eq, decide_eq_true_eq]
    exact Char.toNat_inj (d := '\u03a3')
  rw [lowerChars, lowerAt, hsigma]
  by_cases hc : c = '\u03a3'
  · simp only [hc, decide_true, if_true, Bool.and_eq_true, Bool.not_eq_true']
  · simp [hc]

/-- One of two letters is a capital sigma, and the other a small one. -/
def SigmasDiffer (c d : Char) : Prop :=
  c = '\u03a3' ∧ d = '\u03c3' ∨ c = '\u03c3' ∧ d = '\u03a3'

theorem lowerAt_of_sigma (before rest : List Char) :
    lowerAt before '\u03a3' rest =
      if casedNext before = true ∧ casedNext rest = false then ['\u03c2'] else ['\u03c3'] :=
  if_pos rfl

theorem lowerAt_of_ne (before rest : List Char) (hc : c ≠ '\u03a3') :
    lowerAt before c rest = lowerChar c :=
  if_neg hc

theorem lowerChar_sigma : lowerChar '\u03a3' = ['\u03c3'] := by
  rw [lowerChar, ← Array.find?_toList]
  decide +kernel

theorem lowerChar_smallSigma : lowerChar '\u03c3' = ['\u03c3'] := by
  rw [lowerChar, ← Array.find?_toList]
  decide +kernel

theorem sigmasDiffer_of_capital (hcd : SameForm c d) (hne : c ≠ d)
    (hcapital : c = '\u03a3' ∨ d = '\u03a3') : SigmasDiffer c d := by
  rcases hcapital with rfl | rfl
  · exact .inl ⟨rfl, (lowerChar_eq_sigma (hcd.symm.trans lowerChar_sigma)).resolve_left hne.symm⟩
  · exact .inr ⟨(lowerChar_eq_sigma (hcd.trans lowerChar_sigma)).resolve_left hne, rfl⟩

/-- Letters with the same form become the same in the same surroundings, unless they are
different sigmas where a word ends. -/
theorem lowerAt_eq_iff (hbefore : List.Forall₂ SameForm before before') (hcd : SameForm c d)
    (hrest : List.Forall₂ SameForm word other) :
    lowerAt before c word = lowerAt before' d other ↔
      ¬ (SigmasDiffer c d ∧ casedNext before = true ∧ casedNext word = false) := by
  have hfinal : ∀ e, lowerAt before' e other = lowerAt before e word := fun e => by
    rw [lowerAt, lowerAt, casedNext_congr hbefore, casedNext_congr hrest]
  rw [hfinal]
  by_cases hsame : c = d
  · subst hsame
    have hno : ¬ SigmasDiffer c c := by
      rintro (⟨rfl, h⟩ | ⟨rfl, h⟩)
      · exact absurd h (by decide)
      · exact absurd h (by decide)
    simp [hno]
  by_cases hcapital : c = '\u03a3' ∨ d = '\u03a3'
  · have hsigmas := sigmasDiffer_of_capital hcd hsame hcapital
    have hsmall : ∀ rest, lowerAt before '\u03c3' rest = ['\u03c3'] := fun rest => by
      rw [lowerAt_of_ne _ _ (by decide), lowerChar_smallSigma]
    rcases hsigmas with ⟨rfl, rfl⟩ | ⟨rfl, rfl⟩
    · rw [hsmall, lowerAt_of_sigma]
      split <;> simp [SigmasDiffer, *]
    · rw [hsmall, lowerAt_of_sigma]
      split <;> simp [SigmasDiffer, *]
  · obtain ⟨hc, hd⟩ := not_or.1 hcapital
    have hno : ¬ SigmasDiffer c d := by
      rintro (⟨rfl, -⟩ | ⟨-, rfl⟩)
      · exact hc rfl
      · exact hd rfl
    rw [lowerAt_of_ne _ _ hc, lowerAt_of_ne _ _ hd]
    exact ⟨fun _ h => hno h.1, fun _ => hcd⟩

theorem length_lowerAt (hcd : SameForm c d) (rest rest' : List Char) :
    (lowerAt before c rest).length = (lowerAt before' d rest').length := by
  have hlength : ∀ (before : List Char) (e : Char) (rest : List Char),
      (lowerAt before e rest).length = (lowerChar e).length := by
    intro before e rest
    by_cases he : e = '\u03a3'
    · rw [he, lowerAt_of_sigma, lowerChar_sigma]
      split <;> rfl
    · rw [lowerAt_of_ne _ _ he]
  rw [hlength, hlength, hcd]

/-- Somewhere two texts have different sigmas, after a character with case and before none. -/
def FinalSigmasDiffer (before word other : List Char) : Prop :=
  ∃ k c d, word[k]? = some c ∧ other[k]? = some d ∧ SigmasDiffer c d ∧
    casedNext ((word.take k).reverse ++ before) = true ∧ casedNext (word.drop (k + 1)) = false

theorem finalSigmasDiffer_cons :
    FinalSigmasDiffer before (c :: word) (d :: other) ↔
      (SigmasDiffer c d ∧ casedNext before = true ∧ casedNext word = false) ∨
        FinalSigmasDiffer (c :: before) word other := by
  constructor
  · rintro ⟨k, x, y, hx, hy, hsigmas, hbefore, hrest⟩
    cases k with
    | zero =>
      obtain rfl : c = x := by simpa using hx
      obtain rfl : d = y := by simpa using hy
      exact .inl ⟨hsigmas, hbefore, hrest⟩
    | succ k => exact .inr ⟨k, x, y, hx, hy, hsigmas, by simpa using hbefore, hrest⟩
  · rintro (⟨hsigmas, hbefore, hrest⟩ | ⟨k, x, y, hx, hy, hsigmas, hbefore, hrest⟩)
    · exact ⟨0, c, d, rfl, rfl, hsigmas, hbefore, hrest⟩
    · exact ⟨k + 1, x, y, hx, hy, hsigmas, by simpa using hbefore, hrest⟩

theorem lowerChars_eq_iff (hbefore : List.Forall₂ SameForm before before')
    (h : List.Forall₂ SameForm word other) :
    lowerChars before word = lowerChars before' other ↔ ¬ FinalSigmasDiffer before word other := by
  induction h generalizing before before' with
  | nil => simp [lowerChars, FinalSigmasDiffer]
  | @cons c d word other hcd hrest ih =>
    rw [lowerChars_cons, lowerChars_cons, finalSigmasDiffer_cons, not_or,
      ← lowerAt_eq_iff hbefore hcd hrest, ← ih (.cons hcd hbefore)]
    exact ⟨fun happend => List.append_inj happend (length_lowerAt hcd word other),
      fun ⟨hhead, htail⟩ => by rw [hhead, htail]⟩

/-- Texts that agree letter by letter have one lower-case form, unless they have different
sigmas where a word ends. -/
theorem lowerText_eq_iff {text text' : String}
    (h : List.Forall₂ SameForm text.toList text'.toList) :
    lowerText text = lowerText text' ↔ ¬ FinalSigmasDiffer [] text.toList text'.toList := by
  rw [lowerText, lowerText, String.ofList_inj]
  exact lowerChars_eq_iff .nil h

end Words

end ParserKit.Text
