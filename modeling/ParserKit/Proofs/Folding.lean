import ParserKit.Proofs.Casing
import ParserKit.Proofs.Spelling
import ParserKit.Proofs.Words

/-!
Reserved words in a language that ignores case. The parser of a reserved word compares
lower-case forms letter by letter, while a word that was read is looked up by the lower-case
form of the whole, in which a capital sigma at the end of a word takes the final form. Of
words that agree letter by letter these sigmas are all that the second comparison tells apart.
-/

namespace ParserKit.Lexer

open Build
open Text (SameForm FinalSigmasDiffer lowerText)

section Letters

variable {input : Array Char} {scope : Scope}

theorem sameLetter_iff {expected c : Char} : sameLetter expected c = true ↔ SameForm expected c := by
  rw [sameLetter, Bool.or_eq_true, beq_iff_eq, beq_iff_eq]
  constructor
  · rintro (rfl | h)
    · rfl
    · exact h.symm
  · exact fun h => .inr h.symm

/-- The parser reads one letter with the same form as a given one. -/
def ReadsLetter (input : Array Char) (scope : Scope) (p : Parser (.option .char))
    (expected : Char) : Prop :=
  ∃ q : Parser .char, p = q.map (b := .option .char) some ∧
    q.Accepts input scope (sameLetter expected)

/-- A name is read letter by letter, in any case. -/
theorem caseString_follows (hsize : input.size < Index.limit) {lexer : Lexer}
    (hcase : lexer.language.caseSensitive = false) (name : String) {level : Nat} :
    Yields level (lexer.caseString name) fun _ p => Follows input scope SameForm name p := by
  have hletter : ∀ expected, Yields level (do
      let letter ← Build.label (← Build.satisfy (sameLetter expected)) name
      return letter.map (b := .option .char) some)
      fun _ p => ReadsLetter input scope p expected := fun expected =>
    (satisfy_accepts hsize _).bind fun q => (label_accepts q name).bind fun r =>
      .pure fun _ hr hq => ⟨r, rfl, hr (hq scope)⟩
  rw [caseString, if_neg (by simp [hcase])]
  refine (Yields.forall₂ hletter name.toList).bind fun letters => .pure fun _ hletters => ?_
  have hitems : List.Forall₂ (fun k expected => letters.toArray[k].Presents input scope
      (sameLetter expected)) (List.finRange letters.toArray.size) name.toList :=
    forall₂_finRange hletters
  refine ⟨fun {i _ _} htext hagrees hi => ?_, fun {i} hno hi => ?_⟩
  · have hsame := hagrees.imp fun _ _ h => sameLetter_iff.2 h
    have hcollects := Parser.Collects.agreed i [] hitems hsame htext .nil
    rw [List.append_nil] at hcollects
    exact hcollects.sequence.map _
  · have hshort : (agreeing sameLetter name.toList (input.toList.drop i)).length ≠
        name.toList.length := by
      intro hlength
      obtain ⟨rest, hrest⟩ : agreeing sameLetter name.toList (input.toList.drop i) <+:
          input.toList.drop i := agreeing_prefix
      exact hno _ rest hrest.symm
        ((forall₂_of_agreeing hlength).imp fun _ _ h => sameLetter_iff.1 h)
    obtain ⟨expectation, hcollects⟩ :=
      Parser.Collects.stopped i [] hitems hi hshort
    exact Parser.Fails.map _ (hcollects.sequence.fails fun hstill => by simpa using hstill)

end Letters

section WholeRuns

variable {input : Array Char} {language : Build Language} {i : Nat} {name w : String}
  {front rest : List Char}

/-- Letters with one form belong to identifiers together. -/
theorem continuesIdentifier_congr {c d : Char} (h : SameForm c d) :
    continuesIdentifier c = continuesIdentifier d := by
  have hletters : ∀ x, Text.HasCase x → continuesIdentifier x = true := fun x hx => by
    simp [continuesIdentifier, Text.isLetterOrDigit, hx.letter]
  exact Text.eq_of_lowerChar_eq hletters h

theorem continues_of_agrees {letters letters' : List Char}
    (hagrees : List.Forall₂ SameForm letters letters')
    (h : ∀ c ∈ letters, continuesIdentifier c = true) :
    ∀ c ∈ letters', continuesIdentifier c = true := by
  induction hagrees with
  | nil => simp
  | cons hhead _ ih =>
    obtain ⟨hc, hletters⟩ := List.forall_mem_cons.1 h
    exact List.forall_mem_cons.2 ⟨continuesIdentifier_congr hhead ▸ hc, ih hletters⟩

/-- A name that lies ahead does so as the word there. -/
theorem NameAhead.front_eq {text word : List Char}
    (hname : IsWord beginsIdentifier continuesIdentifier name)
    (h : NameAhead SameForm continuesIdentifier name text front rest)
    (hahead : wordAhead beginsIdentifier continuesIdentifier text = some word) : front = word := by
  obtain ⟨c, tail, hchars, -, htail⟩ := hname
  obtain ⟨rfl, hagrees, hrest⟩ := h
  rw [hchars] at hagrees
  cases hagrees with
  | @cons _ d _ letters hhead hletters =>
    obtain ⟨_, _, hcons, hbegins, -⟩ := wordAhead_eq_some hahead
    obtain ⟨rfl, -⟩ := List.cons.inj hcons
    have hword : IsWord beginsIdentifier continuesIdentifier (String.ofList (d :: letters)) :=
      ⟨d, letters, String.toList_ofList, hbegins, continues_of_agrees hletters htail⟩
    have hwhole : wordAhead beginsIdentifier continuesIdentifier (d :: letters ++ rest) =
        some (String.ofList (d :: letters)).toList :=
      (wordAhead_eq_some_iff hword).2 ⟨rest, by rw [String.toList_ofList], hrest⟩
    rw [String.toList_ofList] at hwhole
    exact Option.some.inj (hwhole.symm.trans hahead)

theorem isReservedName_eq_false_iff (hcase : (language.assemble 0).caseSensitive = false) :
    (lexerOf language).isReservedName w = false ↔
      ∀ name' ∈ (language.assemble 0).reservedNames, lowerText name' ≠ lowerText w := by
  rw [← Bool.not_eq_true, isReservedName_iff]
  simp [fold, lexer_language, hcase]

/-- In a language that ignores case an identifier and a reserved word match at the same place
only because of a sigma that ends a word. They both succeed exactly if white space succeeds
behind a word that agrees with the reserved one letter by letter, has another lower-case form
than all reserved words, and so differs from the reserved one in such a sigma, which is a
capital in one of them and a small letter in the other. -/
theorem identifier_and_reserved_iff (language : Build Language)
    (hlanguage : Build.Yields 0 language fun names language =>
      language.Ready Parser.labelled names 0)
    (hcase : (language.assemble 0).caseSensitive = false) (input : Array Char)
    (hsize : input.size < Index.limit) (memoize : Bool) (i : Nat) (hi : i ≤ input.size)
    (hstart : (language.assemble 0).identStart.Accepts input Scope.root beginsIdentifier)
    (hletter : (language.assemble 0).identLetter.Accepts input Scope.root continuesIdentifier)
    (name : String) (hmem : name ∈ (language.assemble 0).reservedNames)
    (hname : IsWord beginsIdentifier continuesIdentifier name) :
    (∃ v stop, (token language identifier).ShowsFrom input memoize i (.ok (.success v, stop))) ∧
        (∃ stop, (token language (reserved · name)).ShowsFrom input memoize i
          (.ok (.success (), stop))) ↔
      ∃ w stop, wordAhead beginsIdentifier continuesIdentifier (input.toList.drop i) =
          some w.toList ∧
        List.Forall₂ SameForm name.toList w.toList ∧ FinalSigmasDiffer [] name.toList w.toList ∧
        (∀ name' ∈ (language.assemble 0).reservedNames, lowerText name' ≠ lowerText w) ∧
        (blanks language).ShowsFrom input memoize (i + w.toList.length)
          (.ok (.success (), stop)) := by
  have hskips : ∀ j ≤ input.size, (lexerOf language).whiteSpace.Commits input Scope.root j :=
    fun j hj => blanks_commit language hsize hj
  have hblanks := blanks_wellLabelled hlanguage
  have hwordLabelled : (token language identifier).WellLabelled :=
    grammar_wellLabelled hlanguage fun _ => labelled_compositional.identifier_offered
  have hnameLabelled : (token language (reserved · name)).WellLabelled :=
    grammar_wellLabelled hlanguage fun _ => labelled_compositional.reserved_offered name
  obtain ⟨core, hcore, hreads⟩ := token_lexeme language identifier
    (words_read hstart hletter _ (lexerOf language).isReservedName "word" "identifier")
  obtain ⟨key, hkey, hmatches⟩ := token_lexeme language (reserved · name)
    (reserved_reads hsize (lexerOf language) (caseString_follows hsize hcase name) hletter)
  rw [hcore] at hwordLabelled
  rw [hkey] at hnameLabelled
  rw [hcore, hkey, word_succeeds_iff hi hskips hblanks hreads hwordLabelled,
    name_succeeds_iff hi hskips hblanks hmatches hnameLabelled]
  constructor
  · rintro ⟨⟨w, stop, hahead, hfree, hblank⟩, front, rest, stop', hmatch, -⟩
    obtain rfl := hmatch.front_eq hname hahead
    have hother := (isReservedName_eq_false_iff hcase).1 hfree
    have hsigmas := mt (Text.lowerText_eq_iff hmatch.agree).2 (hother name hmem)
    exact ⟨w, stop, hahead, hmatch.agree, not_not.1 hsigmas, hother, hblank⟩
  · rintro ⟨w, stop, hahead, hagrees, -, hother, hblank⟩
    obtain ⟨rest, htext, hrest⟩ := (wordAhead_eq_some_iff (isWord_of_ahead hahead)).1 hahead
    exact ⟨⟨w, stop, hahead, (isReservedName_eq_false_iff hcase).2 hother, hblank⟩,
      w.toList, rest, stop, ⟨htext, hagrees, hrest⟩, hblank⟩

/-- A capital sigma at the end of a word lets it be both the reserved word and an identifier. -/
theorem identifier_and_reserved_sigma :
    (∃ v stop, (token (reserving false ["a\u03c3"]) identifier).ShowsFrom "a\u03a3".toList.toArray
      false 0 (.ok (.success v, stop))) ∧
    ∃ stop, (token (reserving false ["a\u03c3"]) (reserved · "a\u03c3")).ShowsFrom
      "a\u03a3".toList.toArray false 0 (.ok (.success (), stop)) := by
  have hsize : "a\u03a3".toList.toArray.size < Index.limit := by decide
  obtain ⟨hstart, hletter⟩ := reserving_accepts hsize false ["a\u03c3"]
  have hname : IsWord beginsIdentifier continuesIdentifier "a\u03c3" :=
    ⟨'a', ['\u03c3'], rfl, by decide +kernel, List.all_eq_true.1 (by decide +kernel)⟩
  have hahead : wordAhead beginsIdentifier continuesIdentifier
      ("a\u03a3".toList.toArray.toList.drop 0) = some "a\u03a3".toList := by decide +kernel
  have hagrees : List.Forall₂ SameForm "a\u03c3".toList "a\u03a3".toList :=
    .cons rfl (.cons (Text.lowerChar_smallSigma.trans Text.lowerChar_sigma.symm) .nil)
  have hsigmas : FinalSigmasDiffer [] "a\u03c3".toList "a\u03a3".toList :=
    ⟨1, '\u03c3', '\u03a3', rfl, rfl, .inr ⟨rfl, rfl⟩, by decide +kernel, by decide +kernel⟩
  have hother : lowerText "a\u03c3" ≠ lowerText "a\u03a3" :=
    mt (Text.lowerText_eq_iff hagrees).1 (not_not.2 hsigmas)
  have hblanks : (blanks (reserving false ["a\u03c3"])).ShowsFrom "a\u03a3".toList.toArray false 2
      (.ok (.success (), 2)) := Parser.showsFrom_ok_iff.2 ⟨_, ⟨40, _, _, rfl, rfl⟩, rfl⟩
  exact (identifier_and_reserved_iff _ (reserving_ready false ["a\u03c3"]) rfl _ hsize false 0
    (Nat.zero_le _) hstart hletter "a\u03c3" (List.mem_singleton.2 rfl) hname).2
    ⟨"a\u03a3", 2, hahead, hagrees, hsigmas, List.forall_mem_singleton.2 hother, hblanks⟩

end WholeRuns

end ParserKit.Lexer
