import ParserKit.Proofs.Scanning

/-!
Lists with separators undo joining. A list of words that is joined by a separator is read back
as the list of these words, up to the end of the joined text. A separator behind it promises
another word, so the list fails there and has consumed the separator; and where no word begins,
the list that may be empty is, and the other one refuses.
-/

namespace ParserKit

namespace Parser

/-- A text that is not empty and has only characters of a class. -/
structure WordOver (accepts : Char → Bool) (word : String) : Prop where
  nonempty : word.toList ≠ []
  accepted : ∀ c ∈ word.toList, accepts c = true

/-- The words that follow the first one, each behind a separator. -/
def laterText (separator : Char) (words : List String) : List Char :=
  words.flatMap fun word => separator :: word.toList

theorem toList_intercalate_cons (separator : Char) (word : String) (words : List String) :
    ((String.singleton separator).intercalate (word :: words)).toList =
      word.toList ++ laterText separator words := by
  induction words generalizing word with
  | nil => simp [laterText]
  | cons next words ih =>
    rw [String.intercalate_cons_cons, String.toList_append, String.toList_append, ih]
    simp [laterText]

section Words

variable {input : Array Char} {scope : Scope} {i j : Nat} {letter mark : Parser .char}
  {accepts : Char → Bool} {separator : Char} {word : String} {words : List String}
  {rest : List Char} {outcome : Outcome (List String)}

theorem Accepts.runs_word (hletter : letter.Accepts input scope accepts)
    (hword : WordOver accepts word) (htext : input.toList.drop i = word.toList ++ rest)
    (hi : i ≤ input.size) (hrest : ∀ c, rest.head? = some c → accepts c = false) :
    letter.many1Chars.Runs input scope i (.success word) (i + word.toList.length) := by
  have hruns := (hletter.many1 htext hi hword.nonempty hword.accepted hrest).map (b := .text)
    String.ofList
  rw [String.ofList_toList] at hruns
  exact hruns

theorem Accepts.refuses_word (hletter : letter.Accepts input scope accepts) (hi : i ≤ input.size)
    (hhead : ∀ c, (input.toList.drop i).head? = some c → accepts c = false) :
    letter.many1Chars.Refuses input scope i :=
  (hletter.refuses hi hhead).many1.map _

/-- What lies behind a word in a joined text does not go on with it. -/
theorem head?_laterText_append (hseparator : accepts separator = false)
    (hrest : ∀ c, rest.head? = some c → accepts c = false) :
    ∀ c, (laterText separator words ++ rest).head? = some c → accepts c = false := by
  cases words with
  | nil => exact hrest
  | cons word words =>
    rintro c ⟨rfl⟩
    exact hseparator

variable (hletter : letter.Accepts input scope accepts)
  (hmark : mark.Accepts input scope (· == separator)) (hseparator : accepts separator = false)

include hletter hmark hseparator

/-- A repetition of words behind separators goes on behind the words that there are. -/
theorem Loops.behind_words (values : List String) (hwords : ∀ word ∈ words, WordOver accepts word)
    (htext : input.toList.drop i = laterText separator words ++ rest) (hi : i ≤ input.size)
    (hrest : ∀ c, rest.head? = some c → accepts c = false)
    (h : Loops (t := .text) input scope (mark.andThen letter.many1Chars) (words.reverse ++ values)
      (i + (laterText separator words).length) outcome j) :
    Loops (t := .text) input scope (mark.andThen letter.many1Chars) values i outcome j := by
  induction words generalizing i values with
  | nil => exact h
  | cons word words ih =>
    obtain ⟨hword, hwords⟩ := List.forall_mem_cons.1 hwords
    have hahead : input.toList.drop i =
        separator :: (word.toList ++ (laterText separator words ++ rest)) := by
      rw [htext]
      simp [laterText]
    have hbehind := (drop_eq_cons_iff.1 hahead).2
    have hmarked := hmark.runs hahead (beq_self_eq_true separator)
    have hi' := hmarked.le_size hi
    have hread := hletter.runs_word hword hbehind hi' (head?_laterText_append hseparator hrest)
    have hstop : i + (laterText separator (word :: words)).length =
        i + 1 + word.toList.length + (laterText separator words).length := by
      simp only [laterText, List.flatMap_cons, List.length_append, List.length_cons]
      omega
    rw [List.reverse_cons, List.append_assoc, List.singleton_append, hstop] at h
    exact .again (hmarked.andThen hread) (by omega)
      (ih (word :: values) hwords (drop_add_length hbehind) (hread.le_size hi') h)

/-- Behind the words there is neither a separator nor a letter. -/
theorem runs_sepBy1 (hwords : ∀ w ∈ word :: words, WordOver accepts w)
    (htext : input.toList.drop i = word.toList ++ (laterText separator words ++ rest))
    (hi : i ≤ input.size)
    (hrest : ∀ c, rest.head? = some c → c ≠ separator ∧ accepts c = false) :
    (letter.many1Chars.sepBy1 mark).Runs input scope i (.success (word :: words))
      (i + (word.toList ++ laterText separator words).length) := by
  obtain ⟨hword, hwords⟩ := List.forall_mem_cons.1 hwords
  have hletters := fun c hc => (hrest c hc).2
  have hread := hletter.runs_word hword htext hi (head?_laterText_append hseparator hletters)
  have hbehind := drop_add_length htext
  have hend := add_length_le hbehind (hread.le_size hi)
  have hlast : (mark.andThen letter.many1Chars).Refuses input scope
      (i + word.toList.length + (laterText separator words).length) :=
    (hmark.refuses hend (by
      rw [drop_add_length hbehind]
      exact fun c hc => beq_eq_false_iff_ne.2 (hrest c hc).1)).bind _ _
  have hlater := (Loops.behind_words hletter hmark hseparator [] hwords hbehind
    (hread.le_size hi) hletters (.stop hlast)).many
  rw [List.append_nil, List.reverse_reverse, Nat.add_assoc, ← List.length_append] at hlater
  exact hread.lift2 (c := .list .text) List.cons hlater

/-- Behind the words there is a separator and then no letter. -/
theorem sepBy1_breaks (hwords : ∀ w ∈ word :: words, WordOver accepts w)
    (htext : input.toList.drop i = word.toList ++ (laterText separator words ++ separator :: rest))
    (hi : i ≤ input.size) (hrest : ∀ c, rest.head? = some c → accepts c = false) :
    ∃ expected, (letter.many1Chars.sepBy1 mark).Runs input scope i (.failure ⟨expected, true⟩)
      (i + (word.toList ++ laterText separator words).length + 1) := by
  obtain ⟨hword, hwords⟩ := List.forall_mem_cons.1 hwords
  have hmarkHead : ∀ c, (separator :: rest).head? = some c → accepts c = false := by
    rintro c ⟨rfl⟩
    exact hseparator
  have hread := hletter.runs_word hword htext hi (head?_laterText_append hseparator hmarkHead)
  have hbehind := drop_add_length htext
  have hmarked := hmark.runs (drop_add_length hbehind) (beq_self_eq_true separator)
  have hend := hmarked.le_size (add_length_le hbehind (hread.le_size hi))
  obtain ⟨expected, hrefuses⟩ := hletter.refuses_word hend (by
    rw [(drop_eq_cons_iff.1 (drop_add_length hbehind)).2]
    exact hrest)
  have hmoved : ∀ k : Nat, (k + 1 != k) = true := by simp
  have hbroken := hmarked.bind letter.many1Chars.owned (fun _ => letter.many1Chars) hrefuses
  rw [hmoved] at hbroken
  have hlater := (Loops.behind_words hletter hmark hseparator [] hwords hbehind
    (hread.le_size hi) hmarkHead (.broken hbroken)).many
  rw [Nat.add_assoc i, ← List.length_append] at hlater
  exact ⟨expected, hread.lift2_broken (b := .list .text) (c := .list .text) List.cons hlater⟩

end Words

end Parser

namespace Build

/-- A list of words over a class of characters, with a separator. -/
def wordList (list : Parser .text → Parser .char → Parser (.list .text)) (accepts : Char → Bool)
    (separator : Char) : Build (Parser (.list .text)) := do
  let word := (← satisfy accepts).many1Chars
  return list word (← char separator)

variable {level : Nat} {list : Parser .text → Parser .char → Parser (.list .text)}
  (accepts : Char → Bool) (separator : Char)

theorem wordList_labelled (hlist : ∀ {names p q}, p.Labelled names level → q.Labelled names level →
      (list p q).Labelled names level) : Labelled level (wordList list accepts separator) :=
  (satisfy_labelled accepts).bind fun letter => (char_labelled separator).bind fun _ =>
    .pure fun _ hmark hletter => hlist (p := letter.many1Chars) hletter hmark

/-- A list of words is made of a parser of letters and one of separators. -/
theorem wordList_made (list : Parser .text → Parser .char → Parser (.list .text))
    {input : Array Char} (hsize : input.size < Index.limit) :
    Yields level (wordList list accepts separator) fun _ p => ∃ letter mark : Parser .char,
      p = list letter.many1Chars mark ∧ ∀ scope, letter.Accepts input scope accepts ∧
        mark.Accepts input scope (· == separator) :=
  (satisfy_accepts hsize accepts).bind fun letter => (char_accepts hsize separator).bind fun mark =>
    .pure fun _ hmark hletter => ⟨letter, mark, rfl, fun scope => ⟨hletter scope, hmark scope⟩⟩

end Build

namespace Parser

/-- What a list of words shows is what the combinator does with a parser of letters and one of
separators. -/
theorem wordList_shows {list : Parser .text → Parser .char → Parser (.list .text)}
    (hlist : ∀ {names p q}, p.Labelled names 0 → q.Labelled names 0 → (list p q).Labelled names 0)
    (accepts : Char → Bool) (separator : Char) {input : Array Char}
    (hsize : input.size < Index.limit) :
    ∃ letter mark : Parser .char, letter.Accepts input Scope.root accepts ∧
      mark.Accepts input Scope.root (· == separator) ∧ ∀ memoize {i outcome j}, i ≤ input.size →
        (list letter.many1Chars mark).Runs input Scope.root i outcome j →
        ((Build.wordList list accepts separator).assemble 0).ShowsFrom input memoize i
          (.ok (outcome, j)) := by
  obtain ⟨_, letter, mark, hmade, haccepts⟩ :=
    (Build.wordList_made accepts separator list hsize).assembled
  have hlabelled := Build.assemble_wellLabelled (Build.wordList_labelled accepts separator hlist)
  obtain ⟨hletter, hmark⟩ := haccepts Scope.root
  rw [hmade] at hlabelled ⊢
  exact ⟨letter, mark, hletter, hmark, fun memoize _ _ _ hi hruns =>
    (hlabelled.showsFrom_iff hruns hi memoize).2 rfl⟩

/-- Lists with separators undo joining. Of words that are joined by a separator and followed by
neither a separator nor a letter, both lists are the list of these words and end where the joined
text ends. With one more separator before that both fail behind it and have consumed. Where no
word begins, the list that may be empty is, and the other one fails without consuming. -/
theorem wordList_inverts_joining (accepts : Char → Bool) (separator : Char)
    (hseparator : accepts separator = false) (words : List String) (hne : words ≠ [])
    (hwords : ∀ w ∈ words, WordOver accepts w) (rest : List Char)
    (hrest : ∀ c, rest.head? = some c → c ≠ separator ∧ accepts c = false) (input : Array Char)
    (hsize : input.size < Index.limit) (memoize : Bool) (start : Nat)
    (hstart : start ≤ input.size) :
    (input.toList.drop start = ((String.singleton separator).intercalate words).toList ++ rest →
      ∀ list ∈ [sepBy1, sepBy],
        ((Build.wordList list accepts separator).assemble 0).ShowsFrom input memoize start
          (.ok (.success words,
            start + ((String.singleton separator).intercalate words).toList.length))) ∧
    (input.toList.drop start =
        ((String.singleton separator).intercalate words).toList ++ separator :: rest →
      ∀ list ∈ [sepBy1, sepBy], ∃ expected,
        ((Build.wordList list accepts separator).assemble 0).ShowsFrom input memoize start
          (.ok (.failure ⟨expected, true⟩,
            start + ((String.singleton separator).intercalate words).toList.length + 1))) ∧
    ((∀ c, (input.toList.drop start).head? = some c → accepts c = false) →
      ((Build.wordList sepBy accepts separator).assemble 0).ShowsFrom input memoize start
          (.ok (.success [], start)) ∧
        ∃ expected, ((Build.wordList sepBy1 accepts separator).assemble 0).ShowsFrom input memoize
          start (.ok (.fail expected, start))) := by
  obtain ⟨word, words, rfl⟩ := List.exists_cons_of_ne_nil hne
  obtain ⟨letter, mark, hletter, hmark, hshows⟩ :=
    wordList_shows Labelled.sepBy1 accepts separator hsize
  obtain ⟨letter', mark', hletter', hmark', hshows'⟩ :=
    wordList_shows Labelled.sepBy accepts separator hsize
  rw [toList_intercalate_cons, List.append_assoc, List.append_assoc]
  refine ⟨fun htext => List.forall_mem_cons.2 ⟨?_, List.forall_mem_singleton.2 ?_⟩,
    fun htext => List.forall_mem_cons.2 ⟨?_, List.forall_mem_singleton.2 ?_⟩, fun hhead => ⟨?_, ?_⟩⟩
  · exact hshows memoize hstart
      (runs_sepBy1 hletter hmark hseparator hwords htext hstart hrest)
  · exact hshows' memoize hstart
      (runs_sepBy1 hletter' hmark' hseparator hwords htext hstart hrest).choice_success
  · obtain ⟨expected, hbreaks⟩ := sepBy1_breaks hletter hmark hseparator hwords htext hstart
      fun c hc => (hrest c hc).2
    exact ⟨expected, hshows memoize hstart hbreaks⟩
  · obtain ⟨expected, hbreaks⟩ := sepBy1_breaks hletter' hmark' hseparator hwords htext hstart
      fun c hc => (hrest c hc).2
    exact ⟨expected, hshows' memoize hstart hbreaks.choice_break⟩
  · obtain ⟨expected, hrefuses⟩ := (hletter'.refuses_word hstart hhead).bind (b := .list .text) _ _
    exact hshows' memoize hstart (hrefuses.choice_second (.ret (t := .list .text) []))
  · obtain ⟨expected, hrefuses⟩ := (hletter.refuses_word hstart hhead).bind (b := .list .text) _ _
    exact ⟨expected, hshows memoize hstart hrefuses⟩

/-- Two words, an end of line behind them, and then a separator before it. -/
theorem wordList_inverts_joining_twoWords :
    Char.isAlpha ',' = false ∧ ["ab", "c"] ≠ [] ∧ (∀ w ∈ ["ab", "c"], WordOver Char.isAlpha w) ∧
      (∀ c, ['\n'].head? = some c → c ≠ ',' ∧ Char.isAlpha c = false) ∧
      "-ab,c\n".toList.toArray.size < Index.limit ∧ 1 ≤ "-ab,c\n".toList.toArray.size ∧
      ((Build.wordList sepBy Char.isAlpha ',').assemble 0).ShowsFrom "-ab,c\n".toList.toArray true 1
        (.ok (.success ["ab", "c"], 5)) ∧
      ∃ expected, ((Build.wordList sepBy1 Char.isAlpha ',').assemble 0).ShowsFrom
        "-ab,c,\n".toList.toArray true 1 (.ok (.failure ⟨expected, true⟩, 6)) := by
  have hwords : ∀ w ∈ ["ab", "c"], WordOver Char.isAlpha w := by
    refine List.forall_mem_cons.2 ⟨⟨by decide, ?_⟩, List.forall_mem_singleton.2 ⟨by decide, ?_⟩⟩
    · exact List.all_eq_true.1 (by decide : "ab".toList.all Char.isAlpha = true)
    · exact List.all_eq_true.1 (by decide : "c".toList.all Char.isAlpha = true)
  have hrest : ∀ c, ['\n'].head? = some c → c ≠ ',' ∧ Char.isAlpha c = false := by
    rintro c ⟨rfl⟩
    decide
  have hread := (wordList_inverts_joining Char.isAlpha ',' (by decide) ["ab", "c"] (by decide)
    hwords ['\n'] hrest "-ab,c\n".toList.toArray (by decide) true 1 (by decide)).1 (by decide)
  have hbroken := (wordList_inverts_joining Char.isAlpha ',' (by decide) ["ab", "c"] (by decide)
    hwords ['\n'] hrest "-ab,c,\n".toList.toArray (by decide) true 1 (by decide)).2.1 (by decide)
  exact ⟨by decide, by decide, hwords, hrest, by decide, by decide, hread sepBy (by simp),
    hbroken sepBy1 (by simp)⟩

end Parser

end ParserKit
