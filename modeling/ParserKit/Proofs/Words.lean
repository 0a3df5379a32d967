import ParserKit.Proofs.Lexemes
import ParserKit.Proofs.WordTables

/-!
Words and reserved words. A word is read as far as its characters go and then looked up in
a sorted table; a reserved word is compared with the text and must not go on. In a
language that minds case the two agree on where a word ends, so that the words at a place
are parted between them.
-/

namespace ParserKit

namespace Lexer

section Ahead

variable {isStart isLetter : Char → Bool} {front word : List Char}

/-- The word that a text begins with: a first character and all later ones that follow. -/
def wordAhead (isStart isLetter : Char → Bool) : List Char → Option (List Char)
  | [] => none
  | c :: tail => if isStart c then some (c :: tail.takeWhile isLetter) else none

/-- A text that is a first character and later ones. -/
def IsWord (isStart isLetter : Char → Bool) (name : String) : Prop :=
  ∃ c tail, name.toList = c :: tail ∧ isStart c = true ∧ ∀ d ∈ tail, isLetter d = true

theorem wordAhead_cons (c : Char) (tail : List Char) :
    wordAhead isStart isLetter (c :: tail) =
      if isStart c then some (c :: tail.takeWhile isLetter) else none :=
  rfl

theorem wordAhead_eq_some (h : wordAhead isStart isLetter front = some word) :
    ∃ c tail, front = c :: tail ∧ isStart c = true ∧ word = c :: tail.takeWhile isLetter := by
  cases front with
  | nil => cases h
  | cons c tail =>
    by_cases hc : isStart c = true
    · exact ⟨c, tail, rfl, hc, by simpa [wordAhead, hc, eq_comm] using h⟩
    · simp [wordAhead, hc] at h

/-- A text begins with letters that agree with those of a name, and does not go on with
another letter. -/
structure NameAhead (agrees : Char → Char → Prop) (isLetter : Char → Bool) (name : String)
    (text front rest : List Char) : Prop where
  text_eq : text = front ++ rest
  agree : List.Forall₂ agrees name.toList front
  ended : ∀ d, rest.head? = some d → isLetter d = false

theorem wordAhead_eq_some_iff {name : String} (hname : IsWord isStart isLetter name) :
    wordAhead isStart isLetter front = some name.toList ↔
      ∃ rest, front = name.toList ++ rest ∧ ∀ d, rest.head? = some d → isLetter d = false := by
  obtain ⟨c, tail, htext, hc, htail⟩ := hname
  rw [htext]
  constructor
  · intro h
    obtain ⟨d, later, rfl, -, hword⟩ := wordAhead_eq_some h
    obtain ⟨rfl, rfl⟩ := List.cons.inj hword
    refine ⟨later.dropWhile isLetter, ?_, fun d hd => ?_⟩
    · rw [List.cons_append, List.takeWhile_append_dropWhile]
    · have hnot := List.head?_dropWhile_not isLetter later
      rwa [hd] at hnot
  · rintro ⟨rest, rfl, hrest⟩
    rw [List.cons_append, wordAhead_cons, if_pos hc, List.takeWhile_append_of_pos htail]
    cases rest with
    | nil => simp
    | cons d rest => simp [hrest d rfl]

/-- A name lies ahead as a word exactly if the text agrees with it. -/
theorem wordAhead_eq_some_iff_nameAhead {name : String} (hname : IsWord isStart isLetter name) :
    wordAhead isStart isLetter front = some name.toList ↔
      ∃ text rest, NameAhead (· = ·) isLetter name front text rest := by
  rw [wordAhead_eq_some_iff hname]
  constructor
  · rintro ⟨rest, htext, hrest⟩
    exact ⟨_, rest, htext, List.forall₂_refl _, hrest⟩
  · rintro ⟨text, rest, htext, hagrees, hrest⟩
    obtain rfl : name.toList = text := List.forall₂_eq_eq_eq ▸ hagrees
    exact ⟨rest, htext, hrest⟩

end Ahead

section Readers

variable {input : Array Char} {scope : Scope} {i j : Nat} {isStart isLetter : Char → Bool}
  {front rest word : List Char}

section Run

variable {start letter : Parser .char} (hstart : start.Accepts input scope isStart)
  (hletter : letter.Accepts input scope isLetter)

include hstart

theorem run_refuses (hi : i ≤ input.size)
    (h : wordAhead isStart isLetter (input.toList.drop i) = none) :
    (run start letter).Refuses input scope i := by
  refine Parser.Refuses.bind _ _ ?_
  cases htext : input.toList.drop i with
  | nil => exact hstart.refuses_nil hi htext
  | cons c tail =>
    rw [htext] at h
    refine hstart.refuses_cons hi htext ?_
    by_contra hc
    simp [wordAhead, hc] at h

include hletter

theorem run_runs (h : wordAhead isStart isLetter (input.toList.drop i) = some word) :
    (run start letter).Runs input scope i (.success (String.ofList word)) (i + word.length) := by
  obtain ⟨c, tail, htext, hc, rfl⟩ := wordAhead_eq_some h
  have hfirst := hstart.runs htext hc
  obtain ⟨hchar, htail⟩ := drop_eq_cons_iff.1 htext
  obtain ⟨hlt, -⟩ := Array.getElem?_eq_some_iff.1 hchar
  have hmany := hletter.many_while hlt
  rw [htail] at hmany
  have hlength : i + (c :: tail.takeWhile isLetter).length =
      i + 1 + (tail.takeWhile isLetter).length := by
    rw [List.length_cons]
    omega
  rw [hlength]
  exact hfirst.lift2 _ hmany

end Run

section Reserved

variable {p : Parser .text} {isReserved : String → Bool} {w : String} (kind : String)

theorem unreserved_runs (hp : p.Runs input scope i (.success w) j) (hfree : isReserved w = false) :
    (unreserved isReserved kind p).Runs input scope i (.success w) j := by
  have hnext : (if isReserved w then .reject (s!"reserved {kind} " ++ w) i else .ret w :
      Parser .text).Runs input scope j (.success w) j := by
    rw [hfree]
    exact .ret (t := .text) w
  exact hp.spanned.bind (a := .spanned .text) [] (fun found => if isReserved found.1 then
    .reject (s!"reserved {kind} " ++ found.1) found.2.start else .ret found.1) hnext

/-- The word is reported where it begins. -/
theorem unreserved_rejects (hp : p.Runs input scope i (.success w) j)
    (hreserved : isReserved w = true) :
    (Parser.wrap .attempt (unreserved isReserved kind p)).Runs input scope i
      (.fail (.unexpected (s!"reserved {kind} " ++ w) i)) i := by
  have hnext : (if isReserved w then .reject (s!"reserved {kind} " ++ w) i else .ret w :
      Parser .text).Runs input scope j (.fail (.unexpected (s!"reserved {kind} " ++ w) i)) j := by
    rw [hreserved]
    exact .reject _ i
  exact (hp.spanned.bind (a := .spanned .text) [] (fun found => if isReserved found.1 then
    .reject (s!"reserved {kind} " ++ found.1) found.2.start else .ret found.1) hnext).attempt_failure

end Reserved

/-- The parser reads a word unless it is reserved. -/
structure ReadsWords (input : Array Char) (scope : Scope) (isStart isLetter : Char → Bool)
    (isReserved : String → Bool) (kind message : String) (p : Parser .text) : Prop where
  refused : ∀ {i}, i ≤ input.size → wordAhead isStart isLetter (input.toList.drop i) = none →
    p.Runs input scope i (.fail (.positioned message i)) i
  read : ∀ {i word}, wordAhead isStart isLetter (input.toList.drop i) = some word →
    isReserved (String.ofList word) = false →
    p.Runs input scope i (.success (String.ofList word)) (i + word.length)
  rejected : ∀ {i word}, wordAhead isStart isLetter (input.toList.drop i) = some word →
    isReserved (String.ofList word) = true →
    p.Runs input scope i
      (.fail (.unexpected (s!"reserved {kind} " ++ String.ofList word) i)) i

theorem label_run_reads {start letter : Parser .char} (hstart : start.Accepts input scope isStart)
    (hletter : letter.Accepts input scope isLetter) (kind message : String) {level : Nat} :
    Build.Yields level (Build.label (run start letter) message) fun _ p =>
      ReadsWords input scope isStart isLetter (fun _ => false) kind message p := by
  refine Build.memo_meets fun label => ⟨fun hi h => ?_, fun h _ => ?_, fun _ h => by cases h⟩
  · obtain ⟨expected, hrefuses⟩ := run_refuses hstart hi h
    exact (hrefuses.label_failure message).memo label
  · exact ((run_runs hstart hletter h).label message).memo label

theorem ReadsWords.unreserved {p : Parser .text} {kind message : String}
    (hp : ReadsWords input scope isStart isLetter (fun _ => false) kind message p)
    (isReserved : String → Bool) (label : Label) :
    ReadsWords input scope isStart isLetter isReserved kind message
      (.memo label (.wrap .attempt (unreserved isReserved kind p))) where
  refused hi h := ((hp.refused hi h).spanned_failure.bind_failure _ _).attempt_failure.memo label
  read h hfree := (unreserved_runs kind (hp.read h rfl) hfree).attempt.memo label
  rejected h hreserved := (unreserved_rejects kind (hp.read h rfl) hreserved).memo label

/-- How identifiers and operators are assembled. -/
theorem words_read {start letter : Parser .char} (hstart : start.Accepts input scope isStart)
    (hletter : letter.Accepts input scope isLetter) (lexer : Lexer) (isReserved : String → Bool)
    (kind message : String) {level : Nat} :
    Build.Yields level (do
      let word ← Build.label (run start letter) message
      return lexer.lexeme (← Build.attempt (unreserved isReserved kind word)))
      fun _ p => ∃ core, p = lexer.lexeme core ∧
        ReadsWords input scope isStart isLetter isReserved kind message core := by
  refine (label_run_reads hstart hletter kind message).bind fun word => ?_
  have hattempt : Build.Yields level (Build.attempt (unreserved isReserved kind word))
      fun _ core => ReadsWords input scope isStart isLetter (fun _ => false) kind message word →
        ReadsWords input scope isStart isLetter isReserved kind message core :=
    Build.memo_meets fun label hword => hword.unreserved isReserved label
  exact hattempt.bind fun core => .pure fun _ hcore hword => ⟨core, rfl, hcore hword⟩

section Delimited

variable {agrees : Char → Char → Prop} {name : String} {text : Parser .text} {letter : Parser .char}

/-- The parser reads a text that agrees with a name letter by letter, or fails. -/
structure Follows (input : Array Char) (scope : Scope) (agrees : Char → Char → Prop) (name : String)
    (p : Parser .text) : Prop where
  found : ∀ {i front rest}, input.toList.drop i = front ++ rest →
    List.Forall₂ agrees name.toList front → i ≤ input.size →
    p.Runs input scope i (.success name) (i + front.length)
  differs : ∀ {i}, (∀ front rest, input.toList.drop i = front ++ rest →
    ¬ List.Forall₂ agrees name.toList front) → i ≤ input.size → p.Fails input scope i

/-- The parser reads a name that lies ahead, or fails without consuming. -/
structure ReadsName (input : Array Char) (scope : Scope) (agrees : Char → Char → Prop)
    (isLetter : Char → Bool) (name : String) (p : Parser .unit) : Prop where
  matched : ∀ {i front rest}, NameAhead agrees isLetter name (input.toList.drop i) front rest →
    i ≤ input.size → p.Runs input scope i (.success ()) (i + front.length)
  unmatched : ∀ {i},
    (¬ ∃ front rest, NameAhead agrees isLetter name (input.toList.drop i) front rest) →
    i ≤ input.size → p.Refuses input scope i

theorem follows_of_spells (hp : text.Spells input scope name) :
    Follows input scope (· = ·) name text where
  found {i front rest} htext hagrees hi := by
    obtain rfl : name.toList = front := List.forall₂_eq_eq_eq ▸ hagrees
    exact hp.found ⟨rest, htext.symm⟩ hi
  differs {i} hdiffers hi := by
    refine hp.differs (fun hbegins => ?_) hi
    obtain ⟨rest, hrest⟩ := hbegins
    exact hdiffers _ rest hrest.symm (List.forall₂_refl _)

/-- The parser succeeds where no letter comes next, and refuses where one does. -/
structure EndsWords (input : Array Char) (scope : Scope) (isLetter : Char → Bool)
    (p : Parser .unit) : Prop where
  ended : ∀ {i}, (∀ d, (input.toList.drop i).head? = some d → isLetter d = false) →
    i ≤ input.size → p.Runs input scope i (.success ()) i
  continued : ∀ {i d}, (input.toList.drop i).head? = some d → isLetter d = true →
    p.Refuses input scope i

theorem boundary_ends (hsize : input.size < Index.limit) (hletter : letter.Accepts input scope isLetter)
    (message : String) {level : Nat} :
    Build.Yields level (Build.label letter.notFollowedBy message) fun _ p =>
      EndsWords input scope isLetter p := by
  refine Build.memo_meets fun label => ⟨fun hends hi => ?_, fun {i d} hhead hd => ?_⟩
  · exact ((Parser.Fails.refuse (.inl (hletter.refuses hi hends))).label message).memo label
  · have hruns := hletter.accepted (head?_drop.symm.trans hhead) hd
    exact ((hruns.refuse hsize (Nat.le_succ i)).label message).memo label

theorem Follows.bounded {boundary : Parser .unit} (htext : Follows input scope agrees name text)
    (hboundary : EndsWords input scope isLetter boundary) (label : Label) :
    ReadsName input scope agrees isLetter name
      (.memo label (.wrap .attempt (text.andThen boundary))) where
  matched hahead hi := by
    have hruns := htext.found hahead.text_eq hahead.agree hi
    have hend := hboundary.ended (by rw [drop_add_length hahead.text_eq]; exact hahead.ended)
      (hruns.le_size hi)
    exact (hruns.andThen hend).attempt.memo label
  unmatched {i} hno hi := by
    refine Parser.Refuses.memo label (Parser.Fails.attempt ?_)
    by_cases hfound : ∃ front rest, input.toList.drop i = front ++ rest ∧
      List.Forall₂ agrees name.toList front
    · obtain ⟨front, rest, hfront, hagrees⟩ := hfound
      have hgoesOn : ∃ d, rest.head? = some d ∧ isLetter d = true := by
        by_contra hends
        push Not at hends
        exact hno ⟨front, rest, hfront, hagrees, fun d hd => by simpa using hends d hd⟩
      obtain ⟨d, hd, hletter⟩ := hgoesOn
      have hrefuses := hboundary.continued (by rwa [drop_add_length hfront]) hletter
      exact (htext.found hfront hagrees hi).bind_fails_of_le _ _ (Nat.le_add_right _ _)
        (.inl hrefuses)
    · exact (htext.differs (fun front rest hfront hagrees =>
        hfound ⟨front, rest, hfront, hagrees⟩) hi).bind _ _

/-- How reserved words and reserved operators are assembled. -/
theorem delimited_reads (hsize : input.size < Index.limit)
    (hletter : letter.Accepts input scope isLetter) (lexer : Lexer) (name : String)
    (text : Parser .text) {level : Nat} :
    Build.Yields level (lexer.delimited name text letter) fun _ p =>
      Follows input scope agrees name text → ∃ core, p = lexer.lexeme core ∧
        ReadsName input scope agrees isLetter name core := by
  refine (boundary_ends hsize hletter ("end of " ++ name)).bind fun boundary => ?_
  have hattempt : Build.Yields level (Build.attempt (text.andThen boundary)) fun _ core =>
      EndsWords input scope isLetter boundary → Follows input scope agrees name text →
        ReadsName input scope agrees isLetter name core :=
    Build.memo_meets fun label hboundary htext => htext.bounded hboundary label
  exact hattempt.bind fun core => .pure fun _ hcore hboundary htext =>
    ⟨core, rfl, hcore hboundary htext⟩

end Delimited

end Readers

section WholeRuns

variable {t : Ty} {input : Array Char} {memoize : Bool} {i j : Nat} {isStart isLetter : Char → Bool}

/-- The parser of words that are not reserved and those of reserved words agree on where the
word at a place ends. -/
structure SeesWords (input : Array Char) (memoize : Bool) (i : Nat) (isStart isLetter : Char → Bool)
    (reservedWords : List String) (kind message : String) (whiteSpace : Parser .unit)
    (word : Parser .text) (keyword : String → Parser .unit) : Prop where
  refused : wordAhead isStart isLetter (input.toList.drop i) = none →
    word.ShowsFrom input memoize i (.ok (.fail (.positioned message i), i))
  read : ∀ {w : String}, wordAhead isStart isLetter (input.toList.drop i) = some w.toList →
    w ∉ reservedWords → ReadsTo input memoize whiteSpace word i w (i + w.toList.length)
  rejected : ∀ {w : String}, wordAhead isStart isLetter (input.toList.drop i) = some w.toList →
    w ∈ reservedWords → word.ShowsFrom input memoize i
      (.ok (.fail (.unexpected (s!"reserved {kind} " ++ w) i), i))
  matched : ∀ {name : String}, IsWord isStart isLetter name →
    wordAhead isStart isLetter (input.toList.drop i) = some name.toList →
    ReadsTo input memoize whiteSpace (keyword name) i () (i + name.toList.length)
  unmatched : ∀ {name : String}, IsWord isStart isLetter name →
    wordAhead isStart isLetter (input.toList.drop i) ≠ some name.toList →
    ∃ expected, (keyword name).ShowsFrom input memoize i (.ok (.fail expected, i))

/-- They part the words between them: where white space succeeds behind the word, either the
word is read or one of the reserved words matches. -/
structure PartsWords (input : Array Char) (memoize : Bool) (i : Nat) (isStart isLetter : Char → Bool)
    (reservedWords : List String) (kind message : String) (whiteSpace : Parser .unit)
    (word : Parser .text) (keyword : String → Parser .unit) : Prop
    extends SeesWords input memoize i isStart isLetter reservedWords kind message whiteSpace word
      keyword where
  parted : ∀ {w : String} {stop : Nat},
    wordAhead isStart isLetter (input.toList.drop i) = some w.toList →
    whiteSpace.ShowsFrom input memoize (i + w.toList.length) (.ok (.success (), stop)) →
    ((∃ v stop, word.ShowsFrom input memoize i (.ok (.success v, stop))) ↔
      ¬ ∃ name ∈ reservedWords, IsWord isStart isLetter name ∧
        ∃ stop, (keyword name).ShowsFrom input memoize i (.ok (.success (), stop)))

section Parting

variable {language : Build Language} {reservedWords : List String} {kind message : String}
  {isReserved : String → Bool} {word : Parser .text} {keyword : String → Parser .unit}

/-- The word that lies ahead is a word. -/
theorem isWord_of_ahead {front : List Char} {w : String}
    (h : wordAhead isStart isLetter front = some w.toList) : IsWord isStart isLetter w := by
  obtain ⟨c, tail, -, hc, hw⟩ := wordAhead_eq_some h
  exact ⟨c, tail.takeWhile isLetter, hw, hc, fun d hd => List.mem_takeWhile_imp hd⟩

theorem SeesWords.parts {whiteSpace : Parser .unit}
    (h : SeesWords input memoize i isStart isLetter reservedWords kind message whiteSpace word
      keyword) :
    PartsWords input memoize i isStart isLetter reservedWords kind message whiteSpace word
      keyword where
  toSeesWords := h
  parted {w stop} hahead hskips := by
    constructor
    · rintro ⟨v, stop', hshows⟩ ⟨name, hmem, hname, stop'', hshows'⟩
      by_cases hsame : name = w
      · subst hsame
        simpa [Outcome.fail] using hshows.unique (h.rejected hahead hmem)
      · obtain ⟨expected, hfails⟩ := h.unmatched hname fun hother =>
          hsame (String.toList_inj.1 (Option.some.inj (hother.symm.trans hahead)))
        simpa [Outcome.fail] using hshows'.unique hfails
    · intro hnone
      have hword := isWord_of_ahead hahead
      have hfree : w ∉ reservedWords := fun hmem =>
        hnone ⟨w, hmem, hword, stop, ((h.matched hword hahead).shows_iff () stop).2 ⟨rfl, hskips⟩⟩
      exact ⟨w, stop, ((h.read hahead hfree).shows_iff w stop).2 ⟨rfl, hskips⟩⟩

section Exactly

variable {lexer : Lexer} (hi : i ≤ input.size)
  (hskips : ∀ j ≤ input.size, lexer.whiteSpace.Commits input Scope.root j)
  (hwhiteSpace : lexer.whiteSpace.WellLabelled)

include hi hskips hwhiteSpace

/-- Identifiers and operators succeed at the words that are not reserved. -/
theorem word_succeeds_iff {core : Parser .text}
    (hcore : ReadsWords input Scope.root isStart isLetter isReserved kind message core)
    (hword : (lexer.lexeme core).WellLabelled) :
    (∃ v stop, (lexer.lexeme core).ShowsFrom input memoize i (.ok (.success v, stop))) ↔
      ∃ w stop, wordAhead isStart isLetter (input.toList.drop i) = some w.toList ∧
        isReserved w = false ∧ lexer.whiteSpace.ShowsFrom input memoize (i + w.toList.length)
          (.ok (.success (), stop)) := by
  cases hahead : wordAhead isStart isLetter (input.toList.drop i) with
  | none =>
    have hruns := hcore.refused hi hahead
    exact iff_of_false (lexeme_not_succeeds (.inl ⟨_, hruns⟩) hi hword) (by simp)
  | some chars =>
    obtain ⟨w, rfl⟩ : ∃ w : String, chars = w.toList := ⟨String.ofList chars, by simp⟩
    simp only [Option.some.injEq, String.toList_inj]
    cases hreserved : isReserved w with
    | false =>
      have hruns := hcore.read hahead (by rwa [String.ofList_toList])
      rw [String.ofList_toList] at hruns
      have hreads : ReadsTo input memoize lexer.whiteSpace (lexer.lexeme core) i w
          (i + w.toList.length) := lexeme_readsTo hruns hi hskips hword hwhiteSpace
      constructor
      · rintro ⟨v, stop, hshows⟩
        exact ⟨w, stop, rfl, hreserved, ((hreads.shows_iff v stop).1 hshows).2⟩
      · rintro ⟨_, stop, rfl, -, hblank⟩
        exact ⟨w, stop, (hreads.shows_iff w stop).2 ⟨rfl, hblank⟩⟩
    | true =>
      have hruns := hcore.rejected hahead (by rwa [String.ofList_toList])
      refine iff_of_false (lexeme_not_succeeds (.inl ⟨_, hruns⟩) hi hword) ?_
      rintro ⟨_, stop, rfl, hfree, -⟩
      simp [hreserved] at hfree

/-- Reserved words and operators succeed at the texts that agree with them and do not go on. -/
theorem name_succeeds_iff {agrees : Char → Char → Prop} {name : String} {core : Parser .unit}
    (hcore : ReadsName input Scope.root agrees isLetter name core)
    (hname : (lexer.lexeme core).WellLabelled) :
    (∃ stop, (lexer.lexeme core).ShowsFrom input memoize i (.ok (.success (), stop))) ↔
      ∃ front rest stop, NameAhead agrees isLetter name (input.toList.drop i) front rest ∧
        lexer.whiteSpace.ShowsFrom input memoize (i + front.length) (.ok (.success (), stop)) := by
  by_cases hmatches : ∃ front rest, NameAhead agrees isLetter name (input.toList.drop i) front rest
  · obtain ⟨front, rest, hahead⟩ := hmatches
    have hreads : ReadsTo input memoize lexer.whiteSpace (lexer.lexeme core) i ()
        (i + front.length) :=
      lexeme_readsTo (hcore.matched hahead hi) hi hskips hname hwhiteSpace
    constructor
    · rintro ⟨stop, hshows⟩
      exact ⟨front, rest, stop, hahead, ((hreads.shows_iff () stop).1 hshows).2⟩
    · rintro ⟨front', rest', stop, hahead', hblank⟩
      have hlength : front'.length = front.length :=
        hahead'.agree.length_eq.symm.trans hahead.agree.length_eq
      rw [hlength] at hblank
      exact ⟨stop, (hreads.shows_iff () stop).2 ⟨rfl, hblank⟩⟩
  · have hrefuses := hcore.unmatched hmatches hi
    refine iff_of_false (fun ⟨stop, hshows⟩ => ?_) fun ⟨front, rest, _, hahead, _⟩ =>
      hmatches ⟨front, rest, hahead⟩
    exact lexeme_not_succeeds (.inl hrefuses) hi hname ⟨(), stop, hshows⟩

/-- A reader of words and readers of names that compare letters exactly. -/
theorem seesWords_of_reads {core : Parser .text} {key : String → Parser .unit}
    (hcore : ReadsWords input Scope.root isStart isLetter isReserved kind message core)
    (hkey : ∀ name, ReadsName input Scope.root (· = ·) isLetter name (key name))
    (hreserved : ∀ w, isReserved w = true ↔ w ∈ reservedWords)
    (hword : (lexer.lexeme core).WellLabelled)
    (hkeyword : ∀ name, (lexer.lexeme (key name)).WellLabelled) :
    SeesWords input memoize i isStart isLetter reservedWords kind message lexer.whiteSpace
      (lexer.lexeme core) fun name => lexer.lexeme (key name) where
  refused hahead := lexeme_shows_fail (hcore.refused hi hahead) hi hword
  read {w} hahead hfree := by
    have hruns := hcore.read hahead (by simpa [← hreserved] using hfree)
    rw [String.ofList_toList] at hruns
    exact lexeme_readsTo hruns hi hskips hword hwhiteSpace
  rejected {w} hahead hmem := by
    have hruns := hcore.rejected hahead (by simpa [hreserved] using hmem)
    rw [String.ofList_toList] at hruns
    exact lexeme_shows_fail hruns hi hword
  matched {name} hname hahead := by
    obtain ⟨front, rest, hexact⟩ := (wordAhead_eq_some_iff_nameAhead hname).1 hahead
    have hruns := (hkey name).matched hexact hi
    rw [← hexact.agree.length_eq] at hruns
    exact lexeme_readsTo hruns hi hskips (hkeyword name) hwhiteSpace
  unmatched {name} hname hahead := by
    obtain ⟨expected, hruns⟩ :=
      (hkey name).unmatched (mt (wordAhead_eq_some_iff_nameAhead hname).2 hahead) hi
    exact ⟨expected, lexeme_shows_fail hruns hi (hkeyword name)⟩

theorem partsWords_of_reads
    (hcore : ∃ core, word = lexer.lexeme core ∧
      ReadsWords input Scope.root isStart isLetter isReserved kind message core)
    (hkey : ∀ name, ∃ core, keyword name = lexer.lexeme core ∧
      ReadsName input Scope.root (· = ·) isLetter name core)
    (hreserved : ∀ w, isReserved w = true ↔ w ∈ reservedWords)
    (hword : word.WellLabelled) (hkeyword : ∀ name, (keyword name).WellLabelled) :
    PartsWords input memoize i isStart isLetter reservedWords kind message lexer.whiteSpace word
      keyword := by
  obtain ⟨core, rfl, hcore⟩ := hcore
  choose key hkey hnames using hkey
  obtain rfl : keyword = fun name => lexer.lexeme (key name) := funext hkey
  exact (seesWords_of_reads hi hskips hwhiteSpace hcore hnames hreserved hword hkeyword).parts

end Exactly

end Parting

section Tokens

variable (hsize : input.size < Index.limit) (lexer : Lexer) {name : String}

include hsize

/-- A language that minds case compares letters exactly. -/
theorem caseString_spells (hcase : lexer.language.caseSensitive = true) (name : String) :
    Build.Yields 0 (lexer.caseString name) fun _ p => Follows input Scope.root (· = ·) name p := by
  rw [caseString, if_pos hcase]
  exact (Build.string_spells hsize name).mono fun _ _ hspells => follows_of_spells (hspells Scope.root)

theorem reserved_reads {agrees : Char → Char → Prop}
    (htext : Build.Yields 0 (lexer.caseString name) fun _ p =>
      Follows input Scope.root agrees name p)
    (hletter : lexer.language.identLetter.Accepts input Scope.root isLetter) :
    Build.Yields 0 (lexer.reserved name) fun _ p => ∃ core, p = lexer.lexeme core ∧
      ReadsName input Scope.root agrees isLetter name core :=
  htext.bind fun text => delimited_reads hsize hletter lexer name text

theorem reservedOperator_reads (hletter : lexer.language.opLetter.Accepts input Scope.root isLetter)
    (name : String) :
    Build.Yields 0 (lexer.reservedOperator name) fun _ p => ∃ core, p = lexer.lexeme core ∧
      ReadsName input Scope.root (· = ·) isLetter name core :=
  (Build.string_spells hsize name).bind fun text =>
    (delimited_reads hsize hletter lexer name text).mono
      fun _ _ hreads hspells => hreads (follows_of_spells (hspells Scope.root))

end Tokens

/-- The words of a case-sensitive language are parted between the identifiers and the reserved
words, and in every language operators are between those that are reserved and the others. For
every list of reserved words, from every place of every input, and whether or not outcomes are
remembered: without a first character ahead both parsers fail without consuming; a word that
is not reserved is read whole, one that is reserved is reported where it begins; and a
reserved word matches exactly if it is the word that lies ahead. -/
theorem words_parted (language : Build Language)
    (hlanguage : Build.Yields 0 language fun names language =>
      language.Ready Parser.labelled names 0)
    (input : Array Char) (hsize : input.size < Index.limit) (memoize : Bool) (i : Nat)
    (hi : i ≤ input.size) (isStart isLetter : Char → Bool) :
    ((language.assemble 0).caseSensitive = true →
      (language.assemble 0).identStart.Accepts input Scope.root isStart →
      (language.assemble 0).identLetter.Accepts input Scope.root isLetter →
      PartsWords input memoize i isStart isLetter (language.assemble 0).reservedNames "word"
        "identifier" (blanks language) (token language identifier)
        fun name => token language (reserved · name)) ∧
    ((language.assemble 0).opStart.Accepts input Scope.root isStart →
      (language.assemble 0).opLetter.Accepts input Scope.root isLetter →
      PartsWords input memoize i isStart isLetter (language.assemble 0).reservedOperators "operator"
        "operator" (blanks language) (token language operator)
        fun name => token language (reservedOperator · name)) := by
  have hskips : ∀ j ≤ input.size, (lexerOf language).whiteSpace.Commits input Scope.root j :=
    fun j hj => blanks_commit language hsize hj
  have hblanks := blanks_wellLabelled hlanguage
  refine ⟨fun hcase hstart hletter => ?_, fun hstart hletter => ?_⟩
  · refine partsWords_of_reads hi hskips hblanks
      (token_lexeme _ _ (words_read hstart hletter _ (lexerOf language).isReservedName _ _))
      (fun name => token_lexeme _ _ (reserved_reads hsize (lexerOf language)
        (caseString_spells hsize (lexerOf language) hcase name) hletter))
      (fun w => ?_)
      (grammar_wellLabelled hlanguage fun _ => labelled_compositional.identifier_offered)
      fun name => grammar_wellLabelled hlanguage
        fun _ => labelled_compositional.reserved_offered name
    rw [isReservedName_iff]
    simp [fold, lexer_language, hcase]
  · exact partsWords_of_reads hi hskips hblanks
      (token_lexeme _ _ (words_read hstart hletter _ (lexerOf language).isReservedOperator _ _))
      (fun name => token_lexeme _ _ (reservedOperator_reads hsize (lexerOf language) hletter name))
      (fun w => isReservedOperator_iff)
      (grammar_wellLabelled hlanguage fun _ => labelled_compositional.operator_offered)
      fun name => grammar_wellLabelled hlanguage
        fun _ => labelled_compositional.reservedOperator_offered name

section Plain

open Build

/-- What begins an identifier of the plain language, and what it goes on with. -/
def beginsIdentifier (c : Char) : Bool :=
  Text.isLetter c || c == '_'

def continuesIdentifier (c : Char) : Bool :=
  Text.isLetterOrDigit c || "_'".toList.contains c

theorem plain_accepts (hsize : input.size < Index.limit) {level : Nat} :
    Yields level Language.plain fun _ language => ∀ scope,
      language.identStart.Accepts input scope beginsIdentifier ∧
        language.identLetter.Accepts input scope continuesIdentifier := by
  refine (classOf_accepts hsize _ _).bind fun letter => (char_accepts hsize _).bind fun underscore => ?_
  refine (classOf_accepts hsize _ _).bind fun later => (satisfy_accepts hsize _).bind fun mark => ?_
  refine (satisfy_accepts hsize _).bind fun _ => (satisfy_accepts hsize _).bind fun _ => .pure ?_
  intro _ _ _ hmark hlater hunderscore hletter scope
  exact ⟨(hletter scope).choice (hunderscore scope), (hlater scope).choice (hmark scope)⟩

/-- The plain language with reserved words. -/
def reserving (caseSensitive : Bool) (reservedNames : List String) : Build Language := do
  return { ← Language.plain with caseSensitive, reservedNames }

theorem reserving_ready (caseSensitive : Bool) (reservedNames : List String) {level : Nat} :
    Yields level (reserving caseSensitive reservedNames) fun names language =>
      language.Ready Parser.labelled names level :=
  labelled_compositional.plain_yields.bind fun _ => .pure fun _ hready =>
    ⟨hready.identStart, hready.identLetter, hready.opStart, hready.opLetter⟩

theorem reserving_accepts (hsize : input.size < Index.limit) (caseSensitive : Bool)
    (reservedNames : List String) :
    ((reserving caseSensitive reservedNames).assemble 0).identStart.Accepts input Scope.root
        beginsIdentifier ∧
      ((reserving caseSensitive reservedNames).assemble 0).identLetter.Accepts input Scope.root
        continuesIdentifier := by
  have hyields : Yields 0 (reserving caseSensitive reservedNames) fun _ language =>
      language.identStart.Accepts input Scope.root beginsIdentifier ∧
        language.identLetter.Accepts input Scope.root continuesIdentifier :=
    (plain_accepts hsize).bind fun _ => .pure fun _ haccepts => haccepts Scope.root
  obtain ⟨_, h⟩ := hyields.assembled
  exact h

end Plain

/-- A word that goes on behind a reserved one is not that one. -/
theorem words_parted_prefix :
    (token (reserving true ["let", "in", "let"]) identifier).ShowsFrom "lets".toList.toArray false 0
      (.ok (.success "lets", 4)) ∧
    ∃ expected, (token (reserving true ["let", "in", "let"]) (reserved · "let")).ShowsFrom
      "lets".toList.toArray false 0 (.ok (.fail expected, 0)) := by
  have hsize : "lets".toList.toArray.size < Index.limit := by decide
  obtain ⟨hstart, hletter⟩ := reserving_accepts hsize true ["let", "in", "let"]
  have hparts := (words_parted _ (reserving_ready true ["let", "in", "let"]) _ hsize false 0
    (Nat.zero_le _) beginsIdentifier continuesIdentifier).1 rfl hstart hletter
  have hahead : wordAhead beginsIdentifier continuesIdentifier
      ("lets".toList.toArray.toList.drop 0) = some "lets".toList := by decide +kernel
  have hname : IsWord beginsIdentifier continuesIdentifier "let" :=
    ⟨'l', ['e', 't'], rfl, by decide +kernel, List.all_eq_true.1 (by decide +kernel)⟩
  have hblanks : (blanks (reserving true ["let", "in", "let"])).ShowsFrom "lets".toList.toArray
      false 4 (.ok (.success (), 4)) := Parser.showsFrom_ok_iff.2 ⟨_, ⟨40, _, _, rfl, rfl⟩, rfl⟩
  exact ⟨((hparts.read hahead (by decide)).shows_iff _ _).2 ⟨rfl, hblanks⟩,
    hparts.unmatched hname (by rw [hahead]; decide)⟩

end WholeRuns

end Lexer

end ParserKit
