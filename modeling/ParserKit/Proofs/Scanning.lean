import ParserKit.Proofs.Leaves
import ParserKit.Proofs.Runs

/-!
What the readers of characters and literal texts do, told by the text that lies ahead, and
the repetitions of a class of characters, which go as far as the class does. A whole run
shows the same, whether it remembers or not.
-/

namespace ParserKit

variable {α : Type} {input : Array Char} {i : Nat}

/-- The next character of a text, and what lies behind it. -/
theorem drop_eq_cons_iff {c : Char} {rest : List Char} :
    input.toList.drop i = c :: rest ↔ input[i]? = some c ∧ input.toList.drop (i + 1) = rest := by
  have hhead : (input.toList.drop i)[0]? = input[i]? := by
    rw [List.getElem?_drop, Array.getElem?_toList, Nat.add_zero]
  have htail : (input.toList.drop i).tail = input.toList.drop (i + 1) := List.tail_drop
  rw [← hhead, ← htail]
  cases input.toList.drop i with
  | nil => simp
  | cons d ds => simp

theorem head?_drop : (input.toList.drop i).head? = input[i]? := by
  rw [List.head?_drop, Array.getElem?_toList]

/-- What lies behind the beginning of the text ahead. -/
theorem drop_add_length {front rest : List Char} (h : input.toList.drop i = front ++ rest) :
    input.toList.drop (i + front.length) = rest := by
  rw [← List.drop_drop, h, List.drop_left]

theorem drop_add_takeWhile (accepts : Char → Bool) :
    input.toList.drop (i + ((input.toList.drop i).takeWhile accepts).length) =
      (input.toList.drop i).dropWhile accepts :=
  drop_add_length List.takeWhile_append_dropWhile.symm

theorem add_length_le {front rest : List Char} (h : input.toList.drop i = front ++ rest)
    (hi : i ≤ input.size) : i + front.length ≤ input.size := by
  have hlength := congrArg List.length h
  simp only [List.length_drop, Array.length_toList, List.length_append] at hlength
  omega

theorem size_sub_length {rest : List Char} (h : input.toList.drop i = rest) (hi : i ≤ input.size) :
    i = input.size - rest.length := by
  rw [← h, List.length_drop, Array.length_toList]
  omega

namespace Parser

variable {a b t : Ty} {scope : Scope} {j : Nat}

/-- The parser fails, and all that it asks for or has found belongs to the place where it began. -/
def FailsHere (input : Array Char) (scope : Scope) (p : Parser t) (i : Nat) : Prop :=
  ∃ cause j, p.Runs input scope i (.failure cause) j ∧
    ∀ leaf ∈ cause.expected.leaves, leaf.ownOffset = some i

/-- The parser refuses, and all that it asks for or has found belongs to the place. -/
def RefusesHere (input : Array Char) (scope : Scope) (p : Parser t) (i : Nat) : Prop :=
  ∃ expected, p.Runs input scope i (.fail expected) i ∧
    ∀ leaf ∈ expected.leaves, leaf.ownOffset = some i

section Here

variable {p : Parser a}

theorem FailsHere.memo (label : Label) (h : p.FailsHere input scope i) :
    (Parser.memo label p).FailsHere input scope i := by
  obtain ⟨cause, j, hruns, hleaves⟩ := h
  exact ⟨cause, j, hruns.memo label, hleaves⟩

theorem FailsHere.attempt (h : p.FailsHere input scope i) :
    (Parser.wrap .attempt p).RefusesHere input scope i := by
  obtain ⟨cause, j, hruns, hleaves⟩ := h
  exact ⟨cause.expected, hruns.attempt_failure, hleaves⟩

theorem RefusesHere.refuses (h : p.RefusesHere input scope i) : p.Refuses input scope i :=
  h.imp fun _ h => h.1

theorem RefusesHere.memo (label : Label) (h : p.RefusesHere input scope i) :
    (Parser.memo label p).RefusesHere input scope i := by
  obtain ⟨expected, hruns, hleaves⟩ := h
  exact ⟨expected, hruns.memo label, hleaves⟩

theorem RefusesHere.bind (captures : List Label) (next : a.Elem → Parser b)
    (h : p.RefusesHere input scope i) : (Parser.bind p captures next).RefusesHere input scope i := by
  obtain ⟨expected, hruns, hleaves⟩ := h
  exact ⟨expected, hruns.bind_failure captures next, hleaves⟩

end Here

/-- The parser reads exactly one character of a class, or fails without consuming. -/
structure Accepts (input : Array Char) (scope : Scope) (p : Parser .char) (accepts : Char → Bool) :
    Prop where
  accepted : ∀ {i c}, input[i]? = some c → accepts c = true →
    p.Runs input scope i (.success c) (i + 1)
  rejected : ∀ {i}, i ≤ input.size → (∀ c, input[i]? = some c → accepts c = false) →
    p.Refuses input scope i

section Readers

variable (hsize : input.size < Index.limit)

include hsize

theorem satisfy_refusesHere {accepts : Char → Bool} (hi : i ≤ input.size)
    (hchar : ∀ c, input[i]? = some c → accepts c = false) :
    (Parser.atom (.satisfy accepts)).RefusesHere input scope i := by
  obtain ⟨found, hread⟩ :=
    Atom.readSatisfy_rejected (c := { input, position := i }) hsize hi hchar
  refine ⟨.unexpected found i, .atom (by simp only [Atom.read, hread]; rfl) id, ?_⟩
  simp [Expectation.ownOffset]

theorem satisfy_accepts (accepts : Char → Bool) :
    (Parser.atom (.satisfy accepts)).Accepts input scope accepts where
  accepted {i c} hchar hc := by
    obtain ⟨hlt, -⟩ := Array.getElem?_eq_some_iff.1 hchar
    have hread := Atom.readSatisfy_accepted (c := { input, position := i }) hsize hchar hc
    exact .atom (by simp only [Atom.read, hread]; rfl) fun _ => hlt
  rejected hi hchar := (satisfy_refusesHere hsize hi hchar).refuses

theorem char_accepts (x : Char) : (Parser.atom (.char x)).Accepts input scope (· == x) where
  accepted {i c} hchar hc := by
    obtain rfl : c = x := by simpa using hc
    obtain ⟨hlt, -⟩ := Array.getElem?_eq_some_iff.1 hchar
    have hread := Atom.readChar_accepted (c := { input, position := i }) hsize hchar
    exact .atom (by simp only [Atom.read, hread]; rfl) fun _ => hlt
  rejected {i} hi hchar := by
    have hother : input[i]? ≠ some x := fun h => by simpa using hchar x h
    have hread := Atom.readChar_rejected (c := { input, position := i }) hsize hi hother
    exact ⟨_, .atom (by simp only [Atom.read, hread]; rfl) id⟩

theorem runs_string {chars : String} (hbegins : chars.toList <+: input.toList.drop i)
    (hi : i ≤ input.size) : (Parser.atom (.string chars)).Runs input scope i (.success chars)
      (i + chars.toList.length) := by
  obtain ⟨rest, hrest⟩ := hbegins
  rcases Atom.readString_eq (c := { input, position := i }) chars hsize hi with
    ⟨-, hread⟩ | ⟨hdiffers, -⟩
  · exact .atom (by simp only [Atom.read, hread]; rfl) fun _ => add_length_le hrest.symm hi
  · exact absurd ⟨rest, hrest⟩ hdiffers

theorem string_differs {chars : String} (hdiffers : ¬ chars.toList <+: input.toList.drop i)
    (hi : i ≤ input.size) : ∃ consumed j, (consumed = false → j = i) ∧
      (Parser.atom (.string chars)).Runs input scope i
        (.failure ⟨.positioned chars i, consumed⟩) j := by
  rcases Atom.readString_eq (c := { input, position := i }) chars hsize hi with
    ⟨hbegins, -⟩ | ⟨-, consumed, stop, hread⟩
  · exact absurd hbegins hdiffers
  · have hhonest : Honest True input.size i stop _ := Atom.readString_honest hi hread
    obtain ⟨hstop, hstill, -, -⟩ := hhonest
    exact ⟨consumed, stop, fun hconsumed => hstill (by simpa using hconsumed),
      .atom (by simp only [Atom.read, hread]; rfl) fun _ => hstop⟩

theorem fails_string {chars : String} (hdiffers : ¬ chars.toList <+: input.toList.drop i)
    (hi : i ≤ input.size) : (Parser.atom (.string chars)).Fails input scope i := by
  obtain ⟨consumed, j, hstill, hruns⟩ := string_differs hsize hdiffers hi
  exact hruns.fails hstill

theorem string_failsHere {chars : String} (hdiffers : ¬ chars.toList <+: input.toList.drop i)
    (hi : i ≤ input.size) : (Parser.atom (.string chars)).FailsHere input scope i := by
  obtain ⟨consumed, j, -, hruns⟩ := string_differs hsize hdiffers hi
  refine ⟨⟨.positioned chars i, consumed⟩, j, hruns, ?_⟩
  simp [Expectation.ownOffset]

end Readers

namespace Accepts

variable {p : Parser .char} {accepts : Char → Bool} {front rest : List Char} {c : Char}

theorem memo (hp : p.Accepts input scope accepts) (label : Label) :
    (Parser.memo label p).Accepts input scope accepts where
  accepted hchar hc := (hp.accepted hchar hc).memo label
  rejected hi hchar := (hp.rejected hi hchar).memo label

theorem label (hp : p.Accepts input scope accepts) (message : String) :
    (Parser.wrap (.label message) p).Accepts input scope accepts where
  accepted hchar hc := (hp.accepted hchar hc).label message
  rejected hi hchar := (hp.rejected hi hchar).label message

theorem choice {q : Parser .char} {accepts' : Char → Bool} (hp : p.Accepts input scope accepts)
    (hq : q.Accepts input scope accepts') :
    (Parser.choice p q).Accepts input scope fun c => accepts c || accepts' c where
  accepted {i c} hchar hc := by
    obtain ⟨hlt, -⟩ := Array.getElem?_eq_some_iff.1 hchar
    by_cases hfirst : accepts c = true
    · exact (hp.accepted hchar hfirst).choice_success
    · refine (hp.rejected (Nat.le_of_lt hlt) fun d hd => ?_).choice_success
        (hq.accepted hchar (by simpa [hfirst] using hc))
      obtain rfl : c = d := Option.some.inj (hchar.symm.trans hd)
      simpa using hfirst
  rejected hi hchar := by
    have hneither := fun c hc => Bool.or_eq_false_iff.1 (hchar c hc)
    exact (hp.rejected hi fun c hc => (hneither c hc).1).choice
      (hq.rejected hi fun c hc => (hneither c hc).2)

theorem runs (hp : p.Accepts input scope accepts) (h : input.toList.drop i = c :: rest)
    (hc : accepts c = true) : p.Runs input scope i (.success c) (i + 1) :=
  hp.accepted (drop_eq_cons_iff.1 h).1 hc

theorem refuses (hp : p.Accepts input scope accepts) (hi : i ≤ input.size)
    (h : ∀ c, (input.toList.drop i).head? = some c → accepts c = false) :
    p.Refuses input scope i :=
  hp.rejected hi fun c hc => h c (head?_drop.trans hc)

theorem refuses_cons (hp : p.Accepts input scope accepts) (hi : i ≤ input.size)
    (h : input.toList.drop i = c :: rest) (hc : accepts c = false) : p.Refuses input scope i := by
  refine hp.refuses hi fun d hd => ?_
  rw [h, List.head?_cons] at hd
  obtain rfl := Option.some.inj hd
  exact hc

theorem refuses_nil (hp : p.Accepts input scope accepts) (hi : i ≤ input.size)
    (h : input.toList.drop i = []) : p.Refuses input scope i :=
  hp.refuses hi fun d hd => by simp [h] at hd

theorem refuses_or_runs (hp : p.Accepts input scope accepts) (hi : i ≤ input.size) :
    p.Refuses input scope i ∨ ∃ c, p.Runs input scope i (.success c) (i + 1) := by
  by_cases hchar : ∃ c, input[i]? = some c ∧ accepts c = true
  · obtain ⟨c, hchar, hc⟩ := hchar
    exact .inr ⟨c, hp.accepted hchar hc⟩
  · push Not at hchar
    exact .inl (hp.rejected hi fun c hc => by simpa using hchar c hc)

/-- A repetition goes on as long as the characters belong to the class. -/
theorem loops (hp : p.Accepts input scope accepts) (h : input.toList.drop i = front ++ rest)
    (hi : i ≤ input.size) (hfront : ∀ c ∈ front, accepts c = true)
    (hrest : ∀ c, rest.head? = some c → accepts c = false) (values : List Char) :
    p.Loops input scope values i (.success (values.reverse ++ front)) (i + front.length) := by
  induction front generalizing i values with
  | nil =>
    rw [List.append_nil]
    exact .stop (hp.refuses hi (by rwa [h, List.nil_append]))
  | cons c front ih =>
    obtain ⟨hc, hfront⟩ := List.forall_mem_cons.1 hfront
    obtain ⟨hchar, htail⟩ := drop_eq_cons_iff.1 (h.trans (List.cons_append ..))
    have hruns := hp.accepted hchar hc
    have hlater := ih htail (hruns.le_size hi) hfront (c :: values)
    have hstop : i + (c :: front).length = i + 1 + front.length := by
      rw [List.length_cons]
      omega
    rw [List.reverse_cons, List.append_assoc, List.singleton_append] at hlater
    rw [hstop]
    exact hlater.again hruns (Nat.lt_succ_self i)

theorem many (hp : p.Accepts input scope accepts) (h : input.toList.drop i = front ++ rest)
    (hi : i ≤ input.size) (hfront : ∀ c ∈ front, accepts c = true)
    (hrest : ∀ c, rest.head? = some c → accepts c = false) :
    (Parser.many p).Runs input scope i (.success front) (i + front.length) :=
  (hp.loops h hi hfront hrest []).many

theorem many1 (hp : p.Accepts input scope accepts) (h : input.toList.drop i = front ++ rest)
    (hi : i ≤ input.size) (hne : front ≠ []) (hfront : ∀ c ∈ front, accepts c = true)
    (hrest : ∀ c, rest.head? = some c → accepts c = false) :
    (Parser.many1 p).Runs input scope i (.success front) (i + front.length) := by
  obtain ⟨c, front, rfl⟩ := List.exists_cons_of_ne_nil hne
  obtain ⟨hc, hfront⟩ := List.forall_mem_cons.1 hfront
  obtain ⟨hchar, htail⟩ := drop_eq_cons_iff.1 (h.trans (List.cons_append ..))
  have hruns := hp.accepted hchar hc
  have hlater := hp.loops htail (hruns.le_size hi) hfront hrest [c]
  have hstop : i + (c :: front).length = i + 1 + front.length := by
    rw [List.length_cons]
    omega
  rw [hstop]
  exact Loops.many1 hruns (Nat.lt_succ_self i) hlater

/-- As far as the class goes. -/
theorem many_while (hp : p.Accepts input scope accepts) (hi : i ≤ input.size) :
    (Parser.many p).Runs input scope i (.success ((input.toList.drop i).takeWhile accepts))
      (i + ((input.toList.drop i).takeWhile accepts).length) := by
  refine hp.many List.takeWhile_append_dropWhile.symm hi (fun c hc => List.mem_takeWhile_imp hc)
    fun c hc => ?_
  have hhead := List.head?_dropWhile_not accepts (input.toList.drop i)
  rw [hc] at hhead
  exact hhead

end Accepts

/-- The parser skips the characters of a class as far as they go, but not none of them. -/
structure Skips (input : Array Char) (scope : Scope) (p : Parser .unit) (accepts : Char → Bool) :
    Prop where
  skipped : ∀ {i c}, input[i]? = some c → accepts c = true →
    ∃ j, i < j ∧ input.toList.drop j = (input.toList.drop i).dropWhile accepts ∧
      p.Runs input scope i (.success ()) j
  rejected : ∀ {i}, i ≤ input.size → (∀ c, input[i]? = some c → accepts c = false) →
    p.Refuses input scope i

theorem Skips.memo {p : Parser .unit} {accepts : Char → Bool} (hp : p.Skips input scope accepts)
    (label : Label) : (Parser.memo label p).Skips input scope accepts where
  skipped hchar hc := by
    obtain ⟨j, hij, hrest, hruns⟩ := hp.skipped hchar hc
    exact ⟨j, hij, hrest, hruns.memo label⟩
  rejected hi hchar := (hp.rejected hi hchar).memo label

/-- A character and then all that follow it. -/
theorem Accepts.skips {p : Parser .char} {accepts : Char → Bool}
    (hp : p.Accepts input scope accepts) (label : Label) :
    (p.andThen (.memo label ((Parser.many p).map (b := .unit) fun _ => ()))).Skips input scope
      accepts where
  skipped {i c} hchar hc := by
    have hfirst := hp.accepted hchar hc
    obtain ⟨hlt, -⟩ := Array.getElem?_eq_some_iff.1 hchar
    have hmany := (hp.many_while hlt).map (b := .unit) fun _ => ()
    refine ⟨_, by omega, ?_, hfirst.andThen (hmany.memo label)⟩
    rw [drop_add_takeWhile, drop_eq_cons_iff.2 ⟨hchar, rfl⟩, List.dropWhile_cons_of_pos hc]
  rejected hi hchar := (hp.rejected hi hchar).bind _ _

/-- The parser reads a literal text, or fails. -/
structure Spells (input : Array Char) (scope : Scope) (p : Parser .text) (chars : String) :
    Prop where
  found : ∀ {i}, chars.toList <+: input.toList.drop i → i ≤ input.size →
    p.Runs input scope i (.success chars) (i + chars.toList.length)
  differs : ∀ {i}, ¬ chars.toList <+: input.toList.drop i → i ≤ input.size →
    p.Fails input scope i

/-- The parser reads a given text and delivers a given value, or fails without consuming. -/
structure Takes (input : Array Char) (scope : Scope) (p : Parser t) (key : List Char) (v : t.Elem) :
    Prop where
  found : ∀ {i}, key <+: input.toList.drop i → i ≤ input.size →
    p.Runs input scope i (.success v) (i + key.length)
  differs : ∀ {i}, ¬ key <+: input.toList.drop i → i ≤ input.size → p.Refuses input scope i

theorem Accepts.takes {p : Parser .char} {x : Char} (hp : p.Accepts input scope (· == x)) :
    p.Takes input scope [x] x where
  found {i} hbegins hi := by
    obtain ⟨rest, hrest⟩ := hbegins
    exact hp.runs hrest.symm (by simp)
  differs {i} hdiffers hi := by
    refine hp.rejected hi fun c hc => ?_
    by_contra hsame
    obtain rfl : c = x := by simpa using hsame
    exact hdiffers ⟨_, (drop_eq_cons_iff.2 ⟨hc, rfl⟩).symm⟩

theorem Spells.attempt {p : Parser .text} {chars : String} (hp : p.Spells input scope chars) :
    (Parser.wrap .attempt p).Takes input scope chars.toList chars where
  found hbegins hi := (hp.found hbegins hi).attempt
  differs hdiffers hi := (hp.differs hdiffers hi).attempt

theorem Spells.attempt_map {p : Parser .text} {chars : String}
    (hp : p.Spells input scope chars) (f : String → b.Elem) :
    (Parser.wrap .attempt (p.map f)).Takes input scope chars.toList (f chars) where
  found hbegins hi := ((hp.found hbegins hi).map f).attempt
  differs hdiffers hi := ((hp.differs hdiffers hi).map (a := .text) f).attempt

namespace Takes

variable {p : Parser t} {key : List Char} {v : t.Elem}

theorem settles (hp : p.Takes input scope key v) (hi : i ≤ input.size) :
    p.Settles input scope i := by
  by_cases hbegins : key <+: input.toList.drop i
  · exact .inr ⟨v, _, Nat.le_add_right _ _, hp.found hbegins hi⟩
  · exact .inl (.inl (hp.differs hbegins hi))

theorem proceeds (hp : p.Takes input scope key v) (hkey : key ≠ []) (hi : i ≤ input.size) :
    p.Proceeds input scope i := by
  have hlength := List.length_pos_of_ne_nil hkey
  by_cases hbegins : key <+: input.toList.drop i
  · exact .inr ⟨v, _, Nat.lt_add_of_pos_right hlength, hp.found hbegins hi⟩
  · exact .inl (.inl (hp.differs hbegins hi))

theorem memo (hp : p.Takes input scope key v) (label : Label) :
    (Parser.memo label p).Takes input scope key v where
  found hbegins hi := (hp.found hbegins hi).memo label
  differs hdiffers hi := (hp.differs hdiffers hi).memo label

theorem label (hp : p.Takes input scope key v) (message : String) :
    (Parser.wrap (.label message) p).Takes input scope key v where
  found hbegins hi := (hp.found hbegins hi).label message
  differs hdiffers hi := (hp.differs hdiffers hi).label message

theorem map {p : Parser a} {v : a.Elem} (hp : p.Takes input scope key v) (f : a.Elem → b.Elem) :
    (p.map f).Takes input scope key (f v) where
  found hbegins hi := (hp.found hbegins hi).map f
  differs hdiffers hi := (hp.differs hdiffers hi).map f

end Takes

end Parser

namespace Build

variable {t : Ty} {level : Nat}

/-- A whole assembly yields what its steps do. -/
theorem Yields.assembled {β : Type} {build : Build β} {post : Names → β → Prop}
    (h : Yields level build post) : ∃ names, post names (build.assemble level) := by
  obtain ⟨value, last, own, hrun, -, -, hpost⟩ := h 0
  refine ⟨own, ?_⟩
  simp only [assemble, hrun]
  exact hpost own fun _ _ hown => hown

/-- A step behind an assembly takes the value that the assembly has. -/
theorem Yields.assembled_bind {β γ : Type} {build : Build β} {f : β → Build γ}
    {post : Names → γ → Prop} (h : Yields level (f (build.assemble level)) post) :
    ∃ names, post names ((build >>= f).assemble level) := by
  obtain ⟨value, last, own, hrun, -, -, hpost⟩ := h ((build.run level).run 0).2
  refine ⟨own, ?_⟩
  have hassemble : (build >>= f).assemble level = value := congrArg Prod.fst hrun
  rw [hassemble]
  exact hpost own fun _ _ hown => hown

/-- What holds of a parser under each identity holds of the one that is built. -/
theorem memo_meets {p : Parser t} {post : Parser t → Prop} (h : ∀ label, post (.memo label p)) :
    Yields level (memo p) fun _ q => post q := by
  intro first
  exact ⟨.memo ⟨level, first⟩ p, first + 1, fun _ => none, rfl, Nat.le_succ first,
    Names.within_empty, fun _ _ => h _⟩

section

variable (hsize : input.size < Index.limit)

include hsize

theorem satisfy_accepts (accepts : Char → Bool) :
    Yields level (satisfy accepts) fun _ p => ∀ scope, p.Accepts input scope accepts :=
  memo_meets fun label _ => (Parser.satisfy_accepts hsize accepts).memo label

theorem char_accepts (x : Char) :
    Yields level (char x) fun _ p => ∀ scope, p.Accepts input scope (· == x) :=
  memo_meets fun label _ => (Parser.char_accepts hsize x).memo label

theorem string_spells (chars : String) :
    Yields level (string chars) fun _ p => ∀ scope, p.Spells input scope chars :=
  memo_meets fun label _ =>
    { found := fun hbegins hi => (Parser.runs_string hsize hbegins hi).memo label
      differs := fun hdiffers hi => (Parser.fails_string hsize hdiffers hi).memo label }

end

theorem satisfy_refusesHere (hsize : input.size < Index.limit) (accepts : Char → Bool) :
    Yields level (satisfy accepts) fun _ p => ∀ scope i, i ≤ input.size →
      (∀ c, input[i]? = some c → accepts c = false) → p.RefusesHere input scope i :=
  memo_meets fun label _ _ hi hchar => (Parser.satisfy_refusesHere hsize hi hchar).memo label

theorem string_failsHere (hsize : input.size < Index.limit) (chars : String) :
    Yields level (string chars) fun _ p => ∀ scope i, i ≤ input.size →
      ¬ chars.toList <+: input.toList.drop i → p.FailsHere input scope i :=
  memo_meets fun label _ _ hi hdiffers => (Parser.string_failsHere hsize hdiffers hi).memo label

theorem attempt_refusesHere (p : Parser t) :
    Yields level (attempt p) fun _ q => ∀ ⦃input scope i⦄,
      p.FailsHere input scope i → q.RefusesHere input scope i :=
  memo_meets fun label _ _ _ hp => hp.attempt.memo label

theorem label_refuses (p : Parser t) (message : String) :
    Yields level (label p message) fun _ q => ∀ ⦃input scope i⦄,
      p.Refuses input scope i → q.Runs input scope i (.fail (.positioned message i)) i := by
  refine memo_meets fun label input scope i hp => ?_
  obtain ⟨expected, hruns⟩ := hp
  exact (hruns.label_failure message).memo label

theorem label_accepts (p : Parser .char) (message : String) :
    Yields level (label p message) fun _ q => ∀ ⦃input scope accepts⦄,
      p.Accepts input scope accepts → q.Accepts input scope accepts :=
  memo_meets fun label _ _ _ hp => (hp.label message).memo label

theorem classOf_accepts (hsize : input.size < Index.limit) (accepts : Char → Bool) (name : String) :
    Yields level (classOf accepts name) fun _ p => ∀ scope, p.Accepts input scope accepts :=
  (satisfy_accepts hsize accepts).bind fun p => (label_accepts p name).mono
    fun _ _ hlabel hp scope => hlabel (hp scope)

theorem attempt_takes (p : Parser .text) :
    Yields level (attempt p) fun _ q => ∀ ⦃input scope chars⦄,
      p.Spells input scope chars → q.Takes input scope chars.toList chars :=
  memo_meets fun label _ _ _ hp => hp.attempt.memo label

theorem label_takes (p : Parser t) (message : String) :
    Yields level (label p message) fun _ q => ∀ ⦃input scope key v⦄,
      p.Takes input scope key v → q.Takes input scope key v :=
  memo_meets fun label _ _ _ _ hp => (hp.label message).memo label

theorem skipMany_made (p : Parser t) :
    Yields level (skipMany p) fun _ q =>
      ∃ label, q = .memo label ((Parser.many p).map (b := .unit) fun _ => ()) :=
  memo_meets fun label => ⟨label, rfl⟩

theorem skipMany1_skips (p : Parser .char) :
    Yields level (skipMany1 p) fun _ q => ∀ ⦃input scope accepts⦄,
      p.Accepts input scope accepts → q.Skips input scope accepts := by
  refine (skipMany_made p).bind fun rest => memo_meets fun label => ?_
  rintro ⟨later, rfl⟩ input scope accepts hp
  exact (hp.skips later).memo label

theorem skipMany1_refusesHere (p : Parser t) :
    Yields level (skipMany1 p) fun _ q => ∀ ⦃input scope i⦄,
      p.RefusesHere input scope i → q.RefusesHere input scope i :=
  (skipMany_made p).bind fun rest => memo_meets fun label _ _ _ _ hp =>
    (hp.bind rest.owned fun _ => rest).memo label

end Build

end ParserKit
