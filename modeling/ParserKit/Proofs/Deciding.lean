import ParserKit.Proofs.Scanning

/-!
Parsers that decide what they read by its first character. The texts of such a parser are
given with their values and with the character that comes next, on which an end may
depend. It reads every one of its texts, and where none of them lies ahead it fails;
without consuming, if not even the first character fits. Combinators keep this, a choice
as long as its alternatives begin with different characters.
-/

namespace ParserKit.Parser

variable {a b c t : Ty} {input : Array Char} {scope : Scope} {i j : Nat}
  {text front rest : List Char} {next : Option Char}

/-- Texts, their values and the characters that may come next. -/
abbrev Texts (α : Type) := List Char → α → Option Char → Prop

/-- The parser reads the given texts, and what it reads begins with the given characters. -/
structure Decides (input : Array Char) (scope : Scope) (p : Parser t) (begins : Char → Bool)
    (texts : Texts t.Elem) : Prop where
  begun : ∀ {text v next}, texts text v next → ∃ c tail, text = c :: tail ∧ begins c = true
  found : ∀ {i text v rest}, input.toList.drop i = text ++ rest → i ≤ input.size →
    texts text v rest.head? → p.Runs input scope i (.success v) (i + text.length)
  decided : ∀ {i}, i ≤ input.size →
    (∃ text v rest, input.toList.drop i = text ++ rest ∧ texts text v rest.head?) ∨
      p.Fails input scope i
  refuses : ∀ {i}, i ≤ input.size →
    (∀ c, (input.toList.drop i).head? = some c → begins c = false) → p.Refuses input scope i

namespace Decides

variable {p : Parser a} {q : Parser b} {begins begins' : Char → Bool} {texts : Texts a.Elem}
  {texts' : Texts b.Elem}

theorem length_pos (hp : p.Decides input scope begins texts) {v : a.Elem}
    (h : texts text v next) : 0 < text.length := by
  obtain ⟨c, tail, rfl, -⟩ := hp.begun h
  exact Nat.succ_pos _

/-- A text that lies ahead is read, and then the parser has moved. -/
theorem runs_or_fails (hp : p.Decides input scope begins texts) (hi : i ≤ input.size) :
    (∃ text v rest, input.toList.drop i = text ++ rest ∧ texts text v rest.head? ∧
      0 < text.length ∧ p.Runs input scope i (.success v) (i + text.length)) ∨
      p.Fails input scope i := by
  rcases hp.decided hi with ⟨text, v, rest, htext, h⟩ | hfails
  · exact .inl ⟨text, v, rest, htext, h, hp.length_pos h, hp.found htext hi h⟩
  · exact .inr hfails

/-- At most one of the texts lies ahead, with one value. -/
theorem unique (hp : p.Decides input scope begins texts) {text' rest' : List Char} {v v' : a.Elem}
    (htext : input.toList.drop i = text ++ rest) (htext' : input.toList.drop i = text' ++ rest')
    (hi : i ≤ input.size) (h : texts text v rest.head?) (h' : texts text' v' rest'.head?) :
    text = text' ∧ v = v' := by
  obtain ⟨hv, hend⟩ := (hp.found htext hi h).unique (hp.found htext' hi h') hi
  have hlength : text.length = text'.length := by omega
  exact ⟨List.append_inj_left (htext.symm.trans htext') hlength, Outcome.success.inj hv⟩

theorem congr (hp : p.Decides input scope begins texts) {other : Texts a.Elem}
    (h : ∀ text v next, other text v next ↔ texts text v next) :
    p.Decides input scope begins other where
  begun hother := hp.begun ((h _ _ _).1 hother)
  found htext hi hother := hp.found htext hi ((h _ _ _).1 hother)
  decided hi := (hp.decided hi).imp_left fun ⟨text, v, rest, htext, hread⟩ =>
    ⟨text, v, rest, htext, (h _ _ _).2 hread⟩
  refuses := hp.refuses

theorem memo (hp : p.Decides input scope begins texts) (label : Label) :
    (Parser.memo label p).Decides input scope begins texts where
  begun := hp.begun
  found htext hi h := (hp.found htext hi h).memo label
  decided hi := (hp.decided hi).imp_right (.memo label)
  refuses hi hhead := (hp.refuses hi hhead).memo label

theorem label (hp : p.Decides input scope begins texts) (message : String) :
    (Parser.wrap (.label message) p).Decides input scope begins texts where
  begun := hp.begun
  found htext hi h := (hp.found htext hi h).label message
  decided hi := (hp.decided hi).imp_right (.label message)
  refuses hi hhead := (hp.refuses hi hhead).label message

theorem convert (hp : p.Decides input scope begins texts) {f : a.Elem → Except Fault b.Elem}
    {g : a.Elem → b.Elem} (hf : ∀ text v next, texts text v next → f v = .ok (g v)) :
    (Parser.wrap (.convert f) p).Decides input scope begins
      fun text w next => ∃ v, texts text v next ∧ w = g v where
  begun := fun ⟨_, h, _⟩ => hp.begun h
  found := by
    rintro i text w rest htext hi ⟨v, h, rfl⟩
    exact (hp.found htext hi h).convert (hf _ _ _ h)
  decided hi := by
    refine (hp.decided hi).imp ?_ (Or.imp ?_ ?_)
    · rintro ⟨text, v, rest, htext, h⟩
      exact ⟨text, g v, rest, htext, v, h, rfl⟩
    · exact Exists.imp fun _ h => h.convert_failure f
    · rintro ⟨expected, j, h⟩
      exact ⟨expected, j, h.convert_failure f⟩
  refuses hi hhead := (hp.refuses hi hhead).imp fun _ h => h.convert_failure f

theorem map (hp : p.Decides input scope begins texts) (f : a.Elem → b.Elem) :
    (p.map f).Decides input scope begins fun text w next => ∃ v, texts text v next ∧ w = f v :=
  hp.convert fun _ _ _ _ => rfl

/-- Two alternatives that begin with different characters. -/
theorem choice {q : Parser a} {texts' : Texts a.Elem} (hp : p.Decides input scope begins texts)
    (hq : q.Decides input scope begins' texts')
    (hapart : ∀ c, begins c = true → begins' c = false) :
    (Parser.choice p q).Decides input scope (fun c => begins c || begins' c)
      fun text v next => texts text v next ∨ texts' text v next where
  begun := by
    rintro text v next (h | h)
    · obtain ⟨c, tail, htext, hc⟩ := hp.begun h
      exact ⟨c, tail, htext, by simp [hc]⟩
    · obtain ⟨c, tail, htext, hc⟩ := hq.begun h
      exact ⟨c, tail, htext, by simp [hc]⟩
  found := by
    rintro i text v rest htext hi (h | h)
    · exact (hp.found htext hi h).choice_success
    · obtain ⟨c, tail, rfl, hc⟩ := hq.begun h
      refine (hp.refuses hi fun d hd => ?_).choice_success (hq.found htext hi h)
      rw [htext, List.cons_append, List.head?_cons] at hd
      obtain rfl := Option.some.inj hd
      by_contra hother
      simp [hapart c (by simpa using hother)] at hc
  decided {i} hi := by
    rcases hp.decided hi with ⟨text, v, rest, htext, h⟩ | hpfails
    · exact .inl ⟨text, v, rest, htext, .inl h⟩
    rcases hq.decided hi with ⟨text, v, rest, htext, h⟩ | hqfails
    · exact .inl ⟨text, v, rest, htext, .inr h⟩
    right
    rcases hpfails with hprefuses | hpbreaks
    · exact hqfails.imp hprefuses.choice hprefuses.choice_breaks
    · exact .inr hpbreaks.choice
  refuses hi hhead := by
    have hneither := fun c hc => Bool.or_eq_false_iff.1 (hhead c hc)
    exact (hp.refuses hi fun c hc => (hneither c hc).1).choice
      (hq.refuses hi fun c hc => (hneither c hc).2)

/-- A text of the first parser and then one of the second. -/
theorem bind {later : a.Elem → Parser b} {texts' : a.Elem → Texts b.Elem} (captures : List Label)
    (hp : p.Decides input scope begins texts)
    (hlater : ∀ v, (later v).Decides input scope begins' (texts' v)) :
    (Parser.bind p captures later).Decides input scope begins
      fun text w next => ∃ front v back, text = front ++ back ∧
        texts front v (back.head?.or next) ∧ texts' v back w next where
  begun := by
    rintro text w next ⟨front, v, back, rfl, hfront, -⟩
    obtain ⟨c, tail, rfl, hc⟩ := hp.begun hfront
    exact ⟨c, tail ++ back, rfl, hc⟩
  found := by
    rintro i text w rest htext hi ⟨front, v, back, rfl, hfront, hback⟩
    rw [List.append_assoc] at htext
    have hfirst := hp.found htext hi (by rwa [List.head?_append])
    have hsecond := (hlater v).found (drop_add_length htext) (hfirst.le_size hi) hback
    rw [List.length_append, ← Nat.add_assoc]
    exact hfirst.bind captures later hsecond
  decided {i} hi := by
    rcases hp.runs_or_fails hi with ⟨front, v, rest, htext, hfront, hpos, hfirst⟩ | hfails
    · have hrest := drop_add_length htext
      rcases (hlater v).decided (hfirst.le_size hi) with ⟨back, w, after, hafter, hback⟩ | hfails
      · obtain rfl : rest = back ++ after := hrest.symm.trans hafter
        rw [List.head?_append] at hfront
        exact .inl ⟨front ++ back, w, after, by rw [htext, List.append_assoc],
          front, v, back, rfl, hfront, hback⟩
      · exact .inr (.inr (hfirst.bind_fails captures later (by omega) hfails))
    · exact .inr (hfails.bind captures later)
  refuses hi hhead := (hp.refuses hi hhead).bind captures later

theorem andThen (hp : p.Decides input scope begins texts)
    (hq : q.Decides input scope begins' texts') : (p.andThen q).Decides input scope begins
      fun text w next => ∃ front v back, text = front ++ back ∧
        texts front v (back.head?.or next) ∧ texts' back w next :=
  hp.bind q.owned fun _ => hq

theorem lift2 (hp : p.Decides input scope begins texts) (hq : q.Decides input scope begins' texts')
    (f : a.Elem → b.Elem → c.Elem) : (p.lift2 q f).Decides input scope begins
      fun text w next => ∃ front v back, text = front ++ back ∧
        texts front v (back.head?.or next) ∧ ∃ u, texts' back u next ∧ w = f v u :=
  hp.bind q.owned fun v => hq.map (f v)

/-- A value that is refused counts as consumed, because its text was read. -/
theorem followedBy (hp : p.Decides input scope begins texts) {f : a.Elem → Option b.Elem}
    {later : a.Elem → Parser b} (hsome : ∀ v w, f v = some w → later v = .ret w)
    (hnone : ∀ v, f v = none → ∃ message, later v = .fail message) :
    (p.followedBy later).Decides input scope begins
      fun text w next => ∃ v, texts text v next ∧ f v = some w where
  begun := fun ⟨_, h, _⟩ => hp.begun h
  found := by
    rintro i text w rest htext hi ⟨v, h, hv⟩
    have hlater : (later v).Runs input scope (i + text.length) (.success w) (i + text.length) := by
      rw [hsome v w hv]
      exact .ret w
    exact (hp.found htext hi h).bind [] later hlater
  decided {i} hi := by
    rcases hp.runs_or_fails hi with ⟨text, v, rest, htext, h, hpos, hruns⟩ | hfails
    · cases hv : f v with
      | some w => exact .inl ⟨text, w, rest, htext, v, h, hv⟩
      | none =>
        obtain ⟨message, hlater⟩ := hnone v hv
        have hfails : (later v).Fails input scope (i + text.length) := by
          rw [hlater]
          exact .inl (.fail message)
        exact .inr (.inr (hruns.bind_fails [] later (by omega) hfails))
    · exact .inr (hfails.bind _ _)
  refuses hi hhead := (hp.refuses hi hhead).bind _ _

end Decides

section Readers

variable {p : Parser .char} {accepts : Char → Bool}

theorem Accepts.decides (hp : p.Accepts input scope accepts) :
    p.Decides input scope accepts fun text v _ => text = [v] ∧ accepts v = true where
  begun := fun ⟨htext, hv⟩ => ⟨_, [], htext, hv⟩
  found := by
    rintro i text v rest htext hi ⟨rfl, hv⟩
    exact hp.runs htext hv
  decided {i} hi := by
    by_cases hchar : ∃ c, input[i]? = some c ∧ accepts c = true
    · obtain ⟨c, hchar, hc⟩ := hchar
      exact .inl ⟨[c], c, _, drop_eq_cons_iff.2 ⟨hchar, rfl⟩, rfl, hc⟩
    · push Not at hchar
      exact .inr (.inl (hp.rejected hi fun c hc => by simpa using hchar c hc))
  refuses := hp.refuses

/-- All characters of a class that lie ahead. -/
theorem Accepts.many1_decides (hp : p.Accepts input scope accepts) :
    (Parser.many1 p).Decides input scope accepts fun text v next => text = v ∧ v ≠ [] ∧
      (∀ c ∈ v, accepts c = true) ∧ ∀ c, next = some c → accepts c = false where
  begun := by
    rintro text v next ⟨rfl, hne, hall, -⟩
    obtain ⟨c, tail, rfl⟩ := List.exists_cons_of_ne_nil hne
    exact ⟨c, tail, rfl, hall c List.mem_cons_self⟩
  found := by
    rintro i text v rest htext hi ⟨rfl, hne, hall, hnext⟩
    exact hp.many1 htext hi hne hall hnext
  decided {i} hi := by
    cases htext : input.toList.drop i with
    | nil => exact .inr (.inl (hp.refuses_nil hi htext).many1)
    | cons c tail =>
      cases hc : accepts c with
      | false => exact .inr (.inl (hp.refuses_cons hi htext hc).many1)
      | true =>
        refine .inl ⟨(c :: tail).takeWhile accepts, _, (c :: tail).dropWhile accepts,
          List.takeWhile_append_dropWhile.symm, rfl, ?_, fun d hd => List.mem_takeWhile_imp hd, ?_⟩
        · simp [List.takeWhile_cons_of_pos hc]
        · intro d hd
          have hhead := List.head?_dropWhile_not accepts (c :: tail)
          rw [hd] at hhead
          exact hhead
  refuses hi hhead := (hp.refuses hi hhead).many1

/-- A given character and then a text of another parser. -/
theorem Decides.behind {mark : Parser .char} {q : Parser b} {x : Char} {begins : Char → Bool}
    {texts : Texts b.Elem} (hq : q.Decides input scope begins texts)
    (hmark : mark.Accepts input scope (· == x)) :
    (mark.andThen q).Decides input scope (· == x) fun text w next =>
      ∃ tail, text = x :: tail ∧ texts tail w next := by
  refine (hmark.decides.andThen hq).congr fun text w next => ?_
  constructor
  · rintro ⟨tail, rfl, htail⟩
    exact ⟨[x], x, tail, rfl, ⟨rfl, by simp⟩, htail⟩
  · rintro ⟨_, c, tail, rfl, ⟨rfl, hc⟩, htail⟩
    obtain rfl : c = x := by simpa using hc
    exact ⟨tail, rfl, htail⟩

/-- A text of a parser and then a given character. -/
theorem Decides.before {mark : Parser .char} {q : Parser b} {x : Char} {begins : Char → Bool}
    {texts : Texts b.Elem} (hq : q.Decides input scope begins texts)
    (hmark : mark.Accepts input scope (· == x)) :
    (q.skip mark).Decides input scope begins fun text w _ =>
      ∃ front, text = front ++ [x] ∧ texts front w (some x) := by
  refine (hq.lift2 hmark.decides _).congr fun text w next => ?_
  constructor
  · rintro ⟨front, rfl, hfront⟩
    exact ⟨front, w, [x], rfl, hfront, x, ⟨rfl, by simp⟩, rfl⟩
  · rintro ⟨front, v, _, rfl, hfront, c, ⟨rfl, hc⟩, rfl⟩
    obtain rfl : c = x := by simpa using hc
    exact ⟨front, rfl, hfront⟩

end Readers

/-- A list of texts, each followed by the next one. -/
inductive Pieces {α : Type} (texts : Texts α) : List Char → List α → Option Char → Prop
  | nil {next : Option Char} : Pieces texts [] [] next
  | cons {front later : List Char} {v : α} {values : List α} {next : Option Char} :
    texts front v (later.head?.or next) → Pieces texts later values next →
    Pieces texts (front ++ later) (v :: values) next

section Repetition

variable {p : Parser t} {begins : Char → Bool} {texts : Texts t.Elem}

theorem Decides.loops_found (hp : p.Decides input scope begins texts) {read : List t.Elem}
    (hpieces : Pieces texts text read rest.head?) (htext : input.toList.drop i = text ++ rest)
    (hi : i ≤ input.size) (hend : ∀ c, rest.head? = some c → begins c = false)
    (values : List t.Elem) :
    p.Loops input scope values i (.success (values.reverse ++ read)) (i + text.length) := by
  generalize hnext : rest.head? = next at hpieces
  induction hpieces generalizing i values with
  | nil =>
    rw [List.append_nil]
    exact .stop (hp.refuses hi (by rwa [htext, List.nil_append]))
  | @cons front later v read next hfront hlater ih =>
    subst hnext
    rw [List.append_assoc] at htext
    have hfirst := hp.found htext hi (by rwa [List.head?_append])
    have hrest := ih (drop_add_length htext) (hfirst.le_size hi) (v :: values) rfl
    have hpos := hp.length_pos hfront
    rw [List.reverse_cons, List.append_assoc, List.singleton_append, Nat.add_assoc,
      ← List.length_append] at hrest
    exact hrest.again hfirst (by omega)

/-- A repetition reads pieces until it stops, or it breaks. -/
theorem Decides.loops_decided (hp : p.Decides input scope begins texts) (hi : i ≤ input.size)
    (values : List t.Elem) :
    (∃ text read rest, input.toList.drop i = text ++ rest ∧ Pieces texts text read rest.head? ∧
      p.Loops input scope values i (.success (values.reverse ++ read)) (i + text.length)) ∨
      ∃ expected j, p.Loops input scope values i (.failure ⟨expected, true⟩) j := by
  induction hleft : input.size - i using Nat.strongRecOn generalizing i values with
  | ind left ih =>
    rcases hp.runs_or_fails hi with
      ⟨front, v, rest, htext, hfront, hpos, hfirst⟩ | hrefuses | ⟨expected, j, hbreaks⟩
    · have hmiddle := hfirst.le_size hi
      rcases ih (input.size - (i + front.length)) (by omega) hmiddle (v :: values) rfl with
        ⟨later, read, after, hafter, hlater, hloops⟩ | ⟨expected, j, hloops⟩
      · obtain rfl : rest = later ++ after := (drop_add_length htext).symm.trans hafter
        rw [List.head?_append] at hfront
        rw [List.reverse_cons, List.append_assoc, List.singleton_append, Nat.add_assoc,
          ← List.length_append] at hloops
        exact .inl ⟨front ++ later, v :: read, after, by rw [htext, List.append_assoc],
          .cons hfront hlater, hloops.again hfirst (by omega)⟩
      · exact .inr ⟨expected, j, hloops.again hfirst (by omega)⟩
    · refine .inl ⟨[], [], _, (List.nil_append _).symm, .nil, ?_⟩
      rw [List.append_nil]
      exact .stop hrefuses
    · exact .inr ⟨expected, j, .broken hbreaks⟩

end Repetition

section Collections

variable {p : Parser t} {q : Parser b} {r : Parser a} {begins begins' : Char → Bool}
  {texts : Texts t.Elem} {texts' : Texts b.Elem}

/-- Pieces, from whose values another value is made, and a text that no piece begins like. -/
theorem Decides.pieces_lift2 (hp : p.Decides input scope begins texts)
    (hq : q.Decides input scope begins' texts')
    (hapart : ∀ c, begins' c = true → begins c = false) (collect : List t.Elem → a.Elem)
    (hsuccess : ∀ {i j values}, (Parser.many p).Runs input scope i (.success values) j →
      r.Runs input scope i (.success (collect values)) j)
    (hbreaks : ∀ {i}, (Parser.many p).Breaks input scope i → r.Breaks input scope i)
    (f : a.Elem → b.Elem → c.Elem) :
    (r.lift2 q f).Decides input scope (fun c => begins c || begins' c)
      fun text w next => ∃ body values back u, text = body ++ back ∧
        Pieces texts body values (back.head?.or next) ∧ texts' back u next ∧
        w = f (collect values) u where
  begun := by
    rintro text w next ⟨body, values, back, u, rfl, hbody, hback, -⟩
    cases hbody with
    | nil =>
      obtain ⟨d, tail, rfl, hd⟩ := hq.begun hback
      exact ⟨d, tail, rfl, by simp [hd]⟩
    | cons hfront _ =>
      obtain ⟨d, tail, rfl, hd⟩ := hp.begun hfront
      exact ⟨d, _, rfl, by simp [hd]⟩
  found := by
    rintro i text w rest htext hi ⟨body, values, back, u, rfl, hbody, hback, rfl⟩
    rw [List.append_assoc] at htext
    have hend : ∀ d, (back ++ rest).head? = some d → begins d = false := by
      obtain ⟨d, tail, rfl, hd⟩ := hq.begun hback
      intro e he
      rw [List.cons_append, List.head?_cons] at he
      obtain rfl := Option.some.inj he
      exact hapart d hd
    have hloops := hp.loops_found (by rwa [List.head?_append]) htext hi hend []
    have hmany := hsuccess hloops.many
    have hlast := hq.found (drop_add_length htext) (hmany.le_size hi) hback
    rw [List.length_append, ← Nat.add_assoc]
    exact hmany.lift2 f hlast
  decided {i} hi := by
    rcases hp.loops_decided hi [] with
      ⟨body, values, rest, htext, hbody, hloops⟩ | ⟨expected, j, hloops⟩
    · have hmany := hsuccess hloops.many
      rcases hq.decided (hmany.le_size hi) with ⟨back, u, after, hafter, hback⟩ | hfails
      · obtain rfl : rest = back ++ after := (drop_add_length htext).symm.trans hafter
        rw [List.head?_append] at hbody
        exact .inl ⟨body ++ back, _, after, by rw [htext, List.append_assoc],
          body, values, back, u, rfl, hbody, hback, rfl⟩
      · exact .inr (hmany.bind_fails_of_le _ _ (Nat.le_add_right _ _) (hfails.map _))
    · exact .inr (.inr ((hbreaks ⟨expected, j, hloops.many⟩).bind _ _))
  refuses {i} hi hhead := by
    have hneither := fun c hc => Bool.or_eq_false_iff.1 (hhead c hc)
    have hloops : p.Loops input scope [] i (.success []) i :=
      .stop (hp.refuses hi fun c hc => (hneither c hc).1)
    exact (hsuccess hloops.many).bind_refuses _ _
      ((hq.refuses hi fun c hc => (hneither c hc).2).map _)

end Collections

section Tables

variable {items : List (Parser t)} {table : List (List Char × t.Elem)} {texts : Texts t.Elem}

/-- Where no key of a table lies ahead, all its parsers refuse. -/
theorem refuses_of_keys
    (h : List.Forall₂ (fun p entry => p.Takes input scope entry.1 entry.2) items table)
    (hi : i ≤ input.size) (hnone : ∀ entry ∈ table, ¬ entry.1 <+: input.toList.drop i) :
    ∀ p ∈ items, p.Refuses input scope i := by
  induction h with
  | nil => exact fun p hp => absurd hp List.not_mem_nil
  | cons hp _ ih =>
    obtain ⟨hfirst, hrest⟩ := List.forall_mem_cons.1 hnone
    exact List.forall_mem_cons.2 ⟨hp.differs hfirst hi, ih hrest⟩

theorem choiceAll_takes {before after : List (List Char × t.Elem)} {key : List Char} {v : t.Elem}
    (h : List.Forall₂ (fun p entry => p.Takes input scope entry.1 entry.2) items
      (before ++ (key, v) :: after))
    (hi : i ≤ input.size) (hbefore : ∀ entry ∈ before, ¬ entry.1 <+: input.toList.drop i)
    (hkey : key <+: input.toList.drop i) :
    (choiceAll items).Runs input scope i (.success v) (i + key.length) := by
  have hfront := List.forall₂_take_append _ _ _ h
  obtain ⟨p, back, hp, -, hback⟩ :=
    List.forall₂_cons_right_iff.1 (List.forall₂_drop_append _ _ _ h)
  rw [← List.take_append_drop before.length items, hback]
  exact choiceAll_success (refuses_of_keys hfront hi hbefore) (hp.found hkey hi)

/-- The first key of a table that lies ahead is the one that counts. -/
theorem choiceAll_decides
    (h : List.Forall₂ (fun p entry => p.Takes input scope entry.1 entry.2) items table)
    (hne : ∀ entry ∈ table, entry.1 ≠ [])
    (hsplit : ∀ text v next, texts text v next → ∃ before after,
      table = before ++ (text, v) :: after ∧
        ∀ entry ∈ before, ∀ rest, rest.head? = next → ¬ entry.1 <+: text ++ rest)
    (hfirst : ∀ before text v after rest, table = before ++ (text, v) :: after →
      (∀ entry ∈ before, ¬ entry.1 <+: text ++ rest) → texts text v rest.head?) :
    (choiceAll items).Decides input scope
      (fun c => table.any fun entry => entry.1.head? == some c) texts where
  begun := by
    intro text v next htext
    obtain ⟨before, after, htable, -⟩ := hsplit text v next htext
    have hmem : (text, v) ∈ table := by simp [htable]
    obtain ⟨c, tail, rfl⟩ : ∃ c tail, text = c :: tail :=
      List.exists_cons_of_ne_nil (hne _ hmem)
    exact ⟨c, tail, rfl, List.any_eq_true.2 ⟨_, hmem, by simp⟩⟩
  found := by
    intro i text v rest hahead hi htext
    obtain ⟨before, after, rfl, hbefore⟩ := hsplit text v _ htext
    refine choiceAll_takes h hi (fun entry hentry => ?_) ⟨rest, hahead.symm⟩
    rw [hahead]
    exact hbefore entry hentry rest rfl
  decided {i} hi := by
    cases hfind : table.find? fun entry => decide (entry.1 <+: input.toList.drop i) with
    | none =>
      have hnone := List.find?_eq_none.1 hfind
      exact .inr (.inl (choiceAll_refuses (refuses_of_keys h hi (by simpa using hnone))))
    | some entry =>
      obtain ⟨key, v⟩ := entry
      obtain ⟨hkey, before, after, htable, hbefore⟩ := List.find?_eq_some_iff_append.1 hfind
      obtain ⟨rest, hrest⟩ := of_decide_eq_true hkey
      refine .inl ⟨key, v, rest, hrest.symm, hfirst before key v after rest htable ?_⟩
      simpa [hrest] using hbefore
  refuses {i} hi hhead := by
    refine choiceAll_refuses (refuses_of_keys h hi ?_)
    rintro entry hentry ⟨rest, hrest⟩
    obtain ⟨c, tail, hc⟩ := List.exists_cons_of_ne_nil (hne entry hentry)
    have hother := hhead c (by rw [← hrest, hc, List.cons_append, List.head?_cons])
    rw [List.any_eq_false] at hother
    exact hother entry hentry (by simp [hc])

end Tables

end ParserKit.Parser

namespace ParserKit.Build

open ParserKit.Parser (Texts)

variable {t : Ty} {level : Nat}

theorem label_decides (p : Parser t) (message : String) :
    Yields level (label p message) fun _ q => ∀ ⦃input scope begins⦄ ⦃texts : Texts t.Elem⦄,
      p.Decides input scope begins texts → q.Decides input scope begins texts :=
  memo_meets fun label _ _ _ _ hp => (hp.label message).memo label

/-- Steps for all members of a list, in order. -/
theorem Yields.forall₂ {α β : Type} {f : α → Build β} {post : α → Names → β → Prop}
    (h : ∀ x, Yields level (f x) (post x)) (xs : List α) :
    Yields level (xs.mapM f) fun names values =>
      List.Forall₂ (fun value x => post x names value) values xs := by
  induction xs with
  | nil =>
    rw [List.mapM_nil]
    exact .pure fun _ => .nil
  | cons x xs ih =>
    rw [List.mapM_cons]
    exact (h x).bind fun value => ih.bind fun values => .pure fun _ hvalues hvalue =>
      .cons hvalue hvalues

end ParserKit.Build
