import ParserKit.Proofs.Deciding

/-!
Parsers that a single character commits. Where its first character fits, such a parser does not
refuse any more: it reads one of its texts or it breaks. What follows it is looked at only
behind the place where it began, so that may read nothing at all.
-/

namespace ParserKit

theorem takeWhile_eq_nil_iff {accepts : Char → Bool} {text : List Char} :
    text.takeWhile accepts = [] ↔ text.head?.any accepts = false := by
  cases text with
  | nil => simp
  | cons c rest =>
    cases hc : accepts c <;> simp [hc]

end ParserKit

namespace ParserKit.Parser

variable {a b c t : Ty} {input : Array Char} {scope : Scope} {i : Nat}

/-- The parser reads the given texts, of which some may be empty, and else it fails. -/
structure Reads (input : Array Char) (scope : Scope) (p : Parser t) (texts : Texts t.Elem) :
    Prop where
  found : ∀ {i text v rest}, input.toList.drop i = text ++ rest → i ≤ input.size →
    texts text v rest.head? → p.Runs input scope i (.success v) (i + text.length)
  decided : ∀ {i}, i ≤ input.size →
    (∃ text v rest, input.toList.drop i = text ++ rest ∧ texts text v rest.head?) ∨
      p.Fails input scope i

/-- The parser reads the given texts, which begin with the given characters, and each of these
characters commits it. -/
structure Insists (input : Array Char) (scope : Scope) (p : Parser t) (begins : Char → Bool)
    (texts : Texts t.Elem) : Prop where
  begun : ∀ {text v next}, texts text v next → ∃ c tail, text = c :: tail ∧ begins c = true
  found : ∀ {i text v rest}, input.toList.drop i = text ++ rest → i ≤ input.size →
    texts text v rest.head? → p.Runs input scope i (.success v) (i + text.length)
  committed : ∀ {i}, i ≤ input.size → (input.toList.drop i).head?.any begins = true →
    (∃ text v rest, input.toList.drop i = text ++ rest ∧ texts text v rest.head?) ∨
      p.Breaks input scope i
  refuses : ∀ {i}, i ≤ input.size → (input.toList.drop i).head?.any begins = false →
    p.Refuses input scope i

theorem any_eq_false_iff {next : Option Char} {begins : Char → Bool} :
    next.any begins = false ↔ ∀ c, next = some c → begins c = false := by
  cases next <;> simp

theorem any_or {next : Option Char} {begins begins' : Char → Bool} :
    (next.any fun c => begins c || begins' c) = (next.any begins || next.any begins') := by
  cases next <;> rfl

theorem Decides.reads {p : Parser t} {begins : Char → Bool} {texts : Texts t.Elem}
    (hp : p.Decides input scope begins texts) : p.Reads input scope texts :=
  ⟨hp.found, hp.decided⟩

namespace Reads

variable {p : Parser a} {texts : Texts a.Elem}

theorem ret (v : t.Elem) :
    (Parser.ret v : Parser t).Reads input scope fun text w _ => text = [] ∧ w = v where
  found := by
    rintro i text w rest htext hi ⟨rfl, rfl⟩
    exact .ret w
  decided _ := .inl ⟨[], v, _, (List.nil_append _).symm, rfl, rfl⟩

theorem congr (hp : p.Reads input scope texts) {other : Texts a.Elem}
    (h : ∀ text v next, other text v next ↔ texts text v next) : p.Reads input scope other where
  found htext hi hother := hp.found htext hi ((h _ _ _).1 hother)
  decided hi := (hp.decided hi).imp_left fun ⟨text, v, rest, htext, hread⟩ =>
    ⟨text, v, rest, htext, (h _ _ _).2 hread⟩

theorem map (hp : p.Reads input scope texts) (f : a.Elem → b.Elem) :
    (p.map f).Reads input scope fun text w next => ∃ v, texts text v next ∧ w = f v where
  found := by
    rintro i text w rest htext hi ⟨v, h, rfl⟩
    exact (hp.found htext hi h).map f
  decided hi := by
    refine (hp.decided hi).imp ?_ (·.map f)
    rintro ⟨text, v, rest, htext, h⟩
    exact ⟨text, f v, rest, htext, v, h, rfl⟩

end Reads

namespace Insists

variable {p : Parser a} {begins begins' : Char → Bool} {texts : Texts a.Elem}

theorem decides (hp : p.Insists input scope begins texts) :
    p.Decides input scope begins texts where
  begun := hp.begun
  found := hp.found
  decided {i} hi := by
    cases hhead : (input.toList.drop i).head?.any begins with
    | true => exact (hp.committed hi hhead).imp_right .inr
    | false => exact .inr (.inl (hp.refuses hi hhead))
  refuses hi hhead := hp.refuses hi (any_eq_false_iff.2 hhead)

theorem congr (hp : p.Insists input scope begins texts) {other : Texts a.Elem}
    (h : ∀ text v next, other text v next ↔ texts text v next) :
    p.Insists input scope begins other where
  begun hother := hp.begun ((h _ _ _).1 hother)
  found htext hi hother := hp.found htext hi ((h _ _ _).1 hother)
  committed hi hhead := (hp.committed hi hhead).imp_left fun ⟨text, v, rest, htext, hread⟩ =>
    ⟨text, v, rest, htext, (h _ _ _).2 hread⟩
  refuses := hp.refuses

theorem memo (hp : p.Insists input scope begins texts) (label : Label) :
    (Parser.memo label p).Insists input scope begins texts where
  begun := hp.begun
  found htext hi h := (hp.found htext hi h).memo label
  committed hi hhead := (hp.committed hi hhead).imp_right (.memo label)
  refuses hi hhead := (hp.refuses hi hhead).memo label

theorem label (hp : p.Insists input scope begins texts) (message : String) :
    (Parser.wrap (.label message) p).Insists input scope begins texts where
  begun := hp.begun
  found htext hi h := (hp.found htext hi h).label message
  committed hi hhead := (hp.committed hi hhead).imp_right (.label message)
  refuses hi hhead := (hp.refuses hi hhead).label message

theorem map (hp : p.Insists input scope begins texts) (f : a.Elem → b.Elem) :
    (p.map f).Insists input scope begins fun text w next => ∃ v, texts text v next ∧ w = f v where
  begun := fun ⟨_, h, _⟩ => hp.begun h
  found := (hp.decides.map f).found
  committed hi hhead := by
    refine (hp.committed hi hhead).imp ?_ (.map f)
    rintro ⟨text, v, rest, htext, h⟩
    exact ⟨text, f v, rest, htext, v, h, rfl⟩
  refuses hi hhead := (hp.refuses hi hhead).map f

/-- A text, or else one of another parser. -/
theorem choice_reads {q : Parser a} {texts' : Texts a.Elem}
    (hp : p.Insists input scope begins texts) (hq : q.Reads input scope texts') :
    (Parser.choice p q).Reads input scope
      fun text v next => texts text v next ∨
        (texts' text v next ∧ (text.head?.or next).any begins = false) where
  found := by
    rintro i text v rest htext hi (h | ⟨h, hother⟩)
    · exact (hp.found htext hi h).choice_success
    · have hrefuses := hp.refuses hi (by rwa [htext, List.head?_append])
      exact hrefuses.choice_success (hq.found htext hi h)
  decided {i} hi := by
    cases hhead : (input.toList.drop i).head?.any begins with
    | true =>
      rcases hp.committed hi hhead with ⟨text, v, rest, htext, h⟩ | hbreaks
      · exact .inl ⟨text, v, rest, htext, .inl h⟩
      · exact .inr (.inr hbreaks.choice)
    | false =>
      have hrefuses := hp.refuses hi hhead
      rcases hq.decided hi with ⟨text, v, rest, htext, h⟩ | hfails
      · rw [htext, List.head?_append] at hhead
        exact .inl ⟨text, v, rest, htext, .inr ⟨h, hhead⟩⟩
      · exact .inr (hfails.imp hrefuses.choice hrefuses.choice_breaks)

/-- The second alternative reads what does not begin like the first. -/
theorem choice_first {q : Parser a} {texts' : Texts a.Elem}
    (hp : p.Insists input scope begins texts) (hq : q.Insists input scope begins' texts') :
    (Parser.choice p q).Insists input scope (fun c => begins c || begins' c)
      fun text v next => texts text v next ∨
        (texts' text v next ∧ (text.head?.or next).any begins = false) where
  begun := by
    rintro text v next (h | ⟨h, -⟩)
    · obtain ⟨c, tail, rfl, hc⟩ := hp.begun h
      exact ⟨c, tail, rfl, by simp [hc]⟩
    · obtain ⟨c, tail, rfl, hc⟩ := hq.begun h
      exact ⟨c, tail, rfl, by simp [hc]⟩
  found := (hp.choice_reads hq.decides.reads).found
  committed {i} hi hhead := by
    cases hfirst : (input.toList.drop i).head?.any begins with
    | true =>
      rcases hp.committed hi hfirst with ⟨text, v, rest, htext, h⟩ | hbreaks
      · exact .inl ⟨text, v, rest, htext, .inl h⟩
      · exact .inr hbreaks.choice
    | false =>
      have hsecond : (input.toList.drop i).head?.any begins' = true := by
        rw [any_or, hfirst, Bool.false_or] at hhead
        exact hhead
      rcases hq.committed hi hsecond with ⟨text, v, rest, htext, h⟩ | hbreaks
      · rw [htext, List.head?_append] at hfirst
        exact .inl ⟨text, v, rest, htext, .inr ⟨h, hfirst⟩⟩
      · exact .inr ((hp.refuses hi hfirst).choice_breaks hbreaks)
  refuses hi hhead := by
    rw [any_or, Bool.or_eq_false_iff] at hhead
    exact (hp.refuses hi hhead.1).choice (hq.refuses hi hhead.2)

/-- Two alternatives that begin with different characters. -/
theorem choice {q : Parser a} {texts' : Texts a.Elem} (hp : p.Insists input scope begins texts)
    (hq : q.Insists input scope begins' texts')
    (hapart : ∀ c, begins c = true → begins' c = false) :
    (Parser.choice p q).Insists input scope (fun c => begins c || begins' c)
      fun text v next => texts text v next ∨ texts' text v next := by
  refine (hp.choice_first hq).congr fun text v next => or_congr_right ?_
  refine ⟨fun h => ⟨h, ?_⟩, And.left⟩
  obtain ⟨c, tail, rfl, hc⟩ := hq.begun h
  refine Bool.eq_false_iff.2 fun hbegins => ?_
  rw [hapart c hbegins] at hc
  cases hc

/-- A text of the first parser and then one of the second, which may be empty. -/
theorem bind {later : a.Elem → Parser b} {texts' : a.Elem → Texts b.Elem} (captures : List Label)
    (hp : p.Insists input scope begins texts)
    (hlater : ∀ v, (later v).Reads input scope (texts' v)) :
    (Parser.bind p captures later).Insists input scope begins
      fun text w next => ∃ front v back, text = front ++ back ∧
        texts front v (back.head?.or next) ∧ texts' v back w next where
  begun := by
    rintro text w next ⟨front, v, back, rfl, hfront, -⟩
    obtain ⟨c, tail, rfl, hc⟩ := hp.begun hfront
    exact ⟨c, tail ++ back, rfl, hc⟩
  found := by
    rintro i text w rest htext hi ⟨front, v, back, rfl, hfront, hback⟩
    rw [List.append_assoc] at htext
    have hfirst := hp.found htext hi (by rwa [List.head?_append])
    have hsecond := (hlater v).found (drop_add_length htext) (hfirst.le_size hi) hback
    rw [List.length_append, ← Nat.add_assoc]
    exact hfirst.bind captures later hsecond
  committed {i} hi hhead := by
    rcases hp.committed hi hhead with ⟨front, v, rest, htext, hfront⟩ | hbreaks
    · have hfirst := hp.found htext hi hfront
      have hpos := hp.decides.length_pos hfront
      rcases (hlater v).decided (hfirst.le_size hi) with ⟨back, w, after, hafter, hback⟩ | hfails
      · obtain rfl : rest = back ++ after := (drop_add_length htext).symm.trans hafter
        rw [List.head?_append] at hfront
        exact .inl ⟨front ++ back, w, after, by rw [htext, List.append_assoc],
          front, v, back, rfl, hfront, hback⟩
      · exact .inr (hfirst.bind_fails captures later (by omega) hfails)
    · exact .inr (hbreaks.bind captures later)
  refuses hi hhead := (hp.refuses hi hhead).bind captures later

theorem andThen {q : Parser b} {texts' : Texts b.Elem} (hp : p.Insists input scope begins texts)
    (hq : q.Reads input scope texts') : (p.andThen q).Insists input scope begins
      fun text w next => ∃ front v back, text = front ++ back ∧
        texts front v (back.head?.or next) ∧ texts' back w next :=
  hp.bind q.owned fun _ => hq

theorem lift2 {q : Parser b} {texts' : Texts b.Elem} (hp : p.Insists input scope begins texts)
    (hq : q.Reads input scope texts') (f : a.Elem → b.Elem → c.Elem) :
    (p.lift2 q f).Insists input scope begins
      fun text w next => ∃ front v back, text = front ++ back ∧
        texts front v (back.head?.or next) ∧ ∃ u, texts' back u next ∧ w = f v u :=
  hp.bind q.owned fun v => hq.map (f v)

/-- A value that is refused counts as consumed, because its text was read. -/
theorem followedBy (hp : p.Insists input scope begins texts) {f : a.Elem → Option b.Elem}
    {later : a.Elem → Parser b} (hsome : ∀ v w, f v = some w → later v = .ret w)
    (hnone : ∀ v, f v = none → ∃ message, later v = .fail message) :
    (p.followedBy later).Insists input scope begins
      fun text w next => ∃ v, texts text v next ∧ f v = some w where
  begun := fun ⟨_, h, _⟩ => hp.begun h
  found := (hp.decides.followedBy hsome hnone).found
  committed {i} hi hhead := by
    rcases hp.committed hi hhead with ⟨text, v, rest, htext, h⟩ | hbreaks
    · cases hv : f v with
      | some w => exact .inl ⟨text, w, rest, htext, v, h, hv⟩
      | none =>
        obtain ⟨message, hlater⟩ := hnone v hv
        have hpos := hp.decides.length_pos h
        have hfails : (later v).Fails input scope (i + text.length) := by
          rw [hlater]
          exact .inl (.fail message)
        exact .inr ((hp.found htext hi h).bind_fails [] later (by omega) hfails)
    · exact .inr (hbreaks.bind _ _)
  refuses hi hhead := (hp.refuses hi hhead).bind _ _

/-- A text, or a value of its own where no such text begins. -/
theorem option (hp : p.Insists input scope begins texts) (default : a.Elem) :
    (p.option default).Reads input scope fun text v next =>
      texts text v next ∨ (text = [] ∧ v = default ∧ next.any begins = false) := by
  refine (hp.choice_reads (.ret default)).congr fun text v next => or_congr_right ?_
  constructor
  · rintro ⟨rfl, hv, hnext⟩
    exact ⟨⟨rfl, hv⟩, hnext⟩
  · rintro ⟨⟨rfl, hv⟩, hnext⟩
    exact ⟨rfl, hv, hnext⟩

end Insists

section Readers

variable {p : Parser .char} {accepts : Char → Bool}

theorem Accepts.insists (hp : p.Accepts input scope accepts) :
    p.Insists input scope accepts fun text v _ => text = [v] ∧ accepts v = true where
  begun := fun ⟨htext, hv⟩ => ⟨_, [], htext, hv⟩
  found := hp.decides.found
  committed {i} hi hhead := by
    obtain ⟨c, hc, hfits⟩ := (Option.any_eq_true _ _).1 hhead
    obtain ⟨rest, htext⟩ := List.head?_eq_some_iff.1 hc
    exact .inl ⟨[c], c, rest, htext, rfl, hfits⟩
  refuses hi hhead := hp.refuses hi (any_eq_false_iff.1 hhead)

/-- All characters of a class that lie ahead. -/
theorem Accepts.many1_insists (hp : p.Accepts input scope accepts) :
    (Parser.many1 p).Insists input scope accepts fun text v next => text = v ∧ v ≠ [] ∧
      (∀ c ∈ v, accepts c = true) ∧ ∀ c, next = some c → accepts c = false where
  begun := hp.many1_decides.begun
  found := hp.many1_decides.found
  committed {i} hi hhead := by
    refine .inl ⟨_, _, (input.toList.drop i).dropWhile accepts,
      List.takeWhile_append_dropWhile.symm, rfl, ?_, fun c hc => List.mem_takeWhile_imp hc, ?_⟩
    · rw [ne_eq, takeWhile_eq_nil_iff, hhead]
      decide
    · exact fun c hc => by simpa [hc] using List.head?_dropWhile_not accepts (input.toList.drop i)
  refuses hi hhead := hp.many1_decides.refuses hi (any_eq_false_iff.1 hhead)

end Readers

end ParserKit.Parser

namespace ParserKit.Build

open ParserKit.Parser (Texts)

theorem label_insists {t : Ty} {level : Nat} (p : Parser t) (message : String) :
    Yields level (label p message) fun _ q => ∀ ⦃input scope begins⦄ ⦃texts : Texts t.Elem⦄,
      p.Insists input scope begins texts → q.Insists input scope begins texts :=
  memo_meets fun label _ _ _ _ hp => (hp.label message).memo label

end ParserKit.Build
