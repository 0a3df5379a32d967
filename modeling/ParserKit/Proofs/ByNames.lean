import ParserKit.Proofs.Enclosure
import ParserKit.Proofs.Transparency
import ParserKit.Proofs.Unfolding

/-!
A run in a scope beside the run by names. The run by names begins no generations and
has no rules to drop, so only two kinds of parsers tell the runs apart: those that
remember and those that are rebuilt. A comparison that copes with both extends to all
well labelled parsers.
-/

namespace ParserKit

open Comparison

theorem Names.upTo_upTo (names : Names) {level level' : Nat} (h : level' ≤ level) :
    (names.upTo level).upTo level' = names.upTo level' :=
  (Names.upTo_eq_of_agree ((names.agree_upTo level).lower h)).symm

theorem Scope.Twins.upTo {w : Correspondence} {names : Names} {level : Nat} {scope scope' : Scope}
    (h : Twins w names level scope scope') : Twins w (names.upTo level) level scope scope' :=
  ⟨h.eq_rename, h.below, h.meets.congr (names.agree_upTo level), fun l hl => by
    rw [names.upTo_upTo hl, h.birth l hl]⟩

namespace Comparison

/-- Comparisons of a run, which comes first, with the run by names. A memoized parser may
be compared by one of them while its part is compared by another one. -/
structure ByNames {ι : Type} (c : ι → Comparison Correspondence) : Prop where
  taken_eq : ∀ {i w s s'}, (c i).states w s s' → s.nextGeneration = w.taken
  renew : ∀ {i w s s'}, (c i).states w s s' → ∀ (level : Nat) (names : Names),
    (c i).states (w.extend level names w.limit (Nat.le_refl _)) s.renew.2 s'
  remembered : ∀ {i w names scope scope'} {t : Ty} {label : Label} {p : Parser t}
    {x : Action t.Elem}, Scope.Twins w names label.level scope scope' →
    names label = some ⟨t, p⟩ → (∀ i, (c i).Actions w x (p.meaningBy (names.upTo label.level))) →
    (c i).Actions w (x.remembered (scope.key label)) fun s =>
      p.meaningBy (names.upTo label.level) s.missed

/-- Well labelled parsers do by names what they do in a scope that meets the names, if the
scope has their rules or a dropped one is excused. -/
theorem ByNames.actions {ι : Type} {c : ι → Comparison Correspondence} (hc : ByNames c)
    (fuel : Nat) {t : Ty} (p : Parser t) {i : ι} {w : Correspondence} {names : Names} {level : Nat}
    {scope scope' : Scope} (hp : p.Labelled names level)
    (h : Scope.Twins w names level scope scope')
    (hrules : (∀ i, (c i).firstExcuse .ruleDropped) ∨ scope.Serves p) :
    (c i).Actions w (p.eval fuel scope) (p.meaningBy names) := by
  induction fuel generalizing t i w names level scope scope' with
  | zero => exact fun _ _ _ _ _ => .timeout _
  | succ fuel ih =>
    cases p with
    | atom a =>
      rw [Parser.meaningBy_atom]
      exact .atom a
    | wrap wrapper p =>
      rw [Parser.meaningBy_wrap]
      have hpart := ih (i := i) p hp h (hrules.imp_right fun hs => ⟨hs.rules, hs.enclosed⟩)
      exact hpart.wrapped wrapper
    | bind p captures next =>
      rw [Parser.meaningBy_bind]
      have hfirst := ih (i := i) p hp.1 (h.holding captures)
        (hrules.imp_right fun hs => ⟨hs.rules, hs.enclosed.1⟩)
      exact hfirst.chain fun value => ih (next value) (hp.2 value) h
        (hrules.imp_right fun hs => ⟨hs.rules, hs.enclosed.2 value⟩)
    | sequence items =>
      intro w' hw s s' hs
      rw [Parser.meaningBy_sequence, ← ((c i).beside hs).position_eq]
      have hitems := fun k => ih (i := i) (items k) (hp k) (h.holding (Parser.ownedItems items))
        (hrules.imp_right fun hs => ⟨hs.rules, hs.enclosed k⟩)
      exact Actions.sequence hitems s.position (List.finRange _) [] w' hw s s' hs
    | choice first second =>
      rw [Parser.meaningBy_choice]
      have hfirst := ih (i := i) first hp.1 (h.holding second.owned)
        (hrules.imp_right fun hs => ⟨hs.rules, hs.enclosed.1⟩)
      exact hfirst.choice (ih second hp.2 h
        (hrules.imp_right fun hs => ⟨hs.rules, hs.enclosed.2⟩))
    | memo label p =>
      rw [Parser.meaningBy_memo]
      obtain ⟨hlevel, hname, hp⟩ := hp
      have hlower := h.lower hlevel
      exact hc.remembered hlower hname fun i =>
        ih p (hp.congr (names.agree_upTo label.level)) hlower.upTo
          (hrules.imp_right fun hs => ⟨hs.rules, hs.enclosed⟩)
    | many p =>
      rw [Parser.meaningBy_many]
      have hoccurrence := ih (i := i) p hp (h.holding p.owned)
        (hrules.imp_right fun hs => ⟨hs.rules, hs.enclosed⟩)
      exact hoccurrence.repeated fuel []
    | many1 p =>
      rw [Parser.meaningBy_many1]
      have hoccurrence := ih (i := i) p hp (h.holding p.owned)
        (hrules.imp_right fun hs => ⟨hs.rules, hs.enclosed⟩)
      exact hoccurrence.repeatFrom1 fun values => hoccurrence.repeated fuel values
    | recursive name body =>
      rw [Parser.meaningBy_recursive]
      obtain ⟨hlevel, hname, hbody⟩ := hp
      exact ih body hbody ((h.define hlevel hname hbody).lower hlevel)
        (hrules.imp_right Scope.Serves.define)
    | rule name =>
      simp only [Parser.eval]
      rcases h.resolve hp t with ⟨body, inner, inner', hfound, -, hbody, hinner⟩ | ⟨hnone, -⟩
      · rw [Parser.meaningBy_rule names (h.meets.resolve hp hfound).1, hfound]
        exact ih body hbody hinner (hrules.imp_right fun hs => hs.resolve hfound)
      · rw [hnone]
        rcases hrules with hexcuse | hserves
        · exact fun _ _ _ _ _ => .firstExcused (hexcuse i) _
        · obtain ⟨rule, hmem, hkey, hne⟩ := hserves.resolve_eq_none hnone
          obtain ⟨hname, -⟩ := h.meets.rule rule hmem name hp hkey.symm
          rw [Parser.meaningBy_rule_of_ne names hname hne]
          exact fun _ _ _ _ _ => .fault _
    | fresh inner captures body =>
      rw [Parser.meaningBy_fresh]
      obtain ⟨hpos, hinner, hnames⟩ := hp
      obtain ⟨hbody, hbelow⟩ := Names.renewed_spec hnames
      intro w' hw s s' hs
      have htwins := (h.later hw).renew hpos hinner hbelow (Nat.le_refl w'.limit)
      rw [← hc.taken_eq hs] at htwins
      have hrenewed := hc.renew hs inner (names.renewed inner (body ()))
      have hpart := ih (i := i) (body ()) hbody htwins
        (hrules.imp_right fun hs => ⟨hs.rules, hs.enclosed⟩)
      exact (hpart _ le_rfl _ _ hrenewed).earlier w'.le_extend
    | tick counter p =>
      rw [Parser.meaningBy_tick]
      have hpart := ih (i := i) p hp h (hrules.imp_right fun hs => ⟨hs.rules, hs.enclosed⟩)
      exact hpart.tick counter

end Comparison

end ParserKit
