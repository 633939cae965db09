import Mathlib.Logic.Relation
import Predictive.Grammar.Basic

/-!
# Derivations

A string of symbols is rewritten by replacing one symbol by one of its alternatives, and derives
whatever a number of rewritings make of it. Rewriting may happen anywhere and in any order, which
is good to state things by. Proofs go by the shape of a derivation instead: read from left to
right, a symbol either stays as it is or is expanded, and what it is expanded to yields a part of
the result.

## Main definitions

* `Grammar.HasRule` — a symbol and one of its alternatives
* `Grammar.Rewrites` — one rewriting
* `Grammar.Derives` — any number of rewritings
* `Grammar.Yields` — derivations by their shape

## Main results

* `Grammar.derives_iff_yields` — the two kinds of derivations agree
* `Grammar.Yields.append_iff` — what a string yields is put together from what its parts yield
-/

namespace Predictive

/-- The symbols of an alternative are those that it was made of, if the empty marker is not among
them. -/
theorem Alternative.symbols_ofSymbols {symbols : List Symbol} (absent : Symbol.epsilon ∉ symbols) :
    (Alternative.ofSymbols symbols).symbols = symbols := by
  refine List.filter_eq_self.mpr fun s listed => decide_eq_true ?_
  rintro rfl
  exact absent listed

namespace Grammar

variable {grammar : Grammar} {s : Symbol} {alternative : Alternative}
  {form other result first second : List Symbol}

/-- One of the alternatives of a symbol. -/
def HasRule (grammar : Grammar) (s : Symbol) (alternative : Alternative) : Prop :=
  ∃ alternatives, grammar.alternatives? s = some alternatives ∧ alternative ∈ alternatives

/-- One rewriting: a symbol is replaced by one of its alternatives. -/
inductive Rewrites (grammar : Grammar) : List Symbol → List Symbol → Prop where
  /-- The symbol stands between `before` and `after`. -/
  | replace {s : Symbol} {alternative : Alternative} (before after : List Symbol)
      (rule : grammar.HasRule s alternative) :
      Rewrites grammar (before ++ s :: after) (before ++ (alternative.symbols ++ after))

/-- Any number of rewritings. -/
def Derives (grammar : Grammar) : List Symbol → List Symbol → Prop :=
  Relation.ReflTransGen grammar.Rewrites

/-- A derivation read from left to right: each symbol stays or is expanded. -/
inductive Yields (grammar : Grammar) : List Symbol → List Symbol → Prop where
  /-- Nothing is left. -/
  | nil : Yields grammar [] []
  /-- The first symbol stays. -/
  | keep (s : Symbol) {form result : List Symbol} (rest : Yields grammar form result) :
      Yields grammar (s :: form) (s :: result)
  /-- The first symbol is expanded. -/
  | expand {s : Symbol} {alternative : Alternative} {form first second : List Symbol}
      (rule : grammar.HasRule s alternative) (inner : Yields grammar alternative.symbols first)
      (rest : Yields grammar form second) : Yields grammar (s :: form) (first ++ second)

/-- A symbol of a string in two parts stands in one of them. -/
theorem split_append {front back before after : List Symbol}
    (place : front ++ back = before ++ s :: after) :
    (∃ gap, front = before ++ s :: gap ∧ after = gap ++ back) ∨
      ∃ gap, back = gap ++ s :: after ∧ before = front ++ gap := by
  rcases List.append_eq_append_iff.mp place with ⟨gap, beyond, inBack⟩ | ⟨gap, within, inFront⟩
  · exact Or.inr ⟨gap, inBack, beyond⟩
  -- the first part ends in front of the symbol, or goes beyond it
  · cases gap with
    | nil => exact Or.inr ⟨[], inFront.symm, by simpa using within.symm⟩
    | cons first rest =>
      obtain ⟨rfl, rfl⟩ := List.cons.inj inFront
      exact Or.inl ⟨rest, within, rfl⟩

/-! ### Rewriting inside a larger string -/

theorem Rewrites.append_left (front : List Symbol) (step : grammar.Rewrites form other) :
    grammar.Rewrites (front ++ form) (front ++ other) := by
  obtain ⟨before, after, rule⟩ := step
  simpa only [List.append_assoc] using Rewrites.replace (front ++ before) after rule

theorem Rewrites.append_right (back : List Symbol) (step : grammar.Rewrites form other) :
    grammar.Rewrites (form ++ back) (other ++ back) := by
  obtain ⟨before, after, rule⟩ := step
  simpa only [List.append_assoc, List.cons_append] using
    Rewrites.replace before (after ++ back) rule

theorem Derives.refl (form : List Symbol) : grammar.Derives form form := Relation.ReflTransGen.refl

theorem Derives.trans (first : grammar.Derives form other) (second : grammar.Derives other result) :
    grammar.Derives form result := Relation.ReflTransGen.trans first second

theorem Derives.append_left (front : List Symbol) (derives : grammar.Derives form other) :
    grammar.Derives (front ++ form) (front ++ other) :=
  Relation.ReflTransGen.lift (front ++ ·) (fun _ _ => Rewrites.append_left front) _ _ derives

theorem Derives.append_right (back : List Symbol) (derives : grammar.Derives form other) :
    grammar.Derives (form ++ back) (other ++ back) :=
  Relation.ReflTransGen.lift (· ++ back) (fun _ _ => Rewrites.append_right back) _ _ derives

theorem Derives.append {form' other' : List Symbol} (left : grammar.Derives form other)
    (right : grammar.Derives form' other') :
    grammar.Derives (form ++ form') (other ++ other') :=
  (left.append_right form').trans (right.append_left other)

theorem HasRule.rewrites (rule : grammar.HasRule s alternative) :
    grammar.Rewrites [s] alternative.symbols := by
  simpa using Rewrites.replace [] [] rule

theorem HasRule.derives (rule : grammar.HasRule s alternative) :
    grammar.Derives [s] alternative.symbols := Relation.ReflTransGen.single rule.rewrites

/-! ### Derivations by their shape -/

theorem Yields.refl (form : List Symbol) : grammar.Yields form form := by
  induction form with
  | nil => exact .nil
  | cons s rest ih => exact .keep s ih

theorem Yields.append {form' other' : List Symbol} (left : grammar.Yields form other)
    (right : grammar.Yields form' other') :
    grammar.Yields (form ++ form') (other ++ other') := by
  induction left with
  | nil => exact right
  | keep s _ ih => exact .keep s ih
  | expand rule inner _ _ ih =>
    rw [List.append_assoc, List.cons_append]
    exact .expand rule inner ih

/-- What a string yields is put together from what its parts yield. -/
theorem Yields.append_iff :
    grammar.Yields (form ++ other) result ↔
      ∃ first second, result = first ++ second ∧
        grammar.Yields form first ∧ grammar.Yields other second := by
  constructor
  · intro yields
    induction form generalizing result with
    | nil => exact ⟨[], result, rfl, .nil, yields⟩
    | cons s rest ih =>
      cases yields with
      | keep _ tail =>
        obtain ⟨first, second, rfl, left, right⟩ := ih tail
        exact ⟨s :: first, second, rfl, .keep s left, right⟩
      | @expand _ _ _ head _ rule inner tail =>
        obtain ⟨first, second, rfl, left, right⟩ := ih tail
        exact ⟨head ++ first, second, (List.append_assoc ..).symm, .expand rule inner left, right⟩
  · rintro ⟨first, second, rfl, left, right⟩
    exact left.append right

theorem Yields.derives (yields : grammar.Yields form result) : grammar.Derives form result := by
  induction yields with
  | nil => exact .refl []
  | keep s _ ih => exact ih.append_left [s]
  | expand rule _ _ inner rest => exact (rule.derives.trans inner).append rest

/-- A rewriting may come before a derivation. -/
theorem Rewrites.yields (step : grammar.Rewrites form other)
    (yields : grammar.Yields other result) : grammar.Yields form result := by
  obtain ⟨before, after, rule⟩ := step
  obtain ⟨front, rest, rfl, frontYields, restYields⟩ := Yields.append_iff.mp yields
  obtain ⟨middle, back, rfl, middleYields, backYields⟩ := Yields.append_iff.mp restYields
  exact frontYields.append (.expand rule middleYields backYields)

/-- The two kinds of derivations agree. -/
theorem derives_iff_yields : grammar.Derives form result ↔ grammar.Yields form result := by
  constructor
  · intro derives
    -- from the end to the front: a string yields what it is rewritten to yields
    induction derives using Relation.ReflTransGen.head_induction_on with
    | refl => exact .refl result
    | head step _ ih => exact step.yields ih
  · exact Yields.derives

/-- The first symbol of a string stays or is expanded. -/
theorem derives_cons_iff :
    grammar.Derives (s :: form) result ↔
      (∃ second, result = s :: second ∧ grammar.Derives form second) ∨
        ∃ alternative first second, grammar.HasRule s alternative ∧ result = first ++ second ∧
          grammar.Derives alternative.symbols first ∧ grammar.Derives form second := by
  simp only [derives_iff_yields]
  constructor
  · intro yields
    cases yields with
    | keep _ rest => exact Or.inl ⟨_, rfl, rest⟩
    | expand rule inner rest => exact Or.inr ⟨_, _, _, rule, rfl, inner, rest⟩
  · rintro (⟨second, rfl, rest⟩ | ⟨alternative, first, second, rule, rfl, inner, rest⟩)
    · exact .keep s rest
    · exact .expand rule inner rest

theorem derives_nil_iff : grammar.Derives [] result ↔ result = [] := by
  rw [derives_iff_yields]
  constructor
  · intro yields
    cases yields
    rfl
  · rintro rfl
    exact .nil

end Grammar

end Predictive
