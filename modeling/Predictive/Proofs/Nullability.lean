import Predictive.Proofs.Ebnf.First

/-!
# Nullability of strings

Two scans find what begins a row of symbols: one over the symbols, and one over a chain of
expressions that refer to them. Both go on as long as what they come upon is nullable. They agree on
the terminals, and on a row of symbols that all have a FIRST set they agree altogether: `ε` is a
member if every symbol is nullable. A symbol without a set is not nullable, and the scan over
expressions drops `ε` there. The scan over symbols stops and leaves `ε` in place, which is there if
it came past a nullable symbol.

## Main definitions

* `Expr.RefersTo` — the two expressions that refer to a symbol
* `FirstSets.StopsShort` — the scan stops at a symbol without a set
* `FirstSets.Strands` — it does so behind a nullable symbol

## Main results

* `FirstSets.epsilon_mem_ofStringFrom` — when `ε` is found
* `FirstSets.ofString_nullability` — the FIRST set of a string against nullability and chains
-/

namespace Predictive

variable {firsts : FirstSets} {found : SymbolSet} {part : Expr} {parts : List Expr} {s t : Symbol}
  {symbols : List Symbol}

/-! ### References -/

/-- The expressions that refer to a symbol: as one token, or as a nonterminal. -/
inductive Expr.RefersTo : Expr → Symbol → Prop where
  /-- As one token. -/
  | terminal (s : Symbol) : RefersTo (.terminal s) s
  /-- As a nonterminal. -/
  | nonterminal (s : Symbol) : RefersTo (.nonterminal s) s

theorem Expr.RefersTo.first_eq (refers : part.RefersTo s) :
    part.first firsts = firsts.sets.members s := by
  cases refers with
  | terminal s => exact first_terminal
  | nonterminal s => exact first_nonterminal

namespace FirstSets

theorem isNullable_iff : firsts.isNullable s = true ↔ Symbol.epsilon ∈ firsts.sets.members s := by
  rw [isNullable, Option.any_eq_true, OrderedMap.mem_members_iff]
  rfl

theorem not_isNullable_of_none (unknown : firsts.get? s = none) : ¬ firsts.isNullable s = true := by
  rw [isNullable, unknown]
  exact Bool.false_ne_true

/-! ### Where the scan stops -/

/-- The scan stops at a symbol without a set: all symbols before it are nullable. -/
def StopsShort (firsts : FirstSets) (symbols : List Symbol) : Prop :=
  ∃ front s back, symbols = front ++ s :: back ∧ (∀ r ∈ front, firsts.isNullable r = true) ∧
    firsts.get? s = none

/-- The scan stops at a symbol without a set, and has come past a nullable symbol. -/
def Strands (firsts : FirstSets) (symbols : List Symbol) : Prop :=
  ∃ front s back, symbols = front ++ s :: back ∧ front ≠ [] ∧
    (∀ r ∈ front, firsts.isNullable r = true) ∧ firsts.get? s = none

theorem strands_cons :
    firsts.Strands (s :: symbols) ↔ firsts.isNullable s = true ∧ firsts.StopsShort symbols := by
  constructor
  · rintro ⟨front, r, back, split, passed, nullable, unknown⟩
    cases front with
    | nil => exact absurd rfl passed
    | cons first front =>
      cases split
      rw [List.forall_mem_cons] at nullable
      exact ⟨nullable.1, front, r, back, rfl, nullable.2, unknown⟩
  · rintro ⟨nullable, front, r, back, rfl, others, unknown⟩
    exact ⟨s :: front, r, back, rfl, List.cons_ne_nil _ _,
      List.forall_mem_cons.mpr ⟨nullable, others⟩, unknown⟩

theorem Strands.stopsShort (strands : firsts.Strands symbols) : firsts.StopsShort symbols := by
  obtain ⟨front, s, back, split, -, nullable, unknown⟩ := strands
  exact ⟨front, s, back, split, nullable, unknown⟩

theorem stopsShort_cons :
    firsts.StopsShort (s :: symbols) ↔ firsts.get? s = none ∨ firsts.Strands (s :: symbols) := by
  refine ⟨?_, fun stops => stops.elim (fun unknown => ?_) Strands.stopsShort⟩
  · rintro ⟨front, r, back, split, nullable, unknown⟩
    cases front with
    | nil =>
      cases split
      exact Or.inl unknown
    | cons first front =>
      exact Or.inr ⟨first :: front, r, back, split, List.cons_ne_nil _ _, nullable, unknown⟩
  · exact ⟨[], s, symbols, rfl, nofun, unknown⟩

/-- When `ε` is found: if every symbol is nullable; and if the scan stops at a symbol without a set
while `ε` is among the members found so far. -/
theorem epsilon_mem_ofStringFrom :
    Symbol.epsilon ∈ firsts.ofStringFrom found symbols ↔
      (∀ s ∈ symbols, firsts.isNullable s = true) ∨ firsts.Strands symbols ∨
        (Symbol.epsilon ∈ found ∧ firsts.StopsShort symbols) := by
  induction symbols generalizing found with
  | nil => simp [ofStringFrom]
  | cons s rest ih =>
    rw [ofStringFrom, List.forall_mem_cons, stopsShort_cons, strands_cons]
    cases known : firsts.get? s with
    | none => simp [not_isNullable_of_none known]
    | some first =>
      have nullable_iff : firsts.isNullable s = true ↔ Symbol.epsilon ∈ first := by
        simp [isNullable, known, SymbolSet.contains_iff_mem]
      simp only [nullable_iff, SymbolSet.contains_iff_mem]
      split
      -- behind a nullable symbol `ε` is among the members found so far
      · next nullable =>
        have carried : Symbol.epsilon ∈ found.union first :=
          SymbolSet.mem_union.mpr (Or.inr nullable)
        have weaker : firsts.Strands rest → firsts.StopsShort rest := Strands.stopsShort
        rw [ih]
        simp only [nullable, carried, true_and]
        tauto
      · next solid => simp [solid]

/-- The two scans find the same terminals, whether a symbol has a set or not. -/
theorem mem_ofStringFrom_iff_mem_firstOfChain (proper : t ≠ .epsilon)
    (refer : List.Forall₂ Expr.RefersTo parts symbols) :
    t ∈ firsts.ofStringFrom found symbols ↔ t ∈ Expr.firstOfChain firsts found parts := by
  induction refer generalizing found with
  | nil => simp [ofStringFrom, Expr.firstOfChain]
  | @cons part s parts symbols refers _ ih =>
    rw [ofStringFrom, Expr.firstOfChain, refers.first_eq]
    cases known : firsts.get? s with
    | none =>
      have empty : firsts.sets.members s = .empty := by
        rw [OrderedMap.members, ← get?, known]
        rfl
      simp [empty, SymbolSet.contains_iff_mem, proper]
    | some first =>
      have same : firsts.sets.members s = first := by
        rw [OrderedMap.members, ← get?, known]
        rfl
      rw [same]
      dsimp only
      split
      · exact ih
      · rfl

/-- The scan over expressions finds `ε` if every symbol is nullable. -/
theorem epsilon_mem_firstOfChain (refer : List.Forall₂ Expr.RefersTo parts symbols) :
    Symbol.epsilon ∈ Expr.firstOfChain firsts .empty parts ↔
      ∀ s ∈ symbols, firsts.isNullable s = true := by
  induction refer with
  | nil => simp
  | cons refers _ ih =>
    rw [Expr.mem_firstOfChain_cons, refers.first_eq, ← isNullable_iff, List.forall_mem_cons, ih]
    simp

/-- The FIRST set of a string against the nullability of its symbols, and against a chain of
references to them. It has `ε` if every symbol is nullable, and also if a symbol without a set
stands behind nullable ones and nothing else. It is the FIRST set of the chain, but for this `ε`. -/
theorem ofString_nullability (firsts : FirstSets) (symbols : List Symbol) :
    (Symbol.epsilon ∈ firsts.ofString symbols ↔
      (∀ s ∈ symbols, firsts.isNullable s = true) ∨ firsts.Strands symbols) ∧
    ∀ parts, List.Forall₂ Expr.RefersTo parts symbols →
      (¬ firsts.Strands symbols →
        firsts.ofString symbols = (Expr.chain parts).first firsts) ∧
      (firsts.Strands symbols →
        firsts.ofString symbols = ((Expr.chain parts).first firsts).insert .epsilon) := by
  have marked : Symbol.epsilon ∈ firsts.ofString symbols ↔
      (∀ s ∈ symbols, firsts.isNullable s = true) ∨ firsts.Strands symbols := by
    simp [ofString, epsilon_mem_ofStringFrom]
  refine ⟨marked, fun parts refer => ?_⟩
  have terminals : ∀ {t}, t ≠ .epsilon →
      (t ∈ firsts.ofString symbols ↔ t ∈ (Expr.chain parts).first firsts) := fun proper => by
    rw [ofString, Expr.first, mem_ofStringFrom_iff_mem_firstOfChain proper refer]
  have nullable : Symbol.epsilon ∈ (Expr.chain parts).first firsts ↔
      ∀ s ∈ symbols, firsts.isNullable s = true := by
    rw [Expr.first, epsilon_mem_firstOfChain refer]
  constructor
  · intro unstranded
    refine SymbolSet.ext_mem fun t => ?_
    by_cases marker : t = .epsilon
    · rw [marker, marked, nullable]
      exact or_iff_left unstranded
    · exact terminals marker
  · intro strands
    refine SymbolSet.ext_mem fun t => ?_
    rw [SymbolSet.mem_insert]
    by_cases marker : t = .epsilon
    · rw [marker]
      exact iff_of_true (marked.mpr (Or.inr strands)) (Or.inr rfl)
    · rw [terminals marker]
      exact (or_iff_left marker).symm

/-- In the grammar `S := A`, `A := a | ε`, a symbol that the grammar does not have stands behind the
nullable `A`, so that the string has `ε` and the chain does not. -/
theorem ofString_nullability_unknown :
    ∃ grammar, Grammar.ofText "S : A ; A : a | ;" = .ok grammar ∧
      Symbol.epsilon ∈ (compute grammar).ofString [⟨3⟩, ⟨99⟩] ∧
      List.Forall₂ Expr.RefersTo [.nonterminal ⟨3⟩, .terminal ⟨99⟩] [⟨3⟩, ⟨99⟩] ∧
      (compute grammar).ofString [⟨3⟩, ⟨99⟩] =
        ((Expr.chain [.nonterminal ⟨3⟩, .terminal ⟨99⟩]).first (compute grammar)).insert
          .epsilon := by
  obtain ⟨grammar, defined, -, passes⟩ := Grammar.exists_of_ofText "S : A ; A : a | ;"
    (fun grammar => (compute grammar).isNullable ⟨3⟩ && ((compute grammar).get? ⟨99⟩).isNone)
    (by decide +kernel)
  rw [Bool.and_eq_true, Option.isNone_iff_eq_none] at passes
  have strands : (compute grammar).Strands [⟨3⟩, ⟨99⟩] :=
    ⟨[⟨3⟩], ⟨99⟩, [], rfl, by simp, by simpa using passes.1, passes.2⟩
  have refer : List.Forall₂ Expr.RefersTo [.nonterminal ⟨3⟩, .terminal ⟨99⟩] [⟨3⟩, ⟨99⟩] :=
    .cons (.nonterminal _) (.cons (.terminal _) .nil)
  obtain ⟨marked, chains⟩ := ofString_nullability (compute grammar) [⟨3⟩, ⟨99⟩]
  exact ⟨grammar, defined, marked.mpr (Or.inr strands), refer, (chains _ refer).2 strands⟩

/-- The FIRST set of a string may have `ε` without every symbol being nullable, and it may differ
from that of the chain of references. -/
theorem not_ofString_uniform :
    (¬ ∀ (text : String) (grammar : Grammar) (symbols : List Symbol),
      Grammar.ofText text = .ok grammar →
      (Symbol.epsilon ∈ (compute grammar).ofString symbols ↔
        ∀ s ∈ symbols, (compute grammar).isNullable s = true)) ∧
    ¬ ∀ (text : String) (grammar : Grammar) (symbols : List Symbol) (parts : List Expr),
      Grammar.ofText text = .ok grammar → List.Forall₂ Expr.RefersTo parts symbols →
      (compute grammar).ofString symbols = (Expr.chain parts).first (compute grammar) := by
  obtain ⟨grammar, defined, -, passes⟩ := Grammar.exists_of_ofText "S : A ; A : a | ;"
    (fun grammar =>
      decide (Symbol.epsilon ∈ (compute grammar).ofString [⟨3⟩, ⟨99⟩]) &&
        !(compute grammar).isNullable ⟨99⟩)
    (by decide +kernel)
  rw [Bool.and_eq_true, decide_eq_true_eq, Bool.not_eq_true', ← Bool.not_eq_true] at passes
  obtain ⟨marked, solid⟩ := passes
  have solid : ¬ ∀ s ∈ [(⟨3⟩ : Symbol), ⟨99⟩], (compute grammar).isNullable s = true :=
    fun nullable => solid (nullable _ (by simp))
  constructor
  · intro uniform
    exact solid ((uniform _ grammar _ defined).mp marked)
  · intro uniform
    have refer : List.Forall₂ Expr.RefersTo [.nonterminal ⟨3⟩, .terminal ⟨99⟩] [⟨3⟩, ⟨99⟩] :=
      .cons (.nonterminal _) (.cons (.terminal _) .nil)
    rw [uniform _ grammar _ _ defined refer, Expr.first, epsilon_mem_firstOfChain refer] at marked
    exact solid marked

end FirstSets

end Predictive
