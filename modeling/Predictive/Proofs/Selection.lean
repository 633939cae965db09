import Predictive.Proofs.Table

/-!
# What an alternative selects

An alternative selects the terminals of its FIRST set, and, if this set holds `ε`, the FOLLOW set of
its nonterminal too. The table of a grammar is nothing but a record of that: a cell holds the last
alternative that selects its lookahead, the conflicts of the cell are the successive ones, and there
is no conflict at all if the alternatives of each nonterminal select disjoint sets. Alternatives are
told apart by their positions, so an alternative that stands twice is in conflict with itself.

## Main definitions

* `Grammar.Selects` — the lookaheads under which an alternative is written

## Main results

* `getLast?_filter_eq_some_iff` — the last item that passes a test
* `ParseTable.isLL1_ofGrammar_iff` — no conflict, in terms of selected sets
* `ParseTable.isLL1_iff_pairwise_predicts` — no conflict, in terms of derivations
* `ParseTable.ofGrammar_exact` — the table of a grammar and its conflicts are exact
-/

namespace Predictive

/-- The lookahead is in the FIRST set of the alternative, `ε` apart, or the alternative is nullable
and the lookahead is in the FOLLOW set of its nonterminal. -/
def Grammar.Selects (grammar : Grammar) (s : Symbol) (alternative : Alternative) (t : Symbol) :
    Prop :=
  let firsts := FirstSets.compute grammar
  (t ∈ firsts.ofString alternative.symbols ∧ t ≠ .epsilon) ∨
    (Symbol.epsilon ∈ firsts.ofString alternative.symbols ∧
      t ∈ (FollowSets.compute grammar firsts).get s)

instance (grammar : Grammar) (s : Symbol) (alternative : Alternative) (t : Symbol) :
    Decidable (grammar.Selects s alternative t) := inferInstanceAs (Decidable (_ ∨ _))

/-- The last item that passes a test has none behind it that does. -/
theorem getLast?_filter_eq_some_iff {α : Type} {items : List α} {test : α → Bool} {item : α} :
    (items.filter test).getLast? = some item ↔
      ∃ before after, items = before ++ item :: after ∧ test item = true ∧
        ∀ later ∈ after, test later = false := by
  rw [List.getLast?_eq_some_iff]
  constructor
  · rintro ⟨passed, filtered⟩
    obtain ⟨front, back, rfl, -, last⟩ := List.filter_eq_append_iff.mp filtered
    obtain ⟨skipped, after, rfl, -, passes, none⟩ := List.filter_eq_cons_iff.mp last
    refine ⟨front ++ skipped, after, by simp, passes, fun later listed => ?_⟩
    exact Bool.eq_false_iff.mpr (List.filter_eq_nil_iff.mp none later listed)
  · rintro ⟨before, after, rfl, passes, none⟩
    refine ⟨before.filter test, ?_⟩
    have behind : after.filter test = [] :=
      List.filter_eq_nil_iff.mpr fun later listed => by simp [none later listed]
    simp [List.filter_append, passes, behind]

/-- A symmetric relation between the items of a list, in terms of their positions. -/
theorem pairwise_iff_getElem?_of_symm {α : Type} {related : α → α → Prop} {items : List α}
    (symm : ∀ {item other}, related item other → related other item) :
    items.Pairwise related ↔
      ∀ i j : Nat, i ≠ j → ∀ item other, items[i]? = some item → items[j]? = some other →
        related item other := by
  rw [List.pairwise_iff_getElem]
  constructor
  · intro ordered i j differ item other first second
    obtain ⟨insideI, rfl⟩ := List.getElem?_eq_some_iff.mp first
    obtain ⟨insideJ, rfl⟩ := List.getElem?_eq_some_iff.mp second
    rcases Nat.lt_or_gt_of_ne differ with before | after
    · exact ordered i j insideI insideJ before
    · exact symm (ordered j i insideJ insideI after)
  · intro anywhere i j insideI insideJ before
    exact anywhere i j (Nat.ne_of_lt before) _ _ (List.getElem?_eq_getElem insideI)
      (List.getElem?_eq_getElem insideJ)

namespace ParseTable

variable {grammar : Grammar} {s t : Symbol} {alternatives : List Alternative}
  {alternative : Alternative}

/-! ### Cells -/

theorem selecting_ofGrammar (defined : grammar.alternatives? s = some alternatives) (t : Symbol) :
    selecting grammar (FirstSets.compute grammar)
        (FollowSets.compute grammar (FirstSets.compute grammar)) s t =
      alternatives.filter fun alternative => decide (grammar.Selects s alternative t) := by
  rw [selecting, defined, Option.getD_some]
  congr 1
  funext alternative
  exact decide_eq_decide.mpr SymbolSet.mem_followedBy

theorem get?_ofGrammar (defined : grammar.alternatives? s = some alternatives) (t : Symbol) :
    (ofGrammar grammar).get? s t =
      (alternatives.filter fun alternative =>
        decide (grammar.Selects s alternative t)).getLast? := by
  rw [ofGrammar, get?_build, selecting_ofGrammar defined]

theorem overwritten_ofGrammar (defined : grammar.alternatives? s = some alternatives)
    (t : Symbol) :
    (ofGrammar grammar).overwritten s t =
      successive (alternatives.filter fun alternative =>
        decide (grammar.Selects s alternative t)) := by
  rw [ofGrammar, overwritten_build, selecting_ofGrammar defined]

theorem length_successive {α : Type} (entries : List α) :
    (successive entries).length = entries.length - 1 := by
  rw [successive, List.length_zip, List.length_tail]
  omega

/-- Where there is no production, there is nothing in the table. -/
theorem get?_ofGrammar_of_none (undefined : grammar.alternatives? s = none) (t : Symbol) :
    (ofGrammar grammar).get? s t = none ∧ (ofGrammar grammar).overwritten s t = [] := by
  rw [ofGrammar, get?_build, overwritten_build, selecting, undefined]
  exact ⟨rfl, rfl⟩

/-- The empty marker selects nothing, as no FOLLOW set holds it. -/
theorem not_selects_epsilon (wellFormed : grammar.WellFormed) :
    ¬ grammar.Selects s alternative .epsilon := by
  rintro (⟨-, proper⟩ | ⟨-, follows⟩)
  · exact proper rfl
  · have confined := FollowSets.confined_compute (FirstSets.confined_compute grammar)
    have terminal := confined.isTerminal follows
    rw [wellFormed.not_isTerminal_epsilon] at terminal
    cases terminal

theorem get?_ofGrammar_epsilon (wellFormed : grammar.WellFormed) (s : Symbol) :
    (ofGrammar grammar).get? s .epsilon = none := by
  cases defined : grammar.alternatives? s with
  | none => exact (get?_ofGrammar_of_none defined .epsilon).1
  | some alternatives =>
    rw [get?_ofGrammar defined, List.getLast?_eq_none_iff, List.filter_eq_nil_iff]
    intro alternative _ selects
    exact not_selects_epsilon wellFormed (of_decide_eq_true selects)

/-! ### Conflicts -/

/-- There is no conflict if no lookahead selects two alternatives of a production. -/
theorem isLL1_ofGrammar_iff :
    (ofGrammar grammar).isLL1 = true ↔
      ∀ s alternatives, grammar.alternatives? s = some alternatives →
        ∀ t, alternatives.Pairwise fun alternative other =>
          ¬ (grammar.Selects s alternative t ∧ grammar.Selects s other t) := by
  have cell : ∀ {s alternatives}, grammar.alternatives? s = some alternatives → ∀ t,
      ((selecting grammar (FirstSets.compute grammar)
          (FollowSets.compute grammar (FirstSets.compute grammar)) s t).length ≤ 1 ↔
        alternatives.Pairwise fun alternative other =>
          ¬ (grammar.Selects s alternative t ∧ grammar.Selects s other t)) := by
    intro s alternatives defined t
    rw [selecting_ofGrammar defined, length_filter_le_one_iff]
    simp only [decide_eq_true_eq]
  rw [ofGrammar, isLL1_build_iff]
  constructor
  · intro alone s alternatives defined t
    exact (cell defined t).mp (alone s t)
  · intro apart s t
    cases defined : grammar.alternatives? s with
    | none => simp [selecting, defined]
    | some alternatives => exact (cell defined t).mpr (apart s alternatives defined t)

/-- Selection is prediction by derivations. -/
theorem selects_iff_predicts (wellFormed : grammar.WellFormed)
    (rule : grammar.HasRule s alternative) :
    grammar.Selects s alternative t ↔ grammar.Predicts s alternative t := by
  -- what a cell may hold is known both ways, for the alternatives of the production
  have selected := @mem_selecting_iff s t grammar alternative wellFormed
  obtain ⟨alternatives, defined, listed⟩ := rule
  rw [selecting_ofGrammar defined, List.mem_filter, decide_eq_true_eq] at selected
  constructor
  · intro selects
    exact (selected.mp ⟨listed, selects⟩).2
  · intro predicts
    exact (selected.mpr ⟨⟨alternatives, defined, listed⟩, predicts⟩).2

/-- There is no conflict if no terminal predicts two alternatives of a production. -/
theorem isLL1_iff_pairwise_predicts (wellFormed : grammar.WellFormed) :
    (ofGrammar grammar).isLL1 = true ↔
      ∀ s alternatives, grammar.alternatives? s = some alternatives →
        ∀ t, alternatives.Pairwise fun alternative other =>
          ¬ (grammar.Predicts s alternative t ∧ grammar.Predicts s other t) := by
  rw [isLL1_ofGrammar_iff]
  apply forall₄_congr
  intro s alternatives defined t
  apply List.Pairwise.iff_of_mem
  intro alternative other listed listed'
  rw [selects_iff_predicts wellFormed ⟨alternatives, defined, listed⟩,
    selects_iff_predicts wellFormed ⟨alternatives, defined, listed'⟩]

/-- The table of a well-formed grammar and its conflicts are exact. The cell of a nonterminal and a
lookahead holds the last alternative that selects the lookahead, and nothing if none does; its
conflicts, in order, are the successive alternatives that select it, one less than there are of
them. Other symbols have no cells, and no cell is for `ε`. There is no conflict if two alternatives
of one nonterminal, at different positions, always select disjoint sets. -/
theorem ofGrammar_exact (wellFormed : grammar.WellFormed) :
    (∀ A alternatives, grammar.alternatives? A = some alternatives → ∀ t,
      (∀ alternative, (ofGrammar grammar).get? A t = some alternative ↔
        ∃ before after, alternatives = before ++ alternative :: after ∧
          grammar.Selects A alternative t ∧ ∀ later ∈ after, ¬ grammar.Selects A later t) ∧
      ((ofGrammar grammar).get? A t = none ↔
        ∀ alternative ∈ alternatives, ¬ grammar.Selects A alternative t) ∧
      (ofGrammar grammar).overwritten A t =
        successive (alternatives.filter fun alternative =>
          decide (grammar.Selects A alternative t)) ∧
      ((ofGrammar grammar).overwritten A t).length =
        alternatives.countP (fun alternative => decide (grammar.Selects A alternative t)) - 1) ∧
    (∀ s, grammar.alternatives? s = none → ∀ t,
      (ofGrammar grammar).get? s t = none ∧ (ofGrammar grammar).overwritten s t = []) ∧
    (∀ s, (ofGrammar grammar).get? s .epsilon = none ∧
      Symbol.epsilon ∉ (ofGrammar grammar).lookaheads s) ∧
    ((ofGrammar grammar).isLL1 = true ↔
      ∀ A alternatives, grammar.alternatives? A = some alternatives →
        ∀ i j : Nat, i ≠ j → ∀ alternative other,
          alternatives[i]? = some alternative → alternatives[j]? = some other →
            ∀ t, ¬ (grammar.Selects A alternative t ∧ grammar.Selects A other t)) := by
  refine ⟨fun A alternatives defined t => ⟨fun alternative => ?_, ?_, ?_, ?_⟩,
    fun s undefined t => get?_ofGrammar_of_none undefined t, fun s => ?_, ?_⟩
  · rw [get?_ofGrammar defined, getLast?_filter_eq_some_iff]
    simp only [decide_eq_true_eq, decide_eq_false_iff_not]
  · rw [get?_ofGrammar defined, List.getLast?_eq_none_iff, List.filter_eq_nil_iff]
    simp only [decide_eq_true_eq]
  · exact overwritten_ofGrammar defined t
  · rw [overwritten_ofGrammar defined, length_successive, List.countP_eq_length_filter]
  · have none := get?_ofGrammar_epsilon wellFormed s
    rw [mem_lookaheads, none]
    exact ⟨rfl, Bool.false_ne_true⟩
  · rw [isLL1_ofGrammar_iff]
    apply forall₃_congr
    intro A alternatives defined
    -- a pair of alternatives that excludes each other does so in either order
    have positions : ∀ t, (alternatives.Pairwise fun alternative other =>
        ¬ (grammar.Selects A alternative t ∧ grammar.Selects A other t)) ↔ _ := fun t =>
      pairwise_iff_getElem?_of_symm fun apart both => apart both.symm
    simp only [positions]
    constructor
    · intro apart i j differ alternative other first second t
      exact apart t i j differ alternative other first second
    · intro apart t i j differ alternative other first second
      exact apart i j differ alternative other first second t

/-- The lookahead `b` selects three alternatives of `S`, of which the first and the last are equal.
It selects the one alternative of `D` in two ways, which is no conflict. -/
theorem ofGrammar_exact_overlapping :
    ∃ grammar, Grammar.ofText "S : D b | b | D b ; D : B ; B : b | ;" = .ok grammar ∧
      ∃ alternatives b, grammar.alternatives? grammar.start = some alternatives ∧
        alternatives.length = 3 ∧ alternatives[0]? = alternatives[2]? ∧
        (ofGrammar grammar).get? grammar.start b = alternatives[2]? ∧
        ((ofGrammar grammar).overwritten grammar.start b).length = 2 ∧
        (ofGrammar grammar).isLL1 = false ∧
        (∃ alternative, grammar.alternatives? ⟨3⟩ = some [alternative] ∧
          grammar.Selects ⟨3⟩ alternative b) ∧
        (ofGrammar grammar).overwritten ⟨3⟩ b = [] := by
  obtain ⟨grammar, defined, wellFormed, checked⟩ := Grammar.exists_of_ofText
    "S : D b | b | D b ; D : B ; B : b | ;"
    (fun grammar =>
      decide (grammar.alternatives? grammar.start = some [.ofSymbols [⟨3⟩, ⟨5⟩], .ofSymbols [⟨5⟩],
        .ofSymbols [⟨3⟩, ⟨5⟩]]) &&
      decide (grammar.alternatives? ⟨3⟩ = some [.ofSymbols [⟨4⟩]]) &&
      decide (grammar.Selects grammar.start (.ofSymbols [⟨3⟩, ⟨5⟩]) ⟨5⟩) &&
      decide (grammar.Selects grammar.start (.ofSymbols [⟨5⟩]) ⟨5⟩) &&
      decide (grammar.Selects ⟨3⟩ (.ofSymbols [⟨4⟩]) ⟨5⟩)) (by decide +kernel)
  simp only [Bool.and_eq_true, decide_eq_true_eq] at checked
  obtain ⟨⟨⟨⟨sums, bodies⟩, longer⟩, shorter⟩, single⟩ := checked
  obtain ⟨cells, -, -, free⟩ := ofGrammar_exact wellFormed
  obtain ⟨last, -, -, count⟩ := cells grammar.start _ sums ⟨5⟩
  obtain ⟨-, -, -, none⟩ := cells ⟨3⟩ _ bodies ⟨5⟩
  refine ⟨grammar, defined, _, ⟨5⟩, sums, rfl, rfl, ?_, ?_, ?_, ⟨_, bodies, single⟩, ?_⟩
  · exact (last _).mpr ⟨[.ofSymbols [⟨3⟩, ⟨5⟩], .ofSymbols [⟨5⟩]], [], rfl, longer, by simp⟩
  · simpa [longer, shorter] using count
  · refine Bool.eq_false_iff.mpr fun deterministic => ?_
    exact free.mp deterministic grammar.start _ sums 0 2 (by decide) _ _ rfl rfl ⟨5⟩
      ⟨longer, longer⟩
  · exact List.length_eq_zero_iff.mp (by simpa [single] using none)

end ParseTable

end Predictive
