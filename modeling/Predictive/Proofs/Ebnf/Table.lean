import Predictive.Proofs.Ebnf.Follow
import Predictive.Proofs.Table

/-!
# Tables of EBNF grammars

The table of an EBNF grammar offers one entry for each nonterminal, its whole expression, so that no
cell is ever written twice. The lookaheads of a nonterminal are what can begin its expression, or
follow it if the expression is nullable. Since the FIRST and FOLLOW sets of an EBNF grammar agree
with those of the lowered grammar, so do the lookaheads.

## Main results

* `ParseTable.entries_buildEbnf`, `ParseTable.isLL1_buildEbnf` — cells are written at most once
* `EbnfGrammar.LaysOut.lookaheads_eq` — the two tables have the same lookaheads
* `EbnfGrammar.toGrammar_preserves_analyses` — lowering preserves FIRST sets, FOLLOW sets and
  lookaheads
-/

namespace Predictive

namespace ParseTable

variable {source : EbnfGrammar} {firsts : FirstSets} {follows : FollowSets} {s t : Symbol}

/-- The writes that fill the table of an EBNF grammar. -/
def selectionsEbnf (source : EbnfGrammar) (firsts : FirstSets) (follows : FollowSets) :
    List (Selection Expr) :=
  source.productions.entries.flatMap fun production =>
    ((production.2.first firsts).followedBy (follows.get production.1)).toList.map fun t =>
      ⟨production.1, t, production.2⟩

theorem buildEbnf_eq_writeAll : buildEbnf source firsts follows =
    (initial source.nonterminals).writeAll (selectionsEbnf source firsts follows) := by
  simp only [buildEbnf, fill, writeAll, selectionsEbnf, List.foldl_flatMap, List.foldl_map]

/-- The only entry that a cell can have is the expression of its nonterminal. -/
theorem entries_buildEbnf :
    Selection.entries (selectionsEbnf source firsts follows) s t =
      ((source.expression? s).map fun expr =>
        [expr].filter fun expr =>
          decide (t ∈ (expr.first firsts).followedBy (follows.get s))).getD [] := by
  have collected := @entries_options Expr s t _ source.productions (fun expr => [expr])
    fun s expr => (expr.first firsts).followedBy (follows.get s)
  rw [EbnfGrammar.expression?, ← collected, selectionsEbnf, List.flatMap_assoc]
  simp only [List.map_cons, List.map_nil, List.flatMap_singleton]

/-- No cell of the table of an EBNF grammar is written twice. -/
theorem isLL1_buildEbnf : (buildEbnf source firsts follows).isLL1 = true := by
  rw [buildEbnf_eq_writeAll, isLL1_writeAll_iff]
  intro s t
  rw [entries_buildEbnf]
  cases source.expression? s with
  | none => exact Nat.zero_le 1
  | some expr =>
    rw [Option.map_some, Option.getD_some]
    exact List.length_filter_le _ [expr]

/-- The lookaheads of a nonterminal select its expression. -/
theorem mem_lookaheads_buildEbnf {expr : Expr} (found : source.expression? s = some expr) :
    t ∈ (buildEbnf source firsts follows).lookaheads s ↔
      t ∈ (expr.first firsts).followedBy (follows.get s) := by
  rw [mem_lookaheads, buildEbnf_eq_writeAll, get?_writeAll, entries_buildEbnf, get?_initial, found]
  by_cases member : t ∈ (expr.first firsts).followedBy (follows.get s)
  · simp [member]
  · simp [member]

/-- The lookaheads of a nonterminal with one alternative select the alternative. -/
theorem mem_lookaheads_build {grammar : Grammar} {alternative : Alternative}
    (found : grammar.alternatives? s = some [alternative]) :
    t ∈ (build grammar firsts follows).lookaheads s ↔
      t ∈ (firsts.ofString alternative.symbols).followedBy (follows.get s) := by
  rw [mem_lookaheads, get?_build, selecting, found]
  by_cases member : t ∈ (firsts.ofString alternative.symbols).followedBy (follows.get s)
  · simp [member]
  · simp [member]

end ParseTable

namespace EbnfGrammar

variable {source : EbnfGrammar} {grammar : Grammar} {s : Symbol}

/-- The two tables have the same lookaheads for declared nonterminals. -/
theorem LaysOut.lookaheads_eq (wellFormed : source.WellFormed) (laysOut : source.LaysOut grammar)
    (nonterminal : source.isNonterminal s = true) :
    (ParseTable.buildEbnf source (.computeEbnf source)
        (.computeEbnf source (.computeEbnf source))).lookaheads s =
      (ParseTable.build grammar (.compute grammar)
        (.compute grammar (.compute grammar))).lookaheads s := by
  have lowered := laysOut.loweredTo wellFormed
  obtain ⟨expr, found⟩ := exists_expression? nonterminal
  obtain ⟨root, defined, stands⟩ := lowered.roots found
  refine SymbolSet.ext_mem fun t => ?_
  rw [ParseTable.mem_lookaheads_buildEbnf found, ParseTable.mem_lookaheads_build defined,
    Alternative.symbols_ofSymbols (lowered.ne_epsilon wellFormed stands),
    ← laysOut.firstOfChain_eq wellFormed stands, Expr.firstOfChain_singleton, FollowSets.get,
    FollowSets.get, laysOut.get?_follows wellFormed nonterminal]

/-- Lowering preserves the analyses. If the names that it introduces differ from each other and
from every declared name, it fails only for want of room for them. Otherwise the FIRST set, the
FOLLOW set and the lookaheads of every declared nonterminal are the same, whether they are computed
from the expressions or from the lowered grammar. -/
theorem toGrammar_preserves_analyses (wellFormed : source.WellFormed)
    (nodup : source.syntheticNames.Nodup)
    (distinct : ∀ name ∈ source.syntheticNames, ∀ s,
      s ∈ source.terminals.items ∨ source.isNonterminal s = true →
        source.names.name? s ≠ some name) :
    (source.toGrammar = .error .tooManySymbols ∧
        NameTable.capacity < source.names.size + source.syntheticNames.length) ∨
      ∃ grammar, source.toGrammar = .ok grammar ∧
        ∀ A, source.isNonterminal A = true →
          (FirstSets.computeEbnf source).get? A = (FirstSets.compute grammar).get? A ∧
          (FollowSets.computeEbnf source (.computeEbnf source)).get? A =
            (FollowSets.compute grammar (.compute grammar)).get? A ∧
          (ParseTable.buildEbnf source (.computeEbnf source)
              (.computeEbnf source (.computeEbnf source))).lookaheads A =
            (ParseTable.build grammar (.compute grammar)
              (.compute grammar (.compute grammar))).lookaheads A := by
  rcases fits_laysOut wellFormed (wellFormed.fresh distinct) nodup with
    full | ⟨grammar, passed, laysOut⟩
  · exact Or.inl full
  · refine Or.inr ⟨grammar, passed, fun A nonterminal => ⟨?_, ?_, ?_⟩⟩
    · exact laysOut.get?_firsts wellFormed nonterminal
    · exact laysOut.get?_follows wellFormed nonterminal
    · exact laysOut.lookaheads_eq wellFormed nonterminal

/-- The productions `S := (a | b S?)+ T` and `T := c*`: in both ways of computing it, `T` is
selected by `c`, which it begins with, and by what follows `S`. -/
theorem toGrammar_preserves_analyses_nullable :
    ∃ source : EbnfGrammar, source.WellFormed ∧
      ∃ grammar, source.toGrammar = .ok grammar ∧
        (FirstSets.computeEbnf source).get? ⟨6⟩ = (FirstSets.compute grammar).get? ⟨6⟩ ∧
        (FollowSets.computeEbnf source (.computeEbnf source)).get? ⟨6⟩ =
          (FollowSets.compute grammar (.compute grammar)).get? ⟨6⟩ ∧
        ((ParseTable.build grammar (.compute grammar)
          (.compute grammar (.compute grammar))).lookaheads ⟨6⟩).toList =
            [.eof, ⟨2⟩, ⟨3⟩, ⟨4⟩] := by
  let repeated : Expr := .oneOrMore (.choice [.terminal ⟨2⟩,
    .chain [.terminal ⟨3⟩, .optional (.nonterminal ⟨5⟩)]])
  obtain ⟨source, -, wellFormed, passes⟩ := EbnfDefinition.exists_of_ofSteps
    [.terminal "a", .terminal "b", .terminal "c", .nonterminal "S", .nonterminal "T",
      .rule ⟨5⟩ (.chain [repeated, .nonterminal ⟨6⟩]), .rule ⟨6⟩ (.zeroOrMore (.terminal ⟨4⟩))]
    (fun source => source.distinctNames && source.toGrammar.toBool && source.isNonterminal ⟨6⟩ &&
      decide (((ParseTable.buildEbnf source (.computeEbnf source)
        (.computeEbnf source (.computeEbnf source))).lookaheads ⟨6⟩).toList =
          [.eof, ⟨2⟩, ⟨3⟩, ⟨4⟩])) (by decide +kernel)
  simp only [Bool.and_eq_true, decide_eq_true_eq, distinctNames_iff] at passes
  obtain ⟨⟨⟨⟨nodup, distinct⟩, room⟩, nonterminal⟩, lookaheads⟩ := passes
  rcases toGrammar_preserves_analyses wellFormed nodup distinct with
    ⟨failed, -⟩ | ⟨grammar, passed, agree⟩
  · rw [failed] at room
    cases room
  · obtain ⟨firsts, follows, same⟩ := agree ⟨6⟩ nonterminal
    exact ⟨source, wellFormed, grammar, passed, firsts, follows, same ▸ lookaheads⟩

end EbnfGrammar

end Predictive
