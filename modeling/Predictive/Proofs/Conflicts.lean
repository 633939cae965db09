import Mathlib.Algebra.BigOperators.Group.List.Lemmas
import Predictive.Proofs.LeftFactor.Ending
import Predictive.Proofs.Printing

/-!
# Counting conflicts

A cell is contested if two alternatives or more claim it. The table of a grammar keeps a conflict
for each time that a cell is written again, which is one less than the number of its claims. So the
number of conflicts is that of contested cells as long as no cell has three claims, and it is
greater if one has. The warning of the command line counts conflicts, and calls them cells.

## Main definitions

* `Grammar.claims` — the number of alternatives that claim a cell
* `Grammar.contested` — the cells with two claims or more
* `Command.warnOfCells` — the warning about a number of cells

## Main results

* `ParseTable.length_conflicts` — the number of conflicts
* `Command.perform_analyze_warns` — what the warning of the command line counts
-/

namespace Predictive

/-- Numbers that are not zero add up to at least their number, and to no more if all are one. -/
theorem sum_map_eq_length_iff {α : Type} {items : List α} {weight : α → Nat}
    (positive : ∀ item ∈ items, 1 ≤ weight item) :
    items.length ≤ (items.map weight).sum ∧
      ((items.map weight).sum = items.length ↔ ∀ item ∈ items, weight item = 1) := by
  induction items with
  | nil => simp
  | cons item rest ih =>
    rw [List.forall_mem_cons] at positive
    obtain ⟨atLeast, exact_iff⟩ := ih positive.2
    rw [List.map_cons, List.sum_cons, List.length_cons, List.forall_mem_cons, ← exact_iff]
    omega

namespace Grammar

variable {grammar : Grammar} {s t : Symbol} {alternatives : List Alternative}

/-- The number of alternatives that claim a cell: those of its nonterminal, by position, that its
lookahead selects. -/
def claims (grammar : Grammar) (s t : Symbol) : Nat :=
  ((grammar.alternatives? s).getD []).countP fun alternative =>
    decide (grammar.Selects s alternative t)

/-- The cells that two alternatives or more claim. -/
def contested (grammar : Grammar) : List (Symbol × Symbol) :=
  (grammar.nonterminals ×ˢ (Symbol.eof :: grammar.terminals.items)).filter fun cell =>
    decide (2 ≤ grammar.claims cell.1 cell.2)

/-- The symbols of a cell that an alternative claims. -/
theorem WellFormed.cell_of_claims (wellFormed : grammar.WellFormed)
    (claimed : 0 < grammar.claims s t) :
    grammar.isNonterminal s = true ∧ grammar.isTerminal t = true := by
  obtain ⟨alternative, listed, selects⟩ := List.countP_pos_iff.mp claimed
  rw [decide_eq_true_eq] at selects
  cases defined : grammar.alternatives? s with
  | none => simp [defined] at listed
  | some alternatives =>
    rw [defined, Option.getD_some] at listed
    have rule : grammar.HasRule s alternative := ⟨alternatives, defined, listed⟩
    exact ⟨isNonterminal_of_alternatives? defined,
      ((ParseTable.selects_iff_predicts wellFormed rule).mp selects).1⟩

theorem WellFormed.mem_contested (wellFormed : grammar.WellFormed) :
    (s, t) ∈ grammar.contested ↔ 2 ≤ grammar.claims s t := by
  rw [contested, List.mem_filter, decide_eq_true_eq]
  refine and_iff_right_of_imp fun twice => ?_
  obtain ⟨nonterminal, terminal⟩ := wellFormed.cell_of_claims
    (Nat.lt_of_lt_of_le Nat.zero_lt_two twice)
  exact List.pair_mem_product.mpr
    ⟨isNonterminal_iff.mp nonterminal, List.mem_cons.mpr (isTerminal_iff.mp terminal)⟩

/-- No contested cell is listed twice. -/
theorem WellFormed.nodup_contested (wellFormed : grammar.WellFormed) :
    grammar.contested.Nodup := by
  have undeclared : Symbol.eof ∉ grammar.terminals.items := fun listed =>
    absurd (wellFormed.terminal_unreserved listed) (by decide)
  exact (grammar.productions.nodup.product
    (List.nodup_cons.mpr ⟨undeclared, grammar.terminals.nodup⟩)).filter _

end Grammar

namespace ParseTable

variable {grammar : Grammar} {s t : Symbol}

/-- A cell has one conflict less than claims. -/
theorem length_overwritten :
    ((ofGrammar grammar).overwritten s t).length = grammar.claims s t - 1 := by
  rw [Grammar.claims]
  cases defined : grammar.alternatives? s with
  | none => rw [(get?_ofGrammar_of_none defined t).2]; rfl
  | some alternatives =>
    rw [overwritten_ofGrammar defined, length_successive, Option.getD_some,
      List.countP_eq_length_filter]

/-- The cells of the conflicts of a table, in order. -/
def conflictCells (table : ParseTable Alternative) : List (Symbol × Symbol) :=
  table.conflicts.map fun conflict => (conflict.nonterminal, conflict.terminal)

theorem countP_conflictCells (cell : Symbol × Symbol) :
    (ofGrammar grammar).conflictCells.countP (fun other => decide (other = cell)) =
      grammar.claims cell.1 cell.2 - 1 := by
  rw [← length_overwritten, overwritten, List.length_map, conflictCells, List.countP_map,
    List.countP_eq_length_filter]
  congr 2
  funext conflict
  simp [Prod.ext_iff]

theorem mem_conflictCells :
    (s, t) ∈ (ofGrammar grammar).conflictCells ↔ 0 < grammar.claims s t - 1 := by
  have counted := @countP_conflictCells grammar (s, t)
  rw [← counted, List.countP_pos_iff]
  simp

/-- The conflicts of the table of a grammar, cell by cell. -/
theorem length_conflicts (wellFormed : grammar.WellFormed) :
    (ofGrammar grammar).conflicts.length =
      (grammar.contested.map fun cell => grammar.claims cell.1 cell.2 - 1).sum := by
  -- the cells of the conflicts are the contested ones
  have cells : (ofGrammar grammar).conflictCells.dedup.Perm grammar.contested := by
    rw [List.perm_ext_iff_of_nodup (List.nodup_dedup _) wellFormed.nodup_contested]
    rintro ⟨s, t⟩
    rw [List.mem_dedup, mem_conflictCells, wellFormed.mem_contested]
    omega
  calc
    _ = (ofGrammar grammar).conflictCells.length := List.length_map _ |>.symm
    _ = ((ofGrammar grammar).conflictCells.dedup.map fun cell =>
          (ofGrammar grammar).conflictCells.countP fun other => decide (other = cell)).sum :=
      (List.sum_map_count_dedup_eq_length _).symm
    _ = ((ofGrammar grammar).conflictCells.dedup.map
          fun cell => grammar.claims cell.1 cell.2 - 1).sum := by
      congr 1
      exact List.map_congr_left fun cell _ => countP_conflictCells cell
    _ = _ := (cells.map _).sum_eq

end ParseTable

namespace Command

variable {read : String → Except ReadError String} {path : String} {leftFactor : Bool}
  {grammar : Grammar}

/-- The warning that a grammar is not LL(1), with a number of cells. -/
def warnOfCells (n : Nat) : String :=
  if n = 0 then ""
  else
    "[warning] The grammar is not LL(1): " ++ toString n ++ " conflicting cell" ++
      (if n = 1 then "" else "s") ++ ".\n"

theorem renderSummary_eq (table : ParseTable Alternative) :
    renderSummary table = warnOfCells table.conflicts.length := rfl

/-- A grammar that is loaded is well formed, also if it was left-factored. -/
theorem wellFormed_of_loadGrammar (loaded : loadGrammar read path leftFactor = .ok grammar) :
    grammar.WellFormed := by
  unfold loadGrammar at loaded
  dsimp only at loaded
  split at loaded
  · next given defined =>
    have wellFormed : given.WellFormed := by
      split at defined
      · exact Grammar.wellFormed_of_ofText defined
      · cases defined
    cases leftFactor with
    | false =>
      cases loaded
      exact wellFormed
    | true =>
      rcases Grammar.runs_leftFactor wellFormed with
        ⟨failed, -⟩ | ⟨⟨factored, changed⟩, ended, run⟩
      · rw [failed] at loaded
        cases loaded
      · rw [ended] at loaded
        cases loaded
        exact ((Factoring.sound_initial wellFormed).run run).wellFormed
  · cases loaded
  · cases loaded

/-- A grammar that is loaded is printed with its analyses, and the warning comes last. -/
theorem exists_perform_analyze (loaded : loadGrammar read path leftFactor = .ok grammar) :
    ∃ body, perform read (.analyze path leftFactor) = .ok (some
      ⟨0, body ++ warnOfCells (ParseTable.ofGrammar grammar).conflicts.length, ""⟩) := by
  obtain ⟨body, printed⟩ := (wellFormed_of_loadGrammar loaded).exists_renderAnalysis
  rw [renderSummary_eq] at printed
  refine ⟨body, ?_⟩
  rw [perform, loaded]
  simp only [bind, Except.bind, printed, orStop]
  rfl

/-- Every grammar that is loaded, with or without left factoring, is printed with its analyses, and
the warning comes last. The number in it is that of the conflicts, which for each contested cell is
one less than the number of its claims. It is not less than the number of contested cells, and it is
this number if no cell has three claims or more, and only then. -/
theorem perform_analyze_warns (loaded : loadGrammar read path leftFactor = .ok grammar) :
    ∃ body n, perform read (.analyze path leftFactor) =
        .ok (some ⟨0, body ++ warnOfCells n, ""⟩) ∧
      n = (grammar.contested.map fun cell => grammar.claims cell.1 cell.2 - 1).sum ∧
      (∀ s t, (s, t) ∈ grammar.contested ↔ 2 ≤ grammar.claims s t) ∧ grammar.contested.Nodup ∧
      grammar.contested.length ≤ n ∧
      (n = grammar.contested.length ↔ ∀ s t, grammar.claims s t ≤ 2) := by
  have wellFormed := wellFormed_of_loadGrammar loaded
  obtain ⟨body, printed⟩ := exists_perform_analyze loaded
  rw [ParseTable.length_conflicts wellFormed] at printed
  -- each contested cell has a conflict, so that cells are never counted short
  have positive : ∀ cell ∈ grammar.contested, 1 ≤ grammar.claims cell.1 cell.2 - 1 := by
    intro cell listed
    have twice := wellFormed.mem_contested.mp listed
    omega
  obtain ⟨atLeast, exact_iff⟩ := sum_map_eq_length_iff positive
  refine ⟨body, _, printed, rfl, fun s t => wellFormed.mem_contested, wellFormed.nodup_contested,
    atLeast, exact_iff.trans ⟨fun single s t => ?_, fun few cell listed => ?_⟩⟩
  · by_contra more
    have one := single (s, t) (wellFormed.mem_contested.mpr (by omega))
    dsimp only at one
    omega
  · have twice := positive cell listed
    have atMost := few cell.1 cell.2
    omega

/-- Left factoring makes `S : a F | b` and `F : | |` of the productions `S : a | a | a | b`. The end
of input selects all three alternatives of the new nonterminal, and the warning counts two. -/
theorem perform_analyze_warns_factored :
    ∃ factored, loadGrammar (fun _ => .ok "S : a | a | a | b ;") "g" true = .ok factored ∧
      factored.contested = [(⟨5⟩, .eof)] ∧ factored.claims ⟨5⟩ .eof = 3 ∧
      ∃ body, perform (fun _ => .ok "S : a | a | a | b ;") (.analyze "g" true) =
        .ok (some ⟨0, body ++ warnOfCells 2, ""⟩) := by
  obtain ⟨grammar, defined, -, passes⟩ := Grammar.exists_of_ofText "S : a | a | a | b ;"
    (fun grammar => grammar.leftFactor.toOption.any fun result : Grammar × Bool =>
      decide (result.1.contested = [(⟨5⟩, .eof)] ∧ result.1.claims ⟨5⟩ .eof = 3))
    (by decide +kernel)
  obtain ⟨⟨factored, changed⟩, ended, checked⟩ := (Option.any_eq_true _ _).mp passes
  rw [toOption_eq_some_iff] at ended
  obtain ⟨cells, three⟩ := of_decide_eq_true checked
  have loaded : loadGrammar (fun _ => .ok "S : a | a | a | b ;") "g" true = .ok factored := by
    simp only [loadGrammar, defined, ended]
    rfl
  obtain ⟨body, n, printed, rfl, -⟩ := perform_analyze_warns loaded
  simp only [cells, List.map_cons, List.map_nil, List.sum_cons, List.sum_nil, three] at printed
  exact ⟨factored, loaded, cells, three, body, printed⟩

/-- A text that ends with one warning does not end with the other. -/
theorem append_warnOfCells_ne (body other : String) :
    body ++ warnOfCells 2 ≠ other ++ warnOfCells 1 := by
  intro same
  have letters := congrArg String.toList same
  rw [String.toList_append, String.toList_append] at letters
  have plural : (warnOfCells 2).toList <:+ body.toList ++ (warnOfCells 2).toList :=
    List.suffix_append _ _
  have singular : (warnOfCells 1).toList <:+ body.toList ++ (warnOfCells 2).toList :=
    letters ▸ List.suffix_append _ _
  -- one of the warnings would end with the other, and their last words differ
  rcases List.suffix_or_suffix_of_suffix plural singular with ends | ends
  · revert ends
    decide +kernel
  · revert ends
    decide +kernel

/-- The number in the warning is not always that of the contested cells: the productions
`S : a | a | a` claim one cell three times. -/
theorem not_analyze_counts_cells :
    ¬ ∀ read path leftFactor grammar, loadGrammar read path leftFactor = .ok grammar →
      ∃ body, perform read (.analyze path leftFactor) =
        .ok (some ⟨0, body ++ warnOfCells grammar.contested.length, ""⟩) := by
  intro counts
  obtain ⟨grammar, defined, -, passes⟩ := Grammar.exists_of_ofText "S : a | a | a ;"
    (fun grammar => decide (grammar.contested.length = 1 ∧
      (ParseTable.ofGrammar grammar).conflicts.length = 2)) (by decide +kernel)
  rw [decide_eq_true_eq] at passes
  have loaded : loadGrammar (fun _ => .ok "S : a | a | a ;") "g" false = .ok grammar := by
    simp only [loadGrammar, defined]
    rfl
  obtain ⟨other, counted⟩ := counts _ _ _ _ loaded
  obtain ⟨body, printed⟩ := exists_perform_analyze loaded
  rw [printed, passes.1, passes.2] at counted
  simp only [Except.ok.injEq, Option.some.injEq, Report.mk.injEq, true_and, and_true] at counted
  exact append_warnOfCells_ne body other counted

end Command

end Predictive
