import Predictive.Proofs.Ambiguity
import Predictive.Proofs.Parse.Completion

/-!
# What a failed parse expected

A failed parse tells the terminals that it expected. They are cleared when a token is matched, and
grow by a whole row of the table for each nonterminal that is expanded, also where the lookahead is
wrong and the expansion is of no use. For a grammar without conflicts none is missing that could
have come instead of the lookahead. A terminal that can come next begins what the waiting symbols
derive, until a row takes it in: the row of a nonterminal has every terminal that an alternative of
it predicts, and a wrong expansion loses only terminals that are in the row. The lookahead itself is
never lost, if it can come next, as its expansions are the right ones.

## Main definitions

* `Grammar.Continues` — a terminal that can come after what was matched
* `Machine.form` — the waiting symbols, and the end of input
* `Machine.Covers` — every continuation is expected, or it begins what is waiting

## Main results

* `Machine.Covers.of_moves` — one move
* `Machine.Covers.of_stops` — a failure expects every continuation
* `Grammar.parse_expected_complete` — no continuation is missing in the result of a parse
-/

namespace Predictive

namespace Grammar

variable {grammar : Grammar} {front form rest : List Symbol} {s t : Symbol}

/-- A symbol can come next, in a string derived from the start symbol and the end of input. -/
def Continues (grammar : Grammar) (front : List Symbol) (t : Symbol) : Prop :=
  ∃ rest, grammar.Derives [grammar.start, .eof] (front ++ t :: rest)

/-- A nonterminal in front of what a terminal begins is expanded by an alternative that predicts
the terminal. -/
theorem exists_predicts
    (reached : grammar.Derives [grammar.start, .eof] (front ++ s :: form))
    (nonterminal : grammar.isTerminal s = false) (terminal : grammar.isTerminal t = true)
    (begins : grammar.Derives (s :: form) (t :: rest)) :
    ∃ alternative, grammar.HasRule s alternative ∧ grammar.Predicts s alternative t ∧
      grammar.Derives (alternative.symbols ++ form) (t :: rest) := by
  rcases derives_cons_iff.mp begins with
    ⟨_, same, -⟩ | ⟨alternative, first, second, rule, split, inner, later⟩
  · rw [(List.cons.inj same).1, nonterminal] at terminal
    cases terminal
  · refine ⟨alternative, rule, predicts_of_ahead terminal inner reached later split.symm, ?_⟩
    rw [split]
    exact inner.append later

end Grammar

namespace Machine

variable {grammar : Grammar} {strict : Bool} {machine next : Machine} {result : ParseResult}
  {input : Input} {t : Symbol} {rest : List Symbol}

/-- The waiting symbols, and the end of input behind them. -/
def form (machine : Machine) : List Symbol := machine.waiting.map Pending.symbol ++ [.eof]

/-- A continuation of what was matched is expected already, or it begins what the waiting symbols
derive. If it is the lookahead, it begins what they derive in any case. -/
structure Covers (grammar : Grammar) (machine : Machine) : Prop where
  /-- What was matched comes before the waiting symbols in a derivation. -/
  reached : grammar.Derives [grammar.start, .eof] (machine.shifted.map Prod.fst ++ machine.form)
  /-- The lookahead begins what is waiting, if it can come next. -/
  ahead : ∀ {t rest}, grammar.ahead? machine.input = some t →
    grammar.Derives [grammar.start, .eof] (machine.shifted.map Prod.fst ++ t :: rest) →
    grammar.Derives machine.form (t :: rest)
  /-- Any other terminal may be expected instead. -/
  expected : ∀ {t rest}, grammar.isTerminal t = true →
    grammar.Derives [grammar.start, .eof] (machine.shifted.map Prod.fst ++ t :: rest) →
    t ∈ machine.expected ∨ grammar.Derives machine.form (t :: rest)

theorem covers_initial (grammar : Grammar) (input : Input) :
    Covers grammar (initial grammar.start input) where
  reached := .refl _
  ahead := fun _ derives => derives
  expected := fun _ derives => Or.inr derives

/-- After a match, all that was expected is forgotten: the token that was matched was the lookahead,
so that what can come after it is derived from what is waiting behind it. -/
theorem Covers.shift (wellFormed : grammar.WellFormed) (covers : Covers grammar machine)
    {node : Pending} {others : List Pending} {name : String} {token : Token}
    (waiting : machine.waiting = node :: others)
    (read : grammar.lookahead machine.input = .ok (name, some node.symbol, some token)) :
    Covers grammar (machine.shift node others token) := by
  have terminal := Grammar.isTerminal_of_lookahead read
  have form_eq : machine.form = node.symbol :: (machine.shift node others token).form := by
    rw [form, waiting]
    rfl
  have shifted_eq : ∀ behind, (machine.shift node others token).shifted.map Prod.fst ++ behind =
      machine.shifted.map Prod.fst ++ node.symbol :: behind := by
    intro behind
    rw [shifted_shift, List.map_append, List.append_assoc]
    rfl
  have later : ∀ {t rest},
      grammar.Derives [grammar.start, .eof]
        ((machine.shift node others token).shifted.map Prod.fst ++ t :: rest) →
      grammar.Derives (machine.shift node others token).form (t :: rest) := by
    intro t rest derives
    rw [shifted_eq] at derives
    have first : grammar.ahead? machine.input = some node.symbol := by
      rw [Grammar.ahead?, read]
    have begins := covers.ahead first derives
    rw [form_eq] at begins
    obtain ⟨_, same, behind⟩ := (wellFormed.derives_terminal_cons_iff terminal).mp begins
    rwa [← (List.cons.inj same).2] at behind
  refine ⟨?_, fun _ derives => later derives, fun _ derives => Or.inr (later derives)⟩
  rw [shifted_eq, ← form_eq]
  exact covers.reached

section Deterministic

variable (wellFormed : grammar.WellFormed)
  (deterministic : (ParseTable.ofGrammar grammar).isLL1 = true)
  {node : Pending} {others : List Pending}

include wellFormed deterministic

/-- A terminal that can come next is expected once the row of the leftmost nonterminal is added. -/
theorem Covers.mem_union_lookaheads (covers : Covers grammar machine)
    (waiting : machine.waiting = node :: others)
    (nonterminal : grammar.isTerminal node.symbol = false) (terminal : grammar.isTerminal t = true)
    (continues : grammar.Continues (machine.shifted.map Prod.fst) t) :
    t ∈ machine.expected.union ((ParseTable.ofGrammar grammar).lookaheads node.symbol) := by
  obtain ⟨rest, derives⟩ := continues
  rw [SymbolSet.mem_union]
  refine (covers.expected terminal derives).imp_right fun begins => ?_
  have reached := covers.reached
  rw [form, waiting, List.map_cons, List.cons_append] at begins reached
  obtain ⟨alternative, rule, predicts, -⟩ :=
    Grammar.exists_predicts reached nonterminal terminal begins
  rw [ParseTable.mem_lookaheads,
    ParseTable.get?_of_predicts wellFormed deterministic rule predicts]
  rfl

/-- A nonterminal is expanded by the alternative that predicts the lookahead, and what the others
predict is in its row. -/
theorem Covers.expand (covers : Covers grammar machine) {name : String} {s : Symbol}
    {token : Option Token} {alternative : Alternative} (waiting : machine.waiting = node :: others)
    (read : grammar.lookahead machine.input = .ok (name, some s, token))
    (nonterminal : grammar.isTerminal node.symbol = false)
    (entry : (ParseTable.ofGrammar grammar).get? node.symbol s = some alternative) :
    Covers grammar
      ({ machine with
        expected := machine.expected.union
          ((ParseTable.ofGrammar grammar).lookaheads node.symbol) }.expand
            node others s alternative) := by
  have form_eq : machine.form =
      node.symbol :: (others.map Pending.symbol ++ [Symbol.eof]) := by
    rw [form, waiting]
    rfl
  have expanded : ∀ machine : Machine, (machine.expand node others s alternative).form =
      alternative.symbols ++ (others.map Pending.symbol ++ [Symbol.eof]) := by
    intro machine
    simp [form, Machine.expand]
  have reached := covers.reached
  rw [form_eq] at reached
  constructor
  · have rule := ParseTable.hasRule_of_get?_build entry
    rw [shifted_expand, expanded]
    exact reached.trans ((rule.derives.append_right _).append_left _)
  · intro t rest ahead derives
    rw [shifted_expand] at derives
    rw [expanded]
    have begins := covers.ahead ahead derives
    have first : grammar.ahead? machine.input = some s := by
      rw [Grammar.ahead?, read]
    obtain rfl := Option.some.inj (first.symm.trans ahead)
    rw [form_eq] at begins
    -- the lookahead has one entry, which is the one that the derivation takes
    obtain ⟨other, rule, predicts, later⟩ := Grammar.exists_predicts reached nonterminal
      (Grammar.isTerminal_of_lookahead read) begins
    have same := ParseTable.get?_of_predicts wellFormed deterministic rule predicts
    rw [entry] at same
    rwa [Option.some.inj same]
  · intro t rest terminal derives
    rw [shifted_expand] at derives
    exact Or.inl (covers.mem_union_lookaheads wellFormed deterministic waiting nonterminal terminal
      ⟨rest, derives⟩)

/-- Every move preserves that the continuations are covered. -/
theorem Covers.of_moves (covers : Covers grammar machine)
    (moves : Moves grammar (ParseTable.ofGrammar grammar) machine next) :
    Covers grammar next := by
  cases moves with
  | shift waiting _ read => exact covers.shift wellFormed waiting read
  | expand waiting _ read _ nonterminal entry =>
    exact covers.expand wellFormed deterministic waiting read nonterminal entry

theorem Covers.of_reaches (reaches : Reaches grammar (ParseTable.ofGrammar grammar) input machine) :
    Covers grammar machine := by
  induction reaches with
  | refl => exact covers_initial grammar input
  | tail _ moves ih => exact ih.of_moves wellFormed deterministic moves

/-- A failure that is not the lexer's expects every continuation, if the end of input never comes to
wait. -/
theorem Covers.of_stops (covers : Covers grammar machine)
    (unended : Symbol.eof ∉ machine.waiting.map Pending.symbol)
    (stops : Stops grammar (ParseTable.ofGrammar grammar) strict machine result)
    {failure : Failure} (failed : result.verdict = .failure failure)
    (unlexical : ∀ error, failure.cause ≠ .lexicalError error)
    (terminal : grammar.isTerminal t = true)
    (continues : grammar.Continues (machine.shifted.map Prod.fst) t) : t ∈ result.expected := by
  cases stops with
  | @lexicalError error _ =>
    cases failed
    exact absurd rfl (unlexical error)
  | @finish name ahead token derived read =>
    unfold Machine.finish at failed ⊢
    split at failed
    · next asked =>
      rw [if_pos asked]
      obtain ⟨rest, derives⟩ := continues
      refine SymbolSet.mem_insert.mpr
        ((covers.expected terminal derives).imp_right fun begins => ?_)
      rw [form, waiting_eq_nil unended derived] at begins
      obtain ⟨_, same, -⟩ :=
        (wellFormed.derives_terminal_cons_iff Grammar.isTerminal_eof).mp begins
      exact (List.cons.inj same).1
    · cases failed
  | unexpected waiting _ _ _ waits =>
    obtain ⟨rest, derives⟩ := continues
    refine SymbolSet.mem_insert.mpr ((covers.expected terminal derives).imp_right fun begins => ?_)
    rw [form, waiting, List.map_cons, List.cons_append] at begins
    obtain ⟨_, same, -⟩ := (wellFormed.derives_terminal_cons_iff waits).mp begins
    exact (List.cons.inj same).1
  | noEntry waiting _ _ _ nonterminal =>
    exact covers.mem_union_lookaheads wellFormed deterministic waiting nonterminal terminal
      continues
  | fault => cases failed

end Deterministic

end Machine

/-- No acceptable continuation is missing. Let the table of a grammar have no conflicts, and let the
end of input occur in no alternative. A parse has a result, and the tokens that it has matched are
the first ones of the input, each read as the terminal that it matched. If it fails, and not because
of the lexer, then it expects every terminal, and the end of input, that can come after the matched
ones in a string derived from the start symbol and the end of input. -/
theorem Grammar.parse_expected_complete {grammar : Grammar} (wellFormed : grammar.WellFormed)
    (unmentioned : ∀ {s alternative}, grammar.HasRule s alternative →
      Symbol.eof ∉ alternative.symbols)
    (deterministic : (ParseTable.ofGrammar grammar).isLL1 = true) (strict : Bool) (input : Input) :
    ∃ result, grammar.parse (ParseTable.ofGrammar grammar) strict input = some result ∧
      let shifted := result.events.filterMap Event.shifted?
      shifted.map Prod.snd <+: input.tokens ∧
        (∀ leaf ∈ shifted, grammar.terminalOf? leaf.2 = some leaf.1) ∧
        ∀ failure, result.verdict = .failure failure →
          (∀ error, failure.cause ≠ .lexicalError error) →
          ∀ t, grammar.isTerminal t = true → grammar.Continues (shifted.map Prod.fst) t →
            t ∈ result.expected := by
  have rules : ∀ {s t alternative}, (ParseTable.ofGrammar grammar).get? s t = some alternative →
      grammar.HasRule s alternative := fun found => ParseTable.hasRule_of_get?_build found
  obtain ⟨moves, result, halts⟩ := @Machine.halts_of_unfolds grammar _ strict
    (unfolds_of_isLL1 wellFormed deterministic) (.initial grammar.start input)
  obtain ⟨last, reaches, stops⟩ := halts.exists_reaches
  have builds := Machine.Builds.of_reaches rules reaches
  have shifted : result.events.filterMap Event.shifted? = last.shifted := by
    rw [(stops.shows wellFormed rules).1, Machine.shifted]
  refine ⟨result, (parse_eq_some_iff rules).mpr ⟨moves, halts⟩, ?_⟩
  rw [shifted]
  refine ⟨⟨_, builds.consumed.symm⟩, builds.read, fun failure failed unlexical t terminal => ?_⟩
  have covers := Machine.Covers.of_reaches wellFormed deterministic reaches
  have unended :=
    Machine.waiting_ne_eof_of_reaches wellFormed.start_ne_eof rules unmentioned reaches
  exact covers.of_stops wellFormed deterministic unended stops failed unlexical terminal

/-- A lookahead that is wrong here but follows the nonterminal elsewhere. The nonterminal vanishes
in front of it, and what could have come instead is expected all the same. -/
theorem Grammar.parse_expected_complete_vanishing :
    ∃ grammar, Grammar.ofText "S : l A r | A d ; A : a | ;" = .ok grammar ∧
      ∃ result failure, grammar.parse (ParseTable.ofGrammar grammar) false
          ⟨[⟨"l", "1"⟩, ⟨"d", "2"⟩], .eof ""⟩ = some result ∧
        result.verdict = .failure failure ∧ failure.cause = .unexpectedToken ⟨5⟩ ∧
        ∀ t, t = ⟨5⟩ ∨ t = ⟨7⟩ → grammar.Continues [⟨4⟩] t ∧ t ∈ result.expected := by
  obtain ⟨grammar, defined, wellFormed, checked⟩ := Grammar.exists_of_ofText
    "S : l A r | A d ; A : a | ;"
    (fun grammar => (ParseTable.ofGrammar grammar).isLL1 &&
      (grammar.productions.entries.all fun production =>
        production.2.all fun alternative => decide (Symbol.eof ∉ alternative.symbols)) &&
      decide (grammar.alternatives? grammar.start =
        some [.ofSymbols [⟨4⟩, ⟨3⟩, ⟨5⟩], .ofSymbols [⟨3⟩, ⟨6⟩]]) &&
      decide (grammar.alternatives? ⟨3⟩ = some [.ofSymbols [⟨7⟩], .ofSymbols []]) &&
      decide (grammar.isTerminal ⟨5⟩ = true ∧ grammar.isTerminal ⟨7⟩ = true) &&
      (grammar.parse (ParseTable.ofGrammar grammar) false
        ⟨[⟨"l", "1"⟩, ⟨"d", "2"⟩], .eof ""⟩).any fun result : ParseResult =>
          decide (result.events.filterMap Event.shifted? = [(⟨4⟩, ⟨"l", "1"⟩)] ∧
            result.verdict = .failure ⟨.unexpectedToken ⟨5⟩, "d", [⟨3, ⟨5⟩⟩]⟩))
    (by decide +kernel)
  simp only [Bool.and_eq_true, decide_eq_true_eq, List.all_eq_true] at checked
  obtain ⟨⟨⟨⟨⟨deterministic, entries⟩, started⟩, inner⟩, terminals⟩, ran⟩ := checked
  obtain ⟨result, parsed, -, -, complete⟩ := Grammar.parse_expected_complete wellFormed
    (fun ⟨_, found, member⟩ => entries _ (OrderedMap.mem_entries_iff.mpr found) _ member)
    deterministic false ⟨[⟨"l", "1"⟩, ⟨"d", "2"⟩], .eof ""⟩
  rw [parsed, Option.any_some, decide_eq_true_eq] at ran
  obtain ⟨shifted, failed⟩ := ran
  rw [shifted] at complete
  have whole : grammar.HasRule grammar.start (.ofSymbols [⟨4⟩, ⟨3⟩, ⟨5⟩]) := ⟨_, started, by simp⟩
  have expanded : grammar.Derives [grammar.start, .eof] ([⟨4⟩] ++ [⟨3⟩] ++ [⟨5⟩, .eof]) :=
    whole.derives.append_right [.eof]
  -- the nonterminal between them is a letter, or it vanishes
  have continues : ∀ t, t = ⟨5⟩ ∨ t = ⟨7⟩ → grammar.Continues [⟨4⟩] t := by
    rintro t (rfl | rfl)
    · have vanishes : grammar.HasRule ⟨3⟩ (.ofSymbols []) := ⟨_, inner, by simp⟩
      exact ⟨[.eof], expanded.trans
        ((vanishes.derives.append_left [⟨4⟩]).append_right [⟨5⟩, .eof])⟩
    · have letter : grammar.HasRule ⟨3⟩ (.ofSymbols [⟨7⟩]) := ⟨_, inner, by simp⟩
      exact ⟨[⟨5⟩, .eof], expanded.trans
        ((letter.derives.append_left [⟨4⟩]).append_right [⟨5⟩, .eof])⟩
  refine ⟨grammar, defined, result, _, parsed, failed, rfl,
    fun t listed => ⟨continues t listed, ?_⟩⟩
  refine complete _ failed nofun t ?_ (continues t listed)
  rcases listed with rfl | rfl
  · exact terminals.1
  · exact terminals.2

end Predictive
