import Mathlib.Order.WellFoundedSet
import Predictive.Proofs.Parse.Prediction
import Predictive.Proofs.Parse.Snapshot

/-!
# The predictive machine comes to an end

Between two tokens the machine unfolds what is waiting. Two kinds of grammars let every unfolding
end. One has a table without conflicts, whose entries follow a derivation of the lookahead. The
other is not left-recursive: whatever the table holds, a nonterminal that comes up while another one
is unfolded begins a string that this one derives, as all that stood in front of it has vanished. So
along nested unfoldings no nonterminal comes up twice, and there are finitely many.

## Main definitions

* `Grammar.Leads` — a symbol that begins what another symbol derives
* `Grammar.IsLeftRecursive` — a nonterminal that leads to itself

## Main results

* `Unfolds.exists_of_symbols` — an unfolding ends if its symbols do, one after the other
* `Grammar.unfolds_of_not_isLeftRecursive` — without left recursion, every unfolding ends
* `Grammar.parse_terminates` — a parse has a result for every input
-/

namespace Predictive

namespace Unfolds

variable {rewrite : Symbol → Option (List Symbol)} {n : Nat} {form result : List Symbol}

/-- A string is unfolded to the end if each of its symbols is, as soon as the symbols before it
have vanished. -/
theorem exists_of_symbols
    (each : ∀ before s after, form = before ++ s :: after →
      (∃ m, Unfolds rewrite m before []) → ∃ m last, Unfolds rewrite m [s] last) :
    ∃ m last, Unfolds rewrite m form last := by
  induction form with
  | nil => exact ⟨0, [], .done⟩
  | cons s rest ih =>
    obtain ⟨m, last, first⟩ := each [] s rest rfl ⟨0, .done⟩
    cases last with
    | cons t last => exact ⟨m, _, first.append_right rest⟩
    | nil =>
      -- the first symbol vanishes, in front of whatever vanishes after it
      obtain ⟨k, last, later⟩ := ih fun before u after split ⟨j, vanishes⟩ =>
        each (s :: before) u after (by rw [split, List.cons_append]) ⟨m + j, first.append vanishes⟩
      exact ⟨m + k, last, first.append later⟩

/-- An unfolding is a derivation, if symbols are rewritten by their rules. -/
theorem derives {grammar : Grammar}
    (rules : ∀ {s expansion}, rewrite s = some expansion → grammar.Derives [s] expansion)
    (unfolds : Unfolds rewrite n form result) : grammar.Derives form result := by
  induction unfolds with
  | done => exact .refl []
  | stop rest _ => exact .refl _
  | @next s expansion rest _ _ found _ ih =>
    have step : grammar.Derives ([s] ++ rest) (expansion ++ rest) := (rules found).append_right rest
    exact step.trans ih

end Unfolds

namespace Grammar

variable {grammar : Grammar} {table : ParseTable Alternative} {s t u : Symbol} {input : Input}
  {strict : Bool}

/-! ### Left recursion -/

/-- A symbol derives, in one or more steps, a string that another symbol begins. -/
def Leads (grammar : Grammar) (s t : Symbol) : Prop :=
  ∃ rest, Relation.TransGen grammar.Rewrites [s] (t :: rest)

/-- A nonterminal derives, in one or more steps, a string that it begins itself. -/
def IsLeftRecursive (grammar : Grammar) : Prop :=
  ∃ s, grammar.isNonterminal s = true ∧ grammar.Leads s s

theorem Leads.trans (first : grammar.Leads s t) (second : grammar.Leads t u) :
    grammar.Leads s u := by
  obtain ⟨rest, reaches⟩ := first
  obtain ⟨others, onward⟩ := second
  exact ⟨others ++ rest,
    reaches.trans (onward.lift (· ++ rest) fun _ _ => Rewrites.append_right rest)⟩

/-- A symbol of an alternative leads the string, if what stands in front of it vanishes. -/
theorem HasRule.leads {alternative : Alternative} {before after : List Symbol}
    (rule : grammar.HasRule s alternative) (split : alternative.symbols = before ++ t :: after)
    (vanishes : grammar.Derives before []) : grammar.Leads s t := by
  have onward : grammar.Derives alternative.symbols (t :: after) := by
    rw [split]
    exact vanishes.append_right (t :: after)
  exact ⟨after, .head' rule.rewrites onward⟩

/-- One symbol alone is rewritten to its alternatives. -/
theorem rewrites_singleton_iff {form : List Symbol} :
    grammar.Rewrites [s] form ↔
      ∃ alternative, grammar.HasRule s alternative ∧ alternative.symbols = form := by
  constructor
  · intro step
    generalize whole : [s] = left at step
    obtain ⟨before, after, rule⟩ := step
    cases before with
    | nil =>
      obtain ⟨rfl, rfl⟩ := List.cons.inj whole
      exact ⟨_, rule, (List.append_nil _).symm⟩
    | cons _ before => simp at whole
  · rintro ⟨alternative, rule, rfl⟩
    exact rule.rewrites

/-- A grammar is not left-recursive if all alternatives but the empty ones begin with terminals. -/
theorem WellFormed.not_isLeftRecursive (wellFormed : grammar.WellFormed)
    (heads : ∀ {s alternative}, grammar.HasRule s alternative →
      ∀ t ∈ alternative.symbols.head?, grammar.isTerminal t = true) :
    ¬ grammar.IsLeftRecursive := by
  rintro ⟨s, nonterminal, rest, reaches⟩
  obtain ⟨form, step, later⟩ := Relation.TransGen.head'_iff.mp reaches
  obtain ⟨alternative, rule, rfl⟩ := rewrites_singleton_iff.mp step
  cases symbols : alternative.symbols with
  | nil =>
    rw [symbols] at later
    cases derives_nil_iff.mp later
  | cons t others =>
    rw [symbols] at later
    have terminal : grammar.isTerminal t = true := heads rule t (by rw [symbols]; rfl)
    obtain ⟨_, same, -⟩ := (wellFormed.derives_terminal_cons_iff terminal).mp later
    rw [← (List.cons.inj same).1, wellFormed.not_isTerminal nonterminal] at terminal
    cases terminal

/-- Without left recursion there are no cycles among the nonterminals, which are finitely many. -/
theorem wellFoundedOn_leads (acyclic : ¬ grammar.IsLeftRecursive) :
    {s | grammar.isNonterminal s = true}.WellFoundedOn fun t s =>
      grammar.isNonterminal s = true ∧ grammar.Leads s t := by
  have finite : {s | grammar.isNonterminal s = true}.Finite :=
    (List.finite_toSet grammar.nonterminals).subset fun _ => isNonterminal_iff.mp
  have order : IsStrictOrder Symbol fun t s => grammar.isNonterminal s = true ∧ grammar.Leads s t :=
    { irrefl := fun s ⟨nonterminal, leads⟩ => acyclic ⟨s, nonterminal, leads⟩
      trans := fun _ _ _ ⟨_, second⟩ ⟨nonterminal, first⟩ => ⟨nonterminal, first.trans second⟩ }
  exact finite.wellFoundedOn

/-! ### Every unfolding ends -/

section Unfolding

variable
  (rules : ∀ {s t alternative}, table.get? s t = some alternative → grammar.HasRule s alternative)

include rules

/-- The machine rewrites a symbol by one of its alternatives. -/
theorem rule_of_unfolding {expansion : List Symbol}
    (found : Machine.unfolding grammar table input s = some expansion) :
    ∃ alternative, grammar.HasRule s alternative ∧ alternative.symbols = expansion := by
  obtain ⟨-, t, alternative, -, entry, -, same⟩ := Machine.unfolding_eq_some_iff.mp found
  exact ⟨alternative, rules entry, same⟩

/-- What is unfolded is derived. -/
theorem derives_of_unfolds {steps : Nat} {form result : List Symbol}
    (unfolds : Unfolds (Machine.unfolding grammar table input) steps form result) :
    grammar.Derives form result := by
  refine unfolds.derives fun found => ?_
  obtain ⟨alternative, rule, rfl⟩ := rule_of_unfolding rules found
  exact rule.derives

/-- A symbol is unfolded to the end if it is no nonterminal, as it is not rewritten then. -/
theorem unfolds_of_isNonterminal
    (ends : grammar.isNonterminal s = true →
      ∃ steps last, Unfolds (Machine.unfolding grammar table input) steps [s] last) :
    ∃ steps last, Unfolds (Machine.unfolding grammar table input) steps [s] last := by
  cases found : Machine.unfolding grammar table input s with
  | none => exact ⟨0, _, .stop [] found⟩
  | some _ =>
    obtain ⟨_, rule, -⟩ := rule_of_unfolding rules found
    exact ends (isNonterminal_of_rule rule)

/-- Without left recursion, a symbol is unfolded to the end: a nonterminal leads to all symbols that
come up on the way. -/
theorem unfolds_singleton (acyclic : ¬ grammar.IsLeftRecursive) (input : Input) (s : Symbol) :
    ∃ steps last, Unfolds (Machine.unfolding grammar table input) steps [s] last := by
  refine unfolds_of_isNonterminal rules fun nonterminal => ?_
  refine (wellFoundedOn_leads acyclic).induction
    (P := fun s => ∃ steps last, Unfolds (Machine.unfolding grammar table input) steps [s] last)
    nonterminal fun s nonterminal ih => ?_
  cases found : Machine.unfolding grammar table input s with
  | none => exact ⟨0, _, .stop [] found⟩
  | some expansion =>
    obtain ⟨alternative, rule, rfl⟩ := rule_of_unfolding rules found
    obtain ⟨steps, last, later⟩ :
        ∃ steps last, Unfolds (Machine.unfolding grammar table input) steps
          alternative.symbols last := by
      refine Unfolds.exists_of_symbols fun before t after split ⟨_, vanishes⟩ => ?_
      -- the symbols in front are unfolded before this one, and nothing is left of them
      have leads := rule.leads split (derives_of_unfolds rules vanishes)
      exact unfolds_of_isNonterminal rules fun inner => ih t inner ⟨nonterminal, leads⟩
    exact ⟨steps + 1, last, .next found (by rwa [List.append_nil])⟩

/-- Without left recursion, every unfolding ends, whatever the table holds. -/
theorem unfolds_of_not_isLeftRecursive (acyclic : ¬ grammar.IsLeftRecursive) (input : Input)
    (form : List Symbol) :
    ∃ steps last, Unfolds (Machine.unfolding grammar table input) steps form last :=
  Unfolds.exists_of_symbols fun _ s _ _ _ => unfolds_singleton rules acyclic input s

end Unfolding

/-! ### Every parse ends -/

/-- Let a grammar have a table without conflicts, or let it not be left-recursive. Then the machine
stops on every input, strict or not, whether or not the input is a sentence. The steps that a parse
is given are enough, so that it has the result at which the machine stops; more steps would not
change it. The machine stops in a success or in a failure, as every symbol has a name. -/
theorem parse_terminates (wellFormed : grammar.WellFormed)
    (ends : (ParseTable.ofGrammar grammar).isLL1 = true ∨ ¬ grammar.IsLeftRecursive)
    (strict : Bool) (input : Input) :
    ∃ moves result,
      Machine.Halts grammar (ParseTable.ofGrammar grammar) strict moves
        (.initial grammar.start input) result ∧
      moves < Machine.stepBound grammar input.tokens.length ∧
      grammar.parse (ParseTable.ofGrammar grammar) strict input = some result ∧
      (∀ fuel > moves, (Machine.initial grammar.start input).run grammar
        (ParseTable.ofGrammar grammar) strict fuel = some result) ∧
      ∀ fault, result.verdict ≠ .fault fault := by
  have rules : ∀ {s t alternative}, (ParseTable.ofGrammar grammar).get? s t = some alternative →
      grammar.HasRule s alternative := fun found => ParseTable.hasRule_of_get?_build found
  have unfolded : ∀ input form, ∃ steps last,
      Unfolds (Machine.unfolding grammar (ParseTable.ofGrammar grammar) input) steps form last := by
    rcases ends with deterministic | acyclic
    · exact unfolds_of_isLL1 wellFormed deterministic
    · exact unfolds_of_not_isLeftRecursive rules acyclic
  obtain ⟨_, result, halts⟩ := @Machine.halts_of_unfolds grammar _ strict unfolded
    (.initial grammar.start input)
  have parsed := (parse_eq_some_iff rules).mpr ⟨_, halts⟩
  obtain ⟨moves, few, halts⟩ := Machine.run_eq_some_iff.mp parsed
  refine ⟨moves, result, halts, few, parsed,
    fun fuel enough => Machine.run_eq_some_iff.mpr ⟨moves, enough, halts⟩, fun fault same => ?_⟩
  obtain ⟨last, -, stops⟩ := halts.exists_reaches
  obtain ⟨-, -, -, ⟨success, -⟩ | ⟨failure, failed, -⟩⟩ := stops.shows wellFormed rules
  · simp [success] at same
  · simp [failed] at same

/-- A left-recursive grammar without conflicts, on tokens that are no sentence, and a grammar with a
conflict in which terminals come first. -/
theorem parse_terminates_both :
    (∃ grammar, Grammar.ofText "S : a S | U b ; U : U x ;" = .ok grammar ∧
      grammar.IsLeftRecursive ∧
      ∃ moves result, Machine.Halts grammar (ParseTable.ofGrammar grammar) true moves
          (.initial grammar.start ⟨[⟨"a", "1"⟩, ⟨"x", "2"⟩], .eof ""⟩) result ∧
        grammar.parse (ParseTable.ofGrammar grammar) true
          ⟨[⟨"a", "1"⟩, ⟨"x", "2"⟩], .eof ""⟩ = some result) ∧
    ∃ grammar, Grammar.ofText "S : a S b | a S c | ;" = .ok grammar ∧
      (ParseTable.ofGrammar grammar).isLL1 = false ∧ ¬ grammar.IsLeftRecursive ∧
      ∃ moves result, Machine.Halts grammar (ParseTable.ofGrammar grammar) false moves
          (.initial grammar.start ⟨[⟨"a", "1"⟩, ⟨"b", "2"⟩], .eof ""⟩) result ∧
        grammar.parse (ParseTable.ofGrammar grammar) false
          ⟨[⟨"a", "1"⟩, ⟨"b", "2"⟩], .eof ""⟩ = some result := by
  constructor
  · obtain ⟨grammar, defined, wellFormed, checked⟩ := Grammar.exists_of_ofText
      "S : a S | U b ; U : U x ;"
      (fun grammar => (ParseTable.ofGrammar grammar).isLL1 &&
        decide (grammar.alternatives? ⟨3⟩ = some [.ofSymbols [⟨3⟩, ⟨6⟩]])) (by decide +kernel)
    rw [Bool.and_eq_true, decide_eq_true_eq] at checked
    obtain ⟨deterministic, found⟩ := checked
    have rule : grammar.HasRule ⟨3⟩ (.ofSymbols [⟨3⟩, ⟨6⟩]) := ⟨_, found, List.mem_singleton_self _⟩
    have split : (Alternative.ofSymbols [⟨3⟩, ⟨6⟩]).symbols = [] ++ ⟨3⟩ :: [⟨6⟩] := rfl
    have recursive : grammar.IsLeftRecursive :=
      ⟨⟨3⟩, isNonterminal_of_rule rule, rule.leads split (.refl [])⟩
    obtain ⟨moves, result, halts, -, parsed, -⟩ := parse_terminates wellFormed
      (Or.inl deterministic) true ⟨[⟨"a", "1"⟩, ⟨"x", "2"⟩], .eof ""⟩
    exact ⟨grammar, defined, recursive, moves, result, halts, parsed⟩
  · obtain ⟨grammar, defined, wellFormed, checked⟩ := Grammar.exists_of_ofText
      "S : a S b | a S c | ;"
      (fun grammar => !(ParseTable.ofGrammar grammar).isLL1 &&
        grammar.productions.entries.all fun production =>
          production.2.all fun alternative => alternative.symbols.head?.all grammar.isTerminal)
      (by decide +kernel)
    rw [Bool.and_eq_true, Bool.not_eq_true', List.all_eq_true] at checked
    obtain ⟨conflict, entries⟩ := checked
    have acyclic : ¬ grammar.IsLeftRecursive := by
      refine wellFormed.not_isLeftRecursive fun ⟨alternatives, found, member⟩ => ?_
      have heads := List.all_eq_true.mp (entries _ (OrderedMap.mem_entries_iff.mpr found)) _ member
      exact (Option.all_eq_true _ _).mp heads
    obtain ⟨moves, result, halts, -, parsed, -⟩ := parse_terminates wellFormed
      (Or.inr acyclic) false ⟨[⟨"a", "1"⟩, ⟨"b", "2"⟩], .eof ""⟩
    exact ⟨grammar, defined, conflict, acyclic, moves, result, halts, parsed⟩

end Grammar

end Predictive
