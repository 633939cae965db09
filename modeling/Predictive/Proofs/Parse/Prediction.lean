import Predictive.Proofs.Parse.Bound
import Predictive.Proofs.Parse.Spelling
import Predictive.Proofs.Table

/-!
# Predictive parsing is correct

For a grammar whose table has no conflicts, a strict parse succeeds on the sentences of the grammar
and on nothing else, and its tree is a derivation tree of the tokens.

Three arguments make this up. Every unfolding ends, also in a left-recursive grammar: an entry of
the table predicts its lookahead, and the unfolding follows a derivation that the prediction
promises. A successful parse has assembled a derivation tree of its tokens, whatever the table
holds. And as long as the waiting symbols derive the tokens that are left, the table holds the next
step of such a derivation, so that the machine does not fail.

## Main definitions

* `Grammar.Generates` — the sentences of a grammar, by the names of their symbols
* `Grammar.Sentential` — the strings in which one symbol can follow another
* `Machine.Expects` — the waiting symbols derive the tokens that are left

## Main results

* `Grammar.unfolds_of_isLL1` — without conflicts, every unfolding ends
* `Machine.Halts.spells` — the tree of a successful parse
* `Machine.Expects.success` — a machine that expects its tokens does not fail
* `Grammar.parse_strict_correct` — predictive parsing is correct
-/

namespace Predictive

namespace Grammar

variable {grammar : Grammar} {s t : Symbol} {alternative : Alternative} {input : Input}
  {form before after rest : List Symbol}

/-- The names spell a sentence of the grammar. -/
def Generates (grammar : Grammar) (names : List String) : Prop :=
  ∃ word, word.map grammar.names.name? = names.map some ∧
    (∀ s ∈ word, grammar.isTerminal s = true) ∧ grammar.Derives [grammar.start] word

/-! ### Every unfolding ends -/

/-- A string derived from the start symbol with the end of input behind it, or from a
nonterminal. -/
def Sentential (grammar : Grammar) (form : List Symbol) : Prop :=
  grammar.Derives [grammar.start, .eof] form ∨
    ∃ left, grammar.isNonterminal left = true ∧ grammar.Derives [left] form

theorem canFollow_iff_sentential :
    grammar.CanFollow s t ↔ ∃ before after, grammar.Sentential (before ++ s :: t :: after) := by
  constructor
  · rintro (⟨before, after, derives⟩ | ⟨left, nonterminal, before, after, derives⟩)
    · exact ⟨before, after, Or.inl derives⟩
    · exact ⟨before, after, Or.inr ⟨left, nonterminal, derives⟩⟩
  · rintro ⟨before, after, derives | ⟨left, nonterminal, derives⟩⟩
    · exact Or.inl ⟨before, after, derives⟩
    · exact Or.inr ⟨left, nonterminal, before, after, derives⟩

theorem Sentential.derives {other : List Symbol} (sentential : grammar.Sentential form)
    (derives : grammar.Derives form other) : grammar.Sentential other := by
  rcases sentential with found | ⟨left, nonterminal, found⟩
  · exact Or.inl (found.trans derives)
  · exact Or.inr ⟨left, nonterminal, found.trans derives⟩

/-- Rewriting in the middle of a sentential form. -/
theorem Sentential.replace {middle other : List Symbol}
    (sentential : grammar.Sentential (before ++ middle ++ after))
    (derives : grammar.Derives middle other) : grammar.Sentential (before ++ other ++ after) :=
  sentential.derives ((derives.append_left before).append_right after)

section Deterministic

variable (wellFormed : grammar.WellFormed)
  (deterministic : (ParseTable.ofGrammar grammar).isLL1 = true)

include wellFormed deterministic

/-- A prediction of the lookahead says how its nonterminal is unfolded. -/
theorem unfolding_of_predicts (ahead : grammar.ahead? input = some t)
    (rule : grammar.HasRule s alternative) (predicts : grammar.Predicts s alternative t) :
    Machine.unfolding grammar (ParseTable.ofGrammar grammar) input s =
      some alternative.symbols := by
  refine Machine.unfolding_eq_some_iff.mpr ⟨?_, t, alternative, ahead, ?_, ?_, rfl⟩
  · exact wellFormed.not_isTerminal (isNonterminal_of_rule rule)
  · exact ParseTable.get?_of_predicts wellFormed deterministic rule predicts
  · exact fun u listed => wellFormed.named (wellFormed.knows_of_rule rule u listed)

/-- A string that derives the empty string vanishes, if the lookahead comes after it in a
sentential form. -/
theorem unfolds_of_vanishing (terminal : grammar.isTerminal t = true)
    (ahead : grammar.ahead? input = some t) (vanishes : grammar.Yields form [])
    (sentential : grammar.Sentential (before ++ form ++ t :: after)) :
    ∃ steps, Unfolds (Machine.unfolding grammar (ParseTable.ofGrammar grammar) input)
      steps form [] := by
  generalize nothing : ([] : List Symbol) = result at vanishes
  induction vanishes generalizing before after with
  | nil => exact ⟨0, .done⟩
  | keep => cases nothing
  | @expand s alternative form first second rule inner rest ihInner ihRest =>
    obtain ⟨rfl, rfl⟩ := List.append_eq_nil_iff.mp nothing.symm
    have innerForm : grammar.Sentential (before ++ alternative.symbols ++ t :: after) := by
      have expanded := rule.derives.append rest.derives
      rw [List.append_nil] at expanded
      exact sentential.replace expanded
    have restForm : grammar.Sentential (before ++ [s] ++ form ++ t :: after) := by
      simpa using sentential
    have follows : grammar.CanFollow s t := by
      refine canFollow_iff_sentential.mpr ⟨before, after, ?_⟩
      simpa using restForm.replace rest.derives
    obtain ⟨front, frontUnfolds⟩ := ihInner innerForm rfl
    obtain ⟨back, backUnfolds⟩ := ihRest restForm rfl
    exact ⟨_, .next (unfolding_of_predicts wellFormed deterministic ahead rule
      ⟨terminal, Or.inr ⟨inner.derives, follows⟩⟩) (frontUnfolds.append backUnfolds)⟩

/-- A string that derives something that the lookahead begins comes to the lookahead. -/
theorem unfolds_of_beginning (terminal : grammar.isTerminal t = true)
    (ahead : grammar.ahead? input = some t) (begins : grammar.Yields form (t :: rest))
    (sentential : grammar.Sentential (before ++ form ++ after)) :
    ∃ steps last, Unfolds (Machine.unfolding grammar (ParseTable.ofGrammar grammar) input)
      steps form (t :: last) := by
  generalize beginning : t :: rest = result at begins
  induction begins generalizing before after rest with
  | nil => cases beginning
  | @keep s form result rest =>
    obtain ⟨rfl, rfl⟩ := List.cons.inj beginning
    exact ⟨0, form, .stop form (by simp [Machine.unfolding, terminal])⟩
  | @expand s alternative form first second rule inner rest ihInner ihRest =>
    have innerForm : grammar.Sentential (before ++ alternative.symbols ++ (form ++ after)) := by
      have expanded := sentential.replace (rule.derives.append_right form)
      simpa using expanded
    have restForm : grammar.Sentential (before ++ [s] ++ form ++ after) := by
      simpa using sentential
    -- the lookahead comes from the expansion, or the expansion vanishes and it comes from the rest
    cases first with
    | nil =>
      rw [List.nil_append] at beginning
      subst beginning
      have follows : grammar.CanFollow s t := by
        have beyond := restForm.replace rest.derives
        rw [List.append_assoc, List.append_assoc, List.singleton_append, List.cons_append] at beyond
        exact canFollow_iff_sentential.mpr ⟨before, _, beyond⟩
      have vanishForm := sentential.replace (rule.derives.append rest.derives)
      rw [← List.append_assoc, List.append_assoc (before ++ alternative.symbols)] at vanishForm
      obtain ⟨front, frontUnfolds⟩ :=
        unfolds_of_vanishing wellFormed deterministic terminal ahead inner vanishForm
      obtain ⟨back, last, backUnfolds⟩ := ihRest restForm rfl
      exact ⟨_, last, .next (unfolding_of_predicts wellFormed deterministic ahead rule
        ⟨terminal, Or.inr ⟨inner.derives, follows⟩⟩) (frontUnfolds.append backUnfolds)⟩
    | cons head tail =>
      obtain ⟨rfl, rfl⟩ := List.cons.inj beginning
      obtain ⟨steps, last, unfolds⟩ := ihInner innerForm rfl
      exact ⟨_, _, .next (unfolding_of_predicts wellFormed deterministic ahead rule
        ⟨terminal, Or.inl ⟨tail, inner.derives⟩⟩) (unfolds.append_right form)⟩

/-- Without conflicts, every unfolding ends. -/
theorem unfolds_of_isLL1 (input : Input) (form : List Symbol) :
    ∃ steps last, Unfolds (Machine.unfolding grammar (ParseTable.ofGrammar grammar) input)
      steps form last := by
  induction form with
  | nil => exact ⟨0, [], .done⟩
  | cons s rest ih =>
    cases found : Machine.unfolding grammar (ParseTable.ofGrammar grammar) input s with
    | none => exact ⟨0, _, .stop rest found⟩
    | some expansion =>
      obtain ⟨-, t, alternative, ahead, entry, -, rfl⟩ := Machine.unfolding_eq_some_iff.mp found
      obtain ⟨rule, terminal, ⟨other, begins⟩ | ⟨vanishes, follows⟩⟩ :=
        ParseTable.predicts_of_get? wellFormed entry
      -- the entry predicts its lookahead because of what it derives, or because of what follows
      · have alone : grammar.Sentential ([] ++ alternative.symbols ++ []) := by
          rw [List.nil_append, List.append_nil]
          exact Or.inr ⟨s, isNonterminal_of_rule rule, rule.derives⟩
        obtain ⟨steps, last, unfolds⟩ := unfolds_of_beginning wellFormed deterministic terminal
          ahead (derives_iff_yields.mp begins) alone
        exact ⟨_, _, .next found (unfolds.append_right rest)⟩
      · obtain ⟨before, after, sentential⟩ := canFollow_iff_sentential.mp follows
        rw [List.append_cons] at sentential
        obtain ⟨front, frontUnfolds⟩ := unfolds_of_vanishing wellFormed deterministic terminal ahead
          (derives_iff_yields.mp vanishes) (sentential.replace rule.derives)
        obtain ⟨back, last, backUnfolds⟩ := ih
        exact ⟨_, last, .next found (frontUnfolds.append backUnfolds)⟩

end Deterministic

/-! ### Tokens and their terminals -/

/-- A word is read from tokens if it has their names and consists of terminals. -/
theorem map_terminalOf?_iff {word : List Symbol} {tokens : List Token} :
    word.map some = tokens.map grammar.terminalOf? ↔
      word.map grammar.names.name? = tokens.map (fun token => some token.name) ∧
        ∀ s ∈ word, grammar.isTerminal s = true := by
  induction tokens generalizing word with
  | nil => cases word <;> simp
  | cons token tokens ih =>
    cases word with
    | nil => simp
    | cons s word =>
      simp only [List.map_cons, List.cons.injEq, List.forall_mem_cons, ih,
        eq_comm (b := grammar.terminalOf? token), terminalOf?_eq_some_iff]
      tauto

end Grammar

namespace Machine

variable {grammar : Grammar} {table : ParseTable Alternative} {strict : Bool}
  {machine next : Machine} {result : ParseResult} {moves : Nat} {tokens : List Token}

/-! ### Successful parses -/

/-- If the end of input occurs in no alternative, it never comes to wait. -/
theorem Moves.waiting_ne_eof
    (rules : ∀ {s t alternative}, table.get? s t = some alternative →
      grammar.HasRule s alternative)
    (unmentioned : ∀ {s alternative}, grammar.HasRule s alternative →
      Symbol.eof ∉ alternative.symbols)
    (before : Symbol.eof ∉ machine.waiting.map Pending.symbol)
    (moves : Moves grammar table machine next) :
    Symbol.eof ∉ next.waiting.map Pending.symbol := by
  cases moves with
  | shift waiting =>
    rw [waiting, List.map_cons, List.mem_cons, not_or] at before
    exact before.2
  | @expand node rest _ s _ alternative waiting _ _ _ _ entry =>
    rw [waiting, List.map_cons, List.mem_cons, not_or] at before
    have symbols : (number machine.size alternative.symbols ++ rest).map Pending.symbol =
        alternative.symbols ++ rest.map Pending.symbol := by simp
    intro member
    rcases List.mem_append.mp (symbols ▸ member) with inside | later
    · exact unmentioned (rules entry) inside
    · exact before.2 later

/-- Where nothing is left to be derived nothing is waiting, if the end of input never comes to
wait. -/
theorem waiting_eq_nil (unended : Symbol.eof ∉ machine.waiting.map Pending.symbol)
    (derived : ∀ node ∈ machine.waiting.head?, node.symbol = .eof) : machine.waiting = [] := by
  cases waiting : machine.waiting with
  | nil => rfl
  | cons node others =>
    rw [waiting] at derived unended
    exact absurd (by simp [derived node rfl]) unended

/-- The tree of a successful strict parse is a derivation tree of the tokens, whatever the table
holds, if the end of input occurs in no alternative. -/
theorem Halts.spells
    (rules : ∀ {s t alternative}, table.get? s t = some alternative →
      grammar.HasRule s alternative)
    (unmentioned : ∀ {s alternative}, grammar.HasRule s alternative →
      Symbol.eof ∉ alternative.symbols)
    (proper : grammar.start ≠ .eof) {ending : Ending}
    (named : ∀ token ∈ tokens, token.name ≠ Token.eofName)
    (halts : Halts grammar table true moves (initial grammar.start ⟨tokens, ending⟩) result)
    (success : result.verdict = .success) :
    ∃ word : List Symbol, word.map some = tokens.map grammar.terminalOf? ∧
      result.tree.symbol = grammar.start ∧
      grammar.Spells [result.tree] (word.zip (tokens.map fun token => some token.text)) := by
  let holds := fun machine : Machine =>
    Assembles grammar tokens machine ∧ Symbol.eof ∉ machine.waiting.map Pending.symbol
  have initially : holds (initial grammar.start ⟨tokens, ending⟩) :=
    ⟨assembles_initial grammar ⟨tokens, ending⟩, by simpa [initial] using proper.symm⟩
  obtain ⟨last, ⟨⟨shifted, split, read, assembled⟩, unended⟩, stops⟩ :=
    halts.stops holds initially fun before moves =>
      ⟨before.1.of_moves rules moves, moves.waiting_ne_eof rules unmentioned before.2⟩
  obtain ⟨derived, built, ended⟩ := stops.of_success success
  have done := waiting_eq_nil unended derived
  -- no token is called like the end of input, so that the one ahead is the real one
  have consumed : last.input.tokens = [] := by
    obtain ⟨name, first, ahead⟩ := ended rfl
    rcases Grammar.lookahead_cases ahead with ⟨token, others, input, -, same, -⟩ | ⟨none, -⟩
    · have called := (Grammar.terminalOf?_eq_some_iff.mp same.symm).1
      rw [NameTable.name?_eof] at called
      exact absurd (Option.some.inj called).symm (named token (by simp [split, input]))
    · exact none
  rw [consumed, List.append_nil] at split
  obtain ⟨tree, one, root, spelled⟩ := assembled [] [] (by simp [done]) .nil
  have whole : result.tree = tree := by
    rw [built, Machine.tree, Event.trees, done, List.map_nil, one]
    rfl
  refine ⟨shifted.map Prod.fst, ?_, by rw [whole, root], ?_⟩
  · rw [split, List.map_map, List.map_map]
    exact List.map_congr_left fun leaf listed => (read leaf listed).symm
  · rw [whole, split, List.map_map, List.zip_map']
    simpa using spelled

/-! ### Sentences -/

/-- The waiting symbols derive the word of the tokens that are left, and the start symbol derives
the waiting symbols with something in front. -/
structure Expects (grammar : Grammar) (front word : List Symbol) (machine : Machine) : Prop where
  /-- The input ends without an error. -/
  ends : ∃ text, machine.input.ending = .eof text
  /-- The word consists of the terminals of the tokens. -/
  spelled : word.map some = machine.input.tokens.map grammar.terminalOf?
  /-- The waiting symbols come up in a derivation. -/
  reached : grammar.Derives [grammar.start] (front ++ machine.waiting.map Pending.symbol)
  /-- The word is derived from them. -/
  derives : grammar.Derives (machine.waiting.map Pending.symbol) word

namespace Expects

variable {front word : List Symbol} {node : Pending} {rest : List Pending} {name : String}
  {ahead : Option Symbol} {token : Option Token}

theorem isTerminal (expects : Expects grammar front word machine) :
    ∀ s ∈ word, grammar.isTerminal s = true :=
  (Grammar.map_terminalOf?_iff.mp expects.spelled).2

/-- The lookahead comes first in the word, or the end of input does if the word is empty. -/
theorem ahead_eq (expects : Expects grammar front word machine)
    (read : grammar.lookahead machine.input = .ok (name, ahead, token)) :
    ahead = (word ++ [Symbol.eof]).head? := by
  have spelled := expects.spelled
  rcases Grammar.lookahead_cases read with
    ⟨first, others, input, -, same, -⟩ | ⟨none, -, -, same, -⟩
  · rw [input, List.map_cons] at spelled
    obtain ⟨s, others, rfl, first, -⟩ := List.map_eq_cons_iff.mp spelled
    rw [same, ← first]
    rfl
  · rw [none, List.map_nil, List.map_eq_nil_iff] at spelled
    rw [same, spelled]
    rfl

/-- A terminal that is waiting comes first in the word. -/
theorem of_terminal (wellFormed : grammar.WellFormed) (expects : Expects grammar front word machine)
    (waiting : machine.waiting = node :: rest) (terminal : grammar.isTerminal node.symbol = true) :
    ∃ others, word = node.symbol :: others ∧
      grammar.Derives (rest.map Pending.symbol) others := by
  have derives := expects.derives
  rw [waiting, List.map_cons] at derives
  exact (wellFormed.derives_terminal_cons_iff terminal).mp derives

/-- The table holds the next step of a derivation of the word. -/
theorem of_nonterminal (wellFormed : grammar.WellFormed)
    (deterministic : (ParseTable.ofGrammar grammar).isLL1 = true)
    (expects : Expects grammar front word machine) (waiting : machine.waiting = node :: rest)
    (nonterminal : grammar.isTerminal node.symbol = false)
    (read : grammar.lookahead machine.input = .ok (name, ahead, token)) :
    ∃ t alternative, ahead = some t ∧ grammar.HasRule node.symbol alternative ∧
      (ParseTable.ofGrammar grammar).get? node.symbol t = some alternative ∧
      grammar.Derives (alternative.symbols ++ rest.map Pending.symbol) word := by
  have derives := expects.derives
  have reached := expects.reached
  have first := expects.ahead_eq read
  rw [waiting, List.map_cons] at derives reached
  rcases Grammar.derives_cons_iff.mp derives with
    ⟨others, rfl, -⟩ | ⟨alternative, inner, outer, rule, rfl, innerDerives, outerDerives⟩
  · have terminal := expects.isTerminal node.symbol List.mem_cons_self
    rw [nonterminal] at terminal
    cases terminal
  cases inner with
  | cons t others =>
    have terminal := expects.isTerminal t (by simp)
    refine ⟨t, alternative, first, rule, ?_, innerDerives.append outerDerives⟩
    exact ParseTable.get?_of_predicts wellFormed deterministic rule
      ⟨terminal, Or.inl ⟨others, innerDerives⟩⟩
  | nil =>
    obtain ⟨t, others, joined⟩ : ∃ t others, outer ++ [Symbol.eof] = t :: others :=
      List.exists_cons_of_ne_nil (by simp)
    rw [List.nil_append, joined] at first
    have terminal : grammar.isTerminal t = true := by
      have listed : t ∈ outer ++ [Symbol.eof] := joined ▸ List.mem_cons_self
      rcases List.mem_append.mp listed with inside | last
      · exact expects.isTerminal t inside
      · rw [List.mem_singleton.mp last]
        exact Grammar.isTerminal_eof
    -- the nonterminal vanishes, so that the lookahead follows it
    have follows : grammar.CanFollow node.symbol t := by
      refine Or.inl ⟨front, others, ?_⟩
      have started := reached.append_right [Symbol.eof]
      have onward := (outerDerives.append_right [Symbol.eof]).append_left (front ++ [node.symbol])
      rw [joined] at onward
      simp only [List.append_assoc, List.cons_append, List.nil_append] at started onward
      exact started.trans onward
    refine ⟨t, alternative, first, rule, ?_, innerDerives.append outerDerives⟩
    exact ParseTable.get?_of_predicts wellFormed deterministic rule
      ⟨terminal, Or.inr ⟨innerDerives, follows⟩⟩

/-- A machine that expects its tokens still does after every move. -/
theorem of_moves (wellFormed : grammar.WellFormed)
    (deterministic : (ParseTable.ofGrammar grammar).isLL1 = true)
    (expects : Expects grammar front word machine)
    (moves : Moves grammar (ParseTable.ofGrammar grammar) machine next) :
    ∃ front word, Expects grammar front word next := by
  cases moves with
  | @shift node rest name token waiting proper read =>
    have terminal := Grammar.isTerminal_of_lookahead read
    obtain ⟨others, rfl, derives⟩ := expects.of_terminal wellFormed waiting terminal
    refine ⟨front ++ [node.symbol], others, expects.ends, ?_, ?_, derives⟩
    · have spelled := congrArg (List.drop 1) expects.spelled
      simpa [Machine.shift, List.map_drop] using spelled
    · simpa [Machine.shift, waiting] using expects.reached
  | @expand node rest name s token alternative waiting proper read _ nonterminal entry named =>
    obtain ⟨t, chosen, ahead, rule, found, derives⟩ :=
      expects.of_nonterminal wellFormed deterministic waiting nonterminal read
    obtain rfl := Option.some.inj ahead
    rw [entry] at found
    obtain rfl := Option.some.inj found
    refine ⟨front, word, expects.ends, expects.spelled, ?_, by simpa [Machine.expand] using derives⟩
    have reached := expects.reached
    rw [waiting] at reached
    simpa [Machine.expand] using
      reached.trans ((rule.derives.append_right (rest.map Pending.symbol)).append_left front)

/-- A machine that expects its tokens does not fail. -/
theorem success (wellFormed : grammar.WellFormed)
    (deterministic : (ParseTable.ofGrammar grammar).isLL1 = true)
    (expects : Expects grammar front word machine)
    (stops : Stops grammar (ParseTable.ofGrammar grammar) strict machine result) :
    result.verdict = .success := by
  cases stops with
  | lexicalError read =>
    obtain ⟨text, ended⟩ := expects.ends
    unfold Grammar.lookahead at read
    split at read
    · cases read
    · cases read
    · next failed => simp [failed] at ended
  | @finish name ahead token derived read =>
    have last : ahead = some .eof := by
      rw [expects.ahead_eq read]
      cases waiting : machine.waiting with
      | nil =>
        have derives := expects.derives
        rw [waiting, List.map_nil, Grammar.derives_nil_iff] at derives
        rw [derives]
        rfl
      | cons node rest =>
        have ended : node.symbol = .eof := derived node (by simp [waiting])
        obtain ⟨others, rfl, -⟩ :=
          expects.of_terminal wellFormed waiting (ended ▸ Grammar.isTerminal_eof)
        rw [ended]
        rfl
    simp [finish, last, halt]
  | unexpected waiting _ read differs terminal =>
    obtain ⟨others, rfl, -⟩ := expects.of_terminal wellFormed waiting terminal
    exact absurd (expects.ahead_eq read) differs
  | noEntry waiting _ read _ nonterminal absent =>
    obtain ⟨t, alternative, rfl, -, found, -⟩ :=
      expects.of_nonterminal wellFormed deterministic waiting nonterminal read
    rw [absent t rfl] at found
    cases found
  | @fault node rest name s unknown _ _ waiting _ read _ nonterminal entry unnamed =>
    have rule : grammar.HasRule node.symbol _ := ParseTable.hasRule_of_get?_build entry
    have known := wellFormed.knows_of_rule rule unknown (List.mem_of_find?_eq_some unnamed)
    have absent := List.find?_some unnamed
    exact absurd (wellFormed.named known) (by simpa using absent)

end Expects

end Machine

/-- Predictive parsing is correct. Let the table of a grammar have no conflicts, and let the end of
input occur in no alternative. Then a strict parse succeeds on tokens whose names spell a sentence,
and on no other tokens. On success its tree is a derivation tree with the start symbol at the root
and the tokens as its leaves, from left to right, each with the text that it covers. -/
theorem Grammar.parse_strict_correct {grammar : Grammar} (wellFormed : grammar.WellFormed)
    (unmentioned : ∀ {s alternative}, grammar.HasRule s alternative →
      Symbol.eof ∉ alternative.symbols)
    (deterministic : (ParseTable.ofGrammar grammar).isLL1 = true) (tokens : List Token)
    (named : ∀ token ∈ tokens, token.name ≠ Token.eofName) (text : String) :
    ∃ result, grammar.parse (ParseTable.ofGrammar grammar) true ⟨tokens, .eof text⟩ = some result ∧
      (result.isSuccess = true ↔ grammar.Generates (tokens.map Token.name)) ∧
      (result.isSuccess = true → ∃ word : List Symbol,
        word.map grammar.names.name? = tokens.map (fun token => some token.name) ∧
        result.tree.symbol = grammar.start ∧
        grammar.Spells [result.tree] (word.zip (tokens.map fun token => some token.text)) ∧
        result.tree.texts = tokens.map Token.text) ∧
      ((∃ token ∈ tokens, grammar.terminalOf? token = none) → result.isSuccess = false) := by
  have rules : ∀ {s t alternative}, (ParseTable.ofGrammar grammar).get? s t = some alternative →
      grammar.HasRule s alternative := fun found => ParseTable.hasRule_of_get?_build found
  have proper : grammar.start ≠ .eof := by
    intro ended
    have terminal : grammar.isTerminal grammar.start = true := ended ▸ isTerminal_eof
    rw [wellFormed.not_isTerminal wellFormed.start_isNonterminal] at terminal
    cases terminal
  have length_eq : ∀ {word : List Symbol}, word.map some = tokens.map grammar.terminalOf? →
      word.length = (tokens.map fun token => some token.text).length := by
    intro word spelled
    simpa using congrArg List.length spelled
  obtain ⟨moves, result, halts⟩ := @Machine.halts_of_unfolds grammar _ true
    (unfolds_of_isLL1 wellFormed deterministic) (.initial grammar.start ⟨tokens, .eof text⟩)
  have success_iff : result.isSuccess = true ↔ result.verdict = .success := decide_eq_true_iff
  have built := halts.spells rules unmentioned proper named
  have accepted : grammar.Generates (tokens.map Token.name) → result.verdict = .success := by
    rintro ⟨word, called, terminals, derives⟩
    rw [List.map_map] at called
    have expects : Machine.Expects grammar [] word (.initial grammar.start ⟨tokens, .eof text⟩) :=
      ⟨⟨text, rfl⟩, map_terminalOf?_iff.mpr ⟨called, terminals⟩, .refl _, derives⟩
    -- the machine expects its tokens from beginning to end
    obtain ⟨last, ⟨front, word, expects⟩, stops⟩ := halts.stops
      (fun machine => ∃ front word, Machine.Expects grammar front word machine) ⟨_, _, expects⟩
      fun ⟨front, word, expects⟩ moves => expects.of_moves wellFormed deterministic moves
    exact expects.success wellFormed deterministic stops
  refine ⟨result, (parse_eq_some_iff rules).mpr ⟨moves, halts⟩, ⟨fun success => ?_, fun sentence =>
    success_iff.mpr (accepted sentence)⟩, fun success => ?_, ?_⟩
  · obtain ⟨word, spelled, root, spells⟩ := built (success_iff.mp success)
    obtain ⟨called, terminals⟩ := map_terminalOf?_iff.mp spelled
    refine ⟨word, by rwa [List.map_map], terminals, ?_⟩
    have derives := spells.derives
    rwa [List.map_fst_zip (length_eq spelled).le, List.map_singleton, root] at derives
  · obtain ⟨word, spelled, root, spells⟩ := built (success_iff.mp success)
    refine ⟨word, (map_terminalOf?_iff.mp spelled).1, root, spells, ?_⟩
    calc result.tree.texts = [result.tree].flatMap Tree.texts := by simp
      _ = (word.zip (tokens.map fun token => some token.text)).filterMap Prod.snd := spells.texts
      _ = ((word.zip (tokens.map fun token => some token.text)).map Prod.snd).filterMap id := by
        rw [List.filterMap_map, Function.id_comp]
      _ = tokens.map Token.text := by
        rw [List.map_snd_zip (length_eq spelled).ge, List.filterMap_map]
        simp
  -- a token that is no terminal of the grammar is in no word
  · rintro ⟨token, listed, unknown⟩
    refine Bool.eq_false_iff.mpr fun success => ?_
    obtain ⟨word, spelled, -⟩ := built (success_iff.mp success)
    have member : none ∈ word.map some := spelled ▸ List.mem_map.mpr ⟨token, listed, unknown⟩
    simp at member

/-- A grammar with nonterminals that can vanish, and one that is left-recursive and unproductive. -/
theorem Grammar.parse_strict_correct_nested :
    ∃ grammar, Grammar.ofText "S : a B c | ; B : b S | ; U : U x ;" = .ok grammar ∧
      ∃ result, grammar.parse (ParseTable.ofGrammar grammar) true
          ⟨[⟨"a", "1"⟩, ⟨"b", "2"⟩, ⟨"c", "3"⟩], .eof ""⟩ = some result ∧
        result.isSuccess = true ∧ grammar.Generates ["a", "b", "c"] := by
  obtain ⟨grammar, defined, wellFormed, checked⟩ := Grammar.exists_of_ofText
    "S : a B c | ; B : b S | ; U : U x ;"
    (fun grammar => (ParseTable.ofGrammar grammar).isLL1 &&
      (grammar.productions.entries.all fun production =>
        production.2.all fun alternative => decide (Symbol.eof ∉ alternative.symbols)) &&
      (grammar.parse (ParseTable.ofGrammar grammar) true
        ⟨[⟨"a", "1"⟩, ⟨"b", "2"⟩, ⟨"c", "3"⟩], .eof ""⟩).any ParseResult.isSuccess)
    (by decide +kernel)
  rw [Bool.and_eq_true, Bool.and_eq_true, List.all_eq_true] at checked
  obtain ⟨⟨deterministic, entries⟩, accepted⟩ := checked
  obtain ⟨result, parsed, correct, -⟩ := Grammar.parse_strict_correct wellFormed
    (fun ⟨alternatives, found, member⟩ => of_decide_eq_true
      (List.all_eq_true.mp (entries _ (OrderedMap.mem_entries_iff.mpr found)) _ member))
    deterministic [⟨"a", "1"⟩, ⟨"b", "2"⟩, ⟨"c", "3"⟩] (by decide) ""
  rw [parsed, Option.any_some] at accepted
  exact ⟨grammar, defined, result, parsed, accepted, correct.mp accepted⟩

end Predictive
