import Predictive.Proofs.Parse.Steps
import Predictive.Proofs.Parse.Unfolding

/-!
# A machine that stops, stops in time

Between two tokens the machine unfolds the waiting symbols by what the table holds for the
lookahead. An unfolding that ends is short, and so is what is waiting afterwards, so that a run
which stops at all takes no more steps than the bound that a parse is given. A parse therefore has
a result exactly when the machine stops.

## Main definitions

* `Grammar.ahead?` — the terminal that an input begins with
* `Machine.unfolding` — how the waiting symbols are rewritten while the lookahead stays

## Main results

* `Machine.Halts.phase` — a run begins with an unfolding
* `Machine.Halts.le` — the number of moves of a run that stops
* `Grammar.parse_eq_some_iff` — a parse has a result exactly when the machine stops
* `Machine.halts_of_unfolds` — the machine stops if every unfolding ends
-/

namespace Predictive

/-- The terminal that an input begins with. -/
def Grammar.ahead? (grammar : Grammar) (input : Input) : Option Symbol :=
  match grammar.lookahead input with
  | .ok (_, ahead, _) => ahead
  | .error _ => none

/-- The lookahead is a terminal. -/
theorem Grammar.isTerminal_of_lookahead {grammar : Grammar} {input : Input} {name : String}
    {s : Symbol} {token : Option Token}
    (read : grammar.lookahead input = .ok (name, some s, token)) : grammar.isTerminal s = true := by
  rcases lookahead_cases read with ⟨first, -, -, -, ahead, -⟩ | ⟨-, -, -, ahead, -⟩
  · exact (terminalOf?_eq_some_iff.mp ahead.symm).2
  · rw [Option.some.inj ahead]
    exact isTerminal_eof

theorem Grammar.isTerminal_of_ahead? {grammar : Grammar} {input : Input} {t : Symbol}
    (ahead : grammar.ahead? input = some t) : grammar.isTerminal t = true := by
  unfold ahead? at ahead
  split at ahead
  · next read => exact isTerminal_of_lookahead (ahead ▸ read)
  · cases ahead

/-- The first token tells the lookahead. -/
theorem Grammar.ahead?_eq_terminalOf? {grammar : Grammar} {input : Input} {token : Token}
    {others : List Token} (tokens : input.tokens = token :: others) :
    grammar.ahead? input = grammar.terminalOf? token := by
  rw [ahead?, lookahead, tokens]
  rfl

namespace Machine

variable {grammar : Grammar} {table : ParseTable Alternative} {strict : Bool}
  {machine next : Machine} {result : ParseResult} {node : Pending} {rest : List Pending}
  {moves : Nat} {expansion : List Symbol}

/-- How the waiting symbols are rewritten while the lookahead stays. -/
def unfolding (grammar : Grammar) (table : ParseTable Alternative) (input : Input) (s : Symbol) :
    Option (List Symbol) :=
  if grammar.isTerminal s then none
  else (grammar.ahead? input).bind fun t =>
    ((table.get? s t).filter fun alternative =>
      alternative.symbols.all fun u => decide (u.id < grammar.names.size)).map Alternative.symbols

theorem unfolding_eq_some_iff {input : Input} {s : Symbol} :
    unfolding grammar table input s = some expansion ↔
      grammar.isTerminal s = false ∧ ∃ t alternative, grammar.ahead? input = some t ∧
        table.get? s t = some alternative ∧
        (∀ u ∈ alternative.symbols, u.id < grammar.names.size) ∧
        alternative.symbols = expansion := by
  unfold unfolding
  cases grammar.isTerminal s with
  | true => simp
  | false => simp [Option.bind_eq_some_iff, Option.filter_eq_some_iff, and_assoc]

/-- A node whose symbol is rewritten is expanded. -/
theorem moves_of_unfolding (waiting : machine.waiting = node :: rest)
    (found : unfolding grammar table machine.input node.symbol = some expansion) :
    ∃ next, Moves grammar table machine next ∧ next.input = machine.input ∧
      next.waiting.map Pending.symbol = expansion ++ rest.map Pending.symbol := by
  obtain ⟨nonterminal, t, alternative, ahead, entry, named, rfl⟩ := unfolding_eq_some_iff.mp found
  have proper : node.symbol ≠ .eof := by
    intro last
    rw [last, Grammar.isTerminal_eof] at nonterminal
    cases nonterminal
  unfold Grammar.ahead? at ahead
  split at ahead
  · next name _ token read =>
    subst ahead
    have differs : t ≠ node.symbol := by
      rintro rfl
      rw [Grammar.isTerminal_of_lookahead read] at nonterminal
      cases nonterminal
    exact ⟨_, .expand waiting proper read differs nonterminal entry named, rfl, by simp [expand]⟩
  · cases ahead

/-- A move matches a token with a node that is not rewritten, or rewrites a node. -/
theorem Moves.unfolding_cases (moves : Moves grammar table machine next) :
    ∃ node rest, machine.waiting = node :: rest ∧
      ((unfolding grammar table machine.input node.symbol = none ∧ next.waiting = rest ∧
          next.input.tokens.length + 1 = machine.input.tokens.length) ∨
        ∃ expansion, unfolding grammar table machine.input node.symbol = some expansion ∧
          next.input = machine.input ∧
          next.waiting.map Pending.symbol = expansion ++ rest.map Pending.symbol) := by
  cases moves with
  | @shift node rest name token waiting proper read =>
    refine ⟨node, rest, waiting, Or.inl ⟨?_, rfl, ?_⟩⟩
    · simp [unfolding, Grammar.isTerminal_of_lookahead read]
    · rcases Grammar.lookahead_cases read with ⟨first, tokens, same, -⟩ | ⟨-, -, -, ends, -⟩
      · simp [Machine.shift, same]
      · exact absurd (Option.some.inj ends) proper
  | @expand node rest name s token alternative waiting proper read _ nonterminal entry named =>
    refine ⟨node, rest, waiting, Or.inr ⟨alternative.symbols, ?_, rfl, by simp [Machine.expand]⟩⟩
    refine unfolding_eq_some_iff.mpr ⟨nonterminal, s, alternative, ?_, entry, named, rfl⟩
    simp [Grammar.ahead?, read]

/-- A machine that stops has no node to expand in front. -/
theorem unfolds_of_step (last : machine.step grammar table strict = .inr result) :
    Unfolds (unfolding grammar table machine.input) 0 (machine.waiting.map Pending.symbol)
      (machine.waiting.map Pending.symbol) := by
  cases waiting : machine.waiting with
  | nil => exact .done
  | cons node rest =>
    refine .stop _ (Option.eq_none_iff_forall_not_mem.mpr fun expansion found => ?_)
    obtain ⟨next, moves, -⟩ := moves_of_unfolding waiting found
    simp [moves.step_eq] at last

/-- A run begins with an unfolding, after which it stops or matches a token. -/
theorem Halts.phase (halts : Halts grammar table strict moves machine result) :
    ∃ steps form, Unfolds (unfolding grammar table machine.input) steps
        (machine.waiting.map Pending.symbol) form ∧
      (moves = steps ∨ ∃ later last, moves = steps + later + 1 ∧
        last.waiting.length + 1 = form.length ∧
        last.input.tokens.length + 1 = machine.input.tokens.length ∧
        Halts grammar table strict later last result) := by
  induction halts with
  | stop last => exact ⟨0, _, unfolds_of_step last, Or.inl rfl⟩
  | @move machine next result moves first later ih =>
    obtain ⟨node, rest, waiting, ⟨stuck, same, fewer⟩ | ⟨expansion, found, input, same⟩⟩ :=
      first.unfolding_cases
    -- the first move matches a token, or belongs to the unfolding
    · refine ⟨0, machine.waiting.map Pending.symbol, ?_,
        Or.inr ⟨moves, next, by omega, by simp [waiting, same], fewer, later⟩⟩
      rw [waiting]
      exact .stop _ stuck
    · obtain ⟨steps, form, unfolds, ends⟩ := ih
      rw [same, input] at unfolds
      rw [waiting]
      refine ⟨steps + 1, form, .next found unfolds, ?_⟩
      rcases ends with rfl | ⟨others, last, rfl, shorter, fewer, halts⟩
      · exact Or.inl rfl
      · exact Or.inr ⟨others, last, by omega, shorter, input ▸ fewer, halts⟩

/-- The machine stops if every unfolding ends. -/
theorem halts_of_unfolds
    (ends : ∀ input form, ∃ steps last, Unfolds (unfolding grammar table input) steps form last)
    (machine : Machine) : ∃ moves result, Halts grammar table strict moves machine result := by
  induction tokens : machine.input.tokens.length using Nat.strong_induction_on
    generalizing machine with
  | _ tokens ih =>
    obtain ⟨steps, last, unfolds⟩ := ends machine.input (machine.waiting.map Pending.symbol)
    generalize form_eq : machine.waiting.map Pending.symbol = form at unfolds
    -- a machine that does not stop follows the unfolding until it matches a token
    induction steps generalizing machine form with
    | zero =>
      rcases step_cases grammar table strict machine with ⟨next, -, moves⟩ | ⟨result, same, -⟩
      -- the unfolding is over, so that the next move can only match a token
      · obtain ⟨node, rest, waiting, ⟨-, -, fewer⟩ | ⟨expansion, found, -⟩⟩ :=
          moves.unfolding_cases
        · obtain ⟨later, result, halts⟩ := ih _ (by omega) next rfl
          exact ⟨later + 1, result, .move moves halts⟩
        · subst form_eq
          rw [waiting] at unfolds
          cases unfolds with
          | stop _ stuck => simp [stuck] at found
      · exact ⟨0, result, .stop same⟩
    | succ steps inner =>
      cases unfolds with
      | @next s expansion rest _ _ found later =>
        obtain ⟨node, nodes, waiting, rfl, rfl⟩ := List.map_eq_cons_iff.mp form_eq
        obtain ⟨next, moves, input, same⟩ := moves_of_unfolding waiting found
        rw [← input] at later tokens
        obtain ⟨more, result, halts⟩ := inner next tokens _ same later
        exact ⟨more + 1, result, .move moves halts⟩

/-! ### The bound -/

theorem size_le_longestAlternative {s : Symbol} {alternative : Alternative}
    (rule : grammar.HasRule s alternative) : alternative.size ≤ longestAlternative grammar := by
  obtain ⟨alternatives, found, member⟩ := rule
  have listed : alternative.size ∈ grammar.productions.entries.flatMap fun production =>
      production.2.map Alternative.size :=
    List.mem_flatMap.mpr ⟨_, OrderedMap.mem_entries_iff.mpr found, List.mem_map_of_mem member⟩
  rw [longestAlternative, List.foldl_max_eq_max (List.ne_nil_of_mem listed)]
  exact Nat.le_trans (List.le_max_of_mem listed) (Nat.le_max_right _ _)

/-- The sum of the phases: each takes `power` moves for every waiting node, and adds `growth`
waiting nodes. -/
theorem phases_le {steps later tokens waiting next growth power : Nat}
    (few : steps ≤ waiting * power) (short : next ≤ waiting + growth)
    (rest : later ≤ (tokens + 1) * (next + tokens * growth) * power + tokens) :
    steps + later + 1 ≤
      (tokens + 1 + 1) * (waiting + (tokens + 1) * growth) * power + (tokens + 1) := by
  have grown : next + tokens * growth ≤ waiting + (tokens + 1) * growth := by
    rw [Nat.succ_mul]
    omega
  have first : steps ≤ (waiting + (tokens + 1) * growth) * power :=
    few.trans (Nat.mul_le_mul_right power (Nat.le_add_right _ _))
  have others : (tokens + 1) * (next + tokens * growth) * power ≤
      (tokens + 1) * (waiting + (tokens + 1) * growth) * power :=
    Nat.mul_le_mul_right power (Nat.mul_le_mul_left _ grown)
  rw [Nat.succ_mul (tokens + 1), Nat.add_mul]
  omega

/-- The number of moves of a run that stops. -/
theorem Halts.le
    (rules : ∀ {s t alternative}, table.get? s t = some alternative →
      grammar.HasRule s alternative)
    (halts : Halts grammar table strict moves machine result) :
    moves ≤ (machine.input.tokens.length + 1) *
      (machine.waiting.length + machine.input.tokens.length *
        (grammar.productions.size * longestAlternative grammar)) *
      (longestAlternative grammar + 1) ^ grammar.productions.size +
      machine.input.tokens.length := by
  have within : ∀ input s expansion, unfolding grammar table input s = some expansion →
      s ∈ grammar.nonterminals.toFinset ∧ expansion.length ≤ longestAlternative grammar := by
    intro input s expansion found
    obtain ⟨-, t, alternative, -, entry, -, rfl⟩ := unfolding_eq_some_iff.mp found
    have rule := rules entry
    have nonterminal := Grammar.isNonterminal_iff.mp (Grammar.isNonterminal_of_rule rule)
    exact ⟨List.mem_toFinset.mpr nonterminal, size_le_longestAlternative rule⟩
  have count : grammar.nonterminals.toFinset.card = grammar.productions.size := by
    unfold Grammar.nonterminals OrderedMap.keys
    rw [List.toFinset_card_of_nodup grammar.productions.nodup]
    exact List.length_map _
  -- one phase for each token, and a last one that matches none
  induction tokens : machine.input.tokens.length generalizing machine moves with
  | zero =>
    obtain ⟨steps, form, unfolds, rfl | ⟨later, last, -, -, fewer, -⟩⟩ := halts.phase
    · have few := (unfolds.bounded _ (within _)).1
      rw [count, List.length_map] at few
      simpa using few
    · omega
  | succ tokens ih =>
    obtain ⟨steps, form, unfolds, ends⟩ := halts.phase
    obtain ⟨few, short⟩ := unfolds.bounded _ (within _)
    rw [count, List.length_map] at few short
    rcases ends with rfl | ⟨later, last, rfl, shorter, fewer, halts⟩
    · exact Nat.le_of_succ_le (phases_le few short (Nat.zero_le _))
    · exact phases_le few (by omega) (ih halts (by omega))

end Machine

open Machine in
/-- A parse has a result exactly when the machine stops: the steps that it is given suffice. -/
theorem Grammar.parse_eq_some_iff {grammar : Grammar} {table : ParseTable Alternative}
    {strict : Bool} {input : Input} {result : ParseResult}
    (rules : ∀ {s t alternative}, table.get? s t = some alternative →
      grammar.HasRule s alternative) :
    grammar.parse table strict input = some result ↔
      ∃ moves, Halts grammar table strict moves (initial grammar.start input) result := by
  rw [parse, run_eq_some_iff]
  refine exists_congr fun moves => and_iff_right_of_imp fun halts => ?_
  have few := halts.le rules
  have tokens : (initial grammar.start input).input.tokens.length = input.tokens.length := rfl
  have waiting : (initial grammar.start input).waiting.length = 1 := rfl
  rw [tokens, waiting] at few
  -- the fuel is rounded up: it counts one token more, and two moves more
  unfold stepBound
  dsimp only
  rw [Nat.mul_assoc (input.tokens.length + 1) grammar.productions.size]
  have more := Nat.mul_le_mul_right (grammar.productions.size * longestAlternative grammar)
    (Nat.le_succ input.tokens.length)
  have larger := Nat.mul_le_mul_right ((longestAlternative grammar + 1) ^ grammar.productions.size)
    (Nat.mul_le_mul_left (input.tokens.length + 1) (Nat.add_le_add_left more 1))
  exact Nat.lt_succ_of_lt (Nat.lt_succ_of_le (few.trans (Nat.add_le_add_right larger _)))

end Predictive
