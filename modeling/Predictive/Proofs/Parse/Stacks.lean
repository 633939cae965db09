import Predictive.Parse.Stacks
import Predictive.Proofs.Lexer.Calls
import Predictive.Proofs.Navigation

/-!
# Two stacks that stay in step

The machine with two stacks writes to its stacks and to its arena separately. It is compared step by
step with the machine that keeps one list of waiting nodes: the stack of symbols and the stack of
nodes are the two halves of that list, the arena is the one that the events make, and the token that
is read ahead is the first one of the input that is left. Every step of the one is a step of the
other, except that a lexer that fails is noticed already when the token is read ahead. What is known
of the list of waiting nodes is thereby known of the stacks.

## Main definitions

* `Lookahead.Fronts` — what is read ahead, and the input that it begins
* `StackMachine.Mirrors`, `StackMachine.Represents` — the two machines agree
* `StackResult.ofResult` — what a result shows of the stacks
* `StackMachine.Reaches` — the states and results that the machine comes to

## Main results

* `StackMachine.Represents.step` — one step of the two machines
* `Grammar.parseByStacks_eq` — the two machines give the same results
* `Grammar.parseByStacks_consistent` — the stacks and the arena agree at every step
-/

namespace Predictive

/-! ### Reading ahead -/

namespace Scanner

variable {scanner : Scanner} {position after : Position} {token : Token}

/-- The text of the token read last is remembered. -/
theorem matched_next (read : scanner.next position = (.ok token, after)) :
    after.matched = token.text := by
  fun_induction scanner.next position with
  | case1 =>
    cases read
    rfl
  | case2 => cases read
  | case3 =>
    cases read
    rfl
  | case4 _ _ _ _ _ ih => exact ih read

end Scanner

namespace Lexer

/-- A lexer reads a token, the text of which is remembered, or it fails. What is left begins with
what is read. -/
theorem next_cases (lexer : Lexer) :
    (∃ token after, lexer.next = (.ok token, after) ∧ after.matched = token.text ∧
        lexer.scanRest =
          if token.name = Token.eofName then ⟨[], .eof token.text⟩
          else after.scanRest.cons token) ∨
      ∃ error after, lexer.next = (.error error, after) ∧
        lexer.scanRest = ⟨[], .error error⟩ := by
  cases lexer with
  | byRules rules place =>
    rcases found : rules.next place with ⟨answer, left⟩
    cases answer with
    | ok token =>
      exact Or.inl ⟨token, .byRules rules left, by rw [next, found], Scanner.matched_next found,
        Scanner.scanFrom_of_token found⟩
    | error error =>
      exact Or.inr ⟨error, .byRules rules left, by rw [next, found],
        Scanner.scanFrom_of_error found⟩
  | replay answers left last =>
    cases left with
    | nil => exact Or.inl ⟨_, _, rfl, rfl, rfl⟩
    | cons given left =>
      cases given with
      | ok token => exact Or.inl ⟨_, _, rfl, rfl, rfl⟩
      | error error => exact Or.inr ⟨_, _, rfl, rfl⟩

end Lexer

namespace Lookahead

variable {grammar : Grammar} {lexer : Lexer} {ahead : Lookahead} {input : Input} {s : Symbol}

/-- What is read ahead begins an input, of which the lexer still delivers the rest. -/
inductive Fronts (grammar : Grammar) (lexer : Lexer) : Lookahead → Input → Prop where
  /-- A token is read ahead, and its text is remembered. -/
  | token {token : Token} (remembered : lexer.matched = token.text) :
      Fronts grammar lexer ⟨grammar.terminalOf? token, token.name⟩ (lexer.scanRest.cons token)
  /-- The end of input is read ahead. -/
  | eof (text : String) : Fronts grammar lexer ⟨some .eof, Token.eofName⟩ ⟨[], .eof text⟩

/-- A token is read ahead, or the lexer fails. -/
theorem read_cases (grammar : Grammar) (lexer : Lexer) :
    (∃ ahead after, read grammar lexer = (.ok ahead, after) ∧
        ahead.Fronts grammar after lexer.scanRest) ∨
      ∃ error after, read grammar lexer = (.error error, after) ∧
        lexer.scanRest = ⟨[], .error error⟩ := by
  rcases lexer.next_cases with
    ⟨token, after, found, remembered, left⟩ | ⟨error, after, failed, left⟩
  · refine Or.inl ⟨_, after, by rw [read, found], ?_⟩
    rw [left]
    by_cases ended : token.name = Token.eofName
    · rw [if_pos ended, if_pos ended, ended]
      exact .eof token.text
    · rw [if_neg ended, if_neg ended]
      exact .token remembered
  · exact Or.inr ⟨error, after, by rw [read, failed], left⟩

/-- What is read ahead is the lookahead of the input. -/
theorem Fronts.exists_lookahead (fronts : ahead.Fronts grammar lexer input) :
    ∃ token, grammar.lookahead input = .ok (ahead.name, ahead.symbol, token) := by
  cases fronts with
  | token => exact ⟨_, rfl⟩
  | eof => exact ⟨none, rfl⟩

/-- A terminal that is read ahead is that of a token. -/
theorem Fronts.eq_cons (fronts : ahead.Fronts grammar lexer input) (found : ahead.symbol = some s)
    (proper : s ≠ .eof) :
    input = lexer.scanRest.cons ⟨ahead.name, lexer.matched⟩ ∧
      grammar.lookahead input = .ok (ahead.name, some s, some ⟨ahead.name, lexer.matched⟩) := by
  cases fronts with
  | @token token remembered =>
    have same : token = ⟨token.name, lexer.matched⟩ := by rw [remembered]
    rw [← found, ← same]
    exact ⟨rfl, rfl⟩
  | eof => exact absurd (Option.some.inj found).symm proper

end Lookahead

/-! ### Nodes that are made one by one -/

/-- The new nodes are the next ones of the arena. -/
theorem Arena.pushEach_eq (arena : Arena) (parent : Nat) (symbols : List Symbol) :
    pushEach parent symbols arena =
      (List.range' arena.length symbols.length, arena.pushAll symbols parent) := by
  induction symbols generalizing arena with
  | nil => rfl
  | cons s rest ih =>
    have grown : (arena.push s (some parent)).2.length = arena.length + 1 := by simp [push]
    simp only [pushEach, ih, grown]
    rfl

/-! ### The two machines -/

namespace Machine

variable {machine : Machine} {node : Pending} {rest : List Pending}

/-- The leftmost waiting node is on top of both stacks. -/
theorem stack_of_waiting (waiting : machine.waiting = node :: rest) :
    machine.stack = (.eof :: (rest.map Pending.symbol).reverse) ++ [node.symbol] ∧
      machine.nodeStack = (rest.map Pending.id).reverse ++ [node.id] := by
  rw [stack, nodeStack, waiting]
  simp

theorem step_of_derived {grammar : Grammar} {table : ParseTable Alternative} {strict : Bool}
    {name : String} {ahead : Option Symbol} {token : Option Token}
    (derived : ∀ node ∈ machine.waiting.head?, node.symbol = .eof)
    (read : grammar.lookahead machine.input = .ok (name, ahead, token)) :
    machine.step grammar table strict = .inr (machine.finish grammar.start strict name ahead) := by
  rw [step, read]
  cases waiting : machine.waiting with
  | nil => rfl
  | cons node rest =>
    rw [waiting] at derived
    exact if_pos (derived node rfl)

/-- A leftmost node that is not the lookahead is predicted. -/
theorem step_of_differs {grammar : Grammar} (table : ParseTable Alternative) (strict : Bool)
    {name : String} {ahead : Option Symbol} {token : Option Token}
    (waiting : machine.waiting = node :: rest) (proper : node.symbol ≠ .eof)
    (read : grammar.lookahead machine.input = .ok (name, ahead, token))
    (differs : ahead ≠ some node.symbol) :
    machine.step grammar table strict =
      step.predict grammar table machine node rest name ahead := by
  rw [step, read, waiting]
  dsimp only
  rw [if_neg proper]
  split
  · next s token => exact if_neg fun same => differs (congrArg some same)
  · rfl

end Machine

/-- What a verdict shows of the stacks. -/
def Verdict.stackFailure? : Verdict → Option StackFailure
  | .failure failed =>
    some ⟨failed.cause, failed.lookahead, failed.nodeStack.getLast?, failed.nodeStack, failed.stack⟩
  | _ => none

/-- What a result shows of the stacks. It has no log if a line of the log lacks a name. -/
def StackResult.ofResult (grammar : Grammar) (result : ParseResult) : Except Fault StackResult :=
  return ⟨← result.log grammar.names, result.expected, .ofEvents grammar.start result.events,
    result.events, result.verdict.stackFailure?⟩

namespace StackMachine

variable {grammar : Grammar} {table : ParseTable Alternative} {strict : Bool}
  {state next : StackMachine} {machine : Machine} {node : Pending} {rest : List Pending}
  {s : Symbol} {alternative : Alternative} {event : Event} {line : String}

/-- All symbols and all nodes are on the stacks in the end, in reverse. -/
theorem pushPairs_eq (pairs : List (Symbol × Nat)) (state : StackMachine) :
    state.pushPairs pairs = { state with
      stack := state.stack ++ (pairs.map Prod.fst).reverse
      nodes := state.nodes ++ (pairs.map Prod.snd).reverse } := by
  rw [pushPairs, ← List.map_reverse, ← List.map_reverse]
  generalize pairs.reverse = reversed
  induction reversed generalizing state with
  | nil => simp
  | cons pair rest ih =>
    rw [List.foldl_cons, ih]
    simp

/-- The stacks, the arena and the log are those of the other machine. -/
structure Mirrors (grammar : Grammar) (state : StackMachine) (machine : Machine) : Prop where
  /-- The symbols are those of the waiting nodes. -/
  stack_eq : state.stack = machine.stack
  /-- The nodes are the waiting ones. -/
  nodes_eq : state.nodes = machine.nodeStack
  /-- The arena is made by the events. -/
  arena_eq : state.arena = machine.arena grammar.start
  /-- The nodes of the arena are counted. -/
  size_eq : state.arena.length = machine.size
  /-- The same terminals are acceptable. -/
  expected_eq : state.expected = machine.expected
  /-- The same was told of the steps. -/
  events_eq : state.events = machine.events.reverse
  /-- Every event left its line in the log. -/
  lines : machine.events.reverse.mapM (Event.render grammar.names) = .ok state.log

/-- The two machines agree between two steps. -/
structure Represents (grammar : Grammar) (state : StackMachine) (machine : Machine) : Prop
    extends Mirrors grammar state machine where
  /-- What is read ahead begins the input that is left. -/
  ahead : state.lookahead.Fronts grammar state.lexer machine.input

/-- Two machines that agree stop alike. -/
theorem Mirrors.fail_eq (mirrors : Mirrors grammar state machine) (cause : Cause) :
    state.fail grammar cause = StackResult.ofResult grammar
      (machine.fail grammar.start cause state.lookahead.name) := by
  have log : (machine.fail grammar.start cause state.lookahead.name).log grammar.names =
      (cause.render grammar.names state.lookahead.name).map fun line => state.log ++ [line] := by
    rw [ParseResult.log, Machine.fail, Machine.halt, mirrors.lines]
    rfl
  rw [fail, StackResult.ofResult, log]
  cases cause.render grammar.names state.lookahead.name with
  | error => rfl
  | ok line =>
    have arena : state.arena = .ofEvents grammar.start machine.events.reverse := mirrors.arena_eq
    have stack : state.stack = .eof :: (machine.waiting.map Pending.symbol).reverse :=
      mirrors.stack_eq
    have nodes : state.nodes = (machine.waiting.map Pending.id).reverse := mirrors.nodes_eq
    rw [arena, stack, nodes, mirrors.expected_eq, mirrors.events_eq]
    rfl

theorem Mirrors.expecting (mirrors : Mirrors grammar state machine) (expected : SymbolSet) :
    Mirrors grammar { state with expected } { machine with expected } :=
  ⟨mirrors.stack_eq, mirrors.nodes_eq, mirrors.arena_eq, mirrors.size_eq, rfl, mirrors.events_eq,
    mirrors.lines⟩

theorem Represents.marked (represents : Represents grammar state machine) (expected : SymbolSet) :
    Represents grammar { state with expected } { machine with expected } :=
  ⟨represents.expecting expected, represents.ahead⟩

theorem Mirrors.finish_eq (mirrors : Mirrors grammar state machine) :
    state.finish grammar strict = StackResult.ofResult grammar
      (machine.finish grammar.start strict state.lookahead.name state.lookahead.symbol) := by
  unfold finish Machine.finish
  split
  · rw [mirrors.expected_eq]
    exact (mirrors.expecting _).fail_eq .trailingInput
  · have arena : state.arena = .ofEvents grammar.start machine.events.reverse := mirrors.arena_eq
    have log : (machine.halt grammar.start .success).log grammar.names =
        .ok (state.log ++ ["success"]) := by
      rw [ParseResult.log, Machine.halt, mirrors.lines]
      rfl
    rw [StackResult.ofResult, log, arena, mirrors.expected_eq, mirrors.events_eq]
    rfl

/-- An event leaves one more line. -/
theorem Mirrors.lines_concat (mirrors : Mirrors grammar state machine)
    (rendered : event.render grammar.names = .ok line) :
    (event :: machine.events).reverse.mapM (Event.render grammar.names) =
      .ok (state.log ++ [line]) := by
  rw [List.reverse_cons, List.mapM_append, mirrors.lines]
  simp only [List.mapM_cons, List.mapM_nil, rendered]
  rfl

/-! ### One step -/

theorem Mirrors.reading (mirrors : Mirrors grammar state machine) (lookahead : Lookahead)
    (lexer : Lexer) : Mirrors grammar { state with lookahead, lexer } machine :=
  ⟨mirrors.stack_eq, mirrors.nodes_eq, mirrors.arena_eq, mirrors.size_eq, mirrors.expected_eq,
    mirrors.events_eq, mirrors.lines⟩

/-- What a step has given agrees with the other machine: there is a state that represents it, or it
stops with the result that is shown. -/
inductive Agrees (grammar : Grammar) (table : ParseTable Alternative) (strict : Bool)
    (machine : Machine) : Except Fault (StackMachine ⊕ StackResult) → Prop where
  /-- Both machines are ready for the next step. -/
  | ready {state : StackMachine} (represents : Represents grammar state machine) :
      Agrees grammar table strict machine (.ok (.inl state))
  /-- Both machines stop. -/
  | stopped {result : ParseResult} (last : machine.step grammar table strict = .inr result) :
      Agrees grammar table strict machine ((StackResult.ofResult grammar result).map .inr)

theorem Agrees.represents
    (agrees : Agrees grammar table strict machine (.ok (.inl state))) :
    Represents grammar state machine := by
  generalize shape : (Except.ok (.inl state) : Except Fault (StackMachine ⊕ StackResult)) =
    outcome at agrees
  cases agrees with
  | ready represents =>
    cases shape
    exact represents
  | @stopped result =>
    cases shown : StackResult.ofResult grammar result with
    | error => rw [shown] at shape; cases shape
    | ok => rw [shown] at shape; cases shape

theorem Agrees.stops {shown : StackResult}
    (agrees : Agrees grammar table strict machine (.ok (.inr shown))) :
    ∃ result, machine.step grammar table strict = .inr result ∧
      StackResult.ofResult grammar result = .ok shown := by
  generalize shape : (Except.ok (.inr shown) : Except Fault (StackMachine ⊕ StackResult)) =
    outcome at agrees
  cases agrees with
  | ready => cases shape
  | @stopped result last =>
    refine ⟨result, last, ?_⟩
    cases shows : StackResult.ofResult grammar result with
    | error => rw [shows] at shape; cases shape
    | ok => rw [shows] at shape; cases shape; rfl

/-- A lexer that fails is noticed when it is read ahead, and by the other machine in its next
step. -/
theorem Mirrors.readAhead (table : ParseTable Alternative) (strict : Bool)
    (mirrors : Mirrors grammar state machine) (left : machine.input = state.lexer.scanRest) :
    Agrees grammar table strict machine (state.readAhead grammar) := by
  unfold StackMachine.readAhead
  rcases Lookahead.read_cases grammar state.lexer with
    ⟨ahead, after, read, fronts⟩ | ⟨error, after, read, failed⟩
  · rw [read]
    exact .ready ⟨mirrors.reading ahead after, left ▸ fronts⟩
  · rw [read]
    dsimp only
    rw [(mirrors.reading ⟨none, ""⟩ after).fail_eq (.lexicalError error)]
    exact .stopped (by simp [Machine.step, Grammar.lookahead, left, failed])

/-- A match drops the tops of the two stacks, and is a move of the other machine. -/
theorem Represents.shift (table : ParseTable Alternative)
    (represents : Represents grammar state machine) (waiting : machine.waiting = node :: rest)
    (proper : node.symbol ≠ .eof) (same : state.lookahead.symbol = some node.symbol) :
    ∃ next moved, state.shift grammar node.symbol node.id = next.readAhead grammar ∧
      machine.Moves grammar table moved ∧ Mirrors grammar next moved ∧
      moved.input = next.lexer.scanRest := by
  obtain ⟨input, read⟩ := represents.ahead.eq_cons same proper
  obtain ⟨stack, nodes⟩ := Machine.stack_of_waiting waiting
  let token : Token := ⟨state.lookahead.name, state.lexer.matched⟩
  refine ⟨_, machine.shift node rest token, rfl, .shift waiting proper read, ?_, ?_⟩
  · constructor
    · rw [represents.stack_eq, stack, List.dropLast_concat]
      rfl
    · rw [represents.nodes_eq, nodes, List.dropLast_concat]
      rfl
    · rw [Machine.arena_shift, ← represents.arena_eq]
    · rw [Arena.setText, List.length_modify]
      exact represents.size_eq
    · rfl
    · rw [represents.events_eq, Machine.shift, List.reverse_cons]
    · exact represents.lines_concat rfl
  · rw [Machine.shift, input]
    rfl

/-- An expansion puts new symbols and new nodes on the two stacks. -/
theorem Represents.expand (represents : Represents grammar state machine)
    (waiting : machine.waiting = node :: rest)
    (rendered : (Event.expand node s alternative (machine.size + alternative.size)).render
      grammar.names = .ok line) :
    ∃ next, state.expand grammar node.symbol node.id s alternative = .ok (.inl next) ∧
      Represents grammar next (machine.expand node rest s alternative) := by
  obtain ⟨stack, nodes⟩ := Machine.stack_of_waiting waiting
  have size : (state.arena.pushAll alternative.symbols node.id).length =
      machine.size + alternative.size := by
    rw [Arena.length_pushAll, represents.size_eq]
    rfl
  have counted : alternative.symbols.length =
      (List.range' state.arena.length alternative.symbols.length).length := by simp
  unfold StackMachine.expand record
  rw [Arena.pushEach_eq]
  dsimp only
  rw [size, rendered]
  refine ⟨_, congrArg (fun next => Except.ok (Sum.inl next)) (pushPairs_eq _ _), ?_,
    represents.ahead⟩
  rw [List.map_fst_zip counted.le, List.map_snd_zip counted.ge]
  constructor
  · dsimp only
    rw [represents.stack_eq, stack, List.dropLast_concat]
    simp [Machine.stack, Machine.expand]
  · dsimp only
    rw [represents.nodes_eq, nodes, List.dropLast_concat, represents.size_eq]
    simp [Machine.nodeStack, Machine.expand, Machine.map_id_number]
  · rw [Machine.arena_expand, ← represents.arena_eq]
  · exact size
  · exact represents.expected_eq
  · rw [represents.events_eq, Machine.expand, List.reverse_cons]
  · exact represents.lines_concat rendered

/-- An alternative that the table has for the lookahead is a move of the other machine. -/
theorem Represents.consult (wellFormed : grammar.WellFormed)
    (rules : ∀ {s t alternative}, table.get? s t = some alternative →
      grammar.HasRule s alternative)
    (represents : Represents grammar state machine) (strict : Bool)
    (waiting : machine.waiting = node :: rest) (proper : node.symbol ≠ .eof)
    (nonterminal : grammar.isTerminal node.symbol = false)
    (ahead : state.lookahead.symbol = some s) (differs : s ≠ node.symbol)
    (entry : table.get? node.symbol s = some alternative) :
    ∃ moved, machine.Moves grammar table moved ∧
      Agrees grammar table strict moved
        ({ state with
          expected := machine.expected.union (table.lookaheads node.symbol) }.expand
            grammar node.symbol node.id s alternative) := by
  have rule := rules entry
  have named : ∀ t ∈ alternative.symbols, t.id < grammar.names.size := fun t listed =>
    wellFormed.named (wellFormed.knows_of_rule rule t listed)
  obtain ⟨token, read⟩ := represents.ahead.exists_lookahead
  rw [ahead] at read
  obtain ⟨line, rendered⟩ :
      ∃ line, (Event.expand node s alternative (machine.size + alternative.size)).render
        grammar.names = .ok line := wellFormed.exists_line_of_rule rule
  have marked := represents.marked (machine.expected.union (table.lookaheads node.symbol))
  obtain ⟨next, expanded, agrees⟩ := marked.expand waiting rendered
  exact ⟨_, .expand waiting proper read differs nonterminal entry named, expanded ▸ .ready agrees⟩

theorem Represents.finish (represents : Represents grammar state machine)
    (derived : ∀ node ∈ machine.waiting.head?, node.symbol = .eof) :
    ∃ result, machine.step grammar table strict = .inr result ∧
      state.finish grammar strict = StackResult.ofResult grammar result := by
  obtain ⟨token, read⟩ := represents.ahead.exists_lookahead
  exact ⟨_, Machine.step_of_derived derived read, represents.finish_eq⟩

/-- A step of the machine with two stacks is a step of the other machine: both stop, or the other
one moves, and they agree after that. -/
theorem Represents.step (wellFormed : grammar.WellFormed)
    (rules : ∀ {s t alternative}, table.get? s t = some alternative →
      grammar.HasRule s alternative)
    (represents : Represents grammar state machine) (strict : Bool) :
    (∃ result, machine.step grammar table strict = .inr result ∧
        state.step grammar table strict = (StackResult.ofResult grammar result).map .inr) ∨
      ∃ moved, machine.Moves grammar table moved ∧
        Agrees grammar table strict moved (state.step grammar table strict) := by
  obtain ⟨token, read⟩ := represents.ahead.exists_lookahead
  cases waiting : machine.waiting with
  | nil =>
    have top : state.stack.getLast? = some .eof := by
      rw [represents.stack_eq, Machine.stack, waiting]
      rfl
    obtain ⟨result, last, finished⟩ := represents.finish (by simp [waiting])
    refine Or.inl ⟨result, last, ?_⟩
    rw [StackMachine.step, top, ← finished]
    rfl
  | cons node rest =>
    obtain ⟨stack, nodes⟩ := Machine.stack_of_waiting waiting
    have top : state.stack.getLast? = some node.symbol := by
      rw [represents.stack_eq, stack, List.getLast?_concat]
    have current : state.nodes.getLast? = some node.id := by
      rw [represents.nodes_eq, nodes, List.getLast?_concat]
    rw [StackMachine.step, top, current]
    dsimp only
    split
    · next derived =>
      obtain ⟨result, last, finished⟩ := represents.finish (by simp [waiting, derived])
      exact Or.inl ⟨result, last, by rw [finished]⟩
    · next proper =>
      split
      · next same =>
        obtain ⟨next, moved, shifted, moves, mirrors, left⟩ :=
          represents.shift table waiting proper same
        exact Or.inr ⟨moved, moves, shifted ▸ mirrors.readAhead table strict left⟩
      · next differs =>
        have predicted := Machine.step_of_differs table strict waiting proper read differs
        unfold Machine.step.predict at predicted
        split
        · next terminal =>
          rw [if_pos terminal] at predicted
          refine Or.inl ⟨_, predicted, ?_⟩
          rw [represents.expected_eq, (represents.expecting _).fail_eq]
        · next nonterminal =>
          rw [if_neg nonterminal] at predicted
          dsimp only at predicted ⊢
          rw [represents.expected_eq]
          have marked := represents.marked
            (machine.expected.union (table.lookaheads node.symbol))
          split
          · next none =>
            rw [none] at predicted
            refine Or.inl ⟨_, predicted, ?_⟩
            rw [marked.fail_eq]
          · next s alternative found =>
            obtain ⟨u, ahead, mapped⟩ := Option.bind_eq_some_iff.mp found
            obtain ⟨entry, present, same⟩ := Option.map_eq_some_iff.mp mapped
            obtain ⟨rfl, rfl⟩ := Prod.mk.inj same
            have other : u ≠ node.symbol := fun same => differs (ahead.trans (congrArg some same))
            exact Or.inr (represents.consult wellFormed rules strict waiting proper
              (Bool.eq_false_iff.mpr nonterminal) ahead other present)

/-! ### Whole runs -/

/-- The two machines agree from the start on. -/
theorem agrees_start (wellFormed : grammar.WellFormed) (table : ParseTable Alternative)
    (strict : Bool) (lexer : Lexer) (text : String) :
    Agrees grammar table strict (Machine.initial grammar.start (lexer.scan text))
      (start grammar (lexer.restart text)) := by
  obtain ⟨name, named⟩ := NameTable.Holds.succeeds_name
    (wellFormed.named (Or.inr wellFormed.start_isNonterminal))
  rw [start, named]
  exact Mirrors.readAhead table strict ⟨rfl, rfl, rfl, rfl, rfl, rfl, rfl⟩ rfl

theorem run_of_stopped (fuel : Nat) (shown : Except Fault StackResult) :
    run grammar table strict fuel (shown.map .inr) = some shown := by
  cases shown with
  | error => cases fuel <;> rfl
  | ok => cases fuel <;> rfl

/-- A run with a result has it from the other machine. -/
theorem Agrees.exists_halts (wellFormed : grammar.WellFormed)
    (rules : ∀ {s t alternative}, table.get? s t = some alternative →
      grammar.HasRule s alternative)
    {outcome : Except Fault (StackMachine ⊕ StackResult)} {fuel : Nat}
    {shown : Except Fault StackResult} (agrees : Agrees grammar table strict machine outcome)
    (ran : run grammar table strict fuel outcome = some shown) :
    ∃ moves result, Machine.Halts grammar table strict moves machine result ∧
      StackResult.ofResult grammar result = shown := by
  induction fuel generalizing machine outcome with
  | zero =>
    cases agrees with
    | ready => cases ran
    | @stopped result last =>
      rw [run_of_stopped] at ran
      exact ⟨0, result, .stop last, Option.some.inj ran⟩
  | succ fuel ih =>
    cases agrees with
    | @stopped result last =>
      rw [run_of_stopped] at ran
      exact ⟨0, result, .stop last, Option.some.inj ran⟩
    | ready represents =>
      rw [run] at ran
      rcases represents.step wellFormed rules strict with
        ⟨result, last, stepped⟩ | ⟨moved, moves, agrees⟩
      · rw [stepped, run_of_stopped] at ran
        exact ⟨0, result, .stop last, Option.some.inj ran⟩
      · obtain ⟨count, result, halts, shows⟩ := ih agrees ran
        exact ⟨count + 1, result, .move moves halts, shows⟩

/-- A run has the result of the other machine, if there is fuel for the moves of that machine. -/
theorem Agrees.run_eq (wellFormed : grammar.WellFormed)
    (rules : ∀ {s t alternative}, table.get? s t = some alternative →
      grammar.HasRule s alternative)
    {outcome : Except Fault (StackMachine ⊕ StackResult)} {fuel moves : Nat}
    {result : ParseResult} (agrees : Agrees grammar table strict machine outcome)
    (halts : Machine.Halts grammar table strict moves machine result) (enough : moves < fuel) :
    run grammar table strict fuel outcome = some (StackResult.ofResult grammar result) := by
  induction halts generalizing outcome fuel with
  | @stop machine result last =>
    cases agrees with
    | @stopped other last' =>
      rw [run_of_stopped, Sum.inr.inj (last.symm.trans last')]
    | ready represents =>
      obtain ⟨fuel, rfl⟩ := Nat.exists_eq_add_of_lt enough
      rw [Nat.zero_add, run]
      rcases represents.step wellFormed rules strict with
        ⟨other, last', stepped⟩ | ⟨moved, moves, -⟩
      · rw [stepped, run_of_stopped, Sum.inr.inj (last.symm.trans last')]
      · rw [moves.step_eq] at last
        cases last
  | @move machine next result moves first later ih =>
    cases agrees with
    | stopped last =>
      rw [first.step_eq] at last
      cases last
    | ready represents =>
      obtain ⟨fuel, rfl⟩ := Nat.exists_eq_add_one_of_ne_zero (Nat.ne_zero_of_lt enough)
      rw [run]
      rcases represents.step wellFormed rules strict with
        ⟨other, last, -⟩ | ⟨moved, moves, agrees⟩
      · rw [first.step_eq] at last
        cases last
      · have same : machine.step grammar table strict = .inl next := first.step_eq
        obtain rfl := Sum.inl.inj (same.symm.trans moves.step_eq)
        exact ih agrees (Nat.lt_of_succ_lt_succ enough)

/-- The states and the results that the machine comes to, from its start on. -/
inductive Reaches (grammar : Grammar) (table : ParseTable Alternative) (strict : Bool)
    (lexer : Lexer) (text : String) : StackMachine ⊕ StackResult → Prop where
  /-- The first token is read ahead. -/
  | start {outcome : StackMachine ⊕ StackResult}
      (begun : start grammar (lexer.restart text) = .ok outcome) :
      Reaches grammar table strict lexer text outcome
  /-- A step is made. -/
  | step {state : StackMachine} {outcome : StackMachine ⊕ StackResult}
      (reached : Reaches grammar table strict lexer text (.inl state))
      (stepped : state.step grammar table strict = .ok outcome) :
      Reaches grammar table strict lexer text outcome

variable {lexer : Lexer} {text : String}

/-- What a run gives is reached. -/
theorem reaches_of_run {outcome : StackMachine ⊕ StackResult} {fuel : Nat} {shown : StackResult}
    (reached : Reaches grammar table strict lexer text outcome)
    (ran : run grammar table strict fuel (.ok outcome) = some (.ok shown)) :
    Reaches grammar table strict lexer text (.inr shown) := by
  induction fuel generalizing outcome with
  | zero =>
    cases outcome with
    | inl => cases ran
    | inr =>
      cases ran
      exact reached
  | succ fuel ih =>
    cases outcome with
    | inr =>
      cases ran
      exact reached
    | inl state =>
      rw [run] at ran
      cases stepped : state.step grammar table strict with
      | error =>
        rw [stepped] at ran
        cases fuel <;> cases ran
      | ok outcome =>
        rw [stepped] at ran
        exact ih (.step reached stepped) ran

/-- What is reached agrees with a state that the other machine comes to. -/
theorem Reaches.exists_agrees (wellFormed : grammar.WellFormed)
    (rules : ∀ {s t alternative}, table.get? s t = some alternative →
      grammar.HasRule s alternative)
    {outcome : StackMachine ⊕ StackResult}
    (reaches : Reaches grammar table strict lexer text outcome) :
    ∃ machine, Machine.Reaches grammar table (lexer.scan text) machine ∧
      Agrees grammar table strict machine (.ok outcome) := by
  induction reaches with
  | start begun =>
    exact ⟨_, .refl, begun ▸ agrees_start wellFormed table strict lexer text⟩
  | step _ stepped ih =>
    obtain ⟨machine, reaches, agrees⟩ := ih
    rcases agrees.represents.step wellFormed rules strict with
      ⟨result, last, shows⟩ | ⟨moved, moves, agrees⟩
    · refine ⟨machine, reaches, ?_⟩
      rw [← stepped, shows]
      exact .stopped last
    · exact ⟨moved, reaches.tail moves, stepped ▸ agrees⟩

end StackMachine

open StackMachine in
/-- The two machines give the same results, and one of them gives none exactly if the other one does
not. -/
theorem Grammar.parseByStacks_eq {grammar : Grammar} (wellFormed : grammar.WellFormed)
    {table : ParseTable Alternative}
    (rules : ∀ {s t alternative}, table.get? s t = some alternative →
      grammar.HasRule s alternative) (strict : Bool) (lexer : Lexer) (text : String) :
    grammar.parseByStacks table strict lexer text =
      (grammar.parse table strict (lexer.scan text)).map (StackResult.ofResult grammar) := by
  have agrees := agrees_start wellFormed table strict lexer text
  refine Option.ext fun shown => ?_
  rw [Option.map_eq_some_iff]
  constructor
  · intro ran
    obtain ⟨moves, result, halts, shows⟩ := agrees.exists_halts wellFormed rules ran
    exact ⟨result, (parse_eq_some_iff rules).mpr ⟨moves, halts⟩, shows⟩
  · rintro ⟨result, parsed, rfl⟩
    obtain ⟨moves, enough, halts⟩ := Machine.run_eq_some_iff.mp parsed
    exact agrees.run_eq wellFormed rules halts enough

/-- Where the machine stops, the log can be closed, if every lookahead of the table has a name. -/
theorem Machine.Stops.succeeds_render {grammar : Grammar} (wellFormed : grammar.WellFormed)
    {table : ParseTable Alternative}
    (rules : ∀ {s t alternative}, table.get? s t = some alternative →
      grammar.HasRule s alternative)
    (named : ∀ s, ∀ t ∈ table.lookaheads s, grammar.names.Holds t) {strict : Bool}
    {machine : Machine} {result : ParseResult}
    (stops : Machine.Stops grammar table strict machine result) :
    Succeeds (result.verdict.render grammar.names) := by
  obtain ⟨-, -, -, ⟨success, -⟩ | ⟨failed, same, -⟩⟩ := stops.shows wellFormed rules
  · exact ⟨"success", by rw [success]; rfl⟩
  · cases stops with
    | lexicalError => exact succeeds_ok _
    | @finish name ahead =>
      unfold Machine.finish
      split
      · exact succeeds_ok _
      · exact succeeds_ok _
    | unexpected _ _ _ _ terminal =>
      exact (NameTable.Holds.succeeds_name (wellFormed.named (Or.inl terminal))).bind fun _ =>
        succeeds_ok _
    | @noEntry node =>
      exact (NameTable.succeeds_displaySet (named node.symbol)).bind fun _ => succeeds_ok _
    | fault => cases same

/-- A parse by the table of a grammar has the result that it has with one list of waiting nodes. No
name is lacking in its log. -/
theorem Grammar.exists_parseByStacks {grammar : Grammar} (wellFormed : grammar.WellFormed)
    {strict : Bool} {lexer : Lexer} {text : String} {result : ParseResult}
    (parsed : grammar.parse (ParseTable.ofGrammar grammar) strict (lexer.scan text) =
      some result) :
    ∃ shown, grammar.parseByStacks (ParseTable.ofGrammar grammar) strict lexer text =
        some (.ok shown) ∧ StackResult.ofResult grammar result = .ok shown := by
  have rules : ∀ {s t alternative}, (ParseTable.ofGrammar grammar).get? s t = some alternative →
      grammar.HasRule s alternative := fun found => ParseTable.hasRule_of_get?_build found
  have named : ∀ s, ∀ t ∈ (ParseTable.ofGrammar grammar).lookaheads s, grammar.names.Holds t := by
    intro s t listed
    obtain ⟨alternative, entry⟩ := Option.isSome_iff_exists.mp (ParseTable.mem_lookaheads.mp listed)
    exact wellFormed.named (Or.inl (ParseTable.predicts_of_get? wellFormed entry).2.1)
  obtain ⟨moves, halts⟩ := (parse_eq_some_iff rules).mp parsed
  obtain ⟨last, reaches, stops⟩ := halts.exists_reaches
  obtain ⟨lines, rendered, -⟩ := wellFormed.exists_lines rules (.of_reaches rules reaches)
  obtain ⟨events, -⟩ := stops.shows wellFormed rules
  obtain ⟨line, closed⟩ := stops.succeeds_render wellFormed rules named
  have log : result.log grammar.names = .ok (lines ++ [line]) := by
    rw [ParseResult.log, events, rendered, closed]
    rfl
  refine ⟨_, ?_, by rw [StackResult.ofResult, log]; rfl⟩
  rw [parseByStacks_eq wellFormed rules, parsed, Option.map_some, StackResult.ofResult, log]
  rfl

/-! ### What the stacks have in common -/

/-- The stacks, the arena and what was told of the steps agree with each other and with the
input. -/
structure Grammar.Consistent (grammar : Grammar) (input : Input) (stack : List Symbol)
    (nodes : List Nat) (arena : Arena) (events : List Event) : Prop where
  /-- The tokens that were matched are the first ones of the input. -/
  consumed : (events.filterMap Event.shifted?).map Prod.snd <+: input.tokens
  /-- Each of them is read as the terminal that it matched. -/
  read : ∀ leaf ∈ events.filterMap Event.shifted?, grammar.terminalOf? leaf.2 = some leaf.1
  /-- The arena holds a tree, and the stacks are those of the tree. -/
  exists_tree : ∃ tree : Tree, tree.Held arena ∧
    grammar.Snapshot stack nodes tree arena.length (events.filterMap Event.shifted?)
  /-- The texts found in the arena are those of the tokens that were matched. -/
  text_eq : ∀ separator, arena.text separator 0 = some
    (separator.intercalate ((events.filterMap Event.shifted?).map fun leaf => leaf.2.text))

/-- They do where one list of waiting nodes stands for the two stacks. -/
theorem Machine.Reaches.consistent {grammar : Grammar} {table : ParseTable Alternative}
    {input : Input} {machine : Machine}
    (rules : ∀ {s t alternative}, table.get? s t = some alternative →
      grammar.HasRule s alternative)
    (reaches : Machine.Reaches grammar table input machine) :
    grammar.Consistent input machine.stack machine.nodeStack (machine.arena grammar.start)
      machine.events.reverse := by
  have builds := Builds.of_reaches rules reaches
  have traverses := Traverses.of_reaches rules reaches
  obtain ⟨-, held⟩ := traverses.preorder builds
  have snapshot := builds.snapshot
  refine ⟨⟨_, builds.consumed.symm⟩, builds.read, ⟨_, held, ?_⟩, fun separator => ?_⟩
  · rw [traverses.length_eq]
    exact snapshot
  · have text := Tree.text_eq held.isIn separator
    rw [held.root, snapshot.text_eq] at text
    exact text

/-- Two stacks that are written to separately, the arena, and the tokens agree at every step and in
every result, for any table of the grammar's own alternatives. As long as the end of input is not on
top of the stack of symbols, there is a node on top of the other stack. A result shows the last
step: it succeeds with the end of input on top, or it fails and shows both stacks and the node on
top. By the table of the grammar itself, no parse is a fault. -/
theorem Grammar.parseByStacks_consistent {grammar : Grammar} (wellFormed : grammar.WellFormed)
    (firsts : FirstSets) (follows : FollowSets) (strict : Bool) (lexer : Lexer) (text : String) :
    let table := ParseTable.build grammar firsts follows
    let input := lexer.scan text
    (∀ state, StackMachine.Reaches grammar table strict lexer text (.inl state) →
      grammar.Consistent input state.stack state.nodes state.arena state.events ∧
        (state.stack.getLast? ≠ some .eof → ∃ node, state.nodes.getLast? = some node)) ∧
    (∀ result, StackMachine.Reaches grammar table strict lexer text (.inr result) →
      (result.failure = none ∧ ∃ stack nodes, stack.getLast? = some .eof ∧
          grammar.Consistent input stack nodes result.arena result.events) ∨
        ∃ failure, result.failure = some failure ∧ failure.current = failure.nodes.getLast? ∧
          grammar.Consistent input failure.stack failure.nodes result.arena result.events) ∧
    (∀ result, grammar.parseByStacks table strict lexer text = some (.ok result) →
      StackMachine.Reaches grammar table strict lexer text (.inr result)) ∧
    ∀ fault, grammar.parseByStacks (ParseTable.ofGrammar grammar) strict lexer text ≠
      some (.error fault) := by
  intro table input
  have rules : ∀ {s t alternative}, table.get? s t = some alternative →
      grammar.HasRule s alternative := fun found => ParseTable.hasRule_of_get?_build found
  refine ⟨fun state reaches => ?_, fun shown reaches => ?_, fun shown ran => ?_,
    fun fault ran => ?_⟩
  · obtain ⟨machine, reached, agrees⟩ := reaches.exists_agrees wellFormed rules
    have represents := agrees.represents
    have consistent := reached.consistent rules
    rw [← represents.stack_eq, ← represents.nodes_eq, ← represents.arena_eq,
      ← represents.events_eq] at consistent
    refine ⟨consistent, fun unfinished => ?_⟩
    obtain ⟨tree, -, snapshot⟩ := consistent.exists_tree
    exact ⟨_, List.getLast?_eq_some_getLast (snapshot.nodes_ne_nil unfinished)⟩
  · obtain ⟨machine, reached, agrees⟩ := reaches.exists_agrees wellFormed rules
    have consistent := reached.consistent rules
    obtain ⟨result, last, shows⟩ := agrees.stops
    obtain ⟨lines, -, rest⟩ := bind_eq_ok_iff.mp shows
    obtain rfl := Except.ok.inj rest
    obtain ⟨events, -, -, verdict⟩ := (Machine.stops_of_step last).shows wellFormed rules
    rw [Machine.arena, ← events] at consistent
    rcases verdict with ⟨success, top⟩ | ⟨failure, failed, waiting⟩
    · exact Or.inl ⟨by rw [success]; rfl, _, _, top, consistent⟩
    · refine Or.inr ⟨_, by rw [failed]; rfl, rfl, ?_⟩
      have stack : failure.stack = machine.stack := by rw [Failure.stack, waiting]; rfl
      have nodes : failure.nodeStack = machine.nodeStack := by
        rw [Failure.nodeStack, waiting]
        rfl
      rw [stack, nodes]
      exact consistent
  · rw [parseByStacks] at ran
    cases begun : StackMachine.start grammar (lexer.restart text) with
    | error fault =>
      rw [begun] at ran
      cases (StackMachine.run_of_stopped _ (.error fault)).symm.trans ran
    | ok outcome =>
      rw [begun] at ran
      exact StackMachine.reaches_of_run (.start begun) ran
  · have own : ∀ {s t alternative}, (ParseTable.ofGrammar grammar).get? s t = some alternative →
        grammar.HasRule s alternative := fun found => ParseTable.hasRule_of_get?_build found
    obtain ⟨result, parsed, -⟩ :=
      Option.map_eq_some_iff.mp (parseByStacks_eq wellFormed own strict lexer text ▸ ran)
    obtain ⟨shown, given, -⟩ := exists_parseByStacks wellFormed parsed
    rw [given] at ran
    cases ran

/-- A table with a conflict: the later of two alternatives is tried, and the parse fails after one
token with four nodes in the arena, one of which is still on the stack. -/
theorem Grammar.parseByStacks_consistent_conflict :
    let lexer := Lexer.ofAnswers [.ok ⟨"a", "1"⟩, .ok ⟨"b", "2"⟩]
    ∃ grammar, Grammar.ofText "S : a S b | a S c | ;" = .ok grammar ∧
      (ParseTable.ofGrammar grammar).isLL1 = false ∧
      ∃ result failure, grammar.parseByStacks (ParseTable.ofGrammar grammar) true lexer "" =
          some (.ok result) ∧
        result.failure = some failure ∧ failure.nodes = [3] ∧ failure.current = some 3 ∧
        result.arena.length = 4 ∧ result.arena.text " " 0 = some "1" ∧
        grammar.Consistent (lexer.scan "") failure.stack failure.nodes result.arena
          result.events := by
  intro lexer
  obtain ⟨grammar, defined, wellFormed, checked⟩ := Grammar.exists_of_ofText
    "S : a S b | a S c | ;"
    (fun grammar => !(ParseTable.ofGrammar grammar).isLL1 &&
      (grammar.parseByStacks (ParseTable.ofGrammar grammar) true
        (Lexer.ofAnswers [.ok ⟨"a", "1"⟩, .ok ⟨"b", "2"⟩]) "").any fun shown =>
          shown.toOption.any fun result =>
            result.arena.length == 4 &&
              (result.events.filterMap Event.shifted?).map (fun leaf => leaf.2.text) == ["1"] &&
              result.failure.any fun failure => failure.nodes == [3])
    (by decide +kernel)
  rw [Bool.and_eq_true, Bool.not_eq_true'] at checked
  obtain ⟨conflict, ran⟩ := checked
  obtain ⟨shown, parsed, given⟩ := (Option.any_eq_true _ _).mp ran
  obtain ⟨result, ended, shows⟩ := (Option.any_eq_true _ _).mp given
  obtain rfl := toOption_eq_some_iff.mp ended
  rw [Bool.and_eq_true, Bool.and_eq_true, beq_iff_eq, beq_iff_eq] at shows
  obtain ⟨⟨size, texts⟩, fails⟩ := shows
  obtain ⟨failure, failed, nodes⟩ := (Option.any_eq_true _ _).mp fails
  rw [beq_iff_eq] at nodes
  obtain ⟨-, results, reached, -⟩ := Grammar.parseByStacks_consistent wellFormed
    (FirstSets.compute grammar) (FollowSets.compute grammar (FirstSets.compute grammar)) true
    lexer ""
  rcases results result (reached result parsed) with ⟨none, -⟩ | ⟨other, same, top, consistent⟩
  · rw [failed] at none
    cases none
  · obtain rfl := Option.some.inj (failed.symm.trans same)
    refine ⟨grammar, defined, conflict, result, failure, parsed, failed, nodes, ?_, size, ?_,
      consistent⟩
    · rw [top, nodes]
      rfl
    · rw [consistent.text_eq, texts]
      rfl

end Predictive
