import Mathlib.Logic.Relation
import Predictive.Parse.Machine
import Predictive.Proofs.WellFormed

/-!
# Steps of the predictive machine

One step of the machine by rules: it moves on when the leftmost waiting node is matched or
expanded, and otherwise it stops for one of five reasons. A run is a number of moves with a stop at
their end, and what every move preserves holds at the stop.

## Main definitions

* `Machine.Moves` — the machine goes on to another state
* `Machine.Stops` — the machine stops with a result
* `Machine.Halts` — the number of moves until the machine stops, and its result

## Main results

* `Machine.step_cases`, `Machine.Moves.step_eq` — a step follows the rules
* `Machine.run_eq_some_iff` — a run is a number of moves and a stop
* `Machine.Halts.stops` — a run ends in a reachable state
-/

namespace Predictive

namespace Grammar

variable {grammar : Grammar} {input : Input} {name : String} {s : Symbol} {token : Token}

/-- The terminal that a token is read as. -/
def terminalOf? (grammar : Grammar) (token : Token) : Option Symbol :=
  (grammar.symbol? token.name).filter grammar.isTerminal

theorem terminalOf?_eq_some_iff :
    grammar.terminalOf? token = some s ↔
      grammar.names.name? s = some token.name ∧ grammar.isTerminal s = true := by
  rw [terminalOf?, Option.filter_eq_some_iff, symbol?, NameTable.get?_eq_some_iff]

/-- The lookahead is the first token, or the end of input if there is none. -/
theorem lookahead_cases {ahead : Option Symbol} {first : Option Token}
    (read : grammar.lookahead input = .ok (name, ahead, first)) :
    (∃ token tokens, input.tokens = token :: tokens ∧ name = token.name ∧
        ahead = grammar.terminalOf? token ∧ first = some token) ∨
      (input.tokens = [] ∧ (∃ text, input.ending = .eof text) ∧ name = Token.eofName ∧
        ahead = some .eof ∧ first = none) := by
  obtain ⟨tokens, ending⟩ := input
  cases tokens with
  | cons token tokens =>
    obtain ⟨rfl, rfl, rfl⟩ : token.name = name ∧ grammar.terminalOf? token = ahead ∧
        some token = first := by simpa [lookahead, terminalOf?] using read
    exact Or.inl ⟨token, tokens, rfl, rfl, rfl, rfl⟩
  | nil =>
    cases ending with
    | eof text =>
      obtain ⟨rfl, rfl, rfl⟩ : Token.eofName = name ∧ some Symbol.eof = ahead ∧
          none = first := by simpa [lookahead] using read
      exact Or.inr ⟨rfl, ⟨text, rfl⟩, rfl, rfl, rfl⟩
    | error error => cases read

end Grammar

namespace Machine

variable {grammar : Grammar} {table : ParseTable Alternative} {strict : Bool}
  {machine next : Machine} {result : ParseResult}

/-! ### Rules -/

@[simp] theorem map_symbol_number (first : Nat) (symbols : List Symbol) :
    (number first symbols).map Pending.symbol = symbols := by
  induction symbols generalizing first with
  | nil => rfl
  | cons s rest ih => rw [number, List.map_cons, ih]

/-- The machine goes on to another state. -/
inductive Moves (grammar : Grammar) (table : ParseTable Alternative) (machine : Machine) :
    Machine → Prop where
  /-- The leftmost node is the lookahead. -/
  | shift {node : Pending} {rest : List Pending} {name : String} {token : Token}
      (waiting : machine.waiting = node :: rest) (proper : node.symbol ≠ .eof)
      (read : grammar.lookahead machine.input = .ok (name, some node.symbol, some token)) :
      Moves grammar table machine (machine.shift node rest token)
  /-- The leftmost node is a nonterminal, and the table has an entry for it and the lookahead. -/
  | expand {node : Pending} {rest : List Pending} {name : String} {s : Symbol}
      {token : Option Token} {alternative : Alternative}
      (waiting : machine.waiting = node :: rest) (proper : node.symbol ≠ .eof)
      (read : grammar.lookahead machine.input = .ok (name, some s, token))
      (differs : s ≠ node.symbol) (nonterminal : grammar.isTerminal node.symbol = false)
      (entry : table.get? node.symbol s = some alternative)
      (named : ∀ t ∈ alternative.symbols, t.id < grammar.names.size) :
      Moves grammar table machine
        ({ machine with
          expected := machine.expected.union (table.lookaheads node.symbol) }.expand
            node rest s alternative)

/-- The machine stops with a result. -/
inductive Stops (grammar : Grammar) (table : ParseTable Alternative) (strict : Bool)
    (machine : Machine) : ParseResult → Prop where
  /-- The lexer failed. -/
  | lexicalError {error : LexError} (read : grammar.lookahead machine.input = .error error) :
      Stops grammar table strict machine
        (machine.fail grammar.start (.lexicalError error) "")
  /-- Nothing is waiting, or the end of input is. -/
  | finish {name : String} {ahead : Option Symbol} {token : Option Token}
      (derived : ∀ node ∈ machine.waiting.head?, node.symbol = .eof)
      (read : grammar.lookahead machine.input = .ok (name, ahead, token)) :
      Stops grammar table strict machine (machine.finish grammar.start strict name ahead)
  /-- A terminal is waiting that is not the lookahead. -/
  | unexpected {node : Pending} {rest : List Pending} {name : String} {ahead : Option Symbol}
      {token : Option Token} (waiting : machine.waiting = node :: rest)
      (proper : node.symbol ≠ .eof)
      (read : grammar.lookahead machine.input = .ok (name, ahead, token))
      (differs : ahead ≠ some node.symbol) (terminal : grammar.isTerminal node.symbol = true) :
      Stops grammar table strict machine
        ({ machine with expected := machine.expected.insert node.symbol }.fail grammar.start
          (.unexpectedToken node.symbol) name)
  /-- The table has no entry for the leftmost node and the lookahead. -/
  | noEntry {node : Pending} {rest : List Pending} {name : String} {ahead : Option Symbol}
      {token : Option Token} (waiting : machine.waiting = node :: rest)
      (proper : node.symbol ≠ .eof)
      (read : grammar.lookahead machine.input = .ok (name, ahead, token))
      (differs : ahead ≠ some node.symbol) (nonterminal : grammar.isTerminal node.symbol = false)
      (absent : ∀ s ∈ ahead, table.get? node.symbol s = none) :
      Stops grammar table strict machine
        ({ machine with
          expected := machine.expected.union (table.lookaheads node.symbol) }.fail grammar.start
            (.noTableEntry (table.lookaheads node.symbol)) name)
  /-- The entry holds a symbol that has no name. -/
  | fault {node : Pending} {rest : List Pending} {name : String} {s unknown : Symbol}
      {token : Option Token} {alternative : Alternative} (waiting : machine.waiting = node :: rest)
      (proper : node.symbol ≠ .eof)
      (read : grammar.lookahead machine.input = .ok (name, some s, token))
      (differs : s ≠ node.symbol) (nonterminal : grammar.isTerminal node.symbol = false)
      (entry : table.get? node.symbol s = some alternative)
      (unnamed : alternative.symbols.find? (fun t => decide (grammar.names.size ≤ t.id)) =
        some unknown) :
      Stops grammar table strict machine
        ({ machine with
          expected := machine.expected.union (table.lookaheads node.symbol) }.halt grammar.start
            (.fault (.unknownSymbol unknown)))

/-- A leftmost node that is not the lookahead moves the machine or stops it. -/
theorem predict_cases {node : Pending} {rest : List Pending} {name : String}
    {ahead : Option Symbol} {token : Option Token} (waiting : machine.waiting = node :: rest)
    (proper : node.symbol ≠ .eof)
    (read : grammar.lookahead machine.input = .ok (name, ahead, token))
    (differs : ahead ≠ some node.symbol) :
    (∃ next, step.predict grammar table machine node rest name ahead = .inl next ∧
        Moves grammar table machine next) ∨
      ∃ result, step.predict grammar table machine node rest name ahead = .inr result ∧
        Stops grammar table strict machine result := by
  unfold step.predict
  split
  · next terminal => exact Or.inr ⟨_, rfl, .unexpected waiting proper read differs terminal⟩
  · next nonterminal =>
    rw [Bool.not_eq_true] at nonterminal
    dsimp only
    split
    · next none =>
      refine Or.inr ⟨_, rfl, .noEntry waiting proper read differs nonterminal ?_⟩
      rintro s ⟨⟩
      simpa using none
    · next s alternative found =>
      obtain ⟨u, rfl, mapped⟩ := Option.bind_eq_some_iff.mp found
      obtain ⟨entry, present, same⟩ := Option.map_eq_some_iff.mp mapped
      obtain ⟨rfl, rfl⟩ := Prod.mk.inj same
      have other : u ≠ node.symbol := fun same => differs (congrArg some same)
      split
      · next unknown unnamed =>
        exact Or.inr ⟨_, rfl, .fault waiting proper read other nonterminal present unnamed⟩
      · next named =>
        refine Or.inl ⟨_, rfl, .expand waiting proper read other nonterminal present ?_⟩
        simpa using named

/-- A step follows one of the rules. -/
theorem step_cases (grammar : Grammar) (table : ParseTable Alternative) (strict : Bool)
    (machine : Machine) :
    (∃ next, machine.step grammar table strict = .inl next ∧ Moves grammar table machine next) ∨
      ∃ result, machine.step grammar table strict = .inr result ∧
        Stops grammar table strict machine result := by
  unfold step
  split
  · next error read => exact Or.inr ⟨_, rfl, .lexicalError read⟩
  · next name ahead token read =>
    split
    · next waiting => exact Or.inr ⟨_, rfl, .finish (by simp [waiting]) read⟩
    · next node rest waiting =>
      split
      · next last => exact Or.inr ⟨_, rfl, .finish (by simp [waiting, last]) read⟩
      · next proper =>
        split
        · next s token =>
          split
          · next matched =>
            subst matched
            exact Or.inl ⟨_, rfl, .shift waiting proper read⟩
          · next differs =>
            exact predict_cases waiting proper read fun same => differs (Option.some.inj same)
        -- no token is read: the lookahead is unknown, or it is the end of input
        · next unmatched =>
          refine predict_cases waiting proper read fun same => ?_
          rcases Grammar.lookahead_cases read with ⟨first, -, -, -, -, there⟩ | ⟨-, -, -, ends, -⟩
          · exact unmatched node.symbol first same there
          · exact proper (Option.some.inj (same.symm.trans ends))

/-- The rules leave the step function no choice. -/
theorem Moves.step_eq (moves : Moves grammar table machine next) :
    machine.step grammar table strict = .inl next := by
  cases moves with
  | shift waiting proper read => simp [step, read, waiting, proper]
  | @expand node rest name s token alternative waiting proper read differs nonterminal entry
      named =>
    have known : alternative.symbols.find? (fun t => decide (grammar.names.size ≤ t.id)) =
        none := by simpa using named
    have predicted : step.predict grammar table machine node rest name (some s) =
        .inl ({ machine with
          expected := machine.expected.union (table.lookaheads node.symbol) }.expand
            node rest s alternative) := by
      simp [step.predict, nonterminal, entry, known]
    cases token with
    | none => simpa [step, read, waiting, proper] using predicted
    | some token => simpa [step, read, waiting, proper, differs] using predicted

theorem stops_of_step (steps : machine.step grammar table strict = .inr result) :
    Stops grammar table strict machine result := by
  rcases step_cases grammar table strict machine with ⟨next, same, -⟩ | ⟨other, same, stops⟩
  · rw [steps] at same
    cases same
  · rw [steps] at same
    cases same
    exact stops

/-! ### Runs -/

/-- The machine stops with a result after a number of moves. -/
inductive Halts (grammar : Grammar) (table : ParseTable Alternative) (strict : Bool) :
    Nat → Machine → ParseResult → Prop where
  /-- The machine stops at once. -/
  | stop {machine : Machine} {result : ParseResult}
      (last : machine.step grammar table strict = .inr result) :
      Halts grammar table strict 0 machine result
  /-- The machine moves on. -/
  | move {machine next : Machine} {result : ParseResult} {moves : Nat}
      (first : Moves grammar table machine next)
      (later : Halts grammar table strict moves next result) :
      Halts grammar table strict (moves + 1) machine result

/-- A run has a result exactly when there is fuel for its moves and its stop. -/
theorem run_eq_some_iff {fuel : Nat} :
    machine.run grammar table strict fuel = some result ↔
      ∃ moves < fuel, Halts grammar table strict moves machine result := by
  induction fuel generalizing machine with
  | zero => simp [run]
  | succ fuel ih =>
    rw [run]
    -- the step function decides whether the run stops here, so both sides must agree with it
    rcases step_cases grammar table strict machine with ⟨next, same, first⟩ | ⟨last, same, -⟩
    · rw [same]
      dsimp only
      rw [ih]
      constructor
      · rintro ⟨moves, less, later⟩
        exact ⟨moves + 1, Nat.succ_lt_succ less, .move first later⟩
      · rintro ⟨moves, less, halts⟩
        cases halts with
        | stop stopped => simp [same] at stopped
        | move other later =>
          rw [other.step_eq] at same
          cases same
          exact ⟨_, Nat.lt_of_succ_lt_succ less, later⟩
    · rw [same]
      constructor
      · intro found
        cases found
        exact ⟨0, Nat.succ_pos fuel, .stop same⟩
      · rintro ⟨moves, less, halts⟩
        cases halts with
        | stop stopped =>
          rw [same] at stopped
          cases stopped
          rfl
        | move other => simp [other.step_eq] at same

/-- What every move preserves holds where the run stops. -/
theorem Halts.stops {moves : Nat} (holds : Machine → Prop)
    (halts : Halts grammar table strict moves machine result) (initially : holds machine)
    (step : ∀ {machine next}, holds machine → Moves grammar table machine next → holds next) :
    ∃ last, holds last ∧ Stops grammar table strict last result := by
  induction halts with
  | stop last => exact ⟨_, initially, stops_of_step last⟩
  | move first _ ih => exact ih (step initially first)

end Machine

end Predictive
