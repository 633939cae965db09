import Predictive.Lexer.Basic
import Predictive.Parse.Log
import Predictive.Parse.Planting

/-!
# A machine with two stacks

The predictive machine has one list of waiting nodes, and its tree is put together from the events.
Here the same parse is made with a stack of symbols, a stack of nodes and an arena, and each of them
is written to by itself: a match drops the tops of both stacks and gives a node its text, and an
expansion makes nodes in the arena and then puts the symbols of the alternative and the new nodes on
the two stacks. Nothing but these steps keeps the three in agreement. Between two steps one token is
read ahead.

Stacks are lists whose top is at the end. The end of input is at the bottom of the stack of symbols,
and no node belongs to it.

## Main definitions

* `Lookahead` — what is read ahead
* `StackMachine` — the state between two steps
* `StackMachine.step` — one step: the next state, or the result
* `StackMachine.run` — at most a given number of steps
* `Grammar.parseByStacks` — parse a text by the table of a grammar
-/

namespace Predictive

/-- What is read ahead. -/
structure Lookahead where
  /-- The end of input, or the terminal that has the name of the token, if there is one. -/
  symbol : Option Symbol
  /-- The name of the token. -/
  name : String

/-- Read one token ahead. -/
def Lookahead.read (grammar : Grammar) (lexer : Lexer) : Except LexError Lookahead × Lexer :=
  match lexer.next with
  | (.error error, lexer) => (.error error, lexer)
  | (.ok token, lexer) =>
    let symbol :=
      if token.name = Token.eofName then some .eof
      else (grammar.symbol? token.name).filter grammar.isTerminal
    (.ok ⟨symbol, token.name⟩, lexer)

/-- Make a node for each of some symbols, as the last children of a node, and list the new nodes. -/
def Arena.pushEach (parent : Nat) : List Symbol → Arena → List Nat × Arena
  | [], arena => ([], arena)
  | s :: rest, arena =>
    let (id, arena) := arena.push s (some parent)
    let (ids, arena) := pushEach parent rest arena
    (id :: ids, arena)

/-- The two stacks at the point of failure. -/
structure StackFailure where
  /-- Why the parse failed. -/
  cause : Cause
  /-- The name of the lookahead, which is empty if the lexer failed. -/
  lookahead : String
  /-- The node on top, if there is one. -/
  current : Option Nat
  /-- The stack of nodes. -/
  nodes : List Nat
  /-- The stack of symbols. -/
  stack : List Symbol

/-- The result of a parse. -/
structure StackResult where
  /-- The log, line by line. -/
  log : List String
  /-- The terminals that were acceptable at the end. -/
  expected : SymbolSet
  /-- The nodes that were made. -/
  arena : Arena
  /-- What was told of the steps, in order. -/
  events : List Event
  /-- How the parse failed, if it did. -/
  failure : Option StackFailure

/-- The state between two steps. -/
structure StackMachine where
  /-- The stack of symbols. -/
  stack : List Symbol
  /-- The stack of nodes. -/
  nodes : List Nat
  /-- The nodes made so far. -/
  arena : Arena
  /-- The terminals acceptable since the last token was matched. -/
  expected : SymbolSet
  /-- The log so far, line by line. -/
  log : List String
  /-- What was told of the steps so far, in order. -/
  events : List Event
  /-- What is read ahead. -/
  lookahead : Lookahead
  /-- The lexer, which has read the lookahead last. -/
  lexer : Lexer

namespace StackMachine

/-- Stop because the input does not fit. -/
def fail (grammar : Grammar) (cause : Cause) (state : StackMachine) : Except Fault StackResult := do
  let line ← cause.render grammar.names state.lookahead.name
  return {
    log := state.log ++ [line]
    expected := state.expected
    arena := state.arena
    events := state.events
    failure := some {
      cause
      lookahead := state.lookahead.name
      current := state.nodes.getLast?
      nodes := state.nodes
      stack := state.stack } }

/-- Stop because everything is derived. -/
def finish (grammar : Grammar) (strict : Bool) (state : StackMachine) : Except Fault StackResult :=
  if strict && state.lookahead.symbol != some .eof then
    { state with expected := state.expected.insert .eof }.fail grammar .trailingInput
  else
    return {
      log := state.log ++ ["success"]
      expected := state.expected
      arena := state.arena
      events := state.events
      failure := none }

/-- Read the next token ahead, or stop because the lexer fails. -/
def readAhead (grammar : Grammar) (state : StackMachine) :
    Except Fault (StackMachine ⊕ StackResult) :=
  match Lookahead.read grammar state.lexer with
  | (.ok lookahead, lexer) => .ok (.inl { state with lookahead, lexer })
  | (.error error, lexer) =>
    ({ state with lookahead := ⟨none, ""⟩, lexer }.fail grammar (.lexicalError error)).map .inr

/-- Write down what happens to a node, in the log and for whoever is told. -/
def record (grammar : Grammar) (event : Event) (state : StackMachine) : Except Fault StackMachine :=
  return { state with
    log := state.log ++ [← event.render grammar.names]
    events := state.events ++ [event] }

/-- Match the node on top by the lookahead. -/
def shift (grammar : Grammar) (top : Symbol) (node : Nat) (state : StackMachine) :
    Except Fault (StackMachine ⊕ StackResult) := do
  let token : Token := ⟨state.lookahead.name, state.lexer.matched⟩
  let state ← state.record grammar (.shift ⟨node, top⟩ token)
  { state with
    arena := state.arena.setText node token.text
    stack := state.stack.dropLast
    nodes := state.nodes.dropLast
    expected := .empty }.readAhead grammar

/-- Put symbols and nodes on the stacks pair by pair, the last pair first. -/
def pushPairs (pairs : List (Symbol × Nat)) (state : StackMachine) : StackMachine :=
  pairs.reverse.foldl (fun state pair =>
    { state with stack := state.stack ++ [pair.1], nodes := state.nodes ++ [pair.2] }) state

/-- Expand the node on top by an alternative. -/
def expand (grammar : Grammar) (top : Symbol) (node : Nat) (lookahead : Symbol)
    (alternative : Alternative) (state : StackMachine) :
    Except Fault (StackMachine ⊕ StackResult) := do
  let (children, arena) := state.arena.pushEach node alternative.symbols
  let state ← state.record grammar (.expand ⟨node, top⟩ lookahead alternative arena.length)
  let popped := { state with arena, stack := state.stack.dropLast, nodes := state.nodes.dropLast }
  -- the leftmost symbol is to be on top
  return .inl (popped.pushPairs (alternative.symbols.zip children))

/-- One step: the next state, or the result. -/
def step (grammar : Grammar) (table : ParseTable Alternative) (strict : Bool)
    (state : StackMachine) : Except Fault (StackMachine ⊕ StackResult) :=
  match state.stack.getLast? with
  | none => (state.finish grammar strict).map .inr
  | some top =>
    if top = .eof then (state.finish grammar strict).map .inr
    else
      match state.nodes.getLast? with
      | none => (state.finish grammar strict).map .inr
      | some node =>
        if state.lookahead.symbol = some top then state.shift grammar top node
        else if grammar.isTerminal top then
          ({ state with expected := state.expected.insert top }.fail grammar
            (.unexpectedToken top)).map .inr
        else
          let row := table.lookaheads top
          let state := { state with expected := state.expected.union row }
          match state.lookahead.symbol.bind fun s =>
              (table.get? top s).map fun alternative => (s, alternative) with
          | none => (state.fail grammar (.noTableEntry row)).map .inr
          | some (s, alternative) => state.expand grammar top node s alternative

/-- The state before the first step, with the root on top of the end of input, if the lexer has a
first token. -/
def start (grammar : Grammar) (lexer : Lexer) : Except Fault (StackMachine ⊕ StackResult) := do
  -- the root needs a name
  let _ ← grammar.names.name grammar.start
  let (root, arena) := Arena.push [] grammar.start none
  readAhead grammar {
    stack := [.eof, grammar.start]
    nodes := [root]
    arena
    expected := .empty
    log := []
    events := []
    lookahead := ⟨none, ""⟩
    lexer }

/-- Go on from a state or a result for at most `fuel` steps. There is no result if they do not
suffice. -/
def run (grammar : Grammar) (table : ParseTable Alternative) (strict : Bool) :
    Nat → Except Fault (StackMachine ⊕ StackResult) → Option (Except Fault StackResult)
  | _, .error fault => some (.error fault)
  | _, .ok (.inr result) => some (.ok result)
  | 0, .ok (.inl _) => none
  | fuel + 1, .ok (.inl state) => run grammar table strict fuel (state.step grammar table strict)

end StackMachine

/-- Parse a text by the table of a grammar, with two stacks. A strict parse also asks for the end of
input. There is no result if the parse would go on forever. -/
def Grammar.parseByStacks (grammar : Grammar) (table : ParseTable Alternative) (strict : Bool)
    (lexer : Lexer) (text : String) : Option (Except Fault StackResult) :=
  StackMachine.run grammar table strict
    (Machine.stepBound grammar (lexer.scan text).tokens.length)
    (StackMachine.start grammar (lexer.restart text))

end Predictive
