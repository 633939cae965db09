import Predictive.Analysis.Table
import Predictive.Parse.Event

/-!
# The predictive machine

The machine keeps the nodes that wait to be expanded or matched, leftmost first, and the input
that is left. It compares the leftmost waiting node with the lookahead: a terminal is matched, a
nonterminal is expanded by the entry of the table. It succeeds when nothing is waiting, or only
the end of input is next; a strict parse then also asks for the end of input.

A failed parse still tells what happened, the partial tree, and the terminals that would have
been accepted where it failed.

New nodes take the next numbers, without a bound: that numbers of 32 bits could run out is left out.

## Main definitions

* `Machine` — the state between two steps
* `Machine.step` — one step: the next state, or the result
* `Machine.run` — at most a given number of steps
* `Grammar.parse` — parse an input by the table of a grammar
-/

namespace Predictive

/-- Why a parse failed. -/
inductive Cause where
  /-- The waiting terminal is not the lookahead. -/
  | unexpectedToken (expected : Symbol)
  /-- The table has no entry for the waiting nonterminal and the lookahead; these have one. -/
  | noTableEntry (row : SymbolSet)
  /-- Everything is derived, and input is left. -/
  | trailingInput
  /-- The lexer does not recognize the input. -/
  | lexicalError (error : LexError)
  deriving DecidableEq

/-- The machine at the point of failure. -/
structure Failure where
  /-- Why the parse failed. -/
  cause : Cause
  /-- The name of the lookahead, which is empty if the lexer failed. -/
  lookahead : String
  /-- The waiting nodes, leftmost first. -/
  waiting : List Pending
  deriving DecidableEq

/-- How a parse ended. -/
inductive Verdict where
  /-- Everything is derived. -/
  | success
  /-- The input does not fit. -/
  | failure (failure : Failure)
  /-- An alternative holds a symbol without a name. -/
  | fault (fault : Fault)
  deriving DecidableEq

/-- The result of a parse. -/
structure ParseResult where
  /-- What happened, in order. -/
  events : List Event
  /-- The terminals that were acceptable at the end. -/
  expected : SymbolSet
  /-- The tree, which is partial if the parse failed. -/
  tree : Tree
  /-- The number of nodes. -/
  size : Nat
  /-- How the parse ended. -/
  verdict : Verdict

/-- Whether a parse succeeded. -/
def ParseResult.isSuccess (result : ParseResult) : Bool := decide (result.verdict = .success)

/-- The state of the machine between two steps. -/
structure Machine where
  /-- The waiting nodes, leftmost first. -/
  waiting : List Pending
  /-- The number of nodes so far. -/
  size : Nat
  /-- The terminals acceptable since the last token was matched. -/
  expected : SymbolSet
  /-- What happened so far, the latest first. -/
  events : List Event
  /-- The input that is left; its first token is the lookahead. -/
  input : Input

/-- The lookahead of an input: its name, its symbol if it is a terminal of the grammar, and
itself, unless it is the end of input. -/
def Grammar.lookahead (grammar : Grammar) (input : Input) :
    Except LexError (String × Option Symbol × Option Token) :=
  match input.tokens, input.ending with
  | token :: _, _ =>
    .ok (token.name, (grammar.symbol? token.name).filter grammar.isTerminal, some token)
  | [], .eof _ => .ok (Token.eofName, some .eof, none)
  | [], .error error => .error error

namespace Machine

/-- The machine before its first step: the root waits. -/
def initial (start : Symbol) (input : Input) : Machine where
  waiting := [⟨0, start⟩]
  size := 1
  expected := .empty
  events := []
  input := input

/-- The tree that the machine has built. -/
def tree (machine : Machine) (start : Symbol) : Tree :=
  (Event.trees machine.events machine.waiting).headD (.leaf 0 start)

/-- Stop. -/
def halt (machine : Machine) (start : Symbol) (verdict : Verdict) : ParseResult :=
  ⟨machine.events.reverse, machine.expected, machine.tree start, machine.size, verdict⟩

/-- Stop because the input does not fit. -/
def fail (machine : Machine) (start : Symbol) (cause : Cause) (lookahead : String) :
    ParseResult :=
  machine.halt start (.failure ⟨cause, lookahead, machine.waiting⟩)

/-- The state after the leftmost node is matched by a token. -/
def shift (machine : Machine) (node : Pending) (rest : List Pending) (token : Token) : Machine :=
  { machine with
    waiting := rest
    expected := .empty
    events := .shift node token :: machine.events
    input := { machine.input with tokens := machine.input.tokens.drop 1 } }

/-- Number the symbols of an alternative as new nodes. -/
def number (first : Nat) : List Symbol → List Pending
  | [] => []
  | s :: rest => ⟨first, s⟩ :: number (first + 1) rest

/-- The state after the leftmost node is expanded. -/
def expand (machine : Machine) (node : Pending) (rest : List Pending) (lookahead : Symbol)
    (alternative : Alternative) : Machine :=
  let size := machine.size + alternative.size
  { machine with
    waiting := number machine.size alternative.symbols ++ rest
    size := size
    events := .expand node lookahead alternative size :: machine.events }

/-- The result when nothing is left to be derived. -/
def finish (machine : Machine) (start : Symbol) (strict : Bool) (name : String)
    (lookahead : Option Symbol) : ParseResult :=
  if strict && lookahead != some .eof then
    { machine with expected := machine.expected.insert .eof }.fail start .trailingInput name
  else machine.halt start .success

/-- One step: the next state, or the result. -/
def step (grammar : Grammar) (table : ParseTable Alternative) (strict : Bool)
    (machine : Machine) : Machine ⊕ ParseResult :=
  match grammar.lookahead machine.input with
  | .error error => .inr (machine.fail grammar.start (.lexicalError error) "")
  | .ok (name, lookahead, token) =>
    match machine.waiting with
    | [] => .inr (machine.finish grammar.start strict name lookahead)
    | node :: rest =>
      -- the end of input inside an alternative is never matched, it ends the parse
      if node.symbol = .eof then .inr (machine.finish grammar.start strict name lookahead)
      else
        match lookahead, token with
        | some s, some token =>
          -- a match comes first, also for a terminal that has a production
          if s = node.symbol then .inl (machine.shift node rest token)
          else predict node rest name (some s)
        | lookahead, _ => predict node rest name lookahead
where
  /-- Handle a leftmost node that is not the lookahead. -/
  predict (node : Pending) (rest : List Pending) (name : String) (lookahead : Option Symbol) :
      Machine ⊕ ParseResult :=
    if grammar.isTerminal node.symbol then
      .inr ({ machine with expected := machine.expected.insert node.symbol }.fail grammar.start
        (.unexpectedToken node.symbol) name)
    else
      let row := table.lookaheads node.symbol
      let machine := { machine with expected := machine.expected.union row }
      match lookahead.bind fun s => (table.get? node.symbol s).map fun entry => (s, entry) with
      | none => .inr (machine.fail grammar.start (.noTableEntry row) name)
      | some (s, alternative) =>
        -- every new node needs a name
        match alternative.symbols.find? fun t => decide (grammar.names.size ≤ t.id) with
        | some unknown => .inr (machine.halt grammar.start (.fault (.unknownSymbol unknown)))
        | none => .inl (machine.expand node rest s alternative)

/-- At most `fuel` steps. There is no result if they do not suffice. -/
def run (grammar : Grammar) (table : ParseTable Alternative) (strict : Bool) :
    Nat → Machine → Option ParseResult
  | 0, _ => none
  | fuel + 1, machine =>
    match machine.step grammar table strict with
    | .inl next => run grammar table strict fuel next
    | .inr result => some result

/-- The length of the longest alternative of a grammar. -/
def longestAlternative (grammar : Grammar) : Nat :=
  (grammar.productions.entries.flatMap fun production =>
    production.2.map Alternative.size).foldl max 0

/-- The number of steps after which a machine that still runs will run forever. While the
lookahead stays the same, a nonterminal that comes up again below itself comes up for good. So
with `n` nonterminals and alternatives of length up to `k`, a waiting node takes at most
`(k + 1) ^ n` steps, and each token adds at most `n * k` waiting nodes. -/
def stepBound (grammar : Grammar) (tokens : Nat) : Nat :=
  let n := grammar.productions.size
  let k := longestAlternative grammar
  (tokens + 1) * (1 + (tokens + 1) * n * k) * Nat.pow (k + 1) n + tokens + 2

end Machine

/-- Parse an input by the table of a grammar. A strict parse also asks for the end of input. There
is no result if the machine would run forever, which takes a left-recursive grammar. -/
def Grammar.parse (grammar : Grammar) (table : ParseTable Alternative) (strict : Bool)
    (input : Input) : Option ParseResult :=
  (Machine.initial grammar.start input).run grammar table strict
    (Machine.stepBound grammar input.tokens.length)

end Predictive
