import Predictive.Ordered.Map
import Predictive.Ordered.Set
import Predictive.Symbol.Names

/-!
# Grammars

A grammar gives each nonterminal a list of alternatives, and an alternative is a
string of symbols; the empty string is the alternative `ε`. Terminals and
productions are listed in the order in which they arrived.

## Main definitions

* `Alternative` — one right-hand side, in which the marker `ε` never occurs
* `Grammar` — names, terminals, productions and the start symbol
* `Grammar.setAlternatives` — give a nonterminal its alternatives
* `Grammar.render` — the readable form of a grammar
-/

namespace Predictive

/-- One right-hand side of a production. The empty string is the alternative `ε`. -/
structure Alternative where
  /-- The symbols from left to right. -/
  symbols : List Symbol
  /-- The empty marker is no part of the string. -/
  noEpsilon : ¬ Symbol.epsilon ∈ symbols
  deriving DecidableEq

namespace Alternative

/-- The alternative that spells a list of symbols, less the empty marker. -/
def ofSymbols (symbols : List Symbol) : Alternative where
  symbols := symbols.filter fun s => decide (s ≠ .epsilon)
  noEpsilon := by simp

/-- The empty alternative. -/
def epsilon : Alternative := ⟨[], by simp⟩

/-- Whether this is the empty alternative. -/
def isEpsilon (alternative : Alternative) : Bool := alternative.symbols.isEmpty

/-- The number of symbols. -/
def size (alternative : Alternative) : Nat := alternative.symbols.length

/-- The leftmost symbol. -/
def head? (alternative : Alternative) : Option Symbol := alternative.symbols.head?

/-- The readable form: the names joined by blanks, or `ε`. -/
def render (names : NameTable) (alternative : Alternative) : Except Fault String :=
  if alternative.isEpsilon then .ok "ε"
  else return " ".intercalate (← names.namesOf alternative.symbols)

end Alternative

/-- A context-free grammar. -/
structure Grammar where
  /-- The names of the symbols. -/
  names : NameTable
  /-- The terminals in order of declaration; the end of input is not listed. -/
  terminals : OrderedSet Symbol
  /-- The alternatives of each nonterminal. -/
  productions : OrderedMap Symbol (List Alternative)
  /-- The symbol from which sentences are derived. -/
  start : Symbol

/-- The readable form of a grammar: its terminals, its nonterminals with the start
symbol marked, and the line of each rule. -/
def renderListing (names : NameTable) (terminals nonterminals : List Symbol) (start : Symbol)
    (rules : List String) : Except Fault String := do
  let terminalLines ← terminals.mapM fun s => return (← names.name s) ++ "\n"
  let nonterminalLines ← nonterminals.mapM fun s =>
    return (← names.name s) ++ (if s = start then " (start)" else "") ++ "\n"
  return "## terminals:\n" ++ String.join terminalLines ++
    "\n## nonterminals:\n" ++ String.join nonterminalLines ++
    "\n## rules:\n" ++ String.join (rules.map (· ++ "\n"))

namespace Grammar

/-- The symbol of a known name. -/
def symbol? (grammar : Grammar) (name : String) : Option Symbol := grammar.names.get? name

/-- The nonterminals in order of arrival. -/
def nonterminals (grammar : Grammar) : List Symbol := grammar.productions.keys

/-- The alternatives of a nonterminal. -/
def alternatives? (grammar : Grammar) (s : Symbol) : Option (List Alternative) :=
  grammar.productions.get? s

/-- Whether a symbol is a terminal. The end of input counts as one. -/
def isTerminal (grammar : Grammar) (s : Symbol) : Bool :=
  decide (s = .eof) || grammar.terminals.contains s

/-- Whether a symbol has a production. -/
def isNonterminal (grammar : Grammar) (s : Symbol) : Bool := grammar.productions.contains s

/-- Give a nonterminal its alternatives, in place of any that it had. -/
def setAlternatives (grammar : Grammar) (s : Symbol) (alternatives : List Alternative) : Grammar :=
  { grammar with productions := grammar.productions.insert s alternatives }

/-- The line of a production: its nonterminal and its alternatives, if any. -/
def renderProduction (grammar : Grammar) (s : Symbol) : Except Fault String := do
  let left ← grammar.names.name s
  let right ← ((grammar.alternatives? s).getD []).mapM (Alternative.render grammar.names)
  return left ++ " := " ++ " | ".intercalate right

/-- The lines of all productions. -/
def renderProductions (grammar : Grammar) : Except Fault (List String) :=
  grammar.nonterminals.mapM grammar.renderProduction

/-- The readable form of a grammar. -/
def render (grammar : Grammar) : Except Fault String := do
  renderListing grammar.names grammar.terminals.items grammar.nonterminals grammar.start
    (← grammar.renderProductions)

end Grammar

end Predictive
