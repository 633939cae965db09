import Predictive.Ebnf.Expr
import Predictive.Grammar.Basic
import Predictive.Grammar.Declarations

/-!
# EBNF grammars

An EBNF grammar gives each nonterminal one expression. It is defined by declaring symbols and
giving each nonterminal its expression, in any order; when all is said, every nonterminal must
have one, and every symbol must be used as what it was declared to be.

## Main definitions

* `EbnfGrammar` — names, terminals, an expression for each nonterminal, and the start symbol
* `EbnfDefinition` — an EBNF grammar under construction
* `EbnfDefinition.check` — whether an expression uses symbols as declared
* `EbnfDefinition.finish` — the grammar, once it is complete
-/

namespace Predictive

/-- A grammar whose nonterminals are each defined by one expression. -/
structure EbnfGrammar where
  /-- The names of the symbols. -/
  names : NameTable
  /-- The terminals in order of declaration; the end of input is not listed. -/
  terminals : OrderedSet Symbol
  /-- The expression of each nonterminal, in order of declaration. -/
  productions : OrderedMap Symbol Expr
  /-- The symbol from which sentences are derived. -/
  start : Symbol

namespace EbnfGrammar

/-- The symbol of a known name. -/
def symbol? (grammar : EbnfGrammar) (name : String) : Option Symbol := grammar.names.get? name

/-- The nonterminals in order of declaration. -/
def nonterminals (grammar : EbnfGrammar) : List Symbol := grammar.productions.keys

/-- The expression of a nonterminal. -/
def expression? (grammar : EbnfGrammar) (s : Symbol) : Option Expr := grammar.productions.get? s

/-- Whether a symbol is a terminal. The end of input counts as one. -/
def isTerminal (grammar : EbnfGrammar) (s : Symbol) : Bool :=
  decide (s = .eof) || grammar.terminals.contains s

/-- Whether a symbol has an expression. -/
def isNonterminal (grammar : EbnfGrammar) (s : Symbol) : Bool := grammar.productions.contains s

/-- The readable form of an EBNF grammar. -/
def render (grammar : EbnfGrammar) : Except Fault String := do
  let rules ← grammar.productions.entries.mapM fun entry =>
    return (← grammar.names.name entry.1) ++ " := " ++ (← entry.2.render grammar.names)
  renderListing grammar.names grammar.terminals.items grammar.nonterminals grammar.start rules

end EbnfGrammar

/-- An EBNF grammar under construction. -/
structure EbnfDefinition where
  /-- The symbols declared so far. -/
  declared : Declarations
  /-- The expressions given so far. -/
  rules : OrderedMap Symbol Expr

namespace EbnfDefinition

/-- Nothing is declared. -/
def empty : EbnfDefinition := ⟨.empty, .empty⟩

/-- Declare a terminal. -/
def terminal (definition : EbnfDefinition) (name : String) :
    Except GrammarError (Symbol × EbnfDefinition) := do
  let (s, declared) ← definition.declared.terminal name
  return (s, { definition with declared })

/-- Declare a nonterminal. -/
def nonterminal (definition : EbnfDefinition) (name : String) :
    Except GrammarError (Symbol × EbnfDefinition) := do
  let (s, declared) ← definition.declared.nonterminal name
  return (s, { definition with declared })

/-- Give a nonterminal its expression. -/
def rule (definition : EbnfDefinition) (left : Symbol) (expr : Expr) :
    Except GrammarError EbnfDefinition :=
  if !definition.declared.nonterminals.contains left then do
    .error (.notNonterminal (← definition.declared.nameOf left))
  else if definition.rules.contains left then do
    .error (.duplicateRule (← definition.declared.nameOf left))
  else .ok { definition with rules := definition.rules.insert left expr }

/-- Designate the start symbol. -/
def designateStart (definition : EbnfDefinition) (s : Symbol) :
    Except GrammarError EbnfDefinition := do
  return { definition with declared := ← definition.declared.designateStart s }

/-- Whether a symbol has a name that can be referred to. -/
def isKnown (definition : EbnfDefinition) (s : Symbol) : Bool :=
  decide (s.id < definition.declared.names.size) && decide (s ≠ .epsilon)

/-- The error for a symbol without a declaration. -/
def undefined (definition : EbnfDefinition) (left s : Symbol) : Except GrammarError Unit := do
  let name ← definition.declared.nameOf s
  .error (.undefinedSymbol name (← definition.declared.nameOf left))

/-- A terminal must be declared as one, or be the end of input. -/
def checkTerminal (definition : EbnfDefinition) (left s : Symbol) : Except GrammarError Unit :=
  if !definition.isKnown s then definition.undefined left s
  else if s ≠ .eof ∧ !definition.declared.terminals.contains s then do
    .error (.kindMismatch (← definition.declared.nameOf s))
  else .ok ()

/-- A nonterminal must be declared as one. -/
def checkNonterminal (definition : EbnfDefinition) (left s : Symbol) : Except GrammarError Unit :=
  if !definition.isKnown s then definition.undefined left s
  else if !definition.declared.nonterminals.contains s then do
    .error (.notNonterminal (← definition.declared.nameOf s))
  else .ok ()

mutual

/-- Whether the expression of `left` uses symbols as declared, and every choice offers
something. -/
def check (definition : EbnfDefinition) (left : Symbol) : Expr → Except GrammarError Unit
  | .terminal s => definition.checkTerminal left s
  | .nonterminal s => definition.checkNonterminal left s
  | .chain parts => definition.checkAll left parts
  | .choice parts =>
    if parts.isEmpty then do .error (.emptyChoice (← definition.declared.nameOf left))
    else definition.checkAll left parts
  | .optional body => definition.check left body
  | .zeroOrMore body => definition.check left body
  | .oneOrMore body => definition.check left body

/-- Check the parts of a list in order. -/
def checkAll (definition : EbnfDefinition) (left : Symbol) : List Expr → Except GrammarError Unit
  | [] => .ok ()
  | part :: rest => do
    definition.check left part
    definition.checkAll left rest

end

/-- Whether a nonterminal has been given an expression. -/
def checkDefined (definition : EbnfDefinition) (s : Symbol) : Except GrammarError Unit :=
  if definition.rules.contains s then .ok ()
  else do .error (.noAlternatives (← definition.declared.nameOf s))

/-- The expressions, taken out of the rules in the order in which their nonterminals were
declared. -/
def arranged (definition : EbnfDefinition) : OrderedMap Symbol Expr :=
  OrderedMap.empty.insertAll (definition.rules.drain definition.declared.nonterminals.items)

/-- The grammar, once every nonterminal has an expression and every expression is in order. -/
def finish (definition : EbnfDefinition) : Except GrammarError EbnfGrammar := do
  let start ← definition.declared.startSymbol
  -- a missing expression is reported before a wrong one
  definition.declared.nonterminals.items.forM definition.checkDefined
  definition.rules.entries.forM fun entry => definition.check entry.1 entry.2
  return ⟨definition.declared.names, definition.declared.terminals, definition.arranged, start⟩

end EbnfDefinition

end Predictive
