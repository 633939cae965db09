import Predictive.Grammar.Basic
import Predictive.Grammar.Declarations

/-!
# Defining a grammar

A grammar is defined by declaring symbols and adding alternatives. When all is said,
every nonterminal must have an alternative, and every symbol that occurs in one must be
declared.

## Main definitions

* `Definition` — a grammar under construction
* `Definition.rule` — add an alternative to a production
* `Definition.finish` — the grammar, once it is complete
-/

namespace Predictive

/-- A grammar under construction. -/
structure Definition where
  /-- The symbols declared so far. -/
  declared : Declarations
  /-- The alternatives added so far, for every declared nonterminal. -/
  rules : OrderedMap Symbol (List Alternative)

namespace Definition

/-- Nothing is declared. -/
def empty : Definition := ⟨.empty, .empty⟩

/-- Declare a terminal. -/
def terminal (definition : Definition) (name : String) :
    Except GrammarError (Symbol × Definition) := do
  let (s, declared) ← definition.declared.terminal name
  return (s, { definition with declared })

/-- Declare a nonterminal, which starts without alternatives. -/
def nonterminal (definition : Definition) (name : String) :
    Except GrammarError (Symbol × Definition) := do
  let (s, declared) ← definition.declared.nonterminal name
  if definition.declared.nonterminals.contains s then return (s, { definition with declared })
  else return (s, ⟨declared, definition.rules.insert s []⟩)

/-- Add an alternative to the production of `left`. -/
def rule (definition : Definition) (left : Symbol) (right : List Symbol) :
    Except GrammarError Definition :=
  let alternative := Alternative.ofSymbols right
  -- the right-hand side is looked at before the left-hand side
  match alternative.symbols.find? fun s => decide (definition.declared.names.size ≤ s.id) with
  | some foreign => .error (.unknownSymbol foreign)
  | none =>
    match definition.rules.get? left with
    | some alternatives =>
      .ok { definition with rules := definition.rules.insert left (alternatives ++ [alternative]) }
    | none => do .error (.notNonterminal (← definition.declared.nameOf left))

/-- Designate the start symbol. -/
def designateStart (definition : Definition) (s : Symbol) : Except GrammarError Definition := do
  return { definition with declared := ← definition.declared.designateStart s }

/-- Whether a symbol is declared. The end of input always is. -/
def isDeclared (definition : Definition) (s : Symbol) : Bool :=
  decide (s = .eof) || definition.declared.terminals.contains s ||
    definition.declared.nonterminals.contains s

/-- A production is complete when it has an alternative and all its symbols are declared. -/
def checkProduction (definition : Definition) (left : Symbol) (alternatives : List Alternative) :
    Except GrammarError Unit :=
  if alternatives.isEmpty then do
    .error (.noAlternatives (← definition.declared.nameOf left))
  else
    match (alternatives.flatMap Alternative.symbols).find? fun s => !definition.isDeclared s with
    | none => .ok ()
    | some s => do
      let name ← definition.declared.nameOf s
      .error (.undefinedSymbol name (← definition.declared.nameOf left))

/-- The grammar, once every production is complete. -/
def finish (definition : Definition) : Except GrammarError Grammar := do
  let start ← definition.declared.startSymbol
  definition.rules.entries.forM fun entry => definition.checkProduction entry.1 entry.2
  return ⟨definition.declared.names, definition.declared.terminals, definition.rules, start⟩

end Definition

end Predictive
