import Predictive.Ebnf.Grammar

/-!
# From EBNF to plain alternatives

An expression is turned into plain alternatives by introducing a nonterminal for each chain,
choice and repetition in it. The name of such a nonterminal tells where its expression stands: the
kind of the expression after the name of the enclosing one and the place in it.

## Main definitions

* `Grammar.reserve` — introduce a nonterminal by name
* `Expr.lower` — add the productions of an expression
* `EbnfGrammar.toGrammar` — the plain grammar of an EBNF grammar
-/

namespace Predictive

/-- Introduce a nonterminal, without alternatives at first. It is a fault if a symbol of that name
has a production. -/
def Grammar.reserve (grammar : Grammar) (name : String) : Except Fault (Symbol × Grammar) := do
  let (s, names) ← grammar.names.intern name
  if grammar.isNonterminal s then .error (.definedTwice name)
  else return (s, { grammar with names }.setAlternatives s [])

namespace Expr

mutual

/-- Add the productions of an expression, named after `stem`, and give the symbol that stands for
it. Symbols stand for themselves. -/
def lower (stem : String) (grammar : Grammar) : Expr → Except Fault (Symbol × Grammar)
  | .terminal s => .ok (s, grammar)
  | .nonterminal s => .ok (s, grammar)
  | .chain parts => do
    let name := stem ++ "Chain"
    let (s, grammar) ← grammar.reserve name
    let (symbols, grammar) ← lowerAll name 0 grammar parts
    return (s, grammar.setAlternatives s [.ofSymbols symbols])
  | .choice parts => do
    let name := stem ++ "Choice"
    let (s, grammar) ← grammar.reserve name
    let (symbols, grammar) ← lowerAll name 0 grammar parts
    return (s, grammar.setAlternatives s (symbols.map fun part => .ofSymbols [part]))
  | .optional body => do
    let name := stem ++ "Optional"
    let (s, grammar) ← grammar.reserve name
    let (inner, grammar) ← body.lower name grammar
    return (s, grammar.setAlternatives s [.ofSymbols [inner], .epsilon])
  | .zeroOrMore body => do
    let name := stem ++ "ZeroOrMore"
    let (s, grammar) ← grammar.reserve name
    let (inner, grammar) ← body.lower name grammar
    return (s, grammar.setAlternatives s [.ofSymbols [inner, s], .epsilon])
  | .oneOrMore body => do
    let name := stem ++ "OneOrMore"
    let (s, grammar) ← grammar.reserve name
    -- the body is lowered once and serves both the first iteration and the others
    let (more, grammar) ← grammar.reserve (name ++ "Opt")
    let (inner, grammar) ← body.lower name grammar
    let grammar := grammar.setAlternatives s [.ofSymbols [inner, more]]
    return (s, grammar.setAlternatives more [.ofSymbols [inner, more], .epsilon])

/-- Add the productions of the parts of a list, named after `stem` and their places. -/
def lowerAll (stem : String) (place : Nat) (grammar : Grammar) :
    List Expr → Except Fault (List Symbol × Grammar)
  | [] => .ok ([], grammar)
  | part :: rest => do
    let (s, grammar) ← part.lower (stem ++ toString place) grammar
    let (symbols, grammar) ← lowerAll stem (place + 1) grammar rest
    return (s :: symbols, grammar)

end

end Expr

namespace EbnfGrammar

/-- Add the productions of a nonterminal and its expression. -/
def lowerProduction (grammar : Grammar) (production : Symbol × Expr) : Except Fault Grammar := do
  let stem := "_" ++ (← grammar.names.name production.1)
  let (root, grammar) ← production.2.lower stem grammar
  return grammar.setAlternatives production.1 [.ofSymbols [root]]

/-- The plain grammar of an EBNF grammar. Each nonterminal has one alternative, the symbol that
stands for its expression, and the declared symbols keep their names. -/
def toGrammar (grammar : EbnfGrammar) : Except Fault Grammar :=
  grammar.productions.entries.foldlM lowerProduction
    ⟨grammar.names, grammar.terminals, .empty, grammar.start⟩

end EbnfGrammar

end Predictive
