import Predictive.Symbol.Names

/-!
# Expressions

The right-hand side of an EBNF production is an expression: a symbol, or expressions in a chain,
in a choice, or repeated.

## Main definitions

* `Expr` — an expression over symbols
* `Expr.render` — its readable form, with the suffixes `?`, `*` and `+`
-/

namespace Predictive

/-- The right-hand side of an EBNF production. -/
inductive Expr where
  /-- One token. -/
  | terminal (s : Symbol)
  /-- What a nonterminal stands for. -/
  | nonterminal (s : Symbol)
  /-- Every expression in order. -/
  | chain (parts : List Expr)
  /-- One of the expressions. -/
  | choice (parts : List Expr)
  /-- The expression or nothing. -/
  | optional (body : Expr)
  /-- Any number of times the expression. -/
  | zeroOrMore (body : Expr)
  /-- The expression, at least once. -/
  | oneOrMore (body : Expr)

namespace Expr

mutual

/-- The number of nodes, where the places in a list and the rounds of a repetition count. -/
def size : Expr → Nat
  | .terminal _ => 1
  | .nonterminal _ => 1
  | .chain parts => sizeOfAll parts + 1
  | .choice parts => sizeOfAll parts + 1
  | .optional body => body.size + 1
  | .zeroOrMore body => body.size + 2
  | .oneOrMore body => body.size + 2

/-- The number of nodes of a list of expressions. -/
def sizeOfAll : List Expr → Nat
  | [] => 1
  | part :: rest => part.size + sizeOfAll rest + 1

end

/-- The parts of a list, separated and in parentheses if they stand inside another expression. -/
def renderParts (separator : String) (nested : Bool) (parts : List String) : String :=
  if parts.isEmpty then "ε"
  else
    let shown := separator.intercalate parts
    if nested then "(" ++ shown ++ ")" else shown

mutual

/-- The readable form of an expression that may stand inside another one. -/
def renderIn (names : NameTable) (nested : Bool) : Expr → Except Fault String
  | .terminal s => names.display s
  | .nonterminal s => names.display s
  | .chain parts => return renderParts " " nested (← renderAll names parts)
  | .choice parts => return renderParts " | " nested (← renderAll names parts)
  | .optional body => return (← body.renderIn names true) ++ "?"
  | .zeroOrMore body => return (← body.renderIn names true) ++ "*"
  | .oneOrMore body => return (← body.renderIn names true) ++ "+"

/-- The readable forms of the parts of a list. -/
def renderAll (names : NameTable) : List Expr → Except Fault (List String)
  | [] => .ok []
  | part :: rest => do
    let shown ← part.renderIn names true
    return shown :: (← renderAll names rest)

end

/-- The readable form of an expression. -/
def render (names : NameTable) (expr : Expr) : Except Fault String := expr.renderIn names false

end Expr

end Predictive
