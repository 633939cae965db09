import Predictive.Symbol

/-!
# Faults

A fault is a misuse that no operation of the library recovers from: asking for
the name of a symbol that the table of names does not hold, interning one name
too many, or introducing a nonterminal under a name whose production exists.
Errors that a caller is expected to handle have their own types.
-/

namespace Predictive

/-- A misuse that ends the computation. -/
inductive Fault where
  /-- The symbol lies outside the table of names. -/
  | unknownSymbol (s : Symbol)
  /-- The table of names is full. -/
  | tooManySymbols
  /-- A nonterminal that was to be introduced has a production already. -/
  | definedTwice (name : String)
  deriving DecidableEq

end Predictive
