/-!
# Grammar symbols

Terminals and nonterminals alike are symbols, and a symbol is known by its
position in a table of names. Two positions are reserved: the empty marker `ε`,
which stands in FIRST sets for the empty string and never occurs inside an
alternative, and `EOF`, the terminal that means the end of input.

## Main definitions

* `Symbol` — a position in a table of names
* `Symbol.epsilon`, `Symbol.eof` — the reserved symbols
-/

namespace Predictive

/-- A grammar symbol, known by its position in a table of names. -/
structure Symbol where
  /-- The position of the symbol's name. -/
  id : Nat
  deriving DecidableEq

namespace Symbol

/-- The reserved symbol that marks an empty derivation. -/
def epsilon : Symbol := ⟨0⟩

/-- The reserved terminal that means the end of input. -/
def eof : Symbol := ⟨1⟩

/-- The symbols `ε` and `EOF` belong to every table of names. -/
def isReserved (s : Symbol) : Bool := decide (s.id < 2)

theorem isReserved_iff (s : Symbol) : s.isReserved ↔ s = epsilon ∨ s = eof := by
  cases s with
  | mk n => simp [isReserved, epsilon, eof]; omega

end Symbol

end Predictive
