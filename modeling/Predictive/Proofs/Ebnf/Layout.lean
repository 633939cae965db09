import Predictive.Proofs.Ebnf.Matching

/-!
# Where lowering puts its symbols

Lowering takes new symbols one after the other: first those of an expression itself, then those of
its parts from left to right. So it is known beforehand which symbol will stand for which part, and
with which alternatives. A plain grammar in which the productions of an expression are laid out
from some position on realizes the expression.

## Main definitions

* `Expr.extent` — the number of symbols that an expression introduces
* `Expr.symbolAt`, `Expr.symbolsAt` — the symbols that stand for expressions
* `Expr.Laid` — the productions of an expression, from a position on

## Main results

* `Expr.Laid.realizes` — an expression whose productions are laid out is realized
* `Expr.exists_of_symbolsAt_eq_append` — a symbol of a list stands for one of its parts
-/

namespace Predictive

namespace Expr

variable {source : EbnfGrammar} {grammar : Grammar} {first : Nat} {front back parts : List Expr}

mutual

/-- The number of symbols that an expression introduces. -/
def extent : Expr → Nat
  | .terminal _ => 0
  | .nonterminal _ => 0
  | .chain parts => extentOfAll parts + 1
  | .choice parts => extentOfAll parts + 1
  | .optional body => body.extent + 1
  | .zeroOrMore body => body.extent + 1
  | .oneOrMore body => body.extent + 2

/-- The number of symbols that the parts of a list introduce. -/
def extentOfAll : List Expr → Nat
  | [] => 0
  | part :: rest => part.extent + extentOfAll rest

end

/-- The symbol that stands for an expression whose symbols are introduced from a position on. -/
def symbolAt (first : Nat) : Expr → Symbol
  | .terminal s => s
  | .nonterminal s => s
  | .chain _ => ⟨first⟩
  | .choice _ => ⟨first⟩
  | .optional _ => ⟨first⟩
  | .zeroOrMore _ => ⟨first⟩
  | .oneOrMore _ => ⟨first⟩

/-- The symbols that stand for the parts of a list. -/
def symbolsAt (first : Nat) : List Expr → List Symbol
  | [] => []
  | part :: rest => part.symbolAt first :: symbolsAt (first + part.extent) rest

mutual

/-- The productions of an expression, for symbols from a position on. The symbol of the expression
comes first, and those of its parts come after it. -/
def Laid (grammar : Grammar) (first : Nat) : Expr → Prop
  | .terminal _ => True
  | .nonterminal _ => True
  | .chain parts =>
    grammar.alternatives? ⟨first⟩ = some [.ofSymbols (symbolsAt (first + 1) parts)] ∧
      LaidAll grammar (first + 1) parts
  | .choice parts =>
    grammar.alternatives? ⟨first⟩ =
        some ((symbolsAt (first + 1) parts).map fun s => .ofSymbols [s]) ∧
      LaidAll grammar (first + 1) parts
  | .optional body =>
    grammar.alternatives? ⟨first⟩ = some [.ofSymbols [body.symbolAt (first + 1)], .epsilon] ∧
      body.Laid grammar (first + 1)
  | .zeroOrMore body =>
    grammar.alternatives? ⟨first⟩ =
        some [.ofSymbols [body.symbolAt (first + 1), ⟨first⟩], .epsilon] ∧
      body.Laid grammar (first + 1)
  | .oneOrMore body =>
    grammar.alternatives? ⟨first⟩ =
        some [.ofSymbols [body.symbolAt (first + 2), ⟨first + 1⟩]] ∧
      grammar.alternatives? ⟨first + 1⟩ =
        some [.ofSymbols [body.symbolAt (first + 2), ⟨first + 1⟩], .epsilon] ∧
      body.Laid grammar (first + 2)

/-- The productions of the parts of a list, one part after the other. -/
def LaidAll (grammar : Grammar) (first : Nat) : List Expr → Prop
  | [] => True
  | part :: rest => part.Laid grammar first ∧ LaidAll grammar (first + part.extent) rest

end

/-! ### Lists of parts -/

theorem symbolsAt_append :
    symbolsAt first (front ++ back) =
      symbolsAt first front ++ symbolsAt (first + extentOfAll front) back := by
  induction front generalizing first with
  | nil => rfl
  | cons part rest ih =>
    rw [List.cons_append, symbolsAt, symbolsAt, ih, extentOfAll, Nat.add_assoc, List.cons_append]

theorem laidAll_append :
    LaidAll grammar first (front ++ back) ↔
      LaidAll grammar first front ∧ LaidAll grammar (first + extentOfAll front) back := by
  induction front generalizing first with
  | nil => simp [LaidAll, extentOfAll]
  | cons part rest ih =>
    rw [List.cons_append, LaidAll, LaidAll, ih, extentOfAll, Nat.add_assoc, and_assoc]

/-- A symbol of a list stands for one of its parts. -/
theorem exists_of_symbolsAt_eq_append {before after : List Symbol} {s : Symbol}
    (split : symbolsAt first parts = before ++ s :: after) :
    ∃ front part back, parts = front ++ part :: back ∧
      s = part.symbolAt (first + extentOfAll front) ∧
      after = symbolsAt (first + extentOfAll front + part.extent) back := by
  induction parts generalizing first before with
  | nil => simp [symbolsAt] at split
  | cons part rest ih =>
    rw [symbolsAt] at split
    cases before with
    | nil =>
      obtain ⟨same, others⟩ := List.cons.inj split
      exact ⟨[], part, rest, rfl, same.symm, others.symm⟩
    | cons other before =>
      obtain ⟨-, later⟩ := List.cons.inj split
      obtain ⟨front, found, back, rfl, same, others⟩ := ih later
      refine ⟨part :: front, found, back, rfl, ?_, ?_⟩
      · rw [extentOfAll, ← Nat.add_assoc, same]
      · rw [extentOfAll, ← Nat.add_assoc, others]

/-! ### Realization -/

open EbnfGrammar

mutual

/-- An expression whose productions are laid out is realized. -/
theorem Laid.realizes : ∀ {expr : Expr} {first : Nat}, expr.Laid grammar first →
    source.Admits expr → Realizes source grammar [expr] [expr.symbolAt first]
  | .terminal _, _, _, admits => .terminal admits .nil
  | .nonterminal _, _, _, admits => .nonterminal admits .nil
  | .chain _, _, laid, admits => .chain (LaidAll.realizes laid.2 admits) laid.1 .nil
  | .choice _, _, laid, admits => .choice (LaidAll.realizes laid.2 admits.2) laid.1 .nil
  | .optional _, _, laid, admits => .optional (Laid.realizes laid.2 admits) laid.1 .nil
  | .zeroOrMore _, _, laid, admits => .zeroOrMore (Laid.realizes laid.2 admits) laid.1 .nil
  | .oneOrMore _, _, laid, admits =>
    .oneOrMore (Laid.realizes laid.2.2 admits) laid.1 laid.2.1 .nil

/-- So are the parts of a list. -/
theorem LaidAll.realizes : ∀ {parts : List Expr} {first : Nat}, LaidAll grammar first parts →
    source.AdmitsAll parts → Realizes source grammar parts (symbolsAt first parts)
  | [], _, _, _ => .nil
  | _ :: _, _, laid, admits =>
    (Laid.realizes laid.1 admits.1).cons (LaidAll.realizes laid.2 admits.2)

end

end Expr

end Predictive
