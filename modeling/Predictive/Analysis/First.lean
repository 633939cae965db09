import Predictive.Analysis.Saturation
import Predictive.Grammar.Basic

/-!
# FIRST sets

The FIRST set of a symbol holds the terminals that begin what the symbol derives, and `ε` if
it derives the empty string. A terminal begins itself.

## Main definitions

* `SymbolSet.followedBy` — what begins a string together with what follows it
* `FirstSets` — a set for every symbol of a grammar
* `FirstSets.ofString` — the FIRST set of a string of symbols
* `FirstSets.pass` — add what the productions say once
* `FirstSets.compute` — the FIRST sets of a grammar
-/

namespace Predictive

/-- The terminals that can begin a string with the given FIRST set when one of `follow` comes
after it. -/
def SymbolSet.followedBy (first follow : SymbolSet) : SymbolSet :=
  if first.contains .epsilon then first.withoutEpsilon.union follow else first.withoutEpsilon

/-- A set for every symbol of a grammar. -/
structure FirstSets where
  /-- The sets: those of terminals, of `EOF` and of `ε`, then those of nonterminals. -/
  sets : OrderedMap Symbol SymbolSet

namespace FirstSets

/-- A terminal begins itself; of nonterminals nothing is known yet. -/
def initial (terminals nonterminals : List Symbol) : FirstSets where
  sets :=
    (OrderedMap.empty.insertAll ((terminals ++ [Symbol.eof, Symbol.epsilon]).map fun s =>
      (s, SymbolSet.singleton s))).insertAll (nonterminals.map fun s => (s, .empty))

/-- The set of a symbol, if the symbol is known. -/
def get? (firsts : FirstSets) (s : Symbol) : Option SymbolSet := firsts.sets.get? s

/-- Whether a symbol is known to derive the empty string. -/
def isNullable (firsts : FirstSets) (s : Symbol) : Bool :=
  (firsts.get? s).any fun set => set.contains .epsilon

/-- Add members to the set of a known symbol, and tell whether it grew. -/
def extend (firsts : FirstSets) (s : Symbol) (added : SymbolSet) : FirstSets × Bool :=
  match firsts.get? s with
  | none => (firsts, false)
  | some set =>
    let (set, grew) := set.extend added
    if grew then (⟨firsts.sets.insert s set⟩, true) else (firsts, false)

/-- The FIRST set of a string, given the members found for the symbols before it, all of which
are nullable. -/
def ofStringFrom (firsts : FirstSets) (found : SymbolSet) : List Symbol → SymbolSet
  | [] => found.insert .epsilon
  | s :: rest =>
    match firsts.get? s with
    -- what was found so far stands, `ε` included if a nullable symbol came before
    | none => found
    | some first =>
      if first.contains .epsilon then firsts.ofStringFrom (found.union first) rest
      else (found.union first).withoutEpsilon

/-- The FIRST set of a string: what begins its first symbol, and, as long as the symbols are
nullable, what begins the next. A symbol that is not known ends it. -/
def ofString (firsts : FirstSets) (symbols : List Symbol) : SymbolSet :=
  firsts.ofStringFrom .empty symbols

/-- The members of the FIRST sets of all alternatives. -/
def ofAlternatives (firsts : FirstSets) (alternatives : List Alternative) : SymbolSet :=
  alternatives.foldl (fun set alternative => set.union (firsts.ofString alternative.symbols))
    .empty

/-- Add what each production says, one after the other. -/
def pass (grammar : Grammar) (firsts : FirstSets) : FirstSets × Bool :=
  sweep (fun firsts production => firsts.extend production.1 (firsts.ofAlternatives production.2))
    firsts grammar.productions.entries

/-- The number of passes that always suffices: each but the last adds one of the terminals,
`EOF` or `ε` to one of the sets. -/
def passBound (firsts : FirstSets) (terminals : List Symbol) : Nat :=
  firsts.sets.size * (terminals.length + 2) + 1

/-- The FIRST sets of a grammar. -/
def compute (grammar : Grammar) : FirstSets :=
  let firsts := initial grammar.terminals.items grammar.nonterminals
  saturate (pass grammar) (firsts.passBound grammar.terminals.items) firsts

/-- One line `X: {a, b}` for each of the symbols that is known. -/
def render (firsts : FirstSets) (names : NameTable) (symbols : List Symbol) :
    Except Fault String := do
  let lines ← symbols.mapM fun s =>
    match firsts.get? s with
    | none => .ok ""
    | some set => return (← names.display s) ++ ": " ++ (← names.displaySet set) ++ "\n"
  return String.join lines

end FirstSets

end Predictive
