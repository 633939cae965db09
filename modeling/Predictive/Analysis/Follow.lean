import Predictive.Analysis.First

/-!
# FOLLOW sets

The FOLLOW set of a nonterminal holds the terminals that can come right after it, and `EOF` if
it can come last. The marker `ε` is never a member.

## Main definitions

* `FollowSets` — a set for every nonterminal of a grammar
* `FollowSets.pass` — add what the productions say once
* `FollowSets.compute` — the FOLLOW sets of a grammar
-/

namespace Predictive

/-- A set for every nonterminal of a grammar. -/
structure FollowSets where
  /-- The sets in the order of the nonterminals. -/
  sets : OrderedMap Symbol SymbolSet

namespace FollowSets

/-- The set of a nonterminal. -/
def get? (follows : FollowSets) (s : Symbol) : Option SymbolSet := follows.sets.get? s

/-- The set of a nonterminal, which is empty if the nonterminal is not known. -/
def get (follows : FollowSets) (s : Symbol) : SymbolSet := (follows.get? s).getD .empty

/-- The start symbol can come last; nothing else is known yet. -/
def initial (nonterminals : List Symbol) (start : Symbol) : FollowSets :=
  let sets := OrderedMap.constant nonterminals SymbolSet.empty
  if sets.contains start then ⟨sets.insert start (.singleton .eof)⟩ else ⟨sets⟩

/-- Add members other than `ε` to the set of a known nonterminal, and tell whether it grew. -/
def extend (follows : FollowSets) (s : Symbol) (added : SymbolSet) : FollowSets × Bool :=
  match follows.get? s with
  | none => (follows, false)
  | some set =>
    let (set, grew) := set.extend added.withoutEpsilon
    if grew then (⟨follows.sets.insert s set⟩, true) else (follows, false)

/-- What one occurrence of a nonterminal says: the string after it can begin what follows,
and if that string is nullable, so can what follows the left-hand side. -/
def visit (firsts : FirstSets) (left : Symbol) (follows : FollowSets)
    (occurrence : Symbol × List Symbol) : FollowSets × Bool :=
  let rest := firsts.ofString occurrence.2
  let (follows, grew) := follows.extend occurrence.1 rest
  if rest.contains .epsilon then
    -- the set of the left-hand side is the one that has just been extended
    let (follows, inherited) := follows.extend occurrence.1 (follows.get left)
    (follows, grew || inherited)
  else (follows, grew)

/-- The symbols of a string, each with the string after it. -/
def occurrences : List Symbol → List (Symbol × List Symbol)
  | [] => []
  | s :: rest => (s, rest) :: occurrences rest

/-- What one production says. -/
def visitProduction (grammar : Grammar) (firsts : FirstSets) (follows : FollowSets)
    (production : Symbol × List Alternative) : FollowSets × Bool :=
  let found := production.2.flatMap fun alternative => occurrences alternative.symbols
  sweep (visit firsts production.1) follows (found.filter fun o => grammar.isNonterminal o.1)

/-- Add what each production says, one after the other. -/
def pass (grammar : Grammar) (firsts : FirstSets) (follows : FollowSets) : FollowSets × Bool :=
  sweep (visitProduction grammar firsts) follows grammar.productions.entries

/-- The number of passes that always suffices: each but the last adds a terminal or `EOF` to
one of the sets. -/
def passBound (follows : FollowSets) (terminals : List Symbol) : Nat :=
  follows.sets.size * (terminals.length + 1) + 1

/-- The FOLLOW sets of a grammar, given its FIRST sets. -/
def compute (grammar : Grammar) (firsts : FirstSets) : FollowSets :=
  let follows := initial grammar.nonterminals grammar.start
  saturate (pass grammar firsts) (follows.passBound grammar.terminals.items) follows

/-- One line `X: {a, b}` for each nonterminal. -/
def render (follows : FollowSets) (names : NameTable) : Except Fault String := do
  let lines ← follows.sets.entries.mapM fun entry =>
    return (← names.display entry.1) ++ ": " ++ (← names.displaySet entry.2) ++ "\n"
  return String.join lines

end FollowSets

end Predictive
