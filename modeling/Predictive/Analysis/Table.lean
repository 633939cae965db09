import Predictive.Analysis.Follow

/-!
# Parse tables

A predictive parser decides by one terminal of lookahead which entry to use for a nonterminal.
The table has a row for each nonterminal and a cell for each lookahead that selects an entry. A
cell that is written again keeps the entry written last, and every overwriting is recorded as
a conflict; a grammar is LL(1) if there is none.

## Main definitions

* `ParseTable` — rows of cells, and the conflicts
* `ParseTable.fill` — write an entry under the lookaheads that select it
* `ParseTable.build` — the table of a grammar
* `ParseTable.isLL1` — no cell was written twice
-/

namespace Predictive

/-- A cell that was claimed twice, even by equal entries. -/
structure Conflict (α : Type) where
  /-- The nonterminal of the cell's row. -/
  nonterminal : Symbol
  /-- The lookahead of the cell. -/
  terminal : Symbol
  /-- The entry that was overwritten. -/
  replaced : α
  /-- The entry that was written over it. -/
  chosen : α

/-- Rows of cells by nonterminal and lookahead, and the conflicts in order. -/
structure ParseTable (α : Type) where
  /-- A row for each nonterminal. -/
  rows : OrderedMap Symbol (OrderedMap Symbol α)
  /-- Every overwriting of a cell. -/
  conflicts : List (Conflict α)

namespace ParseTable

variable {α : Type}

/-- A table with empty rows. -/
def initial (nonterminals : List Symbol) : ParseTable α :=
  ⟨OrderedMap.constant nonterminals .empty, []⟩

/-- The row of a nonterminal. -/
def row? (table : ParseTable α) (s : Symbol) : Option (OrderedMap Symbol α) := table.rows.get? s

/-- The entry of a cell. -/
def get? (table : ParseTable α) (s terminal : Symbol) : Option α :=
  (table.row? s).bind fun row => row.get? terminal

/-- The lookaheads that have an entry in the row of a nonterminal. -/
def lookaheads (table : ParseTable α) (s : Symbol) : SymbolSet :=
  match table.row? s with
  | some row => SymbolSet.ofList row.keys
  | none => .empty

/-- Whether no cell was claimed twice. -/
def isLL1 (table : ParseTable α) : Bool := table.conflicts.isEmpty

/-- Write a cell. -/
def write (table : ParseTable α) (s : Symbol) (entry : α) (terminal : Symbol) : ParseTable α :=
  let row := (table.row? s).getD .empty
  let rows := table.rows.insert s (row.insert terminal entry)
  match row.get? terminal with
  | none => { table with rows }
  -- the entries are not compared: the same entry twice is a conflict too
  | some replaced => ⟨rows, table.conflicts ++ [⟨s, terminal, replaced, entry⟩]⟩

/-- Write an entry into the cells of all lookaheads that select it: the terminals of its FIRST
set, and, if it is nullable, what can follow. -/
def fill (table : ParseTable α) (s : Symbol) (first follow : SymbolSet) (entry : α) :
    ParseTable α :=
  (first.followedBy follow).toList.foldl (fun table terminal => table.write s entry terminal) table

/-- The alternatives of all productions, each with its nonterminal. -/
def choices (grammar : Grammar) : List (Symbol × Alternative) :=
  grammar.productions.entries.flatMap fun production =>
    production.2.map fun alternative => (production.1, alternative)

/-- The table of a grammar, given its FIRST and FOLLOW sets. -/
def build (grammar : Grammar) (firsts : FirstSets) (follows : FollowSets) :
    ParseTable Alternative :=
  (choices grammar).foldl (fun table choice =>
    table.fill choice.1 (firsts.ofString choice.2.symbols) (follows.get choice.1) choice.2)
    (initial grammar.nonterminals)

/-- The table of a grammar. -/
def ofGrammar (grammar : Grammar) : ParseTable Alternative :=
  let firsts := FirstSets.compute grammar
  build grammar firsts (FollowSets.compute grammar firsts)

/-- The readable form of a table: its rows, each under a heading, one line for a cell. -/
def renderWith (table : ParseTable α) (names : NameTable)
    (renderEntry : Symbol → α → Except Fault String) : Except Fault String := do
  let rows ← table.rows.entries.mapM fun entry => do
    let heading := "#### " ++ (← names.name entry.1) ++ "\n"
    let cells ← entry.2.entries.mapM fun cell =>
      return "- " ++ (← names.name cell.1) ++ " => " ++ (← renderEntry entry.1 cell.2) ++ "\n"
    return heading ++ String.join cells
  return "\n".intercalate rows

/-- The readable form of the table of a grammar. -/
def render (table : ParseTable Alternative) (names : NameTable) : Except Fault String :=
  table.renderWith names fun s alternative =>
    return (← names.name s) ++ " := " ++ (← alternative.render names)

end ParseTable

/-- The readable form of a conflict. -/
def Conflict.render (names : NameTable) (conflict : Conflict Alternative) :
    Except Fault String := do
  return "conflict at (" ++ (← names.name conflict.nonterminal) ++ ", " ++
    (← names.name conflict.terminal) ++ "): `" ++ (← conflict.replaced.render names) ++
    "' is overwritten by `" ++ (← conflict.chosen.render names) ++ "'"

end Predictive
