import Predictive.Grammar.Error
import Predictive.Ordered.Set
import Predictive.Symbol.Names
import Predictive.Text.Blank

/-!
# Declared symbols

The symbols of a grammar under construction: which names are terminals, which are
nonterminals, and which nonterminal is the start symbol.

## Main definitions

* `Declarations` — the symbols declared so far
* `Declarations.terminal`, `Declarations.nonterminal` — declare a symbol
* `Declarations.designateStart`, `Declarations.startSymbol` — choose the start symbol
-/

namespace Predictive

/-- The symbols declared so far. -/
structure Declarations where
  /-- The names of the symbols. -/
  names : NameTable
  /-- The terminals in order of declaration. -/
  terminals : OrderedSet Symbol
  /-- The nonterminals in order of declaration. -/
  nonterminals : OrderedSet Symbol
  /-- The designated start symbol. -/
  start : Option Symbol

namespace Declarations

/-- No symbol is declared. -/
def empty : Declarations := ⟨.reserved, .empty, .empty, none⟩

/-- Whether a name may be declared: it is not empty, not reserved, and without blanks. -/
def isValidName (name : String) : Bool :=
  !(name == "" || name == "EOF" || name.toList.any Text.isBlank)

/-- The name of a symbol, for the wording of an error. -/
def nameOf (declared : Declarations) (s : Symbol) : Except GrammarError String :=
  match declared.names.name s with
  | .ok name => .ok name
  | .error fault => .error (.fault fault)

/-- Register a name that may be declared. -/
def register (declared : Declarations) (name : String) :
    Except GrammarError (Symbol × Declarations) :=
  if isValidName name then
    match declared.names.intern name with
    | .ok (s, names) => .ok (s, { declared with names })
    | .error fault => .error (.fault fault)
  else .error (.invalidName name)

/-- Declare a terminal. Declaring it again gives the same symbol, and the end of input
is a terminal of every grammar. -/
def terminal (declared : Declarations) (name : String) :
    Except GrammarError (Symbol × Declarations) :=
  if name = "EOF" then .ok (.eof, declared)
  else do
    let (s, declared) ← declared.register name
    if declared.nonterminals.contains s then .error (.kindMismatch name)
    else .ok (s, { declared with terminals := declared.terminals.insert s })

/-- Declare a nonterminal. Declaring it again gives the same symbol. -/
def nonterminal (declared : Declarations) (name : String) :
    Except GrammarError (Symbol × Declarations) := do
  let (s, declared) ← declared.register name
  if declared.terminals.contains s then .error (.kindMismatch name)
  else .ok (s, { declared with nonterminals := declared.nonterminals.insert s })

/-- Designate the start symbol, in place of any designated before. -/
def designateStart (declared : Declarations) (s : Symbol) : Except GrammarError Declarations :=
  if declared.nonterminals.contains s then .ok { declared with start := some s }
  else do .error (.notNonterminal (← declared.nameOf s))

/-- The start symbol: the designated one, or else the nonterminal declared first. -/
def startSymbol (declared : Declarations) : Except GrammarError Symbol :=
  match declared.start with
  | some s => .ok s
  | none =>
    match declared.nonterminals.items.head? with
    | some s => .ok s
    | none => .error .noNonterminals

end Declarations

end Predictive
