import Predictive.Grammar.Definition

/-!
# Named rules

What a grammar text says before its symbols are told apart: for each rule name the
alternatives, each a text of names separated by blanks. A name that is used but has no
rule is a terminal.

## Main definitions

* `Source` — rules by name, and the name of the start symbol
* `Grammar.ofSource` — the grammar that the rules define
-/

namespace Predictive

/-- Rules by name. Each alternative is a text of names separated by blanks, and the empty
text stands for `ε`. -/
structure Source where
  /-- The name of the start symbol, if one is given. -/
  start : Option String
  /-- The alternatives of each rule. -/
  rules : OrderedMap String (List String)

namespace Source

/-- No rule at all. -/
def empty : Source := ⟨none, .empty⟩

/-- Declare the rule names as nonterminals, and pair each with its symbol. -/
def declareHeads : List String → Definition →
    Except GrammarError (List (String × Symbol) × Definition)
  | [], definition => .ok ([], definition)
  | name :: rest, definition => do
    let (s, definition) ← definition.nonterminal name
    let (heads, definition) ← declareHeads rest definition
    return ((name, s) :: heads, definition)

/-- Designate the start symbol, which must be a rule name. -/
def designate (start : Option String) (heads : List (String × Symbol)) (definition : Definition) :
    Except GrammarError Definition :=
  match start with
  | none => .ok definition
  | some name =>
    match heads.lookup name with
    | some s => definition.designateStart s
    | none => .error (.unknownStart name)

/-- The symbols of a list of words: a rule name stands for its nonterminal, any other word
is declared as a terminal. -/
def resolve (heads : List (String × Symbol)) : List String → Definition →
    Except GrammarError (List Symbol × Definition)
  | [], definition => .ok ([], definition)
  | word :: rest, definition => do
    let (s, definition) ←
      match heads.lookup word with
      | some s => .ok (s, definition)
      | none => definition.terminal word
    let (symbols, definition) ← resolve heads rest definition
    return (s :: symbols, definition)

/-- Add the alternatives of one rule. -/
def addAlternatives (heads : List (String × Symbol)) (left : Symbol) :
    List String → Definition → Except GrammarError Definition
  | [], definition => .ok definition
  | text :: rest, definition => do
    let (symbols, definition) ← resolve heads (Text.wordsOf text) definition
    addAlternatives heads left rest (← definition.rule left symbols)

/-- Add the alternatives of all rules, each rule together with the symbol of its name. -/
def addRules (heads : List (String × Symbol)) :
    List ((String × Symbol) × List String) → Definition → Except GrammarError Definition
  | [], definition => .ok definition
  | (head, alternatives) :: rest, definition => do
    addRules heads rest (← addAlternatives heads head.2 alternatives definition)

end Source

/-- The grammar that named rules define. -/
def Grammar.ofSource (source : Source) : Except GrammarError Grammar := do
  -- all rule names come first, so that a name used before its rule is no terminal
  let (heads, definition) ← Source.declareHeads source.rules.keys .empty
  let definition ← Source.designate source.start heads definition
  let bodies := source.rules.entries.map Prod.snd
  let definition ← Source.addRules heads (heads.zip bodies) definition
  definition.finish

end Predictive
