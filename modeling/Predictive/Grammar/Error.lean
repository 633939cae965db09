import Predictive.Fault

/-!
# Errors of grammar definitions

What can be wrong with a grammar, whether it is built step by step, converted from
named rules or read from text. Each cause has its own constructor and its wording in
one place.

## Main definitions

* `SourceError` — what is wrong with a grammar text
* `GrammarError` — what is wrong with a grammar
* `GrammarError.message` — the wording
-/

namespace Predictive

/-- What is wrong at a line of a grammar text. -/
inductive SourceError where
  /-- The text holds something that is no token. -/
  | unrecognized (text : String)
  /-- An item begins with neither a name nor `%start`. -/
  | missingItem
  /-- `%start` is not followed by a name. -/
  | missingStart
  /-- The name of a rule is not followed by a colon. -/
  | missingColon
  /-- A colon stands inside a rule. -/
  | strayColon
  /-- `%start` stands inside a rule. -/
  | strayStart
  /-- The text ends inside a rule. -/
  | unterminated (name : String)
  /-- A rule of this name has been read before. -/
  | duplicateRule
  deriving DecidableEq

/-- The wording of an error in a grammar text. -/
def SourceError.message : SourceError → String
  | .unrecognized text => "unrecognized token `" ++ text ++ "'"
  | .missingItem => "expected a rule name or `%start'"
  | .missingStart => "missing start symbol"
  | .missingColon => "expected `:' after the rule name"
  | .strayColon => "unexpected `:'"
  | .strayStart => "unexpected `%start'"
  | .unterminated name => "the rule `" ++ name ++ "' is not terminated by `;'"
  | .duplicateRule => "duplicate rule"

/-- What is wrong with a grammar. -/
inductive GrammarError where
  /-- The file that holds the grammar cannot be read. -/
  | unreadable (reason : String)
  /-- The text of the grammar is malformed. -/
  | malformed (line : Nat) (cause : SourceError)
  /-- A name is empty, reserved, or holds a blank. -/
  | invalidName (name : String)
  /-- A terminal is used as a nonterminal, or the other way round. -/
  | kindMismatch (name : String)
  /-- A symbol that should have a production is no nonterminal. -/
  | notNonterminal (name : String)
  /-- A nonterminal was declared and never defined. -/
  | noAlternatives (name : String)
  /-- A rule refers to a symbol that was never declared. -/
  | undefinedSymbol (name referencedBy : String)
  /-- No nonterminal was declared. -/
  | noNonterminals
  /-- The start symbol of named rules has no rule. -/
  | unknownStart (name : String)
  /-- A rule refers to a symbol outside the table of names. -/
  | unknownSymbol (s : Symbol)
  /-- A nonterminal was given a second defining expression. -/
  | duplicateRule (name : String)
  /-- An expression offers a choice among nothing. -/
  | emptyChoice (name : String)
  /-- The definition was cut short by a fault. -/
  | fault (fault : Fault)
  deriving DecidableEq

namespace GrammarError

/-- The wording of an error, or nothing where a fault cut the definition short. -/
def message? : GrammarError → Option String
  | .unreadable reason => some ("IO error: " ++ reason)
  | .malformed line cause =>
    some ("Syntax error at line " ++ toString line ++ ": " ++ cause.message)
  | .invalidName name => some ("incorrect symbol name: `" ++ name ++ "'")
  | .kindMismatch name =>
    some ("`" ++ name ++ "' is declared both as a terminal and a nonterminal")
  | .notNonterminal name => some ("`" ++ name ++ "' is not a nonterminal")
  | .noAlternatives name => some ("the nonterminal `" ++ name ++ "' has no alternatives")
  | .undefinedSymbol name referencedBy =>
    some ("undefined symbol `" ++ name ++ "' referenced by `" ++ referencedBy ++ "'")
  | .noNonterminals => some "empty nonterminal symbols"
  | .unknownStart name => some ("Other error: unknown start symbol: `" ++ name ++ "'")
  | .unknownSymbol s =>
    some ("Other error: unknown symbol ID SymbolID \x7b raw: " ++ toString s.id ++ " \x7d")
  | .duplicateRule name => some ("Other error: duplicate rule for `" ++ name ++ "'")
  | .emptyChoice name => some ("Other error: empty choice in the rule of `" ++ name ++ "'")
  | .fault _ => none

end GrammarError

end Predictive
