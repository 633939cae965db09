import Predictive.Grammar.LeftFactor
import Predictive.Grammar.Source.Reader
import Predictive.Lexer.Basic
import Predictive.Parse.Log

/-!
# The command line

Two commands: `analyze` prints the sets and the table of a grammar, `parse` parses an input with
the table of a grammar and a file of lexer rules. What a command prints is a function of its
arguments and of the files that it names. How files are read is a parameter: whoever executes a
command says where they are found.

## Main definitions

* `ReadError` — why a file cannot be read
* `Command` — what is asked for
* `Command.ofArguments?` — the command that the arguments spell
* `Command.execute` — what a command prints, and its exit code
-/

namespace Predictive

/-- Why a file cannot be read. -/
inductive ReadError where
  /-- A name leads nowhere. -/
  | missing
  /-- A file stands where a directory should. -/
  | notDirectory
  /-- The path leads to a directory. -/
  | isDirectory
  /-- A name or the path is too long. -/
  | nameTooLong
  /-- The bytes of the file are no text. -/
  | notText
  /-- Another reason. -/
  | other (reason : String)
  deriving DecidableEq

/-- The wording of the reason. -/
def ReadError.message : ReadError → String
  | .missing => "No such file or directory (os error 2)"
  | .notDirectory => "Not a directory (os error 20)"
  | .isDirectory => "Is a directory (os error 21)"
  | .nameTooLong => "File name too long (os error 36)"
  | .notText => "stream did not contain valid UTF-8"
  | .other reason => reason

/-- What is asked for. -/
inductive Command where
  /-- Print the sets and the table of a grammar. -/
  | analyze (grammar : String) (leftFactor : Bool)
  /-- Parse an input. -/
  | parse (grammar lexer : String) (leftFactor strict : Bool) (input : String)
  deriving DecidableEq

/-- What a command prints, and its exit code. -/
structure Report where
  /-- The exit code. -/
  code : Nat
  /-- The text for standard output. -/
  output : String
  /-- The text for standard error. -/
  errors : String
  deriving DecidableEq

namespace Command

/-! ### Arguments -/

/-- The arguments of a command, sorted by kind. -/
structure Arguments where
  /-- The arguments that are no options. -/
  plain : List String
  /-- The file of lexer rules. -/
  lexer : Option String
  /-- Whether to left-factor the grammar first. -/
  leftFactor : Bool
  /-- Whether the whole input must be consumed. -/
  strict : Bool

/-- No arguments. -/
def Arguments.none : Arguments := ⟨[], Option.none, false, false⟩

/-- Whether an argument looks like an option: it starts with a hyphen and is more than that. -/
def isOption (argument : String) : Bool :=
  match argument.toList with
  | '-' :: _ :: _ => true
  | _ => false

/-- Set the file of lexer rules, once, to a name that is not empty. -/
def Arguments.setLexer? (arguments : Arguments) (name : String) : Option Arguments :=
  if arguments.lexer.isSome || name == "" then Option.none
  else some { arguments with lexer := some name }

/-- Take an option that carries its value or has none. The options of the command `parse` are
known only if `parsing`. -/
def Arguments.takeOption? (parsing : Bool) (arguments : Arguments) (option : String) :
    Option Arguments :=
  if option == "--left-factor" && !arguments.leftFactor then
    some { arguments with leftFactor := true }
  else if option == "--strict" && parsing && !arguments.strict then
    some { arguments with strict := true }
  else if parsing && "--lexer=".toList.isPrefixOf option.toList then
    arguments.setLexer? (String.ofList (option.toList.drop 8))
  else Option.none

/-- Sort the arguments of a command. Options may stand anywhere before `--`, each once. -/
def Arguments.collect? (parsing : Bool) (arguments : Arguments) :
    List String → Option Arguments
  | [] => some arguments
  | "--" :: rest => some { arguments with plain := arguments.plain ++ rest }
  -- the name of the rules file may stand in an argument of its own
  | ["--lexer"] => Option.none
  | "--lexer" :: value :: rest =>
    if parsing && !isOption value then
      (arguments.setLexer? value).bind fun arguments => arguments.collect? parsing rest
    else Option.none
  | argument :: rest =>
    if isOption argument then
      (arguments.takeOption? parsing argument).bind fun arguments =>
        arguments.collect? parsing rest
    else { arguments with plain := arguments.plain ++ [argument] }.collect? parsing rest

/-- The command that the arguments spell, if they spell one. -/
def ofArguments? : List String → Option Command
  | "analyze" :: rest =>
    match Arguments.none.collect? false rest with
    | some ⟨[grammar], _, leftFactor, _⟩ =>
      if grammar == "" then Option.none else some (.analyze grammar leftFactor)
    | _ => Option.none
  | "parse" :: rest =>
    match Arguments.none.collect? true rest with
    | some ⟨[grammar, input], some lexer, leftFactor, strict⟩ =>
      if grammar == "" then Option.none
      else some (.parse grammar lexer leftFactor strict input)
    | _ => Option.none
  | _ => Option.none

/-- The files that a command names. -/
def files : Command → List String
  | .analyze grammar _ => [grammar]
  | .parse grammar lexer _ _ _ => [grammar, lexer]

/-! ### Execution -/

/-- How a command ends short of printing all it was asked for. -/
inductive Stop where
  /-- An error, with its cause if there is one. -/
  | error (message : String) (cause : Option String)
  /-- A fault. -/
  | fault (fault : Fault)

/-- The text that an error leaves on standard error. -/
def renderError (message : String) (cause : Option String) : String :=
  "Error: " ++ message ++ "\n" ++
    match cause with
    | some cause => "\nCaused by:\n    " ++ cause ++ "\n"
    | Option.none => ""

/-- Stop at a fault. -/
def orStop {α : Type} : Except Fault α → Except Stop α
  | .ok a => .ok a
  | .error fault => .error (.fault fault)

/-- Load a grammar from a file, and left-factor it if asked for. -/
def loadGrammar (read : String → Except ReadError String) (path : String) (leftFactor : Bool) :
    Except Stop Grammar := do
  let loaded :=
    match read path with
    | .ok text => Grammar.ofText text
    | .error reason => .error (.unreadable reason.message)
  match loaded with
  | .ok grammar => if leftFactor then return (← orStop grammar.leftFactor).1 else return grammar
  | .error (.fault fault) => .error (.fault fault)
  | .error error =>
    .error (.error ("failed to load the grammar from " ++ path) error.message?)

/-- Load a scanner from a file of lexer rules. -/
def loadScanner (read : String → Except ReadError String) (path : String) :
    Except Stop Scanner :=
  match read path with
  | .error reason =>
    .error (.error ("failed to read lexer rules from " ++ path) (some reason.message))
  | .ok text =>
    match Scanner.ofText text with
    | .ok scanner => .ok scanner
    | .error error => .error (.error "invalid lexer rules" (some error.message))

/-- One warning for each conflict. -/
def renderConflicts (grammar : Grammar) (table : ParseTable Alternative) :
    Except Fault String := do
  let lines ← table.conflicts.mapM fun conflict =>
    return "[warning] " ++ (← conflict.render grammar.names) ++ "\n"
  return String.join lines

/-- The warning that a grammar is not LL(1). -/
def renderSummary (table : ParseTable Alternative) : String :=
  let n := table.conflicts.length
  if n = 0 then ""
  else
    "[warning] The grammar is not LL(1): " ++ toString n ++ " conflicting cell" ++
      (if n = 1 then "" else "s") ++ ".\n"

/-- What `analyze` prints. -/
def renderAnalysis (grammar : Grammar) : Except Fault String := do
  let firsts := FirstSets.compute grammar
  let follows := FollowSets.compute grammar firsts
  let table := ParseTable.build grammar firsts follows
  return (← grammar.render) ++ "\n## first sets:\n" ++
    (← firsts.render grammar.names grammar.nonterminals) ++ "\n## follow sets:\n" ++
    (← follows.render grammar.names) ++ "\n## parse table:\n" ++
    (← table.render grammar.names) ++ (← renderConflicts grammar table) ++ renderSummary table

/-- What `parse` prints for a result, and its exit code. -/
def reportParse (grammar : Grammar) (table : ParseTable Alternative) (result : ParseResult) :
    Except Fault Report := do
  let lines ← result.log grammar.names
  let output := (← renderConflicts grammar table) ++ String.join (lines.map (· ++ "\n")) ++
    "\n" ++ (← result.tree.render grammar.names)
  match result.verdict with
  | .failure failure =>
    let expected ← grammar.names.displaySet result.expected
    let message := "parse failed at `" ++ failure.lookahead ++ "' (" ++ failure.cause.kind ++ ")"
    return ⟨1, output ++ "\nexpected: " ++ expected ++ "\n", renderError message Option.none⟩
  | _ => return ⟨0, output, ""⟩

/-- What a command prints, and its exit code, if every file that it needs is loaded. There is no
report if the parse would not end. -/
def perform (read : String → Except ReadError String) :
    Command → Except Stop (Option Report)
  | .analyze path leftFactor => do
    let grammar ← loadGrammar read path leftFactor
    return some ⟨0, ← orStop (renderAnalysis grammar), ""⟩
  | .parse path lexer leftFactor strict input => do
    -- an error in the grammar is reported before one in the rules
    let grammar ← loadGrammar read path leftFactor
    let scanner ← loadScanner read lexer
    let table := ParseTable.ofGrammar grammar
    match grammar.parse table strict (scanner.scan input) with
    | Option.none => return Option.none
    | some result => return some (← orStop (reportParse grammar table result))

/-- What a command prints, and its exit code, given how files are read. There is no report if the
parse would not end. -/
def execute (read : String → Except ReadError String) (command : Command) :
    Except Fault (Option Report) :=
  match perform read command with
  | .ok report => .ok report
  | .error (.fault fault) => .error fault
  | .error (.error message cause) => .ok (some ⟨1, "", renderError message cause⟩)

end Command

end Predictive
