import Predictive.Command.Basic

/-!
# The program

Reads the files that the command names, and prints what the command says.
-/

namespace Predictive

/-- Why the system refused to read a file. -/
def ReadError.ofSystem : IO.Error → ReadError
  | .noFileOrDirectory .. => .missing
  | .noSuchThing .. => .missing
  | .inappropriateType .. => .isDirectory
  | error => .other (toString error)

/-- The text of a file, or why it cannot be read. -/
def readText (path : String) : IO (Except ReadError String) := do
  try
    match String.fromUTF8? (← IO.FS.readBinFile path) with
    | some text => return .ok text
    | none => return .error .notText
  catch error => return .error (.ofSystem error)

/-- How the program is called. -/
def usage : String :=
  "Usage: predictive analyze [--left-factor] GRAMMAR\n" ++
  "       predictive parse [--left-factor] [--strict] --lexer RULES GRAMMAR INPUT\n"

/-- Execute a command on the files of the system. -/
def runCommand (command : Command) : IO UInt32 := do
  let texts ← command.files.mapM fun path => return (path, ← readText path)
  let read (path : String) : Except ReadError String :=
    (texts.lookup path).getD (.error .missing)
  match command.execute read with
  | .ok (some report) =>
    IO.print report.output
    IO.eprint report.errors
    return report.code.toUInt32
  | .ok none =>
    IO.eprintln "the grammar is left-recursive: the parse does not end"
    return 101
  | .error _ =>
    IO.eprintln "the grammar has too many symbols"
    return 101

end Predictive

/-- Print what the command says, or how the program is called. -/
def main (arguments : List String) : IO UInt32 := do
  match Predictive.Command.ofArguments? arguments with
  | some command => Predictive.runCommand command
  | none =>
    IO.eprint Predictive.usage
    return 2
