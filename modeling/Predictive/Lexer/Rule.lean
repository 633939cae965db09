import Predictive.Lexer.Token

/-!
# Lexer rules

A rule pairs a pattern with the name of the token that its matches become; matches of a rule
without a token are skipped. Rules are written one to a line, the token name before the
pattern, with `-` for none.

## Main definitions

* `LexRule` — a rule as it is written
* `LexRule.readAll` — the rules of a text
-/

namespace Predictive

/-- A lexer rule as it is written. -/
structure LexRule where
  /-- The name of the token, or nothing if matches are skipped. -/
  token : Option String
  /-- The written form of the pattern. -/
  pattern : String
  deriving DecidableEq

namespace LexRule

/-- The rule of a line without blanks at its ends: the token name ends at the first blank.
There is no rule without a pattern. -/
def ofLine? (line : List Char) : Option LexRule :=
  match line.dropWhile fun c => !Text.isBlank c with
  | [] => none
  | rest =>
    let name := String.ofList (line.takeWhile fun c => !Text.isBlank c)
    some ⟨if name = "-" then none else some name, String.ofList (Text.trim rest)⟩

/-- The rules of the lines of a text, the first of which has the given number. Blank lines
and lines that begin with `#` hold no rule. -/
def readLines (number : Nat) : List (List Char) → Except LexError (List LexRule)
  | [] => .ok []
  | line :: rest =>
    let line := Text.trim line
    if line.isEmpty || line.head? = some '#' then readLines (number + 1) rest
    else
      match ofLine? line with
      | none => .error (.malformedRule number)
      | some rule => do return rule :: (← readLines (number + 1) rest)

/-- The rules of a text, one to a line. -/
def readAll (text : String) : Except LexError (List LexRule) :=
  readLines 1 (Text.lines text.toList)

end LexRule

end Predictive
