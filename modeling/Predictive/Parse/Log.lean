import Predictive.Parse.Machine

/-!
# Logs of a parse

The log of a parse has one line for each event and a last line that says how it ended.

## Main definitions

* `ParseResult.log` — the log of a parse
* `Cause.render` — the line that a failure leaves
* `Cause.kind` — the short name of a cause
-/

namespace Predictive

/-- The short name of a cause. -/
def Cause.kind : Cause → String
  | .unexpectedToken _ => "UnexpectedToken"
  | .noTableEntry _ => "NoTableEntry"
  | .trailingInput => "TrailingInput"
  | .lexicalError _ => "LexicalError"

/-- The line that a cause leaves in the log, given the name of the lookahead. -/
def Cause.render (names : NameTable) (lookahead : String) : Cause → Except Fault String
  | .unexpectedToken s => return unexpected ++ (← names.name s)
  | .noTableEntry row => return unexpected ++ "one of " ++ (← names.displaySet row)
  | .trailingInput => .ok (unexpected ++ "EOF")
  | .lexicalError error => .ok ("Lexical error: " ++ error.message)
where
  /-- What the lines about an unexpected token have in common. -/
  unexpected : String := "Unexpected token " ++ lookahead ++ ", expected "

/-- The line that a failure leaves in the log. -/
def Failure.render (names : NameTable) (failure : Failure) : Except Fault String :=
  failure.cause.render names failure.lookahead

/-- The last line of a log. -/
def Verdict.render (names : NameTable) : Verdict → Except Fault String
  | .success => .ok "success"
  | .failure failed => failed.render names
  | .fault found => .error found

/-- The log of a parse: a line for each event, and how it ended. -/
def ParseResult.log (names : NameTable) (result : ParseResult) : Except Fault (List String) := do
  let lines ← result.events.mapM (Event.render names)
  return lines ++ [← result.verdict.render names]

/-- The symbols of the stack of a failed parse: the end of input at the bottom, and the leftmost
waiting node on top. -/
def Failure.stack (failure : Failure) : List Symbol :=
  .eof :: (failure.waiting.map Pending.symbol).reverse

/-- The numbers of the waiting nodes, the leftmost one last. -/
def Failure.nodeStack (failure : Failure) : List Nat := (failure.waiting.map Pending.id).reverse

end Predictive
