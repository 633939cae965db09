import Predictive.Pattern.Reader
import Predictive.Text.Quoted

/-!
# Tokens and lexical errors

A lexer cuts a text into tokens, each with the name that a grammar may know and the text
that it covers. Reading ends with the token `EOF`, or with the first error.

## Main definitions

* `Token` — a name and the text that it covers
* `LexError` — what is wrong with a text or with the rules of a lexer
* `Input` — all that a lexer delivers for a text
-/

namespace Predictive

/-- A token: its name and the text that it covers. -/
structure Token where
  /-- The name of the token. -/
  name : String
  /-- The text that the token covers. -/
  text : String
  deriving DecidableEq

/-- The name of the token that means the end of input. -/
def Token.eofName : String := "EOF"

/-- What is wrong with a text or with the rules of a lexer. -/
inductive LexError where
  /-- No rule applies at a byte offset; the snippet shows what stands there. -/
  | unrecognized (offset : Nat) (snippet : String)
  /-- The pattern of a rule is malformed. -/
  | invalidRule (pattern : String) (cause : PatternError)
  /-- A line of rules has no pattern. -/
  | malformedRule (line : Nat)
  deriving DecidableEq

/-- The wording of a lexical error. -/
def LexError.message : LexError → String
  | .unrecognized offset snippet =>
    "unrecognized input at offset " ++ toString offset ++ ": " ++ Text.quote snippet
  | .invalidRule pattern cause => "invalid lexer rule `" ++ pattern ++ "': " ++ cause.message
  | .malformedRule line =>
    "syntax error in lexer rules at line " ++ toString line ++ ": expected `TOKEN REGEX'"

/-- How an input ends. -/
inductive Ending where
  /-- The end of input, with the text of its token. -/
  | eof (text : String)
  /-- The first error. -/
  | error (error : LexError)
  deriving DecidableEq

/-- All that a lexer delivers for a text: the tokens before the end of input, none of them
named `EOF`, and how it ends. -/
structure Input where
  /-- The tokens in order. -/
  tokens : List Token
  /-- How the input ends. -/
  ending : Ending
  deriving DecidableEq

/-- Put a token in front of an input. -/
def Input.cons (token : Token) (input : Input) : Input :=
  { input with tokens := token :: input.tokens }

end Predictive
