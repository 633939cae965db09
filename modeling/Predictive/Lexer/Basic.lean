import Predictive.Lexer.Scanner

/-!
# Lexers

A lexer reads a text by rules, or it replays a list of answers fixed beforehand, whatever the
text. Either way it is read token by token, remembers the text of the token read last, and
can be restarted on another text.

## Main definitions

* `Lexer` — a source of tokens, part of which may have been read
* `Lexer.restart` — begin to read a text
* `Lexer.next` — read one token
* `Lexer.scan` — all that a lexer delivers for a text
-/

namespace Predictive

/-- A source of tokens, part of which may have been read. -/
inductive Lexer where
  /-- Rules, and a place in a text. -/
  | byRules (rules : Scanner) (place : Scanner.Position)
  /-- The answers of a list, those of them that are left, and the text of the token read
  last. After the last answer comes the end of input. -/
  | replay (answers left : List (Except LexError Token)) (last : String)

namespace Lexer

/-- The lexer that reads by rules; there is no text yet. -/
def ofScanner (rules : Scanner) : Lexer := .byRules rules (.front "")

/-- The lexer that replays a list of answers. -/
def ofAnswers (answers : List (Except LexError Token)) : Lexer := .replay answers answers ""

/-- The text of the token read last. -/
def matched : Lexer → String
  | .byRules _ place => place.matched
  | .replay _ _ last => last

/-- Begin to read a text. -/
def restart (text : String) : Lexer → Lexer
  | .byRules rules _ => .byRules rules (.front text)
  -- the answers do not depend on the text
  | .replay answers _ _ => .replay answers answers ""

/-- Read one token. An error leaves the text of the last token as it was. -/
def next : Lexer → Except LexError Token × Lexer
  | .byRules rules place =>
    let (answer, place) := rules.next place
    (answer, .byRules rules place)
  | .replay answers [] _ => (.ok ⟨Token.eofName, ""⟩, .replay answers [] "")
  | .replay answers (.ok token :: left) _ => (.ok token, .replay answers left token.text)
  | .replay answers (.error error :: left) last => (.error error, .replay answers left last)

/-- The answers of a list up to the end of input or the first error. -/
def scanAnswers : List (Except LexError Token) → Input
  | [] => ⟨[], .eof ""⟩
  | .error error :: _ => ⟨[], .error error⟩
  | .ok token :: left =>
    if token.name = Token.eofName then ⟨[], .eof token.text⟩ else (scanAnswers left).cons token

/-- The tokens that are left, up to the end of input or the first error. -/
def scanRest : Lexer → Input
  | .byRules rules place => rules.scanFrom place
  | .replay _ left _ => scanAnswers left

/-- All that a lexer delivers for a text. -/
def scan (lexer : Lexer) (text : String) : Input := (lexer.restart text).scanRest

end Lexer

end Predictive
