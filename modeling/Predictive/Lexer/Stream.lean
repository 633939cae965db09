import Predictive.Lexer.Token
import Predictive.Symbol.Names

/-!
# Token streams

The whole token sequence of an input, read ahead of parsing and ended by the token `EOF`. Each
token carries the symbol of its name, if the table of names knows it.

## Main definitions

* `StreamToken` — a token with its symbol
* `TokenStream` — the tokens that are left, and the number of those taken
* `TokenStream.ofInput` — the stream of an input without errors
-/

namespace Predictive

/-- A token with its symbol. -/
structure StreamToken where
  /-- The symbol of the token's name, or nothing if the name is unknown. -/
  symbol : Option Symbol
  /-- The token. -/
  token : Token
  deriving DecidableEq

/-- The tokens that are left, and the number of those taken. -/
structure TokenStream where
  /-- The tokens that are left. -/
  rest : List StreamToken
  /-- The number of tokens taken. -/
  position : Nat
  deriving DecidableEq

namespace TokenStream

/-- The symbol of a token other than the end of input. Reserved symbols name no token. -/
def symbolOf (names : NameTable) (name : String) : Option Symbol :=
  (names.get? name).filter fun s => !s.isReserved

/-- The stream of an input, ended by the end of input. -/
def ofInput (names : NameTable) (input : Input) : Except LexError TokenStream :=
  match input.ending with
  -- the input is read to its end before anything is taken
  | .error error => .error error
  | .eof text =>
    let tokens := input.tokens.map fun token => ⟨symbolOf names token.name, token⟩
    .ok ⟨tokens ++ [⟨some .eof, Token.eofName, text⟩], 0⟩

/-- The next token. -/
def peek? (stream : TokenStream) : Option StreamToken := stream.rest.head?

/-- The symbol of the next token. -/
def peekSymbol? (stream : TokenStream) : Option Symbol := stream.peek?.bind StreamToken.symbol

/-- Take the next token. -/
def next? (stream : TokenStream) : Option (StreamToken × TokenStream) :=
  match stream.rest with
  | [] => none
  | token :: rest => some (token, ⟨rest, stream.position + 1⟩)

end TokenStream

end Predictive
