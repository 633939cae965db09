import Predictive.Grammar.Source
import Predictive.Grammar.Source.Token

/-!
# Reading a grammar text

A grammar text is a sequence of items: `%start NAME` chooses the start symbol, and
`NAME : NAMES | ... | NAMES ;` gives a rule. The reader takes the tokens one by one and
remembers which part of an item it is in.

## Main definitions

* `Source.Progress` — the part of an item that the reader is in
* `Source.read` — the rules of a text
* `Grammar.ofText` — the grammar that a text defines
-/

namespace Predictive

namespace Source

/-- The part of an item that the reader is in. -/
inductive Progress where
  /-- Between two items. -/
  | between
  /-- After `%start`. -/
  | afterStart
  /-- After the name of a rule. -/
  | afterName (name : String)
  /-- Among the alternatives of a rule: the complete ones, and the names read since. -/
  | inRule (name : String) (complete : List String) (current : List String)

/-- An alternative as it is stored: its names separated by single blanks. -/
def joinNames (names : List String) : String := " ".intercalate names

/-- Take one token. -/
def step (source : Source) (progress : Progress) (token : SourceToken) :
    Except SourceError (Source × Progress) :=
  match token, progress with
  | .unrecognized text, _ => .error (.unrecognized text)
  | .start, .between => .ok (source, .afterStart)
  | .name name, .between => .ok (source, .afterName name)
  | _, .between => .error .missingItem
  | .name name, .afterStart => .ok ({ source with start := some name }, .between)
  | _, .afterStart => .error .missingStart
  | .colon, .afterName name => .ok (source, .inRule name [] [])
  | _, .afterName _ => .error .missingColon
  | .name word, .inRule name complete current =>
    .ok (source, .inRule name complete (current ++ [word]))
  | .bar, .inRule name complete current =>
    .ok (source, .inRule name (complete ++ [joinNames current]) [])
  -- a rule given twice is noticed where the second one ends
  | .semicolon, .inRule name complete current =>
    if source.rules.contains name then .error .duplicateRule
    else
      .ok ({ source with rules := source.rules.insert name (complete ++ [joinNames current]) },
        .between)
  | .colon, .inRule _ _ _ => .error .strayColon
  | .start, .inRule _ _ _ => .error .strayStart

/-- The text may end between two items only. -/
def close (source : Source) : Progress → Except SourceError Source
  | .between => .ok source
  | .afterStart => .error .missingStart
  | .afterName _ => .error .missingColon
  | .inRule name _ _ => .error (.unterminated name)

/-- Take all tokens. An error is reported on the line of the token read last. -/
def readTokens (source : Source) (progress : Progress) (line : Nat) :
    List SourceToken.Located → Except GrammarError Source
  | [] =>
    match close source progress with
    | .ok source => .ok source
    | .error cause => .error (.malformed line cause)
  | located :: rest =>
    match step source progress located.token with
    | .ok (source, progress) => readTokens source progress located.line rest
    | .error cause => .error (.malformed located.line cause)

/-- The rules of a grammar text. -/
def read (text : String) : Except GrammarError Source :=
  readTokens .empty .between 1 (SourceToken.scan text)

end Source

/-- The grammar that a text defines. -/
def Grammar.ofText (text : String) : Except GrammarError Grammar := do
  Grammar.ofSource (← Source.read text)

end Predictive
