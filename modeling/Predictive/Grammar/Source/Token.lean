import Predictive.Text.Blank

/-!
# Tokens of a grammar text

A grammar text is made of names, plain or quoted, of the punctuation `:`, `|` and `;`, and
of the word `%start`. Blanks and comments separate tokens; a comment runs from `//` or `#`
to the end of its line.

## Main definitions

* `SourceToken` — one token
* `SourceToken.Located` — a token with the line on which it starts
* `SourceToken.scan` — the tokens of a text
-/

namespace Predictive

/-- One token of a grammar text. -/
inductive SourceToken where
  /-- A plain or quoted name. -/
  | name (text : String)
  /-- The word `%start`. -/
  | start
  /-- The colon between a rule name and its alternatives. -/
  | colon
  /-- The bar between alternatives. -/
  | bar
  /-- The semicolon that ends a rule. -/
  | semicolon
  /-- Something that is no token. -/
  | unrecognized (text : String)
  deriving DecidableEq

namespace SourceToken

/-- A token and the line on which it starts. -/
structure Located where
  /-- The line, counted from one. -/
  line : Nat
  /-- The token. -/
  token : SourceToken
  deriving DecidableEq

/-- The blanks that separate tokens. Other white space is no token. -/
def isSeparator (c : Char) : Bool :=
  c == ' ' || c == '\t' || c == '\r' || c == '\n' || c == '\x0c'

/-- The characters of a plain name. -/
def isNameChar (c : Char) : Bool :=
  !(Text.isBlank c || c == ':' || c == '|' || c == ';' || c == '\'' || c == '"' || c == '#' ||
    c == '/' || c == '%')

/-- The characters between two quotes. -/
def isQuotedChar (quote c : Char) : Bool := !(c == quote || Text.isBlank c)

/-- The number of line feeds in a text. -/
def lineFeeds (text : List Char) : Nat := text.count '\n'

/-- The quoted name that follows an opening quote, and the text after it. Without a closing
quote, or with nothing in between, the quote and the characters after it are no token. -/
def scanQuoted (quote : Char) (text : List Char) : SourceToken × List Char :=
  let body := text.takeWhile (isQuotedChar quote)
  let rest := text.dropWhile (isQuotedChar quote)
  match body, rest with
  | _ :: _, c :: rest =>
    if c = quote then (.name (String.ofList body), rest)
    else (.unrecognized (String.ofList (quote :: body)), c :: rest)
  | _, _ => (.unrecognized (String.ofList (quote :: body)), rest)

/-- The token at the front of a text, whose first character is `c`, and the text after it. -/
def scanToken (c : Char) (text : List Char) : SourceToken × List Char :=
  if c = ':' then (.colon, text)
  else if c = '|' then (.bar, text)
  else if c = ';' then (.semicolon, text)
  else if c = '\'' || c = '"' then scanQuoted c text
  else if c = '%' && "start".toList.isPrefixOf text then (.start, text.drop 5)
  else if isNameChar c then
    (.name (String.ofList (c :: text.takeWhile isNameChar)), text.dropWhile isNameChar)
  else (.unrecognized (String.singleton c), text)

theorem length_dropWhile_le (p : Char → Bool) (text : List Char) :
    (text.dropWhile p).length ≤ text.length :=
  (List.dropWhile_suffix p).length_le

theorem length_scanQuoted_le (quote : Char) (text : List Char) :
    (scanQuoted quote text).2.length ≤ text.length := by
  have shorter := length_dropWhile_le (isQuotedChar quote) text
  unfold scanQuoted
  dsimp only
  split
  · next c rest _ after =>
    rw [after, List.length_cons] at shorter
    split
    · exact Nat.le_of_succ_le shorter
    · simpa using shorter
  · exact shorter

theorem length_scanToken_le (c : Char) (text : List Char) :
    (scanToken c text).2.length ≤ text.length := by
  unfold scanToken
  split
  · exact Nat.le_refl _
  split
  · exact Nat.le_refl _
  split
  · exact Nat.le_refl _
  split
  · exact length_scanQuoted_le c text
  split
  · exact (List.drop_suffix 5 text).length_le
  split
  · exact length_dropWhile_le isNameChar text
  · exact Nat.le_refl _

/-- The tokens of a text that starts on the given line. -/
def scanFrom (line : Nat) (text : List Char) : List Located :=
  match text with
  | [] => []
  | c :: rest =>
    if isSeparator c then scanFrom (if c = '\n' then line + 1 else line) rest
    -- the line feed that ends a comment is left to be counted
    else if c = '#' || (c = '/' && rest.head? = some '/') then
      have : (rest.dropWhile (· != '\n')).length < rest.length + 1 :=
        Nat.lt_succ_of_le (length_dropWhile_le _ rest)
      scanFrom line (rest.dropWhile (· != '\n'))
    else
      have : (scanToken c rest).2.length < rest.length + 1 :=
        Nat.lt_succ_of_le (length_scanToken_le c rest)
      ⟨line, (scanToken c rest).1⟩ :: scanFrom line (scanToken c rest).2
termination_by text.length

/-- The tokens of a text, in order, each with the line on which it starts. -/
def scan (text : String) : List Located := scanFrom 1 text.toList

end SourceToken

end Predictive
