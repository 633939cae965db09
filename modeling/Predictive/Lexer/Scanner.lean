import Predictive.Lexer.Rule
import Predictive.Pattern.Match

/-!
# Rule-driven lexers

A scanner holds an ordered list of rules. At each position the first rule with a match that
is not empty applies: its match is skipped or becomes a token. Where no rule applies the text
is not recognized, and the scanner stays where it is.

A pattern is searched for in what is left of the text, anchored to its front. A pattern that
escapes its anchor by closing the group around it is found further on, and then all that
stands before the end of the match is taken.

How a match is found is no matter of the scanner: of a search it only asks that a match lies in the
text. The programs of patterns are one such search.

## Main definitions

* `Finder` — a search for a match
* `Scanner` — the compiled rules
* `Scanner.Position` — what is left of a text, and the text of the last token
* `Scanner.next` — read one token
* `Scanner.scan` — read all tokens

## Main results

* `Scanner.length_next_lt` — reading a token other than the end of input takes text
-/

namespace Predictive

/-- A search for a match in a text. Its bounds count characters, so that no character is ever cut
in two. -/
structure Finder where
  /-- Where a match begins and where it ends, if there is one. -/
  find? : List Char → Option (Nat × Nat)
  /-- A match lies in the text, and does not end before it begins. -/
  find?_le : ∀ {text : List Char} {first last : Nat}, find? text = some (first, last) →
    first ≤ last ∧ last ≤ text.length

/-- The search that the program of a pattern makes. -/
def Program.finder (program : Program) : Finder := ⟨program.find?, Program.find?_le⟩

/-- A compiled rule. -/
structure ScanRule where
  /-- The name of the token, or nothing if matches are skipped. -/
  token : Option String
  /-- The search for the pattern, anchored to the front of the text. -/
  finder : Finder

namespace ScanRule

/-- Compile a rule. -/
def compile (rule : LexRule) : Except LexError ScanRule :=
  match Program.ofText ("^(?:" ++ rule.pattern ++ ")") with
  | .ok program => .ok ⟨rule.token, program.finder⟩
  | .error cause => .error (.invalidRule rule.pattern cause)

/-- The number of characters that a rule takes from the front of a text: up to the end of a
match that is not empty. -/
def extent? (rule : ScanRule) (text : List Char) : Option Nat :=
  match rule.finder.find? text with
  | some (first, last) => if first < last then some last else none
  | none => none

theorem extent?_pos {rule : ScanRule} {text : List Char} {n : Nat}
    (found : rule.extent? text = some n) : 0 < n := by
  unfold extent? at found
  split at found
  · split at found
    · next inside =>
      cases found
      exact Nat.zero_lt_of_lt inside
    · cases found
  · cases found

end ScanRule

/-- A list of compiled rules, the preferred ones first. -/
structure Scanner where
  /-- The rules in order of preference. -/
  rules : List ScanRule

namespace Scanner

/-- Compile rules in order; the first that is malformed is the error. -/
def compile (rules : List LexRule) : Except LexError Scanner := do
  return ⟨← rules.mapM ScanRule.compile⟩

/-- The scanner of the rules of a text. -/
def ofText (text : String) : Except LexError Scanner := do
  compile (← LexRule.readAll text)

/-- A place in a text. -/
structure Position where
  /-- What is left of the text. -/
  rest : List Char
  /-- The number of bytes before it. -/
  offset : Nat
  /-- The text of the token read last. -/
  matched : String

/-- The front of a text. -/
def Position.front (text : String) : Position := ⟨text.toList, 0, ""⟩

/-- The place after the next `n` characters. -/
def Position.advance (position : Position) (n : Nat) : Position :=
  { position with
    rest := position.rest.drop n
    offset := position.offset + Text.byteSize (position.rest.take n) }

/-- The first rule that applies at the front of a text: its token and its extent. -/
def firstMatch? (text : List Char) : List ScanRule → Option (Option String × Nat)
  | [] => none
  | rule :: rest =>
    match rule.extent? text with
    | some n => some (rule.token, n)
    | none => firstMatch? text rest

theorem firstMatch?_pos {text : List Char} {rules : List ScanRule} {token : Option String}
    {n : Nat} (found : firstMatch? text rules = some (token, n)) : 0 < n := by
  induction rules with
  | nil => cases found
  | cons rule rest ih =>
    unfold firstMatch? at found
    split at found
    · next applies =>
      cases found
      exact ScanRule.extent?_pos applies
    · exact ih found

/-- How many characters of the text an error shows. -/
def snippetSize : Nat := 16

theorem length_drop_lt {text : List Char} {rules : List ScanRule} {token : Option String}
    {n : Nat} (found : firstMatch? text rules = some (token, n)) (nonempty : text ≠ []) :
    (text.drop n).length < text.length := by
  have := firstMatch?_pos found
  have := List.length_pos_iff.mpr nonempty
  rw [List.length_drop]
  omega

/-- Read one token, skipping what skip rules match before it. At the end of the text the token
is `EOF`. An error keeps the place where no rule applies and the text of the last token. -/
def next (scanner : Scanner) (position : Position) : Except LexError Token × Position :=
  if atEnd : position.rest = [] then
    (.ok ⟨Token.eofName, ""⟩, { position with matched := "" })
  else
    match applies : firstMatch? position.rest scanner.rules with
    | none =>
      (.error (.unrecognized position.offset (String.ofList (position.rest.take snippetSize))),
        position)
    | some (some name, n) =>
      let text := String.ofList (position.rest.take n)
      (.ok ⟨name, text⟩, { position.advance n with matched := text })
    | some (none, n) =>
      have : (position.advance n).rest.length < position.rest.length :=
        length_drop_lt applies atEnd
      scanner.next (position.advance n)
termination_by position.rest.length

/-- Reading a token other than the end of input takes text. -/
theorem length_next_lt {scanner : Scanner} {position after : Position} {token : Token}
    (read : scanner.next position = (.ok token, after)) (named : token.name ≠ Token.eofName) :
    after.rest.length < position.rest.length := by
  fun_induction scanner.next position with
  | case1 position atEnd =>
    cases read
    exact absurd rfl named
  | case2 => cases read
  | case3 position notAtEnd name n applies text =>
    cases read
    exact length_drop_lt applies notAtEnd
  | case4 position notAtEnd n applies shorter ih => exact Nat.lt_trans (ih read) shorter

/-- Read tokens up to the end of input or the first error. -/
def scanFrom (scanner : Scanner) (position : Position) : Input :=
  match read : scanner.next position with
  | (.error error, _) => ⟨[], .error error⟩
  | (.ok token, after) =>
    if named : token.name = Token.eofName then ⟨[], .eof token.text⟩
    else
      have : after.rest.length < position.rest.length := length_next_lt read named
      (scanner.scanFrom after).cons token
termination_by position.rest.length

/-- All tokens of a text. -/
def scan (scanner : Scanner) (text : String) : Input := scanner.scanFrom (.front text)

end Scanner

end Predictive
