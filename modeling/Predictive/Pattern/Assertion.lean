import Predictive.Text.Word

/-!
# Assertions

Conditions on the two characters around a place in a text. Nothing stands before the first
character and nothing after the last.

## Main definitions

* `Assertion` — a condition on a place
* `Assertion.holds` — whether it is met between two neighbours
-/

namespace Predictive

/-- Which letters, digits and joiners make up a word. -/
inductive Alphabet where
  /-- Those of every script. -/
  | universal
  /-- Those of ASCII. -/
  | ascii
  deriving DecidableEq

/-- Whether a character belongs to a word. -/
def Alphabet.isWord : Alphabet → Char → Bool
  | .universal, c => Text.isWord c
  | .ascii, c => c.isAlphanum || c == '_'

/-- How a place lies to the words of a text. -/
inductive WordEdge where
  /-- A word starts or ends here. -/
  | boundary
  /-- No word starts or ends here. -/
  | none
  /-- A word starts here. -/
  | start
  /-- A word ends here. -/
  | stop
  /-- No word stands before. -/
  | startHalf
  /-- No word stands after. -/
  | stopHalf
  deriving DecidableEq

/-- Whether a place lies so, given whether words stand before and after it. -/
def WordEdge.holds (before after : Bool) : WordEdge → Bool
  | .boundary => before != after
  | .none => before == after
  | .start => !before && after
  | .stop => before && !after
  | .startHalf => !before
  | .stopHalf => !after

/-- A condition on the characters before and after a place. -/
inductive Assertion where
  /-- Nothing stands before. -/
  | textStart
  /-- Nothing stands after. -/
  | textEnd
  /-- Nothing or a line feed stands before. -/
  | lineStart
  /-- Nothing or a line feed stands after. -/
  | lineEnd
  /-- Nothing or a whole line break stands before; a carriage return, a line feed and the
  two together are line breaks. -/
  | breakBefore
  /-- Nothing or a whole line break stands after. -/
  | breakAfter
  /-- The place lies so to the words of an alphabet. -/
  | word (alphabet : Alphabet) (edge : WordEdge)
  deriving DecidableEq

/-- Whether an assertion holds between two neighbouring characters. -/
def Assertion.holds (before after : Option Char) : Assertion → Bool
  | .textStart => before.isNone
  | .textEnd => after.isNone
  | .lineStart => before.isNone || before == some '\n'
  | .lineEnd => after.isNone || after == some '\n'
  | .breakBefore =>
    before.isNone || before == some '\n' || before == some '\r' && after != some '\n'
  | .breakAfter =>
    after.isNone || after == some '\r' || after == some '\n' && before != some '\r'
  | .word alphabet edge => edge.holds (before.any alphabet.isWord) (after.any alphabet.isWord)

end Predictive
