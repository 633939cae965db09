import Predictive.Text.Ranges

/-!
# Blanks

The characters that separate words, and the operations that cut a text at them.

## Main definitions

* `isBlank` — the white space of every script
* `trim` — a text without blanks at either end
* `words` — the maximal runs of other characters
* `lines` — a text cut at its line feeds
-/

namespace Predictive.Text

/-- The code points of white space, by increasing value. -/
def blankRanges : List (Nat × Nat) :=
  [(0x9, 0xd), (0x20, 0x20), (0x85, 0x85), (0xa0, 0xa0), (0x1680, 0x1680), (0x2000, 0x200a),
   (0x2028, 0x2029), (0x202f, 0x202f), (0x205f, 0x205f), (0x3000, 0x3000)]

/-- Whether a character is white space. -/
def isBlank (c : Char) : Bool := inRanges blankRanges c.toNat

/-- A text without blanks at either end. -/
def trim (text : List Char) : List Char :=
  ((text.dropWhile isBlank).reverse.dropWhile isBlank).reverse

/-- Put a word in front of others, unless it is empty. -/
def consWord (word : List Char) (others : List (List Char)) : List (List Char) :=
  if word.isEmpty then others else word :: others

/-- The run of word characters at the front of a text, possibly empty, and the
words after it. -/
def splitWords : List Char → List Char × List (List Char)
  | [] => ([], [])
  | c :: rest =>
    let (word, others) := splitWords rest
    if isBlank c then ([], consWord word others) else (c :: word, others)

/-- The maximal runs of characters that are not blank. -/
def words (text : List Char) : List (List Char) :=
  let (word, others) := splitWords text
  consWord word others

/-- The words of a string. -/
def wordsOf (text : String) : List String := (words text.toList).map String.ofList

/-- A text cut at its line feeds: the first line and the others. -/
def splitLines : List Char → List Char × List (List Char)
  | [] => ([], [])
  | c :: rest =>
    let (line, others) := splitLines rest
    if c = '\n' then ([], line :: others) else (c :: line, others)

/-- The lines of a text, without their line feeds. -/
def lines (text : List Char) : List (List Char) :=
  let (line, others) := splitLines text
  line :: others

end Predictive.Text
