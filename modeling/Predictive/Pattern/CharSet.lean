import Predictive.Text.Blank
import Predictive.Text.Digit
import Predictive.Text.Fold
import Predictive.Text.Word

/-!
# Sets of characters

The sets that a pattern can ask one character to belong to. A set is kept as ranges of
*ranks*: the rank of a character is its place among all characters, so that neighbours in
rank are neighbours as characters and no rank is without a character. The ranges of a set
are disjoint, by increasing rank, and never touch; so equal sets have equal ranges.

## Main definitions

* `CharSet` — a set of characters
* `CharSet.holds` — whether a character belongs to it
* `CharSet.union`, `CharSet.inter`, `CharSet.diff`, `CharSet.symmDiff`, `CharSet.compl` —
  the operations between sets
* `CharSet.folded` — the case variants of the characters of a set
* `CharSet.named?` — the sets that have a name
-/

namespace Predictive

/-- The first code point that is no character. -/
def gapStart : Nat := 0xd800

/-- The number of code points that are no characters: they lie side by side. -/
def gapSize : Nat := 0x800

/-- The place of a code point among all characters. -/
def rankOf (codePoint : Nat) : Nat :=
  if codePoint < gapStart then codePoint else codePoint - gapSize

/-- The code point of the character at a place. -/
def codePointAt (rank : Nat) : Nat :=
  if rank < gapStart then rank else rank + gapSize

/-- The rank of the last character. -/
def lastRank : Nat := rankOf 0x10ffff

/-- A set of characters. -/
structure CharSet where
  /-- The first and the last rank of each range, by increasing rank; ranges do not touch. -/
  ranges : List (Nat × Nat)
  deriving DecidableEq

namespace CharSet

/-- Whether the character of a code point belongs to a set. -/
def holdsCodePoint (set : CharSet) (n : Nat) : Bool := Text.inRanges set.ranges (rankOf n)

/-- Whether a character belongs to a set. -/
def holds (set : CharSet) (c : Char) : Bool := set.holdsCodePoint c.toNat

/-- Join ranges that overlap or touch. The ranges come by increasing first rank, and `low` to
`high` is the range that is being joined. -/
def joinRanges (low high : Nat) : List (Nat × Nat) → List (Nat × Nat)
  | [] => [(low, high)]
  | (first, last) :: rest =>
    if first ≤ high + 1 then joinRanges low (max high last) rest
    else (low, high) :: joinRanges first last rest

/-- The set of the characters in any of the ranges of ranks. -/
def ofRanges (ranges : List (Nat × Nat)) : CharSet :=
  match ranges.mergeSort fun a b => decide (a.1 ≤ b.1) with
  | [] => ⟨[]⟩
  | (low, high) :: rest => ⟨joinRanges low high rest⟩

/-- The set of the characters in any of the ranges of code points. -/
def ofCodePoints (ranges : List (Nat × Nat)) : CharSet :=
  ofRanges (ranges.map fun range => (rankOf range.1, rankOf range.2))

/-- No character. -/
def empty : CharSet := ⟨[]⟩

/-- Every character. -/
def all : CharSet := ⟨[(0, lastRank)]⟩

/-- The characters from `low` to `high`. -/
def range (low high : Char) : CharSet := ⟨[(rankOf low.toNat, rankOf high.toNat)]⟩

/-- The set of one character. -/
def single (c : Char) : CharSet := range c c

/-- The character of a set that has just one. -/
def single? (set : CharSet) : Option Char :=
  match set.ranges with
  | [(low, high)] => if low = high then some (Char.ofNat (codePointAt low)) else none
  | _ => none

/-- Whether all characters of a set are seven-bit characters. -/
def isAscii (set : CharSet) : Bool := set.ranges.all fun range => decide (range.2 < 0x80)

/-- The ranges of code points of a set. A range that runs across the code points that are no
characters is two. -/
def codePoints (set : CharSet) : List (Nat × Nat) :=
  set.ranges.flatMap fun (low, high) =>
    if low < gapStart ∧ gapStart ≤ high then
      [(low, gapStart - 1), (gapStart + gapSize, codePointAt high)]
    else [(codePointAt low, codePointAt high)]

/-! ### Operations -/

/-- The characters of any set of a list. -/
def unions (sets : List CharSet) : CharSet := ofRanges (sets.flatMap ranges)

/-- The characters of either set. -/
def union (first second : CharSet) : CharSet := unions [first, second]

/-- The ranges between ranges, from the rank `low` on. -/
def gaps (low : Nat) : List (Nat × Nat) → List (Nat × Nat)
  | [] => if low ≤ lastRank then [(low, lastRank)] else []
  | (first, last) :: rest =>
    if low < first then (low, first - 1) :: gaps (last + 1) rest else gaps (last + 1) rest

/-- The characters outside a set. -/
def compl (set : CharSet) : CharSet := ⟨gaps 0 set.ranges⟩

/-- The characters of both sets: those outside neither. -/
def inter (first second : CharSet) : CharSet := (first.compl.union second.compl).compl

/-- The characters of the first set that are not in the second. -/
def diff (first second : CharSet) : CharSet := first.inter second.compl

/-- The characters of exactly one of two sets. -/
def symmDiff (first second : CharSet) : CharSet :=
  (first.diff second).union (second.diff first)

/-- The set of the code points of a list. -/
def ofList (codePoints : List Nat) : CharSet :=
  ofCodePoints (codePoints.map fun n => (n, n))

/-- The characters that have a case variant in a set: the representatives of its characters,
and then all that have one of these for their representative. -/
def folded (set : CharSet) : CharSet :=
  let withRepresentatives := set.union <| ofList <| Text.foldPairs.filterMap fun pair =>
    if set.holdsCodePoint pair.1 then some pair.2 else none
  withRepresentatives.union <| ofList <| Text.foldPairs.filterMap fun pair =>
    if withRepresentatives.holdsCodePoint pair.2 then some pair.1 else none

/-- The seven-bit letters from `low` to `high` that belong to a set, moved by a distance. -/
def shiftedLetters (set : CharSet) (low : Nat) (shift : Nat → Nat) : List Nat :=
  ((List.range 26).map (low + ·)).filterMap fun n =>
    if set.holdsCodePoint n then some (shift n) else none

/-- The characters that have a seven-bit case variant in a set. -/
def foldedAscii (set : CharSet) : CharSet :=
  set.union <| ofList <| set.shiftedLetters 0x41 (· + 0x20) ++ set.shiftedLetters 0x61 (· - 0x20)

/-- The set, or the characters outside it if asked for. -/
def negatedIf (negated : Bool) (set : CharSet) : CharSet :=
  if negated then set.compl else set

/-! ### Classes -/

/-- The white space. -/
def blank : CharSet := ofCodePoints Text.blankRanges

/-- The decimal digits. -/
def digit : CharSet := ofCodePoints Text.digitRanges

/-- The word characters. -/
def word : CharSet := ofCodePoints Text.wordRanges

/-- The named sets of seven-bit characters. -/
def named? : String → Option CharSet
  | "alnum" => some (unions [.range '0' '9', .range 'A' 'Z', .range 'a' 'z'])
  | "alpha" => some (unions [.range 'A' 'Z', .range 'a' 'z'])
  | "ascii" => some (.range '\x00' '\x7f')
  | "blank" => some (unions [.single '\t', .single ' '])
  | "cntrl" => some (unions [.range '\x00' '\x1f', .single '\x7f'])
  | "digit" => some (.range '0' '9')
  | "graph" => some (.range '!' '~')
  | "lower" => some (.range 'a' 'z')
  | "print" => some (.range ' ' '~')
  | "punct" =>
    some (unions [.range '!' '/', .range ':' '@', .range '[' '\x60', .range '\x7b' '~'])
  | "space" => some (unions [.range '\t' '\r', .single ' '])
  | "upper" => some (.range 'A' 'Z')
  | "word" => some (unions [.range '0' '9', .range 'A' 'Z', .single '_', .range 'a' 'z'])
  | "xdigit" => some (unions [.range '0' '9', .range 'A' 'F', .range 'a' 'f'])
  | _ => none

end CharSet

end Predictive
