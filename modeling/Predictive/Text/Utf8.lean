/-!
# Ranges of characters in bytes

The characters of a range are encoded in one to four bytes each. A range is cut into pieces
such that the encodings of a piece are all the ways to choose each byte from a range of its
own, independently of the others. A range is cut where the number of bytes changes, and then
where a byte runs through part of its values only while an earlier byte changes.

## Main definitions

* `encode` — the bytes of a code point
* `byteSize` — the number of bytes of a text
* `bytePieces` — a range of code points cut into pieces
* `byteSequences` — the byte ranges of each piece
-/

namespace Predictive.Text

/-- The bytes of a code point: the payload is divided into groups of six bits. -/
def encode (n : Nat) : List Nat :=
  if n < 0x80 then [n]
  else if n < 0x800 then [0xc0 + n / 0x40, 0x80 + n % 0x40]
  else if n < 0x10000 then [0xe0 + n / 0x1000, 0x80 + n / 0x40 % 0x40, 0x80 + n % 0x40]
  else
    [0xf0 + n / 0x40000, 0x80 + n / 0x1000 % 0x40, 0x80 + n / 0x40 % 0x40, 0x80 + n % 0x40]

/-- The number of bytes of a text. -/
def byteSize : List Char → Nat
  | [] => 0
  | c :: rest => c.utf8Size + byteSize rest

/-- The last code points of each number of bytes, except the greatest. -/
def lengthLimits : List Nat := [0x7f, 0x7ff, 0xffff]

/-- The numbers of code points that share all but the last one, two or three bytes. -/
def blockSizes : List Nat := [0x40, 0x1000, 0x40000]

/-- The last code point of the first piece, if a range has to be cut. -/
def cut? (low high : Nat) : Option Nat :=
  match lengthLimits.find? fun limit => decide (low ≤ limit) && decide (limit < high) with
  | some limit => some limit
  | none =>
    if high < 0x80 then none
    else
      blockSizes.findSome? fun size =>
        if low / size = high / size then none
        else if low % size ≠ 0 then some (low / size * size + size - 1)
        else if high % size ≠ size - 1 then some (high / size * size - 1)
        else none

/-- A range of code points cut into pieces, by increasing value. -/
def bytePieces (low high : Nat) : List (Nat × Nat) :=
  match cut? low high with
  | none => [(low, high)]
  | some last =>
    -- a cut leaves something on both sides
    if _inside : low ≤ last ∧ last < high then
      bytePieces low last ++ bytePieces (last + 1) high
    else [(low, high)]
termination_by high - low

/-- The ranges that the bytes of each piece of a range run through. -/
def byteSequences (low high : Nat) : List (List (Nat × Nat)) :=
  (bytePieces low high).map fun piece => (encode piece.1).zip (encode piece.2)

end Predictive.Text
