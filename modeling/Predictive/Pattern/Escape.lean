import Predictive.Pattern.Flags

/-!
# Escapes

What stands after a backslash: a character, by a letter, by its code point or as itself, a
class of characters, or an assertion.

## Main definitions

* `Escape` — what an escape stands for
* `readEscape` — the escape after a backslash
-/

namespace Predictive

/-- What an escape stands for. -/
inductive Escape where
  /-- A character. -/
  | literal (c : Char)
  /-- A class of characters. -/
  | set (set : CharSet)
  /-- An assertion. -/
  | assertion (assertion : Assertion)

/-! ### Code points -/

/-- The value of a hexadecimal digit. -/
def hexValue? (c : Char) : Option Nat :=
  if '0' ≤ c ∧ c ≤ '9' then some (c.toNat - '0'.toNat)
  else if 'a' ≤ c ∧ c ≤ 'f' then some (c.toNat - 'a'.toNat + 10)
  else if 'A' ≤ c ∧ c ≤ 'F' then some (c.toNat - 'A'.toNat + 10)
  else none

/-- The character of a code point. -/
def charOfCodePoint (n : Nat) : Except PatternError Char :=
  if n.isValidChar then .ok (Char.ofNat n) else .error .invalidEscape

/-- A code point of a fixed number of digits, after the value of those already read. -/
def readFixedHex (flags : Flags) : Nat → Nat → List Char → Except PatternError (Nat × List Char)
  | 0, value, text => .ok (value, text)
  | _ + 1, _, [] => .error .invalidEscape
  | width + 1, value, c :: rest =>
    match hexValue? c with
    | some digit => readFixedHex flags width (16 * value + digit) (flags.skip rest)
    | none => .error .invalidEscape

/-- A code point up to a closing brace, after the value of the digits already read. -/
def readBracedHex (flags : Flags) (value : Option Nat) (text : List Char) :
    Except PatternError (Nat × List Char) :=
  match skipped : flags.skip text with
  | [] => .error .invalidEscape
  | c :: rest =>
    if c = '\x7d' then
      match value with
      | some value => .ok (value, flags.skip rest)
      | none => .error .invalidEscape
    else
      match hexValue? c with
      | some digit =>
        have := Flags.length_lt_of_skip_eq_cons skipped
        readBracedHex flags (some (16 * value.getD 0 + digit)) rest
      | none => .error .invalidEscape
termination_by text.length

/-- A code point in braces or of a fixed number of digits, and the text after it. Two digits
are a byte, so they do not go beyond ASCII if the alphabet does not. -/
def readHex (flags : Flags) (width : Nat) (text : List Char) :
    Except PatternError (Char × List Char) :=
  match flags.skip text with
  | '\x7b' :: rest => do
    let (value, rest) ← readBracedHex flags none rest
    return (← charOfCodePoint value, rest)
  | text => do
    let (value, rest) ← readFixedHex flags width 0 text
    if width = 2 ∧ flags.alphabet = .ascii ∧ 0x7f < value then .error .beyondAscii
    else return (← charOfCodePoint value, rest)

/-! ### Edges of words -/

/-- Whether a character can stand in the name of an edge. -/
def isEdgeChar (c : Char) : Bool := c.isAlpha || c == '-'

/-- The name of an edge and the text after it, the characters read so far latest first. -/
def readEdgeName (flags : Flags) (name text : List Char) : String × List Char :=
  match text with
  | [] => (String.ofList name.reverse, [])
  | c :: rest =>
    if isEdgeChar c then
      have := flags.length_skip_le rest
      readEdgeName flags (c :: name) (flags.skip rest)
    else (String.ofList name.reverse, c :: rest)
termination_by text.length

/-- The edges that have a name. -/
def namedEdge? : String → Option WordEdge
  | "start" => some .start
  | "end" => some .stop
  | "start-half" => some .startHalf
  | "end-half" => some .stopHalf
  | _ => none

/-- The edge after `\b`. A name in braces may follow; braces that hold no name are left to be
read as the bounds of a repetition. -/
def readEdge (flags : Flags) (text : List Char) : Except PatternError (WordEdge × List Char) :=
  match text with
  | '\x7b' :: inside =>
    match flags.skip inside with
    | [] => .error .invalidEscape
    | c :: rest =>
      if isEdgeChar c then
        match readEdgeName flags [] (c :: rest) with
        | (name, '\x7d' :: after) =>
          match namedEdge? name with
          | some edge => .ok (edge, after)
          | none => .error .invalidEscape
        | _ => .error .invalidEscape
      else .ok (.boundary, text)
  | _ => .ok (.boundary, text)

/-! ### Escapes -/

/-- Whether a character stands for itself after a backslash: the ASCII characters that are
neither letters nor digits nor kept for other uses. -/
def isEscapable (c : Char) : Bool :=
  decide (c.toNat < 128) && !c.isAlphanum && c != '<' && c != '>'

/-- The digits of ASCII. -/
def asciiDigit : CharSet := .range '0' '9'

/-- The white space of ASCII. -/
def asciiBlank : CharSet := .unions [.range '\t' '\r', .single ' ']

/-- The word characters of ASCII. -/
def asciiWord : CharSet := .unions [.range '0' '9', .range 'A' 'Z', .single '_', .range 'a' 'z']

/-- What stands after a backslash, and the text after it. -/
def readEscape (flags : Flags) : List Char → Except PatternError (Escape × List Char)
  | [] => .error .invalidEscape
  | c :: rest =>
    match c with
    | 'x' => do let (c, rest) ← readHex flags 2 rest; return (.literal c, rest)
    | 'u' => do let (c, rest) ← readHex flags 4 rest; return (.literal c, rest)
    | 'U' => do let (c, rest) ← readHex flags 8 rest; return (.literal c, rest)
    | 'a' => .ok (.literal '\x07', rest)
    | 'f' => .ok (.literal '\x0c', rest)
    | 't' => .ok (.literal '\t', rest)
    | 'n' => .ok (.literal '\n', rest)
    | 'r' => .ok (.literal '\r', rest)
    | 'v' => .ok (.literal '\x0b', rest)
    | 'd' => do return (.set (← flags.charClass .digit asciiDigit false), rest)
    | 'D' => do return (.set (← flags.charClass .digit asciiDigit true), rest)
    | 's' => do return (.set (← flags.charClass .blank asciiBlank false), rest)
    | 'S' => do return (.set (← flags.charClass .blank asciiBlank true), rest)
    | 'w' => do return (.set (← flags.charClass .word asciiWord false), rest)
    | 'W' => do return (.set (← flags.charClass .word asciiWord true), rest)
    | 'A' => .ok (.assertion .textStart, rest)
    | 'z' => .ok (.assertion .textEnd, rest)
    | 'b' => do
      let (edge, rest) ← readEdge flags rest
      return (.assertion (flags.wordEdge edge), rest)
    | 'B' => .ok (.assertion (flags.wordEdge .none), rest)
    | '<' => .ok (.assertion (flags.wordEdge .start), rest)
    | '>' => .ok (.assertion (flags.wordEdge .stop), rest)
    | c => if isEscapable c then .ok (.literal c, rest) else .error .invalidEscape

end Predictive
