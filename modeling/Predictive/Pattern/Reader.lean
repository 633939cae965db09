import Predictive.Pattern.Bracket
import Predictive.Text.Letter
import Predictive.Text.Numeral

/-!
# Reading a pattern

The written form of patterns: literals, `.`, bracketed sets, escapes, groups with names and
flags, `|`, and the repetitions `*`, `+`, `?` and `{n,m}` with their reluctant forms. The
reader takes one element at a time and keeps a stack of the groups that are open.

## Main definitions

* `Reading` — what the reader knows
* `Pattern.read` — the pattern that a text writes
-/

namespace Predictive

/-! ### Bounds -/

/-- The numbers from here on are too large to be a bound. -/
def boundLimit : Nat := 4294967296

/-- The digits of a number, as their value and the text after them. -/
def readDigits (flags : Flags) (value : Option Nat) (text : List Char) :
    Option Nat × List Char :=
  match text with
  | [] => (value, [])
  | c :: rest =>
    if c.isDigit then
      have := flags.length_skip_le rest
      let total := 10 * value.getD 0 + (c.toNat - '0'.toNat)
      readDigits flags (some (min total boundLimit)) (flags.skip rest)
    else (value, c :: rest)
termination_by text.length

/-- A bound between blanks, and the text after it. -/
def readBound (flags : Flags) (text : List Char) : Option Nat × List Char :=
  let text := text.dropWhile Text.isBlank
  let (value, rest) := readDigits flags none text
  (value.filter (· < boundLimit), rest.dropWhile Text.isBlank)

/-- The bounds of a repetition after the opening brace, and the text after the closing one. -/
def readBounds (flags : Flags) (text : List Char) :
    Except PatternError ((Nat × Option Nat) × List Char) :=
  match readBound flags (flags.skip text) with
  | (some least, '\x7d' :: rest) => .ok ((least, some least), rest)
  | (some least, ',' :: rest) =>
    match flags.skip rest with
    | '\x7d' :: rest => .ok ((least, none), rest)
    | rest =>
      match readBound flags rest with
      | (some most, '\x7d' :: rest) =>
        if least ≤ most then .ok ((least, some most), rest) else .error .invalidBounds
      | _ => .error .invalidBounds
  | _ => .error .invalidBounds

/-! ### Groups -/

/-- A group that is open: how it is told apart, the flags to restore, the alternatives that
are complete, and the elements since, latest first. A change of flags is an element that
cannot be repeated. -/
structure OpenGroup where
  /-- The number of the group, if it has one. -/
  index : Option Nat
  /-- The flags outside the group. -/
  flagsOutside : Flags
  /-- The complete alternatives, the latest first. -/
  alternatives : List (Deep Pattern)
  /-- The elements of the alternative that is being read, the latest first. -/
  elements : List (Option (Deep Pattern))

namespace OpenGroup

/-- A group of which nothing has been read. -/
def fresh (index : Option Nat) (flagsOutside : Flags) : OpenGroup := ⟨index, flagsOutside, [], []⟩

/-- The alternative that is being read. -/
def current (group : OpenGroup) : Deep Pattern :=
  let elements := group.elements.reverse.filterMap id
  ⟨.sequence (elements.map Deep.value),
    Deep.grouped group.elements.length (Deep.deepest elements)⟩

/-- What stands in the group. -/
def content (group : OpenGroup) : Deep Pattern :=
  let alternatives := (group.current :: group.alternatives).reverse
  ⟨.choice (alternatives.map Deep.value),
    Deep.grouped alternatives.length (Deep.deepest alternatives)⟩

/-- The pattern of a group that is closed. -/
def close (group : OpenGroup) : Deep Pattern :=
  let ⟨content, depth⟩ := group.content
  match group.index with
  | some index => ⟨.group index content, depth + 1⟩
  | none => ⟨content, depth + 1⟩

end OpenGroup

/-- What the reader knows: the flags in force, the innermost open group, the others around
it, how many groups have a number, and the group names that are taken. -/
structure Reading where
  /-- The flags in force. -/
  flags : Flags
  /-- The innermost open group. -/
  current : OpenGroup
  /-- The groups around it, the innermost first. -/
  outer : List OpenGroup
  /-- The number of groups that have a number. -/
  groups : Nat
  /-- The names of groups. -/
  names : List String

/-- How many constructs may stand inside each other. -/
def depthLimit : Nat := 250

namespace Reading

/-- Nothing has been read. -/
def initial : Reading := ⟨.initial, .fresh none .initial, [], 0, []⟩

/-- Replace the elements of the alternative that is being read. -/
def withElements (reading : Reading) (elements : List (Option (Deep Pattern))) : Reading :=
  { reading with current := { reading.current with elements := elements } }

/-- Add an element after others of the alternative that is being read. -/
def addTo (reading : Reading) (elements : List (Option (Deep Pattern)))
    (element : Deep Pattern) : Except PatternError Reading :=
  if element.depth ≤ depthLimit then .ok (reading.withElements (some element :: elements))
  else .error .tooDeep

/-- Add an element to the alternative that is being read. -/
def add (reading : Reading) (element : Deep Pattern) : Except PatternError Reading :=
  reading.addTo reading.current.elements element

/-- Open a group, in which other flags may be in force. -/
def openGroup (reading : Reading) (index : Option Nat) (flags : Flags) : Reading :=
  { reading with
    flags := flags
    current := .fresh index reading.flags
    outer := reading.current :: reading.outer }

/-- Open a group that gets the next number. -/
def openNumbered (reading : Reading) : Reading :=
  { reading.openGroup (some reading.groups) reading.flags with groups := reading.groups + 1 }

/-- Close the innermost group. -/
def closeGroup (reading : Reading) : Except PatternError Reading :=
  match reading.outer with
  | [] => .error .unbalanced
  | enclosing :: outer =>
    add { reading with flags := reading.current.flagsOutside, current := enclosing, outer := outer }
      reading.current.close

/-- Complete an alternative. -/
def bar (reading : Reading) : Reading :=
  { reading with
    current := { reading.current with
      alternatives := reading.current.current :: reading.current.alternatives
      elements := [] } }

/-- Repeat the latest element. A question mark after a repetition swaps its greed. -/
def repeatLast (reading : Reading) (least : Nat) (most : Option Nat) (text : List Char) :
    Except PatternError (Reading × List Char) :=
  match reading.current.elements with
  | some body :: elements => do
    let (swapped, text) :=
      match text with
      | '?' :: rest => (true, rest)
      | _ => (false, text)
    -- the mark and the flag undo each other
    let greedy := swapped == reading.flags.swapGreed
    let element := ⟨.repetition body.value least most greedy, body.depth + 1⟩
    return (← reading.addTo elements element, text)
  | _ => .error .nothingToRepeat

/-! ### Openings of groups -/

/-- Whether a text names a group: letters, numerals and `_`, `.`, `[`, `]`, of which only a
letter or `_` comes first. -/
def isGroupName : List Char → Bool
  | [] => false
  | c :: rest =>
    (c == '_' || Text.isLetter c) &&
      rest.all fun c =>
        Text.isLetter c || Text.isNumeral c || c == '_' || c == '.' || c == '[' || c == ']'

/-- A named group after the opening angle bracket. -/
def openNamed (reading : Reading) (text : List Char) : Except PatternError (Reading × List Char) :=
  let name := text.takeWhile (· != '>')
  match text.dropWhile (· != '>') with
  | _ :: rest =>
    if isGroupName name && !reading.names.contains (String.ofList name) then
      .ok ({ reading.openNumbered with names := String.ofList name :: reading.names }, rest)
    else .error .invalidGroupName
  | [] => .error .invalidGroupName

/-- What follows an opening parenthesis. -/
def readGroup (reading : Reading) (text : List Char) : Except PatternError (Reading × List Char) :=
  match reading.flags.skip text with
  | '?' :: '=' :: _ => .error .lookAround
  | '?' :: '!' :: _ => .error .lookAround
  | '?' :: '<' :: '=' :: _ => .error .lookAround
  | '?' :: '<' :: '!' :: _ => .error .lookAround
  | '?' :: 'P' :: '<' :: rest => reading.openNamed rest
  | '?' :: '<' :: rest => reading.openNamed rest
  | '?' :: rest => do
    let (flags, seen, rest) ← readFlags reading.flags true [] rest
    match rest with
    | ':' :: rest => return (reading.openGroup none flags, rest)
    | _ =>
      -- without flags the question mark would be a repetition
      if seen.isEmpty then .error .nothingToRepeat
      else
        return ({ reading.withElements (none :: reading.current.elements) with flags := flags },
          rest.drop 1)
  | text => .ok (reading.openNumbered, text)

/-! ### Whole patterns -/

/-- Take the element that begins with the character `c`. The fuel is at least the number of
characters. -/
def step (reading : Reading) (fuel : Nat) (c : Char) (rest : List Char) :
    Except PatternError (Reading × List Char) :=
  match c with
  | '(' => reading.readGroup rest
  | ')' => do return (← reading.closeGroup, rest)
  | '|' => .ok (reading.bar, rest)
  | '*' => reading.repeatLast 0 none rest
  | '+' => reading.repeatLast 1 none rest
  | '?' => reading.repeatLast 0 (some 1) rest
  | '\x7b' => do
    let ((least, most), rest) ← readBounds reading.flags rest
    reading.repeatLast least most (reading.flags.skip rest)
  | '[' => do
    let (⟨set, depth⟩, rest) ← readSet reading.flags fuel rest
    return (← reading.add ⟨.ofSet set, depth⟩, rest)
  | '.' => do return (← reading.add (.flat (← reading.flags.dot)), rest)
  | '^' => do return (← reading.add (.flat (.assert reading.flags.start)), rest)
  | '$' => do return (← reading.add (.flat (.assert reading.flags.stop)), rest)
  | '\\' => do
    let (escape, rest) ← readEscape reading.flags rest
    let element :=
      match escape with
      | .literal c => reading.flags.literal c
      | .set set => .ofSet set
      | .assertion assertion => .assert assertion
    return (← reading.add (.flat element), rest)
  | c => do return (← reading.add (.flat (reading.flags.literal c)), rest)

/-- The pattern, once all elements have been taken. -/
def finish (reading : Reading) : Except PatternError Pattern :=
  if reading.outer.isEmpty then
    let ⟨pattern, depth⟩ := reading.current.content
    if depth ≤ depthLimit then .ok pattern else .error .tooDeep
  else .error .unbalanced

/-- Take all elements. Each takes at least one character, so the fuel is the number of
characters. -/
def run : Nat → Reading → List Char → Except PatternError Pattern
  | 0, reading, _ => reading.finish
  | fuel + 1, reading, text =>
    match reading.flags.skip text with
    | [] => reading.finish
    | c :: rest => do
      let (reading, rest) ← reading.step (fuel + 1) c rest
      run fuel reading rest

end Reading

/-- The pattern that a text writes. -/
def Pattern.read (text : String) : Except PatternError Pattern :=
  Reading.initial.run (text.length + 1) text.toList

end Predictive
