import Predictive.Pattern.Depth
import Predictive.Pattern.Escape

/-!
# Bracketed sets

The written form of sets of characters: members and ranges between brackets, named sets,
sets inside sets, negation, and the operations `&&`, `--` and `~~`, which bind to the left.

## Main definitions

* `OpenSet` — a set the closing bracket of which has not been read
* `readSet` — the set after an opening bracket
-/

namespace Predictive

/-- The operations between the parts of a bracketed set. -/
inductive SetOperation where
  /-- Characters of both parts. -/
  | inter
  /-- Characters of the first part only. -/
  | diff
  /-- Characters of exactly one part. -/
  | symmDiff

/-- Apply an operation. -/
def SetOperation.apply : SetOperation → CharSet → CharSet → CharSet
  | .inter => .inter
  | .diff => .diff
  | .symmDiff => .symmDiff

/-- An open bracket: whether it is negated, the operand before the last operation, and the
members since. -/
structure OpenSet where
  /-- Whether the characters outside are meant. -/
  negated : Bool
  /-- The left operand of the operation that is waiting for its right one. -/
  waiting : Option (Deep CharSet × SetOperation)
  /-- The members read since, the latest first. -/
  members : List (Deep CharSet)

namespace OpenSet

/-- Add a member. -/
def add (set : OpenSet) (member : Deep CharSet) : OpenSet :=
  { set with members := member :: set.members }

/-- The set before any further operation. -/
def operand (flags : Flags) (set : OpenSet) : Deep CharSet :=
  let right : Deep CharSet :=
    ⟨.unions (set.members.map Deep.value),
      Deep.grouped set.members.length (Deep.deepest set.members)⟩
  match set.waiting with
  | none => right
  | some (left, operation) =>
    ⟨operation.apply (flags.fold left.value) (flags.fold right.value),
      max left.depth right.depth + 1⟩

/-- Take an operation: what has been read so far is its left operand. -/
def operate (flags : Flags) (operation : SetOperation) (set : OpenSet) : OpenSet :=
  { set with waiting := some (set.operand flags, operation), members := [] }

/-- The set that a closing bracket completes. -/
def close (flags : Flags) (set : OpenSet) : Except PatternError (Deep CharSet) := do
  let ⟨chars, depth⟩ := set.operand flags
  return ⟨← flags.checked ((flags.fold chars).negatedIf set.negated), depth + 1⟩

end OpenSet

/-- The hyphens at the front of a set, which stand for themselves, and the text after them. -/
def readHyphens (flags : Flags) (hyphens : List (Deep CharSet)) (text : List Char) :
    List (Deep CharSet) × List Char :=
  match text with
  | '-' :: rest =>
    have := flags.length_skip_le rest
    readHyphens flags (.flat (.single '-') :: hyphens) (flags.skip rest)
  | text => (hyphens, text)
termination_by text.length

/-- What follows an opening bracket: a negation, hyphens that stand for themselves, and a
closing bracket that stands for itself if it comes first. -/
def openSet (flags : Flags) (text : List Char) : OpenSet × List Char :=
  let (negated, text) :=
    match flags.skip text with
    | '^' :: rest => (true, flags.skip rest)
    | text => (false, text)
  match readHyphens flags [] text with
  | ([], ']' :: rest) => (⟨negated, none, [.flat (.single ']')]⟩, flags.skip rest)
  | (hyphens, rest) => (⟨negated, none, hyphens⟩, rest)

/-- A named set between `[:` and `:]`, after the opening bracket, and the text after it. -/
def readNamedSet? (flags : Flags) (text : List Char) :
    Option (Except PatternError CharSet × List Char) :=
  match text with
  | ':' :: rest =>
    let (negated, rest) :=
      match rest with
      | '^' :: rest => (true, rest)
      | _ => (false, rest)
    match rest.dropWhile (· != ':') with
    | ':' :: ']' :: after =>
      (CharSet.named? (String.ofList (rest.takeWhile (· != ':')))).map fun set =>
        (flags.checked ((flags.fold set).negatedIf negated), after)
    | _ => none
  | _ => none

/-- One member of a bracketed set: a character or an escape. -/
def readMember (flags : Flags) : List Char → Except PatternError (Escape × List Char)
  | [] => .error .unclosedSet
  | '\\' :: rest => readEscape flags rest
  | c :: rest => .ok (.literal c, rest)

/-- The set that a member stands for. -/
def Escape.toSet (flags : Flags) : Escape → Except PatternError CharSet
  | .literal c => flags.checked (.single c)
  | .set chars => .ok chars
  | .assertion _ => .error .invalidEscape

/-- The character that a member stands for, as the end of a range. -/
def Escape.toChar : Escape → Except PatternError Char
  | .literal c => .ok c
  | .set _ => .error .invalidRange
  | .assertion _ => .error .invalidRange

/-- The next character that means something, to tell a hyphen between two members from one
that stands for itself. A comment sign is skipped, but not the comment after it. -/
def peek (flags : Flags) (text : List Char) : Option Char :=
  if flags.verbose then
    match text.dropWhile Text.isBlank with
    | '#' :: rest => (rest.dropWhile Text.isBlank).head? <|> text.head?
    | rest => rest.head? <|> text.head?
  else text.head?

/-- A member or a range of characters, and the text after it. -/
def readRange (flags : Flags) (text : List Char) :
    Except PatternError (CharSet × List Char) := do
  let (first, rest) ← readMember flags text
  match flags.skip rest with
  | [] => .error .unclosedSet
  | '-' :: after =>
    let next := peek flags after
    -- a hyphen before the closing bracket is a member, two hyphens are an operation
    if next = some ']' ∨ next = some '-' then return (← first.toSet flags, '-' :: after)
    else
      let (last, after) ← readMember flags (flags.skip after)
      let low ← first.toChar
      let high ← last.toChar
      if low ≤ high then return (← flags.checked (.range low high), after)
      else .error .invalidRange
  | rest => return (← first.toSet flags, rest)

/-- The set that is left to be read, and the text after its closing bracket. The sets around
it come innermost first. Each step takes at least one character, so the fuel is the number
of characters. -/
def readOpenSet (flags : Flags) : Nat → OpenSet → List OpenSet → List Char →
    Except PatternError (Deep CharSet × List Char)
  | 0, _, _, _ => .error .unclosedSet
  | fuel + 1, current, outer, text =>
    match flags.skip text with
    | [] => .error .unclosedSet
    | '[' :: rest =>
      match readNamedSet? flags rest with
      | some (set, after) => do
        readOpenSet flags fuel (current.add (.flat (← set))) outer after
      -- what is no named set is a set inside this one
      | none =>
        let (inner, after) := openSet flags rest
        readOpenSet flags fuel inner (current :: outer) after
    | ']' :: rest => do
      let set ← current.close flags
      match outer with
      | [] => return (set, rest)
      | enclosing :: outer => readOpenSet flags fuel (enclosing.add set) outer rest
    | '&' :: '&' :: rest => readOpenSet flags fuel (current.operate flags .inter) outer rest
    | '-' :: '-' :: rest => readOpenSet flags fuel (current.operate flags .diff) outer rest
    | '~' :: '~' :: rest => readOpenSet flags fuel (current.operate flags .symmDiff) outer rest
    | text => do
      let (set, after) ← readRange flags text
      readOpenSet flags fuel (current.add (.flat set)) outer after

/-- The set after an opening bracket, and the text after its closing one. The fuel is at least
the number of characters. -/
def readSet (flags : Flags) (fuel : Nat) (text : List Char) :
    Except PatternError (Deep CharSet × List Char) :=
  let (set, rest) := openSet flags text
  readOpenSet flags fuel set [] rest

end Predictive
