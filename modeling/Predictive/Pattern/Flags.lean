import Predictive.Pattern.Basic
import Predictive.Pattern.Error

/-!
# Flags

The flags that are in force where an element of a pattern is read, and what they make of it.

## Main definitions

* `Flags` — the flags in force
* `Flags.skip` — leave out blanks and comments, where they mean nothing
* `Flags.literal`, `Flags.dot`, `Flags.start`, `Flags.stop`, `Flags.wordEdge` — the meaning
  of elements that depends on flags
* `readFlags` — the flags that a group changes

## Main results

* `Flags.length_skip_le` — skipping leaves no more than there was
-/

namespace Predictive

/-- The flags in force. -/
structure Flags where
  /-- Letters stand for their case variants too. -/
  caseless : Bool
  /-- The dot stands for line breaks too. -/
  dotAll : Bool
  /-- The anchors hold at line breaks too. -/
  multiLine : Bool
  /-- Repetitions are reluctant unless marked. -/
  swapGreed : Bool
  /-- A carriage return is part of a line break. -/
  carriageReturn : Bool
  /-- Blanks mean nothing, and `#` begins a comment. -/
  verbose : Bool
  /-- The characters of classes and the case variants of letters are those of this alphabet. -/
  alphabet : Alphabet

namespace Flags

/-- The flags at the front of a pattern. -/
def initial : Flags := ⟨false, false, false, false, false, false, .universal⟩

/-- Put a flag in force or out of force. -/
def set? (flags : Flags) (letter : Char) (value : Bool) : Option Flags :=
  match letter with
  | 'i' => some { flags with caseless := value }
  | 's' => some { flags with dotAll := value }
  | 'm' => some { flags with multiLine := value }
  | 'U' => some { flags with swapGreed := value }
  | 'R' => some { flags with carriageReturn := value }
  | 'x' => some { flags with verbose := value }
  | 'u' => some { flags with alphabet := if value then .universal else .ascii }
  | _ => none

/-- A text without the blanks and comments at its front. A comment ends with its line. -/
def skipComments (inComment : Bool) : List Char → List Char
  | [] => []
  | c :: rest =>
    if inComment then skipComments (c != '\n') rest
    else if c = '#' then skipComments true rest
    else if Text.isBlank c then skipComments false rest
    else c :: rest

/-- What is left of a text at the front of which nothing is to be read. -/
def skip (flags : Flags) (text : List Char) : List Char :=
  if flags.verbose then skipComments false text else text

theorem length_skipComments_le (inComment : Bool) (text : List Char) :
    (skipComments inComment text).length ≤ text.length := by
  induction text generalizing inComment with
  | nil => exact Nat.le_refl _
  | cons c rest ih =>
    unfold skipComments
    split
    · exact Nat.le_succ_of_le (ih _)
    · split
      · exact Nat.le_succ_of_le (ih _)
      · split
        · exact Nat.le_succ_of_le (ih _)
        · exact Nat.le_refl _

/-- Skipping leaves no more than there was. -/
theorem length_skip_le (flags : Flags) (text : List Char) :
    (flags.skip text).length ≤ text.length := by
  unfold skip
  split
  · exact length_skipComments_le _ _
  · exact Nat.le_refl _

/-- After the first character of what skipping leaves there is less than there was. -/
theorem length_lt_of_skip_eq_cons {flags : Flags} {text rest : List Char} {c : Char}
    (skipped : flags.skip text = c :: rest) : rest.length < text.length := by
  have bound := flags.length_skip_le text
  rw [skipped, List.length_cons] at bound
  exact bound

/-- The set, with case variants if they are meant. -/
def fold (flags : Flags) (set : CharSet) : CharSet :=
  if flags.caseless then
    match flags.alphabet with
    | .universal => set.folded
    | .ascii => set.foldedAscii
  else set

/-- A set may go beyond ASCII only if the alphabet does. -/
def checked (flags : Flags) (set : CharSet) : Except PatternError CharSet :=
  match flags.alphabet with
  | .universal => .ok set
  | .ascii => if set.isAscii then .ok set else .error .beyondAscii

/-- A class of characters of the alphabet, or the characters outside it. -/
def charClass (flags : Flags) (universal ascii : CharSet) (negated : Bool) :
    Except PatternError CharSet :=
  flags.checked <| CharSet.negatedIf negated <|
    match flags.alphabet with
    | .universal => universal
    | .ascii => ascii

/-- A character that stands for itself. -/
def literal (flags : Flags) (c : Char) : Pattern := .ofSet (flags.fold (.single c))

/-- Any character, except line breaks unless they are meant too. -/
def dot (flags : Flags) : Except PatternError Pattern :=
  match flags.alphabet with
  | .ascii => .error .beyondAscii
  | .universal =>
    .ok <| .oneOf <|
      if flags.dotAll then .all
      else if flags.carriageReturn then (CharSet.unions [.single '\n', .single '\r']).compl
      else (CharSet.single '\n').compl

/-- The anchor at the start. -/
def start (flags : Flags) : Assertion :=
  if flags.multiLine then (if flags.carriageReturn then .breakBefore else .lineStart)
  else .textStart

/-- The anchor at the end. -/
def stop (flags : Flags) : Assertion :=
  if flags.multiLine then (if flags.carriageReturn then .breakAfter else .lineEnd)
  else .textEnd

/-- An edge of the words of the alphabet. -/
def wordEdge (flags : Flags) (edge : WordEdge) : Assertion := .word flags.alphabet edge

end Flags

/-- The flags of a group up to `:` or `)`, the letters seen, and the text from there on. No
letter stands twice, and after a hyphen flags are put out of force. -/
def readFlags (flags : Flags) (value : Bool) (seen : List Char) :
    List Char → Except PatternError (Flags × List Char × List Char)
  | [] => .error .invalidFlags
  | c :: rest =>
    if c = ':' ∨ c = ')' then
      if seen.head? = some '-' then .error .invalidFlags else .ok (flags, seen, c :: rest)
    else if seen.contains c then .error .invalidFlags
    else if c = '-' then readFlags flags false (c :: seen) rest
    else
      match flags.set? c value with
      | some flags => readFlags flags value (c :: seen) rest
      | none => .error .invalidFlags

end Predictive
