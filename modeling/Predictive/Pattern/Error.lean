/-!
# Pattern errors

Why a text is no pattern, and how it is said.

## Main definitions

* `PatternError` — why a text is no pattern
* `PatternError.message` — the wording of an error
-/

namespace Predictive

/-- Why a text is no pattern. -/
inductive PatternError where
  /-- A group is not closed, or closed without having been opened. -/
  | unbalanced
  /-- A bracketed set is not closed. -/
  | unclosedSet
  /-- There is nothing to repeat. -/
  | nothingToRepeat
  /-- The bounds of a repetition are malformed, out of order or too large. -/
  | invalidBounds
  /-- The bounds of a range are no characters, or out of order. -/
  | invalidRange
  /-- The escape has no meaning. -/
  | invalidEscape
  /-- The flags of a group are malformed. -/
  | invalidFlags
  /-- The name of a group is malformed or used twice. -/
  | invalidGroupName
  /-- Conditions on the text around a group are not supported. -/
  | lookAround
  /-- Characters beyond ASCII stand where only ASCII is meant. -/
  | beyondAscii
  /-- Too many constructs stand inside each other. -/
  | tooDeep
  /-- The automata of the pattern take too much memory. -/
  | tooLarge
  deriving DecidableEq

/-- The wording of a pattern error. -/
def PatternError.message : PatternError → String
  | .unbalanced => "unbalanced group"
  | .unclosedSet => "unclosed character class"
  | .nothingToRepeat => "repetition operator missing expression"
  | .invalidBounds => "invalid repetition count"
  | .invalidRange => "invalid character class range"
  | .invalidEscape => "unrecognized escape sequence"
  | .invalidFlags => "invalid flags"
  | .invalidGroupName => "invalid capture group name"
  | .lookAround => "look-around is not supported"
  | .beyondAscii => "only ASCII is allowed here"
  | .tooDeep => "too many nested constructs"
  | .tooLarge => "compiled pattern is too large"

end Predictive
