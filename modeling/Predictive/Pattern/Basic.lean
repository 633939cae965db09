import Predictive.Pattern.Assertion
import Predictive.Pattern.CharSet

/-!
# Patterns

Regular expressions with preferences. An alternation prefers its first branch, a greedy
repetition prefers to go on, a reluctant one prefers to stop, and of all matches that start
at the same place the preferred one counts, be it shorter or longer.

Patterns are built by `sequence`, `choice`, `ofSet` and `repetition`, which keep them small:
empty parts are left out, neighbouring literals are joined, sequences and alternations nest
to the right only, an alternation of single characters becomes a set, and parts with which
all branches of an alternation begin stand in front of it.

## Main definitions

* `Pattern` — a regular expression with preferences
* `Pattern.isVacant`, `Pattern.minLength?` — what is known of the length of its matches
* `Pattern.opensWith`, `Pattern.endsWith` — the assertions that every match needs at its ends
* `Pattern.sequence`, `Pattern.choice`, `Pattern.ofSet`, `Pattern.repetition` — how patterns
  are built
-/

namespace Predictive

/-- A regular expression with preferences. -/
inductive Pattern where
  /-- The empty text. -/
  | empty
  /-- A text itself. -/
  | literal (text : List Char)
  /-- One character of a set. -/
  | oneOf (set : CharSet)
  /-- The empty text, where an assertion holds. -/
  | assert (assertion : Assertion)
  /-- From `least` iterations up to `most`, or without an upper bound. -/
  | repeated (body : Pattern) (least : Nat) (most : Option Nat) (greedy : Bool)
  /-- A part that is told apart from equal ones by its number. -/
  | group (index : Nat) (body : Pattern)
  /-- A text of the first followed by one of the second. -/
  | seq (first second : Pattern)
  /-- A text of either, of the first by preference. -/
  | alt (preferred other : Pattern)
  deriving DecidableEq

namespace Pattern

/-! ### Lengths and assertions -/

/-- Whether every match is known to be empty. -/
def isVacant : Pattern → Bool
  | .empty => true
  | .literal _ => false
  | .oneOf _ => false
  | .assert _ => true
  | .repeated body _ most _ => most.isSome && body.isVacant
  | .group _ body => body.isVacant
  | .seq first second => first.isVacant && second.isVacant
  | .alt preferred other => preferred.isVacant && other.isVacant

/-- A length that no match falls short of. None is known where a part has no match at all. -/
def minLength? : Pattern → Option Nat
  | .empty => some 0
  | .literal text => some text.length
  | .oneOf set => if set.ranges.isEmpty then none else some 1
  | .assert _ => some 0
  | .repeated body least _ _ => body.minLength?.map (· * least)
  | .group _ body => body.minLength?
  | .seq first second => do return (← first.minLength?) + (← second.minLength?)
  | .alt preferred other => do return min (← preferred.minLength?) (← other.minLength?)

/-- Whether every match is known to read a character. -/
def mustRead (pattern : Pattern) : Bool := pattern.minLength?.any (0 < ·)

/-- Whether an assertion has to hold where a match starts. -/
def opensWith (assertion : Assertion) : Pattern → Bool
  | .assert found => found == assertion
  | .repeated body least _ _ => decide (0 < least) && body.opensWith assertion
  | .group _ body => body.opensWith assertion
  | .seq first second =>
    first.opensWith assertion || first.isVacant && second.opensWith assertion
  | .alt preferred other => preferred.opensWith assertion && other.opensWith assertion
  | _ => false

/-- Whether an assertion has to hold where a match ends. -/
def endsWith (assertion : Assertion) : Pattern → Bool
  | .assert found => found == assertion
  | .repeated body least _ _ => decide (0 < least) && body.endsWith assertion
  | .group _ body => body.endsWith assertion
  | .seq first second =>
    second.endsWith assertion || second.isVacant && first.endsWith assertion
  | .alt preferred other => preferred.endsWith assertion && other.endsWith assertion
  | _ => false

/-! ### Sequences -/

/-- The parts of a sequence, or the pattern alone. The empty pattern has no part. -/
def parts : Pattern → List Pattern
  | .empty => []
  | .seq first second => first :: second.parts
  | pattern => [pattern]

/-- Join neighbouring literals. -/
def joinLiterals : List Pattern → List Pattern
  | [] => []
  | .literal text :: rest =>
    match joinLiterals rest with
    | .literal next :: others => .literal (text ++ next) :: others
    | others => .literal text :: others
  | part :: rest => part :: joinLiterals rest

/-- The sequence of parts that need no joining. -/
def ofParts : List Pattern → Pattern
  | [] => .empty
  | [part] => part
  | part :: rest => .seq part (ofParts rest)

/-- One pattern after the other. -/
def sequence (patterns : List Pattern) : Pattern := ofParts (joinLiterals (patterns.flatMap parts))

/-! ### Alternations -/

/-- One character of a set. A single one is a literal. -/
def ofSet (set : CharSet) : Pattern :=
  match set.single? with
  | some c => .literal [c]
  | none => .oneOf set

/-- The branches of an alternation, or the pattern alone. -/
def branches : Pattern → List Pattern
  | .alt preferred other => preferred :: other.branches
  | pattern => [pattern]

/-- The alternation of branches that need no merging. -/
def ofBranches : List Pattern → Pattern
  | [] => .oneOf .empty
  | [branch] => branch
  | branch :: rest => .alt branch (ofBranches rest)

/-- The character of a literal that has just one. -/
def singleChar? : Pattern → Option Char
  | .literal [c] => some c
  | _ => none

/-- The set of a pattern that is one. -/
def set? : Pattern → Option CharSet
  | .oneOf set => some set
  | _ => none

/-- The set that branches come to: all of them single characters, or all of them sets. -/
def mergedSet? (branches : List Pattern) : Option CharSet :=
  (branches.mapM singleChar?).map (fun chars => CharSet.unions (chars.map .single)) <|>
    (branches.mapM set?).map CharSet.unions

/-- The parts that two lists have in common at their fronts. -/
def commonFront : List Pattern → List Pattern → List Pattern
  | a :: first, b :: second => if a = b then a :: commonFront first second else []
  | _, _ => []

/-- The parts with which all of several branches begin. A branch that is no sequence shares
none. -/
def sharedFront (branches : List Pattern) : List Pattern :=
  let sequences := branches.map parts
  match sequences with
  | first :: second :: rest =>
    if sequences.all fun parts => decide (1 < parts.length) then
      (second :: rest).foldl commonFront first
    else []
  | _ => []

/-- Any of the branches, the earlier ones by preference. Branches that come to a set are one
branch. -/
def merged (patterns : List Pattern) : Pattern :=
  let branches := patterns.flatMap branches
  if branches.length ≤ 1 then ofBranches branches
  else
    match mergedSet? branches with
    | some set => ofSet set
    | none => ofBranches branches

/-- Any of the patterns, the earlier ones by preference. What all of them begin with comes
first, and then the choice between what is left of them. -/
def choice (patterns : List Pattern) : Pattern :=
  let branches := (merged patterns).branches
  match sharedFront branches with
  | [] => ofBranches branches
  | front =>
    let rests := branches.map fun branch => sequence (branch.parts.drop front.length)
    sequence (front ++ [merged rests])

/-! ### Repetitions -/

/-- From `least` iterations up to `most`, or without an upper bound. One iteration of a
pattern that is always empty is as good as many. -/
def repetition (body : Pattern) (least : Nat) (most : Option Nat) (greedy : Bool) : Pattern :=
  let least := if body.isVacant then min least 1 else least
  let most := if body.isVacant then some (min (most.getD 1) 1) else most
  if most = some 0 then .empty
  else if least = 1 ∧ most = some 1 then body
  else .repeated body least most greedy

end Pattern

end Predictive
