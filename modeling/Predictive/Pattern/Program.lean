import Predictive.Pattern.Footprint
import Predictive.Pattern.Reader

/-!
# Programs

A pattern is compiled into numbered steps. A step reads a character of a set, asks for an
assertion, parts into two ways of which one is preferred, or accepts. Steps are written from
the end of a pattern to its start, so that it is known of every step where it leads to;
only a loop has to be closed after its body has been written.

## Main definitions

* `Step` — one step of a program
* `Program` — the steps, and where to start
* `Pattern.compile` — the program of a pattern
* `Program.ofText` — the program of a written pattern
-/

namespace Predictive

/-- One step of a program. -/
inductive Step where
  /-- Read a character of a set, and go on. -/
  | read (set : CharSet) (next : Nat)
  /-- Go on if an assertion holds. -/
  | assert (assertion : Assertion) (next : Nat)
  /-- Go on in two ways. -/
  | fork (preferred other : Nat)
  /-- A match is found. -/
  | accept

/-- The steps of a pattern. -/
structure Program where
  /-- The steps, by their number. -/
  steps : Array Step
  /-- The first step. -/
  start : Nat
  /-- Whether a match can only begin where nothing stands before. -/
  anchored : Bool

namespace Pattern

/-- Write one more step, and give its number. -/
def writeStep (step : Step) (steps : Array Step) : Nat × Array Step :=
  (steps.size, steps.push step)

/-- Write something `n` times, each time to be followed by what was written before. -/
def writeTimes (write : Nat → Array Step → Nat × Array Step) :
    Nat → Nat → Array Step → Nat × Array Step
  | 0, next, steps => (next, steps)
  | n + 1, next, steps =>
    let (entry, steps) := write next steps
    writeTimes write n entry steps

/-- Write the steps of a pattern that is followed by the step `next`, and give the number of
the first one. -/
def write : Pattern → Nat → Array Step → Nat × Array Step
  | .empty, next, steps => (next, steps)
  | .literal text, next, steps =>
    text.foldr (fun c (next, steps) => writeStep (.read (.single c) next) steps) (next, steps)
  | .oneOf set, next, steps => writeStep (.read set next) steps
  | .assert assertion, next, steps => writeStep (.assert assertion next) steps
  | .group _ body, next, steps => body.write next steps
  | .seq first second, next, steps =>
    let (middle, steps) := second.write next steps
    first.write middle steps
  | .alt preferred other, next, steps =>
    let (second, steps) := other.write next steps
    let (first, steps) := preferred.write next steps
    writeStep (.fork first second) steps
  | .repeated body least most greedy, next, steps =>
    let fork := fun again => if greedy then Step.fork again next else Step.fork next again
    match most with
    | none =>
      -- the fork after an iteration is written first, and led back to the body afterwards
      let hub := steps.size
      let (entry, steps) := body.write hub (steps.push (fork hub))
      let steps := steps.setIfInBounds hub (fork entry)
      match least with
      | 0 => if body.mustRead then (hub, steps) else writeStep (fork entry) steps
      | n + 1 => writeTimes body.write n entry steps
    | some most =>
      let optional := fun next steps =>
        let (entry, steps) := body.write next steps
        writeStep (fork entry) steps
      let (entry, steps) := writeTimes optional (most - least) next steps
      writeTimes body.write least entry steps

/-- The program of a pattern. -/
def compile (pattern : Pattern) : Program :=
  let (start, steps) := pattern.write 0 #[.accept]
  ⟨steps, start, pattern.opensWith .textStart⟩

end Pattern

/-- The program of a written pattern, which has to stay within the limits. -/
def Program.ofText (text : String) : Except PatternError Program := do
  let pattern ← Pattern.read text
  if pattern.fits then return pattern.compile else .error .tooLarge

end Predictive
