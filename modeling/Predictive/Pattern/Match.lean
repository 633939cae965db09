import Predictive.Pattern.Program

/-!
# Matching

A program is followed through a text character by character. Several steps run side by side,
in order of preference. Between two characters they are spread: forks are followed in both
ways and assertions are asked for, until every step that is left reads a character. A step
that has been met before, between the same two characters, is not followed again, since all
that it leads to is preferred there already. Where a step accepts, every step of lower
preference is dropped; so the match that is found last is the preferred one.

## Main definitions

* `Program.spread` — what the steps lead to between two characters
* `Program.matchLength?` — the length of the preferred match at the front of a text
* `Program.find?` — the preferred one of the matches that start leftmost

## Main results

* `Program.find?_le` — a match lies within the text
-/

namespace Predictive

namespace Program

/-- What steps lead to between two characters. -/
structure Spread where
  /-- The steps after the next character, in order of preference. -/
  next : List Nat
  /-- Whether a step accepts. -/
  accepts : Bool
  /-- Between which characters each step was met last. -/
  met : Array Nat

/-- Follow the steps of a list, in order of preference, up to those that read the next
character. `place` is the number of this place, and `found` are the steps after the next
character, the latest first. A step is followed once and leads to two others at most, which
bounds the fuel. -/
def spread (program : Program) (before after : Option Char) (place : Nat) :
    Nat → List Nat → List Nat → Array Nat → Spread
  | 0, _, found, met => ⟨found.reverse, false, met⟩
  | _ + 1, [], found, met => ⟨found.reverse, false, met⟩
  | fuel + 1, here :: others, found, met =>
    if met.getD here 0 == place then program.spread before after place fuel others found met
    else
      let met := met.setIfInBounds here place
      match program.steps[here]? with
      | none => program.spread before after place fuel others found met
      | some .accept => ⟨found.reverse, true, met⟩
      | some (.read set next) =>
        let found := if after.any set.holds then next :: found else found
        program.spread before after place fuel others found met
      | some (.assert assertion next) =>
        let others := if assertion.holds before after then next :: others else others
        program.spread before after place fuel others found met
      | some (.fork preferred other) =>
        program.spread before after place fuel (preferred :: other :: others) found met

/-- The fuel that spreading takes. -/
def fuel (program : Program) : Nat := 3 * program.steps.size + 1

/-- The length of the match found last, if the characters read so far are one. -/
def latestMatch (accepts : Bool) (count : Nat) (best : Option Nat) : Option Nat :=
  if accepts then some count else best

/-- Follow steps through a text. `count` is the number of characters read, and `best` the
length of the match found so far. -/
def follow (program : Program) (before : Option Char) (steps : List Nat) (met : Array Nat)
    (count : Nat) (best : Option Nat) : List Char → Option Nat
  | [] =>
    let here := program.spread before none (count + 1) program.fuel steps [] met
    latestMatch here.accepts count best
  | c :: rest =>
    match program.spread before (some c) (count + 1) program.fuel steps [] met with
    | ⟨[], accepts, _⟩ => latestMatch accepts count best
    | ⟨steps, accepts, met⟩ =>
      program.follow (some c) steps met (count + 1) (latestMatch accepts count best) rest

/-- The length of the preferred match at the front of a text, after the character `before`. -/
def matchLength? (program : Program) (before : Option Char) (text : List Char) : Option Nat :=
  program.follow before [program.start] (Array.replicate program.steps.size 0) 0 none text

/-- The preferred match that starts leftmost, `offset` characters into the text. -/
def findFrom (program : Program) (before : Option Char) (offset : Nat) (text : List Char) :
    Option (Nat × Nat) :=
  match program.matchLength? before text with
  | some length => some (offset, offset + length)
  | none =>
    match text with
    | [] => none
    | c :: rest =>
      -- there is nothing to be found further on by an anchored program
      if program.anchored then none else program.findFrom (some c) (offset + 1) rest

/-- Where the preferred one of the leftmost matches starts and ends. -/
def find? (program : Program) (text : List Char) : Option (Nat × Nat) :=
  program.findFrom none 0 text

/-! ### Matches lie within the text -/

theorem latestMatch_le {accepts : Bool} {count length : Nat} {best : Option Nat}
    (known : ∀ n, best = some n → n ≤ count)
    (found : latestMatch accepts count best = some length) : length ≤ count := by
  unfold latestMatch at found
  split at found
  · cases found
    exact Nat.le_refl _
  · exact known _ found

theorem follow_le {program : Program} {before : Option Char} {steps : List Nat}
    {met : Array Nat} {count : Nat} {best : Option Nat} {text : List Char} {length : Nat}
    (known : ∀ n, best = some n → n ≤ count)
    (found : program.follow before steps met count best text = some length) :
    length ≤ count + text.length := by
  induction text generalizing before steps met count best with
  | nil => exact Nat.le_trans (latestMatch_le known found) (Nat.le_add_right ..)
  | cons c rest ih =>
    unfold follow at found
    split at found
    · exact Nat.le_trans (latestMatch_le known found) (Nat.le_add_right ..)
    · have bound := ih (fun n equal => Nat.le_succ_of_le (latestMatch_le known equal)) found
      rw [List.length_cons]
      omega

theorem matchLength?_le {program : Program} {before : Option Char} {text : List Char}
    {length : Nat} (found : program.matchLength? before text = some length) :
    length ≤ text.length := by
  have none_le : ∀ n, (none : Option Nat) = some n → n ≤ 0 := by
    intro n equal
    cases equal
  have bound := follow_le none_le found
  rwa [Nat.zero_add] at bound

theorem findFrom_le {program : Program} {before : Option Char} {offset first last : Nat}
    {text : List Char} (found : program.findFrom before offset text = some (first, last)) :
    offset ≤ first ∧ first ≤ last ∧ last ≤ offset + text.length := by
  fun_induction program.findFrom before offset text with
  | case1 before offset text length measured =>
    cases found
    exact ⟨Nat.le_refl _, Nat.le_add_right .., Nat.add_le_add_left (matchLength?_le measured) _⟩
  | case2 => cases found
  | case3 => cases found
  | case4 before offset c rest _ _ ih =>
    obtain ⟨start, order, bound⟩ := ih found
    rw [List.length_cons]
    exact ⟨by omega, order, by omega⟩

/-- A match starts before it ends, and lies within the text. -/
theorem find?_le {program : Program} {text : List Char} {first last : Nat}
    (found : program.find? text = some (first, last)) : first ≤ last ∧ last ≤ text.length := by
  have bounds := findFrom_le found
  rw [Nat.zero_add] at bounds
  exact bounds.2

end Program

end Predictive
