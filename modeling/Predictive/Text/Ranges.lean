/-!
# Ranges of code points

A class of characters is a list of closed ranges of code points by increasing
value, searched from the front.
-/

namespace Predictive.Text

/-- Whether a code point lies in one of the ranges, which are listed by increasing
value. -/
def inRanges : List (Nat × Nat) → Nat → Bool
  | [], _ => false
  | (low, high) :: rest, n =>
    if n < low then false else decide (n ≤ high) || inRanges rest n

end Predictive.Text
