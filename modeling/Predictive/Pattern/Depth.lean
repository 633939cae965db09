/-!
# Depth

How many constructs stand inside each other. The depth is kept beside a value while it is
being read: what the value is made of may no longer show how it was written.

## Main definitions

* `Deep` — a value and the depth of what it was written as
* `Deep.grouped` — the depth of several parts that make up one
-/

namespace Predictive

/-- A value and the depth of what it was written as. -/
structure Deep (α : Type) where
  /-- The value. -/
  value : α
  /-- The number of constructs that stand inside each other. -/
  depth : Nat

namespace Deep

variable {α : Type}

/-- A value that was written without any construct. -/
def flat (value : α) : Deep α := ⟨value, 0⟩

/-- The greatest depth of parts. -/
def deepest (parts : List (Deep α)) : Nat := parts.foldl (fun depth part => max depth part.depth) 0

/-- The depth of `count` parts of which the deepest has a given depth: several parts are one
construct more. -/
def grouped (count depth : Nat) : Nat := if count < 2 then depth else depth + 1

end Deep

end Predictive
