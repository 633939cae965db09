/-!
# Saturation

The sets that describe a grammar are the least ones closed under its productions. They are
found by a pass over the productions that only ever adds members and tells whether it added
any, repeated until it adds none.
-/

namespace Predictive

/-- Repeat a pass until it reports no change, `fuel` times at most. -/
def saturate {α : Type} (pass : α → α × Bool) : Nat → α → α
  | 0, state => state
  | fuel + 1, state =>
    let (next, changed) := pass state
    if changed then saturate pass fuel next else next

/-- Run a list of steps one after the other, and tell whether any of them changed the state. -/
def sweep {α β : Type} (step : α → β → α × Bool) (state : α) (items : List β) : α × Bool :=
  items.foldl (fun (current : α × Bool) item =>
    let (next, changed) := step current.1 item
    (next, current.2 || changed)) (state, false)

end Predictive
