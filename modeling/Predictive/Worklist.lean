import Predictive.Ordered.Set

/-!
# Worklists

A first-in first-out queue of pending items. An item that is waiting is not
queued twice, but may be queued again once it has been taken.

Whether an item is waiting is looked up in a set beside the queue, which
`Worklist.push` and `Worklist.pop?` keep in step with it.

## Main definitions

* `Worklist` — the pending items, the one that has waited longest first
* `Worklist.push`, `Worklist.pop?`, `Worklist.extend`
-/

namespace Predictive

/-- A queue of pending items and the set of the items in it. -/
structure Worklist (α : Type) where
  /-- The items in order of arrival, the one that has waited longest first. -/
  pending : List α
  /-- The items to look up whether one is pending. -/
  waiting : OrderedSet α

namespace Worklist

variable {α : Type}

/-- The worklist on which nothing waits. -/
def empty : Worklist α := ⟨[], .empty⟩

/-- The number of pending items. -/
def size (list : Worklist α) : Nat := list.pending.length

/-- Whether nothing is pending. -/
def isEmpty (list : Worklist α) : Bool := list.pending.isEmpty

variable [DecidableEq α]

/-- Take the item that has been pending longest. -/
def pop? (list : Worklist α) : Option (α × Worklist α) :=
  match list.pending with
  | [] => none
  | item :: rest => some (item, ⟨rest, list.waiting.swapRemove item⟩)

/-- Queue an item, and tell whether it was not waiting already. -/
def push (list : Worklist α) (item : α) : Worklist α × Bool :=
  if list.waiting.contains item then (list, false)
  else (⟨list.pending ++ [item], list.waiting.insert item⟩, true)

/-- Queue every item of a list. -/
def extend (list : Worklist α) (items : List α) : Worklist α :=
  items.foldl (fun queue item => (queue.push item).1) list

/-- The worklist filled from a list. -/
def ofList (items : List α) : Worklist α := empty.extend items

end Worklist

end Predictive
