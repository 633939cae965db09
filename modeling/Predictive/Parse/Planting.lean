import Predictive.Parse.Event
import Predictive.Tree.Arena

/-!
# Events that grow an arena

A predictive parse makes its nodes in an arena, which holds the root at first. When a node is
expanded, its children are made from left to right; when it is matched, it gets the text of the
token. Whoever is told of an event finds the arena as it is after that event.

## Main definitions

* `Event.plant` — what an event does to the arena
* `Arena.ofEvents` — the arena after some events
-/

namespace Predictive

namespace Arena

/-- Make a node for each of some symbols, as the last children of a node. -/
def pushAll (arena : Arena) (symbols : List Symbol) (parent : Nat) : Arena :=
  symbols.foldl (fun arena s => (arena.push s (some parent)).2) arena

end Arena

/-- What an event does to the arena. -/
def Event.plant (arena : Arena) : Event → Arena
  | .expand node _ alternative _ => arena.pushAll alternative.symbols node.id
  | .shift node token => arena.setText node.id token.text

/-- The arena after some events. -/
def Arena.ofEvents (start : Symbol) (events : List Event) : Arena :=
  events.foldl Event.plant (Arena.push [] start none).2

end Predictive
