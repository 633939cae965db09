import Predictive.Grammar.Basic
import Predictive.Lexer.Token
import Predictive.Tree

/-!
# Events of a parse

A predictive parse goes through its tree in pre-order: each node is expanded by an alternative
or matched by a token. The events tell which, in order, and the tree can be assembled from
them: the last event says what its node looks like, given the trees of the nodes that were
pending after it.

## Main definitions

* `Pending` — a node that waits to be expanded or matched
* `Event` — what happened to a node
* `Event.assemble` — the tree of the node of an event in front of the trees of the others
* `Event.trees` — the trees of the nodes that were pending before some events
-/

namespace Predictive

/-- A node that waits to be expanded or matched. -/
structure Pending where
  /-- The number of the node. -/
  id : Nat
  /-- The symbol that it stands for. -/
  symbol : Symbol
  deriving DecidableEq

/-- The tree of a node to which nothing happened. -/
def Pending.toTree (node : Pending) : Tree := .leaf node.id node.symbol

/-- What happened to a node. -/
inductive Event where
  /-- The node was expanded by the alternative that the table holds for the lookahead; `size` is
  the number of nodes afterwards. -/
  | expand (node : Pending) (lookahead : Symbol) (alternative : Alternative) (size : Nat)
  /-- The node was matched by a token. -/
  | shift (node : Pending) (token : Token)
  deriving DecidableEq

namespace Event

/-- The node of an event. -/
def node : Event → Pending
  | .expand node _ _ _ => node
  | .shift node _ => node

/-- The tree of the node of an event, in front of the trees of the nodes that were pending with
it. Given are the trees of the nodes that were pending after the event: those of an expanded
node's children come first. -/
def assemble (event : Event) (trees : List Tree) : List Tree :=
  match event with
  | .expand node _ alternative _ =>
    .node node.id node.symbol none (trees.take alternative.size) :: trees.drop alternative.size
  | .shift node token => .node node.id node.symbol (some token.text) [] :: trees

/-- The trees of the nodes that were pending before the events, which are listed latest first,
given the nodes that are pending after them. -/
def trees (events : List Event) (pending : List Pending) : List Tree :=
  events.foldl (fun trees event => event.assemble trees) (pending.map Pending.toTree)

/-- The line that an event leaves in the log. -/
def render (names : NameTable) : Event → Except Fault String
  | .expand node _ alternative _ =>
    return (← names.name node.symbol) ++ " := " ++ (← alternative.render names)
  | .shift _ token => .ok ("Match " ++ token.name ++ " `" ++ token.text ++ "'")

end Event

end Predictive
