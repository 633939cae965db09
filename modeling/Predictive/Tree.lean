import Predictive.Symbol.Names
import Predictive.Text.Quoted

/-!
# Parse trees

A node carries the symbol that it stands for, the text that it matched if it is a terminal, and
a number that tells it apart from the other nodes of its tree.

## Main definitions

* `Tree` — a node and its children
* `Tree.nodes` — the nodes of a tree in pre-order
* `Tree.text` — the matched texts below a node
* `Tree.locate?` — the node at the end of a path, with its ancestors
* `Tree.render` — the readable form of a tree
-/

namespace Predictive

/-- A node and its children. -/
inductive Tree where
  /-- A node by its number, its symbol, its text if it matched one, and its children. -/
  | node (id : Nat) (symbol : Symbol) (text : Option String) (children : List Tree)

namespace Tree

/-- The number of the root. -/
def id : Tree → Nat
  | .node id _ _ _ => id

/-- The symbol of the root. -/
def symbol : Tree → Symbol
  | .node _ symbol _ _ => symbol

/-- The text that the root matched. -/
def text? : Tree → Option String
  | .node _ _ text _ => text

/-- The children of the root. -/
def children : Tree → List Tree
  | .node _ _ _ children => children

/-- A node without children and text. -/
def leaf (id : Nat) (symbol : Symbol) : Tree := .node id symbol none []

/-- Whether the root has no children. -/
def isLeaf (tree : Tree) : Bool := tree.children.isEmpty

mutual

/-- The nodes of a tree in pre-order, each as the tree below it. -/
def nodes : Tree → List Tree
  | .node id symbol text children => .node id symbol text children :: nodesOfAll children

/-- The nodes of a list of trees in pre-order. -/
def nodesOfAll : List Tree → List Tree
  | [] => []
  | tree :: rest => tree.nodes ++ nodesOfAll rest

end

theorem nodesOfAll_append {front back : List Tree} :
    nodesOfAll (front ++ back) = nodesOfAll front ++ nodesOfAll back := by
  induction front with
  | nil => rfl
  | cons tree rest ih => rw [List.cons_append, nodesOfAll, nodesOfAll, ih, List.append_assoc]

/-- The nodes strictly below the root, in pre-order. -/
def descendants (tree : Tree) : List Tree := nodesOfAll tree.children

/-- Whether the root stands for a symbol of the given name. -/
def isNamed (names : NameTable) (name : String) (tree : Tree) : Bool :=
  names.name? tree.symbol == some name

/-- The nodes strictly below the root with one of the given names, in pre-order. -/
def descendantsNamed (names : NameTable) (wanted : List String) (tree : Tree) : List Tree :=
  tree.descendants.filter fun node => wanted.any fun name => node.isNamed names name

/-- The texts matched by the root and the nodes below it, in order. -/
def texts (tree : Tree) : List String := tree.nodes.filterMap text?

/-- The texts matched below a node, joined by a separator. -/
def text (separator : String) (tree : Tree) : String := separator.intercalate tree.texts

/-- A node reached from a root, with its ancestors, the nearest first. -/
structure Location where
  /-- The nodes on the way back to the root. -/
  ancestors : List Tree
  /-- The node itself. -/
  node : Tree

/-- Follow a path of child numbers down from a node. -/
def locateFrom? (ancestors : List Tree) (tree : Tree) : List Nat → Option Location
  | [] => some ⟨ancestors, tree⟩
  | i :: path =>
    match tree.children[i]? with
    | some child => locateFrom? (tree :: ancestors) child path
    | none => none

/-- The node at the end of a path of child numbers from the root. -/
def locate? (tree : Tree) (path : List Nat) : Option Location := locateFrom? [] tree path

/-- The nearest strict ancestor of the given name. -/
def Location.ancestorNamed? (names : NameTable) (name : String) (location : Location) :
    Option Tree :=
  location.ancestors.find? (isNamed names name)

mutual

/-- The nodes of a tree in pre-order, each with the number of its parent. -/
def withParents (parent : Option Nat) : Tree → List (Option Nat × Tree)
  | .node id symbol text children =>
    (parent, .node id symbol text children) :: withParentsAll (some id) children

/-- The nodes of a list of trees in pre-order, each with the number of its parent. -/
def withParentsAll (parent : Option Nat) : List Tree → List (Option Nat × Tree)
  | [] => []
  | tree :: rest => tree.withParents parent ++ withParentsAll parent rest

end

/-- The line of a node: its name, and its text in quotes. -/
def renderLine (names : NameTable) (depth : Nat) (symbol : Symbol) (text : Option String) :
    Except Fault String := do
  let shown := match text with
    | some text => " " ++ Text.quote text
    | none => ""
  return "".pushn ' ' (2 * depth) ++ (← names.name symbol) ++ shown ++ "\n"

mutual

/-- The lines of a tree, indented by its depth. -/
def renderAt (names : NameTable) (depth : Nat) : Tree → Except Fault String
  | .node _ symbol text children => do
    let line ← renderLine names depth symbol text
    return line ++ (← renderAllAt names (depth + 1) children)

/-- The lines of a list of trees, indented by their depth. -/
def renderAllAt (names : NameTable) (depth : Nat) : List Tree → Except Fault String
  | [] => .ok ""
  | tree :: rest => do
    let shown ← tree.renderAt names depth
    return shown ++ (← renderAllAt names depth rest)

end

/-- The readable form of a tree: one line for a node, indented below its parent. -/
def render (names : NameTable) (tree : Tree) : Except Fault String := tree.renderAt names 0

/-- The short form of a single node. -/
def describe (names : NameTable) (tree : Tree) : Except Fault String := do
  let name := Text.quote (← names.name tree.symbol)
  let shown := match tree.text? with
    | some text => "Some(" ++ Text.quote text ++ ")"
    | none => "None"
  return "Node \x7b id: NodeID(" ++ toString tree.id ++ "), name: " ++ name ++ ", text: " ++
    shown ++ ", .. \x7d"

end Tree

end Predictive
