import Predictive.Tree

/-!
# Arenas

A tree under construction lives in an arena, which lists its nodes in the order in which they were
made. A node is known by its place in the list. It names its parent and its children by their
places, and nothing but the operations keeps the two in agreement: a node may be made before its
parent, and the last nodes may be dropped again.

Places have no bound. A program that keeps a place in 32 bits has no room for more than `2 ^ 32`
nodes and breaks off there, long after its memory is used up; this limit is left out, here and
wherever nodes are numbered.

## Main definitions

* `Slot` — a node, with the places of its parent and of its children
* `Arena` — the nodes of a tree under construction
* `Arena.push`, `Arena.setText`, `Arena.adopt`, `Arena.truncate` — the operations
-/

namespace Predictive

/-- A node of an arena. -/
structure Slot where
  /-- The symbol that the node stands for. -/
  symbol : Symbol
  /-- The place of the parent, if there is one. -/
  parent : Option Nat
  /-- The places of the children. -/
  children : List Nat
  /-- The text that the node matched, if any. -/
  text : Option String
  deriving DecidableEq

/-- The nodes of a tree under construction, in the order in which they were made. -/
abbrev Arena := List Slot

namespace Arena

/-- Make a node. A parent gets it as its last child. -/
def push (arena : Arena) (s : Symbol) (parent : Option Nat) : Nat × Arena :=
  let id := arena.length
  let arena := arena ++ [⟨s, parent, [], none⟩]
  match parent with
  | some p => (id, arena.modify p fun slot => { slot with children := slot.children ++ [id] })
  | none => (id, arena)

/-- Give a node its text. -/
def setText (arena : Arena) (id : Nat) (text : String) : Arena :=
  arena.modify id fun slot => { slot with text := some text }

/-- Put nodes at the end of the children of a parent. -/
def adopt (arena : Arena) (parent : Nat) (children : List Nat) : Arena :=
  let arena := children.foldl (fun arena child =>
    arena.modify child fun slot => { slot with parent := some parent }) arena
  arena.modify parent fun slot => { slot with children := slot.children ++ children }

/-- Drop every node that was made since the arena had a certain length. The root stays. -/
def truncate (arena : Arena) (length : Nat) : Arena := arena.take (max length 1)

end Arena

end Predictive
