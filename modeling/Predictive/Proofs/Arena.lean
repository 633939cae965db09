import Mathlib.Data.List.Nodup
import Mathlib.Data.List.Range
import Mathlib.Logic.Relation
import Predictive.Tree.Arena

/-!
# Trees in an arena

An arena holds a tree if it has each node at the place that is its number, with the parent and the
children that it has in the tree. If the nodes are numbered from the root on without a gap, nothing
else is in the arena, and the arena is a tree by itself: its parents and its children agree, and
every node can be reached from the root.

A tree whose root was made first, and every other node after those below it, has its nodes in the
arena in this order. A node that is made last adopts the nodes in front of it.

## Main definitions

* `Arena.Lists` — a node has another one among its children
* `Arena.IsTree` — parents and children agree, and nothing is out of reach
* `Tree.slot`, `Tree.arena` — a node and a tree as an arena has them
* `Tree.Held` — an arena has every node of a tree at the place of its number
* `Tree.Numbered` — every node is numbered after those below it

## Main results

* `Tree.Held.isTree` — an arena that holds a tree is a tree by itself
* `Tree.Numbered.perm_ids` — the numbers that are given out
* `Tree.Numbered.held` — the arena of a tree holds it
* `Tree.Numbered.adopt_last`, `Tree.Numbered.adopt_first` — a node adopts the trees in front of it
  or behind it
-/

namespace Predictive

namespace Arena

/-- A node has another one among its children. -/
def Lists (arena : Arena) (p child : Nat) : Prop :=
  ∃ slot, arena[p]? = some slot ∧ child ∈ slot.children

/-- Parents and children agree, and nothing is out of reach. -/
structure IsTree (arena : Arena) : Prop where
  /-- The root has no parent. -/
  root : ∃ slot, arena[0]? = some slot ∧ slot.parent = none
  /-- Every other node has a parent, which lists it once. -/
  parent : ∀ {id slot}, arena[id]? = some slot → id ≠ 0 →
    ∃ p above, slot.parent = some p ∧ arena[p]? = some above ∧ above.children.count id = 1
  /-- Whatever a node lists is a node that has it as its parent. -/
  child : ∀ {p id}, arena.Lists p id → ∃ slot, arena[id]? = some slot ∧ slot.parent = some p
  /-- Every node can be reached from the root. -/
  reachable : ∀ id < arena.length, Relation.ReflTransGen arena.Lists 0 id

/-- Nodes that were made since the arena had a certain length are dropped. -/
theorem truncate_append (arena more : Arena) (present : arena ≠ []) :
    Arena.truncate (arena ++ more) arena.length = arena := by
  have positive := List.length_pos_of_ne_nil present
  rw [truncate, Nat.max_eq_left positive, List.take_left]

theorem truncate_self {arena : Arena} (present : arena ≠ []) :
    arena.truncate arena.length = arena := by
  simpa using truncate_append arena [] present

theorem modify_append_cons (front back : Arena) (slot : Slot) (change : Slot → Slot) :
    (front ++ slot :: back).modify front.length change = front ++ change slot :: back := by
  induction front with
  | nil => rfl
  | cons first front ih => rw [List.cons_append, List.length_cons, List.modify_succ_cons, ih]; rfl

end Arena

namespace Tree

variable {parent : Option Nat} {tree item above : Tree} {trees forest children : List Tree}
  {first last place : Nat}

/-! ### Nodes and their parents -/

mutual

theorem map_snd_withParents (parent : Option Nat) :
    ∀ tree : Tree, (tree.withParents parent).map Prod.snd = tree.nodes
  | .node id s text children => by
    rw [withParents, nodes, List.map_cons, map_snd_withParentsAll]

theorem map_snd_withParentsAll (parent : Option Nat) :
    ∀ trees : List Tree, (withParentsAll parent trees).map Prod.snd = nodesOfAll trees
  | [] => rfl
  | tree :: rest => by
    rw [withParentsAll, nodesOfAll, List.map_append, map_snd_withParents, map_snd_withParentsAll]

end

theorem exists_parent (parent : Option Nat) (member : item ∈ tree.nodes) :
    ∃ other, (other, item) ∈ tree.withParents parent := by
  rw [← map_snd_withParents parent] at member
  obtain ⟨⟨other, same⟩, listed, rfl⟩ := List.mem_map.mp member
  exact ⟨other, listed⟩

mutual

/-- A node is the root, or it is a child of the node that is listed as its parent. -/
theorem cases_of_mem_withParents : ∀ {parent other : Option Nat} {tree item : Tree},
    (other, item) ∈ tree.withParents parent →
    other = parent ∧ item = tree ∨
      ∃ above ∈ tree.nodes, other = some above.id ∧ item ∈ above.children
  | parent, other, .node id s text children, item, listed => by
    rw [withParents, List.mem_cons] at listed
    rw [nodes]
    rcases listed with same | below
    · exact Or.inl (Prod.mk.inj same)
    · right
      rcases cases_of_mem_withParentsAll below with ⟨rfl, member⟩ | ⟨above, member, same, inside⟩
      · exact ⟨_, List.mem_cons_self, rfl, member⟩
      · exact ⟨above, List.mem_cons_of_mem _ member, same, inside⟩

theorem cases_of_mem_withParentsAll : ∀ {parent other : Option Nat} {trees : List Tree}
    {item : Tree}, (other, item) ∈ withParentsAll parent trees →
    other = parent ∧ item ∈ trees ∨
      ∃ above ∈ nodesOfAll trees, other = some above.id ∧ item ∈ above.children
  | parent, other, [], item, listed => by cases listed
  | parent, other, tree :: rest, item, listed => by
    rw [withParentsAll, List.mem_append] at listed
    rw [nodesOfAll]
    rcases listed with here | later
    · rcases cases_of_mem_withParents here with ⟨rfl, rfl⟩ | ⟨above, member, same, inside⟩
      · exact Or.inl ⟨rfl, List.mem_cons_self⟩
      · exact Or.inr ⟨above, List.mem_append_left _ member, same, inside⟩
    · rcases cases_of_mem_withParentsAll later with ⟨rfl, member⟩ | ⟨above, member, same, inside⟩
      · exact Or.inl ⟨rfl, List.mem_cons_of_mem _ member⟩
      · exact Or.inr ⟨above, List.mem_append_right _ member, same, inside⟩

end

theorem mem_withParents_self : (parent, tree) ∈ tree.withParents parent := by
  cases tree
  rw [withParents]
  exact List.mem_cons_self

theorem mem_withParentsAll_of_mem (listed : tree ∈ trees) :
    (parent, tree) ∈ withParentsAll parent trees := by
  induction trees with
  | nil => cases listed
  | cons head rest ih =>
    rw [withParentsAll, List.mem_append]
    rcases List.mem_cons.mp listed with rfl | later
    · exact Or.inl mem_withParents_self
    · exact Or.inr (ih later)

mutual

/-- A child is listed with its parent. -/
theorem mem_withParents_of_child : ∀ {parent : Option Nat} {tree above child : Tree},
    above ∈ tree.nodes → child ∈ above.children →
    (some above.id, child) ∈ tree.withParents parent
  | parent, .node id s text children, above, child, member, inside => by
    rw [nodes, List.mem_cons] at member
    rw [withParents, List.mem_cons]
    rcases member with rfl | below
    · exact Or.inr (mem_withParentsAll_of_mem inside)
    · exact Or.inr (mem_withParentsAll_of_child below inside)

theorem mem_withParentsAll_of_child : ∀ {parent : Option Nat} {trees : List Tree}
    {above child : Tree}, above ∈ nodesOfAll trees → child ∈ above.children →
    (some above.id, child) ∈ withParentsAll parent trees
  | parent, [], above, child, member, inside => by cases member
  | parent, tree :: rest, above, child, member, inside => by
    rw [nodesOfAll, List.mem_append] at member
    rw [withParentsAll, List.mem_append]
    rcases member with here | later
    · exact Or.inl (mem_withParents_of_child here inside)
    · exact Or.inr (mem_withParentsAll_of_child later inside)

end

theorem mem_nodes_self : tree ∈ tree.nodes := by
  cases tree
  rw [nodes]
  exact List.mem_cons_self

theorem sublist_nodesOfAll (trees : List Tree) : trees.Sublist (nodesOfAll trees) := by
  induction trees with
  | nil => exact .slnil
  | cons tree rest ih =>
    rw [nodesOfAll, ← List.singleton_append]
    exact (List.singleton_sublist.mpr mem_nodes_self).append ih

mutual

/-- The children of a node are nodes, each in its own place. -/
theorem sublist_nodes_of_mem : ∀ {tree above : Tree}, above ∈ tree.nodes →
    above.children.Sublist tree.nodes
  | .node id s text children, above, member => by
    rw [nodes] at member ⊢
    rcases List.mem_cons.mp member with rfl | below
    · exact (sublist_nodesOfAll children).cons _
    · exact (sublist_nodesOfAll_of_mem below).cons _

theorem sublist_nodesOfAll_of_mem : ∀ {trees : List Tree} {above : Tree},
    above ∈ nodesOfAll trees → above.children.Sublist (nodesOfAll trees)
  | [], above, member => by cases member
  | tree :: rest, above, member => by
    rw [nodesOfAll] at member ⊢
    rcases List.mem_append.mp member with here | later
    · exact (sublist_nodes_of_mem here).trans (List.sublist_append_left _ _)
    · exact (sublist_nodesOfAll_of_mem later).trans (List.sublist_append_right _ _)

end

mutual

/-- Every node is reached from the root by going from parents to children. -/
theorem reaches_of_mem_nodes {steps : Nat → Nat → Prop} : ∀ {tree item : Tree},
    (∀ above ∈ tree.nodes, ∀ child ∈ above.children, steps above.id child.id) →
    item ∈ tree.nodes → Relation.ReflTransGen steps tree.id item.id
  | .node id s text children, item, down, member => by
    rw [nodes] at down member
    rw [List.forall_mem_cons] at down
    rcases List.mem_cons.mp member with rfl | below
    · exact .refl
    · obtain ⟨top, listed, reaches⟩ := reaches_of_mem_nodesOfAll down.2 below
      exact .head (down.1 top listed) reaches

theorem reaches_of_mem_nodesOfAll {steps : Nat → Nat → Prop} : ∀ {trees : List Tree} {item : Tree},
    (∀ above ∈ nodesOfAll trees, ∀ child ∈ above.children, steps above.id child.id) →
    item ∈ nodesOfAll trees →
    ∃ top ∈ trees, Relation.ReflTransGen steps top.id item.id
  | [], item, down, member => by cases member
  | tree :: rest, item, down, member => by
    rw [nodesOfAll] at down member
    rw [List.forall_mem_append] at down
    rcases List.mem_append.mp member with here | later
    · exact ⟨tree, List.mem_cons_self, reaches_of_mem_nodes down.1 here⟩
    · obtain ⟨top, listed, reaches⟩ := reaches_of_mem_nodesOfAll down.2 later
      exact ⟨top, List.mem_cons_of_mem _ listed, reaches⟩

end

/-! ### An arena that holds a tree -/

/-- A node as an arena has it. -/
def slot (parent : Option Nat) (tree : Tree) : Slot :=
  ⟨tree.symbol, parent, tree.children.map Tree.id, tree.text?⟩

/-- An arena has every node of a tree at the place of its number, and nothing else. -/
structure Held (tree : Tree) (arena : Arena) : Prop where
  /-- The root comes first. -/
  root : tree.id = 0
  /-- The numbers of the nodes are the places of the arena. -/
  numbered : (tree.nodes.map Tree.id).Perm (List.range arena.length)
  /-- A node has the parent and the children that it has in the tree. -/
  getElem? : ∀ {parent item}, (parent, item) ∈ tree.withParents none →
    arena[item.id]? = some (item.slot parent)

namespace Held

variable {arena : Arena} {found : Slot}

/-- Every place holds a node. -/
theorem exists_item (held : tree.Held arena) (there : arena[place]? = some found) :
    ∃ parent item, (parent, item) ∈ tree.withParents none ∧ item ∈ tree.nodes ∧
      item.id = place ∧ found = item.slot parent := by
  obtain ⟨inside, -⟩ := List.getElem?_eq_some_iff.mp there
  have listed := held.numbered.mem_iff.mpr (List.mem_range.mpr inside)
  obtain ⟨item, member, rfl⟩ := List.mem_map.mp listed
  obtain ⟨parent, entry⟩ := exists_parent none member
  rw [held.getElem? entry] at there
  exact ⟨parent, item, entry, member, rfl, (Option.some.inj there).symm⟩

theorem lists (held : tree.Held arena) (member : above ∈ tree.nodes)
    (inside : item ∈ above.children) : arena.Lists above.id item.id := by
  obtain ⟨parent, entry⟩ := exists_parent none member
  exact ⟨_, held.getElem? entry, List.mem_map_of_mem inside⟩

/-- The arena of a tree is a tree by itself. -/
theorem isTree (held : tree.Held arena) : arena.IsTree := by
  constructor
  · have there := held.getElem? mem_withParents_self
    rw [held.root] at there
    exact ⟨_, there, rfl⟩
  · intro place found there proper
    obtain ⟨parent, item, entry, -, rfl, rfl⟩ := held.exists_item there
    rcases cases_of_mem_withParents entry with ⟨-, rfl⟩ | ⟨above, member, rfl, inside⟩
    · exact absurd held.root proper
    · obtain ⟨other, higher⟩ := exists_parent none member
      refine ⟨above.id, _, rfl, held.getElem? higher, ?_⟩
      have apart : (above.children.map Tree.id).Nodup :=
        ((sublist_nodes_of_mem member).map Tree.id).nodup
          (held.numbered.nodup_iff.mpr List.nodup_range)
      exact List.count_eq_one_of_mem apart (List.mem_map_of_mem inside)
  · rintro p place ⟨above, there, inside⟩
    obtain ⟨parent, item, -, member, rfl, rfl⟩ := held.exists_item there
    obtain ⟨child, listed, rfl⟩ := List.mem_map.mp inside
    exact ⟨_, held.getElem? (mem_withParents_of_child member listed), rfl⟩
  · intro place inside
    obtain ⟨parent, item, -, member, rfl, -⟩ := held.exists_item (List.getElem?_eq_getElem inside)
    rw [← held.root]
    exact reaches_of_mem_nodes (fun above listed child => held.lists listed) member

end Held

/-! ### Numbers -/

/-- Trees are numbered one after the other, and in each of them the root comes last. -/
inductive Numbered : Nat → List Tree → Nat → Prop where
  /-- Nothing is numbered. -/
  | nil (first : Nat) : Numbered first [] first
  /-- The children are numbered before the root, and the other trees after it. -/
  | cons {first id last : Nat} {s : Symbol} {text : Option String} {children rest : List Tree}
      (inner : Numbered first children id) (others : Numbered (id + 1) rest last) :
      Numbered first (.node id s text children :: rest) last

mutual

/-- The nodes of a tree in the order of their numbers. -/
def slots (parent : Option Nat) : Tree → Arena
  | .node id s text children =>
    slotsOfAll (some id) children ++ [⟨s, parent, children.map Tree.id, text⟩]

/-- The nodes of a list of trees in the order of their numbers. -/
def slotsOfAll (parent : Option Nat) : List Tree → Arena
  | [] => []
  | tree :: rest => tree.slots parent ++ slotsOfAll parent rest

end

/-- The arena of a tree whose root was made first. -/
def arena (tree : Tree) : Arena := tree.slot none :: slotsOfAll (some tree.id) tree.children

theorem slotsOfAll_node {id : Nat} {s : Symbol} {text : Option String} {rest : List Tree} :
    slotsOfAll parent (.node id s text children :: rest) =
      slotsOfAll (some id) children ++ ⟨s, parent, children.map Tree.id, text⟩ ::
        slotsOfAll parent rest := by
  rw [slotsOfAll, slots, List.append_assoc, List.singleton_append]

theorem slotsOfAll_append {more : List Tree} :
    slotsOfAll parent (forest ++ more) = slotsOfAll parent forest ++ slotsOfAll parent more := by
  induction forest with
  | nil => rfl
  | cons tree rest ih => rw [List.cons_append, slotsOfAll, slotsOfAll, ih, List.append_assoc]

namespace Numbered

theorem append {middle : Nat} {more : List Tree} (front : Numbered first forest middle)
    (back : Numbered middle more last) : Numbered first (forest ++ more) last := by
  induction front with
  | nil => exact back
  | cons inner _ _ ih => exact .cons inner (ih back)

/-- Every node takes one number. -/
theorem length_slotsOfAll (numbered : Numbered first forest last) :
    first + (slotsOfAll parent forest).length = last := by
  induction numbered generalizing parent with
  | nil => rfl
  | @cons first id last s text children rest _ _ ihInner ih =>
    have inside := @ihInner (some id)
    have behind := @ih parent
    rw [slotsOfAll_node, List.length_append, List.length_cons]
    omega

theorem le (numbered : Numbered first forest last) : first ≤ last := by
  have counted := @numbered.length_slotsOfAll none
  omega

/-- The numbers that are given out. -/
theorem perm_ids (numbered : Numbered first forest last) :
    ((nodesOfAll forest).map Tree.id).Perm (List.range' first (last - first)) := by
  induction numbered with
  | nil => simp [nodesOfAll]
  | @cons first id last s text children rest inner others ihInner ih =>
    have below := inner.le
    have behind := others.le
    have joined : List.range' first (id - first) ++ id :: List.range' (id + 1) (last - (id + 1)) =
        List.range' first (last - first) := by
      obtain ⟨inside, rfl⟩ := Nat.exists_eq_add_of_le below
      obtain ⟨more, rfl⟩ := Nat.exists_eq_add_of_le behind
      rw [Nat.add_sub_cancel_left, Nat.add_sub_cancel_left, ← List.range'_succ,
        List.range'_append_1]
      congr 1
      omega
    rw [← joined, nodesOfAll, nodes, List.cons_append, List.map_cons, List.map_append]
    exact ((ihInner.append ih).cons id).trans List.perm_middle.symm

/-- Every node is in the place of its number. -/
theorem getElem?_slotsOfAll (numbered : Numbered first forest last) (front back : Arena)
    (before : front.length = first) {other : Option Nat}
    (listed : (other, item) ∈ withParentsAll parent forest) :
    (front ++ slotsOfAll parent forest ++ back)[item.id]? = some (item.slot other) := by
  induction numbered generalizing parent front back with
  | nil => cases listed
  | @cons first id last s text children rest inner _ ihInner ih =>
    have counted := @inner.length_slotsOfAll (some id)
    rw [withParentsAll, withParents, List.mem_append, List.mem_cons] at listed
    rw [slotsOfAll_node]
    rcases listed with (same | below) | behind
    · obtain ⟨rfl, rfl⟩ := Prod.mk.inj same
      have place : (front ++ slotsOfAll (some id) children).length = id := by
        rw [List.length_append, before, counted]
      rw [← List.append_assoc, List.append_assoc _ _ back, List.cons_append]
      rw [Tree.id, List.getElem?_append_right (Nat.le_of_eq place), place, Nat.sub_self]
      rfl
    · rw [← List.append_assoc, List.append_assoc _ _ back]
      exact ihInner front _ before below
    · have found := ih (front ++ slotsOfAll (some id) children ++
        [⟨s, parent, children.map Tree.id, text⟩]) back (by simp; omega) behind
      simpa using found

/-- The arena of a tree holds it. -/
theorem held {s : Symbol} {text : Option String} (numbered : Numbered 1 children last) :
    (Tree.node 0 s text children).Held (Tree.node 0 s text children).arena := by
  have counted := @numbered.length_slotsOfAll (some 0)
  refine ⟨rfl, ?_, fun {parent item} listed => ?_⟩
  · have size : (slotsOfAll (some 0) children).length = last - 1 := by omega
    rw [nodes, List.map_cons, arena, List.length_cons, List.range_eq_range', List.range'_succ]
    exact (size ▸ numbered.perm_ids).cons 0
  · rw [withParents] at listed
    rcases List.mem_cons.mp listed with same | below
    · obtain ⟨rfl, rfl⟩ := Prod.mk.inj same
      rfl
    · have found := numbered.getElem?_slotsOfAll [(Tree.node 0 s text children).slot none] []
        rfl below
      rwa [List.append_nil] at found

/-- The roots of trees get a new parent. -/
theorem foldl_adopt (numbered : Numbered first forest last) (front back : Arena) (p : Nat)
    (before : front.length = first) :
    (forest.map Tree.id).foldl (fun arena child =>
        arena.modify child fun slot => { slot with parent := some p })
      (front ++ slotsOfAll parent forest ++ back) =
      front ++ slotsOfAll (some p) forest ++ back := by
  induction numbered generalizing front with
  | nil => rfl
  | @cons first id last s text children rest inner _ _ ih =>
    have counted := @inner.length_slotsOfAll (some id)
    have place : (front ++ slotsOfAll (some id) children).length = id := by
      rw [List.length_append, before, counted]
    have changed := Arena.modify_append_cons (front ++ slotsOfAll (some id) children)
      (slotsOfAll parent rest ++ back) ⟨s, parent, children.map Tree.id, text⟩
      fun slot => { slot with parent := some p }
    rw [place] at changed
    have later := ih (front ++ slotsOfAll (some id) children ++
      [⟨s, some p, children.map Tree.id, text⟩]) (by simp; omega)
    simp only [slotsOfAll_node, List.append_assoc, List.cons_append, List.nil_append,
      List.map_cons, List.foldl_cons, Tree.id] at changed later ⊢
    rw [changed, later]

/-- A node that is made last adopts the trees in front of it. -/
theorem adopt_last (s : Symbol) {arena : Arena} (numbered : Numbered arena.length forest last) :
    Arena.adopt (arena ++ slotsOfAll none forest ++ [⟨s, none, [], none⟩]) last
        (forest.map Tree.id) =
      arena ++ slotsOfAll none [.node last s none forest] := by
  have place : (arena ++ slotsOfAll (some last) forest).length = last := by
    rw [List.length_append, numbered.length_slotsOfAll]
  have changed := Arena.modify_append_cons (arena ++ slotsOfAll (some last) forest) []
    ⟨s, none, [], none⟩ fun slot => { slot with children := slot.children ++ forest.map Tree.id }
  rw [place] at changed
  rw [Arena.adopt, numbered.foldl_adopt arena _ last rfl, changed, slotsOfAll_node,
    List.append_assoc]
  rfl

/-- A node that was made first adopts the trees behind it. -/
theorem adopt_first (s : Symbol) (numbered : Numbered 1 forest last) :
    Arena.adopt (⟨s, none, [], none⟩ :: slotsOfAll none forest) 0 (forest.map Tree.id) =
      (Tree.node 0 s none forest).arena := by
  have adopted := @foldl_adopt none forest 1 last numbered [⟨s, none, [], none⟩] [] 0 rfl
  rw [List.append_nil, List.append_nil, List.singleton_append, List.singleton_append] at adopted
  rw [Arena.adopt, adopted]
  rfl

end Numbered

end Tree

end Predictive
