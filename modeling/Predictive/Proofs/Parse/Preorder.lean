import Predictive.Parse.Log
import Predictive.Parse.Planting
import Predictive.Proofs.Arena
import Predictive.Proofs.Parse.Completion
import Predictive.Proofs.Parse.Snapshot
import Predictive.Proofs.Printing

/-!
# A parse goes through its tree in pre-order

The nodes of a tree are made in an arena, the children of a node at once, and they are numbered as
they are made. The events come in another order, that of the waiting nodes: what is waiting is the
end of the tree's nodes in pre-order, and the events so far are those of the nodes before it.
Between two steps the arena holds the tree, and no event changes a node that was expanded or matched
before.

## Main definitions

* `Tree.IsIn` — an arena has every node of a tree
* `Event.Tells` — what can be seen at an event, in the arena and in the input
* `Machine.arena` — the arena of the machine
* `Machine.Traverses` — what every move preserves

## Main results

* `Arena.pushAll_eq` — the nodes that an expansion makes
* `Machine.Traverses.shift`, `Machine.Traverses.expand` — one move
* `Machine.Traverses.preorder` — the events and the waiting nodes, in pre-order
* `Grammar.parse_visits_preorder` — the events of a parse and its log
-/

namespace Predictive

/-! ### Nodes that are made -/

namespace Arena

variable {arena : Arena} {symbols : List Symbol} {parent place : Nat} {slot : Slot}

/-- A node as it is made below a parent. -/
def newChild (parent : Nat) (s : Symbol) : Slot := ⟨s, some parent, [], none⟩

theorem modify_append (inside : place < arena.length) (back : Arena) (change : Slot → Slot) :
    (arena ++ back).modify place change = arena.modify place change ++ back := by
  refine List.ext_getElem? fun i => ?_
  simp only [List.getElem?_modify, List.getElem?_append, List.length_modify]
  by_cases here : i < arena.length
  · rw [if_pos here, if_pos here]
  · have other : place ≠ i := by omega
    simp [here, other]

/-- Nodes are made at the end of the arena, and their parent lists them. -/
theorem pushAll_eq (inside : parent < arena.length) :
    arena.pushAll symbols parent =
      (arena ++ symbols.map (newChild parent)).modify parent fun slot =>
        { slot with children := slot.children ++ List.range' arena.length symbols.length } := by
  induction symbols generalizing arena with
  | nil =>
    simp only [pushAll, List.foldl_nil, List.map_nil, List.append_nil, List.length_nil,
      List.range'_zero]
    exact (List.modify_id parent arena).symm
  | cons s rest ih =>
    let pushed : Arena := (arena ++ [newChild parent s]).modify parent fun slot =>
      { slot with children := slot.children ++ [arena.length] }
    have first : arena.pushAll (s :: rest) parent = pushed.pushAll rest parent := rfl
    have length : pushed.length = arena.length + 1 := by simp [pushed]
    rw [first, ih (by omega), length, ← modify_append (by simp; omega), List.modify_modify_eq]
    simp [List.range'_succ, Function.comp_def]

theorem length_pushAll (arena : Arena) (symbols : List Symbol) (parent : Nat) :
    (arena.pushAll symbols parent).length = arena.length + symbols.length := by
  induction symbols generalizing arena with
  | nil => rfl
  | cons s rest ih =>
    have first : (arena.push s (some parent)).2.length = arena.length + 1 := by simp [push]
    have pushed := ih (arena.push s (some parent)).2
    rw [first] at pushed
    rw [List.length_cons, ← Nat.add_assoc, Nat.add_right_comm, ← pushed]
    rfl

/-- The nodes that were there are as before, except for the parent. -/
theorem getElem?_pushAll_of_ne (inside : parent < arena.length) (there : place < arena.length)
    (other : place ≠ parent) : (arena.pushAll symbols parent)[place]? = arena[place]? := by
  rw [pushAll_eq inside, List.getElem?_modify_ne _ _ other.symm, List.getElem?_append_left there]

theorem getElem?_pushAll_parent (symbols : List Symbol) (found : arena[parent]? = some slot) :
    (arena.pushAll symbols parent)[parent]? = some { slot with
      children := slot.children ++ List.range' arena.length symbols.length } := by
  obtain ⟨inside, -⟩ := List.getElem?_eq_some_iff.mp found
  rw [pushAll_eq inside, List.getElem?_modify_eq, List.getElem?_append_left inside, found]
  rfl

/-- The new nodes are in order. -/
theorem map_getElem?_pushAll (symbols : List Symbol) (inside : parent < arena.length) :
    (List.range' arena.length symbols.length).map ((arena.pushAll symbols parent)[·]?) =
      symbols.map fun s => some (newChild parent s) := by
  refine List.ext_getElem? fun i => ?_
  rw [pushAll_eq inside]
  by_cases there : i < symbols.length
  · have other : parent ≠ arena.length + i := by omega
    have counted : (List.range' arena.length symbols.length)[i]? = some (arena.length + i) := by
      simp [there]
    rw [List.getElem?_map, counted, Option.map_some, List.getElem?_modify_ne _ _ other,
      List.getElem?_append_right (Nat.le_add_right _ _)]
    simp [there]
  · have beyond : symbols.length ≤ i := by omega
    simp [beyond]

end Arena

/-- The new nodes are those that the machine numbers. -/
theorem Machine.getElem?_pushAll_of_mem_number {arena : Arena} {symbols : List Symbol}
    {parent : Nat} (inside : parent < arena.length) {node : Pending}
    (made : node ∈ Machine.number arena.length symbols) :
    (arena.pushAll symbols parent)[node.id]? = some (Arena.newChild parent node.symbol) := by
  obtain ⟨i, numbered⟩ := List.mem_iff_getElem?.mp made
  have id := congrArg (·[i]?) (Machine.map_id_number arena.length symbols)
  have symbol := congrArg (·[i]?) (Machine.map_symbol_number arena.length symbols)
  have there := congrArg (·[i]?) (Arena.map_getElem?_pushAll symbols inside)
  simp only [List.getElem?_map, numbered, Option.map_some] at id symbol there
  simpa [← id, ← symbol] using there

/-! ### A tree in an arena -/

namespace Tree

variable {arena : Arena} {parent : Option Nat} {trees : List Tree} {pair : Option Nat × Tree}

theorem mem_withParentsAll_iff :
    pair ∈ withParentsAll parent trees ↔ ∃ tree ∈ trees, pair ∈ tree.withParents parent := by
  induction trees with
  | nil => simp [withParentsAll]
  | cons tree rest ih => simp [withParentsAll, ih]

/-- An arena has every node of a tree at the place of its number; the root has the given parent. -/
def IsIn (arena : Arena) (parent : Option Nat) (tree : Tree) : Prop :=
  ∀ pair ∈ tree.withParents parent, arena[pair.2.id]? = some (pair.2.slot pair.1)

/-- An arena has a tree if it has the root, which lists its children, and the trees below it. -/
theorem isIn_node {id : Nat} {s : Symbol} {text : Option String} :
    (node id s text trees).IsIn arena parent ↔
      arena[id]? = some ⟨s, parent, trees.map Tree.id, text⟩ ∧
        ∀ child ∈ trees, child.IsIn arena (some id) := by
  rw [IsIn, withParents, List.forall_mem_cons]
  refine and_congr_right fun _ => ?_
  constructor
  · intro below child member pair listed
    exact below pair (mem_withParentsAll_iff.mpr ⟨child, member, listed⟩)
  · intro below pair listed
    obtain ⟨child, member, listed⟩ := mem_withParentsAll_iff.mp listed
    exact below child member pair listed

end Tree

/-! ### What is told of an event -/

/-- The input that is left after some events. -/
def Input.after (input : Input) (events : List Event) : Input :=
  { input with tokens := input.tokens.drop (events.filterMap Event.shifted?).length }

theorem Input.after_shift {input : Input} {events : List Event} {node : Pending} {token : Token} :
    input.after (events ++ [.shift node token]) =
      { input.after events with tokens := (input.after events).tokens.drop 1 } := by
  simp [after, Event.shifted?]

theorem Input.after_expand {input : Input} {events : List Event} {node : Pending} {s : Symbol}
    {alternative : Alternative} {size : Nat} :
    input.after (events ++ [.expand node s alternative size]) = input.after events := by
  have unread : [Event.expand node s alternative size].filterMap Event.shifted? = [] := rfl
  rw [after, List.filterMap_append, unread, List.append_nil]
  rfl

/-- What is told of an event, given the input that is left before it, and the arena after it. -/
inductive Event.Tells (grammar : Grammar) (table : ParseTable Alternative) (left : Input)
    (arena : Arena) : Event → Prop where
  /-- A nonterminal was expanded by the entry for the lookahead, and its children are the symbols of
  that alternative, to which nothing happened yet. -/
  | expand {node : Pending} {lookahead : Symbol} {alternative : Alternative} {size : Nat}
      {name : String} {token : Option Token} {parent : Option Nat} {children : List Nat}
      (nonterminal : grammar.isNonterminal node.symbol = true)
      (read : grammar.lookahead left = .ok (name, some lookahead, token))
      (entry : table.get? node.symbol lookahead = some alternative)
      (shown : arena[node.id]? = some ⟨node.symbol, parent, children, none⟩)
      (below : children.map (arena[·]?) =
        alternative.symbols.map fun s => some (Arena.newChild node.id s)) :
      Tells grammar table left arena (.expand node lookahead alternative size)
  /-- A terminal was the lookahead, and has the text of the token. -/
  | shift {node : Pending} {token : Token} {name : String} {parent : Option Nat}
      (terminal : grammar.isTerminal node.symbol = true)
      (read : grammar.lookahead left = .ok (name, some node.symbol, some token))
      (shown : arena[node.id]? = some ⟨node.symbol, parent, [], some token.text⟩) :
      Tells grammar table left arena (.shift node token)

namespace Machine

variable {grammar : Grammar} {table : ParseTable Alternative} {strict : Bool} {input : Input}
  {machine next : Machine} {result : ParseResult} {node : Pending} {rest : List Pending}
  {start s : Symbol} {token : Token} {alternative : Alternative} {event : Event}
  {events : List Event}

/-- The arena after the events of the machine. -/
def arena (machine : Machine) (start : Symbol) : Arena := .ofEvents start machine.events.reverse

theorem arena_shift : (machine.shift node rest token).arena start =
    (machine.arena start).setText node.id token.text := by
  simp [arena, Machine.shift, Arena.ofEvents, Event.plant]

theorem arena_expand : (machine.expand node rest s alternative).arena start =
    (machine.arena start).pushAll alternative.symbols node.id := by
  simp [arena, Machine.expand, Arena.ofEvents, Event.plant]

/-- What is true at each event is true at one more. -/
theorem forall_split_cons {holds : List Event → Event → Prop}
    (before : ∀ {front other back}, events.reverse = front ++ other :: back → holds front other)
    (last : holds events.reverse event) {front back : List Event} {other : Event}
    (split : (event :: events).reverse = front ++ other :: back) : holds front other := by
  rw [List.reverse_cons] at split
  rcases List.eq_nil_or_concat' back with rfl | ⟨others, final, rfl⟩
  · obtain ⟨rfl, same⟩ := List.append_inj' split rfl
    obtain rfl := List.singleton_inj.mp same
    exact last
  · rw [← List.cons_append, ← List.append_assoc] at split
    exact before (List.append_inj' split rfl).1

/-- What is known of the arena, and of the tree that the events put together from trees for the
waiting nodes. -/
structure Traverses (grammar : Grammar) (table : ParseTable Alternative) (input : Input)
    (machine : Machine) : Prop where
  /-- A token is read for each terminal that was matched. -/
  input_eq : machine.input = input.after machine.events.reverse
  /-- The nodes are counted. -/
  length_eq : (machine.arena grammar.start).length = machine.size
  /-- Nothing happened yet to a node that waits. -/
  waits : ∀ node ∈ machine.waiting, ∃ parent,
    (machine.arena grammar.start)[node.id]? = some ⟨node.symbol, parent, [], none⟩
  /-- Each event was told as it happened. -/
  tells : ∀ {front event back}, machine.events.reverse = front ++ event :: back →
    event.Tells grammar table (input.after front) (.ofEvents grammar.start (front ++ [event]))
  /-- The nodes of the tree are those of the events in their order, and then those of the given
  trees. An arena has all of it if it has the given trees, and the nodes of the events as they are
  after the last event. -/
  assembled : ∀ trees : List Tree, trees.map Tree.label = machine.waiting →
    ∃ tree, machine.events.foldl (fun trees event => event.assemble trees) trees = [tree] ∧
      tree.label = ⟨0, grammar.start⟩ ∧
      tree.nodes.map Tree.label =
        machine.events.reverse.map Event.node ++ (Tree.nodesOfAll trees).map Tree.label ∧
      ∀ grown : Arena,
        (∀ event ∈ machine.events,
          grown[event.node.id]? = (machine.arena grammar.start)[event.node.id]?) →
        (∀ given ∈ trees, ∃ slot, (machine.arena grammar.start)[given.id]? = some slot ∧
          given.IsIn grown slot.parent) →
        tree.IsIn grown none

theorem traverses_initial (grammar : Grammar) (table : ParseTable Alternative) (input : Input) :
    Traverses grammar table input (initial grammar.start input) where
  input_eq := rfl
  length_eq := rfl
  waits := by
    intro node waiting
    obtain rfl := List.mem_singleton.mp waiting
    exact ⟨none, rfl⟩
  tells := by
    intro front event back split
    simp [initial] at split
  assembled := by
    intro trees same
    obtain ⟨tree, rfl, root⟩ := List.map_eq_singleton_iff.mp same
    refine ⟨tree, rfl, root, by simp [initial, Tree.nodesOfAll], fun grown _ given => ?_⟩
    obtain ⟨slot, there, isIn⟩ := given tree List.mem_cons_self
    have first : tree.id = 0 := congrArg Pending.id root
    rw [first] at there
    obtain rfl := Option.some.inj there
    exact isIn

/-- The leftmost node is neither that of an event nor waiting twice. -/
theorem Builds.apart {tokens : List Token} (builds : Builds grammar tokens machine)
    (waiting : machine.waiting = node :: rest) :
    node.id < machine.size ∧
      (∀ event ∈ machine.events, event.node.id < machine.size ∧ event.node.id ≠ node.id) ∧
      ∀ other ∈ rest, other.id < machine.size ∧ other.id ≠ node.id := by
  have numbered := builds.numbered
  rw [waiting, List.map_append, List.map_cons] at numbered
  have inside : ∀ id ∈ (machine.events.map Event.node).map Pending.id ++
      node.id :: rest.map Pending.id, id < machine.size := fun id member =>
    List.mem_range.mp (numbered.mem_iff.mp member)
  have apart := numbered.nodup_iff.mpr List.nodup_range
  rw [List.nodup_append, List.nodup_cons] at apart
  obtain ⟨-, ⟨single, -⟩, disjoint⟩ := apart
  rw [List.forall_mem_append, List.forall_mem_cons] at inside
  refine ⟨inside.2.1, fun event happened => ?_, fun other waits => ?_⟩
  · have member : event.node.id ∈ (machine.events.map Event.node).map Pending.id :=
      List.mem_map_of_mem (List.mem_map_of_mem happened)
    exact ⟨inside.1 _ member, disjoint _ member _ List.mem_cons_self⟩
  · have member : other.id ∈ rest.map Pending.id := List.mem_map_of_mem waits
    exact ⟨inside.2.2 _ member, fun same => single (same ▸ member)⟩

/-- The tree of the node of an event, in front of the given trees that are left, takes the place of
the given trees. -/
theorem Traverses.assembled_cons {tokens : List Token}
    (traverses : Traverses grammar table input machine) (event : Event)
    (builds : Builds grammar tokens machine)
    (waiting : machine.waiting = event.node :: rest) {after : Arena}
    (unchanged : ∀ place < machine.size, place ≠ event.node.id →
      after[place]? = (machine.arena grammar.start)[place]?)
    {trees others : List Tree} {own : Tree} (built : event.assemble trees = own :: others)
    (root : own.label = event.node) (roots : others.map Tree.label = rest)
    (nodes : own.nodes.map Tree.label ++ (Tree.nodesOfAll others).map Tree.label =
      event.node :: (Tree.nodesOfAll trees).map Tree.label)
    (kept : others ⊆ trees)
    (owned : ∀ grown : Arena, grown[event.node.id]? = after[event.node.id]? →
      (∀ given ∈ trees, ∃ slot, after[given.id]? = some slot ∧ given.IsIn grown slot.parent) →
      ∃ slot, (machine.arena grammar.start)[event.node.id]? = some slot ∧
        own.IsIn grown slot.parent) :
    ∃ tree, (event :: machine.events).foldl (fun trees event => event.assemble trees) trees =
        [tree] ∧
      tree.label = ⟨0, grammar.start⟩ ∧
      tree.nodes.map Tree.label =
        (event :: machine.events).reverse.map Event.node ++
          (Tree.nodesOfAll trees).map Tree.label ∧
      ∀ grown : Arena,
        (∀ other ∈ event :: machine.events, grown[other.node.id]? = after[other.node.id]?) →
        (∀ given ∈ trees, ∃ slot, after[given.id]? = some slot ∧ given.IsIn grown slot.parent) →
        tree.IsIn grown none := by
  obtain ⟨-, happened, later⟩ := builds.apart waiting
  obtain ⟨tree, one, first, order, isIn⟩ := traverses.assembled (own :: others)
    (by rw [List.map_cons, root, roots, waiting])
  refine ⟨tree, by rw [List.foldl_cons, built, one], first, ?_, fun grown same given => ?_⟩
  · rw [order, Tree.nodesOfAll, List.map_append, nodes]
    simp
  -- an earlier event is about another node, and so is a tree that is left
  · rw [List.forall_mem_cons] at same
    refine isIn grown (fun other member => ?_)
      (List.forall_mem_cons.mpr ⟨?_, fun other member => ?_⟩)
    · obtain ⟨inside, differs⟩ := happened other member
      rw [same.2 other member, unchanged _ inside differs]
    · obtain ⟨slot, there, isIn⟩ := owned grown same.1 given
      have place : own.id = event.node.id := congrArg Pending.id root
      exact ⟨slot, place ▸ there, isIn⟩
    · obtain ⟨slot, there, isIn⟩ := given other (kept member)
      have waits : other.label ∈ rest := roots ▸ List.mem_map_of_mem member
      obtain ⟨inside, differs⟩ := later _ waits
      exact ⟨slot, (unchanged _ inside differs).symm.trans there, isIn⟩

/-- A match changes one node, to which nothing happened yet. -/
theorem Traverses.shift {tokens : List Token} {name : String}
    (traverses : Traverses grammar table input machine) (builds : Builds grammar tokens machine)
    (waiting : machine.waiting = node :: rest) (proper : node.symbol ≠ .eof)
    (read : grammar.lookahead machine.input = .ok (name, some node.symbol, some token)) :
    Traverses grammar table input (machine.shift node rest token) := by
  obtain ⟨inside, -, later⟩ := builds.apart waiting
  obtain ⟨parent, unmatched⟩ := traverses.waits node (by rw [waiting]; exact List.mem_cons_self)
  have terminal : grammar.isTerminal node.symbol = true := by
    rcases Grammar.lookahead_cases read with ⟨first, others, -, -, same, -⟩ | ⟨-, -, -, ends, -⟩
    · exact (Grammar.terminalOf?_eq_some_iff.mp same.symm).2
    · exact absurd (Option.some.inj ends) proper
  have unchanged : ∀ place, place ≠ node.id →
      ((machine.arena grammar.start).setText node.id token.text)[place]? =
        (machine.arena grammar.start)[place]? := fun place other =>
    List.getElem?_modify_ne _ _ other.symm
  have matched : ((machine.arena grammar.start).setText node.id token.text)[node.id]? =
      some ⟨node.symbol, parent, [], some token.text⟩ := by
    rw [Arena.setText, List.getElem?_modify_eq, unmatched]
    rfl
  constructor
  · rw [Machine.shift, List.reverse_cons, Input.after_shift, traverses.input_eq]
  · rw [arena_shift, Arena.setText, List.length_modify]
    exact traverses.length_eq
  · intro other waits
    rw [arena_shift, unchanged _ (later other waits).2]
    exact traverses.waits other (by rw [waiting]; exact List.mem_cons_of_mem _ waits)
  · refine forall_split_cons traverses.tells ?_
    have told : Event.Tells grammar table machine.input
        ((machine.shift node rest token).arena grammar.start) (.shift node token) :=
      .shift terminal read (arena_shift ▸ matched)
    rw [traverses.input_eq, arena, Machine.shift, List.reverse_cons] at told
    exact told
  -- the tree of the matched node is put in front of the given trees
  · intro trees roots
    rw [arena_shift]
    refine traverses.assembled_cons (.shift node token) builds waiting
      (fun place _ other => unchanged place other) rfl rfl roots rfl
      (List.Subset.refl _) fun grown same _ => ?_
    exact ⟨_, unmatched, Tree.isIn_node.mpr ⟨same.trans matched, List.forall_mem_nil _⟩⟩

/-- Of trees for what waits after an expansion, the first ones are those of the new nodes. -/
theorem map_label_split {trees : List Tree} {first : Nat}
    (roots : trees.map Tree.label = number first alternative.symbols ++ rest) :
    (trees.take alternative.size).map Tree.label = number first alternative.symbols ∧
      (trees.drop alternative.size).map Tree.label = rest := by
  constructor
  · rw [List.map_take, roots]
    exact List.take_left' (length_number _ _)
  · rw [List.map_drop, roots]
    exact List.drop_left' (length_number _ _)

/-- An expansion makes nodes at the end of the arena, and changes one that was there. -/
theorem Traverses.expand {tokens : List Token} {name : String} {ahead : Option Token}
    (traverses : Traverses grammar table input machine) (builds : Builds grammar tokens machine)
    (waiting : machine.waiting = node :: rest)
    (read : grammar.lookahead machine.input = .ok (name, some s, ahead))
    (entry : table.get? node.symbol s = some alternative)
    (rule : grammar.HasRule node.symbol alternative) :
    Traverses grammar table input (machine.expand node rest s alternative) := by
  obtain ⟨inside, -, later⟩ := builds.apart waiting
  obtain ⟨parent, unexpanded⟩ := traverses.waits node (by rw [waiting]; exact List.mem_cons_self)
  have length := traverses.length_eq
  have present : node.id < (machine.arena grammar.start).length := length ▸ inside
  have unchanged : ∀ place < machine.size, place ≠ node.id →
      ((machine.arena grammar.start).pushAll alternative.symbols node.id)[place]? =
        (machine.arena grammar.start)[place]? := fun place there other =>
    Arena.getElem?_pushAll_of_ne present (length ▸ there) other
  have expanded := Arena.getElem?_pushAll_parent alternative.symbols unexpanded
  rw [List.nil_append] at expanded
  have made : ∀ child ∈ number machine.size alternative.symbols,
      ((machine.arena grammar.start).pushAll alternative.symbols node.id)[child.id]? =
        some (Arena.newChild node.id child.symbol) := fun child member =>
    getElem?_pushAll_of_mem_number present (by rwa [length])
  constructor
  · rw [Machine.expand, List.reverse_cons, Input.after_expand]
    exact traverses.input_eq
  · rw [arena_expand, Arena.length_pushAll, length]
    rfl
  · intro other waits
    rw [arena_expand]
    rcases List.mem_append.mp waits with child | behind
    · exact ⟨_, made other child⟩
    · obtain ⟨there, differs⟩ := later other behind
      rw [unchanged _ there differs]
      exact traverses.waits other (by rw [waiting]; exact List.mem_cons_of_mem _ behind)
  · refine forall_split_cons traverses.tells ?_
    have told : Event.Tells grammar table machine.input
        ((machine.expand node rest s alternative).arena grammar.start)
        (.expand node s alternative (machine.size + alternative.size)) := by
      rw [arena_expand]
      exact .expand (Grammar.isNonterminal_of_rule rule) read entry expanded
        (Arena.map_getElem?_pushAll _ present)
    rw [traverses.input_eq, arena, Machine.expand, List.reverse_cons] at told
    exact told
  -- the tree of the expanded node has the first of the given trees as its children
  · intro trees roots
    rw [arena_expand]
    obtain ⟨taken, dropped⟩ := map_label_split roots
    refine traverses.assembled_cons
      (.expand node s alternative (machine.size + alternative.size)) builds waiting unchanged rfl
      rfl dropped ?_ (List.drop_subset _ _) fun grown same given => ?_
    · rw [Tree.nodes, List.map_cons, List.cons_append, ← List.map_append, ← Tree.nodesOfAll_append,
        List.take_append_drop]
      rfl
    · refine ⟨_, unexpanded, Tree.isIn_node.mpr ⟨?_, fun child member => ?_⟩⟩
      · have ids := congrArg (List.map Pending.id) taken
        rw [List.map_map, map_id_number] at ids
        refine same.trans (expanded.trans ?_)
        rw [length, ← ids]
        rfl
      · obtain ⟨slot, there, isIn⟩ := given child (List.mem_of_mem_take member)
        have child_slot := made child.label (taken ▸ List.mem_map_of_mem member)
        obtain rfl := Option.some.inj (there.symm.trans child_slot)
        exact isIn

/-- Every move preserves it. -/
theorem Traverses.of_moves
    (rules : ∀ {s t alternative}, table.get? s t = some alternative →
      grammar.HasRule s alternative) {tokens : List Token}
    (traverses : Traverses grammar table input machine) (builds : Builds grammar tokens machine)
    (moves : Moves grammar table machine next) : Traverses grammar table input next := by
  cases moves with
  | shift waiting proper read => exact traverses.shift builds waiting proper read
  | @expand node rest name s token alternative waiting _ read _ _ entry _ =>
    -- the expected terminals do not matter here
    let marked : Machine :=
      { machine with expected := machine.expected.union (table.lookaheads node.symbol) }
    have unmarked : Traverses grammar table input marked :=
      ⟨traverses.input_eq, traverses.length_eq, traverses.waits, traverses.tells,
        traverses.assembled⟩
    have same : Builds grammar tokens marked :=
      ⟨builds.consumed, builds.read, builds.numbered, builds.assembled⟩
    exact unmarked.expand same waiting read entry (rules entry)

theorem Traverses.of_reaches
    (rules : ∀ {s t alternative}, table.get? s t = some alternative →
      grammar.HasRule s alternative)
    (reaches : Reaches grammar table input machine) : Traverses grammar table input machine := by
  induction reaches with
  | refl => exact traverses_initial grammar table input
  | tail reaches moves ih => exact ih.of_moves rules (.of_reaches rules reaches) moves

/-- The nodes of the tree in pre-order are those of the events, and then the waiting ones. The arena
holds the tree. -/
theorem Traverses.preorder {tokens : List Token}
    (traverses : Traverses grammar table input machine) (builds : Builds grammar tokens machine) :
    (machine.tree grammar.start).nodes.map Tree.label =
        machine.events.reverse.map Event.node ++ machine.waiting ∧
      (machine.tree grammar.start).Held (machine.arena grammar.start) := by
  obtain ⟨tree, one, root, order, isIn⟩ := traverses.assembled
    (machine.waiting.map Pending.toTree) (by rw [List.map_map]; exact List.map_id _)
  have whole : machine.tree grammar.start = tree := by
    rw [Machine.tree, Event.trees, one]
    rfl
  rw [Tree.nodesOfAll_toTree, List.map_map, show Tree.label ∘ Pending.toTree = id from rfl,
    List.map_id] at order
  have ids := builds.perm_nodes.map Pending.id
  rw [whole, List.map_map] at ids
  rw [whole]
  refine ⟨order, congrArg Pending.id root, ?_, fun {parent item} listed => ?_⟩
  · rw [traverses.length_eq]
    exact ids.trans builds.numbered
  · refine isIn _ (fun _ _ => rfl) (fun given member => ?_) _ listed
    obtain ⟨node, waits, rfl⟩ := List.mem_map.mp member
    obtain ⟨parent, unchanged⟩ := traverses.waits node waits
    exact ⟨_, unchanged, Tree.isIn_node.mpr ⟨unchanged, List.forall_mem_nil _⟩⟩

end Machine

/-! ### The log -/

namespace Grammar.WellFormed

variable {grammar : Grammar} (wellFormed : grammar.WellFormed)

include wellFormed

/-- An expansion by an alternative of the grammar leaves a line in the log. -/
theorem exists_line_of_rule {node : Pending} {lookahead : Symbol} {alternative : Alternative}
    {size : Nat} (rule : grammar.HasRule node.symbol alternative) :
    ∃ line, (Event.expand node lookahead alternative size).render grammar.names = .ok line := by
  obtain ⟨head, named⟩ := NameTable.Holds.succeeds_name
    (wellFormed.named (Or.inr (isNonterminal_of_rule rule)))
  obtain ⟨body, rendered⟩ := wellFormed.succeeds_alternative rule
  refine ⟨head ++ " := " ++ body, ?_⟩
  rw [Event.render, named, rendered]
  rfl

/-- Every event leaves a line in the log. -/
theorem exists_line {table : ParseTable Alternative}
    (rules : ∀ {s t alternative}, table.get? s t = some alternative →
      grammar.HasRule s alternative) {left : Input} {arena : Arena} {event : Event}
    (tells : event.Tells grammar table left arena) :
    ∃ line, event.render grammar.names = .ok line := by
  cases tells with
  | shift => exact ⟨_, rfl⟩
  | expand _ _ entry => exact wellFormed.exists_line_of_rule (rules entry)

/-- The events of the machine leave a log. -/
theorem exists_lines {table : ParseTable Alternative} {input : Input} {machine : Machine}
    (rules : ∀ {s t alternative}, table.get? s t = some alternative →
      grammar.HasRule s alternative)
    (traverses : Machine.Traverses grammar table input machine) :
    ∃ lines, machine.events.reverse.mapM (Event.render grammar.names) = .ok lines ∧
      List.Forall₂ (fun event line => event.render grammar.names = .ok line)
        machine.events.reverse lines := by
  refine exists_mapM_eq_ok fun event happened => ?_
  obtain ⟨front, back, split⟩ := List.append_of_mem happened
  exact wellFormed.exists_line rules (traverses.tells split)

end Grammar.WellFormed

/-- The events of a parse go through its tree in pre-order, for any table of the grammar's own
alternatives. Whatever the result, the arena holds the tree in the end; no node has two events, and
their nodes are the first ones of the tree in pre-order; and each event is told as it happens, a
nonterminal being expanded by the entry for the lookahead, and a terminal matched. If the parse is
successful, the log has a line for each event and one that says so, and these are all the nodes,
unless an alternative has the end of input. -/
theorem Grammar.parse_visits_preorder {grammar : Grammar} (wellFormed : grammar.WellFormed)
    (firsts : FirstSets) (follows : FollowSets) (strict : Bool) (input : Input)
    {result : ParseResult}
    (parsed : grammar.parse (ParseTable.build grammar firsts follows) strict input = some result) :
    result.tree.Held (.ofEvents grammar.start result.events) ∧
      (result.events.map fun event => event.node.id).Nodup ∧
      result.events.map Event.node <+: result.tree.nodes.map Tree.label ∧
      (∀ front event back, result.events = front ++ event :: back →
        event.Tells grammar (ParseTable.build grammar firsts follows) (input.after front)
          (.ofEvents grammar.start (front ++ [event]))) ∧
      (result.verdict = .success →
        ((∀ s alternative, grammar.HasRule s alternative → Symbol.eof ∉ alternative.symbols) →
          result.events.map Event.node = result.tree.nodes.map Tree.label) ∧
        ∃ lines,
          List.Forall₂ (fun event line => event.render grammar.names = .ok line)
            result.events lines ∧
          result.log grammar.names = .ok (lines ++ ["success"])) := by
  have rules : ∀ {s t alternative},
      (ParseTable.build grammar firsts follows).get? s t = some alternative →
        grammar.HasRule s alternative := fun found => ParseTable.hasRule_of_get?_build found
  obtain ⟨moves, halts⟩ := (parse_eq_some_iff rules).mp parsed
  obtain ⟨last, reaches, stops⟩ := halts.exists_reaches
  have builds := Machine.Builds.of_reaches rules reaches
  have traverses := Machine.Traverses.of_reaches rules reaches
  obtain ⟨order, held⟩ := traverses.preorder builds
  obtain ⟨events, tree, -, -⟩ := stops.shows wellFormed rules
  rw [tree, events]
  refine ⟨held, ?_, order ▸ List.prefix_append _ _, fun front event back => traverses.tells,
    fun success => ⟨fun unmentioned => ?_, ?_⟩⟩
  · have apart := builds.numbered.nodup_iff.mpr List.nodup_range
    rw [List.map_append, List.nodup_append, List.map_map] at apart
    rw [List.map_reverse, List.nodup_reverse]
    exact apart.1
  · have unended := Machine.waiting_ne_eof_of_reaches wellFormed.start_ne_eof rules
      (fun rule => unmentioned _ _ rule) reaches
    rw [order, Machine.waiting_eq_nil unended (stops.of_success success).1, List.append_nil]
  · obtain ⟨lines, rendered, aligned⟩ := wellFormed.exists_lines rules traverses
    refine ⟨lines, aligned, ?_⟩
    rw [ParseResult.log, events, rendered, success]
    rfl

/-- Numbers are given out by alternatives, and not in pre-order. The nonterminal that vanishes has
an event as well. -/
theorem Grammar.parse_visits_preorder_nested :
    ∃ grammar, Grammar.ofText "S : A S b | ; A : a | c A ;" = .ok grammar ∧
      ∃ result, grammar.parse (ParseTable.ofGrammar grammar) true
          ⟨[⟨"c", "1"⟩, ⟨"a", "2"⟩, ⟨"b", "3"⟩], .eof ""⟩ = some result ∧
        result.verdict = .success ∧
        result.events.map (fun event => event.node.id) = [0, 1, 4, 5, 6, 2, 3] ∧
        result.tree.nodes.map Tree.id = [0, 1, 4, 5, 6, 2, 3] ∧
        result.log grammar.names =
          .ok ["S := A S b", "A := c A", "Match c `1'", "A := a", "Match a `2'", "S := ε",
            "Match b `3'", "success"] := by
  obtain ⟨grammar, defined, wellFormed, checked⟩ := Grammar.exists_of_ofText
    "S : A S b | ; A : a | c A ;"
    (fun grammar =>
      (grammar.productions.entries.all fun production =>
        production.2.all fun alternative => decide (Symbol.eof ∉ alternative.symbols)) &&
      (grammar.parse (ParseTable.ofGrammar grammar) true
        ⟨[⟨"c", "1"⟩, ⟨"a", "2"⟩, ⟨"b", "3"⟩], .eof ""⟩).any fun result : ParseResult =>
          result.isSuccess &&
            decide (result.events.map (fun event => event.node.id) = [0, 1, 4, 5, 6, 2, 3] ∧
              (result.events.mapM (Event.render grammar.names)).toOption =
                some ["S := A S b", "A := c A", "Match c `1'", "A := a", "Match a `2'", "S := ε",
                  "Match b `3'"]))
    (by decide +kernel)
  simp only [Bool.and_eq_true, List.all_eq_true, decide_eq_true_eq] at checked
  obtain ⟨entries, ran⟩ := checked
  obtain ⟨result, parsed, ended⟩ := (Option.any_eq_true _ _).mp ran
  rw [Bool.and_eq_true, decide_eq_true_eq] at ended
  obtain ⟨succeeded, ids, rendered⟩ := ended
  have success : result.verdict = .success := by simpa [ParseResult.isSuccess] using succeeded
  obtain ⟨-, -, -, -, whole⟩ := Grammar.parse_visits_preorder wellFormed _ _ true _ parsed
  obtain ⟨order, -⟩ := whole success
  have order := order (by
    rintro s alternative ⟨_, found, member⟩
    exact entries _ (OrderedMap.mem_entries_iff.mpr found) _ member)
  refine ⟨grammar, defined, result, parsed, success, ids, ?_, ?_⟩
  · have same := congrArg (List.map Pending.id) order
    rw [List.map_map, List.map_map] at same
    exact same.symm.trans ids
  · rw [ParseResult.log, toOption_eq_some_iff.mp rendered, success]
    rfl

end Predictive
