import Predictive.Proofs.Descent.Planting
import Predictive.Proofs.Parse.Preorder
import Predictive.Tree.Navigation

/-!
# Navigation in trees that are parsed

A walk through an arena follows the places that the nodes list, and nothing but the tree in the
arena makes it end. In an arena that holds a tree, the walk downwards takes from its stack one tree
after the other and visits each of them in pre-order, and the walk upwards goes through the
ancestors. The links upwards and downwards are written separately, and in another order by each of
the two parsers; but in both the arena holds the tree in the end, so that one node is above another
one exactly if the other one is below it.

## Main definitions

* `Arena.HasParent`, `Arena.Bears` — the parent and the name of a node
* `Arena.Ascends` — the ancestors that are met on the way up
* `Tree.Returned` — the trees of the two parsers, with their arenas
* `Tree.Location.Navigable` — what the walks from a node are to give

## Main results

* `Tree.gather_eq` — a walk downwards is in pre-order
* `Arena.Ascends.climb_eq` — a walk upwards goes through the ancestors
* `Tree.Held.mem_descendants_iff` — what is below a node
* `Grammar.held_of_parse`, `EbnfGrammar.held_of_parse` — the arena of a parse holds its tree
* `Tree.Returned.navigation_agrees` — navigation in the arena of a parse
-/

namespace Predictive

namespace Arena

variable {arena : Arena} {names : NameTable} {name : String} {place id p a : Nat} {slot : Slot}

/-- A node has another one as its parent. -/
def HasParent (arena : Arena) (id p : Nat) : Prop :=
  ∃ slot, arena[id]? = some slot ∧ slot.parent = some p

/-- A node stands for a symbol of the given name. -/
def Bears (arena : Arena) (names : NameTable) (name : String) (id : Nat) : Prop :=
  ∃ slot, arena[id]? = some slot ∧ names.name? slot.symbol = some name

theorem bears_iff (there : arena[id]? = some slot) :
    arena.Bears names name id ↔ slot.isNamed names name = true := by
  simp [Bears, there, Slot.isNamed]

theorem hasParent_iff (there : arena[id]? = some slot) :
    arena.HasParent id p ↔ slot.parent = some p := by
  simp [HasParent, there]

/-! ### Parents and children -/

/-- A node lists another one as its child exactly if it is the parent of the other one. -/
theorem IsTree.hasParent_iff (isTree : arena.IsTree) :
    arena.HasParent id p ↔ arena.Lists p id := by
  constructor
  · rintro ⟨slot, there, up⟩
    have proper : id ≠ 0 := by
      rintro rfl
      obtain ⟨root, first, top⟩ := isTree.root
      rw [there, Option.some.injEq] at first
      subst first
      simp [up] at top
    obtain ⟨q, above, same, found, once⟩ := isTree.parent there proper
    obtain rfl := Option.some.inj (up.symm.trans same)
    exact ⟨above, found, List.count_pos_iff.mp (by omega)⟩
  · exact fun listed => isTree.child listed

/-- One node is above another one exactly if the other one is below it. -/
theorem IsTree.transGen_hasParent_iff (isTree : arena.IsTree) :
    Relation.TransGen arena.HasParent id a ↔ Relation.TransGen arena.Lists a id := by
  have links : arena.HasParent = Function.swap arena.Lists := by
    funext id p
    exact propext isTree.hasParent_iff
  rw [links, Relation.transGen_swap]

/-- What is above a node is its parent, or above its parent. -/
theorem transGen_hasParent_cases (there : arena[id]? = some slot) :
    Relation.TransGen arena.HasParent id a ↔
      ∃ p, slot.parent = some p ∧ (a = p ∨ Relation.TransGen arena.HasParent p a) := by
  rw [Relation.TransGen.head'_iff]
  refine exists_congr fun p => ?_
  rw [hasParent_iff there, Relation.reflTransGen_iff_eq_or_transGen]

/-! ### One step of a walk -/

section

variable {α : Type} {pick : Nat → Slot → Option α} {found : List α} {front : List Nat}

theorem gather_nil : arena.gather pick found [] = some found := by
  rw [gather, repeatM_eq_of_monadTail]
  rfl

theorem gather_concat (there : arena[id]? = some slot) :
    arena.gather pick found (front ++ [id]) =
      arena.gather pick (found ++ (pick id slot).toList) (front ++ slot.children.reverse) := by
  rw [gather, repeatM_eq_of_monadTail, repeatM.body, visitTop, List.getLast?_concat,
    List.dropLast_concat]
  dsimp only
  rw [there]
  rfl

end

variable {test : Slot → Bool}

theorem climb_none : arena.climb test none = some none := by
  rw [climb, repeatM_eq_of_monadTail]
  rfl

theorem climb_some (there : arena[id]? = some slot) :
    arena.climb test (some id) =
      if test slot then some (some id) else arena.climb test slot.parent := by
  rw [climb, repeatM_eq_of_monadTail, repeatM.body, lookAt, there]
  dsimp only [Option.map_some]
  cases test slot with
  | true => rfl
  | false => rfl

/-! ### Upwards -/

/-- The ancestors that are met on the way up from a place. -/
inductive Ascends (arena : Arena) : Option Nat → List Tree → Prop where
  /-- There is nothing above the root. -/
  | top : Ascends arena none []
  /-- The node at the place is met, and then those above it. -/
  | step {above : Tree} {parent : Option Nat} {higher : List Tree}
      (there : arena[above.id]? = some (above.slot parent)) (rest : Ascends arena parent higher) :
      Ascends arena (some above.id) (above :: higher)

namespace Ascends

variable {parent : Option Nat} {ancestors : List Tree} {found : Option Nat}

/-- The first node on the way up that passes a test is the first ancestor that does. -/
theorem climb_eq {own : Tree → Bool} (ascends : arena.Ascends parent ancestors)
    (same : ∀ tree parent, test (tree.slot parent) = own tree) :
    arena.climb test parent = some ((ancestors.find? own).map Tree.id) := by
  induction ascends with
  | top => exact climb_none
  | @step above parent higher there _ ih =>
    rw [climb_some there, same, List.find?_cons]
    cases own above with
    | true => rfl
    | false => exact ih

/-- The node that is found on the way up is the nearest one above that has the name. -/
theorem climb_eq_some_iff (ascends : arena.Ascends slot.parent ancestors)
    (there : arena[id]? = some slot)
    (acyclic : ∀ id, ¬ Relation.TransGen arena.HasParent id id)
    (climbed : arena.climb (Slot.isNamed names name) slot.parent = some found) :
    found = some a ↔ Relation.TransGen arena.HasParent id a ∧ arena.Bears names name a ∧
      ∀ b, Relation.TransGen arena.HasParent id b → Relation.TransGen arena.HasParent b a →
        ¬ arena.Bears names name b := by
  generalize origin : slot.parent = parent at ascends climbed
  induction ascends generalizing id slot with
  | top =>
    rw [climb_none, Option.some.injEq] at climbed
    rw [transGen_hasParent_cases there, origin]
    simp [← climbed]
  | @step above parent higher present _ ih =>
    have up : ∀ {b}, Relation.TransGen arena.HasParent id b ↔
        b = above.id ∨ Relation.TransGen arena.HasParent above.id b := by
      intro b
      rw [transGen_hasParent_cases there, origin]
      simp
    rw [climb_some present] at climbed
    split at climbed
    -- the parent is the nearest one: nothing between the two is above the parent
    · next named =>
      obtain rfl := Option.some.inj climbed
      have bears := (bears_iff present).mpr named
      rw [Option.some.injEq]
      constructor
      · rintro rfl
        refine ⟨up.mpr (Or.inl rfl), bears, fun b higher below => ?_⟩
        rcases up.mp higher with rfl | beyond
        · exact absurd below (acyclic _)
        · exact absurd (beyond.trans below) (acyclic _)
      · rintro ⟨higher, -, nearest⟩
        rcases up.mp higher with rfl | beyond
        · rfl
        · exact absurd bears (nearest _ (up.mpr (Or.inl rfl)) beyond)
    · next unnamed =>
      have other : ¬ arena.Bears names name above.id := fun bears =>
        unnamed ((bears_iff present).mp bears)
      rw [ih present rfl climbed]
      constructor
      · rintro ⟨higher, bears, nearest⟩
        refine ⟨up.mpr (Or.inr higher), bears, fun b between below => ?_⟩
        rcases up.mp between with rfl | beyond
        · exact other
        · exact nearest b beyond below
      · rintro ⟨higher, bears, nearest⟩
        refine ⟨(up.mp higher).resolve_left ?_, bears,
          fun b beyond => nearest b (up.mpr (Or.inr beyond))⟩
        rintro rfl
        exact other bears

end Ascends

end Arena

namespace Tree

variable {arena : Arena} {names : NameTable} {tree item : Tree} {trees : List Tree}
  {parent : Option Nat} {place : Nat}

theorem isIn_iff : tree.IsIn arena parent ↔
    arena[tree.id]? = some (tree.slot parent) ∧
      ∀ child ∈ tree.children, child.IsIn arena (some tree.id) := by
  cases tree
  exact isIn_node

/-! ### Downwards -/

mutual

/-- A walk that takes a tree from its stack visits the tree in pre-order. -/
theorem gather_tree {α : Type} {pick : Nat → Slot → Option α} (front : List Nat) (found : List α) :
    ∀ {parent : Option Nat} {tree : Tree}, tree.IsIn arena parent →
      arena.gather pick found (front ++ [tree.id]) =
        arena.gather pick (found ++ (tree.withParents parent).filterMap fun entry =>
          pick entry.2.id (entry.2.slot entry.1)) front
  | parent, .node id s text children, isIn => by
    obtain ⟨there, below⟩ := isIn_iff.mp isIn
    have stacked : (slot parent (.node id s text children)).children = children.map Tree.id := rfl
    have inner : ∀ child ∈ children, child.IsIn arena (some id) := below
    rw [Arena.gather_concat there, stacked, gather_trees front _ inner, withParents,
      List.filterMap_cons, List.append_assoc]
    cases pick (node id s text children).id (slot parent (.node id s text children)) with
    | none => rfl
    | some value => rfl

theorem gather_trees {α : Type} {pick : Nat → Slot → Option α} (front : List Nat) (found : List α) :
    ∀ {parent : Option Nat} {trees : List Tree}, (∀ tree ∈ trees, tree.IsIn arena parent) →
      arena.gather pick found (front ++ (trees.map Tree.id).reverse) =
        arena.gather pick (found ++ (withParentsAll parent trees).filterMap fun entry =>
          pick entry.2.id (entry.2.slot entry.1)) front
  | parent, [], _ => by simp [withParentsAll]
  | parent, tree :: rest, isIn => by
    rw [List.forall_mem_cons] at isIn
    rw [List.map_cons, List.reverse_cons, ← List.append_assoc, gather_tree _ found isIn.1,
      gather_trees front _ isIn.2, withParentsAll, List.filterMap_append, List.append_assoc]

end

/-- A walk that takes trees from its stack picks from their nodes in pre-order. -/
theorem gather_eq {α : Type} {pick : Nat → Slot → Option α} {own : Tree → Option α}
    (isIn : ∀ tree ∈ trees, tree.IsIn arena parent)
    (same : ∀ item parent, pick item.id (item.slot parent) = own item) :
    arena.gather pick [] (trees.map Tree.id).reverse = some ((nodesOfAll trees).filterMap own) := by
  have walk := @gather_trees arena α pick [] [] parent trees isIn
  rw [List.nil_append, List.nil_append] at walk
  rw [walk, Arena.gather_nil, ← map_snd_withParentsAll parent trees, List.filterMap_map]
  simp only [same]
  rfl

theorem descendantsNamed_eq (isIn : item.IsIn arena parent) (wanted : List String) :
    arena.descendantsNamed names wanted item.id =
      some ((item.descendantsNamed names wanted).map Tree.id) := by
  obtain ⟨there, below⟩ := isIn_iff.mp isIn
  have walk := @gather_eq arena item.children (some item.id) Nat
    (fun id slot => if wanted.any fun name => slot.isNamed names name then some id else none)
    (fun other => if wanted.any fun name => other.isNamed names name then some other.id else none)
    below fun _ _ => rfl
  rw [Arena.descendantsNamed, there, descendantsNamed, descendants, ← List.filterMap_eq_map,
    List.filterMap_filter]
  exact walk

theorem text_eq (isIn : item.IsIn arena parent) (separator : String) :
    arena.text separator item.id = some (item.text separator) := by
  have walk := @gather_eq arena [item] parent String (fun _ slot => slot.text) text?
    (List.forall_mem_singleton.mpr isIn) fun _ _ => rfl
  rw [List.map_singleton, List.reverse_singleton] at walk
  rw [Arena.text, walk, nodesOfAll, nodesOfAll, List.append_nil]
  rfl

/-! ### Paths -/

/-- The node at the end of a path is in the arena, and its ancestors are met on the way up. -/
theorem isIn_of_locateFrom? {path : List Nat} {ancestors : List Tree} {location : Location}
    (isIn : tree.IsIn arena parent) (ascends : arena.Ascends parent ancestors)
    (located : locateFrom? ancestors tree path = some location) :
    ∃ parent, location.node.IsIn arena parent ∧ arena.Ascends parent location.ancestors := by
  induction path generalizing tree parent ancestors with
  | nil =>
    rw [locateFrom?, Option.some.injEq] at located
    subst located
    exact ⟨parent, isIn, ascends⟩
  | cons i path ih =>
    rw [locateFrom?] at located
    obtain ⟨there, below⟩ := isIn_iff.mp isIn
    split at located
    · next child found =>
      exact ih (below child (List.mem_of_getElem? found)) (.step there ascends) located
    · cases located

mutual

/-- A path leads to every node. -/
theorem exists_locateFrom? : ∀ {tree item : Tree}, item ∈ tree.nodes → ∀ ancestors : List Tree,
    ∃ path location, locateFrom? ancestors tree path = some location ∧ location.node = item
  | .node id s text children, item, member, ancestors => by
    rw [nodes, List.mem_cons] at member
    rcases member with rfl | below
    · exact ⟨[], _, rfl, rfl⟩
    · obtain ⟨i, child, found, leads⟩ := exists_locateFrom?_of_mem_nodesOfAll below
      obtain ⟨path, location, located, same⟩ := leads (.node id s text children :: ancestors)
      refine ⟨i :: path, location, ?_, same⟩
      rw [locateFrom?, Tree.children, found]
      exact located

theorem exists_locateFrom?_of_mem_nodesOfAll : ∀ {trees : List Tree} {item : Tree},
    item ∈ nodesOfAll trees → ∃ (i : Nat) (child : Tree), trees[i]? = some child ∧
      ∀ ancestors : List Tree, ∃ path location,
        locateFrom? ancestors child path = some location ∧ location.node = item
  | [], _, member => by cases member
  | tree :: rest, item, member => by
    rw [nodesOfAll, List.mem_append] at member
    rcases member with here | later
    · exact ⟨0, tree, rfl, exists_locateFrom? here⟩
    · obtain ⟨i, child, found, leads⟩ := exists_locateFrom?_of_mem_nodesOfAll later
      exact ⟨i + 1, child, found, leads⟩

end

mutual

/-- The nodes below a node are nodes of the tree, in their order. -/
theorem sublist_nodes : ∀ {tree item : Tree}, item ∈ tree.nodes → item.nodes.Sublist tree.nodes
  | .node id s text children, item, member => by
    rw [nodes, List.mem_cons] at member
    rcases member with rfl | below
    · exact .refl _
    · rw [nodes]
      exact (sublist_nodesOfAll_nodes below).cons _

theorem sublist_nodesOfAll_nodes : ∀ {trees : List Tree} {item : Tree}, item ∈ nodesOfAll trees →
    item.nodes.Sublist (nodesOfAll trees)
  | [], _, member => by cases member
  | tree :: rest, item, member => by
    rw [nodesOfAll] at member ⊢
    rcases List.mem_append.mp member with here | later
    · exact (sublist_nodes here).trans (List.sublist_append_left _ _)
    · exact (sublist_nodesOfAll_nodes later).trans (List.sublist_append_right _ _)

end

theorem nodes_eq_cons (tree : Tree) : tree.nodes = tree :: tree.descendants := by
  cases tree
  rfl

theorem mem_nodes_of_locateFrom? {path : List Nat} {ancestors : List Tree} {location : Location}
    (located : locateFrom? ancestors tree path = some location) : location.node ∈ tree.nodes := by
  induction path generalizing tree ancestors with
  | nil =>
    rw [locateFrom?, Option.some.injEq] at located
    exact located ▸ mem_nodes_self
  | cons i path ih =>
    rw [locateFrom?] at located
    split at located
    · next child found =>
      have inside : child ∈ tree.nodes := by
        rw [nodes_eq_cons]
        exact List.mem_cons_of_mem _ ((sublist_nodesOfAll _).subset (List.mem_of_getElem? found))
      exact (sublist_nodes inside).subset (ih located)
    · cases located

namespace Held

variable (held : tree.Held arena)

include held

theorem isIn : tree.IsIn arena none := fun _ listed => held.getElem? listed

/-- The nodes below a node have numbers of their own. -/
theorem nodup_nodes (member : item ∈ tree.nodes) : (item.nodes.map Tree.id).Nodup :=
  ((sublist_nodes member).map Tree.id).nodup (held.numbered.nodup_iff.mpr List.nodup_range)

/-- What is below a node can be reached from it by going from parents to children. -/
theorem mem_descendants_iff (member : item ∈ tree.nodes) :
    place ∈ item.descendants.map Tree.id ↔ Relation.TransGen arena.Lists item.id place := by
  have inside : ∀ other ∈ item.nodes, other ∈ tree.nodes := fun _ listed =>
    (sublist_nodes member).subset listed
  have down : ∀ above ∈ item.nodes, ∀ child ∈ above.children, arena.Lists above.id child.id :=
    fun above listed _ => held.lists (inside above listed)
  rw [nodes_eq_cons, List.forall_mem_cons] at down
  constructor
  · intro listed
    obtain ⟨below, found, rfl⟩ := List.mem_map.mp listed
    obtain ⟨top, child, reaches⟩ := reaches_of_mem_nodesOfAll down.2 found
    exact .head' (down.1 top child) reaches
  · -- the nodes below are closed under going to a child
    have closed : ∀ above ∈ item.nodes, ∀ {child}, arena.Lists above.id child →
        child ∈ item.descendants.map Tree.id := by
      rintro above listed child ⟨slot, there, entry⟩
      obtain ⟨parent, found⟩ := exists_parent none (inside above listed)
      rw [held.getElem? found] at there
      obtain rfl := Option.some.inj there
      obtain ⟨below, own, rfl⟩ := List.mem_map.mp entry
      refine List.mem_map_of_mem ?_
      rw [nodes_eq_cons] at listed
      rcases List.mem_cons.mp listed with rfl | strict
      · exact (sublist_nodesOfAll _).subset own
      · exact (sublist_nodesOfAll_of_mem strict).subset own
    intro reaches
    induction reaches with
    | single first => exact closed item mem_nodes_self first
    | tail _ last ih =>
      obtain ⟨above, strict, rfl⟩ := List.mem_map.mp ih
      refine closed above ?_ last
      rw [nodes_eq_cons]
      exact List.mem_cons_of_mem _ strict

/-- No node is below itself. -/
theorem acyclic (place : Nat) : ¬ Relation.TransGen arena.HasParent place place := by
  intro cycle
  obtain ⟨p, ⟨slot, there, -⟩, -⟩ := Relation.TransGen.head'_iff.mp cycle
  obtain ⟨-, item, -, member, rfl, -⟩ := held.exists_item there
  rw [held.isTree.transGen_hasParent_iff, ← held.mem_descendants_iff member] at cycle
  have apart := held.nodup_nodes member
  rw [nodes_eq_cons, List.map_cons, List.nodup_cons] at apart
  exact apart.1 cycle

end Held

end Tree

/-! ### The arenas of the parsers -/

/-- A grammar whose productions are the entries of a table. The machine reads the table, and nothing
else of the productions. -/
def Grammar.following (grammar : Grammar) (table : ParseTable Alternative) : Grammar :=
  { grammar with
    productions :=
      ⟨table.rows.entries.map fun row => (row.1, row.2.entries.map Prod.snd), by
        rw [List.map_map]
        exact table.rows.nodup⟩ }

/-- A result keeps the events and the tree of the state in which the machine stopped. -/
theorem Machine.Stops.keeps {grammar : Grammar} {table : ParseTable Alternative} {strict : Bool}
    {machine : Machine} {result : ParseResult} (stops : Stops grammar table strict machine result) :
    result.events = machine.events.reverse ∧ result.tree = machine.tree grammar.start := by
  cases stops with
  | lexicalError => exact ⟨rfl, rfl⟩
  | finish =>
    unfold Machine.finish
    split
    · exact ⟨rfl, rfl⟩
    · exact ⟨rfl, rfl⟩
  | unexpected => exact ⟨rfl, rfl⟩
  | noEntry => exact ⟨rfl, rfl⟩
  | fault => exact ⟨rfl, rfl⟩

namespace Grammar

variable {grammar : Grammar} {table : ParseTable Alternative} {strict : Bool} {input : Input}
  {result : ParseResult} {s t : Symbol} {alternative : Alternative}

theorem hasRule_following (found : table.get? s t = some alternative) :
    (grammar.following table).HasRule s alternative := by
  obtain ⟨row, there, entry⟩ := Option.bind_eq_some_iff.mp found
  refine ⟨row.entries.map Prod.snd, ?_, ?_⟩
  · exact OrderedMap.mem_entries_iff.mp
      (List.mem_map_of_mem (f := fun row => (row.1, row.2.entries.map Prod.snd))
        (OrderedMap.mem_entries_iff.mpr there))
  · exact List.mem_map_of_mem (OrderedMap.mem_entries_iff.mpr entry)

theorem run_following (fuel : Nat) (machine : Machine) :
    machine.run (grammar.following table) table strict fuel =
      machine.run grammar table strict fuel := by
  induction fuel generalizing machine with
  | zero => rfl
  | succ fuel ih =>
    rw [Machine.run, Machine.run]
    simp only [ih]
    rfl

/-- The arena of a parse holds its tree, whatever the table. -/
theorem held_of_parse (parsed : grammar.parse table strict input = some result) :
    result.tree.Held (.ofEvents grammar.start result.events) := by
  rw [parse, ← run_following, Machine.run_eq_some_iff] at parsed
  obtain ⟨moves, -, halts⟩ := parsed
  obtain ⟨last, reaches, stops⟩ := halts.exists_reaches
  have builds := Machine.Builds.of_reaches hasRule_following reaches
  have traverses := Machine.Traverses.of_reaches hasRule_following reaches
  obtain ⟨-, held⟩ := traverses.preorder builds
  obtain ⟨events, tree⟩ := stops.keeps
  rw [events, tree]
  exact held

end Grammar

/-- The arena of recursive descent holds the tree of an accepted input. -/
theorem EbnfGrammar.held_of_parse {source : EbnfGrammar} {input : Input} {tree : Tree} {size : Nat}
    (parsed : source.parse input = some (.ok (tree, size))) : tree.Held tree.arena := by
  obtain ⟨expr, stream, forest, after, failures, -, -, descends, -, rfl⟩ := parse_cases parsed
  exact (descends.numbered rfl).held

namespace Tree

/-- The trees that the parsers return, each with the arena in which it was made: those of predictive
parses, whatever the table and the verdict, and those of recursive descent. -/
inductive Returned : Tree → Arena → Prop where
  /-- The tree of a predictive parse, which is partial if the parse failed. -/
  | predictive {grammar : Grammar} {table : ParseTable Alternative} {strict : Bool} {input : Input}
      {result : ParseResult} (parsed : grammar.parse table strict input = some result) :
      Returned result.tree (.ofEvents grammar.start result.events)
  /-- The tree of an input that recursive descent accepts. -/
  | descent {source : EbnfGrammar} {input : Input} {tree : Tree} {size : Nat} {arena : Arena}
      (parsed : source.parse input = some (.ok (tree, size)))
      (made : source.parseInto input = some (.ok arena)) : Returned tree arena

theorem Returned.held {tree : Tree} {arena : Arena} (returned : tree.Returned arena) :
    tree.Held arena := by
  cases returned with
  | predictive parsed => exact Grammar.held_of_parse parsed
  | descent parsed made =>
    rw [EbnfGrammar.parseInto_eq, parsed] at made
    cases made
    exact EbnfGrammar.held_of_parse parsed

/-- Navigation in an arena from a node of a tree: what it is to give, in the arena and in the
tree. -/
structure Location.Navigable (location : Location) (arena : Arena) (names : NameTable) : Prop where
  /-- The walk downwards ends with the nodes strictly below that have one of the names, each once
  and in pre-order. -/
  descendants : ∀ wanted, ∃ found,
    arena.descendantsNamed names wanted location.node.id = some found ∧
      found = (location.node.descendantsNamed names wanted).map Tree.id ∧ found.Nodup ∧
      ∀ place, place ∈ found ↔ Relation.TransGen arena.Lists location.node.id place ∧
        ∃ name ∈ wanted, arena.Bears names name place
  /-- The text is that of the node and the nodes below it in pre-order. -/
  text : ∀ separator,
    arena.text separator location.node.id =
      some (separator.intercalate (location.node.nodes.filterMap text?))
  /-- The walk upwards ends at the nearest node strictly above that has the name, if there is
  one. -/
  ancestor : ∀ name, ∃ found,
    arena.ancestorNamed names name location.node.id = some found ∧
      found = (location.ancestorNamed? names name).map Tree.id ∧
      ∀ place, found = some place ↔
        Relation.TransGen arena.HasParent location.node.id place ∧ arena.Bears names name place ∧
          ∀ between, Relation.TransGen arena.HasParent location.node.id between →
            Relation.TransGen arena.HasParent between place → ¬ arena.Bears names name between

namespace Held

variable {arena : Arena} {names : NameTable} {tree item : Tree} {location : Location}
  {path : List Nat} {place : Nat} (held : tree.Held arena)

include held

/-- A node of the tree has the names that its place has. -/
theorem bears_iff (member : item ∈ tree.nodes) {name : String} :
    arena.Bears names name item.id ↔ item.isNamed names name = true := by
  obtain ⟨parent, listed⟩ := exists_parent none member
  exact Arena.bears_iff (held.getElem? listed)

theorem mem_descendantsNamed_iff (member : item ∈ tree.nodes) {wanted : List String} :
    place ∈ (item.descendantsNamed names wanted).map Tree.id ↔
      Relation.TransGen arena.Lists item.id place ∧
        ∃ name ∈ wanted, arena.Bears names name place := by
  have inside : ∀ below ∈ item.descendants, below ∈ tree.nodes := fun below listed =>
    (sublist_nodes member).subset (nodes_eq_cons item ▸ List.mem_cons_of_mem _ listed)
  rw [← held.mem_descendants_iff member, List.mem_map, List.mem_map]
  constructor
  · rintro ⟨below, found, rfl⟩
    obtain ⟨listed, named⟩ := List.mem_filter.mp found
    obtain ⟨name, asked, same⟩ := List.any_eq_true.mp named
    exact ⟨⟨below, listed, rfl⟩, name, asked, (held.bears_iff (inside below listed)).mpr same⟩
  · rintro ⟨⟨below, listed, rfl⟩, name, asked, bears⟩
    refine ⟨below, List.mem_filter.mpr ⟨listed, List.any_eq_true.mpr ⟨name, asked, ?_⟩⟩, rfl⟩
    exact (held.bears_iff (inside below listed)).mp bears

theorem navigable (located : tree.locate? path = some location) (names : NameTable) :
    location.Navigable arena names := by
  have member := mem_nodes_of_locateFrom? located
  obtain ⟨parent, isIn, ascends⟩ := isIn_of_locateFrom? held.isIn .top located
  refine ⟨fun wanted => ⟨_, descendantsNamed_eq isIn wanted, rfl, ?_,
    fun place => held.mem_descendantsNamed_iff member⟩, text_eq isIn, fun name => ?_⟩
  · have apart := held.nodup_nodes member
    rw [nodes_eq_cons, List.map_cons, List.nodup_cons] at apart
    exact (List.filter_sublist.map Tree.id).nodup apart.2
  · have there := (isIn_iff.mp isIn).1
    have climbed : arena.climb (Slot.isNamed names name) parent =
        some ((location.ancestors.find? (isNamed names name)).map Tree.id) :=
      ascends.climb_eq fun _ _ => rfl
    refine ⟨_, ?_, rfl, fun place => ?_⟩
    · rw [Arena.ancestorNamed, there]
      exact climbed
    · exact ascends.climb_eq_some_iff there held.acyclic climbed

/-- A path leads to every place. -/
theorem exists_locate? (inside : place < arena.length) :
    ∃ path location, tree.locate? path = some location ∧ location.node.id = place := by
  obtain ⟨-, item, -, member, rfl, -⟩ := held.exists_item (List.getElem?_eq_getElem inside)
  obtain ⟨path, location, located, rfl⟩ := exists_locateFrom? member []
  exact ⟨path, location, located, rfl⟩

end Held

/-- Navigation agrees with the tree in the arena of every parse, whether it succeeds or fails. A
path of the tree leads to every place, and from each of them the walks downwards and upwards end and
give what the tree has there. One node is met on the way up from another one exactly if that one is
met on the way down. -/
theorem Returned.navigation_agrees {tree : Tree} {arena : Arena} (returned : tree.Returned arena)
    (names : NameTable) :
    (∀ place < arena.length, ∃ path location, tree.locate? path = some location ∧
      location.node.id = place) ∧
    (∀ path location, tree.locate? path = some location → location.Navigable arena names) ∧
    ∀ above below, Relation.TransGen arena.HasParent below above ↔
      Relation.TransGen arena.Lists above below :=
  ⟨fun _ => returned.held.exists_locate?, fun _ _ located => returned.held.navigable located names,
    fun _ _ => returned.held.isTree.transGen_hasParent_iff⟩

/-- A predictive parse that fails at the end of its input, and recursive descent with the
productions `S := (T b)? T? c` and `T := a`, where a node is made after the one below it. -/
theorem Returned.navigation_agrees_both :
    (∃ grammar, Grammar.ofText "S : A S b | ; A : a | c A ;" = .ok grammar ∧
      ∃ result, grammar.parse (ParseTable.ofGrammar grammar) true
          ⟨[⟨"c", "1"⟩, ⟨"a", "2"⟩], .eof ""⟩ = some result ∧ result.isSuccess = false ∧
        let arena := Arena.ofEvents grammar.start result.events
        arena.descendantsNamed grammar.names ["A", "b"] 0 = some [1, 5, 3] ∧
          arena.text "+" 0 = some "1+2" ∧ arena.ancestorNamed grammar.names "A" 6 = some (some 5)) ∧
    ∃ source, EbnfDefinition.ofSteps [.terminal "a", .terminal "b", .terminal "c",
        .nonterminal "S", .nonterminal "T",
        .rule ⟨5⟩ (.chain [.optional (.chain [.nonterminal ⟨6⟩, .terminal ⟨3⟩]),
          .optional (.nonterminal ⟨6⟩), .terminal ⟨4⟩]),
        .rule ⟨6⟩ (.terminal ⟨2⟩)] = .ok source ∧
      ∃ arena, source.parseInto ⟨[⟨"a", "1"⟩, ⟨"a", "2"⟩, ⟨"c", "3"⟩], .eof ""⟩ =
          some (.ok arena) ∧
        arena.descendantsNamed source.names ["a", "T"] 0 = some [2, 1] ∧
          arena.text "+" 0 = some "2+3" ∧ arena.ancestorNamed source.names "c" 1 = some none := by
  constructor
  · obtain ⟨grammar, defined, -, checked⟩ := Grammar.exists_of_ofText "S : A S b | ; A : a | c A ;"
      (fun grammar => (grammar.parse (ParseTable.ofGrammar grammar) true
        ⟨[⟨"c", "1"⟩, ⟨"a", "2"⟩], .eof ""⟩).any fun result : ParseResult =>
          decide (result.isSuccess = false ∧
            (result.tree.descendantsNamed grammar.names ["A", "b"]).map Tree.id = [1, 5, 3] ∧
            "+".intercalate (result.tree.nodes.filterMap text?) = "1+2") &&
          (result.tree.locate? [0, 1, 0]).any fun location : Location =>
            decide (location.node.id = 6 ∧
              (location.ancestorNamed? grammar.names "A").map Tree.id = some 5))
      (by decide +kernel)
    obtain ⟨result, parsed, ended⟩ := (Option.any_eq_true _ _).mp checked
    rw [Bool.and_eq_true, decide_eq_true_eq] at ended
    obtain ⟨⟨failed, below, text⟩, above⟩ := ended
    obtain ⟨location, located, ended⟩ := (Option.any_eq_true _ _).mp above
    obtain ⟨place, nearest⟩ := of_decide_eq_true ended
    obtain ⟨-, navigable, -⟩ := navigation_agrees (.predictive parsed) grammar.names
    have root : result.tree.id = 0 := (Returned.predictive parsed).held.root
    have atRoot := navigable [] ⟨[], result.tree⟩ rfl
    obtain ⟨_, down, rfl, -⟩ := atRoot.descendants ["A", "b"]
    have joined := atRoot.text "+"
    obtain ⟨_, up, rfl, -⟩ := (navigable _ location located).ancestor "A"
    dsimp only at down joined
    rw [root, below] at down
    rw [root, text] at joined
    rw [place, nearest] at up
    exact ⟨grammar, defined, result, parsed, failed, down, joined, up⟩
  · obtain ⟨source, defined, -, checked⟩ := EbnfDefinition.exists_of_ofSteps
      [.terminal "a", .terminal "b", .terminal "c", .nonterminal "S", .nonterminal "T",
        .rule ⟨5⟩ (.chain [.optional (.chain [.nonterminal ⟨6⟩, .terminal ⟨3⟩]),
          .optional (.nonterminal ⟨6⟩), .terminal ⟨4⟩]),
        .rule ⟨6⟩ (.terminal ⟨2⟩)]
      (fun source => (source.parse ⟨[⟨"a", "1"⟩, ⟨"a", "2"⟩, ⟨"c", "3"⟩], .eof ""⟩).any
        fun outcome => outcome.toOption.any fun result : Tree × Nat =>
          decide ((result.1.descendantsNamed source.names ["a", "T"]).map Tree.id = [2, 1] ∧
            "+".intercalate (result.1.nodes.filterMap text?) = "2+3") &&
          (result.1.locate? [0, 0]).any fun location : Location => decide (location.node.id = 1 ∧
            (location.ancestorNamed? source.names "c").map Tree.id = none))
      (by decide +kernel)
    obtain ⟨outcome, parsed, accepted⟩ := (Option.any_eq_true _ _).mp checked
    obtain ⟨⟨tree, size⟩, same, ended⟩ := (Option.any_eq_true _ _).mp accepted
    rw [toOption_eq_some_iff.mp same] at parsed
    rw [Bool.and_eq_true, decide_eq_true_eq] at ended
    obtain ⟨⟨below, text⟩, above⟩ := ended
    obtain ⟨location, located, ended⟩ := (Option.any_eq_true _ _).mp above
    obtain ⟨place, nearest⟩ := of_decide_eq_true ended
    have made : source.parseInto ⟨[⟨"a", "1"⟩, ⟨"a", "2"⟩, ⟨"c", "3"⟩], .eof ""⟩ =
        some (.ok tree.arena) := by
      rw [EbnfGrammar.parseInto_eq, parsed]
      rfl
    obtain ⟨-, navigable, -⟩ := navigation_agrees (.descent parsed made) source.names
    have root : tree.id = 0 := (Returned.descent parsed made).held.root
    have atRoot := navigable [] ⟨[], tree⟩ rfl
    obtain ⟨_, down, rfl, -⟩ := atRoot.descendants ["a", "T"]
    have joined := atRoot.text "+"
    obtain ⟨_, up, rfl, -⟩ := (navigable _ location located).ancestor "c"
    dsimp only at down joined below text
    rw [root, below] at down
    rw [root, text] at joined
    rw [place, nearest] at up
    exact ⟨source, defined, tree.arena, made, down, joined, up⟩

end Tree

end Predictive
