import Predictive.Proofs.Parse.Bound
import Predictive.Proofs.Parse.Spelling

/-!
# What the machine looks like between two steps

The waiting nodes stand for two stacks: that of their symbols, with the end of input at the bottom,
and that of their numbers. The tree is put together from the events, so that nothing but the
events ties the waiting nodes to it. After every step they agree: each waiting node is a leaf of the
tree that carries its symbol, every other node was matched by a token or expanded by one of its
alternatives, and the leaves from left to right are the tokens matched so far and then what is
waiting. None of this depends on the table being free of conflicts.

## Main definitions

* `Tree.frontier` — the leaves of a tree some of whose nodes are waiting
* `Grammar.Grown` — a partial derivation tree
* `Machine.stack`, `Machine.nodeStack`, `Machine.shifted` — the stacks, and the tokens matched
* `Grammar.Snapshot` — two stacks and a tree agree
* `Machine.Builds` — what every move preserves

## Main results

* `Grammar.Grown.spells` — the leaves of a partial derivation tree
* `Machine.Builds.of_moves`, `Machine.Builds.of_reaches` — one move, and any number of moves
* `Machine.Builds.snapshot` — the stacks and the tree agree between two steps
* `Machine.Stops.shows` — what a result shows of the last step
-/

namespace Predictive

/-! ### Partial trees -/

namespace Tree

variable {waiting : List Nat} {front back : List Tree}

/-- The root of a tree, as a node that could be waiting. -/
def label (tree : Tree) : Pending := ⟨tree.id, tree.symbol⟩

mutual

/-- The leaves of a tree from left to right, each with the text that it matched, if any. A node
without a text and without children is a leaf if it is waiting; otherwise it was expanded by the
empty alternative. -/
def frontier (waiting : List Nat) : Tree → List (Symbol × Option String)
  | .node _ s (some text) _ => [(s, some text)]
  | .node id s none children =>
    if id ∈ waiting then [(s, none)] else frontierOfAll waiting children

/-- The leaves of a list of trees from left to right. -/
def frontierOfAll (waiting : List Nat) : List Tree → List (Symbol × Option String)
  | [] => []
  | tree :: rest => tree.frontier waiting ++ frontierOfAll waiting rest

end

theorem frontierOfAll_append :
    frontierOfAll waiting (front ++ back) =
      frontierOfAll waiting front ++ frontierOfAll waiting back := by
  induction front with
  | nil => rfl
  | cons tree rest ih => rw [List.cons_append, frontierOfAll, frontierOfAll, ih, List.append_assoc]

/-- Nodes to which nothing happened are their own trees. -/
theorem nodesOfAll_toTree (nodes : List Pending) :
    nodesOfAll (nodes.map Pending.toTree) = nodes.map Pending.toTree := by
  induction nodes with
  | nil => rfl
  | cons node rest ih =>
    rw [List.map_cons, nodesOfAll, ih]
    rfl

/-- The leaves of nodes that are waiting are the nodes. -/
theorem frontierOfAll_toTree {nodes : List Pending} (listed : ∀ node ∈ nodes, node.id ∈ waiting) :
    frontierOfAll waiting (nodes.map Pending.toTree) =
      nodes.map fun node => (node.symbol, none) := by
  induction nodes with
  | nil => rfl
  | cons node rest ih =>
    rw [List.forall_mem_cons] at listed
    rw [List.map_cons, frontierOfAll, ih listed.2]
    simp [Pending.toTree, leaf, frontier, listed.1]

end Tree

namespace Grammar

variable {grammar : Grammar} {waiting : List Nat} {tree : Tree}

/-- A partial derivation tree: a node is waiting, or it was matched by a token, or it was expanded
by one of its alternatives. -/
inductive Grown (grammar : Grammar) (waiting : List Nat) : Tree → Prop where
  /-- Nothing happened to the node yet. -/
  | pending {id : Nat} (s : Symbol) (listed : id ∈ waiting) : Grown grammar waiting (.leaf id s)
  /-- The node is a terminal that was matched. -/
  | matched {id : Nat} {s : Symbol} (text : String) (unlisted : id ∉ waiting)
      (terminal : grammar.isTerminal s = true) : Grown grammar waiting (.node id s (some text) [])
  /-- The children of the node spell one of its alternatives. -/
  | expanded {id : Nat} {s : Symbol} {alternative : Alternative} {children : List Tree}
      (unlisted : id ∉ waiting) (rule : grammar.HasRule s alternative)
      (spelled : children.map Tree.symbol = alternative.symbols)
      (inner : ∀ child ∈ children, Grown grammar waiting child) :
      Grown grammar waiting (.node id s none children)

/-- A partial derivation tree spells its leaves. -/
theorem Grown.spells (grown : grammar.Grown waiting tree) :
    grammar.Spells [tree] (tree.frontier waiting) := by
  induction grown with
  | @pending id s listed =>
    have waits : (Tree.leaf id s).frontier waiting = [(s, none)] := by
      simp [Tree.leaf, Tree.frontier, listed]
    rw [waits]
    exact .pending id s .nil
  | matched text _ terminal =>
    rw [Tree.frontier]
    exact .matched _ text terminal .nil
  | @expanded id s alternative children unlisted rule spelled grown ih =>
    have inner : grammar.Spells children (Tree.frontierOfAll waiting children) := by
      clear spelled
      induction children with
      | nil => exact .nil
      | cons child rest ihRest =>
        rw [List.forall_mem_cons] at ih
        exact ih.1.append (ihRest (fun child member => grown child (.tail _ member)) ih.2)
    rw [Tree.frontier, if_neg unlisted]
    simpa using Spells.expanded id rule spelled inner .nil

/-- The texts of a partial derivation tree are those of its leaves. -/
theorem Grown.texts (grown : grammar.Grown waiting tree) :
    tree.texts = (tree.frontier waiting).filterMap Prod.snd := by
  simpa using grown.spells.texts

end Grammar

/-! ### The stacks -/

/-- The terminal and the token of an event that matched one. -/
def Event.shifted? : Event → Option (Symbol × Token)
  | .expand _ _ _ _ => none
  | .shift node token => some (node.symbol, token)

namespace Machine

variable {grammar : Grammar} {table : ParseTable Alternative} {strict : Bool}
  {machine next : Machine} {result : ParseResult} {tokens : List Token}

/-- The symbols of the waiting nodes, the leftmost on top, above the end of input. -/
def stack (machine : Machine) : List Symbol :=
  .eof :: (machine.waiting.map Pending.symbol).reverse

/-- The numbers of the waiting nodes, the leftmost on top. -/
def nodeStack (machine : Machine) : List Nat := (machine.waiting.map Pending.id).reverse

/-- The tokens matched so far, each with the terminal that it was read as. -/
def shifted (machine : Machine) : List (Symbol × Token) :=
  machine.events.reverse.filterMap Event.shifted?

/-- The states that the machine can come to. -/
def Reaches (grammar : Grammar) (table : ParseTable Alternative) (input : Input) :
    Machine → Prop :=
  Relation.ReflTransGen (Moves grammar table) (initial grammar.start input)

end Machine

/-- Two stacks and a tree agree. -/
structure Grammar.Snapshot (grammar : Grammar) (stack : List Symbol) (nodes : List Nat)
    (tree : Tree) (size : Nat) (shifted : List (Symbol × Token)) : Prop where
  /-- The end of input is at the bottom of the stack. -/
  bottom : stack[0]? = some .eof
  /-- Above the bottom there is a symbol for each waiting node. -/
  length_eq : stack.length = nodes.length + 1
  /-- A waiting node is in the tree and carries the symbol at its place. -/
  carries : ∀ i id, nodes[i]? = some id →
    ∃ node ∈ tree.nodes, node.id = id ∧ stack[i + 1]? = some node.symbol
  /-- The nodes of the tree are numbered without gaps and repetitions. -/
  numbered : (tree.nodes.map Tree.id).Perm (List.range size)
  /-- The start symbol is at the root. -/
  root : tree.symbol = grammar.start
  /-- Every node is waiting, matched, or expanded by one of its alternatives. -/
  grown : grammar.Grown nodes tree
  /-- The leaves are the matched tokens, and then the stack from its top. -/
  frontier_eq : tree.frontier nodes =
    shifted.map (fun leaf => (leaf.1, some leaf.2.text)) ++
      (stack.drop 1).reverse.map fun s => (s, none)

namespace Grammar.Snapshot

variable {grammar : Grammar} {stack : List Symbol} {nodes : List Nat} {tree : Tree} {size : Nat}
  {shifted : List (Symbol × Token)}

/-- A node is waiting as long as the top of the stack is not the end of input. -/
theorem nodes_ne_nil (snapshot : grammar.Snapshot stack nodes tree size shifted)
    (unfinished : stack.getLast? ≠ some .eof) : nodes ≠ [] := by
  rintro rfl
  obtain ⟨s, rfl⟩ := List.length_eq_one_iff.mp snapshot.length_eq
  exact unfinished snapshot.bottom

/-- The text of the tree is that of the matched tokens. -/
theorem text_eq (snapshot : grammar.Snapshot stack nodes tree size shifted) (separator : String) :
    tree.text separator = separator.intercalate (shifted.map fun leaf => leaf.2.text) := by
  have matched : (shifted.map fun leaf => (leaf.1, some leaf.2.text)).filterMap Prod.snd =
      shifted.map fun leaf => leaf.2.text := by
    simp [List.filterMap_map]
  have unmatched : ((stack.drop 1).reverse.map fun s => (s, none)).filterMap Prod.snd =
      ([] : List String) := by
    rw [List.filterMap_map]
    exact List.filterMap_eq_nil_iff.mpr fun _ _ => rfl
  rw [Tree.text, snapshot.grown.texts, snapshot.frontier_eq, List.filterMap_append, matched,
    unmatched, List.append_nil]

end Grammar.Snapshot

/-! ### What every move preserves -/

namespace Machine

variable {grammar : Grammar} {table : ParseTable Alternative} {strict : Bool} {input : Input}
  {machine next : Machine} {result : ParseResult} {tokens : List Token}

/-- What the events put together from trees for the waiting nodes: one tree, whose nodes are those
of the events and of the given trees. -/
structure Builds (grammar : Grammar) (tokens : List Token) (machine : Machine) : Prop where
  /-- The tokens are those matched so far and those that are left. -/
  consumed : tokens = machine.shifted.map Prod.snd ++ machine.input.tokens
  /-- A matched token is read as the terminal that it matched. -/
  read : ∀ leaf ∈ machine.shifted, grammar.terminalOf? leaf.2 = some leaf.1
  /-- The nodes of the events and the waiting ones are numbered without gaps and repetitions. -/
  numbered : ((machine.events.map Event.node ++ machine.waiting).map Pending.id).Perm
    (List.range machine.size)
  /-- The given trees become one tree with the start symbol at its root. -/
  assembled : ∀ trees : List Tree, trees.map Tree.label = machine.waiting →
    ∃ tree, machine.events.foldl (fun trees event => event.assemble trees) trees = [tree] ∧
      tree.symbol = grammar.start ∧
      (tree.nodes.map Tree.label).Perm
        (machine.events.map Event.node ++ (Tree.nodesOfAll trees).map Tree.label) ∧
      ∀ waiting : List Nat, (∀ event ∈ machine.events, event.node.id ∉ waiting) →
        (∀ given ∈ trees, grammar.Grown waiting given) →
        grammar.Grown waiting tree ∧
          tree.frontier waiting =
            machine.shifted.map (fun leaf => (leaf.1, some leaf.2.text)) ++
              Tree.frontierOfAll waiting trees

theorem builds_initial (grammar : Grammar) (input : Input) :
    Builds grammar input.tokens (initial grammar.start input) where
  consumed := rfl
  read := fun _ listed => absurd listed List.not_mem_nil
  numbered := .refl _
  assembled := by
    intro trees same
    obtain ⟨tree, rfl, root⟩ := List.map_eq_singleton_iff.mp same
    refine ⟨tree, rfl, congrArg Pending.symbol root, ?_, fun waiting _ grown => ⟨?_, ?_⟩⟩
    · simp [initial, Tree.nodesOfAll]
    · exact grown tree List.mem_cons_self
    · simp [shifted, initial, Tree.frontierOfAll]

theorem shifted_shift {node : Pending} {rest : List Pending} {token : Token} :
    (machine.shift node rest token).shifted = machine.shifted ++ [(node.symbol, token)] := by
  simp [shifted, Machine.shift, Event.shifted?]

theorem shifted_expand {node : Pending} {rest : List Pending} {s : Symbol}
    {alternative : Alternative} :
    (machine.expand node rest s alternative).shifted = machine.shifted := by
  simp [shifted, Machine.expand, Event.shifted?]

/-- New nodes are numbered on from the old ones. -/
theorem map_id_number (first : Nat) (symbols : List Symbol) :
    (number first symbols).map Pending.id = List.range' first symbols.length := by
  induction symbols generalizing first with
  | nil => rfl
  | cons s rest ih => rw [number, List.map_cons, ih, List.length_cons, List.range'_succ]

theorem length_number (first : Nat) (symbols : List Symbol) :
    (number first symbols).length = symbols.length := by
  have symbols_eq := congrArg List.length (map_symbol_number first symbols)
  rwa [List.length_map] at symbols_eq

theorem Builds.shift {node : Pending} {rest : List Pending} {name : String} {token : Token}
    (builds : Builds grammar tokens machine) (waiting : machine.waiting = node :: rest)
    (proper : node.symbol ≠ .eof)
    (ahead : grammar.lookahead machine.input = .ok (name, some node.symbol, some token)) :
    Builds grammar tokens (machine.shift node rest token) := by
  obtain ⟨others, input, same⟩ : ∃ others, machine.input.tokens = token :: others ∧
      grammar.terminalOf? token = some node.symbol := by
    rcases Grammar.lookahead_cases ahead with
      ⟨first, others, input, -, same, there⟩ | ⟨-, -, -, ends, -⟩
    · obtain rfl := Option.some.inj there
      exact ⟨others, input, same.symm⟩
    · exact absurd (Option.some.inj ends) proper
  have terminal := (Grammar.terminalOf?_eq_some_iff.mp same).2
  constructor
  · rw [shifted_shift, builds.consumed, input]
    simp [Machine.shift, input]
  · rw [shifted_shift, List.forall_mem_append, List.forall_mem_singleton]
    exact ⟨builds.read, same⟩
  · refine List.Perm.trans ?_ builds.numbered
    rw [waiting]
    exact (List.perm_middle.symm).map Pending.id
  -- the node becomes a leaf with the text of the token, in front of the given trees
  · intro trees roots
    obtain ⟨tree, one, root, nodes, grows⟩ := builds.assembled
      (.node node.id node.symbol (some token.text) [] :: trees)
      (by rw [List.map_cons, roots, waiting]; rfl)
    refine ⟨tree, one, root, nodes.trans List.perm_middle, fun listed unlisted grown => ?_⟩
    rw [Machine.shift, List.forall_mem_cons] at unlisted
    have leaf : grammar.Grown listed (.node node.id node.symbol (some token.text) []) :=
      .matched token.text unlisted.1 terminal
    obtain ⟨whole, leaves⟩ := grows listed unlisted.2 (List.forall_mem_cons.mpr ⟨leaf, grown⟩)
    refine ⟨whole, ?_⟩
    rw [leaves, shifted_shift]
    simp [Tree.frontierOfAll, Tree.frontier]

theorem Builds.expand {node : Pending} {rest : List Pending} {s : Symbol}
    {alternative : Alternative} (builds : Builds grammar tokens machine)
    (waiting : machine.waiting = node :: rest) (rule : grammar.HasRule node.symbol alternative) :
    Builds grammar tokens (machine.expand node rest s alternative) := by
  constructor
  · rw [shifted_expand]
    exact builds.consumed
  · rw [shifted_expand]
    exact builds.read
  · have renumbered : ((machine.events.map Event.node ++ node :: rest).map Pending.id ++
        (number machine.size alternative.symbols).map Pending.id).Perm
          (List.range (machine.size + alternative.size)) := by
      rw [List.range_add, ← List.range'_eq_map_range, map_id_number]
      exact (waiting ▸ builds.numbered).append_right _
    refine List.Perm.trans ?_ renumbered
    rw [← List.map_append]
    refine List.Perm.map Pending.id ?_
    simp only [Machine.expand, List.map_cons, Event.node, List.cons_append]
    rw [List.append_assoc, List.cons_append]
    refine List.Perm.trans ?_ List.perm_middle.symm
    exact .cons _ (List.perm_append_comm.append_left _)
  -- the trees of the children come first
  · intro trees roots
    have taken : (trees.take alternative.size).map Tree.label =
        number machine.size alternative.symbols := by
      rw [List.map_take, roots]
      exact List.take_left' (length_number _ _)
    have dropped : (trees.drop alternative.size).map Tree.label = rest := by
      rw [List.map_drop, roots]
      exact List.drop_left' (length_number _ _)
    have children : (trees.take alternative.size).map Tree.symbol = alternative.symbols := by
      have symbols := congrArg (List.map Pending.symbol) taken
      rw [List.map_map, map_symbol_number] at symbols
      exact symbols
    obtain ⟨tree, one, root, nodes, grows⟩ := builds.assembled
      (.node node.id node.symbol none (trees.take alternative.size) ::
        trees.drop alternative.size) (by rw [List.map_cons, dropped, waiting]; rfl)
    have split : Tree.nodesOfAll trees = Tree.nodesOfAll (trees.take alternative.size) ++
        Tree.nodesOfAll (trees.drop alternative.size) := by
      rw [← Tree.nodesOfAll_append, List.take_append_drop]
    refine ⟨tree, one, root, nodes.trans ?_, fun listed unlisted grown => ?_⟩
    · rw [split, Tree.nodesOfAll, Tree.nodes, List.cons_append, List.map_cons]
      exact List.perm_middle
    · rw [Machine.expand, List.forall_mem_cons] at unlisted
      have inner : grammar.Grown listed
          (.node node.id node.symbol none (trees.take alternative.size)) :=
        .expanded unlisted.1 rule children fun child member =>
          grown child (List.mem_of_mem_take member)
      obtain ⟨whole, leaves⟩ := grows listed unlisted.2 (List.forall_mem_cons.mpr
        ⟨inner, fun given member => grown given (List.mem_of_mem_drop member)⟩)
      refine ⟨whole, ?_⟩
      have gone : node.id ∉ listed := unlisted.1
      rw [leaves, shifted_expand, Tree.frontierOfAll, Tree.frontier, if_neg gone,
        ← Tree.frontierOfAll_append, List.take_append_drop]

/-- Every move preserves what the events put together. -/
theorem Builds.of_moves
    (rules : ∀ {s t alternative}, table.get? s t = some alternative →
      grammar.HasRule s alternative)
    (builds : Builds grammar tokens machine) (moves : Moves grammar table machine next) :
    Builds grammar tokens next := by
  cases moves with
  | shift waiting proper ahead => exact builds.shift waiting proper ahead
  | @expand node rest name s token alternative waiting _ _ _ _ entry _ =>
    -- the expected terminals do not matter here
    have unmarked : Builds grammar tokens
        { machine with expected := machine.expected.union (table.lookaheads node.symbol) } :=
      ⟨builds.consumed, builds.read, builds.numbered, builds.assembled⟩
    exact unmarked.expand waiting (rules entry)

theorem Builds.of_reaches
    (rules : ∀ {s t alternative}, table.get? s t = some alternative →
      grammar.HasRule s alternative)
    (reaches : Reaches grammar table input machine) : Builds grammar input.tokens machine := by
  induction reaches with
  | refl => exact builds_initial grammar input
  | tail _ moves ih => exact ih.of_moves rules moves

/-- The nodes of the tree are those of the events and the waiting ones. -/
theorem Builds.perm_nodes (builds : Builds grammar tokens machine) :
    ((machine.tree grammar.start).nodes.map Tree.label).Perm
      (machine.events.map Event.node ++ machine.waiting) := by
  obtain ⟨tree, one, -, nodes, -⟩ := builds.assembled (machine.waiting.map Pending.toTree)
    (by rw [List.map_map]; exact List.map_id _)
  have whole : machine.tree grammar.start = tree := by
    rw [Machine.tree, Event.trees, one]
    rfl
  rw [Tree.nodesOfAll_toTree, List.map_map, show Tree.label ∘ Pending.toTree = id from rfl,
    List.map_id] at nodes
  rw [whole]
  exact nodes

/-- The stacks and the tree agree between two steps. -/
theorem Builds.snapshot (builds : Builds grammar tokens machine) :
    grammar.Snapshot machine.stack machine.nodeStack (machine.tree grammar.start) machine.size
      machine.shifted := by
  obtain ⟨tree, one, root, -, grows⟩ := builds.assembled (machine.waiting.map Pending.toTree)
    (by rw [List.map_map]; exact List.map_id _)
  have whole : machine.tree grammar.start = tree := by
    rw [Machine.tree, Event.trees, one]
    rfl
  have nodes := whole ▸ builds.perm_nodes
  have apart := builds.numbered.nodup_iff.mpr List.nodup_range
  rw [List.map_append, List.nodup_append] at apart
  have unlisted : ∀ event ∈ machine.events, event.node.id ∉ machine.nodeStack := by
    intro event happened listed
    rw [nodeStack, List.mem_reverse] at listed
    refine apart.2.2 _ ?_ _ listed rfl
    exact List.mem_map_of_mem (List.mem_map_of_mem happened)
  have listed : ∀ node ∈ machine.waiting, node.id ∈ machine.nodeStack := fun node member =>
    List.mem_reverse.mpr (List.mem_map_of_mem member)
  have leaves : ∀ given ∈ machine.waiting.map Pending.toTree,
      grammar.Grown machine.nodeStack given := by
    intro given member
    obtain ⟨node, waits, rfl⟩ := List.mem_map.mp member
    exact .pending node.symbol (listed node waits)
  obtain ⟨grown, frontier⟩ := grows machine.nodeStack unlisted leaves
  rw [whole]
  refine ⟨rfl, by simp [stack, nodeStack], fun i id found => ?_, ?_, root, grown, ?_⟩
  · -- a waiting node is among the nodes of the tree, with its number and its symbol
    rw [nodeStack, ← List.map_reverse, List.getElem?_map] at found
    obtain ⟨pending, place, rfl⟩ := Option.map_eq_some_iff.mp found
    have waits : pending ∈ machine.waiting := List.mem_reverse.mp (List.mem_of_getElem? place)
    obtain ⟨node, member, same⟩ :=
      List.mem_map.mp (nodes.mem_iff.mpr (List.mem_append_right _ waits))
    refine ⟨node, member, congrArg Pending.id same, ?_⟩
    rw [stack, List.getElem?_cons_succ, ← List.map_reverse, List.getElem?_map, place, ← same]
    rfl
  · have ids := nodes.map Pending.id
    rw [List.map_map] at ids
    exact ids.trans builds.numbered
  · rw [frontier, Tree.frontierOfAll_toTree listed]
    simp [stack, Function.comp_def]

/-! ### Results -/

/-- What a result shows of the state in which the machine stopped. A symbol without a name is in no
alternative of a well-formed grammar. -/
theorem Stops.shows (wellFormed : grammar.WellFormed)
    (rules : ∀ {s t alternative}, table.get? s t = some alternative →
      grammar.HasRule s alternative)
    (stops : Stops grammar table strict machine result) :
    result.events = machine.events.reverse ∧ result.tree = machine.tree grammar.start ∧
      result.size = machine.size ∧
      ((result.verdict = .success ∧ machine.stack.getLast? = some .eof) ∨
        ∃ failure, result.verdict = .failure failure ∧ failure.waiting = machine.waiting) := by
  cases stops with
  | lexicalError => exact ⟨rfl, rfl, rfl, Or.inr ⟨_, rfl, rfl⟩⟩
  | @finish name ahead token derived read =>
    have top : machine.stack.getLast? = some .eof := by
      cases waiting : machine.waiting with
      | nil => simp [stack, waiting]
      | cons node rest =>
        have last : node.symbol = .eof := derived node (by simp [waiting])
        rw [stack, waiting, List.map_cons, List.reverse_cons, last, ← List.cons_append]
        exact List.getLast?_concat
    unfold Machine.finish
    split
    · exact ⟨rfl, rfl, rfl, Or.inr ⟨_, rfl, rfl⟩⟩
    · exact ⟨rfl, rfl, rfl, Or.inl ⟨rfl, top⟩⟩
  | unexpected => exact ⟨rfl, rfl, rfl, Or.inr ⟨_, rfl, rfl⟩⟩
  | noEntry => exact ⟨rfl, rfl, rfl, Or.inr ⟨_, rfl, rfl⟩⟩
  | @fault node rest name s unknown _ _ waiting _ read _ nonterminal entry unnamed =>
    have known := wellFormed.knows_of_rule (rules entry) unknown
      (List.mem_of_find?_eq_some unnamed)
    have absent := List.find?_some unnamed
    exact absurd (wellFormed.named known) (by simpa using absent)

/-- A run that stops does so in a state that the machine can come to. -/
theorem Halts.exists_reaches {moves : Nat}
    (halts : Halts grammar table strict moves (initial grammar.start input) result) :
    ∃ last, Reaches grammar table input last ∧ Stops grammar table strict last result :=
  halts.stops (Reaches grammar table input) .refl fun reaches moves => reaches.tail moves

end Machine

end Predictive
