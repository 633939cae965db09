import Predictive.Proofs.Parse.Steps

/-!
# What the tree of a parse spells

A tree spells its leaves from left to right, if every node with children was expanded by one of its
alternatives. The events of a parse put such trees together: given trees for the waiting nodes,
they make one tree with the start symbol at its root, which spells the tokens matched so far and
then whatever the given trees spell. Every move preserves this, whatever the table holds.

## Main definitions

* `Grammar.Spells` — the leaves of a list of derivation trees, which may be partial
* `Machine.Assembles` — what the events put together

## Main results

* `Grammar.Spells.derives` — what trees spell is derived from their roots
* `Grammar.Spells.texts` — the texts of trees are those of their leaves
* `Machine.Assembles.of_moves` — what the events put together, after every move
* `Machine.Stops.of_success` — when a parse is successful
-/

namespace Predictive

namespace Grammar

variable {grammar : Grammar} {trees front back : List Tree} {word : List (Symbol × Option String)}

/-- The leaves of a list of derivation trees, each with the text that it matched, if any. A leaf
without a text is waiting to be matched or expanded. -/
inductive Spells (grammar : Grammar) : List Tree → List (Symbol × Option String) → Prop where
  /-- No tree has no leaves. -/
  | nil : Spells grammar [] []
  /-- The first tree is a node that is waiting. -/
  | pending (id : Nat) (s : Symbol) {trees : List Tree} {word : List (Symbol × Option String)}
      (rest : Spells grammar trees word) :
      Spells grammar (.leaf id s :: trees) ((s, none) :: word)
  /-- The first tree is a terminal that was matched. -/
  | matched (id : Nat) {s : Symbol} (text : String) {trees : List Tree}
      {word : List (Symbol × Option String)} (terminal : grammar.isTerminal s = true)
      (rest : Spells grammar trees word) :
      Spells grammar (.node id s (some text) [] :: trees) ((s, some text) :: word)
  /-- The first tree is a nonterminal that was expanded. -/
  | expanded (id : Nat) {s : Symbol} {alternative : Alternative} {children trees : List Tree}
      {first second : List (Symbol × Option String)} (rule : grammar.HasRule s alternative)
      (spelled : children.map Tree.symbol = alternative.symbols)
      (inner : Spells grammar children first) (rest : Spells grammar trees second) :
      Spells grammar (.node id s none children :: trees) (first ++ second)

namespace Spells

theorem append {first second : List (Symbol × Option String)} (left : grammar.Spells front first)
    (right : grammar.Spells back second) : grammar.Spells (front ++ back) (first ++ second) := by
  induction left with
  | nil => exact right
  | pending id s _ ih => exact .pending id s ih
  | matched id text terminal _ ih => exact .matched id text terminal ih
  | expanded id rule spelled inner _ _ ih =>
    rw [List.append_assoc]
    exact .expanded id rule spelled inner ih

/-- The leaves of two lists of trees. -/
theorem append_iff :
    grammar.Spells (front ++ back) word ↔
      ∃ first second, word = first ++ second ∧ grammar.Spells front first ∧
        grammar.Spells back second := by
  constructor
  · intro spells
    induction front generalizing word with
    | nil => exact ⟨[], word, rfl, .nil, spells⟩
    | cons tree front ih =>
      cases spells with
      | pending id s rest =>
        obtain ⟨first, second, rfl, left, right⟩ := ih rest
        exact ⟨_ :: first, second, rfl, .pending id s left, right⟩
      | matched id text terminal rest =>
        obtain ⟨first, second, rfl, left, right⟩ := ih rest
        exact ⟨_ :: first, second, rfl, .matched id text terminal left, right⟩
      | expanded id rule spelled inner rest =>
        obtain ⟨first, second, rfl, left, right⟩ := ih rest
        exact ⟨_ ++ first, second, (List.append_assoc ..).symm,
          .expanded id rule spelled inner left, right⟩
  · rintro ⟨first, second, rfl, left, right⟩
    exact left.append right

/-- What trees spell is derived from their roots. -/
theorem derives (spells : grammar.Spells trees word) :
    grammar.Derives (trees.map Tree.symbol) (word.map Prod.fst) := by
  induction spells with
  | nil => exact .refl []
  | pending _ s _ ih => exact ih.append_left [s]
  | @matched _ s _ _ _ _ _ ih => exact ih.append_left [s]
  | expanded _ rule spelled _ _ inner rest =>
    rw [List.map_append]
    exact (rule.derives.trans (spelled ▸ inner)).append rest

theorem nodesOfAll_eq_flatMap (trees : List Tree) :
    Tree.nodesOfAll trees = trees.flatMap Tree.nodes := by
  induction trees with
  | nil => rfl
  | cons tree rest ih => rw [Tree.nodesOfAll, List.flatMap_cons, ih]

/-- The texts of trees are those of their leaves. -/
theorem texts (spells : grammar.Spells trees word) :
    trees.flatMap Tree.texts = word.filterMap Prod.snd := by
  induction spells with
  | nil => rfl
  | pending _ _ _ ih => simpa [Tree.texts, Tree.leaf, Tree.nodes, Tree.nodesOfAll, Tree.text?]
  | matched _ _ _ _ ih => simpa [Tree.texts, Tree.nodes, Tree.nodesOfAll, Tree.text?]
  | @expanded id s alternative children _ _ _ _ _ _ _ inner rest =>
    have below : Tree.texts (.node id s none children) = children.flatMap Tree.texts := by
      rw [Tree.texts, Tree.nodes, nodesOfAll_eq_flatMap, List.filterMap_cons]
      exact List.filterMap_flatMap ..
    rw [List.flatMap_cons, below, inner, rest, List.filterMap_append]

end Spells

end Grammar

namespace Machine

variable {grammar : Grammar} {table : ParseTable Alternative} {strict : Bool}
  {machine next : Machine} {result : ParseResult} {tokens : List Token}

/-- What the events put together: given trees for the waiting nodes, one tree that spells the
tokens matched so far and then the leaves of the given trees. -/
def Assembles (grammar : Grammar) (tokens : List Token) (machine : Machine) : Prop :=
  ∃ shifted : List (Symbol × Token),
    tokens = shifted.map Prod.snd ++ machine.input.tokens ∧
    (∀ leaf ∈ shifted, grammar.terminalOf? leaf.2 = some leaf.1) ∧
    ∀ trees word, trees.map Tree.symbol = machine.waiting.map Pending.symbol →
      grammar.Spells trees word →
      ∃ tree, machine.events.foldl (fun trees event => event.assemble trees) trees = [tree] ∧
        tree.symbol = grammar.start ∧
        grammar.Spells [tree] (shifted.map (fun leaf => (leaf.1, some leaf.2.text)) ++ word)

theorem assembles_initial (grammar : Grammar) (input : Input) :
    Assembles grammar input.tokens (initial grammar.start input) := by
  refine ⟨[], rfl, fun _ listed => (List.not_mem_nil listed).elim, fun trees word same spells => ?_⟩
  obtain ⟨tree, rfl, root⟩ := List.map_eq_singleton_iff.mp same
  exact ⟨tree, rfl, root, spells⟩

/-- Every move preserves what the events put together. -/
theorem Assembles.of_moves
    (rules : ∀ {s t alternative}, table.get? s t = some alternative →
      grammar.HasRule s alternative)
    (assembles : Assembles grammar tokens machine) (moves : Moves grammar table machine next) :
    Assembles grammar tokens next := by
  obtain ⟨shifted, split, read, assembled⟩ := assembles
  cases moves with
  | @shift node rest name token waiting proper ahead =>
    rcases Grammar.lookahead_cases ahead with
      ⟨first, others, input, -, same, there⟩ | ⟨-, -, -, ends, -⟩
    · obtain rfl := Option.some.inj there
      have matched := Grammar.terminalOf?_eq_some_iff.mp same.symm
      refine ⟨shifted ++ [(node.symbol, token)], ?_, ?_, fun trees word roots spells => ?_⟩
      · simp [split, Machine.shift, input]
      · rw [List.forall_mem_append, List.forall_mem_singleton]
        exact ⟨read, same.symm⟩
      -- the node becomes a leaf with the text of the token, in front of the given trees
      · have leaf := Grammar.Spells.matched node.id token.text matched.2 spells
        obtain ⟨tree, one, root, spelled⟩ := assembled _ _
          (by simpa [waiting, Tree.symbol, Machine.shift] using roots) leaf
        exact ⟨tree, one, root, by simpa using spelled⟩
    · exact absurd (Option.some.inj ends) proper
  | @expand node rest name s token alternative waiting proper ahead _ nonterminal entry named =>
    refine ⟨shifted, split, read, fun trees word roots spells => ?_⟩
    have symbols : trees.map Tree.symbol = alternative.symbols ++ rest.map Pending.symbol := by
      simpa [Machine.expand] using roots
    -- the trees of the children come first
    rw [← List.take_append_drop alternative.size trees] at spells
    obtain ⟨first, second, rfl, inner, others⟩ := Grammar.Spells.append_iff.mp spells
    have children : (trees.take alternative.size).map Tree.symbol = alternative.symbols := by
      rw [List.map_take, symbols]
      exact List.take_left
    have remaining : (Tree.node node.id node.symbol none (trees.take alternative.size) ::
        trees.drop alternative.size).map Tree.symbol = machine.waiting.map Pending.symbol := by
      rw [waiting, List.map_cons, List.map_cons, List.map_drop, symbols]
      exact congrArg (node.symbol :: ·) List.drop_left
    exact assembled _ _ remaining (.expanded node.id (rules entry) children inner others)

/-! ### Success -/

/-- A parse is successful if nothing is waiting in front of the end of input; a strict parse also
asks that the end of input is next. -/
theorem Stops.of_success (stops : Stops grammar table strict machine result)
    (success : result.verdict = .success) :
    (∀ node ∈ machine.waiting.head?, node.symbol = .eof) ∧
      result.tree = machine.tree grammar.start ∧
      (strict = true →
        ∃ name token, grammar.lookahead machine.input = .ok (name, some .eof, token)) := by
  cases stops with
  | @finish name ahead token derived read =>
    unfold Machine.finish at success ⊢
    split at success
    · cases success
    · next passed =>
      rw [if_neg passed]
      refine ⟨derived, rfl, fun strictly => ⟨name, token, ?_⟩⟩
      have last : ahead = some .eof := by simpa [strictly] using passed
      rw [read, last]
  | lexicalError => cases success
  | unexpected => cases success
  | noEntry => cases success
  | fault => cases success

end Machine

end Predictive
