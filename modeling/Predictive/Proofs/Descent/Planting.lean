import Predictive.Ebnf.Planting
import Predictive.Proofs.Descent.Nodes
import Predictive.Proofs.Descent.Spelling

/-!
# The arena of recursive descent

Recursive descent into an arena keeps the nodes of an expression behind those that were there
before, without parents, until a nonterminal adopts them. A part that fails leaves the arena as it
was. So an arena shows what recursive descent gives back as trees, and its length is the number of
nodes so far: when an input is accepted, the arena holds the tree of the input and nothing else.

## Main definitions

* `Descent.planted` — an outcome with its nodes in an arena
* `EbnfGrammar.Plants` — recursive descent into an arena, at one depth
* `EbnfGrammar.Conforms` — a node of an arena that fits a grammar

## Main results

* `EbnfGrammar.plants` — recursive descent into an arena has the outcomes of recursive descent
* `EbnfGrammar.parseInto_eq` — an accepted input leaves its tree in the arena
* `EbnfGrammar.parse_leaves_tree` — the arena of an accepted input is a derivation tree
-/

namespace Predictive

/-- An outcome with its nodes behind those of an arena, or with what is kept of the arena. -/
def Descent.planted (kept arena : Arena) : Descent → Planting
  | .matched forest _ stream =>
    ⟨some (forest.map Tree.id), stream, arena ++ Tree.slotsOfAll none forest⟩
  | .failed stream => ⟨none, stream, kept⟩

/-- Nodes of the trees in front of an outcome come before its own. -/
theorem map_planted_after (kept arena : Arena) (forest : List Tree) (outcome : Option Descent) :
    (outcome.map (Descent.after forest)).map (Descent.planted kept arena) =
      (outcome.map (Descent.planted kept (arena ++ Tree.slotsOfAll none forest))).map
        (Planting.after (forest.map Tree.id)) := by
  cases outcome with
  | none => rfl
  | some outcome =>
    cases outcome with
    | failed stream => rfl
    | matched more size stream =>
      simp [Descent.after, Descent.planted, Planting.after, Tree.slotsOfAll_append]

namespace EbnfGrammar

variable {source : EbnfGrammar} {fuel : Nat} {expr body : Expr} {parts : List Expr}
  {stream after : TokenStream} {arena kept : Arena} {forest : List Tree} {size last : Nat}
  {s : Symbol} {input : Input} {tree : Tree}

/-! ### What is in the arena -/

/-- A run leaves as many nodes as it has given out numbers. -/
theorem length_of_descend
    (ran : source.descend fuel expr arena.length stream = some (.matched forest last after)) :
    Tree.Numbered arena.length forest last ∧
      (arena ++ Tree.slotsOfAll none forest).length = last := by
  obtain ⟨failures, descends⟩ := descends_of_descend ran
  have numbered := descends.numbered rfl
  exact ⟨numbered, by rw [List.length_append, numbered.length_slotsOfAll]⟩

/-- At one depth, recursive descent into an arena has the outcomes of recursive descent. -/
structure Plants (source : EbnfGrammar) (fuel : Nat) : Prop where
  /-- For an expression. -/
  expr : ∀ {expr stream arena}, arena ≠ [] →
    source.plant fuel expr stream arena =
      (source.descend fuel expr arena.length stream).map (Descent.planted arena arena)
  /-- For the parts of a chain, some of which have made nodes already. -/
  chain : ∀ {parts stream kept more}, kept ≠ [] →
    source.plantChain fuel kept.length parts stream (kept ++ more) =
      (source.descendChain fuel parts (kept ++ more).length stream).map
        (Descent.planted kept (kept ++ more))
  /-- For the parts of a choice. -/
  choice : ∀ {parts stream arena}, arena ≠ [] →
    source.plantChoice fuel parts stream arena =
      (source.descendChoice fuel parts arena.length stream).map (Descent.planted arena arena)
  /-- For the rounds of a repetition, which do not fail. -/
  again : ∀ {body stream arena}, arena ≠ [] → ∀ kept,
    source.plantMany fuel body stream arena =
      (source.descendMany fuel body arena.length stream).map (Descent.planted kept arena)

theorem plantTerminal_eq (s : Symbol) (stream : TokenStream) (arena : Arena) :
    plantTerminal s stream arena =
      (takeTerminal s arena.length stream).planted arena arena := by
  unfold plantTerminal takeTerminal
  split
  · cases stream.next? with
    | none => rfl
    | some next =>
      obtain ⟨taken, rest⟩ := next
      simp only [Arena.push, Arena.setText, Arena.modify_append_cons]
      rfl
  · rfl

namespace Plants

variable (plants : source.Plants fuel)

include plants

theorem expr_succ (present : arena ≠ []) :
    source.plant (fuel + 1) expr stream arena =
      (source.descend (fuel + 1) expr arena.length stream).map (Descent.planted arena arena) := by
  cases expr with
  | terminal s => rw [plant, descend, plantTerminal_eq, Option.map_some]
  | nonterminal s =>
    rw [plant, descend]
    cases source.expression? s with
    | none => rfl
    | some body =>
      dsimp only
      rw [plants.expr present]
      cases ran : source.descend fuel body arena.length stream with
      | none => rfl
      | some outcome =>
        cases outcome with
        | failed after =>
          simp only [Option.map_some, Descent.planted, Arena.truncate_self present]
        | matched forest last after =>
          obtain ⟨numbered, counted⟩ := length_of_descend ran
          simp only [Option.map_some, Descent.planted, Arena.push, counted,
            numbered.adopt_last]
          rfl
  | chain parts =>
    have chained := @plants.chain parts stream arena [] present
    rw [List.append_nil] at chained
    rw [plant, descend, chained]
  | choice parts => rw [plant, descend, plants.choice present]
  | optional body =>
    rw [plant, descend, plants.expr present]
    rcases source.descend fuel body arena.length stream with _ | ⟨forest, last, after⟩ | after
    · rfl
    · rfl
    · simp [Descent.planted, Tree.slotsOfAll]
  | zeroOrMore body => rw [plant, descend, plants.again present arena]
  | oneOrMore body =>
    rw [plant, descend, plants.expr present]
    rcases ran : source.descend fuel body arena.length stream with _ | ⟨forest, last, after⟩ | after
    · rfl
    · obtain ⟨-, counted⟩ := length_of_descend ran
      have filled : arena ++ Tree.slotsOfAll none forest ≠ [] := by simp [present]
      simp only [Option.map_some, Descent.planted, plants.again filled arena, counted,
        map_planted_after]
    · rfl

theorem chain_succ {more : Arena} (present : kept ≠ []) :
    source.plantChain (fuel + 1) kept.length parts stream (kept ++ more) =
      (source.descendChain (fuel + 1) parts (kept ++ more).length stream).map
        (Descent.planted kept (kept ++ more)) := by
  cases parts with
  | nil => simp [plantChain, descendChain, Descent.planted, Tree.slotsOfAll]
  | cons part rest =>
    have filled : kept ++ more ≠ [] := by simp [present]
    rw [plantChain, descendChain, plants.expr filled]
    rcases ran : source.descend fuel part (kept ++ more).length stream with
      _ | ⟨forest, last, after⟩ | after
    · rfl
    · obtain ⟨-, counted⟩ := length_of_descend ran
      have chained := @plants.chain rest after kept (more ++ Tree.slotsOfAll none forest) present
      rw [← List.append_assoc, counted] at chained
      simp only [Option.map_some, Descent.planted, chained, map_planted_after]
    · -- the nodes of the parts before this one are dropped as well
      simp only [Option.map_some, Descent.planted, Arena.truncate_append kept more present]

theorem choice_succ (present : arena ≠ []) :
    source.plantChoice (fuel + 1) parts stream arena =
      (source.descendChoice (fuel + 1) parts arena.length stream).map
        (Descent.planted arena arena) := by
  cases parts with
  | nil => rw [plantChoice, descendChoice]; rfl
  | cons part rest =>
    rw [plantChoice, descendChoice, plants.expr present]
    rcases source.descend fuel part arena.length stream with _ | ⟨forest, last, after⟩ | after
    · rfl
    · rfl
    · simp only [Option.map_some, Descent.planted, Arena.truncate_self present,
        plants.choice present]

theorem again_succ (present : arena ≠ []) (kept : Arena) :
    source.plantMany (fuel + 1) body stream arena =
      (source.descendMany (fuel + 1) body arena.length stream).map
        (Descent.planted kept arena) := by
  rw [plantMany, descendMany, plants.expr present]
  rcases ran : source.descend fuel body arena.length stream with _ | ⟨forest, last, after⟩ | after
  · rfl
  · obtain ⟨-, counted⟩ := length_of_descend ran
    have filled : arena ++ Tree.slotsOfAll none forest ≠ [] := by simp [present]
    simp only [Option.map_some, Descent.planted, Arena.truncate_append arena _ present]
    split
    · rw [plants.again filled kept, counted, map_planted_after]
    · simp [Descent.planted, Tree.slotsOfAll]
  · simp [Descent.planted, Tree.slotsOfAll]

end Plants

/-- Recursive descent into an arena has the outcomes of recursive descent. -/
theorem plants (source : EbnfGrammar) (fuel : Nat) : source.Plants fuel := by
  induction fuel with
  | zero =>
    -- without fuel neither has an outcome
    constructor
    · intro expr stream arena _
      rw [plant, descend]
      rfl
    · intro parts stream kept more _
      rw [plantChain, descendChain]
      rfl
    · intro parts stream arena _
      rw [plantChoice, descendChoice]
      rfl
    · intro body stream arena _ kept
      rw [plantMany, descendMany]
      rfl
  | succ fuel ih => exact ⟨ih.expr_succ, ih.chain_succ, ih.choice_succ, ih.again_succ⟩

/-! ### Whole inputs -/

/-- An accepted input leaves its tree in the arena, and any other input has the same error. -/
theorem parseInto_eq (source : EbnfGrammar) (input : Input) :
    source.parseInto input =
      (source.parse input).map (Except.map fun result => result.1.arena) := by
  rw [parseInto, parse]
  cases TokenStream.ofInput source.names input with
  | error error => rfl
  | ok stream =>
    cases source.expression? source.start with
    | none => rfl
    | some expr =>
      simp only [Arena.push, List.nil_append, List.length_nil]
      rw [(source.plants _).expr (by simp)]
      rw [List.length_singleton]
      rcases ran : source.descend (source.depthBound stream.rest.length) expr 1 stream with
        _ | ⟨forest, last, after⟩ | after
      · rfl
      · have numbered : Tree.Numbered 1 forest last :=
          (@length_of_descend source _ expr stream after [⟨source.start, none, [], none⟩]
            forest last ran).1
        simp only [Option.map_some, Descent.planted, harvest, conclude, List.singleton_append,
          numbered.adopt_first]
        split <;> rfl
      · rfl

/-- A node of an arena that fits a grammar. -/
structure Conforms (source : EbnfGrammar) (arena : Arena) (slot : Slot) : Prop where
  /-- It is a terminal or a nonterminal. -/
  declared : source.isTerminal slot.symbol = true ∨ source.isNonterminal slot.symbol = true
  /-- A terminal has a text and no children. -/
  terminal : source.isTerminal slot.symbol = true → slot.text.isSome = true ∧ slot.children = []
  /-- A nonterminal has no text, and children in the pattern of its expression. -/
  nonterminal : ∀ {body}, source.expression? slot.symbol = some body → slot.text = none ∧
    ∃ row : List Symbol, body.Arranges row ∧
      slot.children.map (fun child => arena[child]?.map Slot.symbol) = row.map some

/-- An arena has the symbols of children in their places. -/
theorem map_symbol_of_held (held : tree.Held arena) {above : Tree} (member : above ∈ tree.nodes) :
    (above.children.map Tree.id).map (fun child => arena[child]?.map Slot.symbol) =
      (above.children.map Tree.symbol).map some := by
  rw [List.map_map, List.map_map]
  refine List.map_congr_left fun child listed => ?_
  have there := held.getElem? (Tree.mem_withParents_of_child member listed)
  simp only [Function.comp_apply, there, Option.map_some]
  rfl

/-- A node that fits a grammar as part of a tree fits it in the arena of the tree. -/
theorem Fits.conforms (wellFormed : source.WellFormed) {node : Tree} (fits : source.Fits node)
    (held : tree.Held arena) (member : node ∈ tree.nodes) (parent : Option Nat) :
    source.Conforms arena (node.slot parent) := by
  have children := map_symbol_of_held held member
  cases fits with
  | @terminal id s text declared =>
    refine ⟨Or.inl declared, fun _ => ⟨rfl, rfl⟩, fun {body} found => ?_⟩
    exact absurd (found.symm.trans (wellFormed.expression?_eq_none declared)) (by simp)
  | @nonterminal id s body forest found arranged =>
    refine ⟨Or.inr (Option.isSome_iff_exists.mpr ⟨body, found⟩), fun terminal => ?_,
      fun {other} same => ?_⟩
    · exact absurd (found.symm.trans (wellFormed.expression?_eq_none terminal)) (by simp)
    · obtain rfl := Option.some.inj (found.symm.trans same)
      exact ⟨rfl, _, arranged, children⟩

/-- The arena of an accepted input is a derivation tree and nothing else: its links agree, every
node is in reach of the root, every node conforms to the grammar, and the leaves that matched a
token are tokens of the input, in their order. -/
theorem parse_leaves_tree (wellFormed : source.WellFormed)
    (parsed : source.parseInto input = some (.ok arena)) :
    arena.IsTree ∧ arena[0]?.map Slot.symbol = some source.start ∧
      (∀ slot ∈ arena, source.Conforms arena slot) ∧
      ∃ tree size, source.parse input = some (.ok (tree, size)) ∧ tree.Held arena ∧
        arena.length = size ∧
        (tree.taken.map fun leaf => (some leaf.1, leaf.2)).Sublist
          (input.tokens.map fun token =>
            (TokenStream.symbolOf source.names token.name, token.text)) := by
  rw [parseInto_eq] at parsed
  obtain ⟨result, accepted, same⟩ := Option.map_eq_some_iff.mp parsed
  obtain ⟨⟨tree, size⟩, rfl, rfl⟩ : ∃ pair, result = .ok pair ∧ pair.1.arena = arena := by
    cases result with
    | error error => cases same
    | ok pair => exact ⟨pair, rfl, by simpa [Except.map] using same⟩
  obtain ⟨expr, stream, forest, after, failures, found, opened, descends, ended, rfl⟩ :=
    parse_cases accepted
  have numbered := descends.numbered rfl
  have makes := descends.makes wellFormed (wellFormed.admits found) rfl
  have held := @Tree.Numbered.held forest size source.start none numbered
  have fits : ∀ node ∈ (Tree.node 0 source.start none forest).nodes, source.Fits node := by
    rw [Tree.nodes, List.forall_mem_cons]
    exact ⟨.nonterminal 0 found makes.arranged, makes.fits⟩
  refine ⟨held.isTree, rfl, ?_, _, _, accepted, held, ?_, ?_⟩
  · intro slot listed
    obtain ⟨place, there⟩ := List.getElem?_of_mem listed
    obtain ⟨parent, node, -, member, -, rfl⟩ := held.exists_item there
    exact (fits node member).conforms wellFormed held member parent
  · have counted := @Tree.Numbered.length_slotsOfAll (some 0) forest 1 size numbered
    rw [Tree.arena, List.length_cons, Nat.add_comm]
    exact counted
  · obtain ⟨taken, kept, advances, splits, spells⟩ := descends.spells rfl
    obtain rfl := taken_eq_streamTokens opened advances ended
    have inOrder := splits.sublist.map fun token => (token.symbol, token.token.text)
    rw [← spells.taken, streamTokens, List.map_map] at inOrder
    rw [Tree.taken, Tree.takenOfAll_node, Tree.takenOfAll_nil, List.append_nil]
    exact inOrder

/-- The productions `S := (T b)? T? c` and `T := a`. On the input `a a c` the nodes of the optional
part `T b` are dropped, and their numbers are those of the nodes that come next. -/
theorem parse_leaves_tree_dropped :
    ∃ source, EbnfDefinition.ofSteps [.terminal "a", .terminal "b", .terminal "c",
        .nonterminal "S", .nonterminal "T",
        .rule ⟨5⟩ (.chain [.optional (.chain [.nonterminal ⟨6⟩, .terminal ⟨3⟩]),
          .optional (.nonterminal ⟨6⟩), .terminal ⟨4⟩]),
        .rule ⟨6⟩ (.terminal ⟨2⟩)] = .ok source ∧
      ∃ arena, source.parseInto ⟨[⟨"a", "1"⟩, ⟨"a", "2"⟩, ⟨"c", "3"⟩], .eof ""⟩ =
          some (.ok arena) ∧
        arena = [⟨⟨5⟩, none, [2, 3], none⟩, ⟨⟨2⟩, some 2, [], some "2"⟩,
          ⟨⟨6⟩, some 0, [1], none⟩, ⟨⟨4⟩, some 0, [], some "3"⟩] ∧
        arena.IsTree ∧ ∀ slot ∈ arena, source.Conforms arena slot := by
  obtain ⟨source, defined, wellFormed, passes⟩ := EbnfDefinition.exists_of_ofSteps
    [.terminal "a", .terminal "b", .terminal "c", .nonterminal "S", .nonterminal "T",
      .rule ⟨5⟩ (.chain [.optional (.chain [.nonterminal ⟨6⟩, .terminal ⟨3⟩]),
        .optional (.nonterminal ⟨6⟩), .terminal ⟨4⟩]),
      .rule ⟨6⟩ (.terminal ⟨2⟩)]
    (fun source => (source.parseInto ⟨[⟨"a", "1"⟩, ⟨"a", "2"⟩, ⟨"c", "3"⟩], .eof ""⟩).any
      fun result => result.toOption.any fun arena => decide (arena =
        [⟨⟨5⟩, none, [2, 3], none⟩, ⟨⟨2⟩, some 2, [], some "2"⟩,
          ⟨⟨6⟩, some 0, [1], none⟩, ⟨⟨4⟩, some 0, [], some "3"⟩])) (by decide +kernel)
  simp only [Option.any_eq_true, decide_eq_true_eq] at passes
  obtain ⟨result, parsed, arena, accepted, slots⟩ := passes
  rw [toOption_eq_some_iff.mp accepted] at parsed
  obtain ⟨isTree, -, conform, -⟩ := parse_leaves_tree wellFormed parsed
  exact ⟨source, defined, arena, parsed, slots, isTree, conform⟩

end EbnfGrammar

end Predictive
