import Predictive.Proofs.Table

/-!
# Grammars without conflicts are unambiguous

A derivation tree says of each nonterminal by which of its alternatives it was expanded, by the
position of the alternative in the production. So two equal alternatives at different positions
make two trees. If the table of a grammar has no conflicts, a word of terminals has at most one
tree. Both trees are read from left to right: where they expand the same nonterminal in front of
the same terminal, both alternatives are selected by this terminal, and a lookahead selects at most
one position. This takes no notice of nonterminals that the trees do not contain, whatever their
FIRST and FOLLOW sets are.

## Main definitions

* `Derivation` — a tree whose nodes tell the position of their alternative
* `Grammar.Parsed` — the words of lists of derivation trees

## Main results

* `Grammar.exists_parsed_iff` — the derived words of terminals are those that have a tree
* `ParseTable.eq_of_predicts` — without conflicts, a lookahead selects one position
* `Grammar.Parsed.unique` — trees with the same roots are equal if what they read begins alike
* `Grammar.derivation_unique` — without conflicts, a word has at most one tree
-/

namespace Predictive

/-- A derivation tree. -/
inductive Derivation where
  /-- A terminal. -/
  | leaf (s : Symbol)
  /-- A nonterminal, the position of the alternative that it was expanded by, and the trees of the
  symbols of this alternative. -/
  | node (s : Symbol) (choice : Nat) (children : List Derivation)

/-- The symbol at the root. -/
def Derivation.symbol : Derivation → Symbol
  | .leaf s => s
  | .node s _ _ => s

@[simp] theorem Derivation.symbol_leaf (s : Symbol) : (leaf s).symbol = s := rfl

@[simp] theorem Derivation.symbol_node (s : Symbol) (choice : Nat) (children : List Derivation) :
    (node s choice children).symbol = s := rfl

namespace Grammar

variable {grammar : Grammar} {s t : Symbol} {alternative : Alternative}
  {trees others : List Derivation} {word other form front behind rest tail : List Symbol}

/-- The words of lists of derivation trees: all leaves are terminals, and the children of a node
spell the alternative at the position that the node tells. -/
inductive Parsed (grammar : Grammar) : List Derivation → List Symbol → Prop where
  /-- No tree has the empty word. -/
  | nil : Parsed grammar [] []
  /-- The first tree is a terminal. -/
  | terminal {s : Symbol} {trees : List Derivation} {word : List Symbol}
      (allowed : grammar.isTerminal s = true) (rest : Parsed grammar trees word) :
      Parsed grammar (.leaf s :: trees) (s :: word)
  /-- The first tree is a nonterminal. -/
  | nonterminal {s : Symbol} {choice : Nat} {alternatives : List Alternative}
      {alternative : Alternative} {children trees : List Derivation} {first second : List Symbol}
      (defined : grammar.alternatives? s = some alternatives)
      (chosen : alternatives[choice]? = some alternative)
      (spelled : children.map Derivation.symbol = alternative.symbols)
      (inner : Parsed grammar children first) (rest : Parsed grammar trees second) :
      Parsed grammar (.node s choice children :: trees) (first ++ second)

/-! ### Trees and derivations -/

theorem Parsed.isTerminal (parsed : grammar.Parsed trees word) :
    ∀ t ∈ word, grammar.isTerminal t = true := by
  induction parsed with
  | nil => simp
  | terminal allowed _ ih => simpa [allowed] using ih
  | nonterminal _ _ _ _ _ inner rest => exact List.forall_mem_append.mpr ⟨inner, rest⟩

/-- The word of trees is derived from their roots. -/
theorem Parsed.derives (parsed : grammar.Parsed trees word) :
    grammar.Derives (trees.map Derivation.symbol) word := by
  induction parsed with
  | nil => exact .refl []
  | @terminal s _ _ _ _ ih => exact ih.append_left [s]
  | nonterminal defined chosen spelled _ _ inner rest =>
    have rule : grammar.HasRule _ _ := ⟨_, defined, List.mem_of_getElem? chosen⟩
    exact (rule.derives.trans (spelled ▸ inner)).append rest

/-- A derived word of terminals has trees. -/
theorem Yields.exists_parsed (yields : grammar.Yields form word)
    (terminals : ∀ t ∈ word, grammar.isTerminal t = true) :
    ∃ trees, trees.map Derivation.symbol = form ∧ grammar.Parsed trees word := by
  induction yields with
  | nil => exact ⟨[], rfl, .nil⟩
  | keep s _ ih =>
    rw [List.forall_mem_cons] at terminals
    obtain ⟨trees, roots, parsed⟩ := ih terminals.2
    exact ⟨.leaf s :: trees, by simp [roots], .terminal terminals.1 parsed⟩
  | @expand s alternative _ _ _ rule _ _ ihInner ihRest =>
    rw [List.forall_mem_append] at terminals
    obtain ⟨children, spelled, inner⟩ := ihInner terminals.1
    obtain ⟨trees, roots, parsed⟩ := ihRest terminals.2
    obtain ⟨alternatives, defined, listed⟩ := rule
    obtain ⟨choice, chosen⟩ := List.mem_iff_getElem?.mp listed
    exact ⟨.node s choice children :: trees, by simp [roots],
      .nonterminal defined chosen spelled inner parsed⟩

/-- The derived words of terminals are those that have a tree. -/
theorem exists_parsed_iff :
    (∃ tree : Derivation, tree.symbol = s ∧ grammar.Parsed [tree] word) ↔
      (∀ t ∈ word, grammar.isTerminal t = true) ∧ grammar.Derives [s] word := by
  constructor
  · rintro ⟨tree, rfl, parsed⟩
    exact ⟨parsed.isTerminal, parsed.derives⟩
  · rintro ⟨terminals, derives⟩
    obtain ⟨trees, roots, parsed⟩ := (derives_iff_yields.mp derives).exists_parsed terminals
    obtain ⟨tree, rfl, root⟩ := List.map_eq_singleton_iff.mp roots
    exact ⟨tree, root, parsed⟩

/-! ### One position for each lookahead -/

/-- The terminal in front of which a nonterminal is expanded predicts the alternative: it begins
what the alternative derives, or else what comes behind the nonterminal. -/
theorem predicts_of_ahead (terminal : grammar.isTerminal t = true)
    (inner : grammar.Derives alternative.symbols word)
    (reached : grammar.Derives [grammar.start, .eof] (front ++ s :: form))
    (later : grammar.Derives form behind) (ahead : word ++ behind = t :: rest) :
    grammar.Predicts s alternative t := by
  refine ⟨terminal, ?_⟩
  cases word with
  | cons head others =>
    obtain ⟨rfl, -⟩ := List.cons.inj ahead
    exact Or.inl ⟨others, inner⟩
  | nil =>
    rw [List.nil_append] at ahead
    subst ahead
    have onward : grammar.Derives (front ++ s :: form) (front ++ s :: t :: rest) := by
      simpa using later.append_left (front ++ [s])
    exact Or.inr ⟨inner, Or.inl ⟨front, rest, reached.trans onward⟩⟩

end Grammar

/-- Without conflicts, a lookahead selects one position. -/
theorem ParseTable.eq_of_predicts {grammar : Grammar} {s t : Symbol} {i j : Nat}
    {alternatives : List Alternative} {alternative other : Alternative}
    (wellFormed : grammar.WellFormed) (deterministic : (ofGrammar grammar).isLL1 = true)
    (defined : grammar.alternatives? s = some alternatives)
    (first : alternatives[i]? = some alternative) (second : alternatives[j]? = some other)
    (predicts : grammar.Predicts s alternative t) (predicts' : grammar.Predicts s other t) :
    i = j := by
  have alone := isLL1_build_iff.mp deterministic s t
  rw [selecting, defined, Option.getD_some, length_filter_le_one_iff, List.pairwise_iff_getElem]
    at alone
  have selected : ∀ {k : Nat} {chosen}, alternatives[k]? = some chosen →
      grammar.Predicts s chosen t →
      decide (t ∈ ((FirstSets.compute grammar).ofString chosen.symbols).followedBy
        ((FollowSets.compute grammar (FirstSets.compute grammar)).get s)) = true := by
    intro k chosen found predicts
    have rule : grammar.HasRule s chosen := ⟨_, defined, List.mem_of_getElem? found⟩
    exact (List.mem_filter.mp ((mem_selecting_iff wellFormed).mpr ⟨rule, predicts⟩)).2
  obtain ⟨insideI, rfl⟩ := List.getElem?_eq_some_iff.mp first
  obtain ⟨insideJ, rfl⟩ := List.getElem?_eq_some_iff.mp second
  -- the earlier one of two different positions would exclude the later one
  rcases Nat.lt_trichotomy i j with before | same | after
  · exact absurd ⟨selected first predicts, selected second predicts'⟩
      (alone i j insideI insideJ before)
  · exact same
  · exact absurd ⟨selected second predicts', selected first predicts⟩
      (alone j i insideJ insideI after)

namespace Grammar

variable {grammar : Grammar} {trees others : List Derivation}
  {word other form front tail tail' : List Symbol}

/-- Two lists of trees with the same roots, in the same surroundings, are equal if what they read
goes on alike. The first list is read from left to right, and the second is taken apart along with
it. -/
theorem Parsed.unique (wellFormed : grammar.WellFormed)
    (deterministic : (ParseTable.ofGrammar grammar).isLL1 = true)
    (parsed : grammar.Parsed trees word) (parsed' : grammar.Parsed others other)
    (roots : trees.map Derivation.symbol = others.map Derivation.symbol)
    (reached : grammar.Derives [grammar.start, .eof]
      (front ++ trees.map Derivation.symbol ++ form))
    (later : grammar.Derives form tail) (later' : grammar.Derives form tail')
    (terminals : ∀ t ∈ tail, grammar.isTerminal t = true) (nonempty : tail ≠ [])
    (same : word ++ tail = other ++ tail') : trees = others ∧ word = other := by
  induction parsed generalizing others other form front tail tail' with
  | nil =>
    rw [List.map_nil, eq_comm, List.map_eq_nil_iff] at roots
    subst roots
    cases parsed'
    exact ⟨rfl, rfl⟩
  | @terminal s trees word allowed _ ih =>
    cases parsed' with
    | nil => cases roots
    | terminal _ rest' =>
      simp only [List.map_cons, List.cons.injEq, Derivation.symbol_leaf] at roots
      obtain ⟨rfl, roots⟩ := roots
      have onward : grammar.Derives [grammar.start, .eof]
          (front ++ [s] ++ trees.map Derivation.symbol ++ form) := by simpa using reached
      obtain ⟨rfl, rfl⟩ := ih rest' roots onward later later' terminals nonempty
        (List.cons.inj same).2
      exact ⟨rfl, rfl⟩
    | nonterminal defined =>
      simp only [List.map_cons, List.cons.injEq, Derivation.symbol_leaf,
        Derivation.symbol_node] at roots
      obtain ⟨rfl, -⟩ := roots
      rw [wellFormed.not_isTerminal (isNonterminal_of_alternatives? defined)] at allowed
      cases allowed
  | @nonterminal s choice alternatives alternative children trees first second defined chosen
      spelled inner rest ihInner ihRest =>
    cases parsed' with
    | nil => cases roots
    | terminal allowed =>
      simp only [List.map_cons, List.cons.injEq, Derivation.symbol_leaf,
        Derivation.symbol_node] at roots
      obtain ⟨rfl, -⟩ := roots
      rw [wellFormed.not_isTerminal (isNonterminal_of_alternatives? defined)] at allowed
      cases allowed
    | @nonterminal _ choice' _ _ children' trees' first' second' defined' chosen' spelled' inner'
        rest' =>
      simp only [List.map_cons, List.cons.injEq, Derivation.symbol_node] at roots
      obtain ⟨rfl, roots⟩ := roots
      rw [List.append_assoc, List.append_assoc] at same
      obtain ⟨t, more, ahead⟩ : ∃ t more, first ++ (second ++ tail) = t :: more :=
        List.exists_cons_of_ne_nil (by simp [nonempty])
      have behind := rest.derives.append later
      have behind' : grammar.Derives (trees.map Derivation.symbol ++ form) (second' ++ tail') :=
        roots ▸ rest'.derives.append later'
      have terminals' := List.forall_mem_append.mpr ⟨rest.isTerminal, terminals⟩
      have terminal : grammar.isTerminal t = true :=
        List.forall_mem_append.mpr ⟨inner.isTerminal, terminals'⟩ t (ahead ▸ List.mem_cons_self)
      have around : grammar.Derives [grammar.start, .eof]
          (front ++ s :: (trees.map Derivation.symbol ++ form)) := by simpa using reached
      -- the same lookahead predicts both alternatives, so their positions agree
      have predicts := predicts_of_ahead terminal (spelled ▸ inner.derives) around behind ahead
      have predicts' := predicts_of_ahead terminal (spelled' ▸ inner'.derives) around behind'
        (same ▸ ahead)
      obtain rfl := Option.some.inj (defined.symm.trans defined')
      obtain rfl := ParseTable.eq_of_predicts wellFormed deterministic defined chosen chosen'
        predicts predicts'
      obtain rfl := Option.some.inj (chosen.symm.trans chosen')
      have rule : grammar.HasRule s alternative :=
        ⟨alternatives, defined, List.mem_of_getElem? chosen⟩
      have inside : grammar.Derives [grammar.start, .eof]
          (front ++ children.map Derivation.symbol ++ (trees.map Derivation.symbol ++ form)) := by
        rw [spelled, List.append_assoc]
        exact around.trans ((rule.derives.append_right _).append_left front)
      obtain ⟨rfl, rfl⟩ := ihInner inner' (spelled.trans spelled'.symm) inside behind behind'
        terminals' (by simp [nonempty]) same
      have onward : grammar.Derives [grammar.start, .eof]
          (front ++ [s] ++ trees.map Derivation.symbol ++ form) := by simpa using reached
      obtain ⟨rfl, rfl⟩ := ihRest rest' roots onward later later' terminals nonempty
        (List.append_cancel_left same)
      exact ⟨rfl, rfl⟩

/-- Without conflicts, a word has at most one derivation tree, and it has one if it is derived. The
grammar may have unreachable, unproductive and left-recursive nonterminals. -/
theorem derivation_unique (wellFormed : grammar.WellFormed)
    (deterministic : (ParseTable.ofGrammar grammar).isLL1 = true) (word : List Symbol) :
    (∀ tree other : Derivation, tree.symbol = grammar.start → other.symbol = grammar.start →
        grammar.Parsed [tree] word → grammar.Parsed [other] word → tree = other) ∧
      ((∃ tree : Derivation, tree.symbol = grammar.start ∧ grammar.Parsed [tree] word) ↔
        (∀ t ∈ word, grammar.isTerminal t = true) ∧ grammar.Derives [grammar.start] word) := by
  refine ⟨fun tree other root root' parsed parsed' => ?_, exists_parsed_iff⟩
  have reached : grammar.Derives [grammar.start, .eof]
      ([] ++ [tree].map Derivation.symbol ++ [.eof]) := by
    simpa [root] using Derives.refl [grammar.start, Symbol.eof]
  have equal := parsed.unique wellFormed deterministic parsed' (by simp [root, root']) reached
    (.refl _) (.refl _) (by simp [isTerminal_eof]) (by simp) rfl
  exact (List.cons.inj equal.1).1

/-- A grammar with nonterminals that can vanish, and one that is unreachable, unproductive and
left-recursive. The one tree of `a b c` expands `S` in two ways. -/
theorem derivation_unique_nested :
    ∃ grammar, Grammar.ofText "S : a B c | ; B : b S | ; U : U x ;" = .ok grammar ∧
      (ParseTable.ofGrammar grammar).isLL1 = true ∧ ∃ tree : Derivation,
        tree = .node ⟨2⟩ 0 [.leaf ⟨5⟩, .node ⟨3⟩ 0 [.leaf ⟨7⟩, .node ⟨2⟩ 1 []], .leaf ⟨6⟩] ∧
        grammar.Parsed [tree] [⟨5⟩, ⟨7⟩, ⟨6⟩] ∧
        ∀ other : Derivation, other.symbol = grammar.start →
          grammar.Parsed [other] [⟨5⟩, ⟨7⟩, ⟨6⟩] → tree = other := by
  obtain ⟨grammar, defined, wellFormed, checked⟩ := Grammar.exists_of_ofText
    "S : a B c | ; B : b S | ; U : U x ;"
    (fun grammar => (ParseTable.ofGrammar grammar).isLL1 && decide (grammar.start = ⟨2⟩) &&
      decide (grammar.alternatives? ⟨2⟩ = some [.ofSymbols [⟨5⟩, ⟨3⟩, ⟨6⟩], .epsilon]) &&
      decide (grammar.alternatives? ⟨3⟩ = some [.ofSymbols [⟨7⟩, ⟨2⟩], .epsilon]) &&
      [(⟨5⟩ : Symbol), ⟨6⟩, ⟨7⟩].all grammar.isTerminal) (by decide +kernel)
  simp only [Bool.and_eq_true, decide_eq_true_eq, List.all_cons, List.all_nil] at checked
  obtain ⟨⟨⟨⟨deterministic, start⟩, sums⟩, bodies⟩, isA, isC, isB, -⟩ := checked
  have empty : grammar.Parsed [.node ⟨2⟩ 1 []] [] := .nonterminal sums rfl rfl .nil .nil
  have body : grammar.Parsed [.node ⟨3⟩ 0 [.leaf ⟨7⟩, .node ⟨2⟩ 1 []], .leaf ⟨6⟩] [⟨7⟩, ⟨6⟩] :=
    .nonterminal bodies rfl rfl (.terminal isB empty) (.terminal isC .nil)
  have parsed : grammar.Parsed
      [.node ⟨2⟩ 0 [.leaf ⟨5⟩, .node ⟨3⟩ 0 [.leaf ⟨7⟩, .node ⟨2⟩ 1 []], .leaf ⟨6⟩]]
      [⟨5⟩, ⟨7⟩, ⟨6⟩] := .nonterminal sums rfl rfl (.terminal isA body) .nil
  exact ⟨grammar, defined, deterministic, _, rfl, parsed, fun other root parsed' =>
    (derivation_unique wellFormed deterministic _).1 _ other start.symm root parsed parsed'⟩

end Grammar

end Predictive
