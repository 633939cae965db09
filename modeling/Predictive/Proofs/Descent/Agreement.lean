import Predictive.Proofs.Descent.Ending
import Predictive.Proofs.Descent.Guidance
import Predictive.Proofs.Parse.Prediction

/-!
# Recursive descent and the table agree

A sentence has a tree by the table of the lowered grammar. If the table is free of conflicts, and
expressions neither lead back to themselves nor hide a part of a choice behind one that may be
empty, recursive descent accepts the sentence as well: it comes to an end, it makes no wrong move,
and its tree is the one of the table with the introduced nonterminals spliced out.

## Main results

* `EbnfGrammar.parse_of_descend` — when recursive descent accepts an input
* `EbnfGrammar.LaysOut.parse_of_spells` — recursive descent accepts what trees spell
* `EbnfGrammar.parse_agrees` — recursive descent and the table agree on sentences
-/

namespace Predictive

namespace EbnfGrammar

variable {source : EbnfGrammar} {grammar : Grammar} {expr : Expr} {parts : List Expr}
  {trees forest made : List Tree} {word : List Symbol} {tokens : List Token} {token : Token}
  {s : Symbol} {size : Nat} {stream after : TokenStream} {input : Input} {text : String}

/-- Recursive descent accepts an input if the start symbol matches in front of its end. -/
theorem parse_of_descend (opened : TokenStream.ofInput source.names input = .ok stream)
    (found : source.expression? source.start = some expr)
    (ran : source.descend (source.depthBound stream.rest.length) expr 1 stream =
      some (.matched made size after))
    (ended : after.peekSymbol? = some .eof) :
    source.parse input = some (.ok (.node 0 source.start none made, size)) := by
  unfold parse
  rw [opened]
  dsimp only
  rw [found]
  dsimp only
  rw [ran, Option.map_some, conclude, if_pos ended]

/-- The nodes of the trees that expressions make stand for declared symbols, if the tokens do. -/
theorem Spells.lt_size {word : List StreamToken} (spells : source.Spells parts trees word)
    (wellFormed : source.WellFormed)
    (declared : ∀ token ∈ word, ∀ t, token.symbol = some t → t.id < source.names.size) :
    ∀ node ∈ Tree.nodesOfAll trees, node.symbol.id < source.names.size := by
  induction spells with
  | nil => exact fun _ listed => absurd listed List.not_mem_nil
  | @terminal id s token _ _ _ same _ ih =>
    rw [List.forall_mem_cons] at declared
    rw [Tree.nodesOfAll, List.forall_mem_append]
    refine ⟨fun node listed => ?_, ih declared.2⟩
    rw [Tree.nodes, Tree.nodesOfAll, List.mem_singleton] at listed
    rw [listed]
    exact declared.1 s same
  | @nonterminal id s _ _ _ _ _ _ found _ _ ihInner ih =>
    rw [List.forall_mem_append] at declared
    rw [Tree.nodesOfAll, List.forall_mem_append, Tree.nodes, List.forall_mem_cons]
    have nonterminal : source.isNonterminal s = true := Option.isSome_iff_exists.mpr ⟨_, found⟩
    exact ⟨⟨(wellFormed.nonterminal_named nonterminal).1, ihInner declared.1⟩, ih declared.2⟩
  | inline _ _ _ _ ihInner ih =>
    rw [List.forall_mem_append] at declared
    rw [Tree.nodesOfAll_append, List.forall_mem_append]
    exact ⟨ihInner declared.1, ih declared.2⟩

/-- Every token of a word that was read is a terminal. -/
theorem exists_of_spelled (spelled : word.map some = tokens.map grammar.terminalOf?)
    (listed : token ∈ tokens) : ∃ s, grammar.terminalOf? token = some s := by
  have member : grammar.terminalOf? token ∈ word.map some := spelled ▸ List.mem_map_of_mem listed
  obtain ⟨s, -, read⟩ := List.mem_map.mp member
  exact ⟨s, read.symm⟩

theorem rest_of_ofInput (opened : TokenStream.ofInput source.names ⟨tokens, .eof text⟩ = .ok stream) :
    stream.rest = streamTokens source.names ⟨tokens, .eof text⟩ ++
      [⟨some .eof, Token.eofName, text⟩] := by
  cases opened
  rfl

namespace LaysOut

variable (wellFormed : source.WellFormed) (laysOut : source.LaysOut grammar)

include wellFormed laysOut

/-- A token that the table reads as a terminal has this symbol in a stream. -/
theorem symbolOf_eq (read : grammar.terminalOf? token = some s)
    (proper : token.name ≠ Token.eofName) :
    TokenStream.symbolOf source.names token.name = some s ∧ s ∈ source.terminals.items := by
  obtain ⟨named, terminal⟩ := Grammar.terminalOf?_eq_some_iff.mp read
  rw [laysOut.isTerminal_eq] at terminal
  rcases isTerminal_iff.mp terminal with rfl | listed
  · rw [NameTable.name?_eof] at named
    exact absurd (Option.some.inj named).symm proper
  · obtain ⟨inside, unreserved⟩ := wellFormed.terminal_named listed
    have grown : source.names.Extends grammar.names := ⟨_, laysOut.names_eq⟩
    refine ⟨?_, listed⟩
    rw [TokenStream.symbolOf, Option.filter_eq_some_iff, NameTable.get?_eq_some_iff,
      ← grown.name? inside]
    exact ⟨named, by simp [unreserved]⟩

/-- The symbols and texts of tokens that the table reads as terminals, and of the tokens of a
stream. -/
theorem leaves_eq (text : String) (spelled : word.map some = tokens.map grammar.terminalOf?)
    (named : ∀ token ∈ tokens, token.name ≠ Token.eofName) :
    (word.zip (tokens.map fun token => some token.text)).map (fun leaf => (some leaf.1, leaf.2)) =
      (streamTokens source.names ⟨tokens, .eof text⟩).map
        fun token => (token.symbol, some token.token.text) := by
  calc (word.zip (tokens.map fun token => some token.text)).map (fun leaf => (some leaf.1, leaf.2))
      = (word.map some).zip (tokens.map fun token => some token.text) := List.zip_map_left.symm
    _ = tokens.map fun token => (grammar.terminalOf? token, some token.text) := by
      rw [spelled, List.zip_map']
    _ = tokens.map fun token =>
          (TokenStream.symbolOf source.names token.name, some token.text) := by
      refine List.map_congr_left fun token listed => ?_
      obtain ⟨s, read⟩ := exists_of_spelled spelled listed
      rw [read, (laysOut.symbolOf_eq wellFormed read (named token listed)).1]
    _ = _ := by rw [streamTokens, List.map_map]; rfl

/-- The stream of tokens that the table reads as terminals consists of terminals. -/
theorem lexed (opened : TokenStream.ofInput source.names ⟨tokens, .eof text⟩ = .ok stream)
    (spelled : word.map some = tokens.map grammar.terminalOf?)
    (named : ∀ token ∈ tokens, token.name ≠ Token.eofName) : source.Lexed stream.rest := by
  rw [rest_of_ofInput opened, Lexed, List.forall_mem_append, List.forall_mem_singleton]
  refine ⟨fun token listed t same => ?_, ?_⟩
  · obtain ⟨given, member, rfl⟩ := List.mem_map.mp listed
    obtain ⟨s, read⟩ := exists_of_spelled spelled member
    obtain ⟨symbol, declared⟩ := laysOut.symbolOf_eq wellFormed read (named given member)
    obtain rfl := Option.some.inj (symbol.symm.trans same)
    refine ⟨?_, wellFormed.mem_firsts_self (isTerminal_iff.mpr (Or.inr declared))⟩
    rintro rfl
    exact absurd (wellFormed.terminal_named declared).2 (by decide)
  · rintro _ ⟨⟩
    exact ⟨by decide, wellFormed.mem_firsts_self (isTerminal_iff.mpr (Or.inl rfl))⟩

/-- Recursive descent accepts what trees of the start symbol spell, and makes these trees, if the
table of the lowered grammar is free of conflicts. -/
theorem parse_of_spells (deterministic : (ParseTable.ofGrammar grammar).isLL1 = true)
    (acyclic : ¬ source.IsLeftRecursive) (ordered : source.VanishesLast)
    (opened : TokenStream.ofInput source.names ⟨tokens, .eof text⟩ = .ok stream)
    (lexed : source.Lexed stream.rest)
    (spells : source.Spells [.nonterminal source.start] forest
      (streamTokens source.names ⟨tokens, .eof text⟩)) :
    ∃ tree size, source.parse ⟨tokens, .eof text⟩ = some (.ok (tree, size)) ∧
      Tree.unnumberedAll forest = [tree.unnumbered] := by
  obtain ⟨expr, found⟩ := exists_expression? wellFormed.start_isNonterminal
  obtain ⟨outcome, ran⟩ := exists_descend acyclic found 1 stream
  obtain ⟨failures, descends⟩ := descends_of_descend ran
  have guidance : ∀ {s body}, source.expression? s = some body → source.Guided
      ((FollowSets.computeEbnf source (FirstSets.computeEbnf source)).get s) body :=
    laysOut.guided wellFormed deterministic ordered
  -- the start symbol is followed by the end of input
  have awaits : Awaits ((FollowSets.computeEbnf source (FirstSets.computeEbnf source)).get
      source.start) [⟨some .eof, Token.eofName, text⟩] :=
    ⟨.eof, wellFormed.eof_mem_follows_start _, by decide, rfl⟩
  have start : source.Guided ((FollowSets.computeEbnf source (FirstSets.computeEbnf source)).get
      source.start) (.nonterminal source.start) := by
    rw [Guided]
    exact fun _ member _ => member
  obtain ⟨id, children, rfl, made, last, after, rfl, left, same⟩ :=
    Faithful.node (laysOut.faithful wellFormed guidance descends) found (guidance found) start
      spells (rest_of_ofInput opened) awaits lexed
  refine ⟨.node 0 source.start none made, last, parse_of_descend opened found ran ?_, ?_⟩
  · rw [TokenStream.peekSymbol?, TokenStream.peek?, left]
    rfl
  · rw [Tree.unnumberedAll_cons, Tree.unnumberedAll_nil, Tree.unnumbered_node,
      Tree.unnumbered_node, same]

end LaysOut

/-- The nodes of the tree of an accepted input stand for declared symbols. -/
theorem lt_size_of_parse (wellFormed : source.WellFormed) {tree : Tree}
    (parsed : source.parse input = some (.ok (tree, size))) :
    ∀ node ∈ tree.nodes, node.symbol.id < source.names.size := by
  obtain ⟨expr, stream, forest, after, failures, found, opened, descends, ended, rfl⟩ :=
    parse_cases parsed
  obtain ⟨taken, kept, advances, splits, spells⟩ := descends.spells rfl
  obtain rfl := taken_eq_streamTokens opened advances ended
  rw [Tree.nodes, List.forall_mem_cons]
  refine ⟨(wellFormed.nonterminal_named wellFormed.start_isNonterminal).1,
    spells.lt_size wellFormed fun token listed t same => ?_⟩
  obtain ⟨given, -, rfl⟩ := List.mem_map.mp (splits.sublist.mem listed)
  exact NameTable.lt_size_of_name? (name?_of_symbolOf same).1

/-- Recursive descent and the table agree on sentences. Let the end of input be no terminal of the
productions, let no nonterminal lead back to itself, and let only the last part of a choice match the
empty word. If the names that lowering introduces differ from each other and from those of declared
symbols, and the table of the lowered grammar is free of conflicts, recursive descent accepts every
input that the table accepts. Its tree is the tree of the table with the introduced nonterminals
spliced out, and the names of its nodes are the same in both grammars. -/
theorem parse_agrees (wellFormed : source.WellFormed) (nodup : source.syntheticNames.Nodup)
    (distinct : ∀ name ∈ source.syntheticNames, ∀ s,
      s ∈ source.terminals.items ∨ source.isNonterminal s = true →
        source.names.name? s ≠ some name)
    (unused : ¬ source.Uses (.terminal .eof)) (acyclic : ¬ source.IsLeftRecursive)
    (ordered : source.VanishesLast) (lowered : source.toGrammar = .ok grammar)
    (deterministic : (ParseTable.ofGrammar grammar).isLL1 = true)
    (named : ∀ token ∈ tokens, token.name ≠ Token.eofName) {result : ParseResult}
    (parsed : grammar.parse (ParseTable.ofGrammar grammar) true ⟨tokens, .eof text⟩ = some result)
    (success : result.isSuccess = true) :
    ∃ tree size, source.parse ⟨tokens, .eof text⟩ = some (.ok (tree, size)) ∧
      Tree.unnumberedAll (result.tree.splice (source.introduced grammar)) = [tree.unnumbered] ∧
      ∀ node ∈ tree.nodes, ∃ name, source.names.name? node.symbol = some name ∧
        grammar.names.name? node.symbol = some name := by
  have laysOut := laysOut_of_toGrammar wellFormed nodup distinct lowered
  have rules : ∀ {s t alternative}, (ParseTable.ofGrammar grammar).get? s t = some alternative →
      grammar.HasRule s alternative := fun found => ParseTable.hasRule_of_get?_build found
  have proper : grammar.start ≠ .eof := by
    rw [laysOut.start_eq]
    intro ended
    have reserved := (wellFormed.nonterminal_named wellFormed.start_isNonterminal).2
    rw [ended] at reserved
    cases reserved
  obtain ⟨moves, halts⟩ := (Grammar.parse_eq_some_iff rules).mp parsed
  -- the tree of the table is a derivation tree of the tokens
  obtain ⟨word, spelled, root, spells⟩ := halts.spells rules
    (laysOut.eof_not_mem_symbols wellFormed unused) proper named (decide_eq_true_iff.mp success)
  rw [laysOut.start_eq] at root
  have stand : List.Forall₂ (source.Stands grammar) [.nonterminal source.start]
      ([result.tree].map Tree.symbol) := by
    rw [List.map_singleton, root]
    exact .cons (.nonterminal wellFormed.start_isNonterminal) .nil
  -- what is left of it are trees that the expressions make of the same tokens
  have trees := laysOut.spells_spliceAll wellFormed spells stand
    (laysOut.leaves_eq wellFormed text spelled named)
  rw [Tree.spliceAll_singleton] at trees
  -- recursive descent makes these trees
  obtain ⟨tree, size, accepted, same⟩ := laysOut.parse_of_spells wellFormed deterministic acyclic
    ordered rfl (laysOut.lexed wellFormed rfl spelled named) trees
  refine ⟨tree, size, accepted, same, fun node listed => ?_⟩
  have inside := lt_size_of_parse wellFormed accepted node listed
  have grown : source.names.Extends grammar.names := ⟨_, laysOut.names_eq⟩
  obtain ⟨name, called⟩ := NameTable.name?_isSome_of_lt inside
  exact ⟨name, called, (grown.name? inside).trans called⟩

/-- The production `S := a+ | b S c d? | ` with a last part that matches the empty word: on the input
`b a a c d` the tree of recursive descent is that of the table without the introduced nodes. -/
theorem parse_agrees_nested :
    ∃ source grammar, EbnfDefinition.ofSteps [.terminal "a", .terminal "b", .terminal "c",
        .terminal "d", .nonterminal "S",
        .rule ⟨6⟩ (.choice [.oneOrMore (.terminal ⟨2⟩),
          .chain [.terminal ⟨3⟩, .nonterminal ⟨6⟩, .terminal ⟨4⟩, .optional (.terminal ⟨5⟩)],
          .chain []])] = .ok source ∧
      source.toGrammar = .ok grammar ∧
      ∃ result tree size, grammar.parse (ParseTable.ofGrammar grammar) true
          ⟨[⟨"b", "1"⟩, ⟨"a", "2"⟩, ⟨"a", "3"⟩, ⟨"c", "4"⟩, ⟨"d", "5"⟩], .eof ""⟩ = some result ∧
        result.isSuccess = true ∧
        source.parse ⟨[⟨"b", "1"⟩, ⟨"a", "2"⟩, ⟨"a", "3"⟩, ⟨"c", "4"⟩, ⟨"d", "5"⟩], .eof ""⟩ =
          some (.ok (tree, size)) ∧
        Tree.unnumberedAll (result.tree.splice (source.introduced grammar)) =
          [tree.unnumbered] := by
  obtain ⟨source, defined, wellFormed, passes⟩ := EbnfDefinition.exists_of_ofSteps
    [.terminal "a", .terminal "b", .terminal "c", .terminal "d", .nonterminal "S",
      .rule ⟨6⟩ (.choice [.oneOrMore (.terminal ⟨2⟩),
        .chain [.terminal ⟨3⟩, .nonterminal ⟨6⟩, .terminal ⟨4⟩, .optional (.terminal ⟨5⟩)],
        .chain []])]
    (fun source => source.distinctNames && source.toGrammar.toOption.any fun grammar =>
      (ParseTable.ofGrammar grammar).isLL1 &&
        (grammar.parse (ParseTable.ofGrammar grammar) true
          ⟨[⟨"b", "1"⟩, ⟨"a", "2"⟩, ⟨"a", "3"⟩, ⟨"c", "4"⟩, ⟨"d", "5"⟩], .eof ""⟩).any
            ParseResult.isSuccess) (by decide +kernel)
  simp only [Bool.and_eq_true, distinctNames_iff, Option.any_eq_true] at passes
  obtain ⟨⟨nodup, distinct⟩, grammar, lowered, deterministic, result, parsed, success⟩ := passes
  rw [toOption_eq_some_iff] at lowered
  have only : ∀ {s expr}, source.expression? s = some expr → expr = .choice
      [.oneOrMore (.terminal ⟨2⟩),
        .chain [.terminal ⟨3⟩, .nonterminal ⟨6⟩, .terminal ⟨4⟩, .optional (.terminal ⟨5⟩)],
        .chain []] := by
    intro s expr found
    have given := EbnfDefinition.rule_mem_of_ofSteps defined found
    simp only [List.mem_cons, reduceCtorEq, false_or, List.not_mem_nil, or_false,
      EbnfDefinition.Step.rule.injEq] at given
    exact given.2
  -- the production is made of these expressions
  have used : ∀ {expr}, source.Uses expr → expr ∈ [.choice [.oneOrMore (.terminal ⟨2⟩),
        .chain [.terminal ⟨3⟩, .nonterminal ⟨6⟩, .terminal ⟨4⟩, .optional (.terminal ⟨5⟩)],
        .chain []],
      .oneOrMore (.terminal ⟨2⟩), .terminal ⟨2⟩,
      .chain [.terminal ⟨3⟩, .nonterminal ⟨6⟩, .terminal ⟨4⟩, .optional (.terminal ⟨5⟩)],
      .terminal ⟨3⟩, .nonterminal ⟨6⟩, .terminal ⟨4⟩, .optional (.terminal ⟨5⟩), .terminal ⟨5⟩,
      .chain []] := by
    intro expr uses
    induction uses with
    | root found => exact only found ▸ List.mem_cons_self
    | chain _ member ih =>
      simp only [List.mem_cons, reduceCtorEq, Expr.chain.injEq, List.not_mem_nil, or_false,
        false_or] at ih
      rcases ih with rfl | rfl
      · simp only [List.mem_cons, List.not_mem_nil, or_false] at member ⊢
        tauto
      · cases member
    | choice _ member ih =>
      simp only [List.mem_cons, reduceCtorEq, Expr.choice.injEq, List.not_mem_nil, or_false] at ih
      subst ih
      simp only [List.mem_cons, List.not_mem_nil, or_false] at member ⊢
      tauto
    | optional _ ih => simp_all
    | zeroOrMore _ ih => simp at ih
    | oneOrMore _ ih => simp_all
  have unused : ¬ source.Uses (.terminal .eof) := fun uses => by
    simpa [Symbol.eof] using used uses
  have solid : ∀ {t rest word}, source.Matches (.terminal t :: rest) word → word ≠ [] := by
    rintro t rest _ ⟨⟩
    exact List.cons_ne_nil _ _
  have ordered : source.VanishesLast := by
    intro parts uses part listed vanishes
    have shape := used uses
    simp only [List.mem_cons, Expr.choice.injEq, reduceCtorEq, List.not_mem_nil, or_false] at shape
    rw [shape] at listed
    simp only [List.dropLast, List.mem_cons, List.not_mem_nil, or_false] at listed
    generalize split : ([] : List Symbol) = word at vanishes
    rcases listed with rfl | rfl
    · cases vanishes with
      | oneOrMore inner =>
        rw [eq_comm, List.append_eq_nil_iff, List.append_eq_nil_iff] at split
        exact solid inner split.1.1
    · cases vanishes with
      | chain inner =>
        rw [eq_comm, List.append_eq_nil_iff] at split
        exact solid inner split.1
  have acyclic : ¬ source.IsLeftRecursive := by
    rintro ⟨s, cycle⟩
    obtain ⟨t, ⟨expr, found, corner⟩, -⟩ := Relation.TransGen.head'_iff.mp cycle
    rw [only found] at corner
    cases corner with
    | choice member corner =>
      simp only [List.mem_cons, List.not_mem_nil, or_false] at member
      rcases member with rfl | rfl | rfl
      · cases corner with
        | oneOrMore corner => cases corner
      · cases corner with
        | head corner => cases corner
        | tail vanishes => exact solid vanishes rfl
      · cases corner
  obtain ⟨tree, size, accepted, same, -⟩ := parse_agrees wellFormed nodup distinct unused acyclic
    ordered lowered deterministic (by decide) parsed success
  exact ⟨source, grammar, defined, lowered, result, tree, size, parsed, success, accepted, same⟩

end EbnfGrammar

end Predictive
