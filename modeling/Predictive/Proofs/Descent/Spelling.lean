import Predictive.Proofs.Descent.Run
import Predictive.Proofs.Ebnf.Matching
import Predictive.Ebnf.Lowering
import Predictive.Analysis.Table

/-!
# What the trees of recursive descent spell

A run that matches an expression makes trees of it, and the leaves of these trees are tokens that
the run took, in their order. What they spell is matched by the expression. Tokens that were taken
and are not among the leaves were taken by parts that failed and were passed over: nothing else is
lost, and nothing comes twice. So an input may be accepted although it is no sentence, but only
with a failed part that took some of its tokens.

## Main definitions

* `EbnfGrammar.Spells` — the trees that expressions make, and the tokens at their leaves
* `Tree.taken` — the symbols and texts of the nodes that matched a token

## Main results

* `EbnfGrammar.Spells.matches` — what trees spell is matched
* `EbnfGrammar.Spells.taken` — the leaves of the trees are the tokens
* `EbnfGrammar.Descends.spells` — what a run takes, keeps and loses
* `EbnfGrammar.parse_keeps_sentence` — what an accepted input and its tree have in common
-/

namespace Predictive

/-- Whether an expression is a single symbol. -/
def Expr.isSymbol : Expr → Bool
  | .terminal _ => true
  | .nonterminal _ => true
  | _ => false

namespace Tree

/-- The symbols and texts of the nodes of a list of trees that matched a token, in order. -/
def takenOfAll (trees : List Tree) : List (Symbol × String) :=
  (nodesOfAll trees).filterMap fun node => node.text?.map (node.symbol, ·)

/-- The symbols and texts of the nodes that matched a token, in order. -/
def taken (tree : Tree) : List (Symbol × String) := takenOfAll [tree]

variable {id : Nat} {s : Symbol} {text : String} {children trees front back : List Tree}

@[simp] theorem takenOfAll_nil : takenOfAll [] = [] := rfl

@[simp] theorem takenOfAll_leaf :
    takenOfAll (.node id s (some text) [] :: trees) = (s, text) :: takenOfAll trees := by
  simp [takenOfAll, nodesOfAll, nodes, text?, symbol]

@[simp] theorem takenOfAll_node :
    takenOfAll (.node id s none children :: trees) = takenOfAll children ++ takenOfAll trees := by
  simp [takenOfAll, nodesOfAll, nodes, text?]

@[simp] theorem takenOfAll_append :
    takenOfAll (front ++ back) = takenOfAll front ++ takenOfAll back := by
  unfold takenOfAll
  rw [nodesOfAll_append, List.filterMap_append]

end Tree

namespace EbnfGrammar

variable {source : EbnfGrammar} {expr part body : Expr} {parts rest : List Expr}
  {trees front back forest : List Tree} {word first second : List StreamToken}

/-- The trees that expressions make one after the other, and the tokens at their leaves. Only
symbols make nodes. -/
inductive Spells (source : EbnfGrammar) : List Expr → List Tree → List StreamToken → Prop where
  /-- No expression makes no trees. -/
  | nil : Spells source [] [] []
  /-- A terminal makes a leaf of a token. -/
  | terminal (id : Nat) {s : Symbol} {token : StreamToken} {rest : List Expr} {trees : List Tree}
      {word : List StreamToken} (same : token.symbol = some s)
      (others : Spells source rest trees word) :
      Spells source (.terminal s :: rest) (.node id s (some token.token.text) [] :: trees)
        (token :: word)
  /-- A nonterminal makes a node of what its expression makes. -/
  | nonterminal (id : Nat) {s : Symbol} {body : Expr} {rest : List Expr}
      {children trees : List Tree} {first word : List StreamToken}
      (found : source.expression? s = some body) (inner : Spells source [body] children first)
      (others : Spells source rest trees word) :
      Spells source (.nonterminal s :: rest) (.node id s none children :: trees) (first ++ word)
  /-- Any other expression makes what it is replaced by makes. -/
  | inline {expr : Expr} {parts rest : List Expr} {front trees : List Tree}
      {first word : List StreamToken} (compound : expr.isSymbol = false)
      (expands : source.Expands expr parts) (inner : Spells source parts front first)
      (others : Spells source rest trees word) :
      Spells source (expr :: rest) (front ++ trees) (first ++ word)

namespace Spells

theorem cons (head : source.Spells [part] front first) (tail : source.Spells rest back second) :
    source.Spells (part :: rest) (front ++ back) (first ++ second) := by
  cases head with
  | terminal id same others =>
    cases others
    exact .terminal id same tail
  | nonterminal id found inner others =>
    cases others
    simpa using Spells.nonterminal id found inner tail
  | inline compound expands inner others =>
    cases others
    simpa using Spells.inline compound expands inner tail

/-- The trees of the first expression come before those of the others. -/
theorem of_cons (spells : source.Spells (part :: rest) trees word) :
    ∃ front back first second, trees = front ++ back ∧ word = first ++ second ∧
      source.Spells [part] front first ∧ source.Spells rest back second := by
  cases spells with
  | @terminal id s token _ trees word same others =>
    exact ⟨[_], trees, [token], word, rfl, rfl, .terminal id same .nil, others⟩
  | nonterminal id found inner others =>
    exact ⟨[_], _, _, _, rfl, rfl, by simpa using Spells.nonterminal id found inner .nil, others⟩
  | inline compound expands inner others =>
    exact ⟨_, _, _, _, rfl, rfl, by simpa using Spells.inline compound expands inner .nil, others⟩

theorem nil_iff : source.Spells [] trees word ↔ trees = [] ∧ word = [] := by
  constructor
  · intro spells
    cases spells
    exact ⟨rfl, rfl⟩
  · rintro ⟨rfl, rfl⟩
    exact .nil

/-! ### Expressions that are no symbols -/

theorem inline_iff (compound : expr.isSymbol = false) :
    source.Spells [expr] trees word ↔
      ∃ parts, source.Expands expr parts ∧ source.Spells parts trees word := by
  constructor
  · intro spells
    cases spells with
    | terminal => cases compound
    | nonterminal => cases compound
    | inline _ expands inner others =>
      cases others
      exact ⟨_, expands, by simpa using inner⟩
  · rintro ⟨parts, expands, inner⟩
    simpa using Spells.inline compound expands inner .nil

theorem chain_iff : source.Spells [.chain parts] trees word ↔ source.Spells parts trees word := by
  rw [inline_iff rfl]
  constructor
  · rintro ⟨_, ⟨⟩, inner⟩
    exact inner
  · exact fun inner => ⟨parts, .chain parts, inner⟩

theorem choice_iff : source.Spells [.choice parts] trees word ↔
    ∃ part ∈ parts, source.Spells [part] trees word := by
  rw [inline_iff rfl]
  constructor
  · rintro ⟨_, expands, inner⟩
    cases expands with
    | choice member => exact ⟨_, member, inner⟩
  · rintro ⟨part, member, inner⟩
    exact ⟨[part], .choice member, inner⟩

theorem optional_iff : source.Spells [.optional body] trees word ↔
    (trees = [] ∧ word = []) ∨ source.Spells [body] trees word := by
  rw [inline_iff rfl, ← @nil_iff source]
  constructor
  · rintro ⟨_, ⟨⟩, inner⟩
    · exact Or.inr inner
    · exact Or.inl inner
  · rintro (inner | inner)
    · exact ⟨[], .optionalNone body, inner⟩
    · exact ⟨[body], .optionalSome body, inner⟩

theorem zeroOrMore_iff : source.Spells [.zeroOrMore body] trees word ↔
    (trees = [] ∧ word = []) ∨ source.Spells [body, .zeroOrMore body] trees word := by
  rw [inline_iff rfl, ← @nil_iff source]
  constructor
  · rintro ⟨_, ⟨⟩, inner⟩
    · exact Or.inr inner
    · exact Or.inl inner
  · rintro (inner | inner)
    · exact ⟨[], .zeroOrMoreNone body, inner⟩
    · exact ⟨_, .zeroOrMoreSome body, inner⟩

theorem oneOrMore_iff : source.Spells [.oneOrMore body] trees word ↔
    source.Spells [body, .zeroOrMore body] trees word := by
  rw [inline_iff rfl]
  constructor
  · rintro ⟨_, ⟨⟩, inner⟩
    exact inner
  · exact fun inner => ⟨_, .oneOrMore body, inner⟩

end Spells

/-! ### Words and leaves -/

/-- What trees spell is matched. -/
theorem Spells.matches (spells : source.Spells parts trees word) :
    ∃ symbols, word.map StreamToken.symbol = symbols.map some ∧ source.Matches parts symbols := by
  induction spells with
  | nil => exact ⟨[], rfl, .nil⟩
  | @terminal _ s _ _ _ _ same _ ih =>
    obtain ⟨symbols, named, matched⟩ := ih
    exact ⟨s :: symbols, by simp [same, named], .terminal s matched⟩
  | nonterminal _ found _ _ ihInner ih =>
    obtain ⟨inside, named, inner⟩ := ihInner
    obtain ⟨symbols, named', matched⟩ := ih
    exact ⟨inside ++ symbols, by simp [named, named'], .nonterminal found inner matched⟩
  | inline _ expands _ _ ihInner ih =>
    obtain ⟨inside, named, inner⟩ := ihInner
    obtain ⟨symbols, named', matched⟩ := ih
    exact ⟨inside ++ symbols, by simp [named, named'], expands.matches inner matched⟩

/-- Trees without tokens are made of expressions that match the empty word. -/
theorem Spells.matches_nil (spells : source.Spells parts trees []) : source.Matches parts [] := by
  obtain ⟨symbols, named, matched⟩ := spells.matches
  rw [List.map_nil, eq_comm, List.map_eq_nil_iff] at named
  exact named ▸ matched

/-- The leaves of the trees are the tokens. -/
theorem Spells.taken (spells : source.Spells parts trees word) :
    (Tree.takenOfAll trees).map (fun leaf => (some leaf.1, leaf.2)) =
      word.map fun token => (token.symbol, token.token.text) := by
  induction spells with
  | nil => rfl
  | terminal _ same _ ih => simp [same, ih]
  | nonterminal _ _ _ _ ihInner ih => simp [ihInner, ih]
  | inline _ _ _ _ ihInner ih => simp [ihInner, ih]

/-- A leaf has the symbol and the text of its token. -/
theorem Spells.taken_eq_zip {symbols : List Symbol} (spells : source.Spells parts trees word)
    (named : word.map StreamToken.symbol = symbols.map some) :
    Tree.takenOfAll trees = symbols.zip (word.map fun token => token.token.text) := by
  have injective : Function.Injective fun leaf : Symbol × String => (some leaf.1, leaf.2) := by
    rintro ⟨s, text⟩ ⟨s', text'⟩ same
    simpa using same
  apply injective.list_map
  rw [spells.taken, ← List.zip_map', named, List.zip_map_left]
  rfl

/-! ### What a run takes, keeps and loses -/

/-- Tokens that were taken, in two parts: those that are kept, in their order, and those that are
lost. -/
structure Splits (taken kept lost : List StreamToken) : Prop where
  /-- What is kept stays in order. -/
  sublist : kept.Sublist taken
  /-- Every token is kept or lost, once. -/
  perm : taken.Perm (kept ++ lost)

theorem splits_nil : Splits [] [] [] := ⟨.slnil, .nil⟩

/-- All tokens are kept. -/
theorem splits_kept (taken : List StreamToken) : Splits taken taken [] :=
  ⟨.refl taken, by simp⟩

/-- All tokens are lost. -/
theorem splits_lost (taken : List StreamToken) : Splits taken [] taken :=
  ⟨List.nil_sublist taken, .refl taken⟩

theorem Splits.append {taken kept lost taken' kept' lost' : List StreamToken}
    (first : Splits taken kept lost) (second : Splits taken' kept' lost') :
    Splits (taken ++ taken') (kept ++ kept') (lost ++ lost') := by
  refine ⟨first.sublist.append second.sublist, ?_⟩
  calc (taken ++ taken').Perm ((kept ++ lost) ++ (kept' ++ lost')) :=
        first.perm.append second.perm
    _ = kept ++ (lost ++ kept') ++ lost' := by simp
    _ |>.Perm (kept ++ (kept' ++ lost) ++ lost') :=
        (List.perm_append_comm.append_left kept).append_right lost'
    _ = (kept ++ kept') ++ (lost ++ lost') := by simp

variable {size last : Nat} {stream after : TokenStream} {outcome : Descent}
  {failures : List (Expr × List StreamToken)}

/-- A run that matches makes trees of tokens that it took, and loses no others than those of the
parts that it passed over. -/
theorem Descends.spells (descends : source.Descends expr size stream outcome failures)
    (matched : outcome = .matched forest last after) :
    ∃ taken kept, stream.Advances after taken ∧ Splits taken kept (failures.flatMap Prod.snd) ∧
      source.Spells [expr] forest kept := by
  induction descends generalizing forest last after with
  | terminal s size stream =>
    rcases takeTerminal_cases s size stream with
      ⟨token, rest, same, advances, taken⟩ | ⟨-, stays⟩
    · rw [taken] at matched
      cases matched
      exact ⟨[token], [token], advances, splits_kept _, .terminal size same .nil⟩
    · rw [stays] at matched
      cases matched
  | undefined => cases matched
  | @nonterminal s _ _ number _ _ _ _ found _ ih =>
    cases matched
    obtain ⟨taken, kept, advances, splits, spells⟩ := ih rfl
    exact ⟨taken, kept, advances, splits, by simpa using Spells.nonterminal number found spells .nil⟩
  | nonterminalFailed => cases matched
  | chainNil size stream =>
    cases matched
    exact ⟨[], [], .refl stream, splits_nil, Spells.chain_iff.mpr .nil⟩
  | chainCons _ _ ihFirst ihLater =>
    obtain ⟨back, rfl, rfl⟩ := Descent.after_eq_matched_iff.mp matched
    obtain ⟨taken, kept, advances, splits, spells⟩ := ihFirst rfl
    obtain ⟨taken', kept', advances', splits', spells'⟩ := ihLater rfl
    refine ⟨_, _, advances.trans advances', ?_,
      Spells.chain_iff.mpr (spells.cons (Spells.chain_iff.mp spells'))⟩
    simpa using splits.append splits'
  | chainFailed => cases matched
  | choiceNil => cases matched
  | choiceMatched rest _ ih =>
    cases matched
    obtain ⟨taken, kept, advances, splits, spells⟩ := ih rfl
    exact ⟨taken, kept, advances, splits, Spells.choice_iff.mpr ⟨_, List.mem_cons_self, spells⟩⟩
  | choiceNext first _ _ ihLater =>
    obtain ⟨taken, kept, advances, splits, spells⟩ := ihLater matched
    obtain ⟨part, member, inner⟩ := Spells.choice_iff.mp spells
    refine ⟨_, _, first.advances_of_failed.trans advances, ?_,
      Spells.choice_iff.mpr ⟨part, List.mem_cons_of_mem _ member, inner⟩⟩
    rw [List.flatMap_cons]
    exact (splits_lost _).append splits
  | optionalMatched _ ih =>
    cases matched
    obtain ⟨taken, kept, advances, splits, spells⟩ := ih rfl
    exact ⟨taken, kept, advances, splits, Spells.optional_iff.mpr (Or.inr spells)⟩
  | optionalFailed inner =>
    cases matched
    refine ⟨_, [], inner.advances_of_failed, ?_, Spells.optional_iff.mpr (Or.inl ⟨rfl, rfl⟩)⟩
    simpa using splits_lost _
  | manyFailed inner =>
    cases matched
    refine ⟨_, [], inner.advances_of_failed, ?_, Spells.zeroOrMore_iff.mpr (Or.inl ⟨rfl, rfl⟩)⟩
    simpa using splits_lost _
  | manyIdle _ idle ih =>
    cases matched
    obtain ⟨taken, kept, advances, splits, -⟩ := ih rfl
    -- nothing was taken, so that there is nothing to keep or to lose
    obtain rfl := advances.taken_eq_nil idle
    obtain rfl := List.eq_nil_of_sublist_nil splits.sublist
    exact ⟨[], [], advances, splits, Spells.zeroOrMore_iff.mpr (Or.inl ⟨rfl, rfl⟩)⟩
  | manyAgain _ _ _ ihInner ihLater =>
    obtain ⟨back, rfl, rfl⟩ := Descent.after_eq_matched_iff.mp matched
    obtain ⟨taken, kept, advances, splits, spells⟩ := ihInner rfl
    obtain ⟨taken', kept', advances', splits', spells'⟩ := ihLater rfl
    refine ⟨_, _, advances.trans advances', ?_,
      Spells.zeroOrMore_iff.mpr (Or.inr (spells.cons spells'))⟩
    simpa using splits.append splits'
  | oneOrMore _ _ ihInner ihLater =>
    obtain ⟨back, rfl, rfl⟩ := Descent.after_eq_matched_iff.mp matched
    obtain ⟨taken, kept, advances, splits, spells⟩ := ihInner rfl
    obtain ⟨taken', kept', advances', splits', spells'⟩ := ihLater rfl
    refine ⟨_, _, advances.trans advances', ?_,
      Spells.oneOrMore_iff.mpr (spells.cons spells')⟩
    simpa using splits.append splits'
  | oneOrMoreFailed => cases matched

/-- A match without a token makes trees without leaves. -/
theorem Descends.spells_nil
    (descends : source.Descends expr size stream (.matched forest last stream) failures) :
    source.Spells [expr] forest [] := by
  obtain ⟨taken, kept, advances, splits, spells⟩ := descends.spells rfl
  obtain rfl := advances.taken_eq_nil (Nat.lt_irrefl _)
  obtain rfl := List.eq_nil_of_sublist_nil splits.sublist
  exact spells

/-! ### Whole inputs -/

/-- The tokens of the stream of an input; the end of input comes behind them. -/
def streamTokens (names : NameTable) (input : Input) : List StreamToken :=
  input.tokens.map fun token => ⟨TokenStream.symbolOf names token.name, token⟩

/-- Reserved symbols name no token. -/
theorem name?_of_symbolOf {names : NameTable} {name : String} {s : Symbol}
    (found : TokenStream.symbolOf names name = some s) :
    names.name? s = some name ∧ s.isReserved = false := by
  unfold TokenStream.symbolOf at found
  rw [Option.filter_eq_some_iff] at found
  exact ⟨NameTable.get?_eq_some_iff.mp found.1, by simpa using found.2⟩

/-- The symbols of tokens bear their names. -/
theorem name?_of_symbols {names : NameTable} : ∀ {tokens : List Token} {word : List Symbol},
    (tokens.map fun token => TokenStream.symbolOf names token.name) = word.map some →
      word.map names.name? = tokens.map fun token => some token.name
  | [], [], _ => rfl
  | token :: tokens, s :: word, same => by
    rw [List.map_cons, List.map_cons, List.cons.injEq] at same
    rw [List.map_cons, List.map_cons, (name?_of_symbolOf same.1).1, name?_of_symbols same.2]

/-- The end of input comes last only. -/
theorem symbol_ne_eof {names : NameTable} {input : Input} {token : StreamToken}
    (member : token ∈ streamTokens names input) : token.symbol ≠ some .eof := by
  intro ends
  obtain ⟨read, -, rfl⟩ := List.mem_map.mp member
  exact absurd (name?_of_symbolOf ends).2 (by decide)

/-- A run up to the end of input takes every token in front of it. -/
theorem taken_eq_streamTokens {names : NameTable} {input : Input} {taken : List StreamToken}
    (opened : TokenStream.ofInput names input = .ok stream) (advances : stream.Advances after taken)
    (ended : after.peekSymbol? = some .eof) : taken = streamTokens names input := by
  unfold TokenStream.ofInput at opened
  split at opened
  · cases opened
  · cases opened
    have divided := advances.rest_eq
    cases behind : after.rest with
    | nil => simp [TokenStream.peekSymbol?, TokenStream.peek?, behind] at ended
    | cons last others =>
      have ends : last.symbol = some .eof := by
        simpa [TokenStream.peekSymbol?, TokenStream.peek?, behind] using ended
      have inside : last ∉ streamTokens names input := fun member => symbol_ne_eof member ends
      rw [behind] at divided
      exact ((List.append_cons_inj_of_notMem inside List.not_mem_nil).mp divided).1.symm

theorem parse_cases {input : Input} {tree : Tree}
    (parsed : source.parse input = some (.ok (tree, size))) :
    ∃ expr stream forest after failures, source.expression? source.start = some expr ∧
      TokenStream.ofInput source.names input = .ok stream ∧
      source.Descends expr 1 stream (.matched forest size after) failures ∧
      after.peekSymbol? = some .eof ∧ tree = .node 0 source.start none forest := by
  unfold parse at parsed
  split at parsed
  · cases parsed
  · next stream opened =>
    split at parsed
    · cases parsed
    · next expr found =>
      obtain ⟨outcome, ran, concluded⟩ := Option.map_eq_some_iff.mp parsed
      obtain ⟨failures, descends⟩ := descends_of_descend ran
      unfold conclude at concluded
      split at concluded
      · cases concluded
      · split at concluded
        · next ended =>
          cases concluded
          exact ⟨expr, stream, _, _, failures, found, opened, descends, ended, rfl⟩
        · cases concluded

/-- What an accepted input and its tree have in common. The leaves of the tree are tokens of the
input, in their order, and what they spell is a sentence. The other tokens of the input were all
taken by parts that failed and were passed over; so the input is the sentence that its tree spells
if and only if no such part took a token. -/
theorem parse_keeps_sentence {input : Input} {tree : Tree}
    (parsed : source.parse input = some (.ok (tree, size))) :
    ∃ expr stream forest after failures, source.expression? source.start = some expr ∧
      TokenStream.ofInput source.names input = .ok stream ∧
      source.Descends expr 1 stream (.matched forest size after) failures ∧
      tree = .node 0 source.start none forest ∧
      ∃ (kept : List Token) (word : List Symbol), kept.Sublist input.tokens ∧
        input.tokens.Perm (kept ++ (failures.flatMap Prod.snd).map StreamToken.token) ∧
        word.map source.names.name? = kept.map (fun token => some token.name) ∧
        source.Matches [.nonterminal source.start] word ∧
        tree.taken = word.zip (kept.map Token.text) ∧
        (kept = input.tokens ↔ ∀ failure ∈ failures, failure.2 = []) := by
  obtain ⟨expr, stream, forest, after, failures, found, opened, descends, ended, rfl⟩ :=
    parse_cases parsed
  refine ⟨expr, stream, forest, after, failures, found, opened, descends, rfl, ?_⟩
  obtain ⟨taken, keptOfStream, advances, splits, inner⟩ := descends.spells rfl
  obtain rfl := taken_eq_streamTokens opened advances ended
  obtain ⟨kept, inOrder, rfl⟩ := List.sublist_map_iff.mp splits.sublist
  have spells : source.Spells [.nonterminal source.start] [.node 0 source.start none forest] _ :=
    .nonterminal 0 found inner .nil
  rw [List.append_nil] at spells
  obtain ⟨word, named, matched⟩ := spells.matches
  have complete := splits.perm.map StreamToken.token
  simp only [streamTokens, List.map_append, List.map_map, Function.comp_def,
    List.map_id'] at complete
  refine ⟨kept, word, inOrder, complete, ?_, matched, ?_, ?_⟩
  · rw [List.map_map] at named
    exact name?_of_symbols named
  · have leaves := spells.taken_eq_zip named
    rw [List.map_map] at leaves
    exact leaves
  · have counted := complete.length_eq
    rw [List.length_append, List.length_map] at counted
    rw [← List.flatMap_eq_nil_iff]
    constructor
    · intro same
      rw [same] at counted
      exact List.length_eq_zero_iff.mp (by omega)
    · intro nothing
      rw [nothing, List.length_nil, Nat.add_zero] at counted
      exact inOrder.eq_of_length counted.symm

/-- The accepted inputs of the production `S := (a b)? c` are not all sentences, although the table
of its lowered grammar is free of conflicts: on `a c` the optional expression takes `a` before it
fails, and the tree shows `c` alone. -/
theorem not_parse_spells_input :
    ∃ source, EbnfDefinition.ofSteps [.terminal "a", .terminal "b", .terminal "c", .nonterminal "S",
        .rule ⟨5⟩ (.chain [.optional (.chain [.terminal ⟨2⟩, .terminal ⟨3⟩]), .terminal ⟨4⟩])] =
          .ok source ∧
      (∃ grammar, source.toGrammar = .ok grammar ∧
        (ParseTable.build grammar (.compute grammar)
          (.compute grammar (.compute grammar))).isLL1 = true) ∧
      ∃ tree size, source.parse ⟨[⟨"a", "1"⟩, ⟨"c", "2"⟩], .eof ""⟩ = some (.ok (tree, size)) ∧
        ¬ (source.Matches [.nonterminal source.start] [⟨2⟩, ⟨4⟩] ∧
          tree.taken.map Prod.snd = ["1", "2"]) := by
  obtain ⟨source, defined, -, passes⟩ := EbnfDefinition.exists_of_ofSteps
    [.terminal "a", .terminal "b", .terminal "c", .nonterminal "S",
      .rule ⟨5⟩ (.chain [.optional (.chain [.terminal ⟨2⟩, .terminal ⟨3⟩]), .terminal ⟨4⟩])]
    (fun source => source.toGrammar.toOption.any (fun grammar =>
        (ParseTable.build grammar (.compute grammar)
          (.compute grammar (.compute grammar))).isLL1) &&
      (source.parse ⟨[⟨"a", "1"⟩, ⟨"c", "2"⟩], .eof ""⟩).any fun result =>
        result.toOption.any fun outcome => decide (outcome.1.taken.map Prod.snd ≠ ["1", "2"]))
    (by decide +kernel)
  simp only [Bool.and_eq_true, Option.any_eq_true, decide_eq_true_eq] at passes
  obtain ⟨⟨grammar, lowered, free⟩, result, parsed, ⟨tree, size⟩, accepted, differs⟩ := passes
  refine ⟨source, defined, ⟨grammar, toOption_eq_some_iff.mp lowered, free⟩, tree, size, ?_,
    fun claimed => differs claimed.2⟩
  rw [parsed, toOption_eq_some_iff.mp accepted]

/-- With the production `S := (a b)? c`, what is left of the input `a c` is the sentence `c`. -/
theorem parse_keeps_sentence_optional :
    ∃ source, EbnfDefinition.ofSteps [.terminal "a", .terminal "b", .terminal "c", .nonterminal "S",
        .rule ⟨5⟩ (.chain [.optional (.chain [.terminal ⟨2⟩, .terminal ⟨3⟩]), .terminal ⟨4⟩])] =
          .ok source ∧
      ∃ tree size, source.parse ⟨[⟨"a", "1"⟩, ⟨"c", "2"⟩], .eof ""⟩ = some (.ok (tree, size)) ∧
        tree.taken = [(⟨4⟩, "2")] ∧ source.Matches [.nonterminal source.start] [⟨4⟩] := by
  obtain ⟨source, defined, -, passes⟩ := EbnfDefinition.exists_of_ofSteps
    [.terminal "a", .terminal "b", .terminal "c", .nonterminal "S",
      .rule ⟨5⟩ (.chain [.optional (.chain [.terminal ⟨2⟩, .terminal ⟨3⟩]), .terminal ⟨4⟩])]
    (fun source => (source.parse ⟨[⟨"a", "1"⟩, ⟨"c", "2"⟩], .eof ""⟩).any fun result =>
      result.toOption.any fun outcome => decide (outcome.1.taken = [(⟨4⟩, "2")])) (by decide +kernel)
  simp only [Option.any_eq_true, decide_eq_true_eq] at passes
  obtain ⟨result, parsed, ⟨tree, size⟩, accepted, leaves⟩ := passes
  rw [toOption_eq_some_iff.mp accepted] at parsed
  obtain ⟨-, -, -, -, -, -, -, -, -, kept, word, -, -, named, matched, spelled, -⟩ :=
    parse_keeps_sentence parsed
  refine ⟨source, defined, tree, size, parsed, leaves, ?_⟩
  have counted : word.length = (kept.map Token.text).length := by
    simpa using congrArg List.length named
  have symbols := List.map_fst_zip (Nat.le_of_eq counted)
  rw [← spelled, leaves] at symbols
  rwa [← symbols] at matched

end EbnfGrammar

end Predictive
