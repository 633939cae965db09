import Predictive.Proofs.Descent.Lookahead
import Predictive.Proofs.Descent.Trees
import Predictive.Proofs.Ebnf.Decision

/-!
# Recursive descent on sentences

An expression is guided if one lookahead answers every question in it, if what is handed down to
its nonterminals follows them, and if a part of a choice that matches the empty word comes last.
Recursive descent that is guided makes no wrong move in front of a sentence. A part that is tried in
vain takes no token, and a part that matches is the one that the sentence asks for. So the trees
that a sentence has are the trees that recursive descent makes, up to the numbers of their nodes.

## Main definitions

* `Tree.unnumbered` — a tree without the numbers of its nodes
* `EbnfGrammar.Guided` — expressions in which recursive descent makes no wrong move
* `Descent.Reads` — an outcome that makes given trees and leaves given tokens
* `EbnfGrammar.Faithful` — an outcome that is right for every sentence

## Main results

* `EbnfGrammar.LaysOut.stays_of_apart` — a part that is tried in vain takes no token
* `EbnfGrammar.LaysOut.faithful` — recursive descent that is guided makes the trees of a sentence
* `EbnfGrammar.LaysOut.guided` — expressions are guided if the table is free of conflicts
-/

namespace Predictive

namespace Tree

mutual

/-- A tree without the numbers of its nodes. -/
def unnumbered : Tree → Tree
  | .node _ s text children => .node 0 s text (unnumberedAll children)

/-- Trees without the numbers of their nodes. -/
def unnumberedAll : List Tree → List Tree
  | [] => []
  | tree :: rest => tree.unnumbered :: unnumberedAll rest

end

@[simp] theorem unnumbered_node {id : Nat} {s : Symbol} {text : Option String}
    {children : List Tree} :
    (node id s text children).unnumbered = node 0 s text (unnumberedAll children) := by
  rw [unnumbered]

@[simp] theorem unnumberedAll_nil : unnumberedAll [] = [] := rfl

@[simp] theorem unnumberedAll_cons {tree : Tree} {rest : List Tree} :
    unnumberedAll (tree :: rest) = tree.unnumbered :: unnumberedAll rest := by
  rw [unnumberedAll]

@[simp] theorem unnumberedAll_append {front back : List Tree} :
    unnumberedAll (front ++ back) = unnumberedAll front ++ unnumberedAll back := by
  induction front with
  | nil => rfl
  | cons tree rest ih => simp [ih]

end Tree

/-- An outcome that is a match, makes the given trees up to their numbers, and leaves the given
tokens. -/
def Descent.Reads (outcome : Descent) (forest : List Tree) (rest : List StreamToken) : Prop :=
  ∃ made last after, outcome = .matched made last after ∧ after.rest = rest ∧
    Tree.unnumberedAll made = Tree.unnumberedAll forest

namespace Descent

variable {outcome : Descent} {made forest front back : List Tree} {last : Nat}
  {after : TokenStream} {rest : List StreamToken}

theorem reads_matched_iff : (matched made last after).Reads forest rest ↔
    after.rest = rest ∧ Tree.unnumberedAll made = Tree.unnumberedAll forest := by
  constructor
  · rintro ⟨_, _, _, ⟨⟩, left, same⟩
    exact ⟨left, same⟩
  · rintro ⟨left, same⟩
    exact ⟨made, last, after, rfl, left, same⟩

theorem not_reads_failed : ¬ (failed after).Reads forest rest := by
  rintro ⟨_, _, _, ⟨⟩, -⟩

theorem Reads.prepend (reads : outcome.Reads back rest)
    (same : Tree.unnumberedAll made = Tree.unnumberedAll front) :
    (outcome.after made).Reads (front ++ back) rest := by
  obtain ⟨others, last, after, rfl, left, further⟩ := reads
  refine reads_matched_iff.mpr ⟨left, ?_⟩
  rw [Tree.unnumberedAll_append, Tree.unnumberedAll_append, same, further]

end Descent

namespace EbnfGrammar

open FirstSets (computeEbnf)

/-- No terminal speaks both for an expression, in front of the given terminals, and for something
else. -/
def Apart (source : EbnfGrammar) (next : SymbolSet) (expr : Expr) (other : SymbolSet) : Prop :=
  ∀ t ∈ (expr.first (computeEbnf source)).followedBy next, t ∉ other

mutual

/-- An expression in which recursive descent makes no wrong move in front of the given terminals. -/
def Guided (source : EbnfGrammar) (next : SymbolSet) : Expr → Prop
  | .terminal _ => True
  | .nonterminal s => ∀ t ∈ next, t ≠ .epsilon →
      t ∈ (FollowSets.computeEbnf source (computeEbnf source)).get s
  | .chain parts => source.GuidedChain next parts
  | .choice parts => source.GuidedChoice next parts
  | .optional body => source.Apart next body next ∧ source.Guided next body
  | .zeroOrMore body => source.Apart next body next ∧
      source.Guided (next.union (body.first (computeEbnf source)).withoutEpsilon) body
  | .oneOrMore body => source.Apart next body next ∧
      source.Guided (next.union (body.first (computeEbnf source)).withoutEpsilon) body

/-- The parts of a chain are each guided in front of what begins the rest of the chain. -/
def GuidedChain (source : EbnfGrammar) (next : SymbolSet) : List Expr → Prop
  | [] => True
  | part :: rest =>
    source.Guided ((Expr.firstOfChain (computeEbnf source) .empty rest).followedBy next) part ∧
      source.GuidedChain next rest

/-- The parts of a choice are told apart by the lookahead, and only the last one may match the empty
word. -/
def GuidedChoice (source : EbnfGrammar) (next : SymbolSet) : List Expr → Prop
  | [] => True
  | part :: rest =>
    source.Guided next part ∧
      (∀ other ∈ rest,
        source.Apart next part ((other.first (computeEbnf source)).followedBy next)) ∧
      (rest ≠ [] → ¬ source.Matches [part] []) ∧ source.GuidedChoice next rest

end

variable {source : EbnfGrammar} {grammar : Grammar} {expr part body : Expr} {parts : List Expr}
  {next set : SymbolSet} {size : Nat} {stream : TokenStream} {outcome : Descent}
  {failures : List (Expr × List StreamToken)} {forest : List Tree}
  {word rest : List StreamToken}

theorem Lexed.of_awaits (lexed : source.Lexed rest) (awaits : Awaits set rest) :
    ∃ t ∈ set, t ≠ .epsilon ∧ rest.head?.bind StreamToken.symbol = some t ∧
      t ∈ (computeEbnf source).sets.members t := by
  obtain ⟨t, member, proper, ahead⟩ := awaits
  cases rest with
  | nil => cases ahead
  | cons token rest => exact ⟨t, member, proper, ahead, (lexed token List.mem_cons_self t ahead).2⟩

/-- An expression that is told apart from what follows it is not empty. -/
theorem Apart.epsilon_not_mem (apart : source.Apart next expr next) (awaits : Awaits next rest) :
    Symbol.epsilon ∉ expr.first (computeEbnf source) := by
  intro vanishes
  obtain ⟨t, member, -⟩ := awaits
  exact apart t (SymbolSet.mem_followedBy.mpr (Or.inr ⟨vanishes, member⟩)) member

namespace LaysOut

variable (wellFormed : source.WellFormed) (laysOut : source.LaysOut grammar)

include wellFormed laysOut

/-- A part takes no token if the next one speaks for something else. -/
theorem stays_of_apart (descends : source.Descends expr size stream outcome failures)
    (apart : source.Apart next expr set) (awaits : Awaits set stream.rest)
    (lexed : source.Lexed stream.rest) : outcome.stream = stream := by
  obtain ⟨t, member, proper, ahead, self⟩ := lexed.of_awaits awaits
  refine laysOut.stays wellFormed descends ahead proper self fun begins => ?_
  exact apart t (SymbolSet.mem_followedBy.mpr (Or.inl ⟨begins, proper⟩)) member

/-- A part that is told apart from what follows it fails in front of what follows. -/
theorem failed_of_apart (descends : source.Descends expr size stream outcome failures)
    (apart : source.Apart next expr next) (awaits : Awaits next stream.rest)
    (lexed : source.Lexed stream.rest) : outcome = .failed stream := by
  have same := laysOut.stays_of_apart wellFormed descends apart awaits lexed
  cases outcome with
  | failed after => rw [← same, Descent.stream_failed]
  | matched made last after =>
    rw [Descent.stream_matched] at same
    subst same
    exact absurd (laysOut.epsilon_mem_first wellFormed descends.spells_nil)
      (apart.epsilon_not_mem awaits)

/-- Behind one round of a repetition comes another round, or what follows the repetition. -/
theorem awaits_again (spells : source.Spells [.zeroOrMore body] forest word)
    (lexed : source.Lexed (word ++ rest)) (awaits : Awaits next rest) :
    Awaits (next.union (body.first (computeEbnf source)).withoutEpsilon) (word ++ rest) := by
  refine (laysOut.awaits_of_spells wellFormed spells lexed awaits).mono fun t member proper => ?_
  rw [Expr.firstOfChain_singleton, Expr.first, SymbolSet.mem_followedBy, SymbolSet.mem_insert]
    at member
  rw [SymbolSet.mem_union, SymbolSet.mem_withoutEpsilon]
  rcases member with ⟨begins | marker, -⟩ | ⟨-, follows⟩
  · exact Or.inr ⟨begins, proper⟩
  · exact absurd marker proper
  · exact Or.inl follows

end LaysOut

/-! ### One rule after the other -/

/-- An outcome that is right for every sentence in front of the stream: if an expression is guided,
and the stream begins with what trees of the expression spell, it makes these trees and leaves what
is behind them. -/
def Faithful (source : EbnfGrammar) (expr : Expr) (stream : TokenStream) (outcome : Descent) :
    Prop :=
  ∀ {next forest word rest}, source.Guided next expr → source.Spells [expr] forest word →
    stream.rest = word ++ rest → Awaits next rest → source.Lexed stream.rest →
    outcome.Reads forest rest

namespace Faithful

variable {after : TokenStream} {made : List Tree} {last : Nat} {s : Symbol} {others : List Expr}

theorem terminal (s : Symbol) (size : Nat) (stream : TokenStream) :
    source.Faithful (.terminal s) stream (takeTerminal s size stream) := by
  intro next forest word rest _ spells split _ _
  cases spells with
  | terminal id same others =>
    cases others
    have ahead : stream.peekSymbol? = some s := by
      rw [TokenStream.peekSymbol?, TokenStream.peek?, split]
      exact same
    rw [takeTerminal, if_pos ahead, TokenStream.next?, split]
    exact Descent.reads_matched_iff.mpr ⟨rfl, by simp⟩
  | inline compound => cases compound

theorem undefined (absent : source.expression? s = none) :
    source.Faithful (.nonterminal s) stream outcome := by
  intro next forest word rest _ spells _ _ _
  cases spells with
  | nonterminal id found =>
    rw [absent] at found
    cases found
  | inline compound => cases compound

/-- The trees of a nonterminal are those of its expression, below a node of its own. -/
theorem node (faithful : source.Faithful body stream outcome)
    (found : source.expression? s = some body)
    (guidance : source.Guided
      ((FollowSets.computeEbnf source (computeEbnf source)).get s) body)
    (guided : source.Guided next (.nonterminal s))
    (spells : source.Spells [.nonterminal s] forest word) (split : stream.rest = word ++ rest)
    (awaits : Awaits next rest) (lexed : source.Lexed stream.rest) :
    ∃ id children, forest = [.node id s none children] ∧ outcome.Reads children rest := by
  cases spells with
  | nonterminal id given below others =>
    cases others
    obtain rfl := Option.some.inj (found.symm.trans given)
    rw [List.append_nil] at split
    rw [Guided] at guided
    exact ⟨id, _, rfl, faithful guidance below split (awaits.mono guided) lexed⟩
  | inline compound => cases compound

theorem nonterminal (faithful : source.Faithful body stream (.matched made last after))
    (found : source.expression? s = some body)
    (guidance : source.Guided
      ((FollowSets.computeEbnf source (computeEbnf source)).get s) body) :
    source.Faithful (.nonterminal s) stream (.matched [.node last s none made] (last + 1) after) := by
  intro next forest word rest guided spells split awaits lexed
  obtain ⟨id, children, rfl, reads⟩ :=
    faithful.node found guidance guided spells split awaits lexed
  rw [Descent.reads_matched_iff] at reads ⊢
  exact ⟨reads.1, by simp [reads.2]⟩

theorem nonterminalFailed (faithful : source.Faithful body stream (.failed after))
    (found : source.expression? s = some body)
    (guidance : source.Guided
      ((FollowSets.computeEbnf source (computeEbnf source)).get s) body) :
    source.Faithful (.nonterminal s) stream (.failed after) := by
  intro next forest word rest guided spells split awaits lexed
  obtain ⟨_, _, -, reads⟩ :=
    faithful.node found guidance guided spells split awaits lexed
  exact absurd reads Descent.not_reads_failed

theorem chainNil : source.Faithful (.chain []) stream (.matched [] size stream) := by
  intro next forest word rest _ spells split _ _
  obtain ⟨rfl, rfl⟩ := Spells.nil_iff.mp (Spells.chain_iff.mp spells)
  exact Descent.reads_matched_iff.mpr ⟨split, rfl⟩

section Lowered

variable (wellFormed : source.WellFormed) (laysOut : source.LaysOut grammar)

include wellFormed laysOut

/-- The first part of a chain makes its own trees, and leaves what the others spell. -/
theorem head (faithful : source.Faithful part stream outcome)
    (guided : source.Guided next (.chain (part :: others)))
    (spells : source.Spells [.chain (part :: others)] forest word)
    (split : stream.rest = word ++ rest) (awaits : Awaits next rest)
    (lexed : source.Lexed stream.rest) :
    ∃ front back second, forest = front ++ back ∧ outcome.Reads front (second ++ rest) ∧
      source.Spells [.chain others] back second ∧ source.Lexed (second ++ rest) := by
  rw [Guided, GuidedChain] at guided
  obtain ⟨front, back, first, second, rfl, rfl, head, tail⟩ := (Spells.chain_iff.mp spells).of_cons
  rw [List.append_assoc] at split
  have behind : source.Lexed (second ++ rest) := fun token listed =>
    lexed token (split ▸ List.mem_append_right _ listed)
  exact ⟨front, back, second, rfl, faithful guided.1 head split
    (laysOut.awaits_of_spells wellFormed tail behind awaits) lexed, Spells.chain_iff.mpr tail, behind⟩

theorem chainCons (first : source.Faithful part stream (.matched made last after))
    (later : source.Faithful (.chain others) after outcome) :
    source.Faithful (.chain (part :: others)) stream (outcome.after made) := by
  intro next forest word rest guided spells split awaits lexed
  obtain ⟨front, back, second, rfl, reads, tail, behind⟩ :=
    first.head wellFormed laysOut guided spells split awaits lexed
  obtain ⟨left, same⟩ := Descent.reads_matched_iff.mp reads
  rw [Guided, GuidedChain] at guided
  have remaining : source.Guided next (.chain others) := by
    rw [Guided]
    exact guided.2
  exact (later remaining tail left awaits (left ▸ behind)).prepend same

theorem chainFailed (first : source.Faithful part stream (.failed after)) :
    source.Faithful (.chain (part :: others)) stream (.failed after) := by
  intro next forest word rest guided spells split awaits lexed
  obtain ⟨_, _, _, -, reads, -⟩ :=
    first.head wellFormed laysOut guided spells split awaits lexed
  exact absurd reads Descent.not_reads_failed

/-- The part of a choice that a sentence asks for is the first one, or the first one is tried in
vain. -/
theorem alternative (faithful : source.Faithful part stream outcome)
    (descends : source.Descends part size stream outcome failures)
    (guided : source.Guided next (.choice (part :: others)))
    (spells : source.Spells [.choice (part :: others)] forest word)
    (split : stream.rest = word ++ rest) (awaits : Awaits next rest)
    (lexed : source.Lexed stream.rest) :
    outcome.Reads forest rest ∨
      (outcome.stream = stream ∧ ¬ source.Matches [part] [] ∧
        source.Spells [.choice others] forest word) := by
  rw [Guided, GuidedChoice] at guided
  obtain ⟨inner, apart, solid, -⟩ := guided
  obtain ⟨chosen, member, spelled⟩ := Spells.choice_iff.mp spells
  rcases List.mem_cons.mp member with rfl | listed
  · exact Or.inl (faithful inner spelled split awaits lexed)
  · right
    -- the next token begins the chosen part, or follows it if it is empty
    have ahead := laysOut.awaits_of_spells wellFormed spelled (split ▸ lexed) awaits
    rw [Expr.firstOfChain_singleton, ← split] at ahead
    exact ⟨laysOut.stays_of_apart wellFormed descends (apart chosen listed) ahead lexed,
      solid (List.ne_nil_of_mem listed), Spells.choice_iff.mpr ⟨chosen, listed, spelled⟩⟩

theorem choiceMatched (first : source.Faithful part stream (.matched made last after))
    (descends : source.Descends part size stream (.matched made last after) failures) :
    source.Faithful (.choice (part :: others)) stream (.matched made last after) := by
  intro next forest word rest guided spells split awaits lexed
  rcases first.alternative wellFormed laysOut descends guided spells split awaits lexed with
    reads | ⟨same, solid, -⟩
  · exact reads
  · rw [Descent.stream_matched] at same
    subst same
    exact absurd descends.spells_nil.matches_nil solid

theorem choiceNext (first : source.Faithful part stream (.failed after))
    (descends : source.Descends part size stream (.failed after) failures)
    (later : source.Faithful (.choice others) after outcome) :
    source.Faithful (.choice (part :: others)) stream outcome := by
  intro next forest word rest guided spells split awaits lexed
  rcases first.alternative wellFormed laysOut descends guided spells split awaits lexed with
    reads | ⟨same, -, remaining⟩
  · exact absurd reads Descent.not_reads_failed
  · rw [Descent.stream_failed] at same
    subst same
    rw [Guided, GuidedChoice] at guided
    have tail : source.Guided next (.choice others) := by
      rw [Guided]
      exact guided.2.2.2
    exact later tail remaining split awaits lexed

theorem optionalMatched (inner : source.Faithful body stream (.matched made last after))
    (descends : source.Descends body size stream (.matched made last after) failures) :
    source.Faithful (.optional body) stream (.matched made last after) := by
  intro next forest word rest guided spells split awaits lexed
  rw [Guided] at guided
  rcases Spells.optional_iff.mp spells with ⟨rfl, rfl⟩ | spelled
  · cases laysOut.failed_of_apart wellFormed descends guided.1 (split ▸ awaits) lexed
  · exact inner guided.2 spelled split awaits lexed

theorem optionalFailed (inner : source.Faithful body stream (.failed after))
    (descends : source.Descends body size stream (.failed after) failures) :
    source.Faithful (.optional body) stream (.matched [] size after) := by
  intro next forest word rest guided spells split awaits lexed
  rw [Guided] at guided
  rcases Spells.optional_iff.mp spells with ⟨rfl, rfl⟩ | spelled
  · cases laysOut.failed_of_apart wellFormed descends guided.1 (split ▸ awaits) lexed
    exact Descent.reads_matched_iff.mpr ⟨split, rfl⟩
  · exact absurd (inner guided.2 spelled split awaits lexed) Descent.not_reads_failed

/-- One round of a repetition makes its own trees, and leaves what the other rounds spell. -/
theorem round (faithful : source.Faithful body stream outcome)
    (guided : source.Guided (next.union (body.first (computeEbnf source)).withoutEpsilon) body)
    (spells : source.Spells [body, .zeroOrMore body] forest word)
    (split : stream.rest = word ++ rest) (awaits : Awaits next rest)
    (lexed : source.Lexed stream.rest) :
    ∃ front back second, forest = front ++ back ∧ outcome.Reads front (second ++ rest) ∧
      source.Spells [.zeroOrMore body] back second ∧ source.Lexed (second ++ rest) := by
  obtain ⟨front, back, first, second, rfl, rfl, head, tail⟩ := spells.of_cons
  rw [List.append_assoc] at split
  have behind : source.Lexed (second ++ rest) := fun token listed =>
    lexed token (split ▸ List.mem_append_right _ listed)
  exact ⟨front, back, second, rfl, faithful guided head split
    (laysOut.awaits_again wellFormed tail behind awaits) lexed, tail, behind⟩

theorem manyFailed (inner : source.Faithful body stream (.failed after))
    (descends : source.Descends body size stream (.failed after) failures) :
    source.Faithful (.zeroOrMore body) stream (.matched [] size after) := by
  intro next forest word rest guided spells split awaits lexed
  rw [Guided] at guided
  rcases Spells.zeroOrMore_iff.mp spells with ⟨rfl, rfl⟩ | spelled
  · cases laysOut.failed_of_apart wellFormed descends guided.1 (split ▸ awaits) lexed
    exact Descent.reads_matched_iff.mpr ⟨split, rfl⟩
  · obtain ⟨_, _, _, -, reads, -⟩ :=
      inner.round wellFormed laysOut guided.2 spelled split awaits lexed
    exact absurd reads Descent.not_reads_failed

/-- A round without a token cannot come up: it would speak for what follows as well. -/
theorem manyIdle
    (descends : source.Descends body size stream (.matched made last after) failures)
    (idle : ¬ stream.position < after.position) :
    source.Faithful (.zeroOrMore body) stream (.matched [] size after) := by
  intro next forest word rest guided spells split awaits lexed
  rw [Guided] at guided
  obtain ⟨taken, advances⟩ := descends.advances
  rw [Descent.stream_matched] at advances
  obtain rfl := advances.taken_eq_nil idle
  obtain rfl := advances.eq_of_nil
  exact absurd (laysOut.epsilon_mem_first wellFormed descends.spells_nil)
    (guided.1.epsilon_not_mem awaits)

theorem manyAgain (inner : source.Faithful body stream (.matched made last after))
    (descends : source.Descends body size stream (.matched made last after) failures)
    (later : source.Faithful (.zeroOrMore body) after outcome) :
    source.Faithful (.zeroOrMore body) stream (outcome.after made) := by
  intro next forest word rest guided spells split awaits lexed
  have whole := guided
  rw [Guided] at guided
  rcases Spells.zeroOrMore_iff.mp spells with ⟨rfl, rfl⟩ | spelled
  · cases laysOut.failed_of_apart wellFormed descends guided.1 (split ▸ awaits) lexed
  · obtain ⟨front, back, second, rfl, reads, tail, behind⟩ :=
      inner.round wellFormed laysOut guided.2 spelled split awaits lexed
    obtain ⟨left, same⟩ := Descent.reads_matched_iff.mp reads
    exact (later whole tail left awaits (left ▸ behind)).prepend same

theorem oneOrMore (inner : source.Faithful body stream (.matched made last after))
    (later : source.Faithful (.zeroOrMore body) after outcome) :
    source.Faithful (.oneOrMore body) stream (outcome.after made) := by
  intro next forest word rest guided spells split awaits lexed
  rw [Guided] at guided
  have again : source.Guided next (.zeroOrMore body) := by
    rw [Guided]
    exact guided
  obtain ⟨front, back, second, rfl, reads, tail, behind⟩ :=
    inner.round wellFormed laysOut guided.2 (Spells.oneOrMore_iff.mp spells) split awaits lexed
  obtain ⟨left, same⟩ := Descent.reads_matched_iff.mp reads
  exact (later again tail left awaits (left ▸ behind)).prepend same

theorem oneOrMoreFailed (inner : source.Faithful body stream (.failed after)) :
    source.Faithful (.oneOrMore body) stream (.failed after) := by
  intro next forest word rest guided spells split awaits lexed
  rw [Guided] at guided
  obtain ⟨_, _, _, -, reads, -⟩ :=
    inner.round wellFormed laysOut guided.2 (Spells.oneOrMore_iff.mp spells) split awaits lexed
  exact absurd reads Descent.not_reads_failed

end Lowered

end Faithful

/-- If the expressions of all nonterminals are guided in front of what follows the nonterminals,
every outcome is right for the sentences in front of it. -/
theorem LaysOut.faithful (wellFormed : source.WellFormed) (laysOut : source.LaysOut grammar)
    (guidance : ∀ {s body}, source.expression? s = some body →
      source.Guided ((FollowSets.computeEbnf source (computeEbnf source)).get s) body)
    (descends : source.Descends expr size stream outcome failures) :
    source.Faithful expr stream outcome := by
  induction descends with
  | terminal s size stream => exact Faithful.terminal s size stream
  | undefined _ _ absent => exact Faithful.undefined absent
  | nonterminal found _ ih => exact ih.nonterminal found (guidance found)
  | nonterminalFailed found _ ih => exact ih.nonterminalFailed found (guidance found)
  | chainNil => exact Faithful.chainNil
  | chainCons _ _ first later => exact first.chainCons wellFormed laysOut later
  | chainFailed _ _ first => exact first.chainFailed wellFormed laysOut
  | choiceNil =>
    intro next forest word rest _ spells _ _ _
    obtain ⟨part, member, -⟩ := Spells.choice_iff.mp spells
    cases member
  | choiceMatched _ descends first => exact first.choiceMatched wellFormed laysOut descends
  | choiceNext descends _ first later => exact first.choiceNext wellFormed laysOut descends later
  | optionalMatched descends inner => exact inner.optionalMatched wellFormed laysOut descends
  | optionalFailed descends inner => exact inner.optionalFailed wellFormed laysOut descends
  | manyFailed descends inner => exact inner.manyFailed wellFormed laysOut descends
  | manyIdle descends idle => exact Faithful.manyIdle wellFormed laysOut descends idle
  | manyAgain descends _ _ inner later => exact inner.manyAgain wellFormed laysOut descends later
  | oneOrMore _ _ inner later => exact inner.oneOrMore wellFormed laysOut later
  | oneOrMoreFailed _ inner => exact inner.oneOrMoreFailed wellFormed laysOut

/-! ### Tables without conflicts -/

/-- Of the parts of a choice, only the last one may match the empty word. -/
def VanishesLast (source : EbnfGrammar) : Prop :=
  ∀ parts, source.Uses (.choice parts) → ∀ part ∈ parts.dropLast, ¬ source.Matches [part] []

theorem guidedChain_of_parts
    (parted : ∀ front part back, parts = front ++ part :: back →
      source.Guided ((Expr.firstOfChain (computeEbnf source) .empty back).followedBy next) part) :
    source.GuidedChain next parts := by
  induction parts with
  | nil => trivial
  | cons part rest ih =>
    refine ⟨parted [] part rest rfl, ih fun front other back split => ?_⟩
    exact parted (part :: front) other back (by rw [split, List.cons_append])

theorem guidedChoice_of_parts (inner : ∀ part ∈ parts, source.Guided next part)
    (apart : parts.Pairwise fun part other =>
      source.Apart next part ((other.first (computeEbnf source)).followedBy next))
    (solid : ∀ part ∈ parts.dropLast, ¬ source.Matches [part] []) :
    source.GuidedChoice next parts := by
  induction parts with
  | nil => trivial
  | cons part rest ih =>
    rw [List.forall_mem_cons] at inner
    rw [List.pairwise_cons] at apart
    have others : rest ≠ [] → ¬ source.Matches [part] [] ∧
        ∀ other ∈ rest.dropLast, ¬ source.Matches [other] [] := by
      intro more
      rw [List.dropLast_cons_of_ne_nil more] at solid
      exact List.forall_mem_cons.mp solid
    refine ⟨inner.1, apart.1, fun more => (others more).1, ih inner.2 apart.2 fun other listed => ?_⟩
    exact (others (List.ne_nil_of_mem (List.dropLast_subset rest listed))).2 other listed

namespace LaysOut

variable (wellFormed : source.WellFormed) (laysOut : source.LaysOut grammar)

include wellFormed laysOut

/-- If every expression is decided, the expressions at all sites are guided. -/
theorem guided_of_sites {first : Nat}
    (decided : ∀ A expr, source.expression? A = some expr →
      expr.isDecided (computeEbnf source)
        ((FollowSets.computeEbnf source (computeEbnf source)).get A) = true)
    (ordered : source.VanishesLast)
    (sites : Sites source grammar (computeEbnf source)
      (.computeEbnf source (computeEbnf source)) ⟨expr, first, next⟩) :
    source.Guided next expr := by
  have settled := fun {site} (sites : Sites source grammar (computeEbnf source)
    (.computeEbnf source (computeEbnf source)) site) =>
      Expr.isSettled_of_isDecided (sites.isDecided decided)
  induction expr using Expr.induction generalizing first next with
  | terminal s =>
    rw [Guided]
    trivial
  | nonterminal s =>
    rw [Guided]
    exact fun t member proper => laysOut.follows_closed wellFormed sites member proper
  | chain parts ih =>
    rw [Guided]
    refine guidedChain_of_parts fun front part back split => ?_
    subst split
    exact ih part (by simp) (sites.part (.chain front part back first next))
  | choice parts ih =>
    rw [Guided]
    refine guidedChoice_of_parts (fun part listed => ?_) ?_ (ordered parts sites.uses)
    · obtain ⟨front, back, rfl⟩ := List.append_of_mem listed
      exact ih part listed (sites.part (.choice front part back first next))
    · have disjoint := settled sites
      rw [Expr.isSettled, decide_eq_true_eq] at disjoint
      exact disjoint.imp fun apart => SymbolSet.isDisjoint_iff.mp apart
  | optional body ih =>
    rw [Guided]
    exact ⟨SymbolSet.isDisjoint_iff.mp (settled sites),
      ih (sites.part (.optional body first next))⟩
  | zeroOrMore body ih =>
    rw [Guided]
    exact ⟨SymbolSet.isDisjoint_iff.mp (settled sites),
      ih (sites.part (.zeroOrMore body first next))⟩
  | oneOrMore body ih =>
    rw [Guided]
    exact ⟨SymbolSet.isDisjoint_iff.mp (settled sites),
      ih (sites.part (.oneOrMore body first next))⟩

/-- If the table of the lowered grammar is free of conflicts, the expression of each nonterminal is
guided in front of what follows the nonterminal. -/
theorem guided {s : Symbol} (deterministic : (ParseTable.ofGrammar grammar).isLL1 = true)
    (ordered : source.VanishesLast) (found : source.expression? s = some expr) :
    source.Guided ((FollowSets.computeEbnf source (computeEbnf source)).get s) expr := by
  obtain ⟨first, beyond, laid⟩ := laysOut.exists_laidOut found
  exact laysOut.guided_of_sites wellFormed ((laysOut.isLL1_iff wellFormed).mp deterministic) ordered
    (.root found beyond laid)

end LaysOut

end EbnfGrammar

end Predictive
