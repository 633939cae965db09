import Predictive.Proofs.Ebnf.Table

/-!
# Choices inside expressions

A choice, an optional expression and a repetition each ask a question: which part comes next, or
whether the body comes at all. One lookahead answers it if no terminal speaks for two answers. The
table of an EBNF grammar does not ask such questions, as its cells hold whole expressions, and so
it is free of conflicts whatever the expressions are. The table of the lowered grammar asks all of
them, at the symbols that were introduced for the expressions: it is free of conflicts exactly if
one lookahead decides every choice at any depth.

## Main definitions

* `Expr.isSettled` — one lookahead answers the question that an expression asks itself
* `Expr.isDecided` — one lookahead answers every question in an expression
* `ParseTable.Undisputed` — a lookahead selects at most one alternative

## Main results

* `EbnfGrammar.LaysOut.isSettled_iff` — the question at a site and the alternatives of its symbols
* `EbnfGrammar.LaysOut.isLL1_iff` — conflicts of the lowered grammar in terms of expressions
* `EbnfGrammar.toGrammar_isLL1_iff` — when the table of the lowered grammar is free of conflicts
-/

namespace Predictive

/-- Whether no symbol is a member of both sets. -/
def SymbolSet.isDisjoint (set other : SymbolSet) : Bool :=
  set.toList.all fun s => !other.contains s

theorem SymbolSet.isDisjoint_iff {set other : SymbolSet} :
    set.isDisjoint other = true ↔ ∀ s ∈ set, s ∉ other := by
  simp [isDisjoint, ← contains_iff_mem]

namespace Expr

/-- Whether one lookahead answers the question that an expression asks itself, if the given
terminals can follow it. -/
def isSettled (firsts : FirstSets) (next : SymbolSet) : Expr → Bool
  | .choice parts => decide (parts.Pairwise fun part other =>
      ((part.first firsts).followedBy next).isDisjoint
        ((other.first firsts).followedBy next) = true)
  | .optional body => ((body.first firsts).followedBy next).isDisjoint next
  | .zeroOrMore body => ((body.first firsts).followedBy next).isDisjoint next
  | .oneOrMore body => ((body.first firsts).followedBy next).isDisjoint next
  | _ => true

mutual

/-- Whether one lookahead answers every question in an expression, if the given terminals can
follow it. -/
def isDecided (firsts : FirstSets) (next : SymbolSet) : Expr → Bool
  | .terminal _ => true
  | .nonterminal _ => true
  | .chain parts => isDecidedChain firsts next parts
  | .choice parts => (choice parts).isSettled firsts next && isDecidedChoice firsts next parts
  | .optional body => (optional body).isSettled firsts next && body.isDecided firsts next
  | .zeroOrMore body => (zeroOrMore body).isSettled firsts next &&
      body.isDecided firsts (next.union (body.first firsts).withoutEpsilon)
  | .oneOrMore body => (oneOrMore body).isSettled firsts next &&
      body.isDecided firsts (next.union (body.first firsts).withoutEpsilon)

/-- Whether one lookahead answers every question in the parts of a chain. -/
def isDecidedChain (firsts : FirstSets) (next : SymbolSet) : List Expr → Bool
  | [] => true
  | part :: rest =>
    part.isDecided firsts ((firstOfChain firsts .empty rest).followedBy next) &&
      isDecidedChain firsts next rest

/-- Whether one lookahead answers every question in the parts of a choice. -/
def isDecidedChoice (firsts : FirstSets) (next : SymbolSet) : List Expr → Bool
  | [] => true
  | part :: rest => part.isDecided firsts next && isDecidedChoice firsts next rest

end

variable {firsts : FirstSets} {next : SymbolSet} {parts : List Expr}

theorem isDecidedChain_iff : isDecidedChain firsts next parts = true ↔
    ∀ front part back, parts = front ++ part :: back →
      part.isDecided firsts ((firstOfChain firsts .empty back).followedBy next) = true := by
  induction parts with
  | nil => simp [isDecidedChain]
  | cons first rest ih =>
    rw [isDecidedChain, Bool.and_eq_true, ih]
    constructor
    · rintro ⟨head, tail⟩ front part back split
      cases front with
      | nil =>
        obtain ⟨rfl, rfl⟩ := List.cons.inj split
        exact head
      | cons _ front => exact tail front part back (List.cons.inj split).2
    · intro holds
      exact ⟨holds [] first rest rfl, fun front part back split =>
        holds (first :: front) part back (by rw [split, List.cons_append])⟩

theorem isDecidedChoice_iff : isDecidedChoice firsts next parts = true ↔
    ∀ part ∈ parts, part.isDecided firsts next = true := by
  induction parts with
  | nil => simp [isDecidedChoice]
  | cons first rest ih => rw [isDecidedChoice, Bool.and_eq_true, ih, List.forall_mem_cons]

theorem isSettled_of_isDecided {expr : Expr} (decided : expr.isDecided firsts next = true) :
    expr.isSettled firsts next = true := by
  cases expr with
  | terminal => rfl
  | nonterminal => rfl
  | chain => rfl
  | choice parts =>
    rw [isDecided, Bool.and_eq_true] at decided
    exact decided.1
  | optional body =>
    rw [isDecided, Bool.and_eq_true] at decided
    exact decided.1
  | zeroOrMore body =>
    rw [isDecided, Bool.and_eq_true] at decided
    exact decided.1
  | oneOrMore body =>
    rw [isDecided, Bool.and_eq_true] at decided
    exact decided.1

end Expr

/-- What is decided in the whole is decided in its parts. -/
theorem Site.Part.isDecided {firsts : FirstSets} {site inner : Site}
    (part : Site.Part firsts site inner)
    (decided : site.expr.isDecided firsts site.next = true) :
    inner.expr.isDecided firsts inner.next = true := by
  cases part with
  | chain front part back =>
    rw [Expr.isDecided] at decided
    exact Expr.isDecidedChain_iff.mp decided front part back rfl
  | choice front part back =>
    rw [Expr.isDecided, Bool.and_eq_true] at decided
    exact Expr.isDecidedChoice_iff.mp decided.2 part (by simp)
  | optional =>
    rw [Expr.isDecided, Bool.and_eq_true] at decided
    exact decided.2
  | zeroOrMore =>
    rw [Expr.isDecided, Bool.and_eq_true] at decided
    exact decided.2
  | oneOrMore =>
    rw [Expr.isDecided, Bool.and_eq_true] at decided
    exact decided.2

namespace EbnfGrammar

variable {source : EbnfGrammar} {grammar : Grammar} {firsts : FirstSets} {follows : FollowSets}
  {site : Site} {s t u : Symbol} {expr : Expr}

/-- If all expressions are decided, every site is. -/
theorem Sites.isDecided (sites : Sites source grammar firsts follows site)
    (decided : ∀ A expr, source.expression? A = some expr →
      expr.isDecided firsts (follows.get A) = true) :
    site.expr.isDecided firsts site.next = true := by
  induction sites with
  | root found => exact decided _ _ found
  | part _ inside ih => exact inside.isDecided ih

/-- If every site is settled, the expressions at them are decided. -/
theorem Sites.isDecided_of_isSettled {first : Nat} {next : SymbolSet}
    (settled : ∀ site, Sites source grammar firsts follows site →
      site.expr.isSettled firsts site.next = true)
    (sites : Sites source grammar firsts follows ⟨expr, first, next⟩) :
    expr.isDecided firsts next = true := by
  induction expr using Expr.induction generalizing first next with
  | terminal s => rw [Expr.isDecided]
  | nonterminal s => rw [Expr.isDecided]
  | chain parts ih =>
    rw [Expr.isDecided, Expr.isDecidedChain_iff]
    rintro front part back rfl
    exact ih part (by simp) (sites.part (.chain front part back first next))
  | choice parts ih =>
    rw [Expr.isDecided, Bool.and_eq_true, Expr.isDecidedChoice_iff]
    refine ⟨settled _ sites, fun part listed => ?_⟩
    obtain ⟨front, back, rfl⟩ := List.append_of_mem listed
    exact ih part listed (sites.part (.choice front part back first next))
  | optional body ih =>
    rw [Expr.isDecided, Bool.and_eq_true]
    exact ⟨settled _ sites, ih (sites.part (.optional body first next))⟩
  | zeroOrMore body ih =>
    rw [Expr.isDecided, Bool.and_eq_true]
    exact ⟨settled _ sites, ih (sites.part (.zeroOrMore body first next))⟩
  | oneOrMore body ih =>
    rw [Expr.isDecided, Bool.and_eq_true]
    exact ⟨settled _ sites, ih (sites.part (.oneOrMore body first next))⟩

end EbnfGrammar

/-! ### Alternatives and their lookaheads -/

/-- Lists that are related position by position have the same property of pairs, if related members
have. -/
theorem pairwise_iff_of_forall₂ {α β : Type} {related : α → β → Prop} {items : List α}
    {others : List β} {first : α → α → Prop} {second : β → β → Prop}
    (aligned : List.Forall₂ related items others)
    (same : ∀ {a b x y}, related a x → related b y → (first a b ↔ second x y)) :
    items.Pairwise first ↔ others.Pairwise second := by
  induction aligned with
  | nil => simp
  | @cons a x items others head tail ih =>
    rw [List.pairwise_cons, List.pairwise_cons, ih]
    refine and_congr_left fun _ => ⟨fun holds y listed => ?_, fun holds b listed => ?_⟩
    · obtain ⟨b, inside, stands⟩ := exists_of_forall₂ tail.flip listed
      exact (same head stands).mp (holds b inside)
    · obtain ⟨y, inside, stands⟩ := exists_of_forall₂ tail listed
      exact (same head stands).mpr (holds y inside)

/-- A lookahead selects at most one alternative of a symbol, if the given terminals can follow
it. -/
def ParseTable.Undisputed (grammar : Grammar) (firsts : FirstSets) (next : SymbolSet)
    (u t : Symbol) : Prop :=
  ((grammar.alternatives? u).getD []).Pairwise fun alternative other =>
    ¬ (t ∈ (firsts.ofString alternative.symbols).followedBy next ∧
      t ∈ (firsts.ofString other.symbols).followedBy next)

namespace ParseTable

variable {grammar : Grammar} {firsts : FirstSets} {follows : FollowSets} {next other : SymbolSet}
  {u t : Symbol}

theorem length_selecting_le_one_iff :
    (selecting grammar firsts follows u t).length ≤ 1 ↔
      Undisputed grammar firsts (follows.get u) u t := by
  rw [selecting, length_filter_le_one_iff, Undisputed]
  simp only [decide_eq_true_eq]

/-- With fewer terminals that can follow, there are fewer disputes. -/
theorem Undisputed.anti (within : t ∈ next → t ∈ other)
    (undisputed : Undisputed grammar firsts other u t) : Undisputed grammar firsts next u t := by
  have wider : ∀ {first : SymbolSet}, t ∈ first.followedBy next → t ∈ first.followedBy other := by
    intro first member
    rw [SymbolSet.mem_followedBy] at member ⊢
    exact member.imp_right (And.imp_right within)
  exact undisputed.imp fun apart both => apart ⟨wider both.1, wider both.2⟩

/-- A symbol with one alternative is never disputed. -/
theorem undisputed_of_singleton {alternative : Alternative}
    (found : grammar.alternatives? u = some [alternative]) :
    Undisputed grammar firsts next u t := by
  rw [Undisputed, found, Option.getD_some]
  exact List.pairwise_singleton _ _

end ParseTable

namespace EbnfGrammar

open ParseTable (Undisputed)

variable {source : EbnfGrammar} {grammar : Grammar} {site : Site} {u : Symbol} {next : SymbolSet}
  {parts : List Expr} {symbols : List Symbol}

namespace LaysOut

variable (wellFormed : source.WellFormed) (laysOut : source.LaysOut grammar)

include wellFormed laysOut

/-- What begins an alternative, in terms of the expressions that its symbols stand for. -/
theorem ofString_alternative (inner : Realizes source grammar parts symbols) :
    (FirstSets.compute grammar).ofString (Alternative.ofSymbols symbols).symbols =
      Expr.firstOfChain (.computeEbnf source) .empty parts := by
  rw [Alternative.symbols_ofSymbols ((laysOut.loweredTo wellFormed).ne_epsilon wellFormed inner),
    laysOut.firstOfChain_eq wellFormed inner]

/-- Between an alternative and the empty one, only what follows speaks for the latter. -/
theorem isDisjoint_iff_undisputed
    (defined : grammar.alternatives? u = some [.ofSymbols symbols, .epsilon])
    (inner : Realizes source grammar parts symbols) :
    ((Expr.firstOfChain (.computeEbnf source) .empty parts).followedBy next).isDisjoint next =
        true ↔
      ∀ t, Undisputed grammar (.compute grammar) next u t := by
  rw [SymbolSet.isDisjoint_iff]
  refine forall_congr' fun t => ?_
  rw [Undisputed, defined, Option.getD_some, List.pairwise_pair,
    laysOut.ofString_alternative wellFormed inner, Alternative.epsilon,
    FirstSets.followedBy_ofString_nil, not_and]

/-- Between alternatives of one symbol each, what begins their expressions speaks for them. -/
theorem pairwise_iff_undisputed
    (defined : grammar.alternatives? u = some (symbols.map fun s => .ofSymbols [s]))
    (inner : Realizes source grammar parts symbols) :
    (parts.Pairwise fun part other =>
        ((part.first (.computeEbnf source)).followedBy next).isDisjoint
          ((other.first (.computeEbnf source)).followedBy next) = true) ↔
      ∀ t, Undisputed grammar (.compute grammar) next u t := by
  have aligned : ∀ t, Undisputed grammar (.compute grammar) next u t ↔
      parts.Pairwise fun part other =>
        ¬ (t ∈ (part.first (.computeEbnf source)).followedBy next ∧
          t ∈ (other.first (.computeEbnf source)).followedBy next) := by
    intro t
    rw [Undisputed, defined, Option.getD_some, List.pairwise_map]
    refine (pairwise_iff_of_forall₂ inner.forall₂ fun stands stands' => ?_).symm
    rw [laysOut.ofString_alternative wellFormed stands,
      laysOut.ofString_alternative wellFormed stands', Expr.firstOfChain_singleton,
      Expr.firstOfChain_singleton]
  simp only [aligned, List.pairwise_iff_forall_sublist, SymbolSet.isDisjoint_iff, not_and]
  exact ⟨fun apart t _ _ inside => apart inside t, fun apart _ _ inside t => apart t inside⟩

/-- One lookahead answers the question at a site exactly if it selects at most one alternative of
each symbol that was introduced there. -/
theorem isSettled_iff {follows : FollowSets}
    (sites : Sites source grammar (.computeEbnf source) follows site) :
    site.expr.isSettled (.computeEbnf source) site.next = true ↔
      ∀ u ∈ site.own, ∀ t, Undisputed grammar (.compute grammar) site.next u t := by
  have admits := sites.admits wellFormed
  have laid := sites.laid
  have whole := sites.realizes wellFormed
  obtain ⟨expr, first, next⟩ := site
  cases expr with
  | terminal => exact iff_of_true rfl fun _ own => absurd own List.not_mem_nil
  | nonterminal => exact iff_of_true rfl fun _ own => absurd own List.not_mem_nil
  | chain parts =>
    refine iff_of_true rfl (List.forall_mem_singleton.mpr fun t => ?_)
    exact ParseTable.undisputed_of_singleton laid.1
  | choice parts =>
    rw [Expr.isSettled, decide_eq_true_eq, laysOut.pairwise_iff_undisputed wellFormed laid.1
      (Expr.LaidAll.realizes laid.2 admits.2)]
    simp [Site.own]
  | optional body =>
    rw [Expr.isSettled, ← Expr.firstOfChain_singleton, laysOut.isDisjoint_iff_undisputed wellFormed
      laid.1 (laid.2.realizes admits)]
    simp [Site.own]
  | zeroOrMore body =>
    rw [Expr.isSettled, ← Expr.firstOfChain_repeated, laysOut.isDisjoint_iff_undisputed wellFormed
      laid.1 ((laid.2.realizes admits).cons whole)]
    simp [Site.own]
  | oneOrMore body =>
    -- the first symbol has one alternative, and the second asks whether to go on
    have inner := laid.2.2.realizes admits
    rw [Expr.isSettled, ← Expr.firstOfChain_repeated, laysOut.isDisjoint_iff_undisputed wellFormed
      laid.2.1 (inner.cons (.zeroOrMore inner laid.2.1 .nil))]
    refine ⟨fun undisputed => ?_, fun undisputed => undisputed _ (by simp [Site.own])⟩
    exact List.forall_mem_cons.mpr ⟨fun t => ParseTable.undisputed_of_singleton laid.1,
      List.forall_mem_singleton.mpr undisputed⟩

/-- The table of the lowered grammar is free of conflicts exactly if every expression is decided. -/
theorem isLL1_iff :
    (ParseTable.build grammar (.compute grammar) (.compute grammar (.compute grammar))).isLL1 =
        true ↔
      ∀ A expr, source.expression? A = some expr →
        expr.isDecided (.computeEbnf source)
          ((FollowSets.computeEbnf source (.computeEbnf source)).get A) = true := by
  simp only [ParseTable.isLL1_build_iff, ParseTable.length_selecting_le_one_iff]
  constructor
  · intro free A expr found
    obtain ⟨first, beyond, laid⟩ := laysOut.exists_laidOut found
    refine Sites.isDecided_of_isSettled (fun site sites => ?_) (.root found beyond laid)
    refine (laysOut.isSettled_iff wellFormed sites).mpr fun u own t => ?_
    exact (free u t).anti (laysOut.mem_follow_of_own wellFormed sites own)
  · intro decided u t
    have declared : source.isNonterminal u = true → Undisputed grammar (.compute grammar)
        ((FollowSets.compute grammar (.compute grammar)).get u) u t := by
      intro nonterminal
      obtain ⟨expr, found⟩ := exists_expression? nonterminal
      obtain ⟨root, defined, -⟩ := (laysOut.loweredTo wellFormed).roots found
      exact ParseTable.undisputed_of_singleton defined
    have introduced : ∀ {site}, Sites source grammar (.computeEbnf source)
        (.computeEbnf source (.computeEbnf source)) site → u ∈ site.own →
        Undisputed grammar (.compute grammar) site.next u t := fun sites own =>
      (laysOut.isSettled_iff wellFormed sites).mp
        (Expr.isSettled_of_isDecided (sites.isDecided decided)) u own t
    -- a lookahead that follows the symbol was handed down to one of its sites
    by_cases follows : t ∈ (FollowSets.compute grammar (.compute grammar)).sets.members u
    · rcases laysOut.expects_of_mem_follow wellFormed follows with
        ⟨nonterminal, -⟩ | ⟨site, sites, own, handed⟩
      · exact declared nonterminal
      · exact (introduced sites own).anti fun _ => handed
    · by_cases nonterminal : grammar.isNonterminal u = true
      · rcases laysOut.exists_site (.computeEbnf source)
          (.computeEbnf source (.computeEbnf source)) nonterminal with known | ⟨site, sites, own⟩
        · exact declared known
        · exact (introduced sites own).anti fun member => absurd member follows
      · rw [Grammar.isNonterminal, OrderedMap.contains, Option.not_isSome_iff_eq_none,
          ← Grammar.alternatives?] at nonterminal
        rw [Undisputed, nonterminal]
        exact List.Pairwise.nil

end LaysOut

/-- The table of an EBNF grammar is free of conflicts, as each of its cells has one entry to hold.
If the names that lowering introduces differ from each other and from every declared name, lowering
fails only for want of room for them. Otherwise the table of the lowered grammar is free of
conflicts exactly if one lookahead decides every choice, optional expression and repetition in the
expressions. -/
theorem toGrammar_isLL1_iff (wellFormed : source.WellFormed)
    (nodup : source.syntheticNames.Nodup)
    (distinct : ∀ name ∈ source.syntheticNames, ∀ s,
      s ∈ source.terminals.items ∨ source.isNonterminal s = true →
        source.names.name? s ≠ some name) :
    (ParseTable.buildEbnf source (.computeEbnf source)
        (.computeEbnf source (.computeEbnf source))).isLL1 = true ∧
      ((source.toGrammar = .error .tooManySymbols ∧
          NameTable.capacity < source.names.size + source.syntheticNames.length) ∨
        ∃ grammar, source.toGrammar = .ok grammar ∧
          ((ParseTable.build grammar (.compute grammar)
              (.compute grammar (.compute grammar))).isLL1 = true ↔
            ∀ A expr, source.expression? A = some expr →
              expr.isDecided (.computeEbnf source)
                ((FollowSets.computeEbnf source (.computeEbnf source)).get A) = true)) := by
  refine ⟨ParseTable.isLL1_buildEbnf, ?_⟩
  rcases fits_laysOut wellFormed (wellFormed.fresh distinct) nodup with
    full | ⟨grammar, passed, laysOut⟩
  · exact Or.inl full
  · exact Or.inr ⟨grammar, passed, laysOut.isLL1_iff wellFormed⟩

/-- The production `S := a | a`: the table of the lowered grammar has a conflict, and the table of
the EBNF grammar has none. -/
theorem not_isLL1_agrees :
    ∃ source, EbnfDefinition.ofSteps [.terminal "a", .nonterminal "S",
        .rule ⟨3⟩ (.choice [.terminal ⟨2⟩, .terminal ⟨2⟩])] = .ok source ∧
      source.syntheticNames.Nodup ∧
      (∀ name ∈ source.syntheticNames, ∀ s,
        s ∈ source.terminals.items ∨ source.isNonterminal s = true →
          source.names.name? s ≠ some name) ∧
      ∃ grammar, source.toGrammar = .ok grammar ∧
        ¬ ((ParseTable.buildEbnf source (.computeEbnf source)
            (.computeEbnf source (.computeEbnf source))).isLL1 = true ↔
          (ParseTable.build grammar (.compute grammar)
            (.compute grammar (.compute grammar))).isLL1 = true) := by
  obtain ⟨source, defined, -, passes⟩ := EbnfDefinition.exists_of_ofSteps
    [.terminal "a", .nonterminal "S", .rule ⟨3⟩ (.choice [.terminal ⟨2⟩, .terminal ⟨2⟩])]
    (fun source => source.distinctNames && source.toGrammar.toOption.any fun grammar =>
      !(ParseTable.build grammar (.compute grammar)
        (.compute grammar (.compute grammar))).isLL1) (by decide +kernel)
  simp only [Bool.and_eq_true, distinctNames_iff] at passes
  obtain ⟨⟨nodup, distinct⟩, disputed⟩ := passes
  cases lowered : source.toGrammar with
  | error fault =>
    rw [lowered] at disputed
    cases disputed
  | ok grammar =>
    rw [lowered] at disputed
    refine ⟨source, defined, nodup, distinct, grammar, lowered, fun agree => ?_⟩
    rw [Except.toOption, Option.any_some, agree.mp ParseTable.isLL1_buildEbnf] at disputed
    cases disputed

/-- The production `S := (a | b S?)*`: what follows `S` begins its body, so that a lookahead does
not tell whether to go on. Lowering shows this as a conflict. -/
theorem toGrammar_isLL1_iff_nested :
    ∃ source, EbnfDefinition.ofSteps [.terminal "a", .terminal "b", .nonterminal "S",
        .rule ⟨4⟩ (.zeroOrMore (.choice [.terminal ⟨2⟩,
          .chain [.terminal ⟨3⟩, .optional (.nonterminal ⟨4⟩)]]))] = .ok source ∧
      (ParseTable.buildEbnf source (.computeEbnf source)
        (.computeEbnf source (.computeEbnf source))).isLL1 = true ∧
      ∃ grammar, source.toGrammar = .ok grammar ∧
        ¬ (ParseTable.build grammar (.compute grammar)
          (.compute grammar (.compute grammar))).isLL1 = true := by
  let repeated : Expr := .zeroOrMore (.choice [.terminal ⟨2⟩,
    .chain [.terminal ⟨3⟩, .optional (.nonterminal ⟨4⟩)]])
  obtain ⟨source, defined, wellFormed, passes⟩ := EbnfDefinition.exists_of_ofSteps
    [.terminal "a", .terminal "b", .nonterminal "S", .rule ⟨4⟩ repeated]
    (fun source => source.distinctNames && source.toGrammar.toBool &&
      (source.expression? ⟨4⟩).any fun expr => !expr.isDecided (.computeEbnf source)
        ((FollowSets.computeEbnf source (.computeEbnf source)).get ⟨4⟩)) (by decide +kernel)
  simp only [Bool.and_eq_true, distinctNames_iff, Option.any_eq_true, Bool.not_eq_true_eq_eq_false]
    at passes
  obtain ⟨⟨⟨nodup, distinct⟩, room⟩, expr, found, undecided⟩ := passes
  obtain ⟨free, ⟨failed, -⟩ | ⟨grammar, passed, agrees⟩⟩ :=
    toGrammar_isLL1_iff wellFormed nodup distinct
  · rw [failed] at room
    cases room
  · refine ⟨source, defined, free, grammar, passed, fun deterministic => ?_⟩
    rw [agrees.mp deterministic ⟨4⟩ expr found] at undecided
    cases undecided

end EbnfGrammar

end Predictive
