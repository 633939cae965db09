import Predictive.Proofs.Ebnf.Site
import Predictive.Proofs.First

/-!
# FIRST sets of expressions

The FIRST sets of an EBNF grammar are computed from its expressions, and those of the lowered
grammar from strings of symbols, of which there are more. The two computations agree: what they
say of an expression is what they say of the symbol that stands for it. In one direction, no pass
over the expressions goes beyond the sets of the lowered grammar, which are closed under its
productions. This bounds the passes, so that the sets of the expressions are closed as well, and
no pass over the productions goes beyond them.

## Main results

* `Expr.mem_firstOfChain_cons`, `Expr.mem_firstOfChoice` — the FIRST set of an expression in terms
  of those of its parts
* `EbnfGrammar.LaysOut.first_eq` — an expression and its symbol begin alike
* `EbnfGrammar.LaysOut.firstOfChain_eq` — so do a chain and its string
* `EbnfGrammar.LaysOut.get?_firsts` — the two computations agree on declared nonterminals
-/

namespace Predictive

namespace Expr

variable {firsts other : FirstSets} {found : SymbolSet} {part : Expr} {parts rest : List Expr}
  {form : List Symbol} {s t : Symbol}

@[simp] theorem first_terminal : (terminal s).first firsts = firsts.sets.members s := by
  rw [first]
  rfl

@[simp] theorem first_nonterminal : (nonterminal s).first firsts = firsts.sets.members s := by
  rw [first]
  rfl

/-- What was found before a chain only adds to the members of the chain. -/
theorem mem_firstOfChain :
    t ∈ firstOfChain firsts found parts ↔
      (t ∈ found ∧ t ≠ .epsilon) ∨ t ∈ firstOfChain firsts .empty parts := by
  induction parts generalizing found with
  | nil =>
    by_cases marker : t = .epsilon
    · simp [firstOfChain, marker]
    · simp [firstOfChain, marker]
  | cons part rest ih =>
    rw [firstOfChain, firstOfChain]
    split
    · rw [ih, @ih (SymbolSet.empty.union _)]
      simp only [SymbolSet.mem_union, SymbolSet.not_mem_empty, false_or]
      tauto
    · simp only [SymbolSet.mem_withoutEpsilon, SymbolSet.mem_union, SymbolSet.not_mem_empty,
        false_or]
      tauto

@[simp] theorem mem_firstOfChain_nil : t ∈ firstOfChain firsts .empty [] ↔ t = .epsilon := by
  simp [firstOfChain]

theorem mem_firstOfChain_cons :
    t ∈ firstOfChain firsts .empty (part :: rest) ↔
      (t ∈ part.first firsts ∧ t ≠ .epsilon) ∨
        (Symbol.epsilon ∈ part.first firsts ∧ t ∈ firstOfChain firsts .empty rest) := by
  rw [firstOfChain]
  split
  · next nullable =>
    rw [SymbolSet.contains_iff_mem] at nullable
    rw [mem_firstOfChain]
    simp [nullable]
  · next solid =>
    rw [SymbolSet.contains_iff_mem] at solid
    simp [solid]

theorem firstOfChain_singleton : firstOfChain firsts .empty [part] = part.first firsts := by
  refine SymbolSet.ext_mem fun t => ?_
  rw [mem_firstOfChain_cons, mem_firstOfChain_nil]
  by_cases marker : t = .epsilon
  · simp [marker]
  · simp [marker]

/-- After the body of a repetition comes what begins the body again, or nothing. -/
theorem firstOfChain_repeated :
    firstOfChain firsts .empty [part, .zeroOrMore part] = part.first firsts := by
  refine SymbolSet.ext_mem fun t => ?_
  rw [mem_firstOfChain_cons, firstOfChain_singleton, first, SymbolSet.mem_insert]
  by_cases marker : t = .epsilon
  · simp [marker]
  · simp only [marker]
    tauto

theorem mem_firstOfChoice :
    t ∈ firstOfChoice firsts found parts ↔ t ∈ found ∨ ∃ part ∈ parts, t ∈ part.first firsts := by
  induction parts generalizing found with
  | nil => simp [firstOfChoice]
  | cons part rest ih =>
    rw [firstOfChoice, ih, SymbolSet.mem_union, List.exists_mem_cons_iff, or_assoc]

/-! ### Chains and strings -/

/-- If each part of a chain says no more than its symbol, the chain says no more than the string
of symbols. -/
theorem mem_ofString_of_mem_firstOfChain (covered : other.Covers form)
    (within : List.Forall₂ (fun part s => ∀ t ∈ part.first firsts, t ∈ other.sets.members s)
      parts form) :
    ∀ t ∈ firstOfChain firsts .empty parts, t ∈ other.ofString form := by
  induction within with
  | nil => simp
  | cons head _ ih =>
    intro t member
    rw [FirstSets.mem_ofString_cons covered]
    rw [mem_firstOfChain_cons] at member
    exact member.imp (fun begins => ⟨head t begins.1, begins.2⟩)
      fun later => ⟨head _ later.1, ih (FirstSets.covers_cons.mp covered).2 t later.2⟩

/-- If each symbol says no more than its part of a chain, the string says no more than the
chain. -/
theorem mem_firstOfChain_of_mem_ofString (covered : other.Covers form)
    (within : List.Forall₂ (fun part s => ∀ t ∈ other.sets.members s, t ∈ part.first firsts)
      parts form) :
    ∀ t ∈ other.ofString form, t ∈ firstOfChain firsts .empty parts := by
  induction within with
  | nil => simp
  | cons head _ ih =>
    intro t member
    rw [FirstSets.mem_ofString_cons covered] at member
    rw [mem_firstOfChain_cons]
    exact member.imp (fun begins => ⟨head t begins.1, begins.2⟩)
      fun later => ⟨head _ later.1, ih (FirstSets.covers_cons.mp covered).2 t later.2⟩

end Expr

/-! ### Alternatives of a plain grammar -/

namespace FirstSets

variable {grammar : Grammar} {r t : Symbol} {alternatives : List Alternative}
  {symbols : List Symbol}

/-- What begins an alternative begins its symbol. -/
theorem mem_members_of_alternative (defined : grammar.alternatives? r = some alternatives)
    (listed : .ofSymbols symbols ∈ alternatives) (absent : Symbol.epsilon ∉ symbols)
    (begins : t ∈ (compute grammar).ofString symbols) :
    t ∈ (compute grammar).sets.members r := by
  refine compute_closed ⟨alternatives, defined, listed⟩ ?_
  rwa [Alternative.symbols_ofSymbols absent]

/-- An empty alternative gives the marker. -/
theorem epsilon_mem_members_of_alternative
    (defined : grammar.alternatives? r = some alternatives) (listed : .epsilon ∈ alternatives) :
    Symbol.epsilon ∈ (compute grammar).sets.members r :=
  compute_closed ⟨alternatives, defined, listed⟩ (mem_ofString_nil.mpr rfl)

end FirstSets

namespace EbnfGrammar

open FirstSets (computeEbnf passEbnf mem_members_of_alternative
  epsilon_mem_members_of_alternative)

variable {source : EbnfGrammar} {grammar : Grammar} {firsts : FirstSets} {s r t : Symbol}
  {expr : Expr} {parts : List Expr} {form symbols : List Symbol} {alternative : Alternative}

/-- FIRST sets of an EBNF grammar that do not go beyond those of the lowered grammar. -/
structure FirstsWithin (source : EbnfGrammar) (grammar : Grammar) (firsts : FirstSets) : Prop where
  /-- The keys are those of the initial sets. -/
  keys_eq : firsts.sets.keys =
    (FirstSets.initial source.terminals.items source.nonterminals).sets.keys
  /-- Members are members for the lowered grammar. -/
  within : ∀ s, ∀ t ∈ firsts.sets.members s, t ∈ (FirstSets.compute grammar).sets.members s

/-- FIRST sets of the lowered grammar that do not go beyond those of the expressions. -/
structure FirstsReached (source : EbnfGrammar) (grammar : Grammar) (firsts : FirstSets) :
    Prop where
  /-- The keys stay, and members are terminals, `EOF` or `ε`. -/
  confined : FirstSets.Confined grammar firsts
  /-- What begins a symbol begins the expression that it stands for. -/
  within : ∀ {expr s}, Realizes source grammar [expr] [s] →
    ∀ t ∈ firsts.sets.members s, t ∈ expr.first (computeEbnf source)

namespace LaysOut

variable (wellFormed : source.WellFormed) (laysOut : source.LaysOut grammar)

/-- The FIRST sets of the lowered grammar know all symbols that stand for expressions. -/
theorem covers (laysOut : source.LaysOut grammar) (confined : FirstSets.Confined grammar firsts)
    (realizes : Realizes source grammar parts form) : firsts.Covers form :=
  confined.covers (laysOut.knows realizes)

include wellFormed laysOut

/-! ### Expressions say no more than their symbols -/

/-- If FIRST sets do not go beyond those of the lowered grammar, neither do those of expressions
that are computed from them. -/
theorem first_within
    (within : ∀ s, ∀ t ∈ firsts.sets.members s, t ∈ (FirstSets.compute grammar).sets.members s)
    (realizes : Realizes source grammar parts form) :
    List.Forall₂ (fun part s => ∀ t ∈ part.first firsts,
      t ∈ (FirstSets.compute grammar).sets.members s) parts form := by
  have covers := fun {parts form} => @LaysOut.covers source grammar _ parts form laysOut
    (FirstSets.confined_compute grammar)
  have absent := fun {parts form} => @LoweredTo.ne_epsilon source grammar parts form wellFormed
    (laysOut.loweredTo wellFormed)
  induction realizes with
  | nil => exact .nil
  | terminal _ _ ih => exact .cons (by simpa using within _) ih
  | nonterminal _ _ ih => exact .cons (by simpa using within _) ih
  | chain inner defined _ ihInner ih =>
    refine .cons (fun t member => ?_) ih
    rw [Expr.first] at member
    exact mem_members_of_alternative defined List.mem_cons_self (absent inner)
      (Expr.mem_ofString_of_mem_firstOfChain (covers inner) ihInner t member)
  | choice inner defined _ ihInner ih =>
    refine .cons (fun t member => ?_) ih
    rw [Expr.first, Expr.mem_firstOfChoice] at member
    obtain ⟨part, listed, begins⟩ := member.resolve_left (SymbolSet.not_mem_empty t)
    obtain ⟨s, inside, bound⟩ := exists_of_forall₂ ihInner listed
    have covered := FirstSets.covers_singleton.mpr (covers inner s inside)
    refine mem_members_of_alternative defined (List.mem_map_of_mem inside) ?_
      ((FirstSets.mem_ofString_singleton covered).mpr (bound t begins))
    exact fun same => absent inner (List.mem_singleton.mp same ▸ inside)
  | optional inner defined _ ihInner ih =>
    refine .cons (fun t member => ?_) ih
    rw [Expr.first, SymbolSet.mem_insert] at member
    rcases member with begins | rfl
    · exact mem_members_of_alternative defined List.mem_cons_self (absent inner)
        ((FirstSets.mem_ofString_singleton (covers inner)).mpr
          ((List.forall₂_cons.mp ihInner).1 t begins))
    · exact epsilon_mem_members_of_alternative defined (by simp)
  | zeroOrMore inner defined _ ihInner ih =>
    refine .cons (fun t member => ?_) ih
    rw [Expr.first, SymbolSet.mem_insert] at member
    by_cases marker : t = .epsilon
    · exact marker ▸ epsilon_mem_members_of_alternative defined (by simp)
    · have both := inner.cons (.zeroOrMore inner defined .nil)
      refine mem_members_of_alternative defined List.mem_cons_self (absent both) ?_
      rw [FirstSets.mem_ofString_cons (covers both)]
      exact Or.inl ⟨(List.forall₂_cons.mp ihInner).1 t (member.resolve_right marker), marker⟩
  | oneOrMore inner defined further _ ihInner ih =>
    refine .cons (fun t member => ?_) ih
    rw [Expr.first] at member
    have again := Realizes.zeroOrMore inner further .nil
    have both := inner.cons again
    have begins := (List.forall₂_cons.mp ihInner).1 t member
    refine mem_members_of_alternative defined List.mem_cons_self (absent both) ?_
    rw [FirstSets.mem_ofString_cons (covers both),
      FirstSets.mem_ofString_singleton (covers again)]
    -- if the body is nullable, so is the repetition after it
    by_cases marker : t = .epsilon
    · exact Or.inr ⟨marker ▸ begins, marker ▸ epsilon_mem_members_of_alternative further (by simp)⟩
    · exact Or.inl ⟨begins, marker⟩

theorem firstsWithin_initial :
    FirstsWithin source grammar
      (FirstSets.initial source.terminals.items source.nonterminals) := by
  refine ⟨rfl, fun s t member => ?_⟩
  obtain ⟨rfl, -, listed⟩ := FirstSets.mem_members_initial.mp member
  rw [← laysOut.terminals_eq] at listed
  exact FirstSets.mem_members_of_listed (laysOut.wellFormed wellFormed) listed

/-- A pass over the expressions does not go beyond the sets of the lowered grammar. -/
theorem firstsWithin_pass (before : FirstsWithin source grammar firsts) :
    FirstsWithin source grammar (passEbnf source firsts).1 := by
  have lowered := laysOut.loweredTo wellFormed
  refine sweep_invariant _ before fun firsts production listed before => ?_
  obtain ⟨s, expr⟩ := production
  rw [FirstSets.extend_eq]
  refine ⟨OrderedMap.keys_extendAt.trans before.keys_eq, fun r t member => ?_⟩
  rcases OrderedMap.mem_members_extendAt.mp member with old | ⟨rfl, -, new⟩
  · exact before.within r t old
  -- the symbol that stands for the expression is the only alternative
  · obtain ⟨root, defined, stands⟩ := lowered.roots (OrderedMap.mem_entries_iff.mp listed)
    have bound := (List.forall₂_cons.mp (laysOut.first_within wellFormed before.within stands)).1
    refine mem_members_of_alternative defined List.mem_cons_self
      (lowered.ne_epsilon wellFormed stands) ?_
    rw [FirstSets.mem_ofString_singleton
      (laysOut.covers (FirstSets.confined_compute grammar) stands)]
    exact bound t new

theorem firstsWithin_compute : FirstsWithin source grammar (computeEbnf source) :=
  saturate_invariant _ _ (laysOut.firstsWithin_initial wellFormed) fun _ before =>
    laysOut.firstsWithin_pass wellFormed before

/-- The FIRST sets of the expressions are closed. -/
theorem firsts_closed (found : source.expression? s = some expr)
    (begins : t ∈ expr.first (computeEbnf source)) :
    t ∈ (computeEbnf source).sets.members s := by
  have growing : ∀ production : Symbol × Expr,
      Growing (fun firsts : FirstSets => firsts.sets.weight)
        fun firsts => firsts.extend production.1 (production.2.first firsts) :=
    fun production => FirstSets.growing_extend production.1 production.2.first
  -- the sets of the lowered grammar bound the weight
  have silent : (passEbnf source (computeEbnf source)).2 = false := by
    refine FirstSets.silent_of_confined (Growing.sweep _ fun production _ => growing production)
      (laysOut.firstsWithin_initial wellFormed)
      (fun _ before => laysOut.firstsWithin_pass wellFormed before)
      (fun _ before => before.keys_eq) fun firsts before s t member => ?_
    rw [← laysOut.terminals_eq]
    exact (FirstSets.confined_compute grammar).within s t (before.within s t member)
  have listed := OrderedMap.mem_entries_iff.mpr found
  refine FirstSets.mem_members_of_silent
    (sweep_silent (fun production _ => growing production) silent (s, expr) listed) ?_ begins
  rw [(laysOut.firstsWithin_compute wellFormed).keys_eq, FirstSets.mem_keys_initial]
  exact Or.inl (List.mem_map_of_mem listed)

/-! ### Symbols say no more than their expressions -/

/-- What begins the expressions that an expression is replaced by begins the expression. -/
theorem mem_first_of_expands (expands : source.Expands expr parts)
    (begins : t ∈ Expr.firstOfChain (computeEbnf source) .empty parts) :
    t ∈ expr.first (computeEbnf source) := by
  cases expands with
  | nonterminal found =>
    rw [Expr.firstOfChain_singleton] at begins
    rw [Expr.first_nonterminal]
    exact laysOut.firsts_closed wellFormed found begins
  | chain => rwa [Expr.first]
  | choice member =>
    rw [Expr.firstOfChain_singleton] at begins
    rw [Expr.first, Expr.mem_firstOfChoice]
    exact Or.inr ⟨_, member, begins⟩
  | optionalSome =>
    rw [Expr.firstOfChain_singleton] at begins
    rw [Expr.first, SymbolSet.mem_insert]
    exact Or.inl begins
  | optionalNone =>
    rw [Expr.first, SymbolSet.mem_insert]
    exact Or.inr (Expr.mem_firstOfChain_nil.mp begins)
  | zeroOrMoreSome =>
    rw [Expr.firstOfChain_repeated] at begins
    rw [Expr.first, SymbolSet.mem_insert]
    exact Or.inl begins
  | zeroOrMoreNone =>
    rw [Expr.first, SymbolSet.mem_insert]
    exact Or.inr (Expr.mem_firstOfChain_nil.mp begins)
  | oneOrMore =>
    rw [Expr.firstOfChain_repeated] at begins
    rwa [Expr.first]

omit wellFormed in
theorem firstsReached_initial :
    FirstsReached source grammar
      (FirstSets.initial grammar.terminals.items grammar.nonterminals) := by
  refine ⟨FirstSets.confined_initial grammar, fun {expr s} stands t member => ?_⟩
  obtain ⟨rfl, other, listed⟩ := FirstSets.mem_members_initial.mp member
  rw [laysOut.terminals_eq] at listed
  -- only a terminal stands for something without a production
  have defined : ∀ {alternatives}, grammar.alternatives? t ≠ some alternatives := by
    intro alternatives found
    exact other (Grammar.isNonterminal_iff.mp (Grammar.isNonterminal_of_alternatives? found))
  cases stands with
  | terminal allowed =>
    rw [Expr.first_terminal]
    refine FirstSets.mem_members_saturate _ (FirstSets.mem_members_initial.mpr
      ⟨rfl, fun nonterminal => ?_, listed⟩)
    exact other (Grammar.isNonterminal_iff.mp (laysOut.isNonterminal
      (OrderedMap.contains_iff.mpr nonterminal)))
  | nonterminal allowed =>
    exact absurd (Grammar.isNonterminal_iff.mp (laysOut.isNonterminal allowed)) other
  | chain _ found => exact absurd found defined
  | choice _ found => exact absurd found defined
  | optional _ found => exact absurd found defined
  | zeroOrMore _ found => exact absurd found defined
  | oneOrMore _ found => exact absurd found defined

/-- A pass over the productions does not go beyond the sets of the expressions. -/
theorem firstsReached_pass (before : FirstsReached source grammar firsts) :
    FirstsReached source grammar (FirstSets.pass grammar firsts).1 := by
  refine sweep_invariant _ before fun firsts production listed before => ?_
  obtain ⟨left, alternatives⟩ := production
  refine ⟨before.confined.extend fun t member => ?_, fun {expr s} stands t member => ?_⟩
  · obtain ⟨alternative, -, begins⟩ := FirstSets.mem_ofAlternatives.mp member
    exact before.confined.mem_ofString begins
  · rw [FirstSets.extend_eq] at member
    rcases OrderedMap.mem_members_extendAt.mp member with old | ⟨rfl, -, new⟩
    · exact before.within stands t old
    · obtain ⟨alternative, inside, begins⟩ := FirstSets.mem_ofAlternatives.mp new
      obtain ⟨parts, expands, inner⟩ := (laysOut.loweredTo wellFormed).expands_of_rule wellFormed
        stands ⟨alternatives, OrderedMap.mem_entries_iff.mp listed, inside⟩
      exact laysOut.mem_first_of_expands wellFormed expands
        (Expr.mem_firstOfChain_of_mem_ofString (laysOut.covers before.confined inner)
          (inner.forall₂.imp fun _ _ => before.within) t begins)

theorem firstsReached_compute : FirstsReached source grammar (FirstSets.compute grammar) :=
  saturate_invariant _ _ laysOut.firstsReached_initial fun _ before =>
    laysOut.firstsReached_pass wellFormed before

/-! ### The two computations agree -/

/-- An expression and the symbol that stands for it begin alike. -/
theorem first_eq (stands : Realizes source grammar [expr] [s]) :
    expr.first (computeEbnf source) = (FirstSets.compute grammar).sets.members s := by
  have bound := laysOut.first_within wellFormed (laysOut.firstsWithin_compute wellFormed).within
    stands
  exact SymbolSet.ext_mem fun t => ⟨(List.forall₂_cons.mp bound).1 t,
    (laysOut.firstsReached_compute wellFormed).within stands t⟩

/-- A chain and the string that stands for it begin alike. -/
theorem firstOfChain_eq (realizes : Realizes source grammar parts form) :
    Expr.firstOfChain (computeEbnf source) .empty parts =
      (FirstSets.compute grammar).ofString form := by
  have reached := laysOut.firstsReached_compute wellFormed
  have covered := laysOut.covers reached.confined realizes
  refine SymbolSet.ext_mem fun t => ⟨?_, ?_⟩
  · exact Expr.mem_ofString_of_mem_firstOfChain covered
      (laysOut.first_within wellFormed (laysOut.firstsWithin_compute wellFormed).within realizes) t
  · exact Expr.mem_firstOfChain_of_mem_ofString covered
      (realizes.forall₂.imp fun _ _ => reached.within) t

/-- The two computations agree on declared nonterminals. -/
theorem get?_firsts (nonterminal : source.isNonterminal s = true) :
    (computeEbnf source).get? s = (FirstSets.compute grammar).get? s := by
  have listed : s ∈ (computeEbnf source).sets.keys := by
    rw [(laysOut.firstsWithin_compute wellFormed).keys_eq, FirstSets.mem_keys_initial]
    exact Or.inl (OrderedMap.contains_iff.mp nonterminal)
  have known := (FirstSets.confined_compute grammar).mem_keys
    (Or.inr (laysOut.isNonterminal nonterminal))
  rw [FirstSets.get?, FirstSets.get?, OrderedMap.get?_eq_some_members listed,
    OrderedMap.get?_eq_some_members known]
  have stands : Realizes source grammar [.nonterminal s] [s] := .nonterminal nonterminal .nil
  rw [← laysOut.first_eq wellFormed stands, Expr.first_nonterminal]

end LaysOut

end EbnfGrammar

end Predictive
