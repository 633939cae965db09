import Predictive.Ebnf.Analysis
import Predictive.Proofs.Ebnf.Lowering

/-!
# The sites of expressions

Every expression inside a production has a site: the position from which its symbols are
introduced, and the terminals that can follow it. Both are handed down from an expression to its
parts, beginning with the expression of a nonterminal, which is followed by whatever follows the
nonterminal. The sites cover the lowered grammar: each of its nonterminals is a declared one, or
was introduced for the expression at some site.

## Main definitions

* `Site`, `Site.Part` — an expression with its surroundings, and its parts with theirs
* `Site.own` — the symbols that are introduced for the expression itself
* `EbnfGrammar.Sites` — the sites of a grammar

## Main results

* `EbnfGrammar.Sites.exists_own` — every symbol that an expression introduces belongs to a site
* `EbnfGrammar.LaysOut.exists_site` — every nonterminal belongs to a site
* `EbnfGrammar.LaysOut.wellFormed` — a lowered grammar is well formed
-/

namespace Predictive

namespace Expr

mutual

/-- What holds of an expression if it holds of its parts, holds of all expressions. -/
theorem induction {holds : Expr → Prop} (terminal : ∀ s, holds (.terminal s))
    (nonterminal : ∀ s, holds (.nonterminal s))
    (chain : ∀ parts, (∀ part ∈ parts, holds part) → holds (.chain parts))
    (choice : ∀ parts, (∀ part ∈ parts, holds part) → holds (.choice parts))
    (optional : ∀ body, holds body → holds (.optional body))
    (zeroOrMore : ∀ body, holds body → holds (.zeroOrMore body))
    (oneOrMore : ∀ body, holds body → holds (.oneOrMore body)) : ∀ expr, holds expr
  | .terminal s => terminal s
  | .nonterminal s => nonterminal s
  | .chain parts => chain parts (inductionAll terminal nonterminal chain choice optional
      zeroOrMore oneOrMore parts)
  | .choice parts => choice parts (inductionAll terminal nonterminal chain choice optional
      zeroOrMore oneOrMore parts)
  | .optional body => optional body (induction terminal nonterminal chain choice optional
      zeroOrMore oneOrMore body)
  | .zeroOrMore body => zeroOrMore body (induction terminal nonterminal chain choice optional
      zeroOrMore oneOrMore body)
  | .oneOrMore body => oneOrMore body (induction terminal nonterminal chain choice optional
      zeroOrMore oneOrMore body)

theorem inductionAll {holds : Expr → Prop} (terminal : ∀ s, holds (.terminal s))
    (nonterminal : ∀ s, holds (.nonterminal s))
    (chain : ∀ parts, (∀ part ∈ parts, holds part) → holds (.chain parts))
    (choice : ∀ parts, (∀ part ∈ parts, holds part) → holds (.choice parts))
    (optional : ∀ body, holds body → holds (.optional body))
    (zeroOrMore : ∀ body, holds body → holds (.zeroOrMore body))
    (oneOrMore : ∀ body, holds body → holds (.oneOrMore body)) :
    ∀ parts : List Expr, ∀ part ∈ parts, holds part
  | [], _, listed => absurd listed List.not_mem_nil
  | first :: rest, part, listed => by
    have head := induction terminal nonterminal chain choice optional zeroOrMore oneOrMore first
    have tail := inductionAll terminal nonterminal chain choice optional zeroOrMore oneOrMore rest
    rcases List.mem_cons.mp listed with same | later
    · exact same ▸ head
    · exact tail part later

end

/-- A position among the symbols of a list belongs to one of the parts. -/
theorem exists_part_of_position {parts : List Expr} {first position : Nat} (low : first ≤ position)
    (high : position < first + extentOfAll parts) :
    ∃ front part back, parts = front ++ part :: back ∧ first + extentOfAll front ≤ position ∧
      position < first + extentOfAll front + part.extent := by
  induction parts generalizing first with
  | nil =>
    rw [extentOfAll] at high
    omega
  | cons part rest ih =>
    rw [extentOfAll] at high
    by_cases inside : position < first + part.extent
    · refine ⟨[], part, rest, rfl, ?_, ?_⟩
      · rwa [extentOfAll, Nat.add_zero]
      · rwa [extentOfAll, Nat.add_zero]
    · obtain ⟨front, found, back, rfl, below, above⟩ :=
        @ih (first + part.extent) (by omega) (by omega)
      refine ⟨part :: front, found, back, rfl, ?_, ?_⟩
      · rw [extentOfAll]
        omega
      · rw [extentOfAll]
        omega

end Expr

/-- An expression, the position from which its symbols are introduced, and the terminals that can
follow it. -/
structure Site where
  /-- The expression. -/
  expr : Expr
  /-- The position of the first symbol that is introduced for it. -/
  first : Nat
  /-- The terminals that can follow it. -/
  next : SymbolSet

/-- Expressions that use symbols as declared, one by one. -/
theorem EbnfGrammar.admitsAll_iff {source : EbnfGrammar} {parts : List Expr} :
    source.AdmitsAll parts ↔ ∀ part ∈ parts, source.Admits part := by
  induction parts with
  | nil => simp [AdmitsAll]
  | cons part rest ih => rw [AdmitsAll, ih, List.forall_mem_cons]

/-- The symbols behind a part of a chain stand for the expressions behind it. -/
theorem Expr.Laid.realizes_back {source : EbnfGrammar} {grammar : Grammar} {first : Nat}
    {front back : List Expr} {part : Expr}
    (laid : (Expr.chain (front ++ part :: back)).Laid grammar first)
    (admits : source.Admits (.chain (front ++ part :: back))) :
    EbnfGrammar.Realizes source grammar back
      (Expr.symbolsAt (first + 1 + Expr.extentOfAll front + part.extent) back) :=
  Expr.LaidAll.realizes (Expr.laidAll_append.mp laid.2).2.2
    (EbnfGrammar.admitsAll_iff.mpr fun other listed =>
      EbnfGrammar.admitsAll_iff.mp admits other (by simp [listed]))

namespace Site

variable {firsts : FirstSets} {grammar : Grammar} {source : EbnfGrammar} {site inner : Site}

/-- The symbol that stands for the expression. -/
def symbol (site : Site) : Symbol := site.expr.symbolAt site.first

/-- The symbols that are introduced for the expression itself, and not for a part of it. -/
def own (site : Site) : List Symbol :=
  match site.expr with
  | .terminal _ => []
  | .nonterminal _ => []
  | .oneOrMore _ => [⟨site.first⟩, ⟨site.first + 1⟩]
  | _ => [⟨site.first⟩]

/-- A part of an expression, with what is handed down to it. A part of a chain is followed by what
begins the rest of the chain, and the body of a repetition also by what begins the body. -/
inductive Part (firsts : FirstSets) : Site → Site → Prop where
  /-- A part of a chain. -/
  | chain (front : List Expr) (part : Expr) (back : List Expr) (first : Nat) (next : SymbolSet) :
      Part firsts ⟨.chain (front ++ part :: back), first, next⟩
        ⟨part, first + 1 + Expr.extentOfAll front,
          (Expr.firstOfChain firsts .empty back).followedBy next⟩
  /-- A part of a choice. -/
  | choice (front : List Expr) (part : Expr) (back : List Expr) (first : Nat) (next : SymbolSet) :
      Part firsts ⟨.choice (front ++ part :: back), first, next⟩
        ⟨part, first + 1 + Expr.extentOfAll front, next⟩
  /-- The body of an optional expression. -/
  | optional (body : Expr) (first : Nat) (next : SymbolSet) :
      Part firsts ⟨.optional body, first, next⟩ ⟨body, first + 1, next⟩
  /-- The body of a repetition. -/
  | zeroOrMore (body : Expr) (first : Nat) (next : SymbolSet) :
      Part firsts ⟨.zeroOrMore body, first, next⟩
        ⟨body, first + 1, next.union (body.first firsts).withoutEpsilon⟩
  /-- The body of a repetition that is not empty. -/
  | oneOrMore (body : Expr) (first : Nat) (next : SymbolSet) :
      Part firsts ⟨.oneOrMore body, first, next⟩
        ⟨body, first + 2, next.union (body.first firsts).withoutEpsilon⟩

/-! ### What parts inherit -/

theorem Part.laid (part : Part firsts site inner) (laid : site.expr.Laid grammar site.first) :
    inner.expr.Laid grammar inner.first := by
  cases part with
  | chain => exact (Expr.laidAll_append.mp laid.2).2.1
  | choice => exact (Expr.laidAll_append.mp laid.2).2.1
  | optional => exact laid.2
  | zeroOrMore => exact laid.2
  | oneOrMore => exact laid.2.2

theorem Part.admits (part : Part firsts site inner) (admits : source.Admits site.expr) :
    source.Admits inner.expr := by
  cases part with
  | chain => exact EbnfGrammar.admitsAll_iff.mp admits _ (by simp)
  | choice => exact EbnfGrammar.admitsAll_iff.mp admits.2 _ (by simp)
  | optional => exact admits
  | zeroOrMore => exact admits
  | oneOrMore => exact admits

theorem Part.le_first (part : Part firsts site inner) : site.first ≤ inner.first := by
  cases part with
  | chain => dsimp only; omega
  | choice => dsimp only; omega
  | optional => exact Nat.le_add_right ..
  | zeroOrMore => exact Nat.le_add_right ..
  | oneOrMore => exact Nat.le_add_right ..

end Site

namespace EbnfGrammar

variable {source : EbnfGrammar} {grammar : Grammar} {firsts : FirstSets} {follows : FollowSets}
  {site inner : Site} {s u : Symbol} {expr : Expr} {parts : List Expr} {form : List Symbol}
  {alternative : Alternative}

/-- The sites of a grammar, given what can follow its nonterminals. -/
inductive Sites (source : EbnfGrammar) (grammar : Grammar) (firsts : FirstSets)
    (follows : FollowSets) : Site → Prop where
  /-- The expression of a nonterminal is followed by what follows the nonterminal. -/
  | root {s : Symbol} {expr : Expr} {first : Nat} (found : source.expression? s = some expr)
      (beyond : source.names.size ≤ first) (laid : LaidOut grammar first (s, expr)) :
      Sites source grammar firsts follows ⟨expr, first, follows.get s⟩
  /-- The parts of an expression. -/
  | part {site inner : Site} (outer : Sites source grammar firsts follows site)
      (inside : Site.Part firsts site inner) : Sites source grammar firsts follows inner

namespace Sites

/-- Every symbol that an expression introduces belongs to a site. -/
theorem exists_own {expr : Expr} {first position : Nat} {next : SymbolSet}
    (sites : Sites source grammar firsts follows ⟨expr, first, next⟩) (low : first ≤ position)
    (high : position < first + expr.extent) :
    ∃ site, Sites source grammar firsts follows site ∧ ⟨position⟩ ∈ site.own := by
  induction expr using Expr.induction generalizing first next with
  | terminal s =>
    rw [Expr.extent] at high
    omega
  | nonterminal s =>
    rw [Expr.extent] at high
    omega
  | chain parts ih =>
    rw [Expr.extent] at high
    rcases Nat.eq_or_lt_of_le low with rfl | beyond
    · exact ⟨_, sites, List.mem_cons_self⟩
    · obtain ⟨front, part, back, rfl, below, above⟩ :=
        @Expr.exists_part_of_position parts (first + 1) position beyond (by omega)
      exact ih part (by simp) (sites.part (.chain front part back first next)) below above
  | choice parts ih =>
    rw [Expr.extent] at high
    rcases Nat.eq_or_lt_of_le low with rfl | beyond
    · exact ⟨_, sites, List.mem_cons_self⟩
    · obtain ⟨front, part, back, rfl, below, above⟩ :=
        @Expr.exists_part_of_position parts (first + 1) position beyond (by omega)
      exact ih part (by simp) (sites.part (.choice front part back first next)) below above
  | optional body ih =>
    rw [Expr.extent] at high
    rcases Nat.eq_or_lt_of_le low with rfl | beyond
    · exact ⟨_, sites, List.mem_cons_self⟩
    · exact ih (sites.part (.optional body first next)) beyond (by omega)
  | zeroOrMore body ih =>
    rw [Expr.extent] at high
    rcases Nat.eq_or_lt_of_le low with rfl | beyond
    · exact ⟨_, sites, List.mem_cons_self⟩
    · exact ih (sites.part (.zeroOrMore body first next)) beyond (by omega)
  | oneOrMore body ih =>
    rw [Expr.extent] at high
    rcases Nat.eq_or_lt_of_le low with rfl | beyond
    · exact ⟨_, sites, List.mem_cons_self⟩
    -- the second symbol is for the repetition that may be empty
    · rcases Nat.eq_or_lt_of_le beyond with rfl | further
      · exact ⟨_, sites, List.mem_cons_of_mem _ List.mem_cons_self⟩
      · exact ih (sites.part (.oneOrMore body first next)) further (by omega)

variable (sites : Sites source grammar firsts follows site)

include sites

theorem laid : site.expr.Laid grammar site.first := by
  induction sites with
  | root _ _ laid => exact laid.2
  | part _ inside ih => exact inside.laid ih

theorem admits (wellFormed : source.WellFormed) : source.Admits site.expr := by
  induction sites with
  | root found => exact wellFormed.admits found
  | part _ inside ih => exact inside.admits ih

theorem le_first : source.names.size ≤ site.first := by
  induction sites with
  | root _ beyond => exact beyond
  | part _ inside ih => exact Nat.le_trans ih inside.le_first

/-- The symbol of a site stands for its expression. -/
theorem realizes (wellFormed : source.WellFormed) :
    Realizes source grammar [site.expr] [site.symbol] :=
  sites.laid.realizes (sites.admits wellFormed)

/-- The symbols that were introduced for an expression come after the declared ones. -/
theorem le_of_mem_own (listed : u ∈ site.own) : source.names.size ≤ u.id := by
  have beyond := sites.le_first
  obtain ⟨expr, first, next⟩ := site
  cases expr with
  | terminal => cases listed
  | nonterminal => cases listed
  | oneOrMore =>
    rcases List.mem_pair.mp listed with rfl | rfl
    · exact beyond
    · exact Nat.le_succ_of_le beyond
  | chain => exact List.mem_singleton.mp listed ▸ beyond
  | choice => exact List.mem_singleton.mp listed ▸ beyond
  | optional => exact List.mem_singleton.mp listed ▸ beyond
  | zeroOrMore => exact List.mem_singleton.mp listed ▸ beyond

/-- A symbol that was introduced for an expression stands for it, or for a repetition that may be
empty of the same body. -/
theorem realizes_of_mem_own (wellFormed : source.WellFormed) (listed : u ∈ site.own) :
    ∃ expr, source.Admits expr ∧ Realizes source grammar [expr] [u] := by
  have admits := sites.admits wellFormed
  have stands := sites.realizes wellFormed
  have laid := sites.laid
  obtain ⟨expr, first, next⟩ := site
  cases expr with
  | terminal => cases listed
  | nonterminal => cases listed
  | oneOrMore body =>
    rcases List.mem_pair.mp listed with rfl | rfl
    · exact ⟨_, admits, stands⟩
    · exact ⟨.zeroOrMore body, admits, .zeroOrMore (laid.2.2.realizes admits) laid.2.1 .nil⟩
  | chain => exact ⟨_, admits, List.mem_singleton.mp listed ▸ stands⟩
  | choice => exact ⟨_, admits, List.mem_singleton.mp listed ▸ stands⟩
  | optional => exact ⟨_, admits, List.mem_singleton.mp listed ▸ stands⟩
  | zeroOrMore => exact ⟨_, admits, List.mem_singleton.mp listed ▸ stands⟩

end Sites

namespace LaysOut

variable (laysOut : source.LaysOut grammar)

include laysOut

theorem isTerminal_eq : grammar.isTerminal s = source.isTerminal s := by
  rw [Grammar.isTerminal, isTerminal, laysOut.terminals_eq]

theorem isNonterminal (nonterminal : source.isNonterminal s = true) :
    grammar.isNonterminal s = true := by
  obtain ⟨expr, found⟩ := exists_expression? nonterminal
  obtain ⟨first, -, defined, -⟩ := laysOut.exists_laidOut found
  exact Grammar.isNonterminal_of_alternatives? defined

theorem lt_size (nonterminal : grammar.isNonterminal u = true) : u.id < grammar.names.size := by
  obtain ⟨alternatives, defined⟩ := Option.isSome_iff_exists.mp nonterminal
  by_contra beyond
  have undefined := laysOut.bounded u (Nat.not_lt.mp beyond)
  rw [Grammar.alternatives?, defined] at undefined
  cases undefined

/-- Every nonterminal is a declared one, or was introduced for the expression at some site. -/
theorem exists_site (firsts : FirstSets) (follows : FollowSets)
    (nonterminal : grammar.isNonterminal u = true) :
    source.isNonterminal u = true ∨
      ∃ site, Sites source grammar firsts follows site ∧ u ∈ site.own := by
  by_cases low : u.id < source.names.size
  · left
    by_contra other
    have undefined := laysOut.undefined low (Bool.not_eq_true _ ▸ other)
    rw [Grammar.isNonterminal, OrderedMap.contains, ← Grammar.alternatives?, undefined]
      at nonterminal
    cases nonterminal
  · right
    obtain ⟨production, listed, first, beyond, laid, below, above⟩ :=
      laysOut.arranged.exists_covering (Nat.not_lt.mp low) (laysOut.lt_size nonterminal)
    exact Sites.exists_own (.root (OrderedMap.mem_entries_iff.mp listed) beyond laid) below above

/-- Symbols that stand for expressions are known. -/
theorem knows (realizes : Realizes source grammar parts form) : ∀ t ∈ form, grammar.Knows t := by
  have nonterminal : ∀ {r alternatives}, grammar.alternatives? r = some alternatives →
      grammar.Knows r := fun defined => Or.inr (Grammar.isNonterminal_of_alternatives? defined)
  induction realizes with
  | nil => exact fun _ listed => absurd listed List.not_mem_nil
  | terminal allowed _ ih =>
    exact List.forall_mem_cons.mpr ⟨Or.inl (laysOut.isTerminal_eq ▸ allowed), ih⟩
  | nonterminal allowed _ ih =>
    exact List.forall_mem_cons.mpr ⟨Or.inr (laysOut.isNonterminal allowed), ih⟩
  | chain _ defined _ _ ih => exact List.forall_mem_cons.mpr ⟨nonterminal defined, ih⟩
  | choice _ defined _ _ ih => exact List.forall_mem_cons.mpr ⟨nonterminal defined, ih⟩
  | optional _ defined _ _ ih => exact List.forall_mem_cons.mpr ⟨nonterminal defined, ih⟩
  | zeroOrMore _ defined _ _ ih => exact List.forall_mem_cons.mpr ⟨nonterminal defined, ih⟩
  | oneOrMore _ defined _ _ _ ih => exact List.forall_mem_cons.mpr ⟨nonterminal defined, ih⟩

/-- Every nonterminal stands for an expression. -/
theorem exists_realizes (wellFormed : source.WellFormed)
    (nonterminal : grammar.isNonterminal u = true) :
    ∃ expr, source.Admits expr ∧ Realizes source grammar [expr] [u] := by
  rcases laysOut.exists_site ⟨.empty⟩ ⟨.empty⟩ nonterminal with declared | ⟨site, sites, own⟩
  · exact ⟨.nonterminal u, declared, .nonterminal declared .nil⟩
  · exact sites.realizes_of_mem_own wellFormed own

end LaysOut

/-- Every symbol that stands for an expression in order has an alternative. -/
theorem Realizes.alternatives_ne_nil (lowered : source.LoweredTo grammar)
    (stands : Realizes source grammar [expr] [u]) (admits : source.Admits expr)
    {alternatives : List Alternative} (found : grammar.alternatives? u = some alternatives) :
    alternatives ≠ [] := by
  cases stands with
  | terminal allowed =>
    rw [lowered.terminal allowed] at found
    cases found
  | nonterminal allowed =>
    obtain ⟨expr, given⟩ := exists_expression? allowed
    obtain ⟨root, defined, -⟩ := lowered.roots given
    exact Option.some.inj (found.symm.trans defined) ▸ List.cons_ne_nil _ _
  | chain _ defined => exact Option.some.inj (found.symm.trans defined) ▸ List.cons_ne_nil _ _
  | choice inner defined =>
    obtain rfl := Option.some.inj (found.symm.trans defined)
    obtain ⟨part, listed⟩ := List.exists_mem_of_ne_nil _ admits.1
    obtain ⟨s, member, -⟩ := inner.exists_symbol listed
    exact List.ne_nil_of_mem (List.mem_map_of_mem member)
  | optional _ defined => exact Option.some.inj (found.symm.trans defined) ▸ List.cons_ne_nil _ _
  | zeroOrMore _ defined => exact Option.some.inj (found.symm.trans defined) ▸ List.cons_ne_nil _ _
  | oneOrMore _ defined => exact Option.some.inj (found.symm.trans defined) ▸ List.cons_ne_nil _ _

/-- A lowered grammar is well formed. -/
theorem LaysOut.wellFormed (laysOut : source.LaysOut grammar) (wellFormed : source.WellFormed) :
    grammar.WellFormed := by
  have lowered := laysOut.loweredTo wellFormed
  constructor
  case start_isNonterminal =>
    rw [laysOut.start_eq]
    exact laysOut.isNonterminal wellFormed.start_isNonterminal
  case alternatives_ne_nil =>
    intro s alternatives found
    obtain ⟨expr, admits, stands⟩ := laysOut.exists_realizes wellFormed
      (Grammar.isNonterminal_of_alternatives? found)
    exact stands.alternatives_ne_nil lowered admits found
  case knows_of_rule =>
    intro s alternative rule
    obtain ⟨expr, -, stands⟩ := laysOut.exists_realizes wellFormed
      (Grammar.isNonterminal_of_rule rule)
    obtain ⟨parts, -, inner⟩ := lowered.expands_of_rule wellFormed stands rule
    exact laysOut.knows inner
  case apart =>
    intro s listed
    rw [laysOut.terminals_eq] at listed
    have undefined := lowered.terminal (isTerminal_iff.mpr (Or.inr listed))
    rw [Grammar.isNonterminal, OrderedMap.contains, ← Grammar.alternatives?, undefined]
    rfl
  case terminal_unreserved =>
    intro s listed
    exact (wellFormed.terminal_named (laysOut.terminals_eq ▸ listed)).2
  case nonterminal_unreserved =>
    intro s nonterminal
    rcases laysOut.exists_site ⟨.empty⟩ ⟨.empty⟩ nonterminal with declared | ⟨site, sites, own⟩
    · exact (wellFormed.nonterminal_named declared).2
    -- the reserved symbols come before the declared ones
    · have beyond := sites.le_of_mem_own own
      have two : 1 < source.names.size := NameTable.lt_size_of_name? NameTable.name?_eof
      exact decide_eq_false (by omega)
  case named =>
    rintro s (terminal | nonterminal)
    · rw [laysOut.isTerminal_eq] at terminal
      refine Nat.lt_of_lt_of_le ?_ laysOut.size_le
      rcases isTerminal_iff.mp terminal with rfl | listed
      · exact NameTable.lt_size_of_name? NameTable.name?_eof
      · exact (wellFormed.terminal_named listed).1
    · exact laysOut.lt_size nonterminal

end EbnfGrammar

end Predictive
