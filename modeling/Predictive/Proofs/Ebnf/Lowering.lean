import Predictive.Proofs.Ebnf.Growth
import Predictive.Proofs.Ebnf.Layout

/-!
# Lowering preserves what is matched

Lowering introduces a nonterminal for every chain, choice and repetition. If the names of these
nonterminals are new and differ from each other, each of them is introduced once and keeps the
alternatives that it is given, whatever is lowered later. So the productions of all expressions are
laid out one after the other, the plain grammar realizes every expression, and each declared
nonterminal derives the words that it matches. The one thing that can go wrong is that there is no
room for the names.

## Main definitions

* `Expr.syntheticNames`, `EbnfGrammar.syntheticNames` — the names that lowering introduces
* `EbnfGrammar.Arranged` — productions laid out one after the other
* `EbnfGrammar.LaysOut` — what lowering makes of a grammar

## Main results

* `Expr.adds_lower` — lowering an expression lays out its productions
* `EbnfGrammar.fits_laysOut` — lowering a grammar lays out its productions, if there is room
* `EbnfGrammar.laysOut_of_toGrammar` — a grammar that is lowered is laid out
* `EbnfGrammar.toGrammar_preserves_language` — lowering preserves what is matched
-/

namespace Predictive

namespace Expr

mutual

/-- The names that lowering an expression introduces, in order. -/
def syntheticNames (stem : String) : Expr → List String
  | .terminal _ => []
  | .nonterminal _ => []
  | .chain parts => (stem ++ "Chain") :: syntheticNamesOfAll (stem ++ "Chain") 0 parts
  | .choice parts => (stem ++ "Choice") :: syntheticNamesOfAll (stem ++ "Choice") 0 parts
  | .optional body => (stem ++ "Optional") :: body.syntheticNames (stem ++ "Optional")
  | .zeroOrMore body => (stem ++ "ZeroOrMore") :: body.syntheticNames (stem ++ "ZeroOrMore")
  | .oneOrMore body =>
    (stem ++ "OneOrMore") :: (stem ++ "OneOrMore" ++ "Opt") ::
      body.syntheticNames (stem ++ "OneOrMore")

/-- The names that lowering the parts of a list introduces, in order. -/
def syntheticNamesOfAll (stem : String) (place : Nat) : List Expr → List String
  | [] => []
  | part :: rest =>
    part.syntheticNames (stem ++ toString place) ++ syntheticNamesOfAll stem (place + 1) rest

end

end Expr

namespace EbnfGrammar

/-- The names that lowering a production introduces, in order. -/
def namesOfProduction (source : EbnfGrammar) (production : Symbol × Expr) : List String :=
  production.2.syntheticNames ("_" ++ (source.names.name? production.1).getD "")

/-- The names that lowering a grammar introduces, in order. -/
def syntheticNames (source : EbnfGrammar) : List String :=
  source.productions.entries.flatMap source.namesOfProduction

end EbnfGrammar

namespace Expr

open Grammar

mutual

/-- There is a name for each symbol that an expression introduces. -/
theorem length_syntheticNames : ∀ (expr : Expr) (stem : String),
    (expr.syntheticNames stem).length = expr.extent
  | .terminal _, _ => by rw [syntheticNames, extent, List.length_nil]
  | .nonterminal _, _ => by rw [syntheticNames, extent, List.length_nil]
  | .chain parts, _ => by
    rw [syntheticNames, extent, List.length_cons, length_syntheticNamesOfAll parts]
  | .choice parts, _ => by
    rw [syntheticNames, extent, List.length_cons, length_syntheticNamesOfAll parts]
  | .optional body, _ => by
    rw [syntheticNames, extent, List.length_cons, length_syntheticNames body]
  | .zeroOrMore body, _ => by
    rw [syntheticNames, extent, List.length_cons, length_syntheticNames body]
  | .oneOrMore body, _ => by
    rw [syntheticNames, extent, List.length_cons, List.length_cons, length_syntheticNames body]

theorem length_syntheticNamesOfAll : ∀ (parts : List Expr) (stem : String) (place : Nat),
    (syntheticNamesOfAll stem place parts).length = extentOfAll parts
  | [], _, _ => by rw [syntheticNamesOfAll, extentOfAll, List.length_nil]
  | part :: rest, _, _ => by
    rw [syntheticNamesOfAll, extentOfAll, List.length_append, length_syntheticNames part,
      length_syntheticNamesOfAll rest]

end

mutual

/-- Lowering an expression lays out its productions from the first new symbol on, and gives the
symbol that stands for it. -/
theorem adds_lower : ∀ (expr : Expr) (stem : String) (grammar : Grammar) (first : Nat),
    grammar.names.size = first → grammar.Bounded →
    (∀ name ∈ expr.syntheticNames stem, grammar.names.get? name = none) →
    (expr.syntheticNames stem).Nodup →
    grammar.Adds (expr.syntheticNames stem)
      (fun final s => s = expr.symbolAt first ∧ expr.Laid final first) (expr.lower stem grammar)
  | .terminal s, _, _, _, _, bounded, _, _ => by
    rw [lower, syntheticNames]
    exact adds_nothing bounded fun _ => ⟨rfl, trivial⟩
  | .nonterminal s, _, _, _, _, bounded, _, _ => by
    rw [lower, syntheticNames]
    exact adds_nothing bounded fun _ => ⟨rfl, trivial⟩
  | .chain parts, stem, grammar, _, rfl, bounded, fresh, nodup => by
    rw [syntheticNames] at fresh nodup ⊢
    rw [lower]
    refine (adds_reserve (fun _ symbols => [.ofSymbols symbols]) bounded fresh nodup
      fun next size bounded fresh => adds_lowerAll parts _ 0 next _ size bounded fresh
        nodup.of_cons).imp ?_
    rintro final s ⟨rfl, symbols, ⟨rfl, laid⟩, defined⟩
    exact ⟨rfl, defined, laid⟩
  | .choice parts, stem, grammar, _, rfl, bounded, fresh, nodup => by
    rw [syntheticNames] at fresh nodup ⊢
    rw [lower]
    refine (adds_reserve (fun _ symbols => symbols.map fun part => .ofSymbols [part]) bounded fresh
      nodup fun next size bounded fresh => adds_lowerAll parts _ 0 next _ size bounded fresh
        nodup.of_cons).imp ?_
    rintro final s ⟨rfl, symbols, ⟨rfl, laid⟩, defined⟩
    exact ⟨rfl, defined, laid⟩
  | .optional body, stem, grammar, _, rfl, bounded, fresh, nodup => by
    rw [syntheticNames] at fresh nodup ⊢
    rw [lower]
    refine (adds_reserve (fun _ inner => [.ofSymbols [inner], .epsilon]) bounded fresh nodup
      fun next size bounded fresh => adds_lower body _ next _ size bounded fresh
        nodup.of_cons).imp ?_
    rintro final s ⟨rfl, inner, ⟨rfl, laid⟩, defined⟩
    exact ⟨rfl, defined, laid⟩
  | .zeroOrMore body, stem, grammar, _, rfl, bounded, fresh, nodup => by
    rw [syntheticNames] at fresh nodup ⊢
    rw [lower]
    refine (adds_reserve (fun s inner => [.ofSymbols [inner, s], .epsilon]) bounded fresh nodup
      fun next size bounded fresh => adds_lower body _ next _ size bounded fresh
        nodup.of_cons).imp ?_
    rintro final s ⟨rfl, inner, ⟨rfl, laid⟩, defined⟩
    exact ⟨rfl, defined, laid⟩
  | .oneOrMore body, stem, grammar, _, rfl, bounded, fresh, nodup => by
    rw [syntheticNames] at fresh nodup ⊢
    rw [lower]
    -- the second name is for a repetition of the same body that may be empty
    refine (adds_reserve_pair (fun more inner => [.ofSymbols [inner, more]])
      (fun more inner => [.ofSymbols [inner, more], .epsilon]) bounded fresh nodup
      fun next size bounded fresh => adds_lower body _ next _ size bounded fresh
        nodup.of_cons.of_cons).imp ?_
    rintro final s ⟨rfl, inner, ⟨rfl, laid⟩, defined, others⟩
    exact ⟨rfl, defined, others, laid⟩

/-- Lowering the parts of a list lays out their productions one after the other. -/
theorem adds_lowerAll : ∀ (parts : List Expr) (stem : String) (place : Nat) (grammar : Grammar)
    (first : Nat), grammar.names.size = first → grammar.Bounded →
    (∀ name ∈ syntheticNamesOfAll stem place parts, grammar.names.get? name = none) →
    (syntheticNamesOfAll stem place parts).Nodup →
    grammar.Adds (syntheticNamesOfAll stem place parts)
      (fun final symbols => symbols = symbolsAt first parts ∧ LaidAll final first parts)
      (lowerAll stem place grammar parts)
  | [], _, _, _, _, _, bounded, _, _ => by
    rw [lowerAll, syntheticNamesOfAll]
    exact adds_nothing bounded fun _ => ⟨rfl, trivial⟩
  | part :: rest, stem, place, grammar, _, rfl, bounded, fresh, nodup => by
    rw [syntheticNamesOfAll] at fresh nodup ⊢
    rw [lowerAll]
    have first := adds_lower part (stem ++ toString place) grammar _ rfl bounded
      (fun name listed => fresh name (List.mem_append_left _ listed)) nodup.of_append_left
    refine (first.andThen List.cons fresh nodup fun next size bounded fresh =>
      adds_lowerAll rest stem (place + 1) next (grammar.names.size + part.extent)
        (length_syntheticNames part _ ▸ size) bounded fresh nodup.of_append_right).imp ?_
    rintro final _ ⟨s, symbols, rfl, ⟨rfl, laid⟩, rfl, others⟩
    exact ⟨rfl, laid, others⟩

end

/-! ### The names -/

mutual

/-- The names that lowering introduces go on from the stem. -/
theorem exists_append_of_mem_syntheticNames {name : String} : ∀ (expr : Expr) (stem : String),
    name ∈ expr.syntheticNames stem → ∃ rest, name = stem ++ rest
  | .terminal _, _, listed => by
    rw [syntheticNames] at listed
    cases listed
  | .nonterminal _, _, listed => by
    rw [syntheticNames] at listed
    cases listed
  | .chain parts, stem, listed => by
    rw [syntheticNames] at listed
    rcases List.mem_cons.mp listed with rfl | inside
    · exact ⟨_, rfl⟩
    · obtain ⟨rest, rfl⟩ := exists_append_of_mem_syntheticNamesOfAll parts _ _ inside
      exact ⟨_, String.append_assoc⟩
  | .choice parts, stem, listed => by
    rw [syntheticNames] at listed
    rcases List.mem_cons.mp listed with rfl | inside
    · exact ⟨_, rfl⟩
    · obtain ⟨rest, rfl⟩ := exists_append_of_mem_syntheticNamesOfAll parts _ _ inside
      exact ⟨_, String.append_assoc⟩
  | .optional body, stem, listed => by
    rw [syntheticNames] at listed
    rcases List.mem_cons.mp listed with rfl | inside
    · exact ⟨_, rfl⟩
    · obtain ⟨rest, rfl⟩ := exists_append_of_mem_syntheticNames body _ inside
      exact ⟨_, String.append_assoc⟩
  | .zeroOrMore body, stem, listed => by
    rw [syntheticNames] at listed
    rcases List.mem_cons.mp listed with rfl | inside
    · exact ⟨_, rfl⟩
    · obtain ⟨rest, rfl⟩ := exists_append_of_mem_syntheticNames body _ inside
      exact ⟨_, String.append_assoc⟩
  | .oneOrMore body, stem, listed => by
    rw [syntheticNames] at listed
    rcases List.mem_cons.mp listed with rfl | listed
    · exact ⟨_, rfl⟩
    rcases List.mem_cons.mp listed with rfl | inside
    · exact ⟨_, String.append_assoc⟩
    · obtain ⟨rest, rfl⟩ := exists_append_of_mem_syntheticNames body _ inside
      exact ⟨_, String.append_assoc⟩

theorem exists_append_of_mem_syntheticNamesOfAll {name : String} :
    ∀ (parts : List Expr) (stem : String) (place : Nat),
      name ∈ syntheticNamesOfAll stem place parts → ∃ rest, name = stem ++ rest
  | [], _, _, listed => by
    rw [syntheticNamesOfAll] at listed
    cases listed
  | part :: rest, stem, place, listed => by
    rw [syntheticNamesOfAll] at listed
    rcases List.mem_append.mp listed with first | later
    · obtain ⟨ending, rfl⟩ := exists_append_of_mem_syntheticNames part _ first
      exact ⟨_, String.append_assoc⟩
    · exact exists_append_of_mem_syntheticNamesOfAll rest stem (place + 1) later

end

end Expr

namespace EbnfGrammar

open Grammar
open NameTable (Fits fits_ok)

variable {source : EbnfGrammar} {grammar : Grammar} {s : Symbol} {expr : Expr} {name : String}

/-- Whether the names that lowering introduces differ from each other and from every declared
name. -/
def distinctNames (source : EbnfGrammar) : Bool :=
  decide source.syntheticNames.Nodup &&
    source.syntheticNames.all fun name => (source.terminals.items ++ source.nonterminals).all
      fun s => decide (source.names.name? s ≠ some name)

theorem distinctNames_iff : source.distinctNames = true ↔
    source.syntheticNames.Nodup ∧ ∀ name ∈ source.syntheticNames, ∀ s,
      s ∈ source.terminals.items ∨ source.isNonterminal s = true →
        source.names.name? s ≠ some name := by
  simp only [distinctNames, Bool.and_eq_true, decide_eq_true_eq, List.all_eq_true, List.mem_append,
    isNonterminal, OrderedMap.contains_iff, nonterminals]

/-- Names that lowering introduces are new to the table if no declared symbol has them. -/
theorem WellFormed.fresh (wellFormed : source.WellFormed)
    (distinct : ∀ name ∈ source.syntheticNames, ∀ s,
      s ∈ source.terminals.items ∨ source.isNonterminal s = true →
        source.names.name? s ≠ some name) :
    ∀ name ∈ source.syntheticNames, source.names.get? name = none := by
  intro name listed
  obtain ⟨production, -, inside⟩ := List.mem_flatMap.mp listed
  obtain ⟨rest, spelled⟩ := Expr.exists_append_of_mem_syntheticNames _ _ inside
  -- the reserved names do not begin with an underscore
  have begins : name.toList.head? = some '_' := by
    rw [spelled, String.toList_append, String.toList_append]
    rfl
  have nonempty : name ≠ "" := by
    rintro rfl
    exact absurd begins (by decide)
  have notEof : name ≠ "EOF" := by
    rintro rfl
    exact absurd begins (by decide)
  rw [Option.eq_none_iff_forall_not_mem]
  intro s found
  have named := NameTable.get?_eq_some_iff.mp found
  have declared := wellFormed.declared_of_lt (NameTable.lt_size_of_name? named)
    (NameTable.not_isReserved_of_name? named nonempty notEof)
  exact distinct name listed s declared named

/-! ### Productions -/

/-- A production whose symbol has one alternative, the symbol that stands for the expression, and
the productions of the expression from a position on. -/
def LaidOut (grammar : Grammar) (first : Nat) (production : Symbol × Expr) : Prop :=
  grammar.alternatives? production.1 = some [.ofSymbols [production.2.symbolAt first]] ∧
    production.2.Laid grammar first

/-- Productions laid out one after the other, between two positions. -/
inductive Arranged (grammar : Grammar) : Nat → Nat → List (Symbol × Expr) → Prop where
  /-- Nothing takes no room. -/
  | nil (first : Nat) : Arranged grammar first first []
  /-- The other productions come after the first one. -/
  | cons {first last : Nat} {production : Symbol × Expr} {rest : List (Symbol × Expr)}
      (laid : LaidOut grammar first production)
      (others : Arranged grammar (first + production.2.extent) last rest) :
      Arranged grammar first last (production :: rest)

/-- Each production is laid out somewhere. -/
theorem Arranged.exists_laidOut {first last : Nat} {productions : List (Symbol × Expr)}
    {production : Symbol × Expr} (arranged : Arranged grammar first last productions)
    (listed : production ∈ productions) :
    ∃ place, first ≤ place ∧ LaidOut grammar place production := by
  induction arranged with
  | nil => cases listed
  | cons laid _ ih =>
    rcases List.mem_cons.mp listed with rfl | later
    · exact ⟨_, Nat.le_refl _, laid⟩
    · obtain ⟨place, beyond, found⟩ := ih later
      exact ⟨place, by omega, found⟩

/-- Each position belongs to a production. -/
theorem Arranged.exists_covering {first last position : Nat}
    {productions : List (Symbol × Expr)} (arranged : Arranged grammar first last productions)
    (low : first ≤ position) (high : position < last) :
    ∃ production ∈ productions, ∃ place, first ≤ place ∧ LaidOut grammar place production ∧
      place ≤ position ∧ position < place + production.2.extent := by
  induction arranged with
  | nil => omega
  | @cons start last production rest laid _ ih =>
    by_cases inside : position < start + production.2.extent
    · exact ⟨production, List.mem_cons_self, start, Nat.le_refl _, laid, low, inside⟩
    · obtain ⟨other, listed, place, beyond, found, bounds⟩ := ih (by omega) high
      exact ⟨other, List.mem_cons_of_mem _ listed, place, by omega, found, bounds⟩

/-- Lowering a production lays it out, if there is room. -/
theorem fits_lowerProduction {production : Symbol × Expr} (bounded : grammar.Bounded)
    (later : source.names.Extends grammar.names) (named : production.1.id < source.names.size)
    (fresh : ∀ name ∈ source.namesOfProduction production, grammar.names.get? name = none)
    (nodup : (source.namesOfProduction production).Nodup) :
    Fits (grammar.names.size + (source.namesOfProduction production).length)
      (fun lowered =>
        Introduces grammar lowered (source.namesOfProduction production) [production.1] ∧
        ∀ final, Agrees final lowered grammar.names.size lowered.names.size →
          final.alternatives? production.1 = lowered.alternatives? production.1 →
          LaidOut final grammar.names.size production)
      (lowerProduction grammar production) := by
  obtain ⟨s, expr⟩ := production
  obtain ⟨name, known⟩ := NameTable.name?_isSome_of_lt named
  have inside : s.id < grammar.names.size := Nat.lt_of_lt_of_le named later.size_le
  -- the symbol still has the name that it was declared with
  have stem : grammar.names.name s = .ok name :=
    NameTable.name_eq_ok_iff.mpr ((later.name? named).trans known)
  have names : source.namesOfProduction (s, expr) = expr.syntheticNames ("_" ++ name) := by
    simp [namesOfProduction, known]
  have unfolded : lowerProduction grammar (s, expr) =
      expr.lower ("_" ++ name) grammar >>= fun result =>
        .ok (result.2.setAlternatives s [.ofSymbols [result.1]]) := by
    rw [lowerProduction, stem]
    rfl
  rw [names] at fresh nodup ⊢
  rw [unfolded]
  refine Fits.bind (expr.adds_lower ("_" ++ name) grammar _ rfl bounded fresh nodup)
    (Nat.le_refl _) ?_
  rintro ⟨root, last⟩ ⟨introduces, stands⟩
  have grown : last.names.size = grammar.names.size + _ := introduces.size_eq
  have widened : Introduces grammar last (expr.syntheticNames ("_" ++ name)) [s] :=
    introduces.mono fun _ listed => absurd listed List.not_mem_nil
  refine fits_ok ⟨widened.setAlternatives (by omega) (Or.inr List.mem_cons_self) _,
    fun final agrees same => ?_⟩
  obtain ⟨standing, laid⟩ := stands final fun t low high => by
    rw [agrees t low high, alternatives?_setAlternatives, if_neg]
    rintro rfl
    exact absurd inside (Nat.not_lt.mpr low)
  refine ⟨?_, laid⟩
  rw [same, alternatives?_setAlternatives, if_pos rfl, ← standing]

/-- Lowering productions one after the other lays out each of them, if there is room. -/
theorem fits_foldlM_lowerProduction {productions : List (Symbol × Expr)}
    (bounded : grammar.Bounded) (later : source.names.Extends grammar.names)
    (named : ∀ production ∈ productions, production.1.id < source.names.size)
    (keys : (productions.map Prod.fst).Nodup)
    (fresh : ∀ name ∈ productions.flatMap source.namesOfProduction,
      grammar.names.get? name = none)
    (nodup : (productions.flatMap source.namesOfProduction).Nodup) :
    Fits (grammar.names.size + (productions.flatMap source.namesOfProduction).length)
      (fun lowered =>
        Introduces grammar lowered (productions.flatMap source.namesOfProduction)
          (productions.map Prod.fst) ∧
        ∀ final, Agrees final lowered grammar.names.size lowered.names.size →
          (∀ s ∈ productions.map Prod.fst, final.alternatives? s = lowered.alternatives? s) →
          Arranged final grammar.names.size lowered.names.size productions)
      (productions.foldlM lowerProduction grammar) := by
  induction productions generalizing grammar with
  | nil => exact fits_ok ⟨.refl bounded, fun _ _ _ => .nil _⟩
  | cons production rest ih =>
    rw [List.flatMap_cons] at fresh nodup ⊢
    rw [List.map_cons, List.nodup_cons] at keys
    rw [List.forall_mem_cons] at named
    have total := @List.length_append _ (source.namesOfProduction production)
      (rest.flatMap source.namesOfProduction)
    rw [List.foldlM_cons]
    refine (fits_lowerProduction bounded later named.1
      (fun name listed => fresh name (List.mem_append_left _ listed)) nodup.of_append_left).bind
        (by omega) ?_
    rintro next ⟨introduces, laid⟩
    have grown := introduces.size_eq
    have later' : source.names.Extends next.names := later.trans ⟨_, introduces.names_eq⟩
    rw [total, ← Nat.add_assoc, ← grown]
    refine (ih introduces.bounded later' named.2 keys.2 (introduces.fresh fresh nodup)
      nodup.of_append_right).imp ?_
    rintro lowered ⟨introduces', arranged⟩
    have grown' := introduces'.size_eq
    refine ⟨introduces.trans introduces', fun final agrees same => ?_⟩
    rw [List.map_cons, List.forall_mem_cons] at same
    constructor
    -- the first production is not written again: the others are for other declared symbols
    · refine laid final (fun t low high => ?_) ?_
      · rw [agrees t low (by omega), introduces'.kept t high]
        intro listed
        obtain ⟨other, inside, rfl⟩ := List.mem_map.mp listed
        have old := named.2 other inside
        have size := later.size_le
        omega
      · rw [same.1, introduces'.kept _ (Nat.lt_of_lt_of_le named.1 later'.size_le) keys.1]
    · rw [← Expr.length_syntheticNames, ← namesOfProduction, ← grown]
      exact arranged final (fun t low high => agrees t (by omega) high) same.2

/-- What lowering makes of a grammar. -/
structure LaysOut (source : EbnfGrammar) (grammar : Grammar) : Prop where
  /-- The start symbol stays. -/
  start_eq : grammar.start = source.start
  /-- The terminals stay. -/
  terminals_eq : grammar.terminals = source.terminals
  /-- The new names come after the old ones. -/
  names_eq : grammar.names.names.toList = source.names.names.toList ++ source.syntheticNames
  /-- The productions of all expressions are laid out one after the other. -/
  arranged : Arranged grammar source.names.size grammar.names.size source.productions.entries
  /-- What is declared and not a nonterminal has no production. -/
  undefined : ∀ {s : Symbol}, s.id < source.names.size → source.isNonterminal s = false →
    grammar.alternatives? s = none
  /-- Symbols without a name have no production. -/
  bounded : grammar.Bounded

theorem isNonterminal_of_mem_entries {production : Symbol × Expr}
    (listed : production ∈ source.productions.entries) :
    source.isNonterminal production.1 = true :=
  Option.isSome_iff_exists.mpr ⟨_, OrderedMap.mem_entries_iff.mp listed⟩

/-- Lowering a grammar lays out its productions, if there is room for the names. -/
theorem fits_laysOut (wellFormed : source.WellFormed)
    (fresh : ∀ name ∈ source.syntheticNames, source.names.get? name = none)
    (nodup : source.syntheticNames.Nodup) :
    Fits (source.names.size + source.syntheticNames.length) source.LaysOut source.toGrammar := by
  have bounded : Bounded ⟨source.names, source.terminals, .empty, source.start⟩ :=
    fun _ _ => OrderedMap.get?_empty
  refine (fits_foldlM_lowerProduction bounded (.refl source.names)
    (fun _ listed => (wellFormed.nonterminal_named (isNonterminal_of_mem_entries listed)).1)
    source.productions.nodup fresh nodup).imp ?_
  rintro lowered ⟨introduces, arranged⟩
  refine ⟨introduces.start_eq, introduces.terminals_eq, introduces.names_eq,
    arranged lowered (fun _ _ _ => rfl) (fun _ _ => rfl), fun {s} inside other => ?_,
    introduces.bounded⟩
  -- it had no production before, and was given none
  rw [introduces.kept s inside]
  · exact OrderedMap.get?_empty
  · intro listed
    obtain ⟨production, member, rfl⟩ := List.mem_map.mp listed
    rw [isNonterminal_of_mem_entries member] at other
    cases other

/-- A grammar that is lowered is laid out, if no two names collide. -/
theorem laysOut_of_toGrammar (wellFormed : source.WellFormed)
    (nodup : source.syntheticNames.Nodup)
    (distinct : ∀ name ∈ source.syntheticNames, ∀ s,
      s ∈ source.terminals.items ∨ source.isNonterminal s = true →
        source.names.name? s ≠ some name)
    (lowered : source.toGrammar = .ok grammar) : source.LaysOut grammar := by
  rcases fits_laysOut wellFormed (wellFormed.fresh distinct) nodup with
    ⟨failed, -⟩ | ⟨result, passed, laysOut⟩
  · rw [lowered] at failed
    cases failed
  · rw [lowered] at passed
    cases passed
    exact laysOut

namespace LaysOut

variable (laysOut : source.LaysOut grammar)

include laysOut

/-- Each expression is laid out behind the declared symbols. -/
theorem exists_laidOut (found : source.expression? s = some expr) :
    ∃ first, source.names.size ≤ first ∧ LaidOut grammar first (s, expr) :=
  laysOut.arranged.exists_laidOut (OrderedMap.mem_entries_iff.mpr found)

theorem size_le : source.names.size ≤ grammar.names.size :=
  NameTable.Extends.size_le ⟨_, laysOut.names_eq⟩

/-- Lowering realizes every expression. -/
theorem loweredTo (wellFormed : source.WellFormed) : source.LoweredTo grammar := by
  have reserved : ∀ {s : Symbol}, s.isReserved = true → source.isNonterminal s = false := by
    intro s reserved
    by_contra nonterminal
    rw [Bool.not_eq_false] at nonterminal
    rw [(wellFormed.nonterminal_named nonterminal).2] at reserved
    cases reserved
  refine ⟨fun {s expr} found => ?_, fun {s} terminal => ?_, ?_⟩
  · obtain ⟨first, -, defined, laid⟩ := laysOut.exists_laidOut found
    exact ⟨_, defined, laid.realizes (wellFormed.admits found)⟩
  · rcases isTerminal_iff.mp terminal with rfl | listed
    · exact laysOut.undefined (NameTable.lt_size_of_name? NameTable.name?_eof)
        (reserved (by decide))
    · exact laysOut.undefined (wellFormed.terminal_named listed).1 (wellFormed.apart listed)
  · exact laysOut.undefined (NameTable.lt_size_of_name? NameTable.name?_epsilon)
      (reserved (by decide))

end LaysOut

/-- Lowering a grammar realizes its expressions, if there is room for the names. -/
theorem fits_toGrammar (wellFormed : source.WellFormed)
    (fresh : ∀ name ∈ source.syntheticNames, source.names.get? name = none)
    (nodup : source.syntheticNames.Nodup) :
    Fits (source.names.size + source.syntheticNames.length)
      (fun lowered => lowered.start = source.start ∧ lowered.terminals = source.terminals ∧
        lowered.names.names.toList = source.names.names.toList ++ source.syntheticNames ∧
        source.LoweredTo lowered)
      source.toGrammar :=
  (fits_laysOut wellFormed fresh nodup).imp fun _ laysOut =>
    ⟨laysOut.start_eq, laysOut.terminals_eq, laysOut.names_eq, laysOut.loweredTo wellFormed⟩

/-- Lowering preserves what is matched. If the names that it introduces differ from each other and
from every declared name, it fails only for want of room for them. Otherwise every nonterminal
derives the words of terminals that it matches, the start symbol, the terminals and the declared
symbols stay what they are, and the new names come after the old ones. -/
theorem toGrammar_preserves_language (wellFormed : source.WellFormed)
    (nodup : source.syntheticNames.Nodup)
    (distinct : ∀ name ∈ source.syntheticNames, ∀ s,
      s ∈ source.terminals.items ∨ source.isNonterminal s = true →
        source.names.name? s ≠ some name) :
    (source.toGrammar = .error .tooManySymbols ∧
        NameTable.capacity < source.names.size + source.syntheticNames.length) ∨
      ∃ grammar, source.toGrammar = .ok grammar ∧ grammar.start = source.start ∧
        grammar.terminals = source.terminals ∧
        grammar.names.names.toList = source.names.names.toList ++ source.syntheticNames ∧
        (∀ name s, source.symbol? name = some s → grammar.symbol? name = some s) ∧
        ∀ A, source.isNonterminal A = true → ∀ word, (∀ t ∈ word, source.isTerminal t = true) →
          (source.Matches [.nonterminal A] word ↔ grammar.Derives [A] word) := by
  rcases fits_toGrammar wellFormed (wellFormed.fresh distinct) nodup with
    full | ⟨lowered, passed, start, terminals, names, realized⟩
  · exact Or.inl full
  · refine Or.inr ⟨lowered, passed, start, terminals, names, fun name s found => ?_,
      fun A nonterminal word terminals => ?_⟩
    · have named := NameTable.get?_eq_some_iff.mp found
      have grown : source.names.Extends lowered.names := ⟨_, names⟩
      refine NameTable.get?_eq_some_iff.mpr ?_
      rw [grown.name? (NameTable.lt_size_of_name? named), named]
    · exact realized.matches_iff_derives wellFormed nonterminal terminals

/-- The production `S := (a | b S?)+` is lowered, and the plain grammar derives `a b a`. -/
theorem toGrammar_preserves_language_nested :
    ∃ source : EbnfGrammar, source.WellFormed ∧
      source.Matches [.nonterminal ⟨4⟩] [⟨2⟩, ⟨3⟩, ⟨2⟩] ∧
      ∃ grammar, source.toGrammar = .ok grammar ∧ grammar.Derives [⟨4⟩] [⟨2⟩, ⟨3⟩, ⟨2⟩] := by
  let parts : List Expr :=
    [.terminal ⟨2⟩, .chain [.terminal ⟨3⟩, .optional (.nonterminal ⟨4⟩)]]
  let outcome : Except GrammarError EbnfGrammar := do
    let (_, definition) ← EbnfDefinition.empty.terminal "a"
    let (_, definition) ← definition.terminal "b"
    let (_, definition) ← definition.nonterminal "S"
    let definition ← definition.rule ⟨4⟩ (.oneOrMore (.choice parts))
    definition.finish
  have passes : (outcome.toOption.any fun source => decide source.syntheticNames.Nodup &&
      source.syntheticNames.all (fun name => (source.terminals.items ++ source.nonterminals).all
        fun s => decide (source.names.name? s ≠ some name)) &&
      source.toGrammar.toBool && source.isTerminal ⟨2⟩ && source.isTerminal ⟨3⟩) = true := by
    decide +kernel
  cases built : outcome with
  | error error =>
    rw [built] at passes
    cases passes
  | ok source =>
    simp only [built, Except.toOption, Option.any_some, Bool.and_eq_true, decide_eq_true_eq,
      List.all_eq_true] at passes
    obtain ⟨⟨⟨⟨nodup, distinct⟩, room⟩, isA⟩, isB⟩ := passes
    obtain ⟨⟨a, first⟩, declareA, rest⟩ := bind_eq_ok_iff.mp built
    obtain ⟨⟨b, second⟩, declareB, rest⟩ := bind_eq_ok_iff.mp rest
    obtain ⟨⟨s, third⟩, declareS, rest⟩ := bind_eq_ok_iff.mp rest
    obtain ⟨fourth, given, finished⟩ := bind_eq_ok_iff.mp rest
    have steps := EbnfDefinition.Built.rule (.nonterminal (.terminal (.terminal .empty declareA)
      declareB) declareS) given
    have found : source.expression? ⟨4⟩ = some (.oneOrMore (.choice parts)) := by
      obtain ⟨-, rfl⟩ := EbnfDefinition.rule_cases given
      obtain ⟨start, -, -, -, rfl⟩ := EbnfDefinition.finish_cases finished
      exact (EbnfDefinition.get?_arranged steps.sound).trans OrderedMap.get?_insert_self
    have wellFormed := steps.wellFormed finished
    have once : source.Matches [.choice parts] [⟨2⟩] :=
      .choice List.mem_cons_self (.terminal _ .nil) .nil
    have nested : source.Matches [.nonterminal ⟨4⟩] [⟨2⟩] :=
      .nonterminal found (.oneOrMore once (.zeroOrMoreNone _ .nil) .nil) .nil
    have chained : source.Matches [.choice parts] [⟨3⟩, ⟨2⟩] :=
      .choice (List.mem_cons_of_mem _ List.mem_cons_self)
        (.chain (.terminal _ (.optionalSome nested .nil)) .nil) .nil
    have matched : source.Matches [.nonterminal ⟨4⟩] [⟨2⟩, ⟨3⟩, ⟨2⟩] :=
      .nonterminal found
        (.oneOrMore once (.zeroOrMoreSome chained (.zeroOrMoreNone _ .nil) .nil) .nil) .nil
    rcases toGrammar_preserves_language wellFormed nodup (fun name listed s declared =>
      distinct name listed s (List.mem_append.mpr (declared.imp_right OrderedMap.contains_iff.mp)))
      with ⟨failed, -⟩ | ⟨grammar, passed, -, -, -, -, preserved⟩
    · rw [failed] at room
      cases room
    · exact ⟨source, wellFormed, matched, grammar, passed,
        (preserved ⟨4⟩ (Option.isSome_iff_exists.mpr ⟨_, found⟩) _ (by simp [isA, isB])).mp matched⟩

end EbnfGrammar

end Predictive
