import Predictive.Proofs.Ebnf.Site

/-!
# Names that collide

Lowering names the nonterminals that it introduces after the places of their expressions, and such a
name may be in use already. It is a fault if a symbol of that name has a production. So no two of the
names are the same where lowering succeeds, and none of them belongs to a nonterminal whose
production was lowered before. Two collisions go unnoticed: a terminal never has a production, and a
nonterminal has none until its turn comes. Where neither occurs, a grammar is the one that was asked
for, or there is none.

## Main definitions

* `Grammar.Enters` — names that had no production before, and have one after

## Main results

* `Expr.enters_lower` — lowering an expression enters its names
* `EbnfGrammar.enters_toGrammar` — so does lowering a grammar
* `EbnfGrammar.toGrammar_collision_free` — what a grammar shows, if lowering gives one
-/

namespace Predictive

namespace Grammar

variable {grammar before middle after : Grammar} {s : Symbol} {name : String}
  {names others : List String}

/-- From a grammar to a later one in which symbols of some names, all different, have got a
production. -/
structure Enters (before after : Grammar) (names : List String) : Prop where
  /-- Symbols keep their names. -/
  grown : before.names.Extends after.names
  /-- Symbols keep a production. -/
  kept : ∀ {s}, before.isNonterminal s = true → after.isNonterminal s = true
  /-- The names had no production. -/
  unused : ∀ {name s}, name ∈ names → before.names.name? s = some name →
    before.isNonterminal s = false
  /-- The names have a production. -/
  used : ∀ {name}, name ∈ names →
    ∃ s, after.names.name? s = some name ∧ after.isNonterminal s = true
  /-- The names are all different. -/
  nodup : names.Nodup

theorem isNonterminal_setAlternatives {alternatives : List Alternative} {t : Symbol} :
    (grammar.setAlternatives s alternatives).isNonterminal t = true ↔
      t = s ∨ grammar.isNonterminal t = true := by
  unfold isNonterminal
  rw [OrderedMap.contains_iff, OrderedMap.contains_iff]
  exact OrderedMap.mem_keys_insert

namespace Enters

theorem refl (grammar : Grammar) : Enters grammar grammar [] :=
  ⟨.refl _, id, fun listed => (List.not_mem_nil listed).elim,
    fun listed => (List.not_mem_nil listed).elim, List.nodup_nil⟩

theorem name? (enters : Enters before after names) (named : before.names.name? s = some name) :
    after.names.name? s = some name := by
  rw [enters.grown.name? (NameTable.lt_size_of_name? named), named]

theorem trans (first : Enters before middle names) (second : Enters middle after others) :
    Enters before after (names ++ others) := by
  refine ⟨first.grown.trans second.grown, fun known => second.kept (first.kept known),
    fun {name s} listed named => ?_, fun {name} listed => ?_, ?_⟩
  · rcases List.mem_append.mp listed with early | late
    · exact first.unused early named
    · have still := second.unused late (first.name? named)
      by_contra known
      rw [Bool.not_eq_false] at known
      rw [first.kept known] at still
      cases still
  · rcases List.mem_append.mp listed with early | late
    · obtain ⟨s, named, known⟩ := first.used early
      exact ⟨s, second.name? named, second.kept known⟩
    · exact second.used late
  · -- a name of the first step has a production when the second one begins
    refine first.nodup.append second.nodup fun name early late => ?_
    obtain ⟨s, named, known⟩ := first.used early
    rw [second.unused late named] at known
    cases known

theorem setAlternatives (enters : Enters before after names) (s : Symbol)
    (alternatives : List Alternative) :
    Enters before (after.setAlternatives s alternatives) names := by
  refine ⟨enters.grown, fun known => ?_, enters.unused, fun listed => ?_, enters.nodup⟩
  · exact isNonterminal_setAlternatives.mpr (Or.inr (enters.kept known))
  · obtain ⟨t, named, known⟩ := enters.used listed
    exact ⟨t, named, isNonterminal_setAlternatives.mpr (Or.inr known)⟩

end Enters

/-- A name that is reserved had no production. -/
theorem enters_reserve (reserved : grammar.reserve name = .ok (s, after)) :
    Enters grammar after [name] := by
  obtain ⟨⟨t, table⟩, interned, rest⟩ := bind_eq_ok_iff.mp reserved
  dsimp only at rest
  split at rest
  · cases rest
  · next absent =>
    cases rest
    have named : table.name? s = some name := NameTable.name?_of_intern interned
    have grown : grammar.names.Extends table := NameTable.extends_of_intern interned
    have widened : Enters grammar { grammar with names := table } [] :=
      ⟨grown, id, fun listed => (List.not_mem_nil listed).elim,
        fun listed => (List.not_mem_nil listed).elim, List.nodup_nil⟩
    refine ⟨grown, (widened.setAlternatives s []).kept, fun {other t} listed known => ?_, fun {other} listed => ?_,
      List.nodup_singleton name⟩
    · obtain rfl := List.mem_singleton.mp listed
      -- only one symbol has the name
      have same : t = s := NameTable.name?_injective (widened.name? known) named
      rw [same, ← Bool.not_eq_true]
      exact absent
    · obtain rfl := List.mem_singleton.mp listed
      exact ⟨s, named, isNonterminal_setAlternatives.mpr (Or.inl rfl)⟩

end Grammar

namespace Expr

open Grammar

mutual

/-- Lowering an expression enters its names. -/
theorem enters_lower : ∀ {expr : Expr} {stem : String} {grammar after : Grammar} {s : Symbol},
    expr.lower stem grammar = .ok (s, after) → Enters grammar after (expr.syntheticNames stem)
  | .terminal _, _, _, _, _, lowered => by
    rw [lower] at lowered
    cases lowered
    exact .refl _
  | .nonterminal _, _, _, _, _, lowered => by
    rw [lower] at lowered
    cases lowered
    exact .refl _
  | .chain _, _, _, _, _, lowered => by
    rw [lower] at lowered
    obtain ⟨_, reserved, rest⟩ := bind_eq_ok_iff.mp lowered
    obtain ⟨_, inside, rest⟩ := bind_eq_ok_iff.mp rest
    cases rest
    exact ((enters_reserve reserved).trans (enters_lowerAll inside)).setAlternatives _ _
  | .choice _, _, _, _, _, lowered => by
    rw [lower] at lowered
    obtain ⟨_, reserved, rest⟩ := bind_eq_ok_iff.mp lowered
    obtain ⟨_, inside, rest⟩ := bind_eq_ok_iff.mp rest
    cases rest
    exact ((enters_reserve reserved).trans (enters_lowerAll inside)).setAlternatives _ _
  | .optional _, _, _, _, _, lowered => by
    rw [lower] at lowered
    obtain ⟨_, reserved, rest⟩ := bind_eq_ok_iff.mp lowered
    obtain ⟨_, inside, rest⟩ := bind_eq_ok_iff.mp rest
    cases rest
    exact ((enters_reserve reserved).trans (enters_lower inside)).setAlternatives _ _
  | .zeroOrMore _, _, _, _, _, lowered => by
    rw [lower] at lowered
    obtain ⟨_, reserved, rest⟩ := bind_eq_ok_iff.mp lowered
    obtain ⟨_, inside, rest⟩ := bind_eq_ok_iff.mp rest
    cases rest
    exact ((enters_reserve reserved).trans (enters_lower inside)).setAlternatives _ _
  | .oneOrMore _, _, _, _, _, lowered => by
    rw [lower] at lowered
    obtain ⟨_, reserved, rest⟩ := bind_eq_ok_iff.mp lowered
    obtain ⟨_, reservedMore, rest⟩ := bind_eq_ok_iff.mp rest
    obtain ⟨_, inside, rest⟩ := bind_eq_ok_iff.mp rest
    cases rest
    have both := (enters_reserve reserved).trans (enters_reserve reservedMore)
    exact ((both.trans (enters_lower inside)).setAlternatives _ _).setAlternatives _ _

theorem enters_lowerAll : ∀ {parts : List Expr} {stem : String} {place : Nat}
    {grammar after : Grammar} {symbols : List Symbol},
    lowerAll stem place grammar parts = .ok (symbols, after) →
      Enters grammar after (syntheticNamesOfAll stem place parts)
  | [], _, _, _, _, _, lowered => by
    rw [lowerAll] at lowered
    cases lowered
    exact .refl _
  | _ :: _, _, _, _, _, _, lowered => by
    rw [lowerAll] at lowered
    obtain ⟨_, first, rest⟩ := bind_eq_ok_iff.mp lowered
    obtain ⟨_, later, rest⟩ := bind_eq_ok_iff.mp rest
    cases rest
    exact (enters_lower first).trans (enters_lowerAll later)

end

end Expr

namespace EbnfGrammar

open Grammar

variable {source : EbnfGrammar} {grammar after : Grammar} {production : Symbol × Expr}

/-- Lowering a production enters its names, and gives its nonterminal a production. -/
theorem enters_lowerProduction (later : source.names.Extends grammar.names)
    (named : production.1.id < source.names.size)
    (lowered : lowerProduction grammar production = .ok after) :
    Enters grammar after (source.namesOfProduction production) ∧
      after.isNonterminal production.1 = true := by
  obtain ⟨name, spelled, rest⟩ := bind_eq_ok_iff.mp lowered
  obtain ⟨result, inside, rest⟩ := bind_eq_ok_iff.mp rest
  cases rest
  have known := (later.name? named).symm.trans (NameTable.name_eq_ok_iff.mp spelled)
  rw [namesOfProduction, known, Option.getD_some]
  exact ⟨(Expr.enters_lower inside).setAlternatives _ _,
    isNonterminal_setAlternatives.mpr (Or.inl rfl)⟩

/-- Whether a nonterminal differs in its name from all that a production introduces. -/
def Spares (source : EbnfGrammar) (production other : Symbol × Expr) : Prop :=
  ∀ name ∈ source.namesOfProduction production, source.names.name? other.1 ≠ some name

/-- Lowering productions one after the other enters their names, and none of these belongs to a
nonterminal whose production was lowered before. -/
theorem enters_foldlM_lowerProduction {productions : List (Symbol × Expr)}
    (later : source.names.Extends grammar.names)
    (named : ∀ production ∈ productions, production.1.id < source.names.size)
    (lowered : productions.foldlM lowerProduction grammar = .ok after) :
    Enters grammar after (productions.flatMap source.namesOfProduction) ∧
      productions.Pairwise fun early late => source.Spares late early := by
  induction productions generalizing grammar with
  | nil =>
    cases lowered
    exact ⟨.refl _, .nil⟩
  | cons production rest ih =>
    rw [List.foldlM_cons] at lowered
    obtain ⟨next, first, others⟩ := bind_eq_ok_iff.mp lowered
    rw [List.forall_mem_cons] at named
    obtain ⟨enters, defined⟩ := enters_lowerProduction later named.1 first
    have later' := later.trans enters.grown
    obtain ⟨enters', pairwise⟩ := ih later' named.2 others
    refine ⟨enters.trans enters', List.pairwise_cons.mpr ⟨fun other listed name inside known => ?_,
      pairwise⟩⟩
    -- the nonterminal has its production when the other one is lowered
    have unused := enters'.unused (List.mem_flatMap.mpr ⟨other, listed, inside⟩)
      ((later'.name? named.1).trans known)
    rw [defined] at unused
    cases unused

/-- Lowering a grammar enters its names. -/
theorem enters_toGrammar (wellFormed : source.WellFormed) (lowered : source.toGrammar = .ok grammar) :
    source.syntheticNames.Nodup ∧
      source.productions.entries.Pairwise fun early late => source.Spares late early := by
  obtain ⟨enters, pairwise⟩ := enters_foldlM_lowerProduction (.refl source.names)
    (fun _ listed => (wellFormed.nonterminal_named (isNonterminal_of_mem_entries listed)).1) lowered
  exact ⟨enters.nodup, pairwise⟩

/-- A nonterminal differs in its name from all that its own production introduces, as these names
are longer. -/
theorem spares_self (production : Symbol × Expr) : source.Spares production production := by
  intro name listed known
  rw [namesOfProduction, known, Option.getD_some] at listed
  obtain ⟨rest, spelled⟩ := Expr.exists_append_of_mem_syntheticNames _ _ listed
  have lengths := congrArg String.length spelled
  rw [String.length_append, String.length_append] at lengths
  have one : "_".length = 1 := rfl
  omega

/-- Lowering gives no grammar in which names that it introduces collide with each other, or with
those of nonterminals whose production was lowered before. If they do not collide with the names of
terminals either, nor with those of nonterminals whose production is lowered later, then a grammar
has all the productions that were asked for, for the declared nonterminals and for the new ones, and
no terminal has a production. -/
theorem toGrammar_collision_free (wellFormed : source.WellFormed)
    (lowered : source.toGrammar = .ok grammar) :
    source.syntheticNames.Nodup ∧
      (source.productions.entries.Pairwise fun early late => source.Spares late early) ∧
      ((∀ name ∈ source.syntheticNames, ∀ s ∈ source.terminals.items,
          source.names.name? s ≠ some name) →
        (source.productions.entries.Pairwise fun early late => source.Spares early late) →
          source.LaysOut grammar ∧
            ∀ s, ¬ (grammar.isTerminal s = true ∧ grammar.isNonterminal s = true)) := by
  obtain ⟨nodup, noticed⟩ := enters_toGrammar wellFormed lowered
  refine ⟨nodup, noticed, fun terminals unnoticed => ?_⟩
  have spares : ∀ production ∈ source.productions.entries,
      ∀ other ∈ source.productions.entries, source.Spares production other := fun _ listed _ member =>
    List.Pairwise.forall_of_forall_of_flip (fun production _ => spares_self production) unnoticed
      noticed listed member
  have distinct : ∀ name ∈ source.syntheticNames, ∀ s,
      s ∈ source.terminals.items ∨ source.isNonterminal s = true →
        source.names.name? s ≠ some name := by
    rintro name listed s (terminal | nonterminal)
    · exact terminals name listed s terminal
    · obtain ⟨production, member, inside⟩ := List.mem_flatMap.mp listed
      obtain ⟨expr, found⟩ := exists_expression? nonterminal
      exact spares production member (s, expr) (OrderedMap.mem_entries_iff.mpr found) name inside
  have laysOut := laysOut_of_toGrammar wellFormed nodup distinct lowered
  refine ⟨laysOut, fun s both => ?_⟩
  rw [(laysOut.wellFormed wellFormed).not_isTerminal both.2] at both
  cases both.1

/-- The names of `S := (a | b S?)*` collide with none, and the lowered grammar has the productions
that were asked for. -/
theorem toGrammar_collision_free_nested :
    ∃ source, EbnfDefinition.ofSteps [.terminal "a", .terminal "b", .nonterminal "S",
        .rule ⟨4⟩ (.zeroOrMore (.choice [.terminal ⟨2⟩,
          .chain [.terminal ⟨3⟩, .optional (.nonterminal ⟨4⟩)]]))] = .ok source ∧
      ∃ grammar, source.toGrammar = .ok grammar ∧ source.LaysOut grammar := by
  obtain ⟨source, defined, wellFormed, passes⟩ := EbnfDefinition.exists_of_ofSteps
    [.terminal "a", .terminal "b", .nonterminal "S", .rule ⟨4⟩ (.zeroOrMore (.choice [.terminal ⟨2⟩,
      .chain [.terminal ⟨3⟩, .optional (.nonterminal ⟨4⟩)]]))]
    (fun source => source.toGrammar.toOption.isSome && source.distinctNames) (by decide +kernel)
  rw [Bool.and_eq_true, distinctNames_iff, Option.isSome_iff_exists] at passes
  obtain ⟨⟨grammar, lowered⟩, -, distinct⟩ := passes
  have given := toOption_eq_some_iff.mp lowered
  obtain ⟨-, -, complete⟩ := toGrammar_collision_free wellFormed given
  refine ⟨source, defined, grammar, given, (complete (fun name listed s terminal =>
    distinct name listed s (Or.inl terminal)) ?_).1⟩
  refine List.pairwise_of_forall_mem_list fun production listed other member name inside => ?_
  exact distinct name (List.mem_flatMap.mpr ⟨production, listed, inside⟩) other.1
    (Or.inr (isNonterminal_of_mem_entries member))

/-- Collisions that go unnoticed. With the productions `S := (a)` and `_SChain := b`, the production
of the chain is replaced by the declared one, so that `S` derives `b`. With a terminal `_SChain`,
the terminal becomes the nonterminal of the chain as well. -/
theorem not_toGrammar_notices :
    (∃ source, EbnfDefinition.ofSteps [.terminal "a", .terminal "b", .nonterminal "S",
        .nonterminal "_SChain", .rule ⟨4⟩ (.chain [.terminal ⟨2⟩]), .rule ⟨5⟩ (.terminal ⟨3⟩)] =
          .ok source ∧
      ∃ grammar, source.toGrammar = .ok grammar ∧
        grammar.alternatives? ⟨4⟩ = some [.ofSymbols [⟨5⟩]] ∧
        grammar.alternatives? ⟨5⟩ = some [.ofSymbols [⟨3⟩]]) ∧
    ∃ source, EbnfDefinition.ofSteps [.terminal "a", .terminal "_SChain", .nonterminal "S",
        .rule ⟨4⟩ (.chain [.terminal ⟨2⟩])] = .ok source ∧
      ∃ grammar, source.toGrammar = .ok grammar ∧
        grammar.isTerminal ⟨3⟩ = true ∧ grammar.isNonterminal ⟨3⟩ = true := by
  constructor
  · obtain ⟨source, defined, -, passes⟩ := EbnfDefinition.exists_of_ofSteps
      [.terminal "a", .terminal "b", .nonterminal "S", .nonterminal "_SChain",
        .rule ⟨4⟩ (.chain [.terminal ⟨2⟩]), .rule ⟨5⟩ (.terminal ⟨3⟩)]
      (fun source => source.toGrammar.toOption.any fun grammar : Grammar =>
        decide (grammar.alternatives? ⟨4⟩ = some [.ofSymbols [⟨5⟩]] ∧
          grammar.alternatives? ⟨5⟩ = some [.ofSymbols [⟨3⟩]])) (by decide +kernel)
    rw [Option.any_eq_true] at passes
    obtain ⟨grammar, lowered, written⟩ := passes
    exact ⟨source, defined, grammar, toOption_eq_some_iff.mp lowered, of_decide_eq_true written⟩
  · obtain ⟨source, defined, -, passes⟩ := EbnfDefinition.exists_of_ofSteps
      [.terminal "a", .terminal "_SChain", .nonterminal "S", .rule ⟨4⟩ (.chain [.terminal ⟨2⟩])]
      (fun source => source.toGrammar.toOption.any fun grammar =>
        grammar.isTerminal ⟨3⟩ && grammar.isNonterminal ⟨3⟩) (by decide +kernel)
    rw [Option.any_eq_true] at passes
    obtain ⟨grammar, lowered, both⟩ := passes
    rw [Bool.and_eq_true] at both
    exact ⟨source, defined, grammar, toOption_eq_some_iff.mp lowered, both⟩

end EbnfGrammar

end Predictive
