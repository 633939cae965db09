import Predictive.Proofs.Ebnf.Collision
import Predictive.Proofs.Ebnf.Naming

/-!
# When names clash

The names that lowering introduces begin with an underscore and the name of a nonterminal, and the
names of nonterminals are different. This alone does not keep the introduced names apart: if one
nonterminal is named as another one with the path to an expression inside it, the two write the same
names, provided that this inner expression is of the same kind as that of the first. With the
productions `S := (a?)` and `SChain0 := a?` there are two expressions for which
`_SChain0Optional` is introduced. This is the only way in which the names of two nonterminals can
meet; where it does not occur, and declared names do not begin with an underscore, every grammar is
lowered for which there is room.

## Main definitions

* `EbnfGrammar.Clashes` — two nonterminals that write the same names
* `Grammar.Attempts` — a computation that is to introduce some names

## Main results

* `EbnfGrammar.nodup_syntheticNames_iff` — the introduced names differ if no two nonterminals clash
* `Expr.attempts_lower`, `EbnfGrammar.attempts_toGrammar` — the faults of lowering
* `EbnfGrammar.toGrammar_outcome` — lowering ends in one of three ways
* `EbnfGrammar.not_distinct_of_stems` — different stems do not keep names apart
-/

namespace Predictive

namespace EbnfGrammar

variable {source : EbnfGrammar} {A B : Symbol} {production other : Symbol × Expr}

/-- The name of `B` is that of `A` with the path to an expression inside that of `A`, and this is of
the same kind as the expression of `B`. -/
def Clashes (source : EbnfGrammar) (A B : Symbol) : Prop :=
  ∃ name path expr other inner kind,
    source.names.name? A = some name ∧ source.names.name? B = some (name ++ path) ∧ path ≠ "" ∧
    source.expression? A = some expr ∧ source.expression? B = some other ∧
    expr.StandsAt path inner ∧ inner.kind? = some kind ∧ other.kind? = some kind

/-! ### Names that meet -/

theorem namesOfProduction_eq {name : String} (named : source.names.name? production.1 = some name) :
    source.namesOfProduction production = production.2.syntheticNames ("_" ++ name) := by
  rw [namesOfProduction, named, Option.getD_some]

theorem not_clashes_self : ¬ source.Clashes A A := by
  rintro ⟨name, path, -, -, -, -, named, named', nonempty, -⟩
  have same := Option.some.inj (named.symm.trans named')
  have lengths := congrArg String.length same
  rw [String.length_append] at lengths
  exact nonempty (String.length_eq_zero_iff.mp (by omega))

/-- Nonterminals that clash share a name. -/
theorem Clashes.exists_mem (clash : source.Clashes production.1 other.1)
    (listed : production ∈ source.productions.entries)
    (listed' : other ∈ source.productions.entries) :
    ∃ name, name ∈ source.namesOfProduction production ∧ name ∈ source.namesOfProduction other := by
  obtain ⟨name, path, expr, expr', inner, kind, named, named', -, found, found', inside⟩ := clash
  have same := Option.some.inj ((OrderedMap.mem_entries_iff.mp listed).symm.trans found)
  have same' := Option.some.inj ((OrderedMap.mem_entries_iff.mp listed').symm.trans found')
  rw [namesOfProduction_eq named, namesOfProduction_eq named', ← String.append_assoc, same, same']
  exact (Expr.meet_iff expr expr' ("_" ++ name) path).mpr ⟨inner, kind, inside⟩

/-- If the name of one nonterminal is that of another one with some path, and the two share a name,
the path leads to an inner expression. -/
theorem clashes_of_append {stem path name : String}
    (listed : production ∈ source.productions.entries)
    (listed' : other ∈ source.productions.entries) (differ : production.1 ≠ other.1)
    (spelled : source.names.name? production.1 = some stem)
    (spelled' : source.names.name? other.1 = some (stem ++ path))
    (first : name ∈ source.namesOfProduction production)
    (second : name ∈ source.namesOfProduction other) :
    source.Clashes production.1 other.1 := by
  rw [namesOfProduction_eq spelled] at first
  rw [namesOfProduction_eq spelled', ← String.append_assoc] at second
  obtain ⟨inner, kind, inside⟩ := (Expr.meet_iff _ _ _ _).mp ⟨name, first, second⟩
  refine ⟨stem, path, _, _, inner, kind, spelled, spelled', ?_,
    OrderedMap.mem_entries_iff.mp listed, OrderedMap.mem_entries_iff.mp listed', inside⟩
  -- without a path, the two would be the same symbol
  rintro rfl
  rw [String.append_empty] at spelled'
  exact differ (NameTable.name?_injective spelled spelled')

theorem WellFormed.exists_name (wellFormed : source.WellFormed)
    (listed : production ∈ source.productions.entries) :
    ∃ name, source.names.name? production.1 = some name :=
  NameTable.name?_isSome_of_lt
    (wellFormed.nonterminal_named (isNonterminal_of_mem_entries listed)).1

/-- Different nonterminals that share a name clash. -/
theorem clashes_of_mem {name : String} (wellFormed : source.WellFormed)
    (listed : production ∈ source.productions.entries)
    (listed' : other ∈ source.productions.entries) (differ : production.1 ≠ other.1)
    (first : name ∈ source.namesOfProduction production)
    (second : name ∈ source.namesOfProduction other) :
    source.Clashes production.1 other.1 ∨ source.Clashes other.1 production.1 := by
  obtain ⟨stem, spelled⟩ := wellFormed.exists_name listed
  obtain ⟨stem', spelled'⟩ := wellFormed.exists_name listed'
  have begins := first
  have begins' := second
  rw [namesOfProduction_eq spelled] at begins
  rw [namesOfProduction_eq spelled'] at begins'
  obtain ⟨rest, rfl⟩ := Expr.exists_append_of_mem_syntheticNames _ _ begins
  obtain ⟨rest', same⟩ := Expr.exists_append_of_mem_syntheticNames _ _ begins'
  rw [String.append_assoc, String.append_assoc, String.append_right_inj] at same
  -- the name of one of them goes on where that of the other one ends
  rcases append_eq_append_cases same with ⟨path, rfl, -⟩ | ⟨path, -, rfl, -⟩
  · exact Or.inl (clashes_of_append listed listed' differ spelled spelled' first second)
  · exact Or.inr (clashes_of_append listed' listed differ.symm spelled' spelled second first)

/-- The introduced names are all different exactly if no two nonterminals clash. -/
theorem nodup_syntheticNames_iff (wellFormed : source.WellFormed) :
    source.syntheticNames.Nodup ↔ ∀ A B, ¬ source.Clashes A B := by
  have single : ∀ production ∈ source.productions.entries,
      (source.namesOfProduction production).Nodup := fun production _ =>
    Expr.nodup_syntheticNames _ _
  rw [syntheticNames, List.nodup_flatMap, and_iff_right single]
  constructor
  · intro apart A B clash
    -- the order of the entries says nothing about which of the two names is the longer one
    have anywhere : ∀ production ∈ source.productions.entries,
        ∀ other ∈ source.productions.entries, production ≠ other →
          (source.namesOfProduction production).Disjoint (source.namesOfProduction other) := by
      intro production listed other listed'
      apply List.Pairwise.forall_of_forall_of_flip _ _ _ listed listed'
      · intro production _ differ
        exact absurd rfl differ
      · refine apart.imp fun {production other} disjoint _ => ?_
        exact disjoint
      · refine apart.imp fun {production other} disjoint _ => ?_
        exact fun name first second => disjoint second first
    obtain ⟨-, -, expr, other, -, -, -, -, -, found, found', -⟩ := id clash
    have listed := OrderedMap.mem_entries_iff.mpr found
    have listed' := OrderedMap.mem_entries_iff.mpr found'
    have differ : (A, expr) ≠ (B, other) := fun same =>
      not_clashes_self ((Prod.mk.inj same).1 ▸ clash)
    obtain ⟨name, first, second⟩ := clash.exists_mem listed listed'
    exact anywhere _ listed _ listed' differ first second
  · intro none
    have keys := List.pairwise_map.mp source.productions.nodup
    refine keys.imp_of_mem fun {production other} listed listed' differ name first second => ?_
    rcases clashes_of_mem wellFormed listed listed' differ first second with clash | clash
    · exact none _ _ clash
    · exact none _ _ clash

end EbnfGrammar

/-! ### The faults of lowering -/

namespace Grammar

variable {α β : Type} {grammar after : Grammar} {names others : List String} {name : String}
  {view : α → Grammar} {outcome : Except Fault α}

/-- A computation that is to introduce some names, and what it may come to: a grammar with at most
that many further names, or a fault because there is no room for them, or because a symbol of one of
these names has a production. -/
def Attempts (grammar : Grammar) (names : List String) (view : α → Grammar)
    (outcome : Except Fault α) : Prop :=
  (∃ result, outcome = .ok result ∧ grammar.names.Extends (view result).names ∧
      (view result).names.size ≤ grammar.names.size + names.length) ∨
    (outcome = .error .tooManySymbols ∧
      NameTable.capacity < grammar.names.size + names.length) ∨
    ∃ name ∈ names, outcome = .error (.definedTwice name)

theorem attempts_ok {result : α} (same : (view result).names = grammar.names) :
    grammar.Attempts [] view (.ok result) := by
  refine Or.inl ⟨result, rfl, ?_, ?_⟩
  · rw [same]
    exact .refl _
  · rw [same]
    exact Nat.le_add_right _ _

/-- One computation after another introduces the names of both. -/
theorem Attempts.bind {view' : β → Grammar} {next : α → Except Fault β}
    (first : grammar.Attempts names view outcome)
    (second : ∀ result, outcome = .ok result → grammar.names.Extends (view result).names →
      (view result).Attempts others view' (next result)) :
    grammar.Attempts (names ++ others) view' (outcome >>= next) := by
  have total := @List.length_append _ names others
  rcases first with ⟨result, rfl, grown, size⟩ | ⟨rfl, full⟩ | ⟨name, listed, rfl⟩
  · have bound : (Except.ok result >>= next : Except Fault β) = next result := rfl
    rw [bound]
    rcases second result rfl grown with ⟨last, passed, further, size'⟩ | ⟨failed, full⟩ |
      ⟨name, listed, failed⟩
    · exact Or.inl ⟨last, passed, grown.trans further, by omega⟩
    · exact Or.inr (Or.inl ⟨failed, by omega⟩)
    · exact Or.inr (Or.inr ⟨name, List.mem_append_right _ listed, failed⟩)
  · exact Or.inr (Or.inl ⟨rfl, by omega⟩)
  · exact Or.inr (Or.inr ⟨name, List.mem_append_left _ listed, rfl⟩)

/-- A computation that changes no names may come last. -/
theorem Attempts.andThen {view' : β → Grammar} {value : α → β}
    (first : grammar.Attempts names view outcome)
    (same : ∀ result, (view' (value result)).names = (view result).names) :
    grammar.Attempts names view' (outcome >>= fun result => .ok (value result)) := by
  rw [← List.append_nil names]
  exact first.bind fun result _ _ => attempts_ok (same result)

/-- A name is reserved unless it has a production, or there is no room for it. -/
theorem attempts_reserve (grammar : Grammar) (name : String) :
    grammar.Attempts [name] Prod.snd (grammar.reserve name) := by
  have answered : ∀ {s names}, grammar.names.intern name = .ok (s, names) →
      grammar.names.Extends names → names.size ≤ grammar.names.size + 1 →
      grammar.Attempts [name] Prod.snd (grammar.reserve name) := by
    intro s names interned grown size
    rw [reserve, interned]
    change grammar.Attempts [name] Prod.snd (if grammar.isNonterminal s = true then _ else _)
    split
    · exact Or.inr (Or.inr ⟨name, List.mem_singleton_self name, rfl⟩)
    · exact Or.inl ⟨_, rfl, grown, size⟩
  cases found : grammar.names.get? name with
  -- a known name costs no room, but may already have a production
  | some s =>
    have interned := NameTable.intern_of_name? (NameTable.get?_eq_some_iff.mp found)
    exact answered interned (.refl _) (Nat.le_succ _)
  | none =>
    by_cases room : grammar.names.size < NameTable.capacity
    · obtain ⟨names, interned, pushed⟩ := NameTable.intern_of_room found room
      refine answered interned (.of_push pushed) (Nat.le_of_eq ?_)
      rw [NameTable.size, pushed, Array.size_push, NameTable.size]
    · refine Or.inr (Or.inl ⟨?_, Nat.lt_succ_of_le (Nat.not_lt.mp room)⟩)
      rw [reserve, NameTable.intern_of_full found room]
      rfl

end Grammar

namespace Expr

open Grammar

mutual

/-- Lowering an expression fails for want of room, or because one of its names has a production. -/
theorem attempts_lower : ∀ (expr : Expr) (stem : String) (grammar : Grammar),
    grammar.Attempts (expr.syntheticNames stem) Prod.snd (expr.lower stem grammar)
  | .terminal _, _, _ => by
    rw [lower, syntheticNames]
    exact attempts_ok rfl
  | .nonterminal _, _, _ => by
    rw [lower, syntheticNames]
    exact attempts_ok rfl
  | .chain parts, _, grammar => by
    rw [lower, syntheticNames]
    exact (attempts_reserve grammar _).bind fun reserved _ _ =>
      (attempts_lowerAll parts _ 0 reserved.2).andThen fun _ => rfl
  | .choice parts, _, grammar => by
    rw [lower, syntheticNames]
    exact (attempts_reserve grammar _).bind fun reserved _ _ =>
      (attempts_lowerAll parts _ 0 reserved.2).andThen fun _ => rfl
  | .optional body, _, grammar => by
    rw [lower, syntheticNames]
    exact (attempts_reserve grammar _).bind fun reserved _ _ =>
      (attempts_lower body _ reserved.2).andThen fun _ => rfl
  | .zeroOrMore body, _, grammar => by
    rw [lower, syntheticNames]
    exact (attempts_reserve grammar _).bind fun reserved _ _ =>
      (attempts_lower body _ reserved.2).andThen fun _ => rfl
  | .oneOrMore body, _, grammar => by
    rw [lower, syntheticNames]
    exact (attempts_reserve grammar _).bind fun reserved _ _ =>
      (attempts_reserve reserved.2 _).bind fun more _ _ =>
        (attempts_lower body _ more.2).andThen fun _ => rfl

theorem attempts_lowerAll : ∀ (parts : List Expr) (stem : String) (place : Nat)
    (grammar : Grammar),
    grammar.Attempts (syntheticNamesOfAll stem place parts) Prod.snd
      (lowerAll stem place grammar parts)
  | [], _, _, _ => by
    rw [lowerAll, syntheticNamesOfAll]
    exact attempts_ok rfl
  | part :: rest, stem, place, grammar => by
    rw [lowerAll, syntheticNamesOfAll]
    exact (attempts_lower part _ grammar).bind fun first _ _ =>
      (attempts_lowerAll rest stem (place + 1) first.2).andThen fun _ => rfl

end

end Expr

namespace EbnfGrammar

open Grammar

variable {source : EbnfGrammar} {grammar : Grammar}

theorem attempts_lowerProduction {production : Symbol × Expr}
    (later : source.names.Extends grammar.names) (named : production.1.id < source.names.size) :
    grammar.Attempts (source.namesOfProduction production) id
      (lowerProduction grammar production) := by
  obtain ⟨name, known⟩ := NameTable.name?_isSome_of_lt named
  have stem : grammar.names.name production.1 = .ok name :=
    NameTable.name_eq_ok_iff.mpr ((later.name? named).trans known)
  rw [namesOfProduction_eq known, lowerProduction, stem]
  exact (Expr.attempts_lower production.2 ("_" ++ name) grammar).andThen fun _ => rfl

theorem attempts_foldlM_lowerProduction {productions : List (Symbol × Expr)}
    (later : source.names.Extends grammar.names)
    (named : ∀ production ∈ productions, production.1.id < source.names.size) :
    grammar.Attempts (productions.flatMap source.namesOfProduction) id
      (productions.foldlM lowerProduction grammar) := by
  induction productions generalizing grammar with
  | nil => exact attempts_ok rfl
  | cons production rest ih =>
    rw [List.forall_mem_cons] at named
    rw [List.foldlM_cons, List.flatMap_cons]
    exact (attempts_lowerProduction later named.1).bind fun next _ grown =>
      ih (later.trans grown) named.2

/-- Lowering a grammar fails for want of room, or because one of the names that it introduces has a
production. -/
theorem attempts_toGrammar (wellFormed : source.WellFormed) :
    Attempts ⟨source.names, source.terminals, .empty, source.start⟩ source.syntheticNames id
      source.toGrammar :=
  attempts_foldlM_lowerProduction (.refl source.names) fun _ listed =>
    (wellFormed.nonterminal_named (isNonterminal_of_mem_entries listed)).1

/-- A name that does not begin with an underscore is not introduced. -/
theorem ne_of_mem_syntheticNames {name given : String} (listed : name ∈ source.syntheticNames)
    (plain : given.toList.head? ≠ some '_') : given ≠ name := by
  rintro rfl
  obtain ⟨production, -, inside⟩ := List.mem_flatMap.mp listed
  obtain ⟨rest, rfl⟩ := Expr.exists_append_of_mem_syntheticNames _ _ inside
  apply plain
  rw [String.toList_append, String.toList_append]
  rfl

/-- Lowering ends in one of three ways, if no declared name begins with an underscore. The names
that it introduces differ from the declared ones then, and from each other exactly if no two
nonterminals clash. Either there is no room for them; or two nonterminals clash, and lowering comes
upon an introduced name that has a production; or there is no clash, and the grammar is lowered as
asked for. -/
theorem toGrammar_outcome (wellFormed : source.WellFormed)
    (plain : ∀ s name, s ∈ source.terminals.items ∨ source.isNonterminal s = true →
      source.names.name? s = some name → name.toList.head? ≠ some '_') :
    (∀ name ∈ source.syntheticNames, source.names.get? name = none) ∧
      (source.syntheticNames.Nodup ↔ ∀ A B, ¬ source.Clashes A B) ∧
      ((source.toGrammar = .error .tooManySymbols ∧
          NameTable.capacity < source.names.size + source.syntheticNames.length) ∨
        ((∃ name ∈ source.syntheticNames, source.toGrammar = .error (.definedTwice name)) ∧
          ∃ A B, source.Clashes A B) ∨
        ((∃ grammar, source.toGrammar = .ok grammar ∧ source.LaysOut grammar) ∧
          ∀ A B, ¬ source.Clashes A B)) := by
  have fresh : ∀ name ∈ source.syntheticNames, source.names.get? name = none := by
    apply wellFormed.fresh
    intro name listed s declared named
    exact ne_of_mem_syntheticNames listed (plain s name declared named) rfl
  have nodup_iff := nodup_syntheticNames_iff wellFormed
  refine ⟨fresh, nodup_iff, ?_⟩
  by_cases nodup : source.syntheticNames.Nodup
  · rcases fits_laysOut wellFormed fresh nodup with full | lowered
    · exact Or.inl full
    · exact Or.inr (Or.inr ⟨lowered, nodup_iff.mp nodup⟩)
  -- names that are introduced twice are noticed, unless the room is used up before
  · have clash : ∃ A B, source.Clashes A B := by
      by_contra none
      exact nodup (nodup_iff.mpr fun A B clash => none ⟨A, B, clash⟩)
    rcases attempts_toGrammar wellFormed with ⟨grammar, passed, -⟩ | full | failed
    · exact absurd (enters_toGrammar wellFormed passed).1 nodup
    · exact Or.inl full
    · exact Or.inr (Or.inl ⟨failed, clash⟩)

/-- The productions `S := (a S?)+`, `SOneOrMoreChain0 := a?` and `SOneOrMoreChain1 := a*`. The name
of the second nonterminal leads to a terminal inside the first one, and that of the third leads to
an expression of another kind, so that there is no clash and the grammar is lowered. -/
theorem toGrammar_outcome_near :
    ∃ source, EbnfDefinition.ofSteps [.terminal "a", .nonterminal "S",
        .nonterminal "SOneOrMoreChain0", .nonterminal "SOneOrMoreChain1",
        .rule ⟨3⟩ (.oneOrMore (.chain [.terminal ⟨2⟩, .optional (.nonterminal ⟨3⟩)])),
        .rule ⟨4⟩ (.optional (.terminal ⟨2⟩)), .rule ⟨5⟩ (.zeroOrMore (.terminal ⟨2⟩))] =
          .ok source ∧
      (∀ A B, ¬ source.Clashes A B) ∧
      ∃ grammar, source.toGrammar = .ok grammar ∧ source.LaysOut grammar := by
  obtain ⟨source, defined, wellFormed, passes⟩ := EbnfDefinition.exists_of_ofSteps
    [.terminal "a", .nonterminal "S", .nonterminal "SOneOrMoreChain0",
      .nonterminal "SOneOrMoreChain1",
      .rule ⟨3⟩ (.oneOrMore (.chain [.terminal ⟨2⟩, .optional (.nonterminal ⟨3⟩)])),
      .rule ⟨4⟩ (.optional (.terminal ⟨2⟩)), .rule ⟨5⟩ (.zeroOrMore (.terminal ⟨2⟩))]
    (fun source => source.toGrammar.toOption.isSome &&
      source.names.names.toList.all fun name => name.toList.head? != some '_')
    (by decide +kernel)
  rw [Bool.and_eq_true, Option.isSome_iff_exists, List.all_eq_true] at passes
  obtain ⟨⟨grammar, lowered⟩, plain⟩ := passes
  have given := toOption_eq_some_iff.mp lowered
  have listed : ∀ {s name}, source.names.name? s = some name → name ∈ source.names.names.toList :=
    fun named => Array.mem_toList_iff.mpr (Array.mem_of_getElem? named)
  obtain ⟨-, -, ⟨failed, -⟩ | ⟨⟨name, -, failed⟩, -⟩ | ⟨result, free⟩⟩ :=
    toGrammar_outcome wellFormed fun s name _ named => bne_iff_ne.mp (plain name (listed named))
  · rw [given] at failed
    cases failed
  · rw [given] at failed
    cases failed
  · exact ⟨source, defined, free, result⟩

/-- Different stems do not keep the names apart. The productions `S := (a?)` and `SChain0 := a?`
have no declared name that begins with an underscore, but both introduce `_SChain0Optional`, and
lowering fails. -/
theorem not_distinct_of_stems :
    ∃ source, EbnfDefinition.ofSteps [.terminal "a", .nonterminal "S", .nonterminal "SChain0",
        .rule ⟨3⟩ (.chain [.optional (.terminal ⟨2⟩)]), .rule ⟨4⟩ (.optional (.terminal ⟨2⟩))] =
          .ok source ∧
      (∀ name ∈ source.names.names.toList, name.toList.head? ≠ some '_') ∧
      ¬ source.syntheticNames.Nodup ∧
      source.toGrammar = .error (.definedTwice "_SChain0Optional") := by
  obtain ⟨source, defined, -, passes⟩ := EbnfDefinition.exists_of_ofSteps
    [.terminal "a", .nonterminal "S", .nonterminal "SChain0",
      .rule ⟨3⟩ (.chain [.optional (.terminal ⟨2⟩)]), .rule ⟨4⟩ (.optional (.terminal ⟨2⟩))]
    (fun source => (source.names.names.toList.all fun name => name.toList.head? != some '_') &&
      !decide source.syntheticNames.Nodup &&
      match source.toGrammar with
      | .error fault => decide (fault = .definedTwice "_SChain0Optional")
      | .ok _ => false) (by decide +kernel)
  simp only [Bool.and_eq_true, List.all_eq_true, bne_iff_ne, Bool.not_eq_true',
    decide_eq_false_iff_not] at passes
  obtain ⟨⟨plain, twice⟩, failed⟩ := passes
  refine ⟨source, defined, plain, twice, ?_⟩
  split at failed
  · next fault given =>
    rw [given, of_decide_eq_true failed]
  · cases failed

end EbnfGrammar

end Predictive
