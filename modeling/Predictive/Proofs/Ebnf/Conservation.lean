import Predictive.Proofs.Ebnf.Naming
import Predictive.Proofs.LeftFactor.Step

/-!
# Lowering one expression

A grammar in which no name begins with a certain stem can take in any expression that is named after
this stem, as long as there is room for its names. It keeps all that it had, and the new names are
spelled out along the paths of the expression, so no two of them are the same. Each of them is
reserved before the names inside are known, and is given its alternatives when they are: for every
path, the grammar in the end has the alternatives that the expression at its end calls for.

## Main definitions

* `NameTable.NamesFrom` — names at consecutive positions of a table
* `Expr.IsNamed` — the symbol of an expression that is named after a stem
* `Expr.Settled` — the alternatives that an expression calls for, by name
* `Expr.Settles` — what lowering an expression does to a grammar

## Main results

* `Expr.mem_syntheticNames_iff_standsAt` — the names of an expression, by path
* `Expr.Spelled.settled` — an expression that is laid out under its names has its alternatives
* `Expr.exists_settles` — lowering an expression succeeds, and adds its productions to what is there
-/

namespace Predictive

/-! ### Rows of names -/

namespace NameTable

variable {table before : NameTable} {first : Nat} {name : String} {names front back : List String}

/-- Names stand at consecutive positions, from a first one on. -/
def NamesFrom (table : NameTable) (first : Nat) (names : List String) : Prop :=
  ∀ i name, names[i]? = some name → table.name? ⟨first + i⟩ = some name

theorem NamesFrom.head (row : table.NamesFrom first (name :: names)) :
    table.get? name = some ⟨first⟩ := get?_eq_some_iff.mpr (row 0 name rfl)

theorem NamesFrom.tail (row : table.NamesFrom first (name :: names)) :
    table.NamesFrom (first + 1) names := by
  intro i other listed
  have found := row (i + 1) other listed
  rwa [Nat.add_comm i, ← Nat.add_assoc] at found

theorem NamesFrom.left (row : table.NamesFrom first (front ++ back)) :
    table.NamesFrom first front := by
  intro i name listed
  have inside := (List.getElem?_eq_some_iff.mp listed).1
  exact row i name (by rw [List.getElem?_append_left inside, listed])

theorem NamesFrom.right (row : table.NamesFrom first (front ++ back)) :
    table.NamesFrom (first + front.length) back := by
  intro i name listed
  have found := row (front.length + i) name (by
    rw [List.getElem?_append_right (Nat.le_add_right _ _), Nat.add_sub_cancel_left, listed])
  rwa [← Nat.add_assoc] at found

/-- Names that are added to a table stand behind those that it has. -/
theorem namesFrom_of_append (names_eq : table.names.toList = before.names.toList ++ names) :
    table.NamesFrom before.size names := by
  intro i name listed
  rw [name?, ← Array.getElem?_toList, names_eq, size, ← Array.length_toList,
    List.getElem?_append_right (Nat.le_add_right _ _), Nat.add_sub_cancel_left, listed]

end NameTable

namespace Expr

open Grammar

variable {expr inner part : Expr} {grammar after : Grammar} {stem step path name : String}
  {first place : Nat} {parts : List Expr} {s : Symbol}

/-! ### What an expression calls for -/

/-- The symbol that stands for an expression, which is named after a stem: an expression that is a
symbol stands for itself. -/
def IsNamed (grammar : Grammar) (stem : String) (expr : Expr) (s : Symbol) : Prop :=
  expr = .terminal s ∨ expr = .nonterminal s ∨
    ∃ kind, expr.kind? = some kind ∧ grammar.symbol? (stem ++ kind.word) = some s

/-- The symbols that stand for the parts of a list, which are named after their places. -/
def AreNamed (grammar : Grammar) (stem : String) (parts : List Expr) (symbols : List Symbol) :
    Prop :=
  symbols.length = parts.length ∧ ∀ (i : Nat) part, parts[i]? = some part →
    ∃ s, symbols[i]? = some s ∧ part.IsNamed grammar (stem ++ toString i) s

/-- A grammar has the alternatives that an expression calls for, leaving those of its parts aside:
each symbol is told by its name. -/
def Settled (grammar : Grammar) (stem : String) : Expr → Prop
  | .terminal _ => True
  | .nonterminal _ => True
  | .chain parts => ∃ s symbols,
      grammar.symbol? (stem ++ Kind.word .chain) = some s ∧
      AreNamed grammar (stem ++ Kind.word .chain) parts symbols ∧
      grammar.alternatives? s = some [.ofSymbols symbols]
  | .choice parts => ∃ s symbols,
      grammar.symbol? (stem ++ Kind.word .choice) = some s ∧
      AreNamed grammar (stem ++ Kind.word .choice) parts symbols ∧
      grammar.alternatives? s = some (symbols.map fun part => .ofSymbols [part])
  | .optional body => ∃ s inner,
      grammar.symbol? (stem ++ Kind.word .optional) = some s ∧
      body.IsNamed grammar (stem ++ Kind.word .optional) inner ∧
      grammar.alternatives? s = some [.ofSymbols [inner], .epsilon]
  | .zeroOrMore body => ∃ s inner,
      grammar.symbol? (stem ++ Kind.word .zeroOrMore) = some s ∧
      body.IsNamed grammar (stem ++ Kind.word .zeroOrMore) inner ∧
      grammar.alternatives? s = some [.ofSymbols [inner, s], .epsilon]
  | .oneOrMore body => ∃ s more inner,
      grammar.symbol? (stem ++ Kind.word .oneOrMore) = some s ∧
      grammar.symbol? (stem ++ Kind.word .oneOrMore ++ "Opt") = some more ∧
      body.IsNamed grammar (stem ++ Kind.word .oneOrMore) inner ∧
      grammar.alternatives? s = some [.ofSymbols [inner, more]] ∧
      grammar.alternatives? more = some [.ofSymbols [inner, more], .epsilon]

/-- Every symbol of a settled expression has an alternative, unless the expression is a choice of
nothing. -/
theorem Settled.exists_alternatives {kind : Kind} {ending : String}
    (settled : expr.Settled grammar stem) (found : expr.kind? = some kind)
    (listed : ending ∈ kind.endings) :
    ∃ s alternatives, grammar.symbol? (stem ++ ending) = some s ∧
      grammar.alternatives? s = some alternatives ∧
      (alternatives = [] → expr = .choice [] ∧ ending = Kind.word .choice) := by
  cases expr with
  | terminal => cases found
  | nonterminal => cases found
  | chain parts =>
    cases found
    obtain rfl := List.mem_singleton.mp listed
    obtain ⟨s, symbols, named, -, defined⟩ := settled
    exact ⟨s, _, named, defined, fun none => absurd none (List.cons_ne_nil _ _)⟩
  | choice parts =>
    cases found
    obtain rfl := List.mem_singleton.mp listed
    obtain ⟨s, symbols, named, ⟨lengths, -⟩, defined⟩ := settled
    refine ⟨s, _, named, defined, fun none => ⟨?_, rfl⟩⟩
    -- there are as many alternatives as parts
    rw [List.map_eq_nil_iff] at none
    rw [none, List.length_nil] at lengths
    rw [List.length_eq_zero_iff.mp lengths.symm]
  | optional body =>
    cases found
    obtain rfl := List.mem_singleton.mp listed
    obtain ⟨s, inner, named, -, defined⟩ := settled
    exact ⟨s, _, named, defined, fun none => absurd none (List.cons_ne_nil _ _)⟩
  | zeroOrMore body =>
    cases found
    obtain rfl := List.mem_singleton.mp listed
    obtain ⟨s, inner, named, -, defined⟩ := settled
    exact ⟨s, _, named, defined, fun none => absurd none (List.cons_ne_nil _ _)⟩
  | oneOrMore body =>
    cases found
    obtain ⟨s, more, inner, named, aside, -, defined, others⟩ := settled
    rcases Kind.eq_of_mem_endings listed with rfl | rfl
    · exact ⟨s, _, named, defined, fun none => absurd none (List.cons_ne_nil _ _)⟩
    · rw [String.append_assoc] at aside
      exact ⟨more, _, aside, others, fun none => absurd none (List.cons_ne_nil _ _)⟩

/-! ### Productions under their names -/

/-- The productions of an expression are laid out from a position on, where its names stand. -/
structure Spelled (grammar : Grammar) (stem : String) (first : Nat) (expr : Expr) : Prop where
  /-- The productions. -/
  laid : expr.Laid grammar first
  /-- The names. -/
  named : grammar.names.NamesFrom first (expr.syntheticNames stem)

/-- The parts of a list are laid out one after the other, each under its names. -/
theorem exists_spelled (laid : LaidAll grammar first parts)
    (named : grammar.names.NamesFrom first (syntheticNamesOfAll stem place parts)) {i : Nat}
    (listed : parts[i]? = some part) :
    ∃ position, part.Spelled grammar (stem ++ toString (place + i)) position ∧
      (symbolsAt first parts)[i]? = some (part.symbolAt position) := by
  induction parts generalizing first place i with
  | nil => cases listed
  | cons head rest ih =>
    rw [LaidAll] at laid
    rw [syntheticNamesOfAll] at named
    cases i with
    | zero =>
      cases listed
      exact ⟨first, ⟨laid.1, named.left⟩, rfl⟩
    | succ i =>
      have behind := named.right
      rw [length_syntheticNames] at behind
      have later := ih laid.2 behind listed
      rwa [Nat.add_right_comm place 1 i] at later

theorem length_symbolsAt : (symbolsAt first parts).length = parts.length := by
  induction parts generalizing first with
  | nil => rfl
  | cons part rest ih => rw [symbolsAt, List.length_cons, List.length_cons, ih]

namespace Spelled

/-- The symbol of an expression has its name. -/
theorem isNamed (spelled : expr.Spelled grammar stem first) :
    expr.IsNamed grammar stem (expr.symbolAt first) := by
  have named := spelled.named
  cases expr with
  | terminal s => exact Or.inl rfl
  | nonterminal s => exact Or.inr (Or.inl rfl)
  | chain parts => exact Or.inr (Or.inr ⟨.chain, rfl, named.head⟩)
  | choice parts => exact Or.inr (Or.inr ⟨.choice, rfl, named.head⟩)
  | optional body => exact Or.inr (Or.inr ⟨.optional, rfl, named.head⟩)
  | zeroOrMore body => exact Or.inr (Or.inr ⟨.zeroOrMore, rfl, named.head⟩)
  | oneOrMore body => exact Or.inr (Or.inr ⟨.oneOrMore, rfl, named.head⟩)

/-- So have the symbols of the parts of a list. -/
theorem areNamed (laid : LaidAll grammar first parts)
    (named : grammar.names.NamesFrom first (syntheticNamesOfAll stem 0 parts)) :
    AreNamed grammar stem parts (symbolsAt first parts) := by
  refine ⟨length_symbolsAt, fun i part listed => ?_⟩
  obtain ⟨position, spelled, found⟩ := exists_spelled laid named listed
  rw [Nat.zero_add] at spelled
  exact ⟨_, found, spelled.isNamed⟩

/-- A part of a list is laid out under its names, which go on with its place. -/
theorem of_place (kind : Kind) (laid : LaidAll grammar first parts)
    (named : grammar.names.NamesFrom first (syntheticNamesOfAll (stem ++ kind.word) 0 parts))
    {i : Nat} (listed : parts[i]? = some part) :
    ∃ position, part.Spelled grammar (stem ++ (kind.word ++ toString i)) position := by
  obtain ⟨position, spelled, -⟩ := exists_spelled laid named listed
  rw [Nat.zero_add, String.append_assoc] at spelled
  exact ⟨position, spelled⟩

/-- The parts of an expression are laid out under their names as well. -/
theorem of_hasPart (spelled : expr.Spelled grammar stem first) (inside : expr.HasPart step part) :
    ∃ position, part.Spelled grammar (stem ++ step) position := by
  obtain ⟨laid, named⟩ := spelled
  -- the names of the expression itself come first, and are left behind
  cases expr with
  | terminal => cases inside
  | nonterminal => cases inside
  | chain parts =>
    obtain ⟨i, listed, rfl⟩ := inside
    exact of_place .chain laid.2 named.tail listed
  | choice parts =>
    obtain ⟨i, listed, rfl⟩ := inside
    exact of_place .choice laid.2 named.tail listed
  | optional body =>
    obtain ⟨rfl, rfl⟩ := inside
    exact ⟨_, laid.2, named.tail⟩
  | zeroOrMore body =>
    obtain ⟨rfl, rfl⟩ := inside
    exact ⟨_, laid.2, named.tail⟩
  | oneOrMore body =>
    obtain ⟨rfl, rfl⟩ := inside
    exact ⟨_, laid.2.2, named.tail.tail⟩

/-- Whatever stands inside an expression is laid out under its names. -/
theorem of_standsAt (spelled : expr.Spelled grammar stem first)
    (stands : expr.StandsAt path inner) :
    ∃ position, inner.Spelled grammar (stem ++ path) position := by
  induction stands generalizing stem first with
  | here expr => exact ⟨first, by rwa [String.append_empty]⟩
  | inside within _ ih =>
    obtain ⟨position, below⟩ := spelled.of_hasPart within
    rw [← String.append_assoc]
    exact ih below

/-- An expression that is laid out under its names has the alternatives that it calls for. -/
theorem settled (spelled : expr.Spelled grammar stem first) : expr.Settled grammar stem := by
  obtain ⟨laid, named⟩ := spelled
  cases expr with
  | terminal => trivial
  | nonterminal => trivial
  | chain parts => exact ⟨_, _, named.head, areNamed laid.2 named.tail, laid.1⟩
  | choice parts => exact ⟨_, _, named.head, areNamed laid.2 named.tail, laid.1⟩
  | optional body => exact ⟨_, _, named.head, isNamed ⟨laid.2, named.tail⟩, laid.1⟩
  | zeroOrMore body => exact ⟨_, _, named.head, isNamed ⟨laid.2, named.tail⟩, laid.1⟩
  | oneOrMore body =>
    exact ⟨_, _, _, named.head, named.tail.head, isNamed ⟨laid.2.2, named.tail.tail⟩, laid.1,
      laid.2.1⟩

end Spelled

/-! ### Lowering -/

/-- The names of an expression are those of the expressions that stand inside it, each behind the
path to it: one for an expression that is not a symbol, or two for a repetition that is not
empty. -/
theorem mem_syntheticNames_iff_standsAt :
    name ∈ expr.syntheticNames stem ↔
      ∃ path inner kind ending, expr.StandsAt path inner ∧ inner.kind? = some kind ∧
        ending ∈ kind.endings ∧ name = stem ++ path ++ ending := by
  constructor
  · intro listed
    induction expr using induction_parts generalizing stem with
    | steps expr ih =>
      rcases mem_syntheticNames_iff.mp listed with
        ⟨kind, ending, found, own, rfl⟩ | ⟨step, part, inside, below⟩
      · exact ⟨"", expr, kind, ending, .here expr, found, own, by rw [String.append_empty]⟩
      · obtain ⟨path, inner, kind, ending, stands, found, own, rfl⟩ := ih step part inside below
        refine ⟨step ++ path, inner, kind, ending, .inside inside stands, found, own, ?_⟩
        simp only [String.append_assoc]
  · rintro ⟨path, inner, kind, ending, stands, found, own, rfl⟩
    exact stands.mem_syntheticNames
      (mem_syntheticNames_iff.mpr (Or.inl ⟨kind, ending, found, own, rfl⟩))

/-- What lowering an expression does to a grammar. -/
structure Settles (expr : Expr) (stem : String) (before after : Grammar) : Prop where
  /-- The names of the expression come after those that were there; the terminals, the start symbol
  and the productions of all symbols that were there stay. -/
  introduces : before.Introduces after (expr.syntheticNames stem) []
  /-- No name is introduced twice. -/
  apart : (expr.syntheticNames stem).Nodup
  /-- There is one name for each expression inside that is not a symbol, and there are two for a
  repetition that is not empty. -/
  count : (expr.syntheticNames stem).length = expr.extent
  /-- The names begin with the stem, and go on with the path to an expression inside. -/
  spelled : ∀ name, name ∈ expr.syntheticNames stem ↔
    ∃ path inner kind ending, expr.StandsAt path inner ∧ inner.kind? = some kind ∧
      ending ∈ kind.endings ∧ name = stem ++ path ++ ending
  /-- Every expression inside has the alternatives that it calls for. -/
  settled : ∀ path inner, expr.StandsAt path inner → inner.Settled after (stem ++ path)
  /-- Every name that is introduced has an alternative, but for that of a choice of nothing. -/
  filled : ∀ name ∈ expr.syntheticNames stem, ∃ s alternatives,
    after.symbol? name = some s ∧ after.alternatives? s = some alternatives ∧
      (alternatives = [] → ∃ path, expr.StandsAt path (.choice []) ∧
        name = stem ++ path ++ Kind.word .choice)

/-- If no name of a grammar begins with the stem, and there is room for the names of an expression,
lowering it succeeds and adds its productions to what is there. That only symbols with a name have
productions holds of every grammar that is defined or factored, and lowering keeps it. -/
theorem exists_settles (expr : Expr) (bounded : grammar.Bounded)
    (fresh : ∀ s rest, grammar.names.name? s ≠ some (stem ++ rest))
    (room : grammar.names.size + expr.extent ≤ NameTable.capacity) :
    ∃ s after, expr.lower stem grammar = .ok (s, after) ∧ expr.IsNamed after stem s ∧
      expr.Settles stem grammar after := by
  have unknown : ∀ name ∈ expr.syntheticNames stem, grammar.names.get? name = none := by
    intro name listed
    obtain ⟨rest, rfl⟩ := exists_append_of_mem_syntheticNames _ _ listed
    rw [Option.eq_none_iff_forall_ne_some]
    exact fun s found => fresh s rest (NameTable.get?_eq_some_iff.mp found)
  rcases adds_lower expr stem grammar _ rfl bounded unknown (nodup_syntheticNames expr stem) with
    ⟨-, full⟩ | ⟨⟨s, after⟩, lowered, introduces, laid⟩
  · rw [length_syntheticNames] at full
    exact absurd room (Nat.not_le.mpr full)
  -- nothing is written later on, so the productions are those of the result
  obtain ⟨rfl, inPlace⟩ := laid after fun _ _ _ => rfl
  have spelled : expr.Spelled after stem grammar.names.size :=
    ⟨inPlace, NameTable.namesFrom_of_append introduces.names_eq⟩
  have settled : ∀ path inner, expr.StandsAt path inner → inner.Settled after (stem ++ path) := by
    intro path inner stands
    obtain ⟨position, below⟩ := spelled.of_standsAt stands
    exact below.settled
  refine ⟨_, after, lowered, spelled.isNamed, introduces, nodup_syntheticNames expr stem,
    length_syntheticNames expr stem, fun name => mem_syntheticNames_iff_standsAt, settled,
    fun name listed => ?_⟩
  obtain ⟨path, inner, kind, ending, stands, found, own, rfl⟩ :=
    mem_syntheticNames_iff_standsAt.mp listed
  obtain ⟨t, alternatives, named, defined, empty⟩ :=
    (settled path inner stands).exists_alternatives found own
  refine ⟨t, alternatives, named, defined, fun none => ?_⟩
  -- nothing but a choice of nothing calls for no alternative
  obtain ⟨rfl, rfl⟩ := empty none
  exact ⟨path, stands, rfl⟩

/-- The expression `(S? ())+`, in which `()` is a choice of nothing, is lowered into the grammar
`S : a ;` under the stem `_`. -/
theorem exists_settles_nested :
    ∃ grammar, Grammar.ofText "S : a ;" = .ok grammar ∧
      ∃ s after, (oneOrMore (.chain [.optional (.nonterminal ⟨2⟩), .choice []])).lower "_" grammar =
          .ok (s, after) ∧
        (oneOrMore (.chain [.optional (.nonterminal ⟨2⟩), .choice []])).Settles "_" grammar after ∧
        after.names.names.toList = ["", "EOF", "S", "a", "_OneOrMore", "_OneOrMoreOpt",
          "_OneOrMoreChain", "_OneOrMoreChain0Optional", "_OneOrMoreChain1Choice"] := by
  obtain ⟨grammar, defined, wellFormed, passes⟩ := Grammar.exists_of_ofText "S : a ;"
    (fun grammar => decide (grammar.names.names.toList = ["", "EOF", "S", "a"])) (by decide +kernel)
  rw [decide_eq_true_eq] at passes
  have size : grammar.names.size = 4 := by
    rw [NameTable.size, ← Array.length_toList, passes]
    rfl
  have fresh : ∀ s rest, grammar.names.name? s ≠ some ("_" ++ rest) := by
    intro s rest named
    rw [NameTable.name?, ← Array.getElem?_toList, passes] at named
    have listed := List.mem_of_getElem? named
    have begins : '_' ∈ ("_" ++ rest).toList.head? := by rw [String.toList_append]; rfl
    -- no name of the grammar begins with the letter of the stem
    simp only [List.mem_cons, List.not_mem_nil, or_false] at listed
    rcases listed with same | same | same | same
    all_goals
      rw [same] at begins
      revert begins
      decide
  obtain ⟨s, after, lowered, -, settles⟩ := exists_settles
    (oneOrMore (.chain [.optional (.nonterminal ⟨2⟩), .choice []])) wellFormed.bounded fresh
    (by rw [size]; decide)
  refine ⟨grammar, defined, s, after, lowered, settles, ?_⟩
  rw [settles.introduces.names_eq, passes]
  decide +kernel

end Expr

end Predictive
