import Predictive.Proofs.Declarations
import Predictive.Proofs.RoundTrip

/-!
# Definitions in terms of names

A definition under construction can be told by names: which were declared, and what its rules spell
so far. Each step adds to this in a simple way, and a step can only be refused for what can be seen
in the names. While no terminal is declared, every new name can be a nonterminal; a name that is no
nonterminal can be a terminal; and the words of an alternative can be added to a rule.

## Main definitions

* `NameTable.SpellsRule` — a production and the words that it spells
* `Definition.Tells` — what is known of a definition under construction, in terms of names

## Main results

* `Definition.Tells.nonterminal`, `Definition.Tells.terminal`, `Definition.Tells.designateStart`,
  `Definition.Tells.rule` — the steps
* `Definition.Tells.finish_outcome` — what the final check asks for
-/

namespace Predictive

/-- A list that is aligned with one cut at an item is cut at the item aligned with it. -/
theorem exists_split_of_forall₂ {α β : Type} {related : α → β → Prop} {items : List α}
    {before after : List β} {other : β}
    (aligned : List.Forall₂ related items (before ++ other :: after)) :
    ∃ front item back, items = front ++ item :: back ∧ List.Forall₂ related front before ∧
      related item other ∧ List.Forall₂ related back after := by
  induction before generalizing items with
  | nil =>
    cases aligned with
    | cons first rest => exact ⟨[], _, _, rfl, .nil, first, rest⟩
  | cons first before ih =>
    cases aligned with
    | cons paired rest =>
      obtain ⟨front, item, back, rfl, earlier, here, later⟩ := ih rest
      exact ⟨_ :: front, item, back, rfl, .cons paired earlier, here, later⟩

/-! ### Words -/

namespace Text

variable {text word : String}

theorem mem_consWord {word letters : List Char} {others : List (List Char)} :
    letters ∈ consWord word others ↔ letters = word ∧ word ≠ [] ∨ letters ∈ others := by
  rw [consWord]
  split
  · next empty => simp [List.isEmpty_iff.mp empty]
  · next filled =>
    have nonempty := mt List.isEmpty_iff.mpr filled
    rw [List.mem_cons, and_iff_left nonempty]

/-- Where a text is cut at its white space, nothing of it is left. -/
theorem solid_of_splitWords (letters : List Char) :
    (∀ c ∈ (splitWords letters).1, isBlank c = false) ∧
      ∀ other ∈ (splitWords letters).2, other ≠ [] ∧ ∀ c ∈ other, isBlank c = false := by
  induction letters with
  | nil => simp [splitWords]
  | cons c rest ih =>
    rw [splitWords]
    dsimp only
    split
    · refine ⟨by simp, fun other member => ?_⟩
      rcases mem_consWord.mp member with ⟨rfl, filled⟩ | later
      · exact ⟨filled, ih.1⟩
      · exact ih.2 other later
    · next plain =>
      rw [Bool.not_eq_true] at plain
      exact ⟨List.forall_mem_cons.mpr ⟨plain, ih.1⟩, ih.2⟩

theorem isWord_of_mem_wordsOf (listed : word ∈ wordsOf text) : IsWord word := by
  obtain ⟨letters, member, rfl⟩ := List.mem_map.mp listed
  obtain ⟨first, others⟩ := solid_of_splitWords text.toList
  have proper : letters ≠ [] ∧ ∀ c ∈ letters, isBlank c = false := by
    rcases mem_consWord.mp member with ⟨rfl, filled⟩ | later
    · exact ⟨filled, first⟩
    · exact others letters later
  exact ⟨by simpa [← String.toList_inj] using proper.1, by simpa using proper.2⟩

end Text

namespace Declarations

variable {name : String} {names : List String}

theorem isValidName_iff :
    isValidName name = true ↔ Text.IsWord name ∧ name ≠ "EOF" := by
  rw [isValidName, Bool.not_eq_true', Bool.or_eq_false_iff, Bool.or_eq_false_iff]
  simp only [beq_eq_false_iff_ne, List.any_eq_false, Bool.not_eq_true]
  constructor
  · rintro ⟨⟨nonempty, proper⟩, solid⟩
    exact ⟨⟨nonempty, solid⟩, proper⟩
  · rintro ⟨⟨nonempty, solid⟩, proper⟩
    exact ⟨⟨nonempty, proper⟩, solid⟩

theorem mem_of_valid? (listed : isValidName name = true → name ∈ names) :
    ∀ valid ∈ valid? name, valid ∈ names := by
  intro valid given
  rw [valid?] at given
  split at given
  · next fit => exact Option.some.inj given ▸ listed fit
  · cases given

end Declarations

/-! ### Productions and words -/

namespace NameTable

variable {table next : NameTable} {s : Symbol} {name : String}

/-- A production whose left-hand side and alternatives have the names of a rule. -/
def SpellsRule (table : NameTable) (entry : Symbol × List Alternative)
    (rule : String × List (List String)) : Prop :=
  table.name? entry.1 = some rule.1 ∧
    List.Forall₂ (fun alternative words => table.Spells alternative.symbols words) entry.2 rule.2

theorem SpellsRule.mono {entry : Symbol × List Alternative} {rule : String × List (List String)}
    (spells : table.SpellsRule entry rule) (grown : table.Extends next) :
    next.SpellsRule entry rule :=
  ⟨grown.name?_eq_some spells.1, spells.2.imp fun _ _ spells => spells.mono grown⟩

theorem SpellsRule.eq_nil_iff {entry : Symbol × List Alternative}
    {rule : String × List (List String)} (spells : table.SpellsRule entry rule) :
    entry.2 = [] ↔ rule.2 = [] := by
  rw [← List.length_eq_zero_iff, spells.2.length_eq, List.length_eq_zero_iff]

theorem spells_of_forall₂ {entries : List (Symbol × List Alternative)}
    {rules : List (String × List (List String))}
    (aligned : List.Forall₂ table.SpellsRule entries rules) :
    table.Spells (entries.map Prod.fst) (rules.map Prod.fst) := by
  induction aligned with
  | nil => rfl
  | cons spells _ ih => exact spells_cons.mpr ⟨spells.1, ih⟩

end NameTable

/-! ### What is known of a definition -/

namespace Definition

variable {definition next : Definition} {s left : Symbol} {name : String}
  {pool terminals words : List String} {rules before after : List (String × List (List String))}
  {alternatives : List (List String)} {start : Option String} {symbols : List Symbol}

/-- What is known of a definition in between, in terms of names. -/
structure Tells (definition : Definition) (pool terminals : List String)
    (rules : List (String × List (List String))) (start : Option String) : Prop where
  /-- It was built step by step. -/
  built : definition.Built
  /-- Names come from a fixed list. -/
  drawn : definition.declared.names.DrawnFrom pool
  /-- The terminals and nonterminals that were declared. -/
  lists : definition.declared.Lists terminals (rules.map Prod.fst)
  /-- What the productions spell. -/
  rules : List.Forall₂ definition.declared.names.SpellsRule definition.rules.entries rules
  /-- The name of the start symbol. -/
  start : definition.declared.names.Spells definition.declared.start.toList start.toList

theorem tells_empty (pool : List String) : empty.Tells pool [] [] none :=
  ⟨.empty, NameTable.drawnFrom_reserved pool, Declarations.lists_empty, .nil, rfl⟩

/-- There is room for every name of the list. -/
theorem Tells.room (tells : definition.Tells pool terminals rules start)
    (roomy : pool.dedup.length + 2 ≤ NameTable.capacity) (listed : name ∈ pool)
    (absent : definition.declared.names.get? name = none) :
    definition.declared.names.size < NameTable.capacity :=
  Nat.lt_of_lt_of_le (tells.drawn.room listed absent) roomy

/-- A rule name is declared while there are no terminals. -/
theorem Tells.nonterminal (tells : definition.Tells pool [] rules start)
    (roomy : pool.dedup.length + 2 ≤ NameTable.capacity)
    (valid : Declarations.isValidName name = true) (listed : name ∈ pool)
    (fresh : name ∉ rules.map Prod.fst) :
    ∃ s next, definition.nonterminal name = .ok (s, next) ∧
      definition.declared.names.Extends next.declared.names ∧
      next.declared.names.name? s = some name ∧
      next.Tells pool [] (rules ++ [(name, [])]) start := by
  obtain ⟨s, declared, declare⟩ := Declarations.exists_nonterminal tells.lists valid
    List.not_mem_nil (tells.room roomy listed)
  obtain ⟨grown, named⟩ := Declarations.extends_of_nonterminal declare
  have other : s ∉ definition.declared.nonterminals.items := by
    rw [(tells.lists.nonterminals.mono grown).mem_iff named, List.mem_eraseDups]
    exact fresh
  have taken : definition.nonterminal name =
      .ok (s, ⟨declared, definition.rules.insert s []⟩) := by
    rw [Definition.nonterminal, declare]
    simp only [bind, Except.bind, OrderedSet.contains, other]
    rfl
  refine ⟨s, _, taken, grown, named, tells.built.nonterminal taken, ?_, ?_, ?_, ?_⟩
  · exact Declarations.drawnFrom_of_nonterminal tells.drawn
      (Declarations.mem_of_valid? fun _ => listed) declare
  · rw [List.map_append]
    exact tells.lists.nonterminal declare
  · have absent : s ∉ definition.rules.keys := mt tells.built.sound.mem_keys_iff.mp other
    dsimp only
    rw [OrderedMap.entries_insert_of_not_mem absent]
    exact List.rel_append (tells.rules.imp fun _ _ spells => spells.mono grown)
      (.cons ⟨named, .nil⟩ .nil)
  · dsimp only
    rw [Declarations.start_of_nonterminal declare]
    exact tells.start.mono grown

/-- A word that is no rule name is declared as a terminal. -/
theorem Tells.terminal (tells : definition.Tells pool terminals rules start)
    (roomy : pool.dedup.length + 2 ≤ NameTable.capacity) (word : Text.IsWord name)
    (listed : Declarations.isValidName name = true → name ∈ pool)
    (other : name ∉ rules.map Prod.fst) :
    ∃ s next, definition.terminal name = .ok (s, next) ∧
      definition.declared.names.Extends next.declared.names ∧
      next.declared.names.name? s = some name ∧
      next.Tells pool (terminals ++ (Declarations.properName? name).toList) rules start := by
  have valid : Declarations.isValidName name = true ∨ name = "EOF" := by
    rw [Declarations.isValidName_iff]
    exact (ne_or_eq name "EOF").imp_left fun proper => ⟨word, proper⟩
  obtain ⟨s, declared, declare⟩ := Declarations.exists_terminal tells.lists valid other
    fun valid => tells.room roomy (listed valid)
  obtain ⟨grown, named⟩ := Declarations.extends_of_terminal declare
  have taken : definition.terminal name = .ok (s, { definition with declared }) := by
    rw [Definition.terminal, declare]
    rfl
  refine ⟨s, _, taken, grown, named, tells.built.terminal taken,
    Declarations.drawnFrom_of_terminal tells.drawn (Declarations.mem_of_valid? listed) declare,
    tells.lists.terminal declare, tells.rules.imp fun _ _ spells => spells.mono grown, ?_⟩
  dsimp only
  rw [Declarations.start_of_terminal declare]
  exact tells.start.mono grown

/-- The nonterminal of a rule is designated as the start symbol. -/
theorem Tells.designateStart (tells : definition.Tells pool terminals rules start)
    (named : definition.declared.names.name? s = some name) (listed : name ∈ rules.map Prod.fst) :
    ∃ next, definition.designateStart s = .ok next ∧
      next.declared.names = definition.declared.names ∧
      next.Tells pool terminals rules (some name) := by
  have nonterminal : s ∈ definition.declared.nonterminals.items := by
    rw [tells.lists.nonterminals.mem_iff named, List.mem_eraseDups]
    exact listed
  have taken : definition.designateStart s =
      .ok { definition with declared := { definition.declared with start := some s } } := by
    simp only [Definition.designateStart, Declarations.designateStart, OrderedSet.contains,
      nonterminal]
    rfl
  exact ⟨_, taken, rfl, tells.built.designateStart taken, tells.drawn,
    ⟨tells.lists.terminals, tells.lists.nonterminals⟩, tells.rules,
    NameTable.spells_cons.mpr ⟨named, rfl⟩⟩

/-- An alternative is added to the rule of its left-hand side. -/
theorem Tells.rule
    (tells : definition.Tells pool terminals (before ++ (name, alternatives) :: after) start)
    (named : definition.declared.names.name? left = some name)
    (spells : definition.declared.names.Spells symbols words)
    (wordlike : ∀ word ∈ words, Text.IsWord word) :
    ∃ next, definition.rule left symbols = .ok next ∧
      next.declared = definition.declared ∧
      next.Tells pool terminals (before ++ (name, alternatives ++ [words]) :: after) start := by
  have proper : (Alternative.ofSymbols symbols).symbols = symbols := by
    refine List.filter_eq_self.mpr fun s listed => ?_
    obtain ⟨word, member, named⟩ := spells.exists_name listed
    rw [decide_eq_true_eq]
    rintro rfl
    exact (wordlike word member).ne_empty
      (Option.some.inj (named.symm.trans NameTable.name?_epsilon))
  have inside : (Alternative.ofSymbols symbols).symbols.find?
      (fun s => decide (definition.declared.names.size ≤ s.id)) = none := by
    rw [proper, List.find?_eq_none]
    intro s listed
    obtain ⟨word, -, named⟩ := spells.exists_name listed
    simpa using NameTable.lt_size_of_name? named
  obtain ⟨front, ⟨t, given⟩, back, split, earlier, here, later⟩ :=
    exists_split_of_forall₂ tells.rules
  obtain rfl : t = left := NameTable.name?_injective here.1 named
  have found : definition.rules.get? t = some given :=
    OrderedMap.mem_entries_iff.mp (by rw [split]; simp)
  have taken : definition.rule t symbols = .ok { definition with
      rules := definition.rules.insert t (given ++ [.ofSymbols symbols]) } := by
    simp only [Definition.rule, inside, found]
  refine ⟨_, taken, rfl, tells.built.rule taken, tells.drawn, ?_, ?_, tells.start⟩
  · simpa using tells.lists
  · dsimp only
    rw [OrderedMap.entries_insert_of_split split]
    refine List.rel_append earlier (.cons ⟨named, List.rel_append here.2 (.cons ?_ .nil)⟩ later)
    rw [proper]
    exact spells

theorem Tells.finish_of_nil (tells : definition.Tells pool terminals [] start) :
    definition.finish = .error .noNonterminals := by
  have none : definition.declared.nonterminals.items = [] :=
    List.map_eq_nil_iff.mp tells.lists.nonterminals
  have undesignated : definition.declared.start = .none := by
    by_contra designated
    obtain ⟨s, given⟩ := Option.ne_none_iff_exists'.mp designated
    have listed := tells.built.sound.declared.start_declared given
    rw [none] at listed
    cases listed
  simp only [finish, Declarations.startSymbol, undesignated, none, List.head?_nil]
  rfl

/-- The final check asks for a rule, and for an alternative of each rule. -/
theorem Tells.finish_outcome (tells : definition.Tells pool terminals rules start) :
    (∃ first, definition.finish = .ok ⟨definition.declared.names, definition.declared.terminals,
        definition.rules, first⟩ ∧ rules ≠ [] ∧ (∀ rule ∈ rules, rule.2 ≠ []) ∧
        some first =
          definition.declared.start.or definition.declared.nonterminals.items.head?) ∨
    (rules = [] ∧ definition.finish = .error .noNonterminals) ∨
    ∃ name, (name, []) ∈ rules ∧ definition.finish = .error (.noAlternatives name) := by
  by_cases empty : rules = []
  · subst empty
    exact Or.inr (Or.inl ⟨rfl, tells.finish_of_nil⟩)
  have checked : ∀ entry ∈ definition.rules.entries, ∃ rule ∈ rules,
      definition.declared.names.SpellsRule entry rule ∧
        definition.checkProduction entry.1 entry.2 =
          if entry.2 = [] then .error (.noAlternatives rule.1) else .ok () := by
    intro entry listed
    obtain ⟨rule, member, spells⟩ := exists_of_forall₂ tells.rules listed
    refine ⟨rule, member, spells,
      tells.built.checkProduction_eq (OrderedMap.mem_entries_iff.mp listed) ?_⟩
    rw [Declarations.nameOf, NameTable.name_eq_ok_iff.mpr spells.1]
  obtain ⟨rule, member⟩ := List.exists_mem_of_ne_nil rules empty
  obtain ⟨s, listed, -⟩ := tells.lists.nonterminals.exists_symbol
    (List.mem_eraseDups.mpr (List.mem_map_of_mem member))
  obtain ⟨first, chosen⟩ := Declarations.exists_startSymbol (List.ne_nil_of_mem listed)
  cases passed : definition.rules.entries.forM fun entry =>
      definition.checkProduction entry.1 entry.2 with
  | ok done =>
    left
    refine ⟨first, ?_, empty, fun rule member none => ?_, Declarations.startSymbol_eq_ok chosen⟩
    · exact bind_eq_ok_iff.mpr ⟨first, chosen, bind_eq_ok_iff.mpr ⟨done, passed, rfl⟩⟩
    · obtain ⟨entry, listed, related⟩ := exists_of_forall₂ tells.rules.flip member
      have spells : definition.declared.names.SpellsRule entry rule := related
      have offered := (checkProduction_cases (forM_eq_ok_iff.mp passed entry listed)).1
      exact offered (spells.eq_nil_iff.mpr none)
  | error error =>
    right
    right
    obtain ⟨earlier, entry, later, split, -, failed⟩ := forM_eq_error_iff.mp passed
    obtain ⟨rule, member, spells, decided⟩ := checked entry (by rw [split]; simp)
    rw [decided] at failed
    split at failed
    · next none =>
      cases failed
      have same : rule = (rule.1, []) := Prod.ext rfl (spells.eq_nil_iff.mp none)
      refine ⟨rule.1, same ▸ member, ?_⟩
      exact bind_eq_error_iff.mpr
        (Or.inr ⟨first, chosen, bind_eq_error_iff.mpr (Or.inl passed)⟩)
    · cases failed

end Definition

end Predictive
