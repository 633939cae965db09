import Predictive.Grammar.Source.Reader
import Predictive.Proofs.Derivation
import Predictive.Proofs.Names
import Predictive.Proofs.OrderedMap

/-!
# Well-formed grammars

Every grammar that is defined step by step, converted from named rules or read from a text is
well formed: its start symbol has a production, its alternatives use declared symbols only, and
no symbol is of both kinds. What is declared along the way is sound after every step, and
completeness of the productions is checked at the end.

## Main definitions

* `Grammar.Knows` — the symbols of a grammar
* `Grammar.WellFormed` — what holds of every grammar that was defined
* `Declarations.Sound` — what holds of the declared symbols after every step
* `Definition.Built` — the definitions that any number of steps can lead to

## Main results

* `Definition.Built.wellFormed` — a completed definition is well formed
* `Grammar.wellFormed_of_ofSource`, `Grammar.wellFormed_of_ofText` — so are the grammars of named
  rules and of texts
-/

namespace Predictive

namespace Grammar

variable {grammar : Grammar} {s t : Symbol} {alternative : Alternative}

/-- A symbol of the grammar: a terminal, the end of input included, or a nonterminal. -/
def Knows (grammar : Grammar) (s : Symbol) : Prop :=
  grammar.isTerminal s = true ∨ grammar.isNonterminal s = true

/-- What holds of every grammar that was defined. -/
structure WellFormed (grammar : Grammar) : Prop where
  /-- The start symbol has a production. -/
  start_isNonterminal : grammar.isNonterminal grammar.start = true
  /-- Every production has an alternative. -/
  alternatives_ne_nil : ∀ {s alternatives}, grammar.alternatives? s = some alternatives →
    alternatives ≠ []
  /-- Alternatives are made of symbols of the grammar. -/
  knows_of_rule : ∀ {s alternative}, grammar.HasRule s alternative →
    ∀ t ∈ alternative.symbols, grammar.Knows t
  /-- No terminal has a production. -/
  apart : ∀ {s}, s ∈ grammar.terminals.items → grammar.isNonterminal s = false
  /-- The reserved symbols are not declared as terminals. -/
  terminal_unreserved : ∀ {s}, s ∈ grammar.terminals.items → s.isReserved = false
  /-- The reserved symbols have no production. -/
  nonterminal_unreserved : ∀ {s}, grammar.isNonterminal s = true → s.isReserved = false
  /-- Every symbol has a name. -/
  named : ∀ {s}, grammar.Knows s → s.id < grammar.names.size

theorem isTerminal_iff : grammar.isTerminal s = true ↔ s = .eof ∨ s ∈ grammar.terminals.items := by
  simp [isTerminal, OrderedSet.contains]

theorem isNonterminal_iff : grammar.isNonterminal s = true ↔ s ∈ grammar.nonterminals :=
  OrderedMap.contains_iff

theorem isNonterminal_of_alternatives? {alternatives : List Alternative}
    (found : grammar.alternatives? s = some alternatives) : grammar.isNonterminal s = true :=
  Option.isSome_iff_exists.mpr ⟨alternatives, found⟩

theorem isNonterminal_of_rule (rule : grammar.HasRule s alternative) :
    grammar.isNonterminal s = true := by
  obtain ⟨alternatives, found, -⟩ := rule
  exact isNonterminal_of_alternatives? found

theorem isTerminal_eof : grammar.isTerminal .eof = true := isTerminal_iff.mpr (Or.inl rfl)

namespace WellFormed

variable (wellFormed : grammar.WellFormed)

include wellFormed

theorem not_isNonterminal (terminal : grammar.isTerminal s = true) :
    grammar.isNonterminal s = false := by
  rcases isTerminal_iff.mp terminal with rfl | listed
  · by_contra nonterminal
    rw [Bool.not_eq_false] at nonterminal
    exact absurd (wellFormed.nonterminal_unreserved nonterminal) (by decide)
  · exact wellFormed.apart listed

theorem not_isTerminal (nonterminal : grammar.isNonterminal s = true) :
    grammar.isTerminal s = false := by
  by_contra terminal
  rw [Bool.not_eq_false] at terminal
  rw [wellFormed.not_isNonterminal terminal] at nonterminal
  cases nonterminal

theorem not_isTerminal_epsilon : grammar.isTerminal .epsilon = false := by
  by_contra terminal
  rw [Bool.not_eq_false, isTerminal_iff] at terminal
  rcases terminal with same | listed
  · exact absurd same (by decide)
  · exact absurd (wellFormed.terminal_unreserved listed) (by decide)

theorem not_knows_epsilon : ¬ grammar.Knows .epsilon := by
  rintro (terminal | nonterminal)
  · rw [wellFormed.not_isTerminal_epsilon] at terminal
    cases terminal
  · exact absurd (wellFormed.nonterminal_unreserved nonterminal) (by decide)

theorem ne_epsilon (known : grammar.Knows s) : s ≠ .epsilon := by
  rintro rfl
  exact wellFormed.not_knows_epsilon known

/-- A terminal is never rewritten. -/
theorem not_hasRule (terminal : grammar.isTerminal s = true) : ¬ grammar.HasRule s alternative := by
  intro rule
  have nonterminal := isNonterminal_of_rule rule
  rw [wellFormed.not_isNonterminal terminal] at nonterminal
  cases nonterminal

/-- A terminal in front of a string stays there. -/
theorem derives_terminal_cons_iff (terminal : grammar.isTerminal s = true)
    {form result : List Symbol} :
    grammar.Derives (s :: form) result ↔
      ∃ rest, result = s :: rest ∧ grammar.Derives form rest := by
  rw [derives_cons_iff]
  refine or_iff_left ?_
  rintro ⟨alternative, first, second, rule, -⟩
  exact wellFormed.not_hasRule terminal rule

/-- Rewriting stays within the symbols of the grammar. -/
theorem knows_of_yields {form result : List Symbol} (yields : grammar.Yields form result)
    (known : ∀ t ∈ form, grammar.Knows t) : ∀ t ∈ result, grammar.Knows t := by
  induction yields with
  | nil => exact known
  | keep s _ ih =>
    rw [List.forall_mem_cons] at known ⊢
    exact ⟨known.1, ih known.2⟩
  | expand rule _ _ inner rest =>
    rw [List.forall_mem_cons] at known
    rw [List.forall_mem_append]
    exact ⟨inner (wellFormed.knows_of_rule rule), rest known.2⟩

end WellFormed

end Grammar

/-! ### Declared symbols -/

/-- What holds of the declared symbols after every step. -/
structure Declarations.Sound (declared : Declarations) : Prop where
  /-- Every name that is not reserved was declared as a terminal or as a nonterminal. -/
  declared_of_lt : ∀ {s : Symbol}, s.id < declared.names.size → s.isReserved = false →
    s ∈ declared.terminals.items ∨ s ∈ declared.nonterminals.items
  /-- Terminals have a name that is not reserved. -/
  terminal_named : ∀ {s}, s ∈ declared.terminals.items →
    s.id < declared.names.size ∧ s.isReserved = false
  /-- Nonterminals have a name that is not reserved. -/
  nonterminal_named : ∀ {s}, s ∈ declared.nonterminals.items →
    s.id < declared.names.size ∧ s.isReserved = false
  /-- No symbol is of both kinds. -/
  apart : ∀ {s}, s ∈ declared.terminals.items → ¬ s ∈ declared.nonterminals.items
  /-- The designated start symbol is a nonterminal. -/
  start_declared : ∀ {s}, declared.start = some s → s ∈ declared.nonterminals.items

namespace Declarations

variable {declared next : Declarations} {s : Symbol} {name : String}

theorem sound_empty : empty.Sound where
  declared_of_lt := by
    intro s inside unreserved
    have : s.isReserved = true := decide_eq_true inside
    rw [this] at unreserved
    cases unreserved
  terminal_named := by simp [empty, OrderedSet.empty]
  nonterminal_named := by simp [empty, OrderedSet.empty]
  apart := by simp [empty, OrderedSet.empty]
  start_declared := by simp [empty]

/-- What registering a name does: it may add the name, and nothing else. -/
theorem register_cases (registered : declared.register name = .ok (s, next)) :
    isValidName name = true ∧ next = { declared with names := next.names } ∧
      declared.names.intern name = .ok (s, next.names) := by
  unfold register at registered
  split at registered
  · next valid =>
    split at registered
    · next interned =>
      cases registered
      exact ⟨valid, rfl, interned⟩
    · cases registered
  · cases registered

theorem not_isReserved_of_register (registered : declared.register name = .ok (s, next)) :
    s.isReserved = false := by
  obtain ⟨valid, -, interned⟩ := register_cases registered
  simp only [isValidName, Bool.not_eq_true', Bool.or_eq_false_iff, beq_eq_false_iff_ne] at valid
  exact NameTable.not_isReserved_of_name? (NameTable.name?_of_intern interned) valid.1.1 valid.1.2

/-- A name in the table after interning was there before or is the interned one. -/
theorem lt_size_or_eq (registered : declared.register name = .ok (s, next)) {t : Symbol}
    (inside : t.id < next.names.size) : t.id < declared.names.size ∨ t = s := by
  obtain ⟨-, -, interned⟩ := register_cases registered
  rcases NameTable.intern_cases interned with ⟨same, -⟩ | ⟨-, rfl, names⟩
  · rw [same] at inside
    exact Or.inl inside
  · rw [NameTable.size, names, Array.size_push] at inside
    rcases Nat.lt_succ_iff_lt_or_eq.mp inside with old | last
    · exact Or.inl old
    · exact Or.inr (by cases t; simp_all [NameTable.size])

theorem terminal_cases (step : declared.terminal name = .ok (s, next)) :
    (s = .eof ∧ next = declared) ∨
      ∃ registered, declared.register name = .ok (s, registered) ∧
        ¬ s ∈ declared.nonterminals.items ∧
        next = { registered with terminals := declared.terminals.insert s } := by
  unfold terminal at step
  split at step
  · cases step
    exact Or.inl ⟨rfl, rfl⟩
  · obtain ⟨⟨t, registered⟩, register, rest⟩ := bind_eq_ok_iff.mp step
    have others := (register_cases register).2.1
    rw [others] at rest
    simp only [OrderedSet.contains, decide_eq_true_eq] at rest
    split at rest
    · cases rest
    · next absent =>
      cases rest
      exact Or.inr ⟨registered, register, absent, by rw [others]⟩

theorem nonterminal_cases (step : declared.nonterminal name = .ok (s, next)) :
    ∃ registered, declared.register name = .ok (s, registered) ∧
      ¬ s ∈ declared.terminals.items ∧
      next = { registered with nonterminals := declared.nonterminals.insert s } := by
  obtain ⟨⟨t, registered⟩, register, rest⟩ := bind_eq_ok_iff.mp step
  have others := (register_cases register).2.1
  rw [others] at rest
  simp only [OrderedSet.contains, decide_eq_true_eq] at rest
  split at rest
  · cases rest
  · next absent =>
    cases rest
    exact ⟨registered, register, absent, by rw [others]⟩

theorem designateStart_cases (step : declared.designateStart s = .ok next) :
    s ∈ declared.nonterminals.items ∧ next = { declared with start := some s } := by
  unfold designateStart at step
  split at step
  · next listed =>
    cases step
    exact ⟨by simpa [OrderedSet.contains] using listed, rfl⟩
  · obtain ⟨name, -, rest⟩ := bind_eq_ok_iff.mp step
    cases rest

/-- A registered symbol has a name that is not reserved, and the others keep theirs. -/
theorem named_of_register (registered : declared.register name = .ok (s, next)) :
    declared.names.size ≤ next.names.size ∧ s.id < next.names.size ∧ s.isReserved = false := by
  obtain ⟨-, -, interned⟩ := register_cases registered
  exact ⟨(NameTable.extends_of_intern interned).size_le,
    NameTable.lt_size_of_name? (NameTable.name?_of_intern interned),
    not_isReserved_of_register registered⟩

theorem Sound.terminal (sound : declared.Sound) (step : declared.terminal name = .ok (s, next)) :
    next.Sound := by
  -- the name of the end of input declares nothing
  rcases terminal_cases step with ⟨-, rfl⟩ | ⟨registered, register, absent, rfl⟩
  · exact sound
  obtain ⟨grown, inside, unreserved⟩ := named_of_register register
  have others := (register_cases register).2.1
  rw [others]
  constructor
  · intro t named free
    rw [OrderedSet.mem_items_insert]
    rcases lt_size_or_eq register named with old | rfl
    · rcases sound.declared_of_lt old free with terminal | nonterminal
      · exact Or.inl (Or.inl terminal)
      · exact Or.inr nonterminal
    · exact Or.inl (Or.inr rfl)
  · intro t listed
    rcases (OrderedSet.mem_items_insert _ _ _).mp listed with old | rfl
    · have := sound.terminal_named old
      exact ⟨Nat.lt_of_lt_of_le this.1 grown, this.2⟩
    · exact ⟨inside, unreserved⟩
  · intro t listed
    have := sound.nonterminal_named listed
    exact ⟨Nat.lt_of_lt_of_le this.1 grown, this.2⟩
  · intro t listed
    rcases (OrderedSet.mem_items_insert _ _ _).mp listed with old | rfl
    · exact sound.apart old
    · exact absent
  · intro t start
    exact sound.start_declared start

theorem Sound.nonterminal (sound : declared.Sound)
    (step : declared.nonterminal name = .ok (s, next)) : next.Sound := by
  obtain ⟨registered, register, absent, rfl⟩ := nonterminal_cases step
  obtain ⟨grown, inside, unreserved⟩ := named_of_register register
  have others := (register_cases register).2.1
  rw [others]
  constructor
  · intro t named free
    rw [OrderedSet.mem_items_insert]
    rcases lt_size_or_eq register named with old | rfl
    · rcases sound.declared_of_lt old free with terminal | nonterminal
      · exact Or.inl terminal
      · exact Or.inr (Or.inl nonterminal)
    · exact Or.inr (Or.inr rfl)
  · intro t listed
    have := sound.terminal_named listed
    exact ⟨Nat.lt_of_lt_of_le this.1 grown, this.2⟩
  · intro t listed
    rcases (OrderedSet.mem_items_insert _ _ _).mp listed with old | rfl
    · have := sound.nonterminal_named old
      exact ⟨Nat.lt_of_lt_of_le this.1 grown, this.2⟩
    · exact ⟨inside, unreserved⟩
  · intro t listed
    rw [OrderedSet.mem_items_insert]
    rintro (old | rfl)
    · exact sound.apart listed old
    · exact absent listed
  · intro t start
    exact (OrderedSet.mem_items_insert _ _ _).mpr (Or.inl (sound.start_declared start))

theorem Sound.designateStart (sound : declared.Sound)
    (step : declared.designateStart s = .ok next) : next.Sound := by
  obtain ⟨listed, rfl⟩ := designateStart_cases step
  refine ⟨sound.declared_of_lt, sound.terminal_named, sound.nonterminal_named, sound.apart, ?_⟩
  intro t start
  cases start
  exact listed

/-- The start symbol that is chosen at the end is a nonterminal. -/
theorem Sound.startSymbol (sound : declared.Sound) (chosen : declared.startSymbol = .ok s) :
    s ∈ declared.nonterminals.items := by
  unfold Declarations.startSymbol at chosen
  split at chosen
  · next designated =>
    cases chosen
    exact sound.start_declared designated
  · split at chosen
    · next first =>
      cases chosen
      exact List.mem_of_mem_head? first
    · cases chosen

end Declarations

/-! ### Definitions -/

namespace Definition

variable {definition next : Definition} {s : Symbol} {name : String} {right : List Symbol}

/-- The definitions that any number of steps can lead to. -/
inductive Built : Definition → Prop where
  /-- Nothing is declared. -/
  | empty : Built .empty
  /-- A terminal is declared. -/
  | terminal {definition next : Definition} {name : String} {s : Symbol}
      (before : Built definition) (step : definition.terminal name = .ok (s, next)) : Built next
  /-- A nonterminal is declared. -/
  | nonterminal {definition next : Definition} {name : String} {s : Symbol}
      (before : Built definition) (step : definition.nonterminal name = .ok (s, next)) : Built next
  /-- An alternative is added. -/
  | rule {definition next : Definition} {left : Symbol} {right : List Symbol}
      (before : Built definition) (step : definition.rule left right = .ok next) : Built next
  /-- The start symbol is designated. -/
  | designateStart {definition next : Definition} {s : Symbol}
      (before : Built definition) (step : definition.designateStart s = .ok next) : Built next

/-- What holds of a definition after every step. -/
structure Sound (definition : Definition) : Prop where
  /-- The declared symbols are in order. -/
  declared : definition.declared.Sound
  /-- The declared nonterminals are those with a production. -/
  mem_keys_iff : ∀ {s}, s ∈ definition.rules.keys ↔ s ∈ definition.declared.nonterminals.items

theorem sound_empty : empty.Sound :=
  ⟨Declarations.sound_empty, by simp [empty, OrderedMap.keys, OrderedMap.empty,
    Declarations.empty, OrderedSet.empty]⟩

theorem Sound.terminal (sound : definition.Sound)
    (step : definition.terminal name = .ok (s, next)) : next.Sound := by
  obtain ⟨⟨t, declared⟩, declare, rest⟩ := bind_eq_ok_iff.mp step
  cases rest
  refine ⟨sound.declared.terminal declare, ?_⟩
  rcases Declarations.terminal_cases declare with ⟨-, rfl⟩ | ⟨registered, register, -, rfl⟩
  · exact sound.mem_keys_iff
  · rw [(Declarations.register_cases register).2.1]
    exact sound.mem_keys_iff

theorem Sound.nonterminal (sound : definition.Sound)
    (step : definition.nonterminal name = .ok (s, next)) : next.Sound := by
  obtain ⟨⟨t, declared⟩, declare, rest⟩ := bind_eq_ok_iff.mp step
  have declaredSound := sound.declared.nonterminal declare
  obtain ⟨registered, register, -, rfl⟩ := Declarations.nonterminal_cases declare
  dsimp only at rest
  -- a nonterminal that is declared again keeps its alternatives
  split at rest
  · next known =>
    cases rest
    refine ⟨declaredSound, ?_⟩
    intro r
    rw [OrderedSet.mem_items_insert, sound.mem_keys_iff]
    simp only [OrderedSet.contains, decide_eq_true_eq] at known
    exact ⟨Or.inl, fun listed => listed.elim id fun same => same ▸ known⟩
  · cases rest
    refine ⟨declaredSound, ?_⟩
    intro r
    rw [OrderedMap.mem_keys_insert, OrderedSet.mem_items_insert, sound.mem_keys_iff, or_comm]

theorem rule_cases {left : Symbol} (step : definition.rule left right = .ok next) :
    ∃ alternatives, definition.rules.get? left = some alternatives ∧
      next = { definition with
        rules := definition.rules.insert left (alternatives ++ [.ofSymbols right]) } := by
  unfold rule at step
  dsimp only at step
  split at step
  · cases step
  · split at step
    · next alternatives found =>
      cases step
      exact ⟨alternatives, found, rfl⟩
    · obtain ⟨name, -, rest⟩ := bind_eq_ok_iff.mp step
      cases rest

theorem Sound.rule {left : Symbol} (sound : definition.Sound)
    (step : definition.rule left right = .ok next) : next.Sound := by
  obtain ⟨alternatives, found, rfl⟩ := rule_cases step
  refine ⟨sound.declared, ?_⟩
  intro r
  have known : left ∈ definition.rules.keys := OrderedMap.get?_isSome_iff.mp (by rw [found]; rfl)
  rw [OrderedMap.keys_insert_of_mem known]
  exact sound.mem_keys_iff

theorem Sound.designateStart (sound : definition.Sound)
    (step : definition.designateStart s = .ok next) : next.Sound := by
  obtain ⟨declared, designate, rest⟩ := bind_eq_ok_iff.mp step
  cases rest
  refine ⟨sound.declared.designateStart designate, ?_⟩
  obtain ⟨-, rfl⟩ := Declarations.designateStart_cases designate
  exact sound.mem_keys_iff

/-- Every definition that can be built is sound. -/
theorem Built.sound (built : definition.Built) : definition.Sound := by
  induction built with
  | empty => exact sound_empty
  | terminal _ step ih => exact ih.terminal step
  | nonterminal _ step ih => exact ih.nonterminal step
  | rule _ step ih => exact ih.rule step
  | designateStart _ step ih => exact ih.designateStart step

theorem checkProduction_cases {alternatives : List Alternative}
    (checked : definition.checkProduction s alternatives = .ok ()) :
    alternatives ≠ [] ∧
      ∀ alternative ∈ alternatives, ∀ t ∈ alternative.symbols, definition.isDeclared t = true := by
  unfold checkProduction at checked
  split at checked
  · obtain ⟨name, -, rest⟩ := bind_eq_ok_iff.mp checked
    cases rest
  · next nonempty =>
    refine ⟨by simpa using nonempty, ?_⟩
    split at checked
    · next found =>
      intro alternative member t listed
      have declared := List.find?_eq_none.mp found t
        (List.mem_flatMap.mpr ⟨alternative, member, listed⟩)
      simpa using declared
    · obtain ⟨name, -, rest⟩ := bind_eq_ok_iff.mp checked
      obtain ⟨name', -, rest'⟩ := bind_eq_ok_iff.mp rest
      cases rest'

theorem finish_cases {grammar : Grammar} (finished : definition.finish = .ok grammar) :
    ∃ start, definition.declared.startSymbol = .ok start ∧
      (∀ entry ∈ definition.rules.entries,
        definition.checkProduction entry.1 entry.2 = .ok ()) ∧
      grammar = ⟨definition.declared.names, definition.declared.terminals, definition.rules,
        start⟩ := by
  obtain ⟨start, chosen, rest⟩ := bind_eq_ok_iff.mp finished
  obtain ⟨_, checked, last⟩ := bind_eq_ok_iff.mp rest
  cases last
  exact ⟨start, chosen, forM_eq_ok_iff.mp checked, rfl⟩

/-- A completed definition is well formed. -/
theorem Built.wellFormed {grammar : Grammar} (built : definition.Built)
    (finished : definition.finish = .ok grammar) : grammar.WellFormed := by
  have sound := built.sound
  obtain ⟨start, chosen, checked, rfl⟩ := finish_cases finished
  have nonterminal_iff : ∀ {s}, OrderedMap.contains definition.rules s = true ↔
      s ∈ definition.declared.nonterminals.items := fun {s} =>
    OrderedMap.contains_iff.trans sound.mem_keys_iff
  constructor
  · exact nonterminal_iff.mpr (sound.declared.startSymbol chosen)
  · intro s alternatives found
    exact (checkProduction_cases (checked (s, alternatives)
      (OrderedMap.mem_entries_iff.mpr found))).1
  · rintro s alternative ⟨alternatives, found, member⟩ t listed
    have declared := (checkProduction_cases (checked (s, alternatives)
      (OrderedMap.mem_entries_iff.mpr found))).2 alternative member t listed
    simp only [isDeclared, Bool.or_eq_true] at declared
    rcases declared with terminal | nonterminal
    · exact Or.inl (by simpa [Grammar.isTerminal] using terminal)
    · exact Or.inr (nonterminal_iff.mpr (by simpa [OrderedSet.contains] using nonterminal))
  · intro s listed
    by_contra both
    rw [Bool.not_eq_false] at both
    exact sound.declared.apart listed (nonterminal_iff.mp both)
  · intro s listed
    exact (sound.declared.terminal_named listed).2
  · intro s nonterminal
    exact (sound.declared.nonterminal_named (nonterminal_iff.mp nonterminal)).2
  · rintro s (terminal | nonterminal)
    · rcases Grammar.isTerminal_iff.mp terminal with rfl | listed
      · exact NameTable.lt_size_of_name? NameTable.name?_eof
      · exact (sound.declared.terminal_named listed).1
    · exact (sound.declared.nonterminal_named (nonterminal_iff.mp nonterminal)).1

end Definition

/-! ### Named rules and texts -/

namespace Source

variable {definition next : Definition} {heads : List (String × Symbol)}

theorem built_declareHeads {names : List String} (built : definition.Built)
    (step : declareHeads names definition = .ok (heads, next)) : next.Built := by
  induction names generalizing definition heads with
  | nil =>
    cases step
    exact built
  | cons name rest ih =>
    obtain ⟨⟨s, declared⟩, declare, step'⟩ := bind_eq_ok_iff.mp step
    obtain ⟨⟨others, last⟩, declareRest, final⟩ := bind_eq_ok_iff.mp step'
    cases final
    exact ih (built.nonterminal declare) declareRest

theorem built_designate {start : Option String} (built : definition.Built)
    (step : designate start heads definition = .ok next) : next.Built := by
  unfold designate at step
  split at step
  · cases step
    exact built
  · split at step
    · exact built.designateStart step
    · cases step

theorem built_resolve {words : List String} {symbols : List Symbol} (built : definition.Built)
    (step : resolve heads words definition = .ok (symbols, next)) : next.Built := by
  induction words generalizing definition symbols with
  | nil =>
    cases step
    exact built
  | cons word rest ih =>
    rw [resolve] at step
    -- the word names a rule, or it is declared as a terminal
    split at step
    · obtain ⟨⟨s, declared⟩, declare, step'⟩ := bind_eq_ok_iff.mp step
      obtain ⟨⟨others, last⟩, resolveRest, final⟩ := bind_eq_ok_iff.mp step'
      cases declare
      cases final
      exact ih built resolveRest
    · obtain ⟨⟨s, declared⟩, declare, step'⟩ := bind_eq_ok_iff.mp step
      obtain ⟨⟨others, last⟩, resolveRest, final⟩ := bind_eq_ok_iff.mp step'
      cases final
      exact ih (built.terminal declare) resolveRest

theorem built_addAlternatives {left : Symbol} {texts : List String} (built : definition.Built)
    (step : addAlternatives heads left texts definition = .ok next) : next.Built := by
  induction texts generalizing definition with
  | nil =>
    cases step
    exact built
  | cons text rest ih =>
    obtain ⟨⟨symbols, resolved⟩, resolveText, step'⟩ := bind_eq_ok_iff.mp step
    obtain ⟨added, addRule, final⟩ := bind_eq_ok_iff.mp step'
    exact ih ((built_resolve built resolveText).rule addRule) final

theorem built_addRules {rules : List ((String × Symbol) × List String)} (built : definition.Built)
    (step : addRules heads rules definition = .ok next) : next.Built := by
  induction rules generalizing definition with
  | nil =>
    cases step
    exact built
  | cons rule rest ih =>
    obtain ⟨added, addRule, final⟩ := bind_eq_ok_iff.mp step
    exact ih (built_addAlternatives built addRule) final

end Source

namespace Grammar

variable {grammar : Grammar}

/-- The grammars of named rules are well formed. -/
theorem wellFormed_of_ofSource {source : Source} (defined : ofSource source = .ok grammar) :
    grammar.WellFormed := by
  obtain ⟨⟨heads, declared⟩, declare, step⟩ := bind_eq_ok_iff.mp defined
  obtain ⟨designated, designate, step'⟩ := bind_eq_ok_iff.mp step
  obtain ⟨ruled, addRules, finished⟩ := bind_eq_ok_iff.mp step'
  have built := Source.built_designate (Source.built_declareHeads .empty declare) designate
  exact (Source.built_addRules built addRules).wellFormed finished

/-- The grammars of texts are well formed. -/
theorem wellFormed_of_ofText {text : String} (defined : ofText text = .ok grammar) :
    grammar.WellFormed := by
  obtain ⟨source, -, convert⟩ := bind_eq_ok_iff.mp defined
  exact wellFormed_of_ofSource convert

/-- A text that is accepted defines a well-formed grammar, of which a computed check holds. -/
theorem exists_of_ofText (text : String) (check : Grammar → Bool)
    (passes : (ofText text).toOption.any check = true) :
    ∃ grammar, ofText text = .ok grammar ∧ grammar.WellFormed ∧ check grammar = true := by
  cases defined : ofText text with
  | ok grammar =>
    rw [defined] at passes
    exact ⟨grammar, rfl, wellFormed_of_ofText defined, passes⟩
  | error error =>
    rw [defined] at passes
    cases passes

end Grammar

end Predictive
