import Predictive.Ebnf.Grammar
import Predictive.Proofs.WellFormed

/-!
# Well-formed EBNF grammars

Every EBNF grammar that is defined step by step is well formed: its start symbol has an
expression, expressions use symbols as what they were declared to be, no choice is empty, and
every name belongs to a declared symbol.

## Main definitions

* `EbnfGrammar.Admits` — an expression that uses the symbols of a grammar as declared
* `EbnfGrammar.WellFormed` — what holds of every EBNF grammar that was defined
* `EbnfDefinition.Built` — the definitions that any number of steps can lead to

## Main results

* `EbnfDefinition.check_eq_ok_iff` — what the check of an expression asks for
* `EbnfDefinition.Built.wellFormed` — a completed definition is well formed
* `EbnfDefinition.exists_of_ofSteps` — so is the grammar of a list of steps that are accepted
-/

namespace Predictive

namespace EbnfGrammar

variable {grammar : EbnfGrammar} {s : Symbol}

mutual

/-- An expression that uses the symbols of a grammar as declared, and offers something in every
choice. -/
def Admits (grammar : EbnfGrammar) : Expr → Prop
  | .terminal s => grammar.isTerminal s = true
  | .nonterminal s => grammar.isNonterminal s = true
  | .chain parts => grammar.AdmitsAll parts
  | .choice parts => parts ≠ [] ∧ grammar.AdmitsAll parts
  | .optional body => grammar.Admits body
  | .zeroOrMore body => grammar.Admits body
  | .oneOrMore body => grammar.Admits body

/-- A list of such expressions. -/
def AdmitsAll (grammar : EbnfGrammar) : List Expr → Prop
  | [] => True
  | part :: rest => grammar.Admits part ∧ grammar.AdmitsAll rest

end

/-- What holds of every EBNF grammar that was defined. -/
structure WellFormed (grammar : EbnfGrammar) : Prop where
  /-- The start symbol has an expression. -/
  start_isNonterminal : grammar.isNonterminal grammar.start = true
  /-- Expressions use symbols as declared. -/
  admits : ∀ {s expr}, grammar.expression? s = some expr → grammar.Admits expr
  /-- No terminal has an expression. -/
  apart : ∀ {s}, s ∈ grammar.terminals.items → grammar.isNonterminal s = false
  /-- The terminals have names that are not reserved. -/
  terminal_named : ∀ {s}, s ∈ grammar.terminals.items →
    s.id < grammar.names.size ∧ s.isReserved = false
  /-- The nonterminals have names that are not reserved. -/
  nonterminal_named : ∀ {s}, grammar.isNonterminal s = true →
    s.id < grammar.names.size ∧ s.isReserved = false
  /-- Every name that is not reserved belongs to a declared symbol. -/
  declared_of_lt : ∀ {s : Symbol}, s.id < grammar.names.size → s.isReserved = false →
    s ∈ grammar.terminals.items ∨ grammar.isNonterminal s = true

theorem isTerminal_iff : grammar.isTerminal s = true ↔ s = .eof ∨ s ∈ grammar.terminals.items := by
  simp [isTerminal, OrderedSet.contains]

/-- No terminal, and not the end of input, has an expression. -/
theorem WellFormed.not_isNonterminal (wellFormed : grammar.WellFormed)
    (terminal : grammar.isTerminal s = true) : grammar.isNonterminal s = false := by
  rcases isTerminal_iff.mp terminal with rfl | member
  · by_contra nonterminal
    rw [Bool.not_eq_false] at nonterminal
    exact absurd (wellFormed.nonterminal_named nonterminal).2 (by decide)
  · exact wellFormed.apart member

theorem WellFormed.expression?_eq_none (wellFormed : grammar.WellFormed)
    (terminal : grammar.isTerminal s = true) : grammar.expression? s = none :=
  Option.not_isSome_iff_eq_none.mp (Bool.eq_false_iff.mp (wellFormed.not_isNonterminal terminal))

theorem exists_expression? (nonterminal : grammar.isNonterminal s = true) :
    ∃ expr, grammar.expression? s = some expr :=
  Option.isSome_iff_exists.mp nonterminal

end EbnfGrammar

namespace EbnfDefinition

variable {definition next : EbnfDefinition} {s left : Symbol} {name : String} {expr : Expr}

/-- The definitions that any number of steps can lead to. -/
inductive Built : EbnfDefinition → Prop where
  /-- Nothing is declared. -/
  | empty : Built .empty
  /-- A terminal is declared. -/
  | terminal {definition next : EbnfDefinition} {name : String} {s : Symbol}
      (before : Built definition) (step : definition.terminal name = .ok (s, next)) : Built next
  /-- A nonterminal is declared. -/
  | nonterminal {definition next : EbnfDefinition} {name : String} {s : Symbol}
      (before : Built definition) (step : definition.nonterminal name = .ok (s, next)) : Built next
  /-- A nonterminal is given its expression. -/
  | rule {definition next : EbnfDefinition} {left : Symbol} {expr : Expr}
      (before : Built definition) (step : definition.rule left expr = .ok next) : Built next
  /-- The start symbol is designated. -/
  | designateStart {definition next : EbnfDefinition} {s : Symbol}
      (before : Built definition) (step : definition.designateStart s = .ok next) : Built next

/-- What holds of a definition after every step. -/
structure Sound (definition : EbnfDefinition) : Prop where
  /-- The declared symbols are in order. -/
  declared : definition.declared.Sound
  /-- Expressions are given to nonterminals only. -/
  mem_nonterminals : ∀ {s}, s ∈ definition.rules.keys → s ∈ definition.declared.nonterminals.items

theorem rule_cases (step : definition.rule left expr = .ok next) :
    left ∈ definition.declared.nonterminals.items ∧
      next = { definition with rules := definition.rules.insert left expr } := by
  unfold rule at step
  split at step
  · obtain ⟨name, -, rest⟩ := bind_eq_ok_iff.mp step
    cases rest
  · next listed =>
    split at step
    · obtain ⟨name, -, rest⟩ := bind_eq_ok_iff.mp step
      cases rest
    · cases step
      exact ⟨by simpa [OrderedSet.contains] using listed, rfl⟩

/-- Every definition that can be built is sound. -/
theorem Built.sound (built : definition.Built) : definition.Sound := by
  induction built with
  | empty =>
    exact ⟨Declarations.sound_empty, by
      simp [EbnfDefinition.empty, OrderedMap.keys, OrderedMap.empty]⟩
  | terminal _ step ih =>
    obtain ⟨⟨t, declared⟩, declare, rest⟩ := bind_eq_ok_iff.mp step
    cases rest
    refine ⟨ih.declared.terminal declare, fun listed => ?_⟩
    have known := ih.mem_nonterminals listed
    rcases Declarations.terminal_cases declare with ⟨-, rfl⟩ | ⟨registered, register, -, rfl⟩
    · exact known
    · rw [(Declarations.register_cases register).2.1]
      exact known
  | nonterminal _ step ih =>
    obtain ⟨⟨t, declared⟩, declare, rest⟩ := bind_eq_ok_iff.mp step
    cases rest
    refine ⟨ih.declared.nonterminal declare, fun listed => ?_⟩
    obtain ⟨registered, register, -, rfl⟩ := Declarations.nonterminal_cases declare
    exact (OrderedSet.mem_items_insert _ _ _).mpr (Or.inl (ih.mem_nonterminals listed))
  | rule _ step ih =>
    obtain ⟨nonterminal, rfl⟩ := rule_cases step
    refine ⟨ih.declared, fun listed => ?_⟩
    rcases OrderedMap.mem_keys_insert.mp listed with rfl | old
    · exact nonterminal
    · exact ih.mem_nonterminals old
  | designateStart _ step ih =>
    obtain ⟨declared, designate, rest⟩ := bind_eq_ok_iff.mp step
    cases rest
    refine ⟨ih.declared.designateStart designate, fun listed => ?_⟩
    obtain ⟨-, rfl⟩ := Declarations.designateStart_cases designate
    exact ih.mem_nonterminals listed

/-! ### The final check -/

theorem isKnown_of_named (inside : s.id < definition.declared.names.size)
    (unreserved : s.isReserved = false) : definition.isKnown s = true := by
  have proper : s ≠ .epsilon := by
    rintro rfl
    exact absurd unreserved (by decide)
  simp [isKnown, inside, proper]

theorem checkTerminal_eq_ok_iff (sound : definition.Sound) :
    definition.checkTerminal left s = .ok () ↔
      s = .eof ∨ s ∈ definition.declared.terminals.items := by
  have known : s = .eof ∨ s ∈ definition.declared.terminals.items →
      definition.isKnown s = true := by
    rintro (rfl | listed)
    · have inside := NameTable.lt_size_of_name? (@NameTable.name?_eof definition.declared.names)
      simp only [isKnown, inside, decide_true, Bool.true_and]
      decide
    · have named := sound.declared.terminal_named listed
      exact isKnown_of_named named.1 named.2
  unfold checkTerminal
  split
  · next unknown =>
    refine iff_of_false (fun checked => ?_) fun allowed => by simp [known allowed] at unknown
    obtain ⟨name, -, rest⟩ := bind_eq_ok_iff.mp checked
    obtain ⟨name', -, rest'⟩ := bind_eq_ok_iff.mp rest
    cases rest'
  · split
    · next other =>
      refine iff_of_false (fun checked => ?_) ?_
      · obtain ⟨name, -, rest⟩ := bind_eq_ok_iff.mp checked
        cases rest
      · simpa [OrderedSet.contains] using other
    · next allowed =>
      refine iff_of_true rfl ?_
      simpa [OrderedSet.contains, or_iff_not_imp_left] using allowed

theorem checkNonterminal_eq_ok_iff (sound : definition.Sound) :
    definition.checkNonterminal left s = .ok () ↔
      s ∈ definition.declared.nonterminals.items := by
  have known : s ∈ definition.declared.nonterminals.items → definition.isKnown s = true := by
    intro listed
    have named := sound.declared.nonterminal_named listed
    exact isKnown_of_named named.1 named.2
  unfold checkNonterminal
  split
  · next unknown =>
    refine iff_of_false (fun checked => ?_) fun listed => by simp [known listed] at unknown
    obtain ⟨name, -, rest⟩ := bind_eq_ok_iff.mp checked
    obtain ⟨name', -, rest'⟩ := bind_eq_ok_iff.mp rest
    cases rest'
  · split
    · next other =>
      refine iff_of_false (fun checked => ?_) (by simpa [OrderedSet.contains] using other)
      obtain ⟨name, -, rest⟩ := bind_eq_ok_iff.mp checked
      cases rest
    · next allowed =>
      exact iff_of_true rfl (by simpa [OrderedSet.contains] using allowed)

/-- The kinds of symbols in a grammar are those that were declared. -/
structure Kinds (definition : EbnfDefinition) (grammar : EbnfGrammar) : Prop where
  /-- The declared terminals. -/
  terminal_iff : ∀ {s}, grammar.isTerminal s = true ↔
    s = .eof ∨ s ∈ definition.declared.terminals.items
  /-- The declared nonterminals. -/
  nonterminal_iff : ∀ {s}, grammar.isNonterminal s = true ↔
    s ∈ definition.declared.nonterminals.items

mutual

/-- The check of an expression asks that it uses symbols as declared. -/
theorem check_eq_ok_iff {grammar : EbnfGrammar} (sound : definition.Sound)
    (kinds : definition.Kinds grammar) : ∀ expr : Expr,
    definition.check left expr = .ok () ↔ grammar.Admits expr
  | .terminal s => by
    rw [check, EbnfGrammar.Admits, checkTerminal_eq_ok_iff sound, kinds.terminal_iff]
  | .nonterminal s => by
    rw [check, EbnfGrammar.Admits, checkNonterminal_eq_ok_iff sound, kinds.nonterminal_iff]
  | .chain parts => by
    rw [check, EbnfGrammar.Admits]
    exact checkAll_eq_ok_iff sound kinds parts
  | .choice parts => by
    rw [check, EbnfGrammar.Admits, ← checkAll_eq_ok_iff sound kinds parts]
    split
    · next empty =>
      refine iff_of_false (fun checked => ?_) fun allowed => allowed.1 (by simpa using empty)
      obtain ⟨name, -, rest⟩ := bind_eq_ok_iff.mp checked
      cases rest
    · next nonempty => simp_all
  | .optional body => by
    rw [check, EbnfGrammar.Admits]
    exact check_eq_ok_iff sound kinds body
  | .zeroOrMore body => by
    rw [check, EbnfGrammar.Admits]
    exact check_eq_ok_iff sound kinds body
  | .oneOrMore body => by
    rw [check, EbnfGrammar.Admits]
    exact check_eq_ok_iff sound kinds body

theorem checkAll_eq_ok_iff {grammar : EbnfGrammar} (sound : definition.Sound)
    (kinds : definition.Kinds grammar) : ∀ parts : List Expr,
    definition.checkAll left parts = .ok () ↔ grammar.AdmitsAll parts
  | [] => by simp [checkAll, EbnfGrammar.AdmitsAll]
  | part :: rest => by
    rw [checkAll, EbnfGrammar.AdmitsAll, bind_eq_ok_iff, ← check_eq_ok_iff sound kinds part,
      ← checkAll_eq_ok_iff sound kinds rest]
    exact ⟨fun ⟨_, first, others⟩ => ⟨first, others⟩, fun ⟨first, others⟩ => ⟨(), first, others⟩⟩

end

theorem finish_cases {grammar : EbnfGrammar} (finished : definition.finish = .ok grammar) :
    ∃ start, definition.declared.startSymbol = .ok start ∧
      (∀ s ∈ definition.declared.nonterminals.items, definition.checkDefined s = .ok ()) ∧
      (∀ entry ∈ definition.rules.entries, definition.check entry.1 entry.2 = .ok ()) ∧
      grammar = ⟨definition.declared.names, definition.declared.terminals, definition.arranged,
        start⟩ := by
  obtain ⟨start, chosen, rest⟩ := bind_eq_ok_iff.mp finished
  obtain ⟨_, complete, rest'⟩ := bind_eq_ok_iff.mp rest
  obtain ⟨_, checked, last⟩ := bind_eq_ok_iff.mp rest'
  cases last
  exact ⟨start, chosen, forM_eq_ok_iff.mp complete, forM_eq_ok_iff.mp checked, rfl⟩

/-- The removals give the expressions in the order in which their nonterminals were declared. -/
theorem arranged_eq : definition.arranged =
    OrderedMap.empty.insertAll (definition.declared.nonterminals.items.filterMap fun s =>
      (definition.rules.get? s).map fun expr => (s, expr)) := by
  rw [arranged, OrderedMap.drain_eq definition.declared.nonterminals.nodup]

/-- The expressions are the same in the order of their nonterminals. -/
theorem get?_arranged (sound : definition.Sound) :
    definition.arranged.get? s = definition.rules.get? s := by
  rw [arranged_eq, OrderedMap.get?_insertAll_filterMap]
  split
  · simp
  · next unlisted =>
    symm
    rw [OrderedMap.get?_empty, OrderedMap.get?_eq_none_iff]
    exact fun listed => unlisted (sound.mem_nonterminals listed)

/-- A completed definition is well formed. -/
theorem Built.wellFormed {grammar : EbnfGrammar} (built : definition.Built)
    (finished : definition.finish = .ok grammar) : grammar.WellFormed := by
  have sound := built.sound
  obtain ⟨start, chosen, complete, checked, rfl⟩ := finish_cases finished
  have nonterminal_iff : ∀ {s}, OrderedMap.contains definition.arranged s = true ↔
      s ∈ definition.declared.nonterminals.items := by
    intro s
    rw [OrderedMap.contains, get?_arranged sound, ← OrderedMap.contains, OrderedMap.contains_iff]
    refine ⟨sound.mem_nonterminals, fun listed => OrderedMap.contains_iff.mp ?_⟩
    have given := complete s listed
    unfold checkDefined at given
    split at given
    · assumption
    · obtain ⟨name, -, rest⟩ := bind_eq_ok_iff.mp given
      cases rest
  constructor
  · exact nonterminal_iff.mpr (sound.declared.startSymbol chosen)
  · intro s expr found
    rw [EbnfGrammar.expression?, get?_arranged sound] at found
    have kinds : definition.Kinds ⟨definition.declared.names, definition.declared.terminals,
        definition.arranged, start⟩ := ⟨EbnfGrammar.isTerminal_iff, nonterminal_iff⟩
    exact (check_eq_ok_iff sound kinds expr).mp
      (checked (s, expr) (OrderedMap.mem_entries_iff.mpr found))
  · intro s listed
    by_contra both
    rw [Bool.not_eq_false] at both
    exact sound.declared.apart listed (nonterminal_iff.mp both)
  · exact sound.declared.terminal_named
  · exact fun nonterminal => sound.declared.nonterminal_named (nonterminal_iff.mp nonterminal)
  · intro s inside unreserved
    exact (sound.declared.declared_of_lt inside unreserved).imp id nonterminal_iff.mpr

/-! ### Definitions by a list of steps -/

/-- One step of a definition. -/
inductive Step where
  /-- Declare a terminal. -/
  | terminal (name : String)
  /-- Declare a nonterminal. -/
  | nonterminal (name : String)
  /-- Give a nonterminal its expression. -/
  | rule (left : Symbol) (expr : Expr)
  /-- Designate the start symbol. -/
  | start (s : Symbol)

/-- Take a step. -/
def take (definition : EbnfDefinition) : Step → Except GrammarError EbnfDefinition
  | .terminal name => do return (← definition.terminal name).2
  | .nonterminal name => do return (← definition.nonterminal name).2
  | .rule left expr => definition.rule left expr
  | .start s => definition.designateStart s

/-- The grammar that a list of steps defines. -/
def ofSteps (steps : List Step) : Except GrammarError EbnfGrammar := do
  (← steps.foldlM take .empty).finish

theorem Built.take {step : Step} (built : definition.Built)
    (taken : definition.take step = .ok next) : next.Built := by
  cases step with
  | terminal name =>
    obtain ⟨⟨s, declared⟩, declare, rest⟩ := bind_eq_ok_iff.mp taken
    cases rest
    exact .terminal built declare
  | nonterminal name =>
    obtain ⟨⟨s, declared⟩, declare, rest⟩ := bind_eq_ok_iff.mp taken
    cases rest
    exact .nonterminal built declare
  | rule left expr => exact .rule built taken
  | start s => exact .designateStart built taken

theorem Built.foldlM_take {steps : List Step} (built : definition.Built)
    (taken : steps.foldlM EbnfDefinition.take definition = .ok next) : next.Built := by
  induction steps generalizing definition with
  | nil =>
    cases taken
    exact built
  | cons step rest ih =>
    rw [List.foldlM_cons] at taken
    obtain ⟨middle, first, others⟩ := bind_eq_ok_iff.mp taken
    exact ih (built.take first) others

/-- Steps that are accepted define a well-formed grammar, of which a computed check holds. -/
theorem exists_of_ofSteps (steps : List Step) (check : EbnfGrammar → Bool)
    (passes : (ofSteps steps).toOption.any check = true) :
    ∃ grammar, ofSteps steps = .ok grammar ∧ grammar.WellFormed ∧ check grammar = true := by
  cases defined : ofSteps steps with
  | ok grammar =>
    rw [defined] at passes
    obtain ⟨definition, taken, finished⟩ := bind_eq_ok_iff.mp defined
    exact ⟨grammar, rfl, (Built.empty.foldlM_take taken).wellFormed finished, passes⟩
  | error error =>
    rw [defined] at passes
    cases passes

/-- Every rule of a definition was given by a step. -/
theorem rule_mem_of_foldlM {steps : List Step}
    (taken : steps.foldlM EbnfDefinition.take definition = .ok next)
    (found : next.rules.get? s = some expr) :
    definition.rules.get? s = some expr ∨ .rule s expr ∈ steps := by
  induction steps generalizing definition with
  | nil =>
    cases taken
    exact Or.inl found
  | cons step rest ih =>
    rw [List.foldlM_cons] at taken
    obtain ⟨middle, first, others⟩ := bind_eq_ok_iff.mp taken
    rcases ih others with known | given
    · cases step with
      | terminal name =>
        obtain ⟨_, declare, kept⟩ := bind_eq_ok_iff.mp first
        obtain ⟨_, -, rest⟩ := bind_eq_ok_iff.mp declare
        cases kept
        cases rest
        exact Or.inl known
      | nonterminal name =>
        obtain ⟨_, declare, kept⟩ := bind_eq_ok_iff.mp first
        obtain ⟨_, -, rest⟩ := bind_eq_ok_iff.mp declare
        cases kept
        cases rest
        exact Or.inl known
      | rule left given =>
        obtain ⟨-, rfl⟩ := rule_cases first
        rw [OrderedMap.get?_insert] at known
        split at known
        · next same =>
          rw [same, Option.some.inj known]
          exact Or.inr List.mem_cons_self
        · exact Or.inl known
      | start t =>
        obtain ⟨_, -, rest⟩ := bind_eq_ok_iff.mp first
        cases rest
        exact Or.inl known
    · exact Or.inr (List.mem_cons_of_mem _ given)

/-- Every expression of a grammar was given by a step. -/
theorem rule_mem_of_ofSteps {steps : List Step} {grammar : EbnfGrammar}
    (defined : ofSteps steps = .ok grammar) (found : grammar.expression? s = some expr) :
    .rule s expr ∈ steps := by
  obtain ⟨definition, taken, finished⟩ := bind_eq_ok_iff.mp defined
  obtain ⟨start, -, -, -, rfl⟩ := finish_cases finished
  rw [EbnfGrammar.expression?, get?_arranged (Built.empty.foldlM_take taken).sound] at found
  rcases rule_mem_of_foldlM taken found with initially | given
  · cases initially
  · exact given

end EbnfDefinition

end Predictive
