import Predictive.Proofs.Ebnf.Site
import Predictive.Proofs.LeftFactor.Meaning

/-!
# Grammars defined by steps

A grammar is defined by any number of steps, in any order and with any symbols. A rule may use the
symbols that have a name by then, and every name was declared, so that all symbols of a rule are
declared when the definition is completed. What the final check can find is therefore that nothing
was declared, or that a nonterminal has no alternative. What passes it is well formed, and it stays
so when it is left-factored; an EBNF grammar whose new names do not collide is well formed after
lowering.

## Main definitions

* `tryAll` — any sequence of steps, some of which may fail
* `Definition.Step`, `Definition.take` — one step of a definition
* `Definition.Closed` — rules use symbols that have a name
* `Grammar.Enclosed` — alternatives are made of named symbols of the grammar

## Main results

* `Definition.Built.closed` — what holds after every step
* `Definition.Built.error_of_finish` — what the final check can find
* `Grammar.defined_wellFormed` — well-formed grammars, however they come about
-/

namespace Predictive

/-- Try steps one after the other. A step that fails leaves the state as it was. -/
def tryAll {σ α ε : Type} (take : σ → α → Except ε σ) (state : σ) (steps : List α) : σ :=
  steps.foldl (fun state step => (take state step).toOption.getD state) state

/-- What every step that succeeds preserves holds after any number of tries. -/
theorem tryAll_invariant {σ α ε : Type} {take : σ → α → Except ε σ} {steps : List α}
    (holds : σ → Prop) {state : σ} (initially : holds state)
    (preserved : ∀ {state next : σ}, ∀ step ∈ steps, holds state → take state step = .ok next →
      holds next) : holds (tryAll take state steps) := by
  induction steps generalizing state with
  | nil => exact initially
  | cons step rest ih =>
    refine ih ?_ fun later listed => preserved later (List.mem_cons_of_mem _ listed)
    dsimp only
    cases taken : take state step with
    | ok next => exact preserved step List.mem_cons_self initially taken
    | error error => exact initially

namespace Declarations

variable {α : Type} {declared next : Declarations} {s : Symbol} {name : String}
  {error : GrammarError}

theorem size_le_of_terminal (step : declared.terminal name = .ok (s, next)) :
    declared.names.size ≤ next.names.size := by
  rcases terminal_cases step with ⟨-, rfl⟩ | ⟨registered, register, -, rfl⟩
  · exact Nat.le_refl _
  · exact (named_of_register register).1

theorem size_le_of_nonterminal (step : declared.nonterminal name = .ok (s, next)) :
    declared.names.size ≤ next.names.size := by
  obtain ⟨registered, register, -, rfl⟩ := nonterminal_cases step
  exact (named_of_register register).1

/-! ### What can go wrong -/

/-- The name of a symbol is found if the table holds it. -/
theorem exists_nameOf (inside : s.id < declared.names.size) :
    ∃ name, declared.nameOf s = .ok name := by
  obtain ⟨name, named⟩ := NameTable.name?_isSome_of_lt inside
  refine ⟨name, ?_⟩
  rw [nameOf, NameTable.name_eq_ok_iff.mpr named]

/-- Otherwise looking for it is a fault. -/
theorem nameOf_of_outside (outside : declared.names.size ≤ s.id) :
    declared.nameOf s = .error (.fault (.unknownSymbol s)) := by
  have absent : declared.names.name? s = none := by
    rw [← Option.not_isSome_iff_eq_none, NameTable.name?_isSome_iff]
    exact Nat.not_lt.mpr outside
  simp only [nameOf, NameTable.name, absent]

/-- Why a name cannot be declared. -/
inductive Refuses (declared : Declarations) (name : String) : GrammarError → Prop where
  /-- It is no name. -/
  | invalid (unfit : isValidName name = false) : Refuses declared name (.invalidName name)
  /-- It is declared as the other kind of symbol. -/
  | mismatch : Refuses declared name (.kindMismatch name)
  /-- It is new, and the table of names is full. -/
  | full (valid : isValidName name = true) (absent : declared.names.get? name = none)
      (full : ¬ declared.names.size < NameTable.capacity) :
      Refuses declared name (.fault .tooManySymbols)

theorem refuses_of_register (failed : declared.register name = .error error) :
    declared.Refuses name error := by
  unfold register at failed
  split at failed
  · next valid =>
    cases known : declared.names.get? name with
    | some s =>
      rw [NameTable.intern_of_name? (NameTable.get?_eq_some_iff.mp known)] at failed
      cases failed
    | none =>
      by_cases room : declared.names.size < NameTable.capacity
      · obtain ⟨next, interned, -⟩ := NameTable.intern_of_room known room
        rw [interned] at failed
        cases failed
      · rw [NameTable.intern_of_full known room] at failed
        cases failed
        exact .full valid known room
  · next unfit =>
    cases failed
    exact .invalid (Bool.not_eq_true _ ▸ unfit)

theorem refuses_of_terminal (failed : declared.terminal name = .error error) :
    declared.Refuses name error := by
  unfold terminal at failed
  split at failed
  · cases failed
  · rcases bind_eq_error_iff.mp failed with register | ⟨⟨s, registered⟩, -, rest⟩
    · exact refuses_of_register register
    · dsimp only at rest
      split at rest
      · cases rest
        exact .mismatch
      · cases rest

theorem refuses_of_nonterminal (failed : declared.nonterminal name = .error error) :
    declared.Refuses name error := by
  rcases bind_eq_error_iff.mp failed with register | ⟨⟨s, registered⟩, -, rest⟩
  · exact refuses_of_register register
  · dsimp only at rest
    split at rest
    · cases rest
      exact .mismatch
    · cases rest

/-- Why a symbol cannot serve where a nonterminal is asked for. -/
inductive Rejects (declared : Declarations) (s : Symbol) : GrammarError → Prop where
  /-- It is no nonterminal. -/
  | notNonterminal (name : String) : Rejects declared s (.notNonterminal name)
  /-- It has no name with which to say so. -/
  | outside (outside : declared.names.size ≤ s.id) :
      Rejects declared s (.fault (.unknownSymbol s))

/-- A symbol is rejected by its name, if it has one. -/
theorem rejects_of_nameOf
    (failed : (do .error (.notNonterminal (← declared.nameOf s)) : Except GrammarError α) =
      .error error) : declared.Rejects s error := by
  by_cases inside : s.id < declared.names.size
  · obtain ⟨name, named⟩ := exists_nameOf inside
    rw [named] at failed
    cases failed
    exact .notNonterminal name
  · rw [nameOf_of_outside (Nat.not_lt.mp inside)] at failed
    cases failed
    exact .outside (Nat.not_lt.mp inside)

theorem rejects_of_designateStart (failed : declared.designateStart s = .error error) :
    declared.Rejects s error := by
  unfold designateStart at failed
  split at failed
  · cases failed
  · exact rejects_of_nameOf failed

end Declarations

namespace Definition

variable {definition next : Definition} {s t left : Symbol} {name : String} {right : List Symbol}
  {alternative : Alternative} {alternatives : List Alternative}

/-! ### Steps -/

/-- One step of a definition. -/
inductive Step where
  /-- Declare a terminal. -/
  | terminal (name : String)
  /-- Declare a nonterminal. -/
  | nonterminal (name : String)
  /-- Add an alternative to a production. -/
  | rule (left : Symbol) (right : List Symbol)
  /-- Designate the start symbol. -/
  | start (s : Symbol)

/-- Take a step. -/
def take (definition : Definition) : Step → Except GrammarError Definition
  | .terminal name => do return (← definition.terminal name).2
  | .nonterminal name => do return (← definition.nonterminal name).2
  | .rule left right => definition.rule left right
  | .start s => definition.designateStart s

theorem Built.take {step : Step} (built : definition.Built)
    (taken : definition.take step = .ok next) : next.Built := by
  cases step with
  | terminal name =>
    obtain ⟨⟨s, declared⟩, declare, rest⟩ := bind_eq_ok_iff.mp taken
    cases rest
    exact .terminal built declare
  | nonterminal name =>
    obtain ⟨⟨s, declared⟩, declare, rest⟩ := bind_eq_ok_iff.mp taken
    cases rest
    exact .nonterminal built declare
  | rule left right => exact .rule built taken
  | start s => exact .designateStart built taken

theorem Built.tryAll (built : definition.Built) (steps : List Step) :
    (tryAll Definition.take definition steps).Built :=
  tryAll_invariant Built built fun _ _ before taken => before.take taken

/-! ### What rules are made of -/

/-- Rules use symbols that have a name. -/
def Closed (definition : Definition) : Prop :=
  ∀ s alternatives, definition.rules.get? s = some alternatives →
    ∀ alternative ∈ alternatives, ∀ t ∈ alternative.symbols,
      t.id < definition.declared.names.size

/-- The symbols of a new alternative have a name by then. -/
theorem lt_size_of_rule (step : definition.rule left right = .ok next)
    (listed : t ∈ (Alternative.ofSymbols right).symbols) :
    t.id < definition.declared.names.size := by
  unfold rule at step
  dsimp only at step
  split at step
  · cases step
  · next inside =>
    have tested := List.find?_eq_none.mp inside t listed
    simpa using tested

theorem Closed.mono (closed : definition.Closed)
    (rules : ∀ s alternatives, next.rules.get? s = some alternatives →
      definition.rules.get? s = some alternatives ∨ alternatives = [])
    (grown : definition.declared.names.size ≤ next.declared.names.size) : next.Closed := by
  intro s alternatives found alternative member t listed
  rcases rules s alternatives found with old | rfl
  · exact Nat.lt_of_lt_of_le (closed s alternatives old alternative member t listed) grown
  · exact absurd member List.not_mem_nil

theorem Closed.nonterminal (closed : definition.Closed)
    (step : definition.nonterminal name = .ok (s, next)) : next.Closed := by
  obtain ⟨⟨t, declared⟩, declare, rest⟩ := bind_eq_ok_iff.mp step
  have grown := Declarations.size_le_of_nonterminal declare
  dsimp only at rest
  split at rest
  · cases rest
    exact closed.mono (fun _ _ => Or.inl) grown
  · cases rest
    -- the new nonterminal has no alternative yet
    refine closed.mono (fun r alternatives found => ?_) grown
    rw [OrderedMap.get?_insert] at found
    split at found
    · exact Or.inr (Option.some.inj found).symm
    · exact Or.inl found

theorem Closed.rule (closed : definition.Closed)
    (step : definition.rule left right = .ok next) : next.Closed := by
  have inside : ∀ t ∈ (Alternative.ofSymbols right).symbols,
      t.id < definition.declared.names.size := fun t listed => lt_size_of_rule step listed
  obtain ⟨alternatives, found, rfl⟩ := rule_cases step
  intro s others given alternative member t listed
  rw [OrderedMap.get?_insert] at given
  split at given
  · obtain rfl := Option.some.inj given
    rcases List.mem_append.mp member with old | last
    · exact closed left alternatives found alternative old t listed
    · obtain rfl := List.mem_singleton.mp last
      exact inside t listed
  · exact closed s others given alternative member t listed

/-- Rules use symbols that have a name, after every step. -/
theorem Built.closed (built : definition.Built) : definition.Closed := by
  induction built with
  | empty =>
    intro s alternatives found
    cases found
  | terminal _ step ih =>
    obtain ⟨⟨t, declared⟩, declare, rest⟩ := bind_eq_ok_iff.mp step
    cases rest
    exact ih.mono (fun _ _ => Or.inl) (Declarations.size_le_of_terminal declare)
  | nonterminal _ step ih => exact ih.nonterminal step
  | rule _ step ih => exact ih.rule step
  | designateStart _ step ih =>
    obtain ⟨declared, designate, rest⟩ := bind_eq_ok_iff.mp step
    cases rest
    obtain ⟨-, rfl⟩ := Declarations.designateStart_cases designate
    exact ih.mono (fun _ _ => Or.inl) (Nat.le_refl _)

/-- So they use declared symbols, as every name was declared. -/
theorem Built.isDeclared (built : definition.Built)
    (found : definition.rules.get? s = some alternatives) (member : alternative ∈ alternatives)
    (listed : t ∈ alternative.symbols) : definition.isDeclared t = true := by
  have named := built.closed s alternatives found alternative member t listed
  have proper : t ≠ .epsilon := by
    rintro rfl
    exact alternative.noEpsilon listed
  simp only [Definition.isDeclared, OrderedSet.contains, Bool.or_eq_true, decide_eq_true_eq]
  by_cases reserved : t.isReserved = true
  · rcases (Symbol.isReserved_iff t).mp reserved with empty | ended
    · exact absurd empty proper
    · exact Or.inl (Or.inl ended)
  · rw [Bool.not_eq_true] at reserved
    rcases built.sound.declared.declared_of_lt named reserved with terminal | nonterminal
    · exact Or.inl (Or.inr terminal)
    · exact Or.inr nonterminal

/-! ### The final check -/

/-- A production that is not empty passes the check. -/
theorem Built.checkProduction_eq (built : definition.Built)
    (found : definition.rules.get? s = some alternatives)
    (named : definition.declared.nameOf s = .ok name) :
    definition.checkProduction s alternatives =
      if alternatives = [] then .error (.noAlternatives name) else .ok () := by
  rw [checkProduction, named]
  by_cases empty : alternatives = []
  · rw [if_pos (List.isEmpty_iff.mpr empty), if_pos empty]
    rfl
  · -- no symbol of a rule is undeclared
    have declared : (alternatives.flatMap Alternative.symbols).find?
        (fun t => !definition.isDeclared t) = none := by
      rw [List.find?_eq_none]
      intro t listed
      obtain ⟨alternative, member, inside⟩ := List.mem_flatMap.mp listed
      simp [built.isDeclared found member inside]
    rw [if_neg (mt List.isEmpty_iff.mp empty), if_neg empty]
    simp only [declared]

theorem Built.checkProduction_outcome (built : definition.Built)
    (found : definition.rules.get? s = some alternatives) :
    definition.checkProduction s alternatives = .ok () ∨
      ∃ name, definition.checkProduction s alternatives = .error (.noAlternatives name) := by
  have known : s ∈ definition.declared.nonterminals.items :=
    built.sound.mem_keys_iff.mp (OrderedMap.get?_isSome_iff.mp (by rw [found]; rfl))
  obtain ⟨name, named⟩ :=
    Declarations.exists_nameOf (built.sound.declared.nonterminal_named known).1
  rw [built.checkProduction_eq found named]
  split
  · exact Or.inr ⟨name, rfl⟩
  · exact Or.inl rfl

/-- The final check can find that nothing was declared, or that a nonterminal has no alternative,
and nothing else. -/
theorem Built.error_of_finish {error : GrammarError} (built : definition.Built)
    (failed : definition.finish = .error error) :
    error = .noNonterminals ∨ ∃ name, error = .noAlternatives name := by
  rcases bind_eq_error_iff.mp failed with chosen | ⟨start, -, rest⟩
  · left
    unfold Declarations.startSymbol at chosen
    split at chosen
    · cases chosen
    · split at chosen
      · cases chosen
      · cases chosen
        rfl
  · right
    rcases bind_eq_error_iff.mp rest with checked | ⟨_, -, last⟩
    · obtain ⟨before, entry, after, split, -, failed⟩ := forM_eq_error_iff.mp checked
      have listed : entry ∈ definition.rules.entries := by rw [split]; simp
      rcases built.checkProduction_outcome (OrderedMap.mem_entries_iff.mp listed) with
        passed | ⟨name, refused⟩
      · rw [passed] at failed
        cases failed
      · rw [refused] at failed
        cases failed
        exact ⟨name, rfl⟩
    · cases last

/-- Why a step fails. -/
inductive Blocks (definition : Definition) : Step → GrammarError → Prop where
  /-- The terminal cannot be declared. -/
  | terminal {name : String} {error : GrammarError}
      (refuses : definition.declared.Refuses name error) : Blocks definition (.terminal name) error
  /-- The nonterminal cannot be declared. -/
  | nonterminal {name : String} {error : GrammarError}
      (refuses : definition.declared.Refuses name error) :
      Blocks definition (.nonterminal name) error
  /-- The right-hand side of a rule has a symbol without a name. -/
  | foreign {left t : Symbol} {right : List Symbol} :
      Blocks definition (.rule left right) (.unknownSymbol t)
  /-- The left-hand side of a rule is no nonterminal. -/
  | rule {left : Symbol} {right : List Symbol} {error : GrammarError}
      (inside : ∀ t ∈ right, t.id < definition.declared.names.size)
      (rejects : definition.declared.Rejects left error) :
      Blocks definition (.rule left right) error
  /-- The start symbol is no nonterminal. -/
  | start {s : Symbol} {error : GrammarError} (rejects : definition.declared.Rejects s error) :
      Blocks definition (.start s) error

theorem blocks_of_take {step : Step} {error : GrammarError}
    (failed : definition.take step = .error error) : definition.Blocks step error := by
  cases step with
  | terminal name =>
    rcases bind_eq_error_iff.mp failed with inner | ⟨_, -, rest⟩
    · rcases bind_eq_error_iff.mp inner with declare | ⟨_, -, rest⟩
      · exact .terminal (Declarations.refuses_of_terminal declare)
      · cases rest
    · cases rest
  | nonterminal name =>
    rcases bind_eq_error_iff.mp failed with inner | ⟨_, -, rest⟩
    · rcases bind_eq_error_iff.mp inner with declare | ⟨_, -, rest⟩
      · exact .nonterminal (Declarations.refuses_of_nonterminal declare)
      · dsimp only at rest
        split at rest <;> cases rest
    · cases rest
  | rule left right =>
    unfold take rule at failed
    dsimp only at failed
    split at failed
    · cases failed
      exact .foreign
    · next inside =>
      split at failed
      · cases failed
      · refine .rule (fun t listed => ?_) (Declarations.rejects_of_nameOf failed)
        -- the empty marker is left out of the rule, and it has a name
        by_cases empty : t = .epsilon
        · rw [empty]
          exact NameTable.lt_size_of_name? NameTable.name?_epsilon
        · have tested := List.find?_eq_none.mp inside t
            (List.mem_filter.mpr ⟨listed, decide_eq_true empty⟩)
          simpa using tested
  | start s =>
    rcases bind_eq_error_iff.mp failed with designate | ⟨_, -, rest⟩
    · exact .start (Declarations.rejects_of_designateStart designate)
    · cases rest

/-- No step finds that a symbol is undefined. -/
theorem take_ne_undefinedSymbol {step : Step} {referencedBy : String} :
    definition.take step ≠ .error (.undefinedSymbol name referencedBy) := by
  intro failed
  cases blocks_of_take failed with
  | terminal refuses => cases refuses
  | nonterminal refuses => cases refuses
  | rule _ rejects => cases rejects
  | start rejects => cases rejects

end Definition

/-! ### Well-formed grammars -/

namespace EbnfDefinition

theorem Built.tryAll {definition : EbnfDefinition} (built : definition.Built) (steps : List Step) :
    (tryAll EbnfDefinition.take definition steps).Built :=
  tryAll_invariant Built built fun _ _ before taken => before.take taken

end EbnfDefinition

namespace Grammar

/-- Alternatives are made of named symbols of the grammar, and not of the empty marker. -/
def Enclosed (grammar : Grammar) : Prop :=
  ∀ s alternative, grammar.HasRule s alternative → ∀ t ∈ alternative.symbols,
    grammar.Knows t ∧ t ≠ .epsilon ∧ t.id < grammar.names.size

theorem WellFormed.enclosed {grammar : Grammar} (wellFormed : grammar.WellFormed) :
    grammar.Enclosed := by
  intro s alternative rule t listed
  have known := wellFormed.knows_of_rule rule t listed
  exact ⟨known, wellFormed.ne_epsilon known, wellFormed.named known⟩

/-- Left factoring gives a factored form, if there is room for the new names. -/
theorem fits_leftFactor {grammar : Grammar} (wellFormed : grammar.WellFormed) :
    NameTable.Fits (grammar.names.size + grammar.occurrenceCount + 1)
      (fun result => grammar.FactoredForm result.1) grammar.leftFactor := by
  have sparse : grammar.Sparse grammar.names.size := fun s beyond => by
    rw [wellFormed.count_eq_zero beyond]
    exact Nat.zero_le 1
  have fewer := List.countP_le_length (p := fun t : Symbol => decide (t.id < grammar.names.size))
    (l := grammar.occurrences)
  rw [length_occurrences] at fewer
  rcases fits_factorPending wellFormed sparse (Nat.le_refl _) with
    ⟨failed, full⟩ | ⟨result, passed, form⟩
  · exact Or.inl ⟨failed, by omega⟩
  · exact Or.inr ⟨result, passed, form⟩

/-- Grammars are well formed however they come about. A grammar that any sequence of steps defines
is, and neither a step nor the final check finds that a symbol is undefined. Left factoring and the
lowering of an EBNF grammar whose new names differ from each other and from the declared ones give
well-formed grammars, unless there is no room for the new names. -/
theorem defined_wellFormed :
    (∀ steps grammar, (tryAll Definition.take .empty steps).finish = .ok grammar →
      grammar.WellFormed ∧ grammar.Enclosed) ∧
    (∀ steps name referencedBy,
      (∀ step, (tryAll Definition.take .empty steps).take step ≠
        .error (.undefinedSymbol name referencedBy)) ∧
      (tryAll Definition.take .empty steps).finish ≠
        .error (.undefinedSymbol name referencedBy)) ∧
    (∀ grammar : Grammar, grammar.WellFormed →
      NameTable.Fits (grammar.names.size + grammar.occurrenceCount + 1)
        (fun result => result.1.WellFormed ∧ result.1.Enclosed) grammar.leftFactor) ∧
    ∀ steps source, (tryAll EbnfDefinition.take .empty steps).finish = .ok source →
      source.syntheticNames.Nodup →
      (∀ name ∈ source.syntheticNames, ∀ s,
        s ∈ source.terminals.items ∨ source.isNonterminal s = true →
          source.names.name? s ≠ some name) →
      NameTable.Fits (source.names.size + source.syntheticNames.length)
        (fun grammar => grammar.WellFormed ∧ grammar.Enclosed) source.toGrammar := by
  refine ⟨fun steps grammar finished => ?_, fun steps name referencedBy =>
    ⟨fun step => Definition.take_ne_undefinedSymbol, fun failed => ?_⟩,
    fun grammar wellFormed => ?_, fun steps source finished nodup distinct => ?_⟩
  · have wellFormed := (Definition.Built.empty.tryAll steps).wellFormed finished
    exact ⟨wellFormed, wellFormed.enclosed⟩
  · rcases (Definition.Built.empty.tryAll steps).error_of_finish failed with same | ⟨other, same⟩
    · cases same
    · cases same
  · refine (fits_leftFactor wellFormed).imp fun result form => ?_
    exact ⟨form.wellFormed, form.wellFormed.enclosed⟩
  · have wellFormed := (EbnfDefinition.Built.empty.tryAll steps).wellFormed finished
    refine (EbnfGrammar.fits_laysOut wellFormed (wellFormed.fresh distinct) nodup).imp
      fun grammar laysOut => ?_
    exact ⟨laysOut.wellFormed wellFormed, (laysOut.wellFormed wellFormed).enclosed⟩

/-- The grammar `S := a S b | a EOF`, before and after left factoring, and the EBNF grammar
`S := (a | EOF)*` after lowering. The first is defined in spite of a step that fails. -/
theorem defined_wellFormed_eof :
    (∃ grammar, (tryAll Definition.take .empty [.terminal "a", .nonterminal "S", .terminal "S",
        .terminal "b", .rule ⟨3⟩ [⟨2⟩, ⟨3⟩, ⟨0⟩, ⟨4⟩], .rule ⟨3⟩ [⟨2⟩, ⟨1⟩]]).finish = .ok grammar ∧
      grammar.WellFormed ∧ ∃ factored, grammar.leftFactor = .ok (factored, true) ∧
        factored.Enclosed) ∧
    ∃ source, (tryAll EbnfDefinition.take .empty [.terminal "a", .nonterminal "S",
        .rule ⟨3⟩ (.zeroOrMore (.choice [.terminal ⟨2⟩, .terminal ⟨1⟩]))]).finish = .ok source ∧
      ∃ grammar, source.toGrammar = .ok grammar ∧ grammar.WellFormed := by
  obtain ⟨defined, -, factored, lowered⟩ := defined_wellFormed
  constructor
  · have accepted : (tryAll Definition.take .empty [.terminal "a", .nonterminal "S", .terminal "S",
        .terminal "b", .rule ⟨3⟩ [⟨2⟩, ⟨3⟩, ⟨0⟩, ⟨4⟩], .rule ⟨3⟩ [⟨2⟩, ⟨1⟩]]).finish.toOption.any
          (fun grammar => grammar.leftFactor.toOption.any Prod.snd) = true := by decide +kernel
    obtain ⟨grammar, given, passes⟩ := (Option.any_eq_true _ _).mp accepted
    have given := toOption_eq_some_iff.mp given
    obtain ⟨⟨after, changed⟩, result, rfl⟩ := (Option.any_eq_true _ _).mp passes
    have result := toOption_eq_some_iff.mp result
    obtain ⟨wellFormed, -⟩ := defined _ grammar given
    rcases factored grammar wellFormed with ⟨failed, -⟩ | ⟨other, passed, -, enclosed⟩
    · rw [result] at failed
      cases failed
    · rw [result] at passed
      cases passed
      exact ⟨grammar, given, wellFormed, after, result, enclosed⟩
  · have accepted : (tryAll EbnfDefinition.take .empty [.terminal "a", .nonterminal "S",
        .rule ⟨3⟩ (.zeroOrMore (.choice [.terminal ⟨2⟩, .terminal ⟨1⟩]))]).finish.toOption.any
          (fun source => source.distinctNames && source.toGrammar.toOption.isSome) = true := by
      decide +kernel
    obtain ⟨source, given, passes⟩ := (Option.any_eq_true _ _).mp accepted
    have given := toOption_eq_some_iff.mp given
    rw [Bool.and_eq_true, EbnfGrammar.distinctNames_iff, Option.isSome_iff_exists] at passes
    obtain ⟨⟨nodup, distinct⟩, grammar, result⟩ := passes
    have result := toOption_eq_some_iff.mp result
    rcases lowered _ source given nodup distinct with ⟨failed, -⟩ | ⟨other, passed, wellFormed, -⟩
    · rw [result] at failed
      cases failed
    · rw [result] at passed
      cases passed
      exact ⟨source, given, grammar, result, wellFormed⟩

end Grammar

end Predictive
