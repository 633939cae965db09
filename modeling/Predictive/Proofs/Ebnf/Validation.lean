import Predictive.Proofs.Declarations
import Predictive.Proofs.Ebnf.Naming

/-!
# The final check of an EBNF grammar

A definition that was built step by step holds what the steps said: the declared names, the rules in
the order in which they were given, and the last start symbol. So the final check can be told by the
steps. It accepts them if they declare a nonterminal, give every nonterminal that they declare an
expression, and use symbols as declared in every expression, at every depth. The order of the rules
does not matter; the grammar lists its expressions in the order of the declarations.

## Main definitions

* `Expr.Fits` — what an expression asks for by itself
* `EbnfDefinition.Records` — a definition that holds what a list of steps said
* `EbnfDefinition.Complete` — what the final check asks of a list of steps

## Main results

* `EbnfGrammar.admits_iff` — an expression is in order if all expressions inside it are
* `EbnfDefinition.records_of_foldlM` — what was built holds what the steps said
* `EbnfDefinition.finish_of_steps` — the final check and the grammar, told by the steps
-/

namespace Predictive

/-! ### Expressions at every depth -/

namespace Expr

variable {expr : Expr} {holds : Expr → Prop}

/-- What an expression asks for by itself, whatever its parts are: to refer to a symbol of its kind,
and to offer something. -/
def Fits (terminal nonterminal : Symbol → Prop) : Expr → Prop
  | .terminal s => terminal s
  | .nonterminal s => nonterminal s
  | .choice parts => parts ≠ []
  | .chain _ => True
  | .optional _ => True
  | .zeroOrMore _ => True
  | .oneOrMore _ => True

/-- A symbol that is referred to somewhere in an expression. -/
def Mentions (expr : Expr) (s : Symbol) : Prop :=
  ∃ path, expr.StandsAt path (.terminal s) ∨ expr.StandsAt path (.nonterminal s)

/-- What holds at every depth holds of an expression and at every depth of its parts. -/
theorem forall_standsAt_iff :
    (∀ path inner, expr.StandsAt path inner → holds inner) ↔
      holds expr ∧
        ∀ step part, expr.HasPart step part → ∀ path inner, part.StandsAt path inner →
          holds inner := by
  constructor
  · intro deep
    exact ⟨deep "" expr (.here expr),
      fun step part inside path inner stands => deep _ inner (.inside inside stands)⟩
  · rintro ⟨own, parts⟩ path inner stands
    cases stands with
    | here => exact own
    | inside first rest => exact parts _ _ first _ inner rest

theorem HasPart.mentions {step : String} {part : Expr} {s : Symbol}
    (inside : expr.HasPart step part) (mentions : part.Mentions s) : expr.Mentions s := by
  obtain ⟨path, stands⟩ := mentions
  exact ⟨step ++ path, stands.imp (.inside inside) (.inside inside)⟩

end Expr

namespace EbnfGrammar

variable {grammar : EbnfGrammar} {expr : Expr}

/-- The parts of an expression are in order if each of them is. -/
theorem admits_iff_parts :
    grammar.Admits expr ↔
      expr.Fits (grammar.isTerminal · = true) (grammar.isNonterminal · = true) ∧
        ∀ step part, expr.HasPart step part → grammar.Admits part := by
  have numbered : ∀ (parts : List Expr) (word : String), grammar.AdmitsAll parts ↔
      ∀ step part, (∃ i : Nat, parts[i]? = some part ∧ step = word ++ toString i) →
        grammar.Admits part := by
    intro parts word
    rw [admitsAll_iff]
    constructor
    · rintro all _ part ⟨i, listed, rfl⟩
      exact all part (List.mem_of_getElem? listed)
    · intro all part listed
      obtain ⟨i, found⟩ := List.mem_iff_getElem?.mp listed
      exact all _ part ⟨i, found, rfl⟩
  cases expr with
  | terminal => simp [Admits, Expr.Fits, Expr.HasPart]
  | nonterminal => simp [Admits, Expr.Fits, Expr.HasPart]
  | chain parts => simpa [Admits, Expr.Fits, Expr.HasPart] using numbered parts _
  | choice parts => exact and_congr Iff.rfl (numbered parts _)
  | optional => simp [Admits, Expr.Fits, Expr.HasPart]
  | zeroOrMore => simp [Admits, Expr.Fits, Expr.HasPart]
  | oneOrMore => simp [Admits, Expr.Fits, Expr.HasPart]

/-- An expression uses the symbols of a grammar as declared if it does so at every depth. -/
theorem admits_iff :
    grammar.Admits expr ↔
      ∀ path inner, expr.StandsAt path inner →
        inner.Fits (grammar.isTerminal · = true) (grammar.isNonterminal · = true) := by
  induction expr using Expr.induction_parts with
  | steps expr ih =>
    rw [admits_iff_parts, Expr.forall_standsAt_iff]
    exact and_congr Iff.rfl
      (forall_congr' fun step => forall_congr' fun part => imp_congr_right (ih step part))

end EbnfGrammar

namespace EbnfDefinition

variable {definition next : EbnfDefinition} {steps : List Step} {step : Step} {s : Symbol}
  {name : String} {expr : Expr}

/-! ### What the steps said -/

/-- The name that a step lists among the terminals. -/
def Step.terminal? : Step → Option String
  | .terminal name => Declarations.properName? name
  | _ => none

/-- The name that a step lists among the nonterminals. -/
def Step.nonterminal? : Step → Option String
  | .nonterminal name => some name
  | _ => none

/-- The rule that a step gives. -/
def Step.rule? : Step → Option (Symbol × Expr)
  | .rule left expr => some (left, expr)
  | _ => none

/-- The start symbol that a step designates. -/
def Step.start? : Step → Option Symbol
  | .start s => some s
  | _ => none

/-- A definition that holds what a list of steps said. -/
structure Records (definition : EbnfDefinition) (steps : List Step) : Prop where
  /-- The declared names. -/
  lists : definition.declared.Lists (steps.filterMap Step.terminal?)
    (steps.filterMap Step.nonterminal?)
  /-- The rules in order. -/
  rules : definition.rules.entries = steps.filterMap Step.rule?
  /-- The last start symbol. -/
  start : definition.declared.start = (steps.filterMap Step.start?).getLast?

theorem records_empty : empty.Records [] := ⟨Declarations.lists_empty, rfl, rfl⟩

/-- No nonterminal is given a second expression. -/
theorem rule_new {left : Symbol} (step : definition.rule left expr = .ok next) :
    left ∉ definition.rules.keys ∧
      next = { definition with rules := definition.rules.insert left expr } := by
  refine ⟨fun given => ?_, (rule_cases step).2⟩
  have listed := (rule_cases step).1
  simp only [rule, OrderedSet.contains, listed, OrderedMap.contains_iff.mpr given] at step
  obtain ⟨name, -, rest⟩ := bind_eq_ok_iff.mp step
  cases rest

/-- What one more step has to add. -/
theorem Records.concat (records : definition.Records steps)
    (lists : next.declared.Lists
      (steps.filterMap Step.terminal? ++ step.terminal?.toList)
      (steps.filterMap Step.nonterminal? ++ step.nonterminal?.toList))
    (rules : next.rules.entries = definition.rules.entries ++ step.rule?.toList)
    (start : next.declared.start = step.start?.or definition.declared.start) :
    next.Records (steps ++ [step]) := by
  have added : ∀ {α : Type} (said : Step → Option α),
      (steps ++ [step]).filterMap said = steps.filterMap said ++ (said step).toList := by
    intro α said
    cases here : said step with
    | none => simp [here]
    | some a => simp [here]
  constructor
  · rw [added, added]
    exact lists
  · rw [rules, added, records.rules]
  · rw [start, added, List.getLast?_append, records.start]
    cases step.start? with
    | none => rfl
    | some s => rfl

/-- A step that is taken is recorded. -/
theorem Records.take (records : definition.Records steps)
    (taken : definition.take step = .ok next) : next.Records (steps ++ [step]) := by
  cases step with
  | terminal name =>
    obtain ⟨⟨s, kept⟩, declare, rest⟩ := bind_eq_ok_iff.mp taken
    cases rest
    obtain ⟨⟨_, declared⟩, declare', rest⟩ := bind_eq_ok_iff.mp declare
    cases rest
    refine records.concat ?_ (List.append_nil _).symm (Declarations.start_of_terminal declare')
    simpa [Step.terminal?, Step.nonterminal?] using records.lists.terminal declare'
  | nonterminal name =>
    obtain ⟨⟨s, kept⟩, declare, rest⟩ := bind_eq_ok_iff.mp taken
    cases rest
    obtain ⟨⟨_, declared⟩, declare', rest⟩ := bind_eq_ok_iff.mp declare
    cases rest
    refine records.concat ?_ (List.append_nil _).symm (Declarations.start_of_nonterminal declare')
    simpa [Step.terminal?, Step.nonterminal?] using records.lists.nonterminal declare'
  | rule left expr =>
    obtain ⟨absent, rfl⟩ := rule_new taken
    refine records.concat ?_ (OrderedMap.entries_insert_of_not_mem absent) rfl
    simpa [Step.terminal?, Step.nonterminal?] using records.lists
  | start s =>
    obtain ⟨declared, designate, rest⟩ := bind_eq_ok_iff.mp taken
    cases rest
    have designated := (Declarations.designateStart_cases designate).2
    refine records.concat ?_ (List.append_nil _).symm (by rw [designated]; rfl)
    simpa [Step.terminal?, Step.nonterminal?] using records.lists.designateStart designate

/-- What was built holds what the steps said. -/
theorem records_of_foldlM (taken : steps.foldlM EbnfDefinition.take .empty = .ok definition) :
    definition.Records steps := by
  -- from the back, as each step adds to the end of what was said before
  induction steps using List.reverseRecOn generalizing definition with
  | nil =>
    cases taken
    exact records_empty
  | append_singleton steps step ih =>
    rw [List.foldlM_append] at taken
    obtain ⟨before, first, rest⟩ := bind_eq_ok_iff.mp taken
    rw [List.foldlM_cons] at rest
    obtain ⟨after, last, rest⟩ := bind_eq_ok_iff.mp rest
    cases rest
    exact (ih first).take last

/-! ### The final check -/

/-- A symbol that the steps declare as a terminal, or the end of input. -/
def DeclaresTerminal (steps : List Step) (names : NameTable) (s : Symbol) : Prop :=
  s = .eof ∨ ∃ name, .terminal name ∈ steps ∧ names.name? s = some name

/-- A symbol that the steps declare as a nonterminal. -/
def DeclaresNonterminal (steps : List Step) (names : NameTable) (s : Symbol) : Prop :=
  ∃ name, .nonterminal name ∈ steps ∧ names.name? s = some name

/-- What the final check asks of a list of steps, where the symbols have the names that they have in
the end. -/
structure Complete (steps : List Step) (names : NameTable) : Prop where
  /-- A nonterminal is declared. -/
  declared : ∃ name, .nonterminal name ∈ steps
  /-- Every nonterminal that is declared is given an expression. -/
  given : ∀ name, .nonterminal name ∈ steps →
    ∃ s expr, names.name? s = some name ∧ .rule s expr ∈ steps
  /-- Every expression, at every depth, uses symbols as declared and offers something. -/
  fits : ∀ left expr, .rule left expr ∈ steps → ∀ path inner, expr.StandsAt path inner →
    inner.Fits (DeclaresTerminal steps names) (DeclaresNonterminal steps names)

theorem mem_terminal?_iff :
    name ∈ steps.filterMap Step.terminal? ↔ .terminal name ∈ steps ∧ name ≠ "EOF" := by
  rw [List.mem_filterMap]
  constructor
  · rintro ⟨step, listed, said⟩
    cases step with
    | terminal other =>
      simp only [Step.terminal?, Declarations.properName?] at said
      split at said
      · cases said
      · next proper =>
        cases said
        exact ⟨listed, proper⟩
    | _ => cases said
  · rintro ⟨listed, proper⟩
    exact ⟨_, listed, if_neg proper⟩

theorem mem_nonterminal?_iff :
    name ∈ steps.filterMap Step.nonterminal? ↔ .nonterminal name ∈ steps := by
  rw [List.mem_filterMap]
  constructor
  · rintro ⟨step, listed, said⟩
    cases step with
    | nonterminal other =>
      cases said
      exact listed
    | _ => cases said
  · intro listed
    exact ⟨_, listed, rfl⟩

theorem mem_rule?_iff :
    (s, expr) ∈ steps.filterMap Step.rule? ↔ .rule s expr ∈ steps := by
  rw [List.mem_filterMap]
  constructor
  · rintro ⟨step, listed, said⟩
    cases step with
    | rule left other =>
      cases said
      exact listed
    | _ => cases said
  · intro listed
    exact ⟨_, listed, rfl⟩

namespace Records

theorem terminal_iff (records : definition.Records steps) :
    s = .eof ∨ s ∈ definition.declared.terminals.items ↔
      DeclaresTerminal steps definition.declared.names s := by
  constructor
  · rintro (ended | listed)
    · exact Or.inl ended
    · obtain ⟨name, said, named⟩ := records.lists.terminals.exists_name listed
      rw [List.mem_eraseDups, mem_terminal?_iff] at said
      exact Or.inr ⟨name, said.1, named⟩
  · rintro (ended | ⟨name, said, named⟩)
    · exact Or.inl ended
    · -- the end of input may be declared as a terminal, and is not listed
      by_cases ended : name = "EOF"
      · exact Or.inl (NameTable.name?_injective named (ended ▸ NameTable.name?_eof))
      · refine Or.inr ((records.lists.terminals.mem_iff named).mpr ?_)
        rw [List.mem_eraseDups, mem_terminal?_iff]
        exact ⟨said, ended⟩

theorem nonterminal_iff (records : definition.Records steps) :
    s ∈ definition.declared.nonterminals.items ↔
      DeclaresNonterminal steps definition.declared.names s := by
  constructor
  · intro listed
    obtain ⟨name, said, named⟩ := records.lists.nonterminals.exists_name listed
    rw [List.mem_eraseDups, mem_nonterminal?_iff] at said
    exact ⟨name, said, named⟩
  · rintro ⟨name, said, named⟩
    rw [records.lists.nonterminals.mem_iff named, List.mem_eraseDups, mem_nonterminal?_iff]
    exact said

theorem get?_iff (records : definition.Records steps) :
    definition.rules.get? s = some expr ↔ .rule s expr ∈ steps := by
  rw [← OrderedMap.mem_entries_iff, records.rules, mem_rule?_iff]

theorem contains_iff (records : definition.Records steps) :
    definition.rules.contains s = true ↔ ∃ expr, .rule s expr ∈ steps := by
  rw [OrderedMap.contains, Option.isSome_iff_exists]
  exact exists_congr fun expr => records.get?_iff

end Records

/-- The check of an expression asks that everything inside it fits. -/
theorem Records.check_eq_ok_iff (records : definition.Records steps) (sound : definition.Sound)
    {left : Symbol} :
    definition.check left expr = .ok () ↔
      ∀ path inner, expr.StandsAt path inner →
        inner.Fits (DeclaresTerminal steps definition.declared.names)
          (DeclaresNonterminal steps definition.declared.names) := by
  -- any grammar will do that has the declared symbols
  let outline : EbnfGrammar := ⟨definition.declared.names, definition.declared.terminals,
    .constant definition.declared.nonterminals.items (.chain []), .eof⟩
  have kinds : definition.Kinds outline := by
    refine ⟨EbnfGrammar.isTerminal_iff, fun {s} => ?_⟩
    rw [EbnfGrammar.isNonterminal, OrderedMap.contains, OrderedMap.get?_constant]
    simp
  have terminals : (outline.isTerminal · = true) =
      DeclaresTerminal steps definition.declared.names :=
    funext fun s => propext (kinds.terminal_iff.trans records.terminal_iff)
  have nonterminals : (outline.isNonterminal · = true) =
      DeclaresNonterminal steps definition.declared.names :=
    funext fun s => propext (kinds.nonterminal_iff.trans records.nonterminal_iff)
  rw [EbnfDefinition.check_eq_ok_iff sound kinds, EbnfGrammar.admits_iff, terminals, nonterminals]

/-- The final check is passed if there is a start symbol, every nonterminal has an expression, and
every expression is in order. -/
theorem exists_finish_iff :
    (∃ grammar, definition.finish = .ok grammar) ↔
      (∃ start, definition.declared.startSymbol = .ok start) ∧
        (∀ s ∈ definition.declared.nonterminals.items, definition.rules.contains s = true) ∧
        ∀ entry ∈ definition.rules.entries, definition.check entry.1 entry.2 = .ok () := by
  constructor
  · rintro ⟨grammar, finished⟩
    obtain ⟨start, chosen, complete, checked, -⟩ := finish_cases finished
    exact ⟨⟨start, chosen⟩, fun s listed => checkDefined_eq_ok_iff.mp (complete s listed), checked⟩
  · rintro ⟨⟨start, chosen⟩, given, checked⟩
    have complete := forM_eq_ok_iff.mpr fun s listed => checkDefined_eq_ok_iff.mpr (given s listed)
    exact ⟨_, bind_eq_ok_iff.mpr ⟨start, chosen, bind_eq_ok_iff.mpr ⟨(), complete,
      bind_eq_ok_iff.mpr ⟨(), forM_eq_ok_iff.mpr checked, rfl⟩⟩⟩⟩

/-- The final check is passed by steps that are complete. -/
theorem Records.exists_finish_iff (records : definition.Records steps) (sound : definition.Sound) :
    (∃ grammar, definition.finish = .ok grammar) ↔
      Complete steps definition.declared.names := by
  have started : (∃ start, definition.declared.startSymbol = .ok start) ↔
      ∃ name, .nonterminal name ∈ steps := by
    constructor
    · rintro ⟨start, chosen⟩
      obtain ⟨name, said, -⟩ := records.nonterminal_iff.mp (sound.declared.startSymbol chosen)
      exact ⟨name, said⟩
    · rintro ⟨name, said⟩
      obtain ⟨s, listed, -⟩ := records.lists.nonterminals.exists_symbol
        (List.mem_eraseDups.mpr (mem_nonterminal?_iff.mpr said))
      exact Declarations.exists_startSymbol (List.ne_nil_of_mem listed)
  have given : (∀ s ∈ definition.declared.nonterminals.items,
        definition.rules.contains s = true) ↔
      ∀ name, .nonterminal name ∈ steps →
        ∃ s expr, definition.declared.names.name? s = some name ∧ .rule s expr ∈ steps := by
    constructor
    · intro given name said
      obtain ⟨s, listed, named⟩ := records.lists.nonterminals.exists_symbol
        (List.mem_eraseDups.mpr (mem_nonterminal?_iff.mpr said))
      obtain ⟨expr, ruled⟩ := records.contains_iff.mp (given s listed)
      exact ⟨s, expr, named, ruled⟩
    · intro given s listed
      obtain ⟨name, said, named⟩ := records.nonterminal_iff.mp listed
      obtain ⟨t, expr, named', ruled⟩ := given name said
      -- a name has one symbol
      obtain rfl := NameTable.name?_injective named named'
      exact records.contains_iff.mpr ⟨expr, ruled⟩
  have fits : (∀ entry ∈ definition.rules.entries, definition.check entry.1 entry.2 = .ok ()) ↔
      ∀ left expr, .rule left expr ∈ steps → ∀ path inner, expr.StandsAt path inner →
        inner.Fits (DeclaresTerminal steps definition.declared.names)
          (DeclaresNonterminal steps definition.declared.names) := by
    rw [records.rules, Prod.forall]
    exact forall_congr' fun left => forall_congr' fun expr =>
      imp_congr mem_rule?_iff (records.check_eq_ok_iff sound)
  rw [EbnfDefinition.exists_finish_iff, started, given, fits]
  exact ⟨fun ⟨declared, given, fits⟩ => ⟨declared, given, fits⟩,
    fun complete => ⟨complete.declared, complete.given, complete.fits⟩⟩

/-- A symbol outside the table of names that the check comes upon is mentioned. -/
theorem Meets.mentions {left : Symbol} (meets : definition.Meets left expr s) :
    expr.Mentions s ∧ definition.declared.names.size ≤ s.id := by
  induction meets with
  | terminal outside => exact ⟨⟨"", Or.inl (.here _)⟩, outside⟩
  | nonterminal outside => exact ⟨⟨"", Or.inr (.here _)⟩, outside⟩
  | @chain before after part _ _ _ ih =>
    have inside : (Expr.chain (before ++ part :: after)).HasPart _ part :=
      ⟨before.length, by simp, rfl⟩
    exact ⟨inside.mentions ih.1, ih.2⟩
  | @choice before after part _ _ _ ih =>
    have inside : (Expr.choice (before ++ part :: after)).HasPart _ part :=
      ⟨before.length, by simp, rfl⟩
    exact ⟨inside.mentions ih.1, ih.2⟩
  | @optional body _ _ ih =>
    have inside : (Expr.optional body).HasPart _ body := ⟨rfl, rfl⟩
    exact ⟨inside.mentions ih.1, ih.2⟩
  | @zeroOrMore body _ _ ih =>
    have inside : (Expr.zeroOrMore body).HasPart _ body := ⟨rfl, rfl⟩
    exact ⟨inside.mentions ih.1, ih.2⟩
  | @oneOrMore body _ _ ih =>
    have inside : (Expr.oneOrMore body).HasPart _ body := ⟨rfl, rfl⟩
    exact ⟨inside.mentions ih.1, ih.2⟩

/-- The final check is no fault if every symbol that is mentioned has a name. -/
theorem Records.finish_ne_fault {fault : Fault} (records : definition.Records steps)
    (built : definition.Built)
    (named : ∀ left expr, .rule left expr ∈ steps → ∀ s, expr.Mentions s →
      s.id < definition.declared.names.size) :
    definition.finish ≠ .error (.fault fault) := by
  intro failed
  obtain ⟨s, founders, -⟩ := built.finish_eq_fault_iff.mp failed
  obtain ⟨before, left, expr, after, split, -, meets⟩ := founders.meets
  have listed : (left, expr) ∈ definition.rules.entries := by rw [split]; simp
  rw [records.rules, mem_rule?_iff] at listed
  obtain ⟨mentions, outside⟩ := meets.mentions
  exact absurd (named left expr listed s mentions) (Nat.not_lt.mpr outside)

/-- The expressions are listed in the order in which their nonterminals were declared. -/
theorem keys_arranged
    (given : ∀ s ∈ definition.declared.nonterminals.items, definition.rules.contains s = true) :
    definition.arranged.keys = definition.declared.nonterminals.items := by
  have keys : (definition.declared.nonterminals.items.filterMap fun s =>
      (definition.rules.get? s).map fun expr => (s, expr)).map Prod.fst =
        definition.declared.nonterminals.items := by
    rw [List.map_filterMap]
    refine (List.filterMap_congr fun s listed => ?_).trans List.filterMap_some
    obtain ⟨expr, found⟩ := Option.isSome_iff_exists.mp (given s listed)
    rw [found]
    rfl
  rw [OrderedMap.keys, arranged_eq, OrderedMap.entries_insertAll, List.map_append, keys]
  · rfl
  · rw [keys]
    exact definition.declared.nonterminals.nodup

/-- The final check, told by the steps of a definition. It accepts them if they declare a
nonterminal, give every nonterminal that they declare an expression, and use symbols as declared in
every expression, at every depth; and it is never a fault as long as no expression mentions a symbol
without a name. The grammar lists the nonterminals in the order of their declarations, has the
expression of each of them that its rule gave, and starts with the symbol that was designated last,
or else with the nonterminal that was declared first. -/
theorem finish_of_steps (taken : steps.foldlM EbnfDefinition.take .empty = .ok definition) :
    ((∃ grammar, definition.finish = .ok grammar) ↔
      Complete steps definition.declared.names) ∧
    ((∀ left expr, .rule left expr ∈ steps → ∀ s, expr.Mentions s →
        s.id < definition.declared.names.size) →
      ∀ fault, definition.finish ≠ .error (.fault fault)) ∧
    ∀ grammar, definition.finish = .ok grammar →
      grammar.names = definition.declared.names ∧
      grammar.names.Spells grammar.nonterminals (steps.filterMap Step.nonterminal?).eraseDups ∧
      grammar.names.Spells grammar.terminals.items (steps.filterMap Step.terminal?).eraseDups ∧
      (∀ s expr, grammar.expression? s = some expr ↔ .rule s expr ∈ steps) ∧
      some grammar.start =
        (steps.filterMap Step.start?).getLast?.or grammar.nonterminals.head? := by
  have built := Built.empty.foldlM_take taken
  have records := records_of_foldlM taken
  refine ⟨records.exists_finish_iff built.sound,
    fun named fault => records.finish_ne_fault built named, fun grammar finished => ?_⟩
  obtain ⟨start, chosen, complete, -, rfl⟩ := finish_cases finished
  have keys := keys_arranged fun s listed => checkDefined_eq_ok_iff.mp (complete s listed)
  refine ⟨rfl, ?_, records.lists.terminals, fun s expr => ?_, ?_⟩
  · rw [EbnfGrammar.nonterminals, keys]
    exact records.lists.nonterminals
  · rw [EbnfGrammar.expression?, get?_arranged built.sound, records.get?_iff]
  · rw [EbnfGrammar.nonterminals, keys, ← records.start]
    exact Declarations.startSymbol_eq_ok chosen

/-- The expression of a nonterminal may be given before that of an earlier one, and mention what is
declared in any order. A nonterminal that is used as a terminal is found inside something optional.
-/
theorem finish_of_steps_later :
    (∃ definition grammar,
      [.nonterminal "S", .nonterminal "A", .terminal "x",
        .rule ⟨3⟩ (.choice [.terminal ⟨4⟩, .chain []]),
        .rule ⟨2⟩ (.oneOrMore (.chain [.nonterminal ⟨3⟩, .terminal .eof])),
        .start ⟨3⟩].foldlM EbnfDefinition.take .empty = .ok definition ∧
      definition.finish = .ok grammar ∧
      grammar.names.Spells grammar.nonterminals ["S", "A"] ∧
      grammar.expression? ⟨3⟩ = some (.choice [.terminal ⟨4⟩, .chain []]) ∧
      grammar.start = ⟨3⟩) ∧
    ∃ definition,
      [.nonterminal "S", .rule ⟨2⟩ (.optional (.terminal ⟨2⟩))].foldlM EbnfDefinition.take .empty =
        .ok definition ∧
      (∀ grammar, definition.finish ≠ .ok grammar) ∧
      ∀ fault, definition.finish ≠ .error (.fault fault) := by
  constructor
  · obtain ⟨definition, taken⟩ : ∃ definition,
        [.nonterminal "S", .nonterminal "A", .terminal "x",
          .rule ⟨3⟩ (.choice [.terminal ⟨4⟩, .chain []]),
          .rule ⟨2⟩ (.oneOrMore (.chain [.nonterminal ⟨3⟩, .terminal .eof])),
          .start ⟨3⟩].foldlM EbnfDefinition.take .empty = .ok definition := ⟨_, rfl⟩
    obtain ⟨accepts, -, finishes⟩ := finish_of_steps taken
    obtain ⟨grammar, finished⟩ : ∃ grammar, definition.finish = .ok grammar := by
      cases taken
      exact ⟨_, rfl⟩
    obtain ⟨-, nonterminals, -, expressions, start⟩ := finishes grammar finished
    refine ⟨definition, grammar, taken, finished, nonterminals, ?_, ?_⟩
    · exact (expressions ⟨3⟩ _).mpr (by simp)
    · exact Option.some.inj start
  · obtain ⟨definition, taken⟩ : ∃ definition,
        [.nonterminal "S", .rule ⟨2⟩ (.optional (.terminal ⟨2⟩))].foldlM EbnfDefinition.take
          .empty = .ok definition := ⟨_, rfl⟩
    obtain ⟨accepts, faults, -⟩ := finish_of_steps taken
    refine ⟨definition, taken, fun grammar finished => ?_, faults ?_⟩
    · obtain ⟨-, -, fits⟩ := accepts.mp ⟨grammar, finished⟩
      have part : (Expr.optional (.terminal ⟨2⟩)).HasPart _ (.terminal ⟨2⟩) := ⟨rfl, rfl⟩
      obtain ended | ⟨name, said, -⟩ := fits ⟨2⟩ _ (by simp) _ _ (.inside part (.here _))
      · exact absurd ended (by decide)
      · simp at said
    · intro left expr said s mentions
      have size : definition.declared.names.size = 3 := by
        cases taken
        rfl
      obtain ⟨rfl, rfl⟩ : left = ⟨2⟩ ∧ expr = .optional (.terminal ⟨2⟩) := by simpa using said
      obtain ⟨path, stands | stands⟩ := mentions
      · cases stands with
        | inside part stands =>
          obtain ⟨rfl, -⟩ := part
          cases stands with
          | here => exact size ▸ by decide
          | inside part => exact part.elim
      · cases stands with
        | inside part stands =>
          obtain ⟨rfl, -⟩ := part
          cases stands with
          | inside part => exact part.elim

end EbnfDefinition

end Predictive
