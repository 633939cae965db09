import Mathlib.Data.List.Dedup
import Predictive.Proofs.Definition

/-!
# Faults of definitions

What is wrong with a definition is said by the names of its symbols, so that each error is itself an
occasion for a fault: a symbol outside the table of names cannot be named. The right-hand side of a
rule is looked at by position, and such a symbol is reported. In all other places where a symbol is
not what it should be its name is looked for: on the left-hand side of a rule, as the start symbol,
and anywhere in an expression. There a symbol outside the table ends the definition with a fault.
Nothing else does, as long as there are not too many names.

## Main definitions

* `NameTable.DrawnFrom` — a table that holds names of a list
* `Definition.Strays`, `EbnfDefinition.Strays` — a step that comes upon a symbol outside the table
* `EbnfDefinition.Meets`, `EbnfDefinition.Founders` — so does the check of an expression, and the
  final check

## Main results

* `NameTable.DrawnFrom.room` — there is room for a new name of the list
* `Definition.take_eq_fault_iff`, `EbnfDefinition.take_eq_fault_iff` — the faults of steps
* `EbnfDefinition.check_eq_fault_iff` — the faults of the check of an expression
* `fault_iff_outside` — all faults of definitions
-/

namespace Predictive

/-! ### Room for names -/

namespace NameTable

variable {table next : NameTable} {s : Symbol} {name : String} {names : List String}

/-- No name is held twice. -/
theorem nodup_names (table : NameTable) : table.names.toList.Nodup := by
  rw [List.nodup_iff_getElem?_ne_getElem?]
  intro i j less inside same
  obtain ⟨name, named⟩ : ∃ name, table.names.toList[j]? = some name :=
    ⟨_, List.getElem?_eq_getElem inside⟩
  have first : table.name? ⟨i⟩ = some name := by
    rw [name?, ← Array.getElem?_toList, same, named]
  have second : table.name? ⟨j⟩ = some name := by
    rw [name?, ← Array.getElem?_toList, named]
  have equal := congrArg Symbol.id (name?_injective first second)
  exact Nat.ne_of_lt less equal

/-- The names of a table, but for the reserved ones, are among those of a list. -/
def DrawnFrom (table : NameTable) (names : List String) : Prop :=
  ∀ name ∈ table.names.toList, name ∈ "" :: "EOF" :: names

theorem drawnFrom_reserved (names : List String) : reserved.DrawnFrom names := by
  intro name held
  have two : name = "" ∨ name = "EOF" := by simpa [reserved] using held
  rcases two with rfl | rfl
  · exact List.mem_cons_self
  · exact List.mem_cons_of_mem _ List.mem_cons_self

theorem DrawnFrom.intern (drawn : table.DrawnFrom names) (listed : name ∈ names)
    (interned : table.intern name = .ok (s, next)) : next.DrawnFrom names := by
  rcases intern_cases interned with ⟨rfl, -⟩ | ⟨-, -, pushed⟩
  · exact drawn
  · intro other held
    rw [pushed, Array.toList_push, List.mem_append, List.mem_singleton] at held
    rcases held with old | rfl
    · exact drawn other old
    · exact List.mem_cons_of_mem _ (List.mem_cons_of_mem _ listed)

/-- A table that does not hold all names of a list has room for a further one, if there is room for
the list. -/
theorem DrawnFrom.room (drawn : table.DrawnFrom names) (listed : name ∈ names)
    (absent : table.get? name = none) : table.size < names.dedup.length + 2 := by
  rw [get?_eq_none_iff_not_mem] at absent
  have nodup : (name :: table.names.toList).Nodup :=
    List.nodup_cons.mpr ⟨absent, table.nodup_names⟩
  have within : name :: table.names.toList ⊆ "" :: "EOF" :: names.dedup := by
    intro other held
    have member : other ∈ "" :: "EOF" :: names := by
      rcases List.mem_cons.mp held with rfl | old
      · exact List.mem_cons_of_mem _ (List.mem_cons_of_mem _ listed)
      · exact drawn other old
    simpa using member
  exact (nodup.subperm within).length_le

end NameTable

namespace Declarations

variable {declared next : Declarations} {s : Symbol} {name : String} {names : List String}

/-- A name that may be declared. -/
def valid? (name : String) : Option String := if isValidName name then some name else none

theorem drawnFrom_of_register (drawn : declared.names.DrawnFrom names)
    (listed : ∀ valid ∈ valid? name, valid ∈ names)
    (registered : declared.register name = .ok (s, next)) : next.names.DrawnFrom names := by
  obtain ⟨valid, -, interned⟩ := register_cases registered
  exact drawn.intern (listed name (by rw [valid?, if_pos valid]; rfl)) interned

theorem drawnFrom_of_terminal (drawn : declared.names.DrawnFrom names)
    (listed : ∀ valid ∈ valid? name, valid ∈ names)
    (step : declared.terminal name = .ok (s, next)) : next.names.DrawnFrom names := by
  rcases terminal_cases step with ⟨-, rfl⟩ | ⟨registered, register, -, rfl⟩
  · exact drawn
  · have grown := drawnFrom_of_register drawn listed register
    exact grown

theorem drawnFrom_of_nonterminal (drawn : declared.names.DrawnFrom names)
    (listed : ∀ valid ∈ valid? name, valid ∈ names)
    (step : declared.nonterminal name = .ok (s, next)) : next.names.DrawnFrom names := by
  obtain ⟨registered, register, -, rfl⟩ := nonterminal_cases step
  have grown := drawnFrom_of_register drawn listed register
  exact grown

/-- A name is not refused for want of room, if there is room for all names of the list. -/
theorem Refuses.ne_fault {error : GrammarError} {fault : Fault}
    (refuses : declared.Refuses name error) (drawn : declared.names.DrawnFrom names)
    (listed : ∀ valid ∈ valid? name, valid ∈ names)
    (room : names.dedup.length + 2 ≤ NameTable.capacity) : error ≠ .fault fault := by
  cases refuses with
  | invalid => simp
  | mismatch => simp
  | full valid absent full =>
    have less := drawn.room (listed name (by rw [valid?, if_pos valid]; rfl)) absent
    exact absurd (Nat.lt_of_lt_of_le less room) full

/-- What is said by the name of a symbol is no fault, if the table holds it. -/
theorem report_ne_fault {α : Type} {fault : Fault} {report : String → GrammarError}
    (inside : s.id < declared.names.size) (plain : ∀ name, report name ≠ .fault fault) :
    (do .error (report (← declared.nameOf s)) : Except GrammarError α) ≠ .error (.fault fault) := by
  obtain ⟨name, named⟩ := exists_nameOf inside
  rw [named]
  intro same
  exact plain name (Except.error.inj same)

/-- A symbol is rejected with a fault if it is outside the table. -/
theorem Rejects.eq_fault {fault : Fault} (rejects : declared.Rejects s (.fault fault)) :
    declared.names.size ≤ s.id ∧ fault = .unknownSymbol s := by
  cases rejects with
  | outside outside => exact ⟨outside, rfl⟩

theorem Sound.not_mem_nonterminals (sound : declared.Sound) (outside : declared.names.size ≤ s.id) :
    s ∉ declared.nonterminals.items := fun listed =>
  absurd (sound.nonterminal_named listed).1 (Nat.not_lt.mpr outside)

theorem Sound.designateStart_of_outside (sound : declared.Sound)
    (outside : declared.names.size ≤ s.id) :
    declared.designateStart s = .error (.fault (.unknownSymbol s)) := by
  have other := sound.not_mem_nonterminals outside
  simp only [Declarations.designateStart, OrderedSet.contains, decide_eq_true_eq, if_neg other,
    nameOf_of_outside outside]
  rfl

end Declarations

/-! ### Plain grammars -/

namespace Definition

variable {definition : Definition} {s : Symbol} {fault : Fault} {step : Step}
  {steps : List Step} {names : List String}

/-- The name that a step declares, if it may be declared. -/
def Step.declares? : Step → Option String
  | .terminal name => Declarations.valid? name
  | .nonterminal name => Declarations.valid? name
  | .rule _ _ => none
  | .start _ => none

/-- A step that comes upon a symbol outside the table of names. The right-hand side of a rule is
looked at first, and such a symbol there is reported. -/
inductive Strays (definition : Definition) : Step → Symbol → Prop where
  /-- It is the left-hand side of a rule. -/
  | rule {left : Symbol} {right : List Symbol}
      (inside : ∀ t ∈ right, t.id < definition.declared.names.size)
      (outside : definition.declared.names.size ≤ left.id) :
      Strays definition (.rule left right) left
  /-- It is the start symbol. -/
  | start {s : Symbol} (outside : definition.declared.names.size ≤ s.id) :
      Strays definition (.start s) s

/-- The table of names holds what was declared. -/
theorem drawnFrom_tryAll (listed : ∀ step ∈ steps, ∀ name ∈ step.declares?, name ∈ names) :
    (tryAll take .empty steps).declared.names.DrawnFrom names := by
  refine tryAll_invariant (fun definition : Definition => definition.declared.names.DrawnFrom names)
    (NameTable.drawnFrom_reserved names) ?_
  intro definition next step member drawn taken
  have valid := listed step member
  cases step with
  | terminal name =>
    obtain ⟨_, declare, rest⟩ := bind_eq_ok_iff.mp taken
    obtain ⟨_, declared, rest'⟩ := bind_eq_ok_iff.mp declare
    cases rest
    cases rest'
    exact Declarations.drawnFrom_of_terminal drawn valid declared
  | nonterminal name =>
    obtain ⟨_, declare, rest⟩ := bind_eq_ok_iff.mp taken
    obtain ⟨_, declared, rest'⟩ := bind_eq_ok_iff.mp declare
    have grown := Declarations.drawnFrom_of_nonterminal drawn valid declared
    cases rest
    dsimp only at rest'
    split at rest'
    · cases rest'
      exact grown
    · cases rest'
      exact grown
  | rule left right =>
    obtain ⟨alternatives, -, rfl⟩ := rule_cases taken
    exact drawn
  | start s =>
    obtain ⟨declared, designate, rest⟩ := bind_eq_ok_iff.mp taken
    cases rest
    obtain ⟨-, rfl⟩ := Declarations.designateStart_cases designate
    exact drawn

theorem Strays.take_eq (strays : definition.Strays step s) (built : definition.Built) :
    definition.take step = .error (.fault (.unknownSymbol s)) := by
  cases strays with
  | @rule _ right inside outside =>
    have undefined : definition.rules.get? s = none := by
      rw [OrderedMap.get?_eq_none_iff, built.sound.mem_keys_iff]
      exact built.sound.declared.not_mem_nonterminals outside
    have named : (Alternative.ofSymbols right).symbols.find?
        (fun t => decide (definition.declared.names.size ≤ t.id)) = none := by
      rw [List.find?_eq_none]
      intro t listed
      simpa using inside t (List.mem_of_mem_filter listed)
    simp only [take, Definition.rule, named, undefined, Declarations.nameOf_of_outside outside]
    rfl
  | start outside =>
    simp only [take, designateStart, built.sound.declared.designateStart_of_outside outside]
    rfl

/-- A step is a fault exactly if it comes upon a symbol outside the table of names. -/
theorem take_eq_fault_iff (built : definition.Built)
    (drawn : definition.declared.names.DrawnFrom names)
    (listed : ∀ name ∈ step.declares?, name ∈ names)
    (room : names.dedup.length + 2 ≤ NameTable.capacity) :
    definition.take step = .error (.fault fault) ↔
      ∃ s, definition.Strays step s ∧ fault = .unknownSymbol s := by
  constructor
  · intro failed
    generalize whole : GrammarError.fault fault = error at failed
    cases blocks_of_take failed with
    | terminal refuses => exact absurd whole.symm (refuses.ne_fault drawn listed room)
    | nonterminal refuses => exact absurd whole.symm (refuses.ne_fault drawn listed room)
    | foreign => cases whole
    | rule inside rejects =>
      obtain ⟨outside, same⟩ := (whole ▸ rejects).eq_fault
      exact ⟨_, .rule inside outside, same⟩
    | start rejects =>
      obtain ⟨outside, same⟩ := (whole ▸ rejects).eq_fault
      exact ⟨_, .start outside, same⟩
  · rintro ⟨s, strays, rfl⟩
    exact strays.take_eq built

end Definition

/-! ### EBNF grammars -/

namespace EbnfDefinition

variable {definition : EbnfDefinition} {s left : Symbol} {fault : Fault} {step : Step}
  {steps : List Step} {names : List String} {expr : Expr}

/-- The name that a step declares, if it may be declared. -/
def Step.declares? : Step → Option String
  | .terminal name => Declarations.valid? name
  | .nonterminal name => Declarations.valid? name
  | .rule _ _ => none
  | .start _ => none

/-- A step that comes upon a symbol outside the table of names. The expression of a rule is not
looked at yet. -/
inductive Strays (definition : EbnfDefinition) : Step → Symbol → Prop where
  /-- It is the left-hand side of a rule. -/
  | rule {left : Symbol} {expr : Expr} (outside : definition.declared.names.size ≤ left.id) :
      Strays definition (.rule left expr) left
  /-- It is the start symbol. -/
  | start {s : Symbol} (outside : definition.declared.names.size ≤ s.id) :
      Strays definition (.start s) s

/-- The check of the expression of `left` comes upon a symbol outside the table of names, and
whatever stands before it is in order. -/
inductive Meets (definition : EbnfDefinition) (left : Symbol) : Expr → Symbol → Prop where
  /-- It stands for one token. -/
  | terminal {s : Symbol} (outside : definition.declared.names.size ≤ s.id) :
      Meets definition left (.terminal s) s
  /-- It stands for a nonterminal. -/
  | nonterminal {s : Symbol} (outside : definition.declared.names.size ≤ s.id) :
      Meets definition left (.nonterminal s) s
  /-- It is in a part of a chain. -/
  | chain {before after : List Expr} {part : Expr} {s : Symbol}
      (passed : ∀ earlier ∈ before, definition.check left earlier = .ok ())
      (meets : Meets definition left part s) :
      Meets definition left (.chain (before ++ part :: after)) s
  /-- It is in a part of a choice. -/
  | choice {before after : List Expr} {part : Expr} {s : Symbol}
      (passed : ∀ earlier ∈ before, definition.check left earlier = .ok ())
      (meets : Meets definition left part s) :
      Meets definition left (.choice (before ++ part :: after)) s
  /-- It is in something optional. -/
  | optional {body : Expr} {s : Symbol} (meets : Meets definition left body s) :
      Meets definition left (.optional body) s
  /-- It is in a repetition. -/
  | zeroOrMore {body : Expr} {s : Symbol} (meets : Meets definition left body s) :
      Meets definition left (.zeroOrMore body) s
  /-- It is in a repetition that is not empty. -/
  | oneOrMore {body : Expr} {s : Symbol} (meets : Meets definition left body s) :
      Meets definition left (.oneOrMore body) s

/-- The final check comes upon a symbol outside the table of names, in the first expression that is
not in order. -/
structure Founders (definition : EbnfDefinition) (s : Symbol) : Prop where
  /-- There is a start symbol. -/
  started : ∃ start, definition.declared.startSymbol = .ok start
  /-- Every nonterminal has an expression. -/
  defined : ∀ t ∈ definition.declared.nonterminals.items, definition.rules.contains t = true
  /-- The symbol is met in an expression, and those before it are in order. -/
  meets : ∃ before left expr after, definition.rules.entries = before ++ (left, expr) :: after ∧
    (∀ entry ∈ before, definition.check entry.1 entry.2 = .ok ()) ∧ definition.Meets left expr s

/-- The table of names holds what was declared. -/
theorem drawnFrom_tryAll (listed : ∀ step ∈ steps, ∀ name ∈ step.declares?, name ∈ names) :
    (tryAll take .empty steps).declared.names.DrawnFrom names := by
  refine tryAll_invariant
    (fun definition : EbnfDefinition => definition.declared.names.DrawnFrom names)
    (NameTable.drawnFrom_reserved names) ?_
  intro definition next step member drawn taken
  have valid := listed step member
  cases step with
  | terminal name =>
    obtain ⟨_, declare, rest⟩ := bind_eq_ok_iff.mp taken
    obtain ⟨_, declared, rest'⟩ := bind_eq_ok_iff.mp declare
    cases rest
    cases rest'
    exact Declarations.drawnFrom_of_terminal drawn valid declared
  | nonterminal name =>
    obtain ⟨_, declare, rest⟩ := bind_eq_ok_iff.mp taken
    obtain ⟨_, declared, rest'⟩ := bind_eq_ok_iff.mp declare
    cases rest
    cases rest'
    exact Declarations.drawnFrom_of_nonterminal drawn valid declared
  | rule left expr =>
    obtain ⟨-, rfl⟩ := rule_cases taken
    exact drawn
  | start s =>
    obtain ⟨declared, designate, rest⟩ := bind_eq_ok_iff.mp taken
    cases rest
    obtain ⟨-, rfl⟩ := Declarations.designateStart_cases designate
    exact drawn

theorem Strays.take_eq (strays : definition.Strays step s) (built : definition.Built) :
    definition.take step = .error (.fault (.unknownSymbol s)) := by
  cases strays with
  | rule outside =>
    have other := built.sound.declared.not_mem_nonterminals outside
    simp only [take, EbnfDefinition.rule, OrderedSet.contains, decide_eq_false other,
      Bool.not_false, if_true, Declarations.nameOf_of_outside outside]
    rfl
  | start outside =>
    simp only [take, designateStart, built.sound.declared.designateStart_of_outside outside]
    rfl

theorem rejects_of_rule (built : definition.Built)
    (failed : definition.rule left expr = .error (.fault fault)) :
    definition.declared.Rejects left (.fault fault) := by
  unfold rule at failed
  split at failed
  · exact Declarations.rejects_of_nameOf failed
  · next listed =>
    split at failed
    · -- a second rule is reported by the name of its nonterminal
      have known : left ∈ definition.declared.nonterminals.items := by
        simpa [OrderedSet.contains] using listed
      have inside := (built.sound.declared.nonterminal_named known).1
      exact absurd failed (Declarations.report_ne_fault inside (by simp))
    · cases failed

/-- A step is a fault exactly if it comes upon a symbol outside the table of names. -/
theorem take_eq_fault_iff (built : definition.Built)
    (drawn : definition.declared.names.DrawnFrom names)
    (listed : ∀ name ∈ step.declares?, name ∈ names)
    (room : names.dedup.length + 2 ≤ NameTable.capacity) :
    definition.take step = .error (.fault fault) ↔
      ∃ s, definition.Strays step s ∧ fault = .unknownSymbol s := by
  constructor
  · intro failed
    cases step with
    | terminal name =>
      rcases bind_eq_error_iff.mp failed with inner | ⟨_, -, rest⟩
      · rcases bind_eq_error_iff.mp inner with declare | ⟨_, -, rest⟩
        · exact absurd rfl
            ((Declarations.refuses_of_terminal declare).ne_fault drawn listed room)
        · cases rest
      · cases rest
    | nonterminal name =>
      rcases bind_eq_error_iff.mp failed with inner | ⟨_, -, rest⟩
      · rcases bind_eq_error_iff.mp inner with declare | ⟨_, -, rest⟩
        · exact absurd rfl
            ((Declarations.refuses_of_nonterminal declare).ne_fault drawn listed room)
        · cases rest
      · cases rest
    | rule left expr =>
      obtain ⟨outside, same⟩ := (rejects_of_rule built failed).eq_fault
      exact ⟨left, .rule outside, same⟩
    | start s =>
      rcases bind_eq_error_iff.mp failed with designate | ⟨_, -, rest⟩
      · obtain ⟨outside, same⟩ := (Declarations.rejects_of_designateStart designate).eq_fault
        exact ⟨s, .start outside, same⟩
      · cases rest
  · rintro ⟨s, strays, rfl⟩
    exact strays.take_eq built

/-! ### The check of an expression -/

/-- A symbol that cannot be referred to is a fault if it is outside the table of names; the empty
marker is not. -/
theorem undefined_eq_fault_iff (named : left.id < definition.declared.names.size) :
    definition.undefined left s = .error (.fault fault) ↔
      definition.declared.names.size ≤ s.id ∧ fault = .unknownSymbol s := by
  unfold undefined
  by_cases inside : s.id < definition.declared.names.size
  · obtain ⟨name, found⟩ := Declarations.exists_nameOf inside
    rw [found]
    refine iff_of_false ?_ fun outside => Nat.not_le.mpr inside outside.1
    exact Declarations.report_ne_fault named (by simp)
  · have outside := Nat.not_lt.mp inside
    rw [Declarations.nameOf_of_outside outside]
    simp [bind, Except.bind, outside, eq_comm]

theorem lt_size_of_isKnown (known : definition.isKnown s = true) :
    s.id < definition.declared.names.size := by
  rw [isKnown, Bool.and_eq_true, decide_eq_true_eq] at known
  exact known.1

/-- A symbol that can be referred to and is not what it should be is reported by its name. -/
theorem use_eq_fault_iff (named : left.id < definition.declared.names.size) {wrong : Prop}
    [Decidable wrong] {report : String → GrammarError}
    (plain : ∀ name, report name ≠ .fault fault) :
    (if !definition.isKnown s then definition.undefined left s
      else if wrong then do .error (report (← definition.declared.nameOf s))
      else .ok ()) = .error (.fault fault) ↔
      definition.declared.names.size ≤ s.id ∧ fault = .unknownSymbol s := by
  cases known : definition.isKnown s with
  | false => exact undefined_eq_fault_iff named
  | true =>
    have inside := lt_size_of_isKnown known
    refine iff_of_false ?_ fun outside => Nat.not_le.mpr inside outside.1
    rw [Bool.not_true, if_neg Bool.false_ne_true]
    split
    · exact Declarations.report_ne_fault inside plain
    · simp

theorem checkAll_eq_forM (parts : List Expr) :
    definition.checkAll left parts = parts.forM (definition.check left) := by
  induction parts with
  | nil => rfl
  | cons part rest ih => rw [checkAll, ih]; rfl

/-- The first part of a list that is not in order decides. -/
theorem checkAll_eq_fault_iff {parts : List Expr}
    (each : ∀ part ∈ parts, definition.check left part = .error (.fault fault) ↔
      ∃ s, definition.Meets left part s ∧ fault = .unknownSymbol s) :
    definition.checkAll left parts = .error (.fault fault) ↔
      ∃ s before part after, parts = before ++ part :: after ∧
        (∀ earlier ∈ before, definition.check left earlier = .ok ()) ∧
        definition.Meets left part s ∧ fault = .unknownSymbol s := by
  rw [checkAll_eq_forM, forM_eq_error_iff]
  constructor
  · rintro ⟨before, part, after, rfl, passed, failed⟩
    obtain ⟨s, meets, same⟩ := (each part (by simp)).mp failed
    exact ⟨s, before, part, after, rfl, passed, meets, same⟩
  · rintro ⟨s, before, part, after, rfl, passed, meets, same⟩
    exact ⟨before, part, after, rfl, passed, (each part (by simp)).mpr ⟨s, meets, same⟩⟩

/-- The check of an expression is a fault exactly if it comes upon a symbol outside the table of
names. -/
theorem check_eq_fault_iff (named : left.id < definition.declared.names.size) :
    definition.check left expr = .error (.fault fault) ↔
      ∃ s, definition.Meets left expr s ∧ fault = .unknownSymbol s := by
  -- a wrapper has the faults of its body, and so it is for the three of them
  have wraps : ∀ {body wrapped : Expr}, definition.check left wrapped = definition.check left body →
      (∀ s, definition.Meets left wrapped s ↔ definition.Meets left body s) →
      (definition.check left body = .error (.fault fault) ↔
        ∃ s, definition.Meets left body s ∧ fault = .unknownSymbol s) →
      (definition.check left wrapped = .error (.fault fault) ↔
        ∃ s, definition.Meets left wrapped s ∧ fault = .unknownSymbol s) := by
    intro body wrapped checked meets ih
    simp only [checked, meets, ih]
  induction expr using Expr.induction with
  | terminal s =>
    rw [check, checkTerminal, use_eq_fault_iff named (by simp)]
    constructor
    · intro outside
      exact ⟨s, .terminal outside.1, outside.2⟩
    · rintro ⟨t, meets, same⟩
      cases meets with
      | terminal outside => exact ⟨outside, same⟩
  | nonterminal s =>
    rw [check, checkNonterminal, use_eq_fault_iff named (by simp)]
    constructor
    · intro outside
      exact ⟨s, .nonterminal outside.1, outside.2⟩
    · rintro ⟨t, meets, same⟩
      cases meets with
      | nonterminal outside => exact ⟨outside, same⟩
  | chain parts ih =>
    rw [check, checkAll_eq_fault_iff ih]
    constructor
    · rintro ⟨s, before, part, after, rfl, passed, meets, same⟩
      exact ⟨s, .chain passed meets, same⟩
    · rintro ⟨s, whole, same⟩
      cases whole with
      | chain passed meets => exact ⟨s, _, _, _, rfl, passed, meets, same⟩
  | choice parts ih =>
    have offered : definition.check left (.choice parts) = .error (.fault fault) ↔
        definition.checkAll left parts = .error (.fault fault) := by
      rw [check]
      split
      · next empty =>
        -- an empty choice is reported by the name of the nonterminal
        rw [List.isEmpty_iff.mp empty]
        exact iff_of_false (Declarations.report_ne_fault named (by simp)) (by simp [checkAll])
      · rfl
    rw [offered, checkAll_eq_fault_iff ih]
    constructor
    · rintro ⟨s, before, part, after, rfl, passed, meets, same⟩
      exact ⟨s, .choice passed meets, same⟩
    · rintro ⟨s, whole, same⟩
      cases whole with
      | choice passed meets => exact ⟨s, _, _, _, rfl, passed, meets, same⟩
  | optional body ih =>
    refine wraps (by rw [check]) (fun s => ⟨fun whole => ?_, .optional⟩) ih
    cases whole with
    | optional meets => exact meets
  | zeroOrMore body ih =>
    refine wraps (by rw [check]) (fun s => ⟨fun whole => ?_, .zeroOrMore⟩) ih
    cases whole with
    | zeroOrMore meets => exact meets
  | oneOrMore body ih =>
    refine wraps (by rw [check]) (fun s => ⟨fun whole => ?_, .oneOrMore⟩) ih
    cases whole with
    | oneOrMore meets => exact meets

/-! ### The final check -/

theorem startSymbol_ne_fault : definition.declared.startSymbol ≠ .error (.fault fault) := by
  unfold Declarations.startSymbol
  split
  · simp
  · split
    · simp
    · simp

/-- That an expression is missing is reported by the name of its nonterminal. -/
theorem Built.checkDefined_ne_fault (built : definition.Built)
    (listed : s ∈ definition.declared.nonterminals.items) :
    definition.checkDefined s ≠ .error (.fault fault) := by
  unfold checkDefined
  split
  · simp
  · exact Declarations.report_ne_fault (built.sound.declared.nonterminal_named listed).1 (by simp)

theorem checkDefined_eq_ok_iff :
    definition.checkDefined s = .ok () ↔ definition.rules.contains s = true := by
  unfold checkDefined
  split
  · next given => exact iff_of_true rfl given
  · next missing =>
    refine iff_of_false (fun passed => ?_) missing
    obtain ⟨name, -, rest⟩ := bind_eq_ok_iff.mp passed
    cases rest

/-- The final check is a fault exactly if it comes upon a symbol outside the table of names. -/
theorem Built.finish_eq_fault_iff (built : definition.Built) :
    definition.finish = .error (.fault fault) ↔
      ∃ s, definition.Founders s ∧ fault = .unknownSymbol s := by
  have named : ∀ entry ∈ definition.rules.entries,
      entry.1.id < definition.declared.names.size := by
    intro entry listed
    have known := built.sound.mem_nonterminals (List.mem_map_of_mem listed)
    exact (built.sound.declared.nonterminal_named known).1
  constructor
  · intro failed
    -- the checks come in this order: the start symbol, missing expressions, the expressions
    rcases bind_eq_error_iff.mp failed with chosen | ⟨start, started, rest⟩
    · exact absurd chosen startSymbol_ne_fault
    rcases bind_eq_error_iff.mp rest with missing | ⟨_, defined, rest⟩
    · obtain ⟨before, s, after, split, -, failed⟩ := forM_eq_error_iff.mp missing
      have listed : s ∈ definition.declared.nonterminals.items := by rw [split]; simp
      exact absurd failed (built.checkDefined_ne_fault listed)
    rcases bind_eq_error_iff.mp rest with checked | ⟨_, -, last⟩
    · obtain ⟨before, entry, after, split, passed, failed⟩ := forM_eq_error_iff.mp checked
      have listed : entry ∈ definition.rules.entries := by rw [split]; simp
      obtain ⟨s, meets, same⟩ := (check_eq_fault_iff (named entry listed)).mp failed
      have given := fun t member => checkDefined_eq_ok_iff.mp (forM_eq_ok_iff.mp defined t member)
      exact ⟨s, ⟨⟨start, started⟩, given, before, entry.1, entry.2, after, split, passed, meets⟩,
        same⟩
    · cases last
  · rintro ⟨s, ⟨⟨start, started⟩, given, before, left, expr, after, split, passed, meets⟩, same⟩
    have listed : (left, expr) ∈ definition.rules.entries := by rw [split]; simp
    have failed := (check_eq_fault_iff (named _ listed)).mpr ⟨s, meets, same⟩
    have defined := forM_eq_ok_iff.mpr fun t member => checkDefined_eq_ok_iff.mpr (given t member)
    have checked := forM_eq_error_iff.mpr
      ⟨before, (left, expr), after, split, passed, failed⟩
    refine bind_eq_error_iff.mpr (Or.inr ⟨start, started, ?_⟩)
    refine bind_eq_error_iff.mpr (Or.inr ⟨(), defined, ?_⟩)
    exact bind_eq_error_iff.mpr (Or.inl checked)

end EbnfDefinition

/-! ### All faults -/

/-- A fault of a definition is a symbol outside the table of names: on the left-hand side of a rule,
as the start symbol, or in the expression at which the final check of an EBNF grammar stops. There
is no other fault, whatever steps were tried, as long as there is room for all names that they
declare. -/
theorem fault_iff_outside (steps : List Definition.Step) (ebnf : List EbnfDefinition.Step)
    (fault : Fault) :
    (∀ step, ((steps ++ [step]).filterMap Definition.Step.declares?).dedup.length + 2 ≤
        NameTable.capacity →
      ((tryAll Definition.take .empty steps).take step = .error (.fault fault) ↔
        ∃ s, (tryAll Definition.take .empty steps).Strays step s ∧ fault = .unknownSymbol s)) ∧
    (tryAll Definition.take .empty steps).finish ≠ .error (.fault fault) ∧
    (∀ step, ((ebnf ++ [step]).filterMap EbnfDefinition.Step.declares?).dedup.length + 2 ≤
        NameTable.capacity →
      ((tryAll EbnfDefinition.take .empty ebnf).take step = .error (.fault fault) ↔
        ∃ s, (tryAll EbnfDefinition.take .empty ebnf).Strays step s ∧
          fault = .unknownSymbol s)) ∧
    ((tryAll EbnfDefinition.take .empty ebnf).finish = .error (.fault fault) ↔
      ∃ s, (tryAll EbnfDefinition.take .empty ebnf).Founders s ∧ fault = .unknownSymbol s) := by
  refine ⟨fun step room => ?_, fun failed => ?_, fun step room => ?_, ?_⟩
  · have listed : ∀ other ∈ steps ++ [step], ∀ name ∈ other.declares?,
        name ∈ (steps ++ [step]).filterMap Definition.Step.declares? :=
      fun other member name given => List.mem_filterMap.mpr ⟨other, member, given⟩
    refine Definition.take_eq_fault_iff (Definition.Built.empty.tryAll steps)
      (Definition.drawnFrom_tryAll fun other member => ?_) (listed step (by simp)) room
    exact listed other (List.mem_append_left _ member)
  · rcases (Definition.Built.empty.tryAll steps).error_of_finish failed with same | ⟨name, same⟩
    · cases same
    · cases same
  · have listed : ∀ other ∈ ebnf ++ [step], ∀ name ∈ other.declares?,
        name ∈ (ebnf ++ [step]).filterMap EbnfDefinition.Step.declares? :=
      fun other member name given => List.mem_filterMap.mpr ⟨other, member, given⟩
    refine EbnfDefinition.take_eq_fault_iff (EbnfDefinition.Built.empty.tryAll ebnf)
      (EbnfDefinition.drawnFrom_tryAll fun other member => ?_) (listed step (by simp)) room
    exact listed other (List.mem_append_left _ member)
  · exact (EbnfDefinition.Built.empty.tryAll ebnf).finish_eq_fault_iff

/-- A symbol that is reported on the right-hand side of a rule is a fault on the left-hand side, and
in the expression of an EBNF grammar. -/
theorem fault_iff_outside_left :
    (([.nonterminal "S", .rule ⟨2⟩ [⟨7⟩], .rule ⟨7⟩ []] : List Definition.Step).filterMap
      Definition.Step.declares?).dedup.length + 2 ≤ NameTable.capacity ∧
    (tryAll Definition.take .empty [.nonterminal "S", .rule ⟨2⟩ [⟨7⟩]]).take (.rule ⟨7⟩ []) =
      .error (.fault (.unknownSymbol ⟨7⟩)) ∧
    (([.nonterminal "S", .start ⟨7⟩] : List EbnfDefinition.Step).filterMap
      EbnfDefinition.Step.declares?).dedup.length + 2 ≤ NameTable.capacity ∧
    (tryAll EbnfDefinition.take .empty [.nonterminal "S"]).take (.start ⟨7⟩) =
      .error (.fault (.unknownSymbol ⟨7⟩)) ∧
    (tryAll EbnfDefinition.take .empty [.nonterminal "S",
      .rule ⟨2⟩ (.chain [.nonterminal ⟨2⟩, .optional (.terminal ⟨7⟩)])]).finish =
        .error (.fault (.unknownSymbol ⟨7⟩)) := by
  have plain : (([.nonterminal "S", .rule ⟨2⟩ [⟨7⟩], .rule ⟨7⟩ []] : List Definition.Step).filterMap
      Definition.Step.declares?).dedup.length + 2 ≤ NameTable.capacity := by decide +kernel
  have ebnf : (([.nonterminal "S", .start ⟨7⟩] : List EbnfDefinition.Step).filterMap
      EbnfDefinition.Step.declares?).dedup.length + 2 ≤ NameTable.capacity := by decide +kernel
  obtain ⟨rule, -, start, -⟩ := fault_iff_outside [.nonterminal "S", .rule ⟨2⟩ [⟨7⟩]]
    [.nonterminal "S"] (.unknownSymbol ⟨7⟩)
  obtain ⟨-, -, -, finished⟩ := fault_iff_outside [] [.nonterminal "S",
    .rule ⟨2⟩ (.chain [.nonterminal ⟨2⟩, .optional (.terminal ⟨7⟩)])] (.unknownSymbol ⟨7⟩)
  refine ⟨plain, (rule (.rule ⟨7⟩ []) plain).mpr ⟨⟨7⟩, ?_, rfl⟩, ebnf,
    (start (.start ⟨7⟩) ebnf).mpr ⟨⟨7⟩, ?_, rfl⟩, finished.mpr ⟨⟨7⟩, ?_, rfl⟩⟩
  · exact .rule (by simp) (by decide +kernel)
  · exact .start (by decide +kernel)
  · refine ⟨⟨⟨2⟩, rfl⟩, by decide +kernel, [], ⟨2⟩, _, [], rfl, by simp, ?_⟩
    change EbnfDefinition.Meets _ _
      (.chain ([.nonterminal ⟨2⟩] ++ .optional (.terminal ⟨7⟩) :: [])) _
    exact .chain (by decide +kernel) (.optional (.terminal (by decide +kernel)))

/-- Not every symbol that a definition has no use for is reported, neither by a step nor by the
final check. -/
theorem not_always_reported :
    (¬ ∀ (steps : List Definition.Step) (step : Definition.Step) (fault : Fault),
      ((steps ++ [step]).filterMap Definition.Step.declares?).dedup.length ≤ 65534 →
      (tryAll Definition.take .empty steps).take step ≠ .error (.fault fault)) ∧
    ¬ ∀ (steps : List EbnfDefinition.Step) (fault : Fault),
      (steps.filterMap EbnfDefinition.Step.declares?).dedup.length ≤ 65534 →
      (tryAll EbnfDefinition.take .empty steps).finish ≠ .error (.fault fault) := by
  constructor
  · intro reported
    exact reported [.nonterminal "S"] (.start ⟨7⟩) (.unknownSymbol ⟨7⟩) (by decide +kernel) rfl
  · intro reported
    exact reported [.nonterminal "S", .rule ⟨2⟩ (.terminal ⟨7⟩)] (.unknownSymbol ⟨7⟩)
      (by decide +kernel) rfl

end Predictive
