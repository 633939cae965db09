import Mathlib.Data.List.Induction
import Predictive.Proofs.Faults

/-!
# Declared names

What a definition has declared is a matter of names: the terminals and the nonterminals are those of
the names that were declared, each once and in the order of the first declaration. A later table of
names gives a symbol the name that it had, so that this can be said by the table that there is in
the end.

## Main definitions

* `NameTable.Spells` — the names of a list of symbols
* `Declarations.properName?` — the name of a terminal that is listed
* `Declarations.Lists` — the names that were declared

## Main results

* `NameTable.Spells.insert` — a symbol that is added to a set of symbols
* `Declarations.Lists.terminal`, `Declarations.Lists.nonterminal` — what a declaration adds
* `Declarations.exists_terminal`, `Declarations.exists_nonterminal` — names that can be declared
-/

namespace Predictive

section Once

variable {α : Type} [DecidableEq α]

/-- An item at the end of a list counts if it is new. -/
theorem eraseDups_concat (items : List α) (item : α) :
    (items ++ [item]).eraseDups =
      if item ∈ items then items.eraseDups else items.eraseDups ++ [item] := by
  have alone : [item].eraseDups = [item] := by
    rw [List.eraseDups_cons]
    rfl
  rw [List.eraseDups_append]
  split
  · next listed => simp [List.removeAll, listed]
  · next absent => simp [List.removeAll, absent, alone]

theorem eraseDups_of_nodup {items : List α} (nodup : items.Nodup) : items.eraseDups = items := by
  induction items using List.reverseRecOn with
  | nil => rfl
  | append_singleton items item ih =>
    rw [List.nodup_append] at nodup
    have absent : item ∉ items := fun listed => nodup.2.2 item listed item (by simp) rfl
    rw [eraseDups_concat, if_neg absent, ih nodup.1]

theorem OrderedSet.items_insert (set : OrderedSet α) (item : α) :
    (set.insert item).items = if item ∈ set.items then set.items else set.items ++ [item] := by
  unfold OrderedSet.insert
  split
  · rfl
  · rfl

end Once

namespace NameTable

variable {table next : NameTable} {s : Symbol} {name : String} {symbols others : List Symbol}
  {names further : List String}

/-- The names of a list of symbols, in order. -/
def Spells (table : NameTable) (symbols : List Symbol) (names : List String) : Prop :=
  symbols.map table.name? = names.map some

theorem spells_nil (table : NameTable) : table.Spells [] [] := rfl

theorem spells_cons :
    table.Spells (s :: symbols) (name :: names) ↔
      table.name? s = some name ∧ table.Spells symbols names := by
  simp [Spells]

theorem Spells.append (front : table.Spells symbols names) (back : table.Spells others further) :
    table.Spells (symbols ++ others) (names ++ further) := by
  rw [Spells, List.map_append, List.map_append, front, back]

theorem Spells.exists_name (spells : table.Spells symbols names) (listed : s ∈ symbols) :
    ∃ name ∈ names, table.name? s = some name := by
  have given : table.name? s ∈ names.map some := spells ▸ List.mem_map_of_mem listed
  obtain ⟨name, member, named⟩ := List.mem_map.mp given
  exact ⟨name, member, named.symm⟩

theorem Spells.exists_symbol (spells : table.Spells symbols names) (listed : name ∈ names) :
    ∃ s ∈ symbols, table.name? s = some name := by
  have given : some name ∈ symbols.map table.name? := spells ▸ List.mem_map_of_mem listed
  exact List.mem_map.mp given

/-- A symbol is listed if its name is. -/
theorem Spells.mem_iff (spells : table.Spells symbols names) (named : table.name? s = some name) :
    s ∈ symbols ↔ name ∈ names := by
  constructor
  · intro listed
    obtain ⟨other, member, same⟩ := spells.exists_name listed
    rw [named] at same
    exact Option.some.inj same ▸ member
  · intro listed
    obtain ⟨other, member, same⟩ := spells.exists_symbol listed
    exact name?_injective named same ▸ member

/-- A later table says the same. -/
theorem Spells.mono (spells : table.Spells symbols names) (grown : table.Extends next) :
    next.Spells symbols names := by
  rw [Spells, ← spells]
  refine List.map_congr_left fun s listed => ?_
  obtain ⟨name, -, named⟩ := spells.exists_name listed
  exact (grown.name?_eq_some named).trans named.symm

/-- The first of two lists of symbols, either of which may be empty. -/
theorem Spells.name?_of_or {chosen : Option Symbol} {given : Option String} {symbols : List Symbol}
    {names : List String} (front : table.Spells chosen.toList given.toList)
    (back : table.Spells symbols names) (first : some s = chosen.or symbols.head?) :
    table.name? s = given.or names.head? := by
  have joined : ∀ {α : Type} (item : Option α) (items : List α),
      item.or items.head? = (item.toList ++ items).head? := by
    intro α item items
    cases item with
    | none => rfl
    | some item => rfl
  have heads := congrArg List.head? (front.append back)
  rw [List.head?_map, List.head?_map, ← joined, ← joined, ← first] at heads
  cases named : given.or names.head? with
  | none =>
    rw [named] at heads
    cases heads
  | some name =>
    rw [named] at heads
    exact Option.some.inj heads

/-- A symbol that is added to a set counts if its name is new. -/
theorem Spells.insert {set : OrderedSet Symbol} (spells : table.Spells set.items names.eraseDups)
    (named : table.name? s = some name) :
    table.Spells (set.insert s).items (names ++ [name]).eraseDups := by
  have known : s ∈ set.items ↔ name ∈ names := by
    rw [spells.mem_iff named, List.mem_eraseDups]
  rw [OrderedSet.items_insert, eraseDups_concat]
  by_cases listed : name ∈ names
  · rw [if_pos (known.mpr listed), if_pos listed]
    exact spells
  · rw [if_neg (mt known.mp listed), if_neg listed]
    exact spells.append (spells_cons.mpr ⟨named, spells_nil table⟩)

end NameTable

namespace Declarations

variable {declared next : Declarations} {s : Symbol} {name : String}
  {terminals nonterminals names : List String}

/-- The name of a terminal that is listed. The end of input is a terminal, and not listed. -/
def properName? (name : String) : Option String := if name = "EOF" then none else some name

/-- The names that were declared, in order and perhaps repeatedly. -/
structure Lists (declared : Declarations) (terminals nonterminals : List String) : Prop where
  /-- The terminals, each once. -/
  terminals : declared.names.Spells declared.terminals.items terminals.eraseDups
  /-- The nonterminals, each once. -/
  nonterminals : declared.names.Spells declared.nonterminals.items nonterminals.eraseDups

theorem lists_empty : empty.Lists [] [] := ⟨rfl, rfl⟩

/-! ### What a declaration adds -/

theorem extends_of_terminal (step : declared.terminal name = .ok (s, next)) :
    declared.names.Extends next.names ∧ next.names.name? s = some name := by
  unfold terminal at step
  split at step
  · next ended =>
    cases step
    exact ⟨.refl _, ended ▸ NameTable.name?_eof⟩
  · obtain ⟨⟨t, registered⟩, register, rest⟩ := bind_eq_ok_iff.mp step
    obtain ⟨-, -, interned⟩ := register_cases register
    dsimp only at rest
    split at rest
    · cases rest
    · cases rest
      exact ⟨NameTable.extends_of_intern interned, NameTable.name?_of_intern interned⟩

theorem extends_of_nonterminal (step : declared.nonterminal name = .ok (s, next)) :
    declared.names.Extends next.names ∧ next.names.name? s = some name := by
  obtain ⟨registered, register, -, rfl⟩ := nonterminal_cases step
  obtain ⟨-, -, interned⟩ := register_cases register
  exact ⟨NameTable.extends_of_intern interned, NameTable.name?_of_intern interned⟩

/-- No start symbol is designated by a declaration. -/
theorem start_of_terminal (step : declared.terminal name = .ok (s, next)) :
    next.start = declared.start := by
  rcases terminal_cases step with ⟨-, rfl⟩ | ⟨registered, register, -, rfl⟩
  · rfl
  · rw [(register_cases register).2.1]

theorem start_of_nonterminal (step : declared.nonterminal name = .ok (s, next)) :
    next.start = declared.start := by
  obtain ⟨registered, register, -, rfl⟩ := nonterminal_cases step
  rw [(register_cases register).2.1]

/-- A terminal that is declared is listed. -/
theorem Lists.terminal (lists : declared.Lists terminals nonterminals)
    (step : declared.terminal name = .ok (s, next)) :
    next.Lists (terminals ++ (properName? name).toList) nonterminals := by
  obtain ⟨grown, named⟩ := extends_of_terminal step
  by_cases ended : name = "EOF"
  · unfold Declarations.terminal at step
    rw [if_pos ended] at step
    cases step
    rw [properName?, if_pos ended, Option.toList_none, List.append_nil]
    exact lists
  · rcases terminal_cases step with ⟨rfl, rfl⟩ | ⟨registered, register, -, rfl⟩
    · rw [NameTable.name?_eof] at named
      exact absurd (Option.some.inj named).symm ended
    · have others := (register_cases register).2.1
      rw [properName?, if_neg ended, Option.toList_some]
      constructor
      · exact (lists.terminals.mono grown).insert named
      · dsimp only
        rw [others]
        exact lists.nonterminals.mono grown

/-- So is a nonterminal. -/
theorem Lists.nonterminal (lists : declared.Lists terminals nonterminals)
    (step : declared.nonterminal name = .ok (s, next)) :
    next.Lists terminals (nonterminals ++ [name]) := by
  obtain ⟨grown, named⟩ := extends_of_nonterminal step
  obtain ⟨registered, register, -, rfl⟩ := nonterminal_cases step
  have others := (register_cases register).2.1
  constructor
  · dsimp only
    rw [others]
    exact lists.terminals.mono grown
  · exact (lists.nonterminals.mono grown).insert named

/-- Nothing is listed by the designation of a start symbol. -/
theorem Lists.designateStart (lists : declared.Lists terminals nonterminals)
    (step : declared.designateStart s = .ok next) : next.Lists terminals nonterminals := by
  obtain ⟨-, rfl⟩ := designateStart_cases step
  exact ⟨lists.terminals, lists.nonterminals⟩

/-! ### Names that can be declared -/

/-- A name can be registered if it is known, or if there is room for it. -/
theorem exists_register (valid : isValidName name = true)
    (room : declared.names.get? name = none → declared.names.size < NameTable.capacity) :
    ∃ s next, declared.register name = .ok (s, next) := by
  rw [register, if_pos valid]
  cases known : declared.names.get? name with
  | some s =>
    rw [NameTable.intern_of_name? (NameTable.get?_eq_some_iff.mp known)]
    exact ⟨_, _, rfl⟩
  | none =>
    obtain ⟨next, interned, -⟩ := NameTable.intern_of_room known (room known)
    rw [interned]
    exact ⟨_, _, rfl⟩

/-- A name that is no nonterminal's can be declared as a terminal. -/
theorem exists_terminal (lists : declared.Lists terminals nonterminals)
    (valid : isValidName name = true ∨ name = "EOF") (apart : name ∉ nonterminals)
    (room : isValidName name = true → declared.names.get? name = none →
      declared.names.size < NameTable.capacity) :
    ∃ s next, declared.terminal name = .ok (s, next) := by
  by_cases ended : name = "EOF"
  · exact ⟨.eof, declared, if_pos ended⟩
  · have proper := valid.resolve_right ended
    obtain ⟨s, registered, register⟩ := exists_register proper (room proper)
    obtain ⟨-, others, interned⟩ := register_cases register
    have grown := NameTable.extends_of_intern interned
    have other : s ∉ declared.nonterminals.items := by
      rw [(lists.nonterminals.mono grown).mem_iff (NameTable.name?_of_intern interned),
        List.mem_eraseDups]
      exact apart
    have kept : registered.nonterminals.contains s = false := by
      rw [others]
      exact decide_eq_false other
    refine ⟨s, { registered with terminals := registered.terminals.insert s }, ?_⟩
    rw [Declarations.terminal, if_neg ended, register]
    simp only [bind, Except.bind, kept, Bool.false_eq_true, if_false]

/-- A name that is no terminal's can be declared as a nonterminal. -/
theorem exists_nonterminal (lists : declared.Lists terminals nonterminals)
    (valid : isValidName name = true) (apart : name ∉ terminals)
    (room : declared.names.get? name = none → declared.names.size < NameTable.capacity) :
    ∃ s next, declared.nonterminal name = .ok (s, next) := by
  obtain ⟨s, registered, register⟩ := exists_register valid room
  obtain ⟨-, others, interned⟩ := register_cases register
  have grown := NameTable.extends_of_intern interned
  have other : s ∉ declared.terminals.items := by
    rw [(lists.terminals.mono grown).mem_iff (NameTable.name?_of_intern interned),
      List.mem_eraseDups]
    exact apart
  have kept : registered.terminals.contains s = false := by
    rw [others]
    exact decide_eq_false other
  refine ⟨s, { registered with nonterminals := registered.nonterminals.insert s }, ?_⟩
  rw [Declarations.nonterminal, register]
  simp only [bind, Except.bind, kept, Bool.false_eq_true, if_false]

/-! ### The start symbol -/

/-- There is a start symbol if there is a nonterminal. -/
theorem exists_startSymbol (nonempty : declared.nonterminals.items ≠ []) :
    ∃ start, declared.startSymbol = .ok start := by
  unfold Declarations.startSymbol
  split
  · exact ⟨_, rfl⟩
  · split
    · exact ⟨_, rfl⟩
    · next none => exact absurd (List.head?_eq_none_iff.mp none) nonempty

theorem startSymbol_eq_ok (chosen : declared.startSymbol = .ok s) :
    some s = declared.start.or declared.nonterminals.items.head? := by
  unfold Declarations.startSymbol at chosen
  split at chosen
  · next designated =>
    cases chosen
    rw [designated]
    rfl
  · next undesignated =>
    rw [undesignated, Option.none_or]
    split at chosen
    · next first =>
      cases chosen
      exact first.symm
    · cases chosen

end Declarations

end Predictive
