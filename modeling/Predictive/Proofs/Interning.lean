import Predictive.Proofs.Declarations

/-!
# Interning is a bijection up to the limit

A table into which names are interned one after the other lists the names in the order in which they
arrived, each once. This decides everything: what the symbol of a name is, which names are new, and
when the table is full. There is no room for a name exactly if so many names arrived before it that
another position would not fit into sixteen bits. A position that was handed out fits, so that
nothing is cut off when the name is looked up.

## Main definitions

* `NameTable.arrivals` — the reserved names and those that are interned, each once
* `NameTable.Interned` — what holds of a table after any number of names

## Main results

* `NameTable.Arrived.intern` — one more name
* `NameTable.arrived_internAll` — any number of names, as long as there is room
* `NameTable.internAll_interned` — interning is a stable bijection up to the limit
-/

namespace Predictive

namespace NameTable

variable {table next last : NameTable} {s : Symbol} {name : String} {given names : List String}
  {fault : Fault}

/-! ### Any number of names -/

theorem internAll_cons (table : NameTable) (name : String) (names : List String) :
    table.internAll (name :: names) =
      table.intern name >>= fun answer => answer.2.internAll names := by
  rw [internAll, List.foldlM_cons]
  cases table.intern name with
  | error fault => rfl
  | ok answer => rfl

/-- A later table keeps the names handed out before. -/
theorem extends_of_internAll (interned : table.internAll names = .ok last) :
    table.Extends last := by
  induction names generalizing table with
  | nil =>
    cases interned
    exact .refl last
  | cons name names ih =>
    rw [internAll_cons, bind_eq_ok_iff] at interned
    obtain ⟨⟨s, next⟩, first, onward⟩ := interned
    exact (extends_of_intern first).trans (ih onward)

/-- The table lists the given names in order of arrival, each once. -/
def Arrived (given : List String) (table : NameTable) : Prop :=
  table.names.toList = given.eraseDups

theorem Arrived.size_eq (arrived : Arrived given table) :
    table.size = given.eraseDups.length :=
  congrArg List.length arrived

theorem Arrived.get?_eq_none_iff (arrived : Arrived given table) :
    table.get? name = none ↔ name ∉ given := by
  rw [get?_eq_none_iff_not_mem, arrived, List.mem_eraseDups]

/-- One more name: a known one changes nothing, and a new one is listed last. -/
theorem Arrived.intern (arrived : Arrived given table)
    (interned : table.intern name = .ok (s, next)) : Arrived (given ++ [name]) next := by
  rw [Arrived, eraseDups_concat]
  rcases intern_cases interned with ⟨rfl, named⟩ | ⟨absent, -, names⟩
  · have listed : name ∈ given := by
      by_contra absent
      rw [← arrived.get?_eq_none_iff, get?_eq_some_iff.mpr named] at absent
      cases absent
    rw [if_pos listed]
    exact arrived
  · rw [if_neg (arrived.get?_eq_none_iff.mp absent), names, Array.toList_push, arrived]

/-- A name for which there is no room comes after as many names as there are positions. -/
theorem Arrived.capacity_lt (arrived : Arrived given table)
    (failed : table.intern name = .error fault) :
    fault = .tooManySymbols ∧ capacity < (given ++ [name]).eraseDups.length := by
  cases found : table.get? name with
  | some s =>
    rw [intern_of_name? (get?_eq_some_iff.mp found)] at failed
    cases failed
  | none =>
    by_cases room : table.size < capacity
    · obtain ⟨next, interned, -⟩ := intern_of_room found room
      rw [interned] at failed
      cases failed
    · rw [intern_of_full found room] at failed
      cases failed
      -- the name would be one more than there are, and there are as many as positions
      have size := arrived.size_eq
      rw [eraseDups_concat, if_neg (arrived.get?_eq_none_iff.mp found), List.length_append,
        List.length_singleton]
      exact ⟨rfl, by omega⟩

theorem length_eraseDups_le_append (names others : List String) :
    names.eraseDups.length ≤ (names ++ others).eraseDups.length := by
  rw [List.eraseDups_append, List.length_append]
  exact Nat.le_add_right _ _

/-- Any number of names: they are listed in order of arrival, unless there are more of them than
positions. -/
theorem Arrived.internAll (arrived : Arrived given table) (names : List String) :
    (table.internAll names = .error .tooManySymbols ∧
        capacity < (given ++ names).eraseDups.length) ∨
      ∃ last, table.internAll names = .ok last ∧ Arrived (given ++ names) last := by
  induction names generalizing given table with
  | nil => exact Or.inr ⟨table, rfl, by rwa [List.append_nil]⟩
  | cons name names ih =>
    rw [internAll_cons, ← List.singleton_append, ← List.append_assoc]
    cases first : table.intern name with
    -- names that are not tried any more could only add to those that arrived
    | error fault =>
      obtain ⟨rfl, full⟩ := arrived.capacity_lt first
      exact Or.inl ⟨rfl, Nat.lt_of_lt_of_le full (length_eraseDups_le_append _ names)⟩
    | ok answer => exact ih (arrived.intern first)

/-! ### The table after a run -/

/-- The reserved names and those that were interned, each once and in order of arrival. -/
def arrivals (calls : List String) : List String := ("" :: "EOF" :: calls).eraseDups

/-- What holds of a table into which names were interned one after the other. -/
structure Interned (calls : List String) (table : NameTable) : Prop where
  /-- The names are those that arrived, in this order. -/
  names_eq : table.names.toList = arrivals calls
  /-- No two symbols share a name. -/
  nodup : table.names.toList.Nodup
  /-- The empty name belongs to the first position. -/
  epsilon : table.get? "" = some ⟨0⟩
  /-- The end of input belongs to the second position. -/
  eof : table.get? "EOF" = some ⟨1⟩
  /-- Looking a name up gives the one symbol in the table that bears it. -/
  get?_iff : ∀ name s, table.get? name = some s ↔ s.id < table.size ∧ table.name s = .ok name
  /-- A position that is looked up keeps all its bits. -/
  fits : ∀ (name : String) (i : Nat), table.index[name]? = some i → symbolAt i = ⟨i⟩
  /-- The positions fit into sixteen bits. -/
  size_le : table.size ≤ capacity
  /-- A known name is answered with its symbol. -/
  known : ∀ name s, table.get? name = some s → table.intern name = .ok (s, table)
  /-- A new name gets the next position. -/
  fresh : ∀ name, table.get? name = none → table.size < capacity →
    ∃ next, table.intern name = .ok (⟨table.size⟩, next) ∧ next.names = table.names.push name
  /-- Interning fails exactly if a new name comes to a full table. -/
  full : ∀ name fault, table.intern name = .error fault ↔
    fault = .tooManySymbols ∧ table.get? name = none ∧ table.size = capacity
  /-- Whatever is interned later, a symbol keeps its name. -/
  stable : ∀ later last, table.internAll later = .ok last →
    ∀ s name, table.name s = .ok name → last.name s = .ok name

theorem get?_iff_name : table.get? name = some s ↔ s.id < table.size ∧ table.name s = .ok name := by
  rw [get?_eq_some_iff, name_eq_ok_iff]
  exact ⟨fun named => ⟨lt_size_of_name? named, named⟩, And.right⟩

theorem symbolAt_of_index {i : Nat} (found : table.index[name]? = some i) : symbolAt i = ⟨i⟩ := by
  have converted : table.get? name = some (symbolAt i) := by rw [get?, found]; rfl
  rw [get?_eq_map, found] at converted
  exact (Option.some.inj converted).symm

theorem intern_eq_error_iff :
    table.intern name = .error fault ↔
      fault = .tooManySymbols ∧ table.get? name = none ∧ table.size = capacity := by
  have bounded : table.size ≤ capacity := table.size_le
  cases found : table.get? name with
  | some s =>
    rw [intern_of_name? (get?_eq_some_iff.mp found)]
    simp
  | none =>
    by_cases room : table.size < capacity
    · obtain ⟨next, interned, -⟩ := intern_of_room found room
      simp [interned, Nat.ne_of_lt room]
    · have size : table.size = capacity := by omega
      simp [intern_of_full found room, size, eq_comm]

theorem Arrived.interned {calls : List String}
    (arrived : Arrived ("" :: "EOF" :: calls) table) : Interned calls table where
  names_eq := arrived
  nodup := table.nodup_names
  epsilon := get?_eq_some_iff.mpr name?_epsilon
  eof := get?_eq_some_iff.mpr name?_eof
  get?_iff _ _ := get?_iff_name
  fits _ _ := symbolAt_of_index
  size_le := table.size_le
  known _ _ found := intern_of_name? (get?_eq_some_iff.mp found)
  fresh _ := intern_of_room
  full _ _ := intern_eq_error_iff
  stable _ _ interned _ _ named :=
    name_eq_ok_iff.mpr ((extends_of_internAll interned).name?_eq_some (name_eq_ok_iff.mp named))

theorem arrived_reserved : Arrived ["", "EOF"] reserved :=
  (eraseDups_of_nodup (by decide)).symm

/-- Interning is a stable bijection up to the limit. From the table that holds the reserved names
only, interning any number of names either fails, and then there are more of them than positions,
or ends in a table where names and positions correspond one to one and stay what they are. -/
theorem internAll_interned (calls : List String) :
    (reserved.internAll calls = .error .tooManySymbols ∧ capacity < (arrivals calls).length) ∨
      ∃ table, reserved.internAll calls = .ok table ∧ Interned calls table := by
  rcases arrived_reserved.internAll calls with failed | ⟨table, ended, arrived⟩
  · exact Or.inl failed
  · exact Or.inr ⟨table, ended, arrived.interned⟩

end NameTable

end Predictive
