import Std.Data.TreeMap
import Predictive.Fault
import Predictive.Symbol.Set

/-!
# Tables of names

A table of names gives each symbol its name. Names are pairwise distinct, the
first two are the reserved ones, and a new name takes the next free position, so
a symbol handed out once keeps its name for good.

## Main definitions

* `NameTable` — names by position, and positions by name
* `NameTable.reserved` — the table that holds `ε` and `EOF` only
* `NameTable.intern` — the symbol of a name, new or known
* `NameTable.name`, `NameTable.display` — the name of a symbol, plain or readable

## Main results

* `NameTable.get?_eq_map` — a position keeps all its bits
* `NameTable.get?_eq_some_iff` — looking a name up inverts looking a symbol up
-/

namespace Predictive

/-- The number of names that fit in a table: positions take sixteen bits. -/
def NameTable.capacity : Nat := 65536

/-- Names by position together with positions by name. -/
structure NameTable where
  /-- The position of each name. -/
  index : Std.TreeMap String Nat
  /-- The names by position. -/
  names : Array String
  /-- The two directions agree. -/
  index_iff : ∀ (name : String) (i : Nat), index[name]? = some i ↔ names[i]? = some name
  /-- The empty name belongs to `ε`. -/
  name_epsilon : names[0]? = some ""
  /-- The end of input has its reserved name. -/
  name_eof : names[1]? = some "EOF"
  /-- The table does not overflow. -/
  size_le : names.size ≤ NameTable.capacity

namespace NameTable

/-- The table that holds the reserved symbols only. -/
def reserved : NameTable where
  index := ((∅ : Std.TreeMap String Nat).insert "" 0).insert "EOF" 1
  names := #["", "EOF"]
  index_iff := by
    intro name i
    rw [Std.TreeMap.getElem?_insert, Std.TreeMap.getElem?_insert]
    rcases i with _ | _ | i <;> grind
  name_epsilon := rfl
  name_eof := rfl
  size_le := by decide

/-- The number of names, the reserved ones included. -/
def size (table : NameTable) : Nat := table.names.size

/-- The symbol of a position, of which only the lowest sixteen bits are kept. -/
def symbolAt (i : Nat) : Symbol := ⟨i % capacity⟩

/-- The symbol of a known name. -/
def get? (table : NameTable) (name : String) : Option Symbol := table.index[name]?.map symbolAt

/-- Whether a name is known. -/
def contains (table : NameTable) (name : String) : Bool := (table.get? name).isSome

/-- The name of a symbol, if the table holds it. -/
def name? (table : NameTable) (s : Symbol) : Option String := table.names[s.id]?

/-- The name of a symbol. -/
def name (table : NameTable) (s : Symbol) : Except Fault String :=
  match table.name? s with
  | some name => .ok name
  | none => .error (.unknownSymbol s)

/-- The readable form of a symbol: its name, or `ε`. -/
def display (table : NameTable) (s : Symbol) : Except Fault String :=
  if s = .epsilon then .ok "ε" else table.name s

/-- The names of a list of symbols. -/
def namesOf (table : NameTable) (symbols : List Symbol) : Except Fault (List String) :=
  symbols.mapM table.name

/-- The readable form of a set: `\x7ba, b\x7d` by increasing position. -/
def displaySet (table : NameTable) (set : SymbolSet) : Except Fault String := do
  let shown ← set.toList.mapM table.display
  return "\x7b" ++ ", ".intercalate shown ++ "\x7d"

/-- Append a name that is new to the table. -/
def push (table : NameTable) (name : String) (absent : table.index[name]? = none)
    (room : table.size < capacity) : NameTable where
  index := table.index.insert name table.names.size
  names := table.names.push name
  index_iff := by
    intro other i
    have agree := table.index_iff
    rw [Std.TreeMap.getElem?_insert, Array.getElem?_push]
    by_cases same : name = other
    -- the new name stands at the new position and nowhere else
    · subst same
      have unused : ∀ j, table.names[j]? ≠ some name := fun j found => by
        have := (agree name j).mpr found
        rw [absent] at this
        cases this
      by_cases last : i = table.names.size
      · simp [last]
      · simp [last, unused i, Ne.symm last]
    -- every other name keeps its position, which is an old one
    · have fresh : ∀ j, table.index[other]? = some j → j < table.names.size := fun j found =>
        (Array.getElem?_eq_some_iff.mp ((agree other j).mp found)).1
      by_cases last : i = table.names.size
      · subst last
        have : table.index[other]? ≠ some table.names.size := fun found =>
          absurd (fresh _ found) (Nat.lt_irrefl _)
        simp [same, this]
      · simp [same, last, agree]
  name_epsilon := by
    have := (Array.getElem?_eq_some_iff.mp table.name_epsilon).1
    rw [Array.getElem?_push_lt this, ← Array.getElem?_eq_getElem this, table.name_epsilon]
  name_eof := by
    have := (Array.getElem?_eq_some_iff.mp table.name_eof).1
    rw [Array.getElem?_push_lt this, ← Array.getElem?_eq_getElem this, table.name_eof]
  size_le := by
    rw [Array.size_push]
    exact room

/-- The symbol of a name, which is registered if it has not been seen yet. Here the position has
to fit into sixteen bits. -/
def intern (table : NameTable) (name : String) : Except Fault (Symbol × NameTable) :=
  match known : table.get? name with
  | some s => .ok (s, table)
  | none =>
    if room : table.size < capacity then
      .ok (⟨table.size⟩, table.push name (Option.map_eq_none_iff.mp known) room)
    else .error .tooManySymbols

/-- Intern every name of a list, keeping the table only. -/
def internAll (table : NameTable) (names : List String) : Except Fault NameTable :=
  names.foldlM (fun t name => do return (← t.intern name).2) table

/-! ### Looking up -/

variable {table : NameTable} {s : Symbol} {name : String}

/-- No bit of a position is lost, as the table does not overflow. -/
theorem get?_eq_map : table.get? name = table.index[name]?.map Symbol.mk := by
  unfold get?
  cases found : table.index[name]? with
  | none => rfl
  | some i =>
    have inside : i < table.names.size :=
      (Array.getElem?_eq_some_iff.mp ((table.index_iff name i).mp found)).1
    have fits : i < capacity := Nat.lt_of_lt_of_le inside table.size_le
    rw [Option.map_some, Option.map_some, symbolAt, Nat.mod_eq_of_lt fits]

/-- Looking a name up inverts looking a symbol up. -/
theorem get?_eq_some_iff : table.get? name = some s ↔ table.name? s = some name := by
  rw [get?_eq_map]
  cases s with
  | mk i => simp [name?, table.index_iff]

theorem name_eq_ok_iff : table.name s = .ok name ↔ table.name? s = some name := by
  unfold NameTable.name
  split <;> simp_all

theorem name?_isSome_iff : (table.name? s).isSome ↔ s.id < table.size := by
  simp [name?, size]

@[simp] theorem name?_epsilon : table.name? .epsilon = some "" := table.name_epsilon

@[simp] theorem name?_eof : table.name? .eof = some "EOF" := table.name_eof

end NameTable

end Predictive
