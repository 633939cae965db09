import Mathlib.Data.List.Basic
import Mathlib.Data.List.Forall2
import Predictive.Symbol.Names

/-!
# Interning names

Interning a name answers with its symbol. A known name leaves the table as it is; a new one goes
to the end of the table, provided that there is room, and disturbs no symbol handed out before.

## Main results

* `NameTable.intern_of_name?`, `NameTable.intern_of_room`, `NameTable.intern_of_full` — the three
  outcomes of interning
* `NameTable.Extends` — a later table, which keeps the names handed out before
-/

namespace Predictive

/-- A computation in two parts succeeds when both do. -/
theorem bind_eq_ok_iff {ε α β : Type} {first : Except ε α} {second : α → Except ε β} {result : β} :
    first >>= second = .ok result ↔ ∃ value, first = .ok value ∧ second value = .ok result := by
  cases first with
  | error error => simp [bind, Except.bind]
  | ok value => simp [bind, Except.bind]

theorem toOption_eq_some_iff {ε α : Type} {result : Except ε α} {value : α} :
    result.toOption = some value ↔ result = .ok value := by
  cases result with
  | error error => simp [Except.toOption]
  | ok given => simp [Except.toOption]

/-- A computation for each item of a list succeeds when all of them do. -/
theorem forM_eq_ok_iff {ε α : Type} {items : List α} {action : α → Except ε Unit} :
    items.forM action = .ok () ↔ ∀ item ∈ items, action item = .ok () := by
  induction items with
  | nil => simp [pure, Except.pure]
  | cons item rest ih =>
    have unfolded : (item :: rest).forM action = action item >>= fun _ => rest.forM action := rfl
    rw [unfolded, bind_eq_ok_iff, List.forall_mem_cons, ← ih]
    exact ⟨fun ⟨_, first, others⟩ => ⟨first, others⟩, fun ⟨first, others⟩ => ⟨(), first, others⟩⟩

/-- A computation in two parts fails in one of them. -/
theorem bind_eq_error_iff {ε α β : Type} {first : Except ε α} {second : α → Except ε β}
    {error : ε} :
    first >>= second = .error error ↔
      first = .error error ∨ ∃ value, first = .ok value ∧ second value = .error error := by
  cases first with
  | error error => simp [bind, Except.bind]
  | ok value => simp [bind, Except.bind]

/-- A computation for each item of a list fails at the first item for which it does. -/
theorem forM_eq_error_iff {ε α : Type} {items : List α} {action : α → Except ε Unit} {error : ε} :
    items.forM action = .error error ↔
      ∃ before item after, items = before ++ item :: after ∧
        (∀ passed ∈ before, action passed = .ok ()) ∧ action item = .error error := by
  induction items with
  | nil => simp [pure, Except.pure]
  | cons item rest ih =>
    have unfolded : (item :: rest).forM action = action item >>= fun _ => rest.forM action := rfl
    rw [unfolded, bind_eq_error_iff, ih]
    constructor
    · rintro (failed | ⟨_, passed, before, other, after, rfl, earlier, failed⟩)
      · exact ⟨[], item, rest, rfl, by simp, failed⟩
      · refine ⟨item :: before, other, after, rfl, ?_, failed⟩
        exact List.forall_mem_cons.mpr ⟨passed, earlier⟩
    · rintro ⟨before, other, after, split, earlier, failed⟩
      cases before with
      | nil =>
        cases split
        exact Or.inl failed
      | cons first before =>
        cases split
        rw [List.forall_mem_cons] at earlier
        exact Or.inr ⟨(), earlier.1, before, other, after, rfl, earlier.2, failed⟩

/-- A computation for each item of a list gives their values in order, if each has one. -/
theorem exists_mapM_eq_ok {ε α β : Type} {items : List α} {action : α → Except ε β}
    (defined : ∀ item ∈ items, ∃ value, action item = .ok value) :
    ∃ values, items.mapM action = .ok values ∧
      List.Forall₂ (fun item value => action item = .ok value) items values := by
  induction items with
  | nil => exact ⟨[], rfl, .nil⟩
  | cons item rest ih =>
    rw [List.forall_mem_cons] at defined
    obtain ⟨⟨value, first⟩, others⟩ := defined
    obtain ⟨values, later, aligned⟩ := ih others
    refine ⟨value :: values, ?_, .cons first aligned⟩
    rw [List.mapM_cons, first, bind_eq_ok_iff]
    refine ⟨value, rfl, bind_eq_ok_iff.mpr ⟨values, later, rfl⟩⟩

namespace NameTable

variable {table next last : NameTable} {s t : Symbol} {name : String}

theorem name?_isSome_of_lt (inside : s.id < table.size) : ∃ name, table.name? s = some name :=
  Option.isSome_iff_exists.mp (name?_isSome_iff.mpr inside)

theorem lt_size_of_name? (named : table.name? s = some name) : s.id < table.size :=
  name?_isSome_iff.mp (by rw [named]; rfl)

/-- No two symbols share a name. -/
theorem name?_injective (first : table.name? s = some name) (second : table.name? t = some name) :
    s = t := by
  have found := get?_eq_some_iff.mpr first
  rw [get?_eq_some_iff.mpr second] at found
  exact (Option.some.inj found).symm

theorem get?_eq_none_iff_not_mem : table.get? name = none ↔ name ∉ table.names.toList := by
  rw [Option.eq_none_iff_forall_not_mem, List.mem_iff_getElem?]
  constructor
  · rintro absent ⟨i, found⟩
    refine absent ⟨i⟩ (get?_eq_some_iff.mpr ?_)
    rwa [name?, ← Array.getElem?_toList]
  · intro absent s found
    refine absent ⟨s.id, ?_⟩
    rw [Array.getElem?_toList]
    exact get?_eq_some_iff.mp found

/-- The names of the reserved symbols are reserved. -/
theorem not_isReserved_of_name? (named : table.name? s = some name) (nonempty : name ≠ "")
    (notEof : name ≠ "EOF") : s.isReserved = false := by
  by_contra reserved
  rw [Bool.not_eq_false, Symbol.isReserved_iff] at reserved
  rcases reserved with rfl | rfl
  · rw [name?_epsilon] at named
    exact nonempty (Option.some.inj named).symm
  · rw [name?_eof] at named
    exact notEof (Option.some.inj named).symm

/-! ### The outcomes of interning -/

/-- A known name leaves the table as it is. -/
theorem intern_of_name? (named : table.name? s = some name) :
    table.intern name = .ok (s, table) := by
  have found := get?_eq_some_iff.mpr named
  unfold intern
  split
  · next t known =>
    rw [found] at known
    cases known
    rfl
  · next unknown =>
    rw [found] at unknown
    cases unknown

/-- A new name goes to the end of the table if there is room. -/
theorem intern_of_room (absent : table.get? name = none) (room : table.size < capacity) :
    ∃ next, table.intern name = .ok (⟨table.size⟩, next) ∧
      next.names = table.names.push name := by
  refine ⟨table.push name (Option.map_eq_none_iff.mp absent) room, ?_, rfl⟩
  unfold intern
  split
  · next t known =>
    rw [absent] at known
    cases known
  · rw [dif_pos room]

/-- A new name does not fit into a full table. -/
theorem intern_of_full (absent : table.get? name = none) (full : ¬ table.size < capacity) :
    table.intern name = .error .tooManySymbols := by
  unfold intern
  split
  · next t known =>
    rw [absent] at known
    cases known
  · rw [dif_neg full]

/-- Interning answers with the symbol of a known name, or adds a name at the end. -/
theorem intern_cases (interned : table.intern name = .ok (s, next)) :
    (next = table ∧ table.name? s = some name) ∨
      (table.get? name = none ∧ s = ⟨table.size⟩ ∧ next.names = table.names.push name) := by
  cases found : table.get? name with
  | some known =>
    have named := get?_eq_some_iff.mp found
    rw [intern_of_name? named] at interned
    cases interned
    exact Or.inl ⟨rfl, named⟩
  | none =>
    by_cases room : table.size < capacity
    · obtain ⟨pushed, outcome, names⟩ := intern_of_room found room
      rw [outcome] at interned
      cases interned
      exact Or.inr ⟨rfl, rfl, names⟩
    · rw [intern_of_full found room] at interned
      cases interned

/-! ### Later tables -/

/-- A later table keeps the names handed out before. -/
def Extends (table next : NameTable) : Prop :=
  ∃ added : List String, next.names.toList = table.names.toList ++ added

theorem Extends.refl (table : NameTable) : table.Extends table := ⟨[], (List.append_nil _).symm⟩

theorem Extends.trans (first : table.Extends next) (second : next.Extends last) :
    table.Extends last := by
  obtain ⟨added, names⟩ := first
  obtain ⟨further, names'⟩ := second
  exact ⟨added ++ further, by rw [names', names, List.append_assoc]⟩

theorem Extends.of_push (names : next.names = table.names.push name) : table.Extends next :=
  ⟨[name], by rw [names, Array.toList_push]⟩

theorem Extends.name? (grown : table.Extends next) (inside : s.id < table.size) :
    next.name? s = table.name? s := by
  obtain ⟨added, names⟩ := grown
  have inside' : s.id < table.names.toList.length := inside
  rw [NameTable.name?, NameTable.name?, ← Array.getElem?_toList, ← Array.getElem?_toList, names,
    List.getElem?_append_left inside']

theorem Extends.name?_eq_some (grown : table.Extends next) (named : table.name? s = some name) :
    next.name? s = some name :=
  (grown.name? (lt_size_of_name? named)).trans named

theorem Extends.size_le (grown : table.Extends next) : table.size ≤ next.size := by
  obtain ⟨added, names⟩ := grown
  have lengths := congrArg List.length names
  rw [List.length_append] at lengths
  change table.names.toList.length ≤ next.names.toList.length
  omega

theorem extends_of_intern (interned : table.intern name = .ok (s, next)) : table.Extends next := by
  rcases intern_cases interned with ⟨rfl, -⟩ | ⟨-, -, names⟩
  · exact Extends.refl next
  · exact Extends.of_push names

/-- The answer of interning bears the name. -/
theorem name?_of_intern (interned : table.intern name = .ok (s, next)) :
    next.name? s = some name := by
  rcases intern_cases interned with ⟨rfl, named⟩ | ⟨-, rfl, names⟩
  · exact named
  · rw [name?, names, size, Array.getElem?_push_size]

end NameTable

end Predictive
