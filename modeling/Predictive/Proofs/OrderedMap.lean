import Mathlib.Data.List.Nodup
import Predictive.Ordered.Map

/-!
# Reading insertion-ordered maps

A map is read in two ways: key by key, and entry by entry in order of arrival. No key occurs
twice, so the two readings agree.

## Main results

* `OrderedMap.mem_entries_iff` — the entries are the answers of the map
* `OrderedMap.contains_iff` — the keys are the symbols that have an answer
* `OrderedMap.get?_insertAll_filterMap` — a list of keys written with values that depend on the key
* `OrderedMap.drain_eq` — keys that are taken out come with the values that they had at first
-/

namespace Predictive

namespace OrderedMap

variable {κ α : Type} [DecidableEq κ] {map : OrderedMap κ α} {key other : κ} {value : α}

theorem lookup_eq_some_of_mem {entries : List (κ × α)} (nodup : (entries.map Prod.fst).Nodup)
    (member : (key, value) ∈ entries) : entries.lookup key = some value := by
  induction entries with
  | nil => cases member
  | cons entry rest ih =>
    rw [List.map_cons, List.nodup_cons] at nodup
    rcases List.mem_cons.mp member with same | later
    · subst same
      exact List.lookup_cons_self
    · have differs : key ≠ entry.1 := by
        rintro rfl
        exact nodup.1 (List.mem_map.mpr ⟨_, later, rfl⟩)
      rw [List.lookup_cons, beq_false_of_ne differs]
      exact ih nodup.2 later

/-- The entries are the answers of the map. -/
theorem mem_entries_iff : (key, value) ∈ map.entries ↔ map.get? key = some value := by
  constructor
  · exact lookup_eq_some_of_mem map.nodup
  · intro found
    obtain ⟨before, after, split, -⟩ := List.lookup_eq_some_iff.mp found
    rw [split]
    simp

theorem get?_isSome_iff : (map.get? key).isSome ↔ key ∈ map.keys := by
  rw [Option.isSome_iff_exists, keys, List.mem_map]
  constructor
  · rintro ⟨value, found⟩
    exact ⟨(key, value), mem_entries_iff.mpr found, rfl⟩
  · rintro ⟨⟨_, value⟩, member, rfl⟩
    exact ⟨value, mem_entries_iff.mp member⟩

/-- A key has an answer exactly when it is listed. -/
theorem contains_iff : map.contains key = true ↔ key ∈ map.keys := get?_isSome_iff

theorem get?_eq_none_iff : map.get? key = none ↔ key ∉ map.keys := by
  rw [← get?_isSome_iff, Option.not_isSome_iff_eq_none]

@[simp] theorem get?_empty : (empty : OrderedMap κ α).get? key = none := rfl

theorem get?_insert_self : (map.insert key value).get? key = some value := by
  rw [get?_insert, if_pos rfl]

theorem mem_keys_insert : other ∈ (map.insert key value).keys ↔ other = key ∨ other ∈ map.keys := by
  rw [← get?_isSome_iff, ← get?_isSome_iff, get?_insert]
  by_cases same : other = key
  · simp [same]
  · simp [same]

/-- Writing under a known key keeps the list of keys. -/
theorem keys_insert_of_mem (member : key ∈ map.keys) :
    (map.insert key value).keys = map.keys := by
  rw [keys_insert, if_pos member]

theorem insertAll_cons (map : OrderedMap κ α) (key : κ) (value : α) (rest : List (κ × α)) :
    map.insertAll ((key, value) :: rest) = (map.insert key value).insertAll rest :=
  rfl

omit [DecidableEq κ] in
theorem ext_entries {first second : OrderedMap κ α} (same : first.entries = second.entries) :
    first = second := by
  cases first
  cases second
  cases same
  rfl

/-- A new key goes to the end together with its value. -/
theorem entries_insert_of_not_mem (absent : key ∉ map.keys) :
    (map.insert key value).entries = map.entries ++ [(key, value)] := by
  have written : ∀ entries : List (κ × α), key ∉ entries.map Prod.fst →
      writeEntry key value entries = entries ++ [(key, value)] := by
    intro entries absent
    induction entries with
    | nil => rfl
    | cons entry rest ih =>
      rw [List.map_cons, List.mem_cons, not_or] at absent
      rw [writeEntry, if_neg (Ne.symm absent.1), ih absent.2]
      rfl
  exact written map.entries absent

/-- A known key keeps its place. -/
theorem entries_insert_of_split {old : α} {before after : List (κ × α)}
    (split : map.entries = before ++ (key, old) :: after) :
    (map.insert key value).entries = before ++ (key, value) :: after := by
  have written : ∀ before : List (κ × α), key ∉ before.map Prod.fst →
      writeEntry key value (before ++ (key, old) :: after) = before ++ (key, value) :: after := by
    intro before absent
    induction before with
    | nil => exact if_pos rfl
    | cons entry rest ih =>
      rw [List.map_cons, List.mem_cons, not_or] at absent
      rw [List.cons_append, writeEntry, if_neg (Ne.symm absent.1), ih absent.2]
      rfl
  have nodup := map.nodup
  rw [split, List.map_append, List.nodup_append] at nodup
  change writeEntry key value map.entries = _
  rw [split]
  exact written before fun listed => nodup.2.2 key listed key (by simp) rfl

/-- New keys arrive in the order in which they are written. -/
theorem entries_insertAll {entries : List (κ × α)}
    (nodup : (map.keys ++ entries.map Prod.fst).Nodup) :
    (map.insertAll entries).entries = map.entries ++ entries := by
  induction entries generalizing map with
  | nil => simp [insertAll]
  | cons entry rest ih =>
    have absent : entry.1 ∉ map.keys := by
      intro member
      rw [List.map_cons] at nodup
      exact List.disjoint_of_nodup_append nodup member List.mem_cons_self
    have later : ((map.insert entry.1 entry.2).keys ++ rest.map Prod.fst).Nodup := by
      rw [keys_insert, if_neg absent]
      simpa using nodup
    rw [insertAll_cons, ih later, entries_insert_of_not_mem absent, List.append_assoc]
    rfl

/-- A list of keys written with the values that some of them have. -/
theorem get?_insertAll_filterMap (value? : κ → Option α) (written : List κ) :
    (map.insertAll (written.filterMap fun k => (value? k).map fun value => (k, value))).get? key =
      if key ∈ written then (value? key).or (map.get? key) else map.get? key := by
  induction written generalizing map with
  | nil => simp [insertAll]
  | cons first rest ih =>
    cases found : value? first with
    | none =>
      rw [List.filterMap_cons_none (by rw [found]; rfl), ih]
      by_cases same : key = first
      · simp [same, found]
      · simp [same]
    | some value =>
      rw [List.filterMap_cons_some (by rw [found]; rfl), insertAll_cons, ih, get?_insert]
      by_cases same : key = first
      · simp [same, found]
      · simp [same]

/-- A list of keys written with values that depend on the key only. -/
theorem get?_insertAll_map (valueOf : κ → α) (written : List κ) :
    (map.insertAll (written.map fun k => (k, valueOf k))).get? key =
      if key ∈ written then some (valueOf key) else map.get? key := by
  have written_eq := @get?_insertAll_filterMap _ _ _ map key (fun k => some (valueOf k)) written
  simpa using written_eq

/-- The keys of a map that gives each of them the same value. -/
theorem get?_constant (written : List κ) :
    (constant written value).get? key = if key ∈ written then some value else none :=
  get?_insertAll_map (fun _ => value) written

/-! ### Keys that are taken out -/

theorem mem_keys_swapRemove :
    other ∈ (map.swapRemove key).2.keys ↔ other ≠ key ∧ other ∈ map.keys := by
  have same : ((map.swapRemove key).2.keys).Perm (map.keys.erase key) := by
    rw [List.erase_eq_eraseP, keys, keys, List.eraseP_map]
    exact (perm_swapOut _ map.entries).map Prod.fst
  have nodup : map.keys.Nodup := map.nodup
  rw [same.mem_iff, nodup.mem_erase_iff]

/-- The other keys keep their values, wherever their entries have moved. -/
theorem get?_swapRemove :
    (map.swapRemove key).2.get? other = if other = key then none else map.get? other := by
  split
  · next same =>
    rw [get?_eq_none_iff, mem_keys_swapRemove]
    exact fun listed => listed.1 same
  · next differs =>
    refine Option.ext fun value => ?_
    have kept : ¬ (key == other) = true := by simpa using Ne.symm differs
    rw [← mem_entries_iff, ← mem_entries_iff, swapRemove, (perm_swapOut _ map.entries).mem_iff]
    exact List.mem_eraseP_of_neg kept

/-- Keys that are taken out one after the other come with the values that they had at first: what a
removal does to the order of the entries that are left makes no difference. -/
theorem drain_eq {wanted : List κ} (nodup : wanted.Nodup) :
    map.drain wanted = wanted.filterMap fun k => (map.get? k).map fun value => (k, value) := by
  induction wanted generalizing map with
  | nil => rfl
  | cons first rest ih =>
    rw [List.nodup_cons] at nodup
    have others : (map.swapRemove first).2.drain rest =
        rest.filterMap fun k => (map.get? k).map fun value => (k, value) := by
      rw [ih nodup.2]
      refine List.filterMap_congr fun k listed => ?_
      have later : k ≠ first := fun same => nodup.1 (same ▸ listed)
      rw [get?_swapRemove, if_neg later]
    rw [drain, List.filterMap_cons, ← others]
    split
    · next value left removed =>
      obtain ⟨found, rfl⟩ := Prod.mk.inj removed
      rw [found]
      rfl
    · next left removed =>
      obtain ⟨found, rfl⟩ := Prod.mk.inj removed
      rw [found]
      rfl

example : ((OrderedMap.constant [1, 2, 3, 4] ()).swapRemove 2).2.keys = [1, 4, 3] := by decide

end OrderedMap

end Predictive
