import Predictive.Ordered.Set

/-!
# Insertion-ordered maps

A map that lists its keys in the order in which they first arrived, so that every
table derived from a grammar is printed in a stable order. Writing a key again
replaces its value and keeps its place. To take a key out, the last entry is moved
to its place, as in a set.

## Main definitions

* `OrderedMap` — entries with pairwise distinct keys
* `OrderedMap.get?`, `OrderedMap.insert`, `OrderedMap.keys`
* `OrderedMap.swapRemove`, `OrderedMap.drain` — keys that are taken out

## Main results

* `OrderedMap.get?_insert` — a key answers with the value written last
* `OrderedMap.keys_insert` — a new key goes to the end, a known one stays
-/

namespace Predictive

/-- The entries of a map after writing `value` under `key`. -/
def writeEntry {κ α : Type} [DecidableEq κ] (key : κ) (value : α) :
    List (κ × α) → List (κ × α)
  | [] => [(key, value)]
  | entry :: rest =>
    if entry.1 = key then (key, value) :: rest else entry :: writeEntry key value rest

theorem map_fst_writeEntry {κ α : Type} [DecidableEq κ] (key : κ) (value : α)
    (entries : List (κ × α)) :
    (writeEntry key value entries).map Prod.fst =
      if key ∈ entries.map Prod.fst then entries.map Prod.fst
      else entries.map Prod.fst ++ [key] := by
  induction entries with
  | nil => simp [writeEntry]
  | cons entry rest ih =>
    by_cases same : entry.1 = key
    · simp [writeEntry, same]
    · have other : ¬ key = entry.1 := fun h => same h.symm
      rw [writeEntry, if_neg same, List.map_cons, ih]
      by_cases member : key ∈ rest.map Prod.fst
      · simp [member]
      · simp [member, other]

/-- A map that lists its keys in the order in which they first arrived. -/
structure OrderedMap (κ α : Type) where
  /-- The entries in order of arrival. -/
  entries : List (κ × α)
  /-- No key occurs twice. -/
  nodup : (entries.map Prod.fst).Nodup

namespace OrderedMap

variable {κ α : Type}

/-- The map without entries. -/
def empty : OrderedMap κ α := ⟨[], List.nodup_nil⟩

/-- The keys in order of arrival. -/
def keys (map : OrderedMap κ α) : List κ := map.entries.map Prod.fst

/-- The number of entries. -/
def size (map : OrderedMap κ α) : Nat := map.entries.length

variable [DecidableEq κ]

/-- The value of a key. -/
def get? (map : OrderedMap κ α) (key : κ) : Option α := map.entries.lookup key

/-- Whether a key has a value. -/
def contains (map : OrderedMap κ α) (key : κ) : Bool := (map.get? key).isSome

/-- Write a value: a known key keeps its place, a new one goes to the end. -/
def insert (map : OrderedMap κ α) (key : κ) (value : α) : OrderedMap κ α where
  entries := writeEntry key value map.entries
  nodup := by
    rw [map_fst_writeEntry]
    split
    · exact map.nodup
    · next absent =>
      rw [List.nodup_append]
      exact ⟨map.nodup, by simp, fun a member b last => by
        simp only [List.mem_singleton] at last
        subst last
        exact fun same => absent (same ▸ member)⟩

/-- Write a list of entries one after the other. -/
def insertAll (map : OrderedMap κ α) (entries : List (κ × α)) : OrderedMap κ α :=
  entries.foldl (fun m entry => m.insert entry.1 entry.2) map

/-- Take a key out: its value, if it has one, and what is left. The last entry moves to the place of
the one that is taken out. -/
def swapRemove (map : OrderedMap κ α) (key : κ) : Option α × OrderedMap κ α where
  fst := map.get? key
  snd :=
    { entries := swapOut (fun entry => key == entry.1) map.entries
      nodup := ((perm_swapOut _ map.entries).map Prod.fst).nodup_iff.mpr
        ((List.eraseP_sublist.map Prod.fst).nodup map.nodup) }

/-- Take keys out one after the other, and list those that had a value together with it. -/
def drain (map : OrderedMap κ α) : List κ → List (κ × α)
  | [] => []
  | key :: rest =>
    match map.swapRemove key with
    | (some value, map) => (key, value) :: map.drain rest
    | (none, map) => map.drain rest

/-- The map that gives each key of a list the same value. -/
def constant (keys : List κ) (value : α) : OrderedMap κ α :=
  empty.insertAll (keys.map fun key => (key, value))

/-! ### Reading after writing -/

theorem lookup_writeEntry (key other : κ) (value : α) (entries : List (κ × α)) :
    (writeEntry key value entries).lookup other =
      if other = key then some value else entries.lookup other := by
  induction entries with
  | nil =>
    by_cases same : other = key
    · simp [writeEntry, same]
    · rw [if_neg same, writeEntry, List.lookup_cons, beq_false_of_ne same]
  | cons entry rest ih =>
    obtain ⟨first, old⟩ := entry
    by_cases found : first = key
    · subst found
      by_cases same : other = first
      · simp [writeEntry, same]
      · have : (other == first) = false := by simpa using same
        simp [writeEntry, List.lookup_cons, same, this]
    · rw [writeEntry, if_neg found, List.lookup_cons, List.lookup_cons, ih]
      by_cases same : other = key
      · subst same
        have : (other == first) = false := by simpa using fun h => found h.symm
        simp [this]
      · simp [same]

/-- A key answers with the value written last. -/
theorem get?_insert (map : OrderedMap κ α) (key other : κ) (value : α) :
    (map.insert key value).get? other = if other = key then some value else map.get? other :=
  lookup_writeEntry key other value map.entries

/-- A new key goes to the end, a known one stays. -/
theorem keys_insert (map : OrderedMap κ α) (key : κ) (value : α) :
    (map.insert key value).keys = if key ∈ map.keys then map.keys else map.keys ++ [key] :=
  map_fst_writeEntry key value map.entries

end OrderedMap

end Predictive
