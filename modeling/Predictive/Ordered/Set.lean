/-!
# Insertion-ordered sets

A set that lists its members in the order in which they first arrived. To take a member out, the
last one is moved to its place, so that only the order of the others suffers.

## Main definitions

* `OrderedSet` — members without repetition
* `OrderedSet.insert`, `OrderedSet.swapRemove`
-/

namespace Predictive

/-- The items after the first wanted one is taken out: the last item moves to its place. -/
def swapOut {α : Type} (wanted : α → Bool) : List α → List α
  | [] => []
  | first :: rest =>
    if wanted first then
      match rest.getLast? with
      | none => []
      | some last => last :: rest.dropLast
    else first :: swapOut wanted rest

/-- Apart from the order, an item is taken out as from any list. -/
theorem perm_swapOut {α : Type} (wanted : α → Bool) (items : List α) :
    (swapOut wanted items).Perm (items.eraseP wanted) := by
  induction items with
  | nil => exact .nil
  | cons first rest ih =>
    rw [swapOut]
    split
    · next found =>
      rw [List.eraseP_cons_of_pos found]
      split
      · next empty => rw [List.getLast?_eq_none_iff.mp empty]
      · next last ends =>
        obtain ⟨front, rfl⟩ := List.getLast?_eq_some_iff.mp ends
        rw [List.dropLast_concat]
        exact (List.perm_append_singleton last front).symm
    · next other =>
      rw [List.eraseP_cons_of_neg other]
      exact ih.cons first

/-- A set that lists its members in the order in which they first arrived. -/
structure OrderedSet (α : Type) where
  /-- The members in order of arrival. -/
  items : List α
  /-- No member is listed twice. -/
  nodup : items.Nodup
  deriving DecidableEq

namespace OrderedSet

variable {α : Type}

/-- The set without members. -/
def empty : OrderedSet α := ⟨[], List.nodup_nil⟩

variable [DecidableEq α]

/-- Whether an item is a member. -/
def contains (set : OrderedSet α) (item : α) : Bool := decide (item ∈ set.items)

/-- Add an item at the end, unless it is a member already. -/
def insert (set : OrderedSet α) (item : α) : OrderedSet α :=
  if absent : item ∈ set.items then set
  else
    { items := set.items ++ [item]
      nodup := by
        rw [List.nodup_append]
        exact ⟨set.nodup, by simp, fun a member b last => by
          simp only [List.mem_singleton] at last
          subst last
          exact fun same => absent (same ▸ member)⟩ }

/-- Take a member out. The last one moves to its place. -/
def swapRemove (set : OrderedSet α) (item : α) : OrderedSet α where
  items := swapOut (item == ·) set.items
  nodup := (perm_swapOut _ set.items).nodup_iff.mpr
    (List.erase_eq_eraseP item set.items ▸ set.nodup.erase item)

theorem mem_items_insert (set : OrderedSet α) (item other : α) :
    other ∈ (set.insert item).items ↔ other ∈ set.items ∨ other = item := by
  unfold insert
  split
  · next member => exact ⟨Or.inl, fun h => h.elim id fun same => same ▸ member⟩
  · simp

theorem mem_items_swapRemove (set : OrderedSet α) (item other : α) :
    other ∈ (set.swapRemove item).items ↔ other ∈ set.items ∧ other ≠ item := by
  rw [swapRemove, (perm_swapOut _ set.items).mem_iff, ← List.erase_eq_eraseP,
    set.nodup.mem_erase_iff, and_comm]

end OrderedSet

end Predictive
