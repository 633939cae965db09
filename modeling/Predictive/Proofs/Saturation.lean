import Mathlib.Algebra.Order.BigOperators.Group.List
import Mathlib.Algebra.Order.Ring.Nat
import Mathlib.Data.List.Perm.Subperm
import Predictive.Analysis.Saturation
import Predictive.Proofs.OrderedMap
import Predictive.Symbol.Set

/-!
# Saturation reaches a fixed point

A pass that only adds members, and that tells whether it added any, is repeated until it adds
none. Each pass but the last adds weight, and the weight is bounded by the number of sets times
the number of symbols that can be members. So with that much fuel the last pass is a silent one,
and what it leaves behind is closed under every step of the pass.

## Main definitions

* `Growing` — a step that is silent when it changes nothing and adds weight otherwise
* `OrderedMap.members` — the members of the set of a symbol
* `OrderedMap.extendAt` — add members to the set of a known symbol

## Main results

* `Growing.andThen`, `Growing.sweep` — growing steps in sequence are a growing step
* `sweep_silent` — a silent sweep consists of silent steps
* `saturate_silent` — saturation with enough fuel ends in a silent pass
* `OrderedMap.mem_members_extendAt` — what an extension adds
* `OrderedMap.weight_le` — the weight of a family of sets is bounded
-/

namespace Predictive

variable {α β : Type}

/-- A step that tells the truth: it is silent only if it changes nothing, and a reported change
adds weight. -/
structure Growing (weight : α → Nat) (step : α → α × Bool) : Prop where
  /-- A silent step changes nothing. -/
  same : ∀ {state}, (step state).2 = false → (step state).1 = state
  /-- A reported change adds weight. -/
  more : ∀ {state}, (step state).2 = true → weight state < weight (step state).1

/-- Two growing steps, one after the other. -/
theorem Growing.andThen {weight : α → Nat} {first second : α → α × Bool}
    (growing : Growing weight first) (growing' : Growing weight second) :
    Growing weight fun state =>
      ((second (first state).1).1, (first state).2 || (second (first state).1).2) := by
  constructor
  · intro state silent
    obtain ⟨silent, silent'⟩ := Bool.or_eq_false_iff.mp silent
    exact (growing'.same silent').trans (growing.same silent)
  · intro state changed
    -- a change is reported by the first step, by the second, or by both
    cases begins : (first state).2 with
    | false =>
      have unchanged : (first state).1 = state := growing.same begins
      rw [unchanged, begins, Bool.false_or] at changed
      rw [unchanged]
      exact growing'.more changed
    | true =>
      have grown : weight state < weight (first state).1 := growing.more begins
      cases ends : (second (first state).1).2 with
      | false =>
        rw [growing'.same ends]
        exact grown
      | true => exact grown.trans (growing'.more ends)

/-! ### Sweeps -/

section Sweep

variable {step : α → β → α × Bool} {state : α} {items : List β}

@[simp] theorem sweep_nil : sweep step state [] = (state, false) := rfl

/-- The flag that a fold starts with is carried along to its end. -/
theorem foldl_sweep (step : α → β → α × Bool) (items : List β) (state : α) (changed : Bool) :
    items.foldl (fun (current : α × Bool) item =>
        ((step current.1 item).1, current.2 || (step current.1 item).2)) (state, changed) =
      ((sweep step state items).1, changed || (sweep step state items).2) := by
  induction items generalizing state changed with
  | nil => simp
  | cons item rest ih =>
    have head := ih (step state item).1 (changed || (step state item).2)
    have alone := ih (step state item).1 (false || (step state item).2)
    simp only [sweep, List.foldl_cons] at head alone ⊢
    rw [head, alone]
    simp [Bool.or_assoc]

/-- A sweep is its first step followed by the sweep of the other items. -/
theorem sweep_cons (item : β) :
    sweep step state (item :: items) =
      ((sweep step (step state item).1 items).1,
        (step state item).2 || (sweep step (step state item).1 items).2) := by
  have unfolded := foldl_sweep step items (step state item).1 (false || (step state item).2)
  simpa [sweep] using unfolded

/-- A sweep of a list in two parts. -/
theorem sweep_append (others : List β) :
    sweep step state (items ++ others) =
      ((sweep step (sweep step state items).1 others).1,
        (sweep step state items).2 || (sweep step (sweep step state items).1 others).2) := by
  induction items generalizing state with
  | nil => simp
  | cons item rest ih => simp only [List.cons_append, sweep_cons, ih, Bool.or_assoc]

/-- What every step preserves, the sweep preserves. -/
theorem sweep_invariant (holds : α → Prop) (initially : holds state)
    (keeps : ∀ state, ∀ item ∈ items, holds state → holds (step state item).1) :
    holds (sweep step state items).1 := by
  induction items generalizing state with
  | nil => exact initially
  | cons item rest ih =>
    rw [sweep_cons]
    refine ih (keeps state item List.mem_cons_self initially) ?_
    intro state item member
    exact keeps state item (List.mem_cons_of_mem _ member)

/-- A sweep of growing steps is a growing step. -/
theorem Growing.sweep {weight : α → Nat} (items : List β)
    (growing : ∀ item ∈ items, Growing weight fun state => step state item) :
    Growing weight fun state => sweep step state items := by
  induction items with
  | nil => exact ⟨fun _ => rfl, fun changed => by simp at changed⟩
  | cons item rest ih =>
    have first := growing item List.mem_cons_self
    have later := ih fun item member => growing item (List.mem_cons_of_mem _ member)
    simp only [sweep_cons]
    exact first.andThen later

/-- A silent sweep consists of silent steps, all of them from the same state. -/
theorem sweep_silent {weight : α → Nat}
    (growing : ∀ item ∈ items, Growing weight fun state => step state item)
    (silent : (sweep step state items).2 = false) :
    ∀ item ∈ items, (step state item).2 = false := by
  induction items with
  | nil => simp
  | cons item rest ih =>
    rw [sweep_cons, Bool.or_eq_false_iff] at silent
    -- the first step changes nothing, so that the others start from the same state
    have unchanged : (step state item).1 = state :=
      (growing item List.mem_cons_self).same silent.1
    rw [unchanged] at silent
    intro other member
    rcases List.mem_cons.mp member with rfl | later
    · exact silent.1
    · have growingRest := fun item member => growing item (List.mem_cons_of_mem _ member)
      exact ih growingRest silent.2 other later

end Sweep

/-! ### Saturation -/

section Saturate

variable {pass : α → α × Bool} {state : α}

theorem saturate_succ (fuel : Nat) :
    saturate pass (fuel + 1) state =
      if (pass state).2 then saturate pass fuel (pass state).1 else (pass state).1 := rfl

/-- What a pass preserves, saturation preserves. -/
theorem saturate_invariant (holds : α → Prop) (fuel : Nat) (initially : holds state)
    (keeps : ∀ state, holds state → holds (pass state).1) : holds (saturate pass fuel state) := by
  induction fuel generalizing state with
  | zero => exact initially
  | succ fuel ih =>
    rw [saturate_succ]
    split
    · exact ih (keeps state initially)
    · exact keeps state initially

/-- With more fuel than there is weight to gain, the last pass is silent. -/
theorem saturate_silent {weight : α → Nat} {holds : α → Prop} {bound fuel : Nat}
    (growing : Growing weight pass) (initially : holds state)
    (keeps : ∀ state, holds state → holds (pass state).1)
    (bounded : ∀ state, holds state → weight state ≤ bound)
    (enough : bound < weight state + fuel) : (pass (saturate pass fuel state)).2 = false := by
  induction fuel generalizing state with
  | zero => exact absurd (bounded state initially) (by omega)
  | succ fuel ih =>
    rw [saturate_succ]
    split
    · next changed =>
      -- a unit of fuel is spent, and the weight that is gained makes up for it
      have grown := growing.more changed
      exact ih (keeps state initially) (by omega)
    · next silent =>
      rw [Bool.not_eq_true] at silent
      rw [growing.same silent]
      exact silent

end Saturate

/-! ### Sizes of sets -/

namespace SymbolSet

variable {set other : SymbolSet}

theorem nodup_toList : set.toList.Nodup :=
  pairwise_toList.imp fun less => by
    rintro rfl
    exact Nat.lt_irrefl _ less

/-- A set whose members are among those of a list is no larger than the list. -/
theorem size_le_length {possible : List Symbol} (within : ∀ s ∈ set, s ∈ possible) :
    set.size ≤ possible.length :=
  (nodup_toList.subperm fun s member => within s (mem_toList.mp member)).length_le

/-- A set with a further member is larger. -/
theorem size_lt_size {s : Symbol} (within : ∀ t ∈ set, t ∈ other) (member : s ∈ other)
    (absent : ¬ s ∈ set) : set.size < other.size := by
  have larger : (s :: set.toList).Nodup :=
    List.nodup_cons.mpr ⟨fun listed => absent (mem_toList.mp listed), nodup_toList⟩
  have listed : (s :: set.toList) ⊆ other.toList := by
    intro t found
    rcases List.mem_cons.mp found with rfl | old
    · exact mem_toList.mpr member
    · exact mem_toList.mpr (within t (mem_toList.mp old))
  exact (larger.subperm listed).length_le

end SymbolSet

/-! ### Families of sets -/

namespace OrderedMap

variable {sets : OrderedMap Symbol SymbolSet} {s t r : Symbol} {added : SymbolSet}

/-- The members of the set of a symbol; an unknown symbol has none. -/
def members (sets : OrderedMap Symbol SymbolSet) (s : Symbol) : SymbolSet :=
  (sets.get? s).getD .empty

/-- The number of members of all sets. -/
def weight (sets : OrderedMap Symbol SymbolSet) : Nat :=
  (sets.entries.map fun entry => entry.2.size).sum

/-- Add members to the set of a known symbol, and tell whether it grew. -/
def extendAt (sets : OrderedMap Symbol SymbolSet) (s : Symbol) (added : SymbolSet) :
    OrderedMap Symbol SymbolSet × Bool :=
  match sets.get? s with
  | none => (sets, false)
  | some set =>
    let (set, grew) := set.extend added
    if grew then (sets.insert s set, true) else (sets, false)

theorem mem_members_iff : t ∈ sets.members s ↔ ∃ set, sets.get? s = some set ∧ t ∈ set := by
  unfold members
  cases sets.get? s with
  | none => simp
  | some set => simp

theorem get?_eq_some_members (known : s ∈ sets.keys) : sets.get? s = some (sets.members s) := by
  obtain ⟨set, found⟩ := Option.isSome_iff_exists.mp (get?_isSome_iff.mpr known)
  rw [members, found]
  rfl

/-- An extension is silent when nothing is new, and otherwise writes the union. -/
theorem extendAt_cases (sets : OrderedMap Symbol SymbolSet) (s : Symbol) (added : SymbolSet) :
    (sets.extendAt s added = (sets, false) ∧
        (s ∈ sets.keys → ∀ t ∈ added, t ∈ sets.members s)) ∨
      (sets.extendAt s added = (sets.insert s ((sets.members s).union added), true) ∧
        s ∈ sets.keys ∧ ∃ t ∈ added, ¬ t ∈ sets.members s) := by
  unfold extendAt
  cases found : sets.get? s with
  | none =>
    refine Or.inl ⟨rfl, fun known => ?_⟩
    exact absurd known (get?_eq_none_iff.mp found)
  | some set =>
    have known : s ∈ sets.keys := get?_isSome_iff.mp (by rw [found]; rfl)
    have same : sets.members s = set := by rw [members, found]; rfl
    cases grew : (set.extend added).2 with
    | false =>
      left
      refine ⟨by simp [grew], fun _ t member => ?_⟩
      -- a member that is not there would have been reported
      by_contra absent
      rw [same] at absent
      have grows := SymbolSet.extend_snd_iff.mpr ⟨t, member, absent⟩
      rw [grew] at grows
      cases grows
    | true =>
      right
      refine ⟨by simp [grew, same, SymbolSet.extend_fst], known, ?_⟩
      rw [same]
      exact SymbolSet.extend_snd_iff.mp grew

/-- An extension keeps the keys. -/
theorem keys_extendAt : (sets.extendAt s added).1.keys = sets.keys := by
  rcases extendAt_cases sets s added with ⟨silent, -⟩ | ⟨grown, known, -⟩
  · rw [silent]
  · rw [grown]
    exact keys_insert_of_mem known

theorem members_insert {set : SymbolSet} :
    (sets.insert s set).members r = if r = s then set else sets.members r := by
  rw [members, get?_insert]
  split
  · rfl
  · rfl

/-- What an extension adds. -/
theorem mem_members_extendAt :
    t ∈ (sets.extendAt s added).1.members r ↔
      t ∈ sets.members r ∨ (r = s ∧ s ∈ sets.keys ∧ t ∈ added) := by
  rcases extendAt_cases sets s added with ⟨silent, closed⟩ | ⟨grown, known, -⟩
  · rw [silent]
    refine ⟨Or.inl, ?_⟩
    rintro (old | ⟨rfl, known, new⟩)
    · exact old
    · exact closed known t new
  · rw [grown, members_insert]
    by_cases same : r = s
    · subst same
      simp [known]
    · simp [same]

theorem weight_writeEntry {set : SymbolSet} (new : SymbolSet) {entries : List (Symbol × SymbolSet)}
    (found : entries.lookup s = some set) :
    ((writeEntry s new entries).map fun entry => entry.2.size).sum + set.size =
      (entries.map fun entry => entry.2.size).sum + new.size := by
  induction entries with
  | nil => cases found
  | cons entry rest ih =>
    obtain ⟨key, old⟩ := entry
    by_cases same : key = s
    · subst same
      rw [List.lookup_cons_self] at found
      cases found
      simp only [writeEntry, if_true, List.map_cons, List.sum_cons]
      omega
    · rw [List.lookup_cons, beq_false_of_ne (Ne.symm same)] at found
      have tail := ih found
      simp only [writeEntry, if_neg same, List.map_cons, List.sum_cons]
      omega

/-- Extending one set is a growing step, whatever the added members depend on. -/
theorem growing_extendAt (s : Symbol) (added : OrderedMap Symbol SymbolSet → SymbolSet) :
    Growing weight fun sets => sets.extendAt s (added sets) := by
  constructor
  · intro sets silent
    rcases extendAt_cases sets s (added sets) with ⟨same, -⟩ | ⟨grown, -⟩
    · rw [same]
    · rw [grown] at silent
      cases silent
  · intro sets changed
    rcases extendAt_cases sets s (added sets) with ⟨same, -⟩ | ⟨grown, known, t, new, absent⟩
    · rw [same] at changed
      cases changed
    · rw [grown]
      -- one set is replaced by a larger one, and the others stay
      have balance : (sets.insert s ((sets.members s).union (added sets))).weight +
          (sets.members s).size = sets.weight + ((sets.members s).union (added sets)).size :=
        weight_writeEntry _ (get?_eq_some_members known)
      have larger : (sets.members s).size < ((sets.members s).union (added sets)).size :=
        SymbolSet.size_lt_size (fun r old => SymbolSet.mem_union.mpr (Or.inl old))
          (SymbolSet.mem_union.mpr (Or.inr new)) absent
      change sets.weight < (sets.insert s ((sets.members s).union (added sets))).weight
      omega

/-- The weight is bounded by the number of sets and of possible members. -/
theorem weight_le {possible : List Symbol}
    (within : ∀ s, ∀ t ∈ sets.members s, t ∈ possible) :
    sets.weight ≤ sets.keys.length * possible.length := by
  have small : ∀ n ∈ sets.entries.map fun entry => entry.2.size, n ≤ possible.length := by
    intro n listed
    obtain ⟨⟨s, set⟩, entry, rfl⟩ := List.mem_map.mp listed
    refine SymbolSet.size_le_length fun t member => within s t ?_
    exact mem_members_iff.mpr ⟨set, mem_entries_iff.mp entry, member⟩
  have bound := List.sum_le_card_nsmul _ _ small
  simpa [weight, keys] using bound

end OrderedMap

end Predictive
