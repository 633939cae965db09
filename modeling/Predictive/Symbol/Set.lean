import Predictive.Symbol

/-!
# Sets of symbols

FIRST, FOLLOW and expected-terminal sets. A set is a bit mask, so that two sets
with the same members are equal, and its members are listed by increasing
position.

## Main definitions

* `SymbolSet` — a finite set of symbols, with membership `s ∈ set`
* `SymbolSet.union`, `SymbolSet.diff`, `SymbolSet.insert`, `SymbolSet.erase`
* `SymbolSet.extend` — union that also tells whether the set grew
* `SymbolSet.toList` — the members by increasing position

## Main results

* `SymbolSet.ext_mem` — a set is determined by its members
* one membership lemma for each operation, and `SymbolSet.mem_toList`
-/

namespace Predictive

/-- A finite set of symbols: bit `n` of the mask tells whether the symbol with
position `n` is a member. -/
structure SymbolSet where
  /-- The membership bits. -/
  mask : Nat
  deriving DecidableEq

namespace SymbolSet

/-- The set without members. -/
def empty : SymbolSet := ⟨0⟩

/-- Whether a symbol is a member. -/
def contains (set : SymbolSet) (s : Symbol) : Bool := set.mask.testBit s.id

instance : Membership Symbol SymbolSet := ⟨fun set s => set.contains s = true⟩

instance (s : Symbol) (set : SymbolSet) : Decidable (s ∈ set) :=
  inferInstanceAs (Decidable (set.contains s = true))

/-- The set with one member. -/
def singleton (s : Symbol) : SymbolSet := ⟨1 <<< s.id⟩

/-- The members of either set. -/
def union (set other : SymbolSet) : SymbolSet := ⟨set.mask ||| other.mask⟩

/-- The members of the first set that are not members of the second. -/
def diff (set other : SymbolSet) : SymbolSet := ⟨set.mask ^^^ (set.mask &&& other.mask)⟩

/-- Add one member. -/
def insert (set : SymbolSet) (s : Symbol) : SymbolSet := set.union (singleton s)

/-- Remove one member. -/
def erase (set : SymbolSet) (s : Symbol) : SymbolSet := set.diff (singleton s)

/-- The set without `ε`. -/
def withoutEpsilon (set : SymbolSet) : SymbolSet := set.erase .epsilon

/-- Add every symbol of a list. -/
def insertAll (set : SymbolSet) (symbols : List Symbol) : SymbolSet :=
  symbols.foldl insert set

/-- The set of the symbols of a list. -/
def ofList (symbols : List Symbol) : SymbolSet := empty.insertAll symbols

/-- Whether every member of the first set is a member of the second. -/
def isSubset (set other : SymbolSet) : Bool := decide (set.mask ||| other.mask = other.mask)

/-- Add the members of `added`, and tell whether the set grew. -/
def extend (set added : SymbolSet) : SymbolSet × Bool :=
  if added.isSubset set then (set, false) else (set.union added, true)

/-- The number of bits that are listed together. -/
def wordBits : Nat := 64

/-- The bits of word number `index` of a mask. -/
def maskWord (mask index : Nat) : Nat := (mask >>> (wordBits * index)) % 0x10000000000000000

/-- The positions of the bits that are set in word number `index` of a mask. -/
def wordMembers (mask index : Nat) : List Nat :=
  let word := maskWord mask index
  ((List.range wordBits).filter word.testBit).map (wordBits * index + ·)

/-- The members by increasing position. They are listed word by word, as a bit of a word is
found faster than one of the whole mask. -/
def toList (set : SymbolSet) : List Symbol :=
  ((List.range (set.mask.log2 / wordBits + 1)).flatMap (wordMembers set.mask)).map Symbol.mk

/-- The number of members. -/
def size (set : SymbolSet) : Nat := set.toList.length

/-- Whether there is no member. -/
def isEmpty (set : SymbolSet) : Bool := set.mask == 0

/-! ### Membership -/

variable {set other added : SymbolSet} {s t : Symbol}

theorem mem_iff_testBit : s ∈ set ↔ set.mask.testBit s.id = true := Iff.rfl

theorem contains_iff_mem : set.contains s = true ↔ s ∈ set := Iff.rfl

/-- A set is determined by its members. -/
theorem ext_mem (same : ∀ s, s ∈ set ↔ s ∈ other) : set = other := by
  cases set with
  | mk m =>
    cases other with
    | mk n =>
      -- masks are equal when all their bits are
      congr 1
      apply Nat.eq_of_testBit_eq
      intro i
      have h := same ⟨i⟩
      simp only [mem_iff_testBit] at h
      exact Bool.eq_iff_iff.mpr h

@[simp] theorem not_mem_empty (s : Symbol) : ¬ s ∈ empty := by
  simp [mem_iff_testBit, empty]

@[simp] theorem mem_singleton : s ∈ singleton t ↔ s = t := by
  cases s with
  | mk m =>
    cases t with
    | mk n =>
      simp only [mem_iff_testBit, singleton, Nat.one_shiftLeft, Nat.testBit_two_pow,
        decide_eq_true_eq, Symbol.mk.injEq]
      exact eq_comm

@[simp] theorem mem_union : s ∈ set.union other ↔ s ∈ set ∨ s ∈ other := by
  simp [mem_iff_testBit, union]

@[simp] theorem mem_diff : s ∈ set.diff other ↔ s ∈ set ∧ ¬ s ∈ other := by
  simp only [mem_iff_testBit, diff, Nat.testBit_xor, Nat.testBit_and]
  cases set.mask.testBit s.id <;> cases other.mask.testBit s.id <;> simp

@[simp] theorem mem_insert : s ∈ set.insert t ↔ s ∈ set ∨ s = t := by
  simp [insert]

@[simp] theorem mem_erase : s ∈ set.erase t ↔ s ∈ set ∧ s ≠ t := by
  simp [erase]

@[simp] theorem mem_withoutEpsilon : s ∈ set.withoutEpsilon ↔ s ∈ set ∧ s ≠ .epsilon := by
  simp [withoutEpsilon]

@[simp] theorem mem_insertAll {symbols : List Symbol} :
    s ∈ set.insertAll symbols ↔ s ∈ set ∨ s ∈ symbols := by
  induction symbols generalizing set with
  | nil => simp [insertAll]
  | cons t rest ih =>
    have step : set.insertAll (t :: rest) = (set.insert t).insertAll rest := rfl
    rw [step, ih, mem_insert, List.mem_cons, or_assoc]

@[simp] theorem mem_ofList {symbols : List Symbol} : s ∈ ofList symbols ↔ s ∈ symbols := by
  simp [ofList]

theorem isSubset_iff : set.isSubset other = true ↔ ∀ s, s ∈ set → s ∈ other := by
  have same : set.union other = other ↔ set.mask ||| other.mask = other.mask := by
    cases other with
    | mk n => simp [union]
  rw [isSubset, decide_eq_true_eq, ← same]
  constructor
  · intro h s member
    rw [← h, mem_union]
    exact Or.inl member
  · intro within
    apply ext_mem
    intro s
    rw [mem_union]
    exact ⟨fun h => h.elim (within s) id, Or.inr⟩

theorem extend_fst : (set.extend added).1 = set.union added := by
  unfold extend
  split
  · next h =>
    apply ext_mem
    intro s
    rw [mem_union]
    exact ⟨Or.inl, fun m => m.elim id (isSubset_iff.mp h s)⟩
  · rfl

/-- Growth is reported exactly when a symbol is new to the set. -/
theorem extend_snd_iff : (set.extend added).2 = true ↔ ∃ s, s ∈ added ∧ ¬ s ∈ set := by
  unfold extend
  split
  · next h =>
    rw [isSubset_iff] at h
    constructor
    · intro impossible
      cases impossible
    · rintro ⟨s, member, absent⟩
      exact absurd (h s member) absent
  · next h =>
    rw [isSubset_iff] at h
    simpa using h

theorem testBit_maskWord {mask index i : Nat} (inside : i < wordBits) :
    (maskWord mask index).testBit i = mask.testBit (wordBits * index + i) := by
  have size : 0x10000000000000000 = 2 ^ wordBits := by decide
  rw [maskWord, size, Nat.testBit_mod_two_pow, Nat.testBit_shiftRight]
  simp [inside]

theorem mem_wordMembers {mask index n : Nat} :
    n ∈ wordMembers mask index ↔ n / wordBits = index ∧ mask.testBit n = true := by
  have positive : 0 < wordBits := by decide
  simp only [wordMembers, List.mem_map, List.mem_filter, List.mem_range]
  constructor
  · rintro ⟨i, ⟨inside, bit⟩, rfl⟩
    rw [testBit_maskWord inside] at bit
    refine ⟨?_, bit⟩
    rw [Nat.mul_add_div positive, Nat.div_eq_of_lt inside, Nat.add_zero]
  · rintro ⟨rfl, bit⟩
    have inside := Nat.mod_lt n positive
    refine ⟨n % wordBits, ⟨inside, ?_⟩, Nat.div_add_mod n wordBits⟩
    rw [testBit_maskWord inside, Nat.div_add_mod]
    exact bit

@[simp] theorem mem_toList : s ∈ set.toList ↔ s ∈ set := by
  cases s with
  | mk n =>
    simp only [toList, List.mem_map, List.mem_flatMap, List.mem_range, mem_wordMembers,
      Symbol.mk.injEq, exists_eq_right, mem_iff_testBit]
    refine ⟨fun ⟨_, _, _, bit⟩ => bit, fun bit => ⟨n / wordBits, ?_, rfl, bit⟩⟩
    have nonzero : set.mask ≠ 0 := by
      intro zero
      simp [zero] at bit
    have large : 2 ^ n ≤ set.mask := Nat.ge_two_pow_of_testBit bit
    exact Nat.lt_succ_of_le (Nat.div_le_div_right ((Nat.le_log2 nonzero).mpr large))

theorem pairwise_wordMembers (mask index : Nat) :
    (wordMembers mask index).Pairwise fun m n => m < n := by
  rw [wordMembers, List.pairwise_map]
  exact (List.Pairwise.filter _ List.pairwise_lt_range).imp fun less =>
    Nat.add_lt_add_left less _

/-- Members are listed by increasing position, each once. -/
theorem pairwise_toList : set.toList.Pairwise fun s t => s.id < t.id := by
  rw [toList, List.pairwise_map, List.pairwise_flatMap]
  refine ⟨fun index _ => pairwise_wordMembers set.mask index, ?_⟩
  refine List.pairwise_lt_range.imp fun less m first n second => ?_
  -- a position of an earlier word lies before one of a later word
  rw [mem_wordMembers] at first second
  have order : m / wordBits < n / wordBits := first.1 ▸ second.1 ▸ less
  exact Nat.lt_of_div_lt_div order

end SymbolSet

end Predictive
