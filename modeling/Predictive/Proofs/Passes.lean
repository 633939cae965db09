import Mathlib.Logic.Function.Iterate
import Predictive.Proofs.Follow

/-!
# Passes end at a fixed point

A pass over the productions is repeated as long as it reports that something changed. The report is
put together from many partial ones, and it has to be right: a change that is reported but did not
happen would keep the passes going for ever, and one that is missed would stop them too early. For
each pass it is right in every state, whatever the productions are, so that the passes end, and one
more would change nothing.

The number of passes that is allowed for does not matter in the end. For FIRST sets it exceeds what
the members can weigh. For FOLLOW sets the members come from FIRST sets that may belong to any
grammar, so that their number is no bound. Here each symbol is on its own: where it goes in a pass
depends only on where it is. So in each pass every symbol that is to move at all enters some further
set, and there is a pass without a change when there were as many as there are sets.

## Main definitions

* `afterPasses` — the state after a number of passes
* `OrderedMap.Grown` — sets to which members were added
* `OrderedMap.AgreeAt` — families of sets that hold a symbol in the same places
* `Saturates` — what it means that passes end at a fixed point

## Main results

* `silent_of_separate` — if symbols move on their own, a pass for each set is enough
* `FirstSets.saturates_sweep` — passes over FIRST sets end
* `FollowSets.saturates_compute` — passes over FOLLOW sets end, for any FIRST sets
-/

namespace Predictive

variable {α β : Type}

/-! ### States after a number of passes -/

/-- The state after a number of passes. -/
def afterPasses (pass : α → α × Bool) (n : Nat) (state : α) : α :=
  (fun state => (pass state).1)^[n] state

section Passes

variable {pass : α → α × Bool} {state : α} {weight : α → Nat} {fuel : Nat}

/-- What a pass preserves holds after any number of passes. -/
theorem afterPasses_invariant (holds : α → Prop) (n : Nat) (initially : holds state)
    (keeps : ∀ state, holds state → holds (pass state).1) : holds (afterPasses pass n state) := by
  induction n generalizing state with
  | zero => exact initially
  | succ n ih => exact ih (keeps state initially)

/-- If the last pass that is allowed for would be silent, saturation stops at the first silent
pass, as it would with no limit at all. -/
theorem exists_silent_pass (growing : Growing weight pass)
    (silent : (pass (saturate pass fuel state)).2 = false) :
    ∃ n, (∀ k < n, (pass (afterPasses pass k state)).2 = true) ∧
      (pass (afterPasses pass n state)).2 = false ∧
      saturate pass fuel state = afterPasses pass (n + 1) state := by
  induction fuel generalizing state with
  -- the allowance is used up, but a further pass would change nothing
  | zero =>
    refine ⟨0, fun k less => absurd less (Nat.not_lt_zero k), silent, ?_⟩
    exact (growing.same silent).symm
  | succ fuel ih =>
    rw [saturate_succ] at silent ⊢
    split at silent
    · next changed =>
      rw [if_pos changed]
      obtain ⟨n, earlier, last, result⟩ := ih silent
      refine ⟨n + 1, fun k less => ?_, last, result⟩
      cases k with
      | zero => exact changed
      | succ k => exact earlier k (Nat.lt_of_succ_lt_succ less)
    · next unchanged =>
      rw [if_neg unchanged]
      rw [Bool.not_eq_true] at unchanged
      exact ⟨0, fun k less => absurd less (Nat.not_lt_zero k), unchanged, rfl⟩

/-- What a step preserves between two states, a sweep preserves. -/
theorem sweep_related {step : α → β → α × Bool} {items : List β} (related : α → α → Prop)
    (keeps : ∀ item ∈ items, ∀ {state other}, related state other →
      related (step state item).1 (step other item).1) {state other : α}
    (initially : related state other) :
    related (sweep step state items).1 (sweep step other items).1 := by
  induction items generalizing state other with
  | nil => exact initially
  | cons item rest ih =>
    rw [sweep_cons, sweep_cons]
    refine ih (fun item member => keeps item (List.mem_cons_of_mem _ member)) ?_
    exact keeps item List.mem_cons_self initially

end Passes

theorem SymbolSet.size_le_size {set other : SymbolSet} (within : ∀ t ∈ set, t ∈ other) :
    set.size ≤ other.size :=
  size_le_length fun t member => mem_toList.mpr (within t member)

/-! ### Families of sets that grow -/

namespace OrderedMap

variable {sets other last : OrderedMap Symbol SymbolSet} {s t : Symbol} {added more : SymbolSet}
  {possible : List Symbol}

/-- The members of all sets come from a list. -/
def Within (possible : List Symbol) (sets : OrderedMap Symbol SymbolSet) : Prop :=
  ∀ s, ∀ t ∈ sets.members s, t ∈ possible

theorem Within.extendAt (within : sets.Within possible) (new : ∀ t ∈ added, t ∈ possible) :
    (sets.extendAt s added).1.Within possible := by
  intro r t member
  rcases mem_members_extendAt.mp member with old | ⟨-, -, member⟩
  · exact within r t old
  · exact new t member

/-- The members of all sets. -/
def allMembers (sets : OrderedMap Symbol SymbolSet) : List Symbol :=
  sets.entries.flatMap fun entry => entry.2.toList

theorem within_allMembers (sets : OrderedMap Symbol SymbolSet) : sets.Within sets.allMembers := by
  intro s t member
  obtain ⟨set, found, inside⟩ := mem_members_iff.mp member
  exact List.mem_flatMap.mpr
    ⟨(s, set), mem_entries_iff.mpr found, SymbolSet.mem_toList.mpr inside⟩

/-- Sets to which members were added: the keys stay, and no set loses a member. -/
structure Grown (sets other : OrderedMap Symbol SymbolSet) : Prop where
  /-- No set comes or goes. -/
  keys_eq : other.keys = sets.keys
  /-- No set loses a member. -/
  keeps : ∀ s, ∀ t ∈ sets.members s, t ∈ other.members s

theorem Grown.refl (sets : OrderedMap Symbol SymbolSet) : sets.Grown sets :=
  ⟨rfl, fun _ _ member => member⟩

theorem Grown.extendAt (grown : sets.Grown other) (s : Symbol) (added : SymbolSet) :
    sets.Grown (other.extendAt s added).1 :=
  ⟨keys_extendAt.trans grown.keys_eq, fun r t member =>
    mem_members_extendAt.mpr (Or.inl (grown.keeps r t member))⟩

theorem weight_eq :
    sets.weight = (sets.keys.map fun s => (sets.members s).size).sum := by
  rw [weight, keys, List.map_map]
  congr 1
  refine List.map_congr_left fun entry listed => ?_
  have found : sets.get? entry.1 = some entry.2 := mem_entries_iff.mp listed
  rw [Function.comp_apply, members, found]
  rfl

/-- Sets that became heavier have a new member. -/
theorem Grown.exists_new (grown : sets.Grown other) (heavier : sets.weight < other.weight) :
    ∃ s, ∃ t ∈ other.members s, t ∉ sets.members s := by
  by_contra none
  push Not at none
  have lighter : other.weight ≤ sets.weight := by
    rw [weight_eq, weight_eq, grown.keys_eq]
    exact List.sum_le_sum fun s _ => SymbolSet.size_le_size (none s)
  omega

/-- Two families of sets that hold a symbol in the same places. -/
structure AgreeAt (t : Symbol) (sets other : OrderedMap Symbol SymbolSet) : Prop where
  /-- Both have the same keys. -/
  keys_eq : other.keys = sets.keys
  /-- The symbol is a member of the same sets. -/
  mem_iff : ∀ s, t ∈ other.members s ↔ t ∈ sets.members s

/-- Families that agree at a symbol still do so when both are extended alike. -/
theorem AgreeAt.extendAt (agree : AgreeAt t sets other) (same : t ∈ more ↔ t ∈ added) :
    AgreeAt t (sets.extendAt s added).1 (other.extendAt s more).1 := by
  refine ⟨?_, fun r => ?_⟩
  · rw [keys_extendAt, keys_extendAt, agree.keys_eq]
  · rw [mem_members_extendAt, mem_members_extendAt, agree.mem_iff, agree.keys_eq, same]

/-- The places in which a symbol is held. -/
def places (sets : OrderedMap Symbol SymbolSet) (t : Symbol) : SymbolSet :=
  .ofList (sets.keys.filter fun s => decide (t ∈ sets.members s))

theorem mem_keys_of_mem_members (member : t ∈ sets.members s) : s ∈ sets.keys := by
  obtain ⟨set, found, -⟩ := mem_members_iff.mp member
  exact get?_isSome_iff.mp (by rw [found]; rfl)

theorem mem_places : s ∈ sets.places t ↔ t ∈ sets.members s := by
  rw [places, SymbolSet.mem_ofList, List.mem_filter, decide_eq_true_eq]
  exact and_iff_right_of_imp mem_keys_of_mem_members

theorem size_places_le : (sets.places t).size ≤ sets.keys.length :=
  SymbolSet.size_le_length fun _ place => mem_keys_of_mem_members (mem_places.mp place)

/-- A symbol that enters a set is held in more places. -/
theorem Grown.size_places_lt (grown : sets.Grown other) (new : t ∈ other.members s)
    (absent : t ∉ sets.members s) : (sets.places t).size < (other.places t).size :=
  SymbolSet.size_lt_size
    (fun r place => mem_places.mpr (grown.keeps r t (mem_places.mp place)))
    (mem_places.mpr new) fun place => absent (mem_places.mp place)

end OrderedMap

/-! ### Symbols on their own -/

section Separate

open OrderedMap (AgreeAt Grown)

variable {sets : α → OrderedMap Symbol SymbolSet} {pass : α → α × Bool} {state : α} {fuel : Nat}
  {s t : Symbol}

/-- A symbol that would still move after a number of passes has moved in each of them. -/
theorem size_places_saturate (growing : Growing (fun state => (sets state).weight) pass)
    (grown : ∀ state, (sets state).Grown (sets (pass state).1))
    (separate : ∀ {t state other}, AgreeAt t (sets state) (sets other) →
      AgreeAt t (sets (pass state).1) (sets (pass other).1))
    (new : t ∈ (sets (pass (saturate pass fuel state)).1).members s)
    (absent : t ∉ (sets (saturate pass fuel state)).members s) :
    ((sets state).places t).size + fuel ≤ ((sets (saturate pass fuel state)).places t).size := by
  induction fuel generalizing state with
  | zero => exact Nat.le_refl _
  | succ fuel ih =>
    rw [saturate_succ] at new absent ⊢
    split at new
    · next changed =>
      rw [if_pos changed] at absent ⊢
      have later := ih new absent
      -- a move pays for the pass
      by_cases moved : ∃ r, t ∈ (sets (pass state).1).members r ∧ t ∉ (sets state).members r
      · obtain ⟨r, enters, missing⟩ := moved
        have more := (grown state).size_places_lt enters missing
        omega
      -- a symbol that rests in one pass rests in all that follow
      · exfalso
        push Not at moved
        have rests : AgreeAt t (sets state) (sets (pass state).1) :=
          ⟨(grown state).keys_eq, fun r => ⟨moved r, (grown state).keeps r t⟩⟩
        have rested := saturate_invariant (fun state => AgreeAt t (sets state) (sets (pass state).1))
          fuel (separate rests) fun _ => separate
        exact absent ((rested.mem_iff s).mp new)
    · next unchanged =>
      rw [if_neg unchanged] at absent
      rw [Bool.not_eq_true] at unchanged
      rw [growing.same unchanged, growing.same unchanged] at new
      rw [growing.same unchanged] at absent
      exact absurd new absent

/-- If symbols move on their own, as many passes as there are sets are enough. -/
theorem silent_of_separate (growing : Growing (fun state => (sets state).weight) pass)
    (grown : ∀ state, (sets state).Grown (sets (pass state).1))
    (separate : ∀ {t state other}, AgreeAt t (sets state) (sets other) →
      AgreeAt t (sets (pass state).1) (sets (pass other).1))
    (enough : (sets state).keys.length ≤ fuel) : (pass (saturate pass fuel state)).2 = false := by
  by_contra changed
  rw [Bool.not_eq_false] at changed
  obtain ⟨s, t, new, absent⟩ := (grown _).exists_new (growing.more changed)
  -- the symbol has moved once in every pass and moves once more, which is too often
  have moved := size_places_saturate growing grown separate new absent
  have moves := (grown _).size_places_lt new absent
  have limit := @OrderedMap.size_places_le (sets (pass (saturate pass fuel state)).1) t
  have keys : (sets (saturate pass fuel state)).keys = (sets state).keys :=
    saturate_invariant (fun other => (sets other).keys = (sets state).keys) fuel rfl
      fun other same => (grown other).keys_eq.trans same
  rw [(grown _).keys_eq, keys] at limit
  omega

end Separate

/-! ### Fixed points -/

/-- Passes over families of sets that end at a fixed point, and tell the truth on the way there. -/
structure Saturates (sets : α → OrderedMap Symbol SymbolSet) (possible : List Symbol)
    (pass : α → α × Bool) (initial result : α) : Prop where
  /-- No pass takes a member out of a set. -/
  grown : ∀ state, (sets state).Grown (sets (pass state).1)
  /-- A pass reports a change exactly if some set got a new member. -/
  reports : ∀ state, (pass state).2 = true ↔
    ∃ s, ∃ t ∈ (sets (pass state).1).members s, t ∉ (sets state).members s
  /-- All members come from a list, after any number of passes. -/
  within : ∀ n, (sets (afterPasses pass n initial)).Within possible
  /-- After some number of passes, all of which report a change, there is one that reports none,
  and the result is what this one leaves behind. -/
  ends : ∃ n, (∀ k < n, (pass (afterPasses pass k initial)).2 = true) ∧
    (pass (afterPasses pass n initial)).2 = false ∧ result = afterPasses pass (n + 1) initial
  /-- One more pass changes nothing. -/
  fixed : pass result = (result, false)

theorem Saturates.within_result {sets : α → OrderedMap Symbol SymbolSet} {possible : List Symbol}
    {pass : α → α × Bool} {initial result : α}
    (saturates : Saturates sets possible pass initial result) : (sets result).Within possible := by
  obtain ⟨n, -, -, ended⟩ := saturates.ends
  exact ended ▸ saturates.within (n + 1)

theorem saturates_of_silent {sets : α → OrderedMap Symbol SymbolSet} {possible : List Symbol}
    {pass : α → α × Bool} {initial : α} {fuel : Nat}
    (growing : Growing (fun state => (sets state).weight) pass)
    (grown : ∀ state, (sets state).Grown (sets (pass state).1))
    (within : ∀ n, (sets (afterPasses pass n initial)).Within possible)
    (silent : (pass (saturate pass fuel initial)).2 = false) :
    Saturates sets possible pass initial (saturate pass fuel initial) where
  grown := grown
  reports state := by
    refine ⟨fun changed => (grown state).exists_new (growing.more changed), ?_⟩
    rintro ⟨s, t, new, absent⟩
    by_contra unchanged
    rw [Bool.not_eq_true] at unchanged
    -- a pass without a report leaves everything in place, so there is nothing new
    rw [growing.same unchanged] at new
    exact absent new
  within := within
  ends := exists_silent_pass growing silent
  fixed := Prod.ext (growing.same silent) silent

namespace FirstSets

variable {γ : Type} {items : List (Symbol × γ)} {said : FirstSets → Symbol × γ → SymbolSet}
  {terminals nonterminals : List Symbol} {firsts : FirstSets}

theorem grown_sweep (firsts : FirstSets) :
    firsts.sets.Grown (sweep (fun firsts production =>
      firsts.extend production.1 (said firsts production)) firsts items).1.sets := by
  refine sweep_invariant (fun other : FirstSets => firsts.sets.Grown other.sets) (.refl _) ?_
  intro other production _ grown
  rw [extend_eq]
  exact grown.extendAt production.1 _

theorem within_sweep {possible : List Symbol} (within : firsts.sets.Within possible)
    (closed : ∀ {firsts : FirstSets}, firsts.sets.Within possible →
      ∀ production, ∀ t ∈ said firsts production, t ∈ possible) :
    (sweep (fun firsts production =>
      firsts.extend production.1 (said firsts production)) firsts items).1.sets.Within possible := by
  refine sweep_invariant (fun firsts : FirstSets => firsts.sets.Within possible) within ?_
  intro firsts production _ within
  rw [extend_eq]
  exact within.extendAt (closed within production)

theorem within_initial : (initial terminals nonterminals).sets.Within
    (terminals ++ [.eof, .epsilon]) := by
  intro s t member
  obtain ⟨rfl, -, listed⟩ := mem_members_initial.mp member
  exact listed

/-- Passes over FIRST sets end at a fixed point, if what a production says comes from the terminals
whenever the members of the sets do. -/
theorem saturates_sweep
    (closed : ∀ {firsts : FirstSets}, firsts.sets.Within (terminals ++ [.eof, .epsilon]) →
      ∀ production, ∀ t ∈ said firsts production, t ∈ terminals ++ [.eof, .epsilon]) :
    Saturates FirstSets.sets (terminals ++ [.eof, .epsilon])
      (fun firsts => sweep (fun firsts production =>
        firsts.extend production.1 (said firsts production)) firsts items)
      (initial terminals nonterminals)
      (saturate (fun firsts => sweep (fun firsts production =>
          firsts.extend production.1 (said firsts production)) firsts items)
        ((initial terminals nonterminals).passBound terminals) (initial terminals nonterminals)) := by
  have growing := Growing.sweep items fun production _ =>
    growing_extend production.1 fun firsts => said firsts production
  refine saturates_of_silent growing (fun firsts => grown_sweep firsts)
    (fun n => afterPasses_invariant (fun firsts : FirstSets => firsts.sets.Within _) n
      within_initial fun _ within => within_sweep within closed) ?_
  -- the keys stay, too, so that there is a limit to the weight
  let confined := fun firsts : FirstSets =>
    firsts.sets.keys = (initial terminals nonterminals).sets.keys ∧
      firsts.sets.Within (terminals ++ [.eof, .epsilon])
  have initially : confined (initial terminals nonterminals) := ⟨rfl, within_initial⟩
  refine silent_of_confined growing initially (fun firsts held => ?_) (fun _ => And.left)
    fun _ => And.right
  exact ⟨(grown_sweep firsts).keys_eq.trans held.1, within_sweep held.2 closed⟩

/-- The FIRST set of a string takes its members from the sets of the symbols. -/
theorem mem_possible_of_mem_ofString {possible symbols : List Symbol} {t : Symbol}
    (within : firsts.sets.Within possible) (marker : .epsilon ∈ possible)
    (member : t ∈ firsts.ofString symbols) : t ∈ possible := by
  rcases mem_members_of_mem_ofStringFrom member with rfl | impossible | ⟨s, member⟩
  · exact marker
  · exact absurd impossible (SymbolSet.not_mem_empty t)
  · exact within s t member

theorem saturates_compute (grammar : Grammar) :
    Saturates FirstSets.sets (grammar.terminals.items ++ [.eof, .epsilon]) (pass grammar)
      (initial grammar.terminals.items grammar.nonterminals) (compute grammar) := by
  refine saturates_sweep fun within production t member => ?_
  obtain ⟨alternative, -, member⟩ := mem_ofAlternatives.mp member
  exact mem_possible_of_mem_ofString within (by simp) member

end FirstSets

namespace FollowSets

variable {grammar : Grammar} {firsts : FirstSets} {follows other : FollowSets} {s t left : Symbol}
  {added more : SymbolSet} {possible : List Symbol}

/-! ### FOLLOW sets -/

theorem grown_extend (grown : other.sets.Grown follows.sets) :
    other.sets.Grown (follows.extend s added).1.sets := by
  rw [extend_eq]
  exact grown.extendAt s _

/-- Extensions of two families that agree at a symbol. -/
theorem agreeAt_extend (agree : OrderedMap.AgreeAt t follows.sets other.sets)
    (same : t ∈ more ↔ t ∈ added) :
    OrderedMap.AgreeAt t (follows.extend s added).1.sets (other.extend s more).1.sets := by
  rw [extend_eq, extend_eq]
  refine agree.extendAt ?_
  rw [SymbolSet.mem_withoutEpsilon, SymbolSet.mem_withoutEpsilon, same]

theorem within_extend (within : follows.sets.Within possible)
    (new : ∀ t ∈ added, t ≠ .epsilon → t ∈ possible) :
    (follows.extend s added).1.sets.Within possible := by
  rw [extend_eq]
  refine within.extendAt fun t member => ?_
  obtain ⟨member, proper⟩ := SymbolSet.mem_withoutEpsilon.mp member
  exact new t member proper

/-- Passes over FOLLOW sets end at a fixed point, if symbols move on their own and members come
from a list. -/
theorem saturates_of_separate {pass : FollowSets → FollowSets × Bool}
    {nonterminals terminals : List Symbol} {start : Symbol}
    (growing : Growing (fun follows : FollowSets => follows.sets.weight) pass)
    (grown : ∀ follows : FollowSets, follows.sets.Grown (pass follows).1.sets)
    (separate : ∀ {t} {follows other : FollowSets},
      OrderedMap.AgreeAt t follows.sets other.sets →
        OrderedMap.AgreeAt t (pass follows).1.sets (pass other).1.sets)
    (within : ∀ follows : FollowSets, follows.sets.Within possible →
      (pass follows).1.sets.Within possible) (last : .eof ∈ possible) :
    Saturates FollowSets.sets possible pass (initial nonterminals start)
      (saturate pass ((initial nonterminals start).passBound terminals)
        (initial nonterminals start)) := by
  have initially : (initial nonterminals start).sets.Within possible := by
    intro s t member
    obtain ⟨-, -, rfl⟩ := mem_members_initial.mp member
    exact last
  refine saturates_of_silent growing grown (fun n => afterPasses_invariant
    (fun follows : FollowSets => follows.sets.Within _) n initially within) ?_
  refine silent_of_separate growing grown separate ?_
  -- there are as many entries as keys
  rw [passBound, OrderedMap.size, OrderedMap.keys, List.length_map]
  exact Nat.le_succ_of_le (Nat.le_mul_of_pos_right _ (Nat.succ_pos _))

/-- In a visit a symbol moves on its own. -/
theorem agreeAt_visit (agree : OrderedMap.AgreeAt t follows.sets other.sets)
    (occurrence : Symbol × List Symbol) :
    OrderedMap.AgreeAt t (visit firsts left follows occurrence).1.sets
      (visit firsts left other occurrence).1.sets := by
  have sideways : OrderedMap.AgreeAt t
      (follows.extend occurrence.1 (firsts.ofString occurrence.2)).1.sets
      (other.extend occurrence.1 (firsts.ofString occurrence.2)).1.sets :=
    agreeAt_extend agree Iff.rfl
  rw [visit_eq, visit_eq]
  dsimp only [inherit]
  split
  · exact agreeAt_extend sideways (sideways.mem_iff left)
  · exact sideways

theorem agreeAt_pass (agree : OrderedMap.AgreeAt t follows.sets other.sets) :
    OrderedMap.AgreeAt t (pass grammar firsts follows).1.sets
      (pass grammar firsts other).1.sets := by
  let related := fun follows other : FollowSets =>
    OrderedMap.AgreeAt t follows.sets other.sets
  refine sweep_related related (fun production _ follows other agree => ?_) agree
  exact sweep_related related (fun occurrence _ follows other agree =>
    agreeAt_visit agree occurrence) agree

/-- Passes over the FOLLOW sets of a grammar end at a fixed point, whatever FIRST sets are given:
the members are `EOF` and those of the FIRST sets. -/
theorem saturates_compute (grammar : Grammar)
    (supplied : ∀ s, ∀ t ∈ firsts.sets.members s, t ≠ .epsilon → t ∈ possible)
    (last : .eof ∈ possible) :
    Saturates FollowSets.sets possible (pass grammar firsts)
      (initial grammar.nonterminals grammar.start) (compute grammar firsts) := by
  refine saturates_of_separate (growing_pass grammar firsts) (fun follows => ?_) agreeAt_pass
    (fun follows within => ?_) last
  · exact pass_invariant (fun other => follows.sets.Grown other.sets) (.refl _)
      (fun _ _ grown => grown_extend grown) fun _ _ _ grown => grown_extend grown
  · refine pass_invariant (fun follows => follows.sets.Within possible) within
      (fun _ _ within => within_extend within fun t member proper => ?_)
      fun _ _ _ within => within_extend within fun t member _ => within _ t member
    rcases FirstSets.mem_members_of_mem_ofStringFrom member with marker | impossible | ⟨s, member⟩
    · exact absurd marker proper
    · exact absurd impossible (SymbolSet.not_mem_empty t)
    · exact supplied s t member proper

end FollowSets

end Predictive
