import Predictive.Ebnf.Lowering
import Predictive.Proofs.Names
import Predictive.Proofs.OrderedMap

/-!
# Growing grammars

A grammar grows by new names with productions of their own. A name is reserved first, and its
alternatives are written later, when those of the names inside it are known. In between, other
names come in, and nothing that was written for one of them is lost: new names do not disturb each
other. Growth fails only if there is no room for all the names.

## Main definitions

* `NameTable.Fits` — a computation that can only fail for want of room
* `Grammar.Introduces` — a grammar with further names, and productions for them
* `Grammar.Adds` — a computation that introduces names and gives a value

## Main results

* `NameTable.Fits.bind` — computations one after the other
* `Grammar.fits_reserve` — a new name is introduced
* `Grammar.Adds.andThen`, `Grammar.adds_reserve`, `Grammar.adds_reserve_pair` — what is added step
  by step
-/

namespace Predictive

namespace NameTable

variable {α β : Type} {need total : Nat} {good better : α → Prop} {outcome : Except Fault α}

/-- A computation that gives a good result, unless the table is too small for the names that it
needs. -/
def Fits (need : Nat) (good : α → Prop) (outcome : Except Fault α) : Prop :=
  (outcome = .error .tooManySymbols ∧ capacity < need) ∨
    ∃ result, outcome = .ok result ∧ good result

theorem fits_ok {result : α} (holds : good result) : Fits need good (.ok result) :=
  Or.inr ⟨result, rfl, holds⟩

/-- Computations one after the other, the second of which may need further names. -/
theorem Fits.bind {best : β → Prop} {second : α → Except Fault β} (fits : Fits need good outcome)
    (within : need ≤ total) (later : ∀ result, good result → Fits total best (second result)) :
    Fits total best (outcome >>= second) := by
  rcases fits with ⟨rfl, full⟩ | ⟨result, rfl, holds⟩
  · exact Or.inl ⟨rfl, Nat.lt_of_lt_of_le full within⟩
  · exact later result holds

theorem Fits.imp (fits : Fits need good outcome)
    (holds : ∀ result, good result → better result) : Fits need better outcome := by
  rcases fits with full | ⟨result, passed, found⟩
  · exact Or.inl full
  · exact Or.inr ⟨result, passed, holds result found⟩

/-- A new name goes to the end of the table. -/
theorem fits_intern {table : NameTable} {name : String} (fresh : table.get? name = none) :
    Fits (table.size + 1)
      (fun result => result.1 = ⟨table.size⟩ ∧ result.2.names = table.names.push name)
      (table.intern name) := by
  by_cases room : table.size < capacity
  · obtain ⟨next, interned, pushed⟩ := intern_of_room fresh room
    exact Or.inr ⟨_, interned, rfl, pushed⟩
  · exact Or.inl ⟨intern_of_full fresh room, Nat.lt_succ_of_le (Nat.not_lt.mp room)⟩

end NameTable

namespace Grammar

open NameTable (Fits fits_ok)

variable {grammar before after last : Grammar} {s t : Symbol} {name : String}
  {created further : List String} {written : List Symbol} {alternatives : List Alternative}

/-! ### Names and productions -/

/-- Symbols without a name have no production. -/
def Bounded (grammar : Grammar) : Prop :=
  ∀ s : Symbol, grammar.names.size ≤ s.id → grammar.alternatives? s = none

/-- A grammar with further names, and productions for them. Of the productions that were there
before, only those of the `written` symbols may be different. -/
structure Introduces (before after : Grammar) (created : List String) (written : List Symbol) :
    Prop where
  /-- The names are added at the end. -/
  names_eq : after.names.names.toList = before.names.names.toList ++ created
  /-- The terminals stay. -/
  terminals_eq : after.terminals = before.terminals
  /-- The start symbol stays. -/
  start_eq : after.start = before.start
  /-- The productions of other symbols stay. -/
  kept : ∀ s : Symbol, s.id < before.names.size → s ∉ written →
    after.alternatives? s = before.alternatives? s
  /-- Only symbols with a name have a production. -/
  bounded : after.Bounded

/-- Two grammars have the same productions for a range of symbols. -/
def Agrees (final lowered : Grammar) (low high : Nat) : Prop :=
  ∀ s : Symbol, low ≤ s.id → s.id < high → final.alternatives? s = lowered.alternatives? s

theorem alternatives?_setAlternatives :
    (grammar.setAlternatives s alternatives).alternatives? t =
      if t = s then some alternatives else grammar.alternatives? t :=
  OrderedMap.get?_insert ..

namespace Introduces

theorem refl (bounded : grammar.Bounded) : Introduces grammar grammar [] [] :=
  ⟨(List.append_nil _).symm, rfl, rfl, fun _ _ _ => rfl, bounded⟩

theorem size_eq (introduces : Introduces before after created written) :
    after.names.size = before.names.size + created.length := by
  have lengths := congrArg List.length introduces.names_eq
  rwa [List.length_append, Array.length_toList, Array.length_toList] at lengths

theorem trans {others : List Symbol} (first : Introduces before after created written)
    (second : Introduces after last further others) :
    Introduces before last (created ++ further) (written ++ others) := by
  have grown := first.size_eq
  refine ⟨?_, second.terminals_eq.trans first.terminals_eq, second.start_eq.trans first.start_eq,
    fun s old unwritten => ?_, second.bounded⟩
  · rw [second.names_eq, first.names_eq, List.append_assoc]
  · rw [List.mem_append, not_or] at unwritten
    rw [second.kept s (by omega) unwritten.2, first.kept s old unwritten.1]

/-- More symbols may be counted as written than were. -/
theorem mono {others : List Symbol} (introduces : Introduces before after created written)
    (more : ∀ s ∈ written, s ∈ others) : Introduces before after created others :=
  ⟨introduces.names_eq, introduces.terminals_eq, introduces.start_eq,
    fun s old unwritten => introduces.kept s old fun listed => unwritten (more s listed),
    introduces.bounded⟩

/-- The production of a new symbol may be written again. -/
theorem setAlternatives (introduces : Introduces before after created written)
    (named : s.id < after.names.size) (free : before.names.size ≤ s.id ∨ s ∈ written)
    (alternatives : List Alternative) :
    Introduces before (after.setAlternatives s alternatives) created written := by
  refine ⟨introduces.names_eq, introduces.terminals_eq, introduces.start_eq,
    fun t old unwritten => ?_, fun t beyond => ?_⟩
  · rw [alternatives?_setAlternatives, if_neg, introduces.kept t old unwritten]
    rintro rfl
    rcases free with new | listed
    · omega
    · exact unwritten listed
  · rw [alternatives?_setAlternatives, if_neg, introduces.bounded t beyond]
    rintro rfl
    exact absurd named (Nat.not_lt.mpr beyond)

/-- Names that are new to a grammar and not among those introduced are still new. -/
theorem fresh (introduces : Introduces before after created written)
    (fresh : ∀ name ∈ created ++ further, before.names.get? name = none)
    (nodup : (created ++ further).Nodup) : ∀ name ∈ further, after.names.get? name = none := by
  intro name listed
  rw [NameTable.get?_eq_none_iff_not_mem, introduces.names_eq, List.mem_append, not_or,
    ← NameTable.get?_eq_none_iff_not_mem]
  refine ⟨fresh name (List.mem_append_right created listed), fun again => ?_⟩
  exact (List.disjoint_of_nodup_append nodup) again listed

end Introduces

/-- A new name is introduced, with an empty production. -/
theorem fits_reserve (bounded : grammar.Bounded) (fresh : grammar.names.get? name = none) :
    Fits (grammar.names.size + 1)
      (fun result => result.1 = ⟨grammar.names.size⟩ ∧ Introduces grammar result.2 [name] [])
      (grammar.reserve name) := by
  -- the symbol of a new name is the first one beyond the table, which has no production
  by_cases room : grammar.names.size < NameTable.capacity
  · obtain ⟨names, interned, pushed⟩ := NameTable.intern_of_room fresh room
    have unused : grammar.isNonterminal ⟨grammar.names.size⟩ = false := by
      have absent := bounded ⟨grammar.names.size⟩ (Nat.le_refl _)
      rw [alternatives?] at absent
      rw [isNonterminal, OrderedMap.contains, absent]
      rfl
    have size : names.size = grammar.names.size + 1 := by
      rw [NameTable.size, pushed, Array.size_push, NameTable.size]
    have named : Introduces grammar { grammar with names } [name] [] :=
      ⟨by simp [pushed], rfl, rfl, fun _ _ _ => rfl,
        fun s (beyond : names.size ≤ s.id) => bounded s (by omega)⟩
    refine Or.inr ⟨(⟨grammar.names.size⟩,
      { grammar with names }.setAlternatives ⟨grammar.names.size⟩ []),
      ?_, rfl,
      named.setAlternatives (size ▸ Nat.lt_succ_self _) (Or.inl (Nat.le_refl _)) []⟩
    simp [reserve, interned, unused, bind, Except.bind, pure, Except.pure]
  · refine Or.inl ⟨?_, Nat.lt_succ_of_le (Nat.not_lt.mp room)⟩
    simp [reserve, NameTable.intern_of_full fresh room, bind, Except.bind]

/-! ### Adding productions -/

/-- What a computation adds to a grammar: names with productions, and a value that is as it should
be in every grammar that keeps the new productions. -/
def Adds {α : Type} (grammar : Grammar) (created : List String) (good : Grammar → α → Prop)
    (outcome : Except Fault (α × Grammar)) : Prop :=
  Fits (grammar.names.size + created.length)
    (fun result => Introduces grammar result.2 created [] ∧
      ∀ final, Agrees final result.2 grammar.names.size result.2.names.size → good final result.1)
    outcome

variable {α β γ : Type} {good : Grammar → α → Prop} {inner : Grammar → β → Prop}

theorem adds_nothing (bounded : grammar.Bounded) {value : α}
    (holds : ∀ final, good final value) : grammar.Adds [] good (.ok (value, grammar)) :=
  fits_ok ⟨.refl bounded, fun final _ => holds final⟩

theorem Adds.imp {other : Grammar → α → Prop} {outcome : Except Fault (α × Grammar)}
    (adds : grammar.Adds created good outcome)
    (holds : ∀ final value, good final value → other final value) :
    grammar.Adds created other outcome :=
  NameTable.Fits.imp adds fun result found =>
    ⟨found.1, fun final agrees => holds final result.1 (found.2 final agrees)⟩

/-- Productions for new names may be added one after the other. -/
theorem Adds.andThen {first : Except Fault (α × Grammar)}
    {second : Grammar → Except Fault (β × Grammar)} (combine : α → β → γ)
    (adds : grammar.Adds created good first)
    (fresh : ∀ name ∈ created ++ further, grammar.names.get? name = none)
    (nodup : (created ++ further).Nodup)
    (later : ∀ next : Grammar, next.names.size = grammar.names.size + created.length →
      next.Bounded → (∀ name ∈ further, next.names.get? name = none) →
      next.Adds further inner (second next)) :
    grammar.Adds (created ++ further)
      (fun final result => ∃ value other, result = combine value other ∧ good final value ∧
        inner final other)
      (do
        let (value, next) ← first
        let (other, last) ← second next
        return (combine value other, last)) := by
  have total := @List.length_append _ created further
  refine NameTable.Fits.bind adds (by omega) ?_
  rintro ⟨value, next⟩ ⟨introduces, holds⟩
  have grown : next.names.size = grammar.names.size + created.length := introduces.size_eq
  refine (later next grown introduces.bounded (introduces.fresh fresh nodup)).bind (by omega) ?_
  rintro ⟨other, last⟩ ⟨introduces', holds'⟩
  have grown' : last.names.size = next.names.size + further.length := introduces'.size_eq
  refine fits_ok ⟨introduces.trans introduces', fun final agrees => ?_⟩
  dsimp only at agrees holds
  -- the second part neither writes to the names of the first, nor the first to those of the second
  refine ⟨value, other, rfl, holds final fun s low high => ?_, holds' final fun s low high => ?_⟩
  · rw [agrees s low (by omega), introduces'.kept s high List.not_mem_nil]
  · exact agrees s (by omega) high

/-- A new name, productions for further names, and then the alternatives of the name. -/
theorem adds_reserve {second : Grammar → Except Fault (β × Grammar)}
    (alternatives : Symbol → β → List Alternative) (bounded : grammar.Bounded)
    (fresh : ∀ other ∈ name :: further, grammar.names.get? other = none)
    (nodup : (name :: further).Nodup)
    (later : ∀ next : Grammar, next.names.size = grammar.names.size + 1 → next.Bounded →
      (∀ name ∈ further, next.names.get? name = none) → next.Adds further inner (second next)) :
    grammar.Adds (name :: further)
      (fun final s => s = ⟨grammar.names.size⟩ ∧ ∃ value, inner final value ∧
        final.alternatives? s = some (alternatives s value))
      (do
        let (s, next) ← grammar.reserve name
        let (value, last) ← second next
        return (s, last.setAlternatives s (alternatives s value))) := by
  have total := @List.length_cons _ name further
  refine (fits_reserve bounded (fresh name List.mem_cons_self)).bind (by omega) ?_
  rintro ⟨_, next⟩ ⟨rfl, introduces⟩
  have grown : next.names.size = grammar.names.size + 1 := introduces.size_eq
  refine (later next grown introduces.bounded (introduces.fresh fresh nodup)).bind (by omega) ?_
  rintro ⟨value, last⟩ ⟨introduces', holds⟩
  have grown' : last.names.size = next.names.size + further.length := introduces'.size_eq
  have named : grammar.names.size < last.names.size := by omega
  refine fits_ok ⟨(introduces.trans introduces').setAlternatives named (Or.inl (Nat.le_refl _)) _,
    fun final agrees => ⟨rfl, value, holds final fun s low high => ?_, ?_⟩⟩
  · rw [agrees s (by omega) high, alternatives?_setAlternatives, if_neg]
    rintro rfl
    exact absurd low (by dsimp only; omega)
  · rw [agrees ⟨grammar.names.size⟩ (Nat.le_refl _) named, alternatives?_setAlternatives,
      if_pos rfl]

/-- Two new names, productions for further names, and then the alternatives of the two. -/
theorem adds_reserve_pair {other : String} {second : Grammar → Except Fault (β × Grammar)}
    (alternatives others : Symbol → β → List Alternative) (bounded : grammar.Bounded)
    (fresh : ∀ known ∈ name :: other :: further, grammar.names.get? known = none)
    (nodup : (name :: other :: further).Nodup)
    (later : ∀ next : Grammar, next.names.size = grammar.names.size + 2 → next.Bounded →
      (∀ name ∈ further, next.names.get? name = none) → next.Adds further inner (second next)) :
    grammar.Adds (name :: other :: further)
      (fun final s => s = ⟨grammar.names.size⟩ ∧ ∃ value, inner final value ∧
        final.alternatives? s = some (alternatives ⟨grammar.names.size + 1⟩ value) ∧
        final.alternatives? ⟨grammar.names.size + 1⟩ =
          some (others ⟨grammar.names.size + 1⟩ value))
      (do
        let (s, next) ← grammar.reserve name
        let (more, next) ← next.reserve other
        let (value, last) ← second next
        let last := last.setAlternatives s (alternatives more value)
        return (s, last.setAlternatives more (others more value))) := by
  have total : (name :: other :: further).length = further.length + 1 + 1 := rfl
  refine (fits_reserve bounded (fresh name List.mem_cons_self)).bind (by omega) ?_
  rintro ⟨_, next⟩ ⟨rfl, introduces⟩
  have grown : next.names.size = grammar.names.size + 1 := introduces.size_eq
  have fresh' := introduces.fresh fresh nodup
  refine (fits_reserve introduces.bounded (fresh' other List.mem_cons_self)).bind
    (by dsimp only; omega) ?_
  rintro ⟨_, both⟩ ⟨rfl, introduces'⟩
  have grown' : both.names.size = next.names.size + 1 := introduces'.size_eq
  refine (later both (by omega) introduces'.bounded
    (introduces'.fresh fresh' nodup.of_cons)).bind (by omega) ?_
  rintro ⟨value, last⟩ ⟨introduces'', holds⟩
  have grown'' : last.names.size = both.names.size + further.length := introduces''.size_eq
  have above : grammar.names.size ≤ next.names.size := by omega
  have named : next.names.size < last.names.size := by omega
  have apart : (⟨grammar.names.size⟩ : Symbol) ≠ ⟨next.names.size⟩ := by
    intro same
    have ids : grammar.names.size = next.names.size := congrArg Symbol.id same
    omega
  refine fits_ok ⟨(((introduces.trans introduces').trans introduces'').setAlternatives
    (Nat.lt_of_le_of_lt above named) (Or.inl (Nat.le_refl _)) _).setAlternatives named
      (Or.inl above) _,
    fun final agrees => ⟨rfl, value, holds final fun s low high => ?_, ?_⟩⟩
  -- the names inside are younger than both, so writing the two leaves their productions alone
  · have first : s ≠ ⟨grammar.names.size⟩ := by
      rintro rfl
      exact absurd low (by dsimp only; omega)
    have second : s ≠ ⟨next.names.size⟩ := by
      rintro rfl
      exact absurd low (by dsimp only; omega)
    rw [agrees s (by omega) high, alternatives?_setAlternatives, if_neg second,
      alternatives?_setAlternatives, if_neg first]
  · rw [← grown]
    constructor
    · rw [agrees ⟨grammar.names.size⟩ (Nat.le_refl _) (Nat.lt_of_le_of_lt above named),
        alternatives?_setAlternatives, if_neg apart, alternatives?_setAlternatives, if_pos rfl]
    · rw [agrees ⟨next.names.size⟩ above named, alternatives?_setAlternatives, if_pos rfl]

end Grammar

end Predictive
