import Predictive.Proofs.LeftFactor.Meaning
import Predictive.Proofs.Worklist

/-!
# Left factoring ends in a normal form

Left factoring takes pending nonterminals off a worklist, and puts two of them back whenever a group
was factored out. The worklist may grow, but each factoring uses up an occurrence of an old symbol,
and an occurrence weighs as much as the two nonterminals that are put back; so the sum of both goes
down with every step. A production that is not pending has no group, because a step changes no
production but that of the nonterminal it puts back and that of the new one. When nothing is
pending, no production has a group.

## Main definitions

* `Grammar.BeginsApart` — alternatives that do not begin with the same symbol
* `Grammar.IsFactored` — no two alternatives of a production begin with the same symbol
* `Factoring` — a state of left factoring, with its steps
* `Factoring.Sound` — what holds in every state
* `Factoring.budget` — the measure that goes down with every step

## Main results

* `Grammar.firstGroup?_eq_none_iff` — a group is found if there is one
* `Factoring.Sound.step`, `Factoring.Sound.budget_lt` — one step
* `Factoring.Sound.run` — any number of steps
* `Grammar.runs_factorPending` — left factoring takes steps until nothing is pending
* `Grammar.leftFactor_normalForm` — left factoring ends in a normal form
-/

namespace Predictive

namespace Grammar

variable {grammar next : Grammar} {s new : Symbol} {alternatives : List Alternative}

/-! ### Productions without a group -/

/-- Two alternatives do not begin with the same symbol. -/
def BeginsApart (alternative other : Alternative) : Prop :=
  ∀ head, ¬ (alternative.head? = some head ∧ other.head? = some head)

/-- No two alternatives of a symbol begin with the same symbol. -/
def IsFactoredAt (grammar : Grammar) (s : Symbol) : Prop :=
  ∀ alternatives, grammar.alternatives? s = some alternatives → alternatives.Pairwise BeginsApart

/-- No two alternatives of a production begin with the same symbol. -/
def IsFactored (grammar : Grammar) : Prop := ∀ s, grammar.IsFactoredAt s

theorem firstGroupFrom?_eq_none_iff {passed : List Alternative} :
    firstGroupFrom? passed alternatives = none ↔ alternatives.Pairwise BeginsApart := by
  induction alternatives generalizing passed with
  | nil => exact ⟨fun _ => .nil, fun _ => rfl⟩
  | cons alternative after ih =>
    rw [firstGroupFrom?, List.pairwise_cons]
    split
    · next head begins =>
      split
      · next paired =>
        obtain ⟨partner, listed, alike⟩ := List.any_eq_true.mp paired
        refine ⟨fun wrong => (by cases wrong), fun apart => ?_⟩
        exact absurd ⟨begins, beq_iff_eq.mp alike⟩ (apart.1 partner listed head)
      · next alone =>
        refine ih.trans (iff_and_self.mpr fun _ other listed => ?_)
        rintro head' ⟨first, second⟩
        obtain rfl := Option.some.inj (begins.symm.trans first)
        exact alone (List.any_eq_true.mpr ⟨other, listed, beq_iff_eq.mpr second⟩)
    -- the empty alternative begins with no symbol at all
    · next empty =>
      refine ih.trans (iff_and_self.mpr fun _ other _ => ?_)
      rintro head ⟨first, -⟩
      rw [empty] at first
      cases first

/-- A group is found if there is one. -/
theorem firstGroup?_eq_none_iff :
    firstGroup? alternatives = none ↔ alternatives.Pairwise BeginsApart :=
  firstGroupFrom?_eq_none_iff

theorem isFactoredAt_iff :
    grammar.IsFactoredAt s ↔ (grammar.alternatives? s).bind firstGroup? = none := by
  unfold IsFactoredAt
  cases grammar.alternatives? s with
  | none => simp
  | some alternatives => simp [firstGroup?_eq_none_iff]

/-- Where no group is found, nothing is factored. -/
theorem factorOnce_of_isFactoredAt (factored : grammar.IsFactoredAt s) :
    grammar.factorOnce s = .ok none := by
  rw [factorOnce, isFactoredAt_iff.mp factored]

/-- A nonterminal without a group is left alone. -/
theorem isFactoredAt_of_factorOnce (wellFormed : grammar.WellFormed)
    (settled : grammar.factorOnce s = .ok none) : grammar.IsFactoredAt s := by
  rcases fits_factorOnce wellFormed s with
    ⟨failed, -⟩ | ⟨_, passed, ⟨rfl, none⟩ | ⟨_, _, _, rfl, -⟩⟩
  · rw [settled] at failed
    cases failed
  · exact isFactoredAt_iff.mpr none
  · rw [settled] at passed
    cases passed

/-- Whatever is answered by a factoring was factored out. -/
theorem factored_of_factorOnce (wellFormed : grammar.WellFormed)
    (found : grammar.factorOnce s = .ok (some (new, next))) :
    new = ⟨grammar.names.size⟩ ∧ ∃ group name, Factored grammar next s group name := by
  rcases fits_factorOnce wellFormed s with
    ⟨failed, -⟩ | ⟨_, passed, ⟨rfl, -⟩ | ⟨_, group, name, rfl, factored⟩⟩
  · rw [found] at failed
    cases failed
  · rw [found] at passed
    cases passed
  · rw [found] at passed
    cases passed
    exact ⟨rfl, group, name, factored⟩

end Grammar

/-! ### Steps -/

/-- A state of left factoring. -/
structure Factoring where
  /-- The nonterminals that are still to be looked at. -/
  pending : Worklist Symbol
  /-- The grammar as it is now. -/
  grammar : Grammar
  /-- Whether a group was factored out. -/
  changed : Bool

namespace Factoring

open Grammar (Factored Sparse)

variable {state next last : Factoring} {source : Grammar} {bound : Nat}

/-- One step: the first pending nonterminal has no group, or its first group is factored out, and
then it is looked at again, and so is the new nonterminal. -/
inductive Steps : Factoring → Factoring → Prop where
  /-- The nonterminal has no group. -/
  | settled {pending rest : Worklist Symbol} {grammar : Grammar} {changed : Bool} {s : Symbol}
      (taken : pending.pop? = some (s, rest)) (settled : grammar.factorOnce s = .ok none) :
      Steps ⟨pending, grammar, changed⟩ ⟨rest, grammar, changed⟩
  /-- A group of the nonterminal is factored out. -/
  | factored {pending rest : Worklist Symbol} {grammar next : Grammar} {changed : Bool}
      {s new : Symbol} (taken : pending.pop? = some (s, rest))
      (found : grammar.factorOnce s = .ok (some (new, next))) :
      Steps ⟨pending, grammar, changed⟩ ⟨rest.extend [s, new], next, true⟩

/-- Any number of steps. -/
def Runs : Factoring → Factoring → Prop := Relation.ReflTransGen Steps

/-- The state in which left factoring begins. -/
def initial (grammar : Grammar) : Factoring := ⟨.ofList grammar.nonterminals, grammar, false⟩

/-- The state in which left factoring ends. -/
def final (result : Grammar × Bool) : Factoring := ⟨.empty, result.1, result.2⟩

/-- What holds in every state: the worklist is in step with itself, symbols beyond the bound, which
are the new ones, occur only once, and what is not pending has no group. -/
structure Sound (source : Grammar) (bound : Nat) (state : Factoring) : Prop where
  /-- The two containers of the worklist agree. -/
  inStep : state.pending.InStep
  /-- The grammar is well formed. -/
  wellFormed : state.grammar.WellFormed
  /-- New symbols occur only once. -/
  sparse : state.grammar.Sparse bound
  /-- New symbols come after the old ones. -/
  later : bound ≤ state.grammar.names.size
  /-- A production that is not pending has no group. -/
  settled : ∀ s, s ∉ state.pending.pending → state.grammar.IsFactoredAt s
  /-- As long as nothing was factored out, nothing is different. -/
  unchanged : state.changed = false → state.grammar = source

/-- The occurrences of old symbols. -/
def uses (bound : Nat) (state : Factoring) : Nat :=
  state.grammar.occurrences.countP fun t => decide (t.id < bound)

/-- The number of pending nonterminals, and two for each occurrence of an old symbol. -/
def budget (bound : Nat) (state : Factoring) : Nat := state.pending.size + 2 * state.uses bound

/-- A production that was not pending stays without a group, and those that a factoring writes
are pending. -/
theorem Sound.step (sound : state.Sound source bound) (step : state.Steps next) :
    next.Sound source bound := by
  obtain ⟨inStep, wellFormed, sparse, later, settled, unchanged⟩ := sound
  cases step with
  | @settled pending rest grammar changed s taken none =>
    refine ⟨inStep.pop taken, wellFormed, sparse, later, fun t absent => ?_, unchanged⟩
    by_cases same : t = s
    · exact same ▸ Grammar.isFactoredAt_of_factorOnce wellFormed none
    · refine settled t ?_
      rw [Worklist.pending_of_pop? taken, List.mem_cons, not_or]
      exact ⟨same, absent⟩
  | @factored pending rest grammar grown changed s new taken found =>
    obtain ⟨rfl, group, name, factored⟩ := Grammar.factored_of_factorOnce wellFormed found
    have further : grammar.names.size ≤ grown.names.size := by
      have size : grown.names.size = grammar.names.size + 1 := factored.size_eq
      omega
    have remaining := inStep.pop taken
    refine ⟨remaining.extend _, factored.preserves_wellFormed wellFormed,
      factored.sparse wellFormed sparse, Nat.le_trans later further, fun t absent => ?_,
      fun wrong => (by cases wrong)⟩
    rw [remaining.mem_extend, List.mem_cons, List.mem_singleton, not_or, not_or] at absent
    obtain ⟨away, other, old⟩ := absent
    -- the production is an old one, and was not pending before
    have before : grammar.IsFactoredAt t := by
      refine settled t ?_
      rw [Worklist.pending_of_pop? taken, List.mem_cons, not_or]
      exact ⟨other, away⟩
    intro alternatives defined
    rw [factored.alternatives?_eq wellFormed, if_neg old, if_neg other] at defined
    exact before alternatives defined

/-- The two nonterminals that are put back are paid for by the occurrence that is used up, and one
nonterminal was taken. -/
theorem Sound.budget_lt (sound : state.Sound source bound) (step : state.Steps next) :
    next.budget bound < state.budget bound := by
  cases step with
  | settled taken =>
    have taken := congrArg List.length (Worklist.pending_of_pop? taken)
    simp only [budget, uses, Worklist.size, List.length_cons] at taken ⊢
    omega
  | @factored pending rest grammar grown changed s new taken found =>
    obtain ⟨-, group, name, factored⟩ := Grammar.factored_of_factorOnce sound.wellFormed found
    have fewer := factored.countP_lt sound.wellFormed sound.sparse sound.later
    have taken := congrArg List.length (Worklist.pending_of_pop? taken)
    have extended : (rest.extend [s, new]).size ≤ rest.size + 2 := Worklist.size_extend_le
    simp only [budget, uses, Worklist.size, List.length_cons] at *
    omega

/-- A new name takes the room of an occurrence that is used up. -/
theorem Sound.room_le (sound : state.Sound source bound) (step : state.Steps next) :
    next.grammar.names.size + next.uses bound ≤ state.grammar.names.size + state.uses bound := by
  cases step with
  | settled => exact Nat.le_refl _
  | factored _ found =>
    obtain ⟨-, group, name, factored⟩ := Grammar.factored_of_factorOnce sound.wellFormed found
    have fewer := factored.countP_lt sound.wellFormed sound.sparse sound.later
    have size := factored.size_eq
    simp only [uses] at *
    omega

/-- What holds in a state holds after any number of steps. -/
theorem Sound.run (sound : state.Sound source bound) (run : state.Runs last) :
    last.Sound source bound := by
  induction run with
  | refl => exact sound
  | tail _ step ih => exact ih.step step

/-- A property of grammars that each factoring keeps is kept by any number of steps. -/
theorem Sound.invariant {holds : Grammar → Prop} (sound : state.Sound source bound)
    (keeps : ∀ {before after s group name}, before.WellFormed →
      Factored before after s group name → holds before → holds after)
    (run : state.Runs last) (initially : holds state.grammar) : holds last.grammar := by
  induction run with
  | refl => exact initially
  | tail run step ih =>
    have reached := sound.run run
    cases step with
    | settled => exact ih
    | factored _ found =>
      obtain ⟨-, group, name, factored⟩ := Grammar.factored_of_factorOnce reached.wellFormed found
      exact keeps reached.wellFormed factored ih

theorem sound_initial {grammar : Grammar} (wellFormed : grammar.WellFormed) :
    (initial grammar).Sound grammar grammar.names.size where
  inStep := Worklist.inStep_ofList grammar.nonterminals
  wellFormed := wellFormed
  sparse := fun s beyond =>
    Nat.le_trans (Nat.le_of_eq (wellFormed.count_eq_zero beyond)) (Nat.zero_le 1)
  later := Nat.le_refl _
  settled := by
    intro s absent alternatives defined
    -- every nonterminal is pending
    refine absurd ?_ absent
    exact Worklist.mem_ofList.mpr
      (Grammar.isNonterminal_iff.mp (Grammar.isNonterminal_of_alternatives? defined))
  unchanged := fun _ => rfl

end Factoring

namespace Grammar

variable {grammar : Grammar} {state : Factoring} {source : Grammar} {bound fuel : Nat}

/-- If there are more turns than the budget says, left factoring takes steps until nothing is
pending, or else there is no room for a name. -/
theorem runs_factorPending (sound : state.Sound source bound)
    (enough : state.budget bound < fuel) :
    NameTable.Fits (state.grammar.names.size + state.uses bound + 1)
      (fun result => state.Runs (.final result))
      (factorPending fuel state.pending state.grammar state.changed) := by
  induction fuel generalizing state with
  | zero => omega
  | succ fuel ih =>
    -- a step leaves fewer turns to take, and no less room
    have onward : ∀ {next}, state.Steps next →
        NameTable.Fits (state.grammar.names.size + state.uses bound + 1)
          (fun result => state.Runs (.final result))
          (factorPending fuel next.pending next.grammar next.changed) := by
      intro next step
      have below := sound.budget_lt step
      have room := sound.room_le step
      rcases ih (sound.step step) (by omega) with ⟨failed, full⟩ | ⟨result, ended, run⟩
      · exact Or.inl ⟨failed, by omega⟩
      · exact Or.inr ⟨result, ended, .head step run⟩
    obtain ⟨pending, grammar, changed⟩ := state
    unfold factorPending
    split
    · next finished =>
      obtain rfl := sound.inStep.eq_empty (Worklist.pop?_eq_none_iff.mp finished)
      exact NameTable.fits_ok Relation.ReflTransGen.refl
    · next s rest taken =>
      rcases fits_factorOnce sound.wellFormed s with
        ⟨failed, full⟩ | ⟨_, passed, ⟨rfl, -⟩ | ⟨grown, _, _, rfl, -⟩⟩
      · rw [failed]
        exact Or.inl ⟨rfl, by omega⟩
      · rw [passed]
        exact onward (.settled taken passed)
      · rw [passed]
        exact onward (.factored taken passed)

/-- In a grammar without groups every nonterminal is left alone. -/
theorem factorPending_of_isFactored (factored : grammar.IsFactored) (pending : Worklist Symbol)
    (changed : Bool) : factorPending fuel pending grammar changed = .ok (grammar, changed) := by
  induction fuel generalizing pending with
  | zero => rfl
  | succ fuel ih =>
    unfold factorPending
    split
    · rfl
    · next s rest _ =>
      rw [factorOnce_of_isFactoredAt (factored s)]
      exact ih rest

theorem leftFactor_of_isFactored (factored : grammar.IsFactored) :
    grammar.leftFactor = .ok (grammar, false) := factorPending_of_isFactored factored _ false

/-- Left factoring runs from its first state until nothing is pending, or else there is no room
for a name. -/
theorem runs_leftFactor (wellFormed : grammar.WellFormed) :
    NameTable.Fits (grammar.names.size + grammar.occurrenceCount + 1)
      (fun result => (Factoring.initial grammar).Runs (.final result)) grammar.leftFactor := by
  have fewer : (Factoring.initial grammar).uses grammar.names.size ≤ grammar.occurrenceCount :=
    List.countP_le_length
  have pending : (Factoring.initial grammar).pending.size ≤ 0 + grammar.nonterminals.length :=
    Worklist.size_extend_le
  have enough : (Factoring.initial grammar).budget grammar.names.size <
      grammar.nonterminals.length + 2 * grammar.occurrenceCount + 1 := by
    rw [Factoring.budget]
    omega
  rcases runs_factorPending (Factoring.sound_initial wellFormed) enough with
    ⟨failed, full⟩ | ended
  · have size : (Factoring.initial grammar).grammar.names.size = grammar.names.size := rfl
    exact Or.inl ⟨failed, by omega⟩
  · exact Or.inr ended

/-- Left factoring ends in a normal form. It fails only for want of room, if there are too many
occurrences of symbols for the names that are left. Otherwise it takes steps until nothing is
pending, and then no two alternatives of any production, old or new, begin with the same symbol. It
reports no change exactly if this was so from the beginning, and then the grammar is the same; so a
second left factoring changes nothing. -/
theorem leftFactor_normalForm (wellFormed : grammar.WellFormed) :
    (grammar.leftFactor = .error .tooManySymbols ∧
        NameTable.capacity ≤ grammar.names.size + grammar.occurrenceCount) ∨
      ∃ factored changed, grammar.leftFactor = .ok (factored, changed) ∧
        (Factoring.initial grammar).Runs (.final (factored, changed)) ∧
        factored.IsFactored ∧
        (changed = false ↔ grammar.IsFactored) ∧
        (changed = false → factored = grammar) ∧
        factored.leftFactor = .ok (factored, false) := by
  rcases runs_leftFactor wellFormed with ⟨failed, full⟩ | ⟨⟨factored, changed⟩, ended, run⟩
  · exact Or.inl ⟨failed, by omega⟩
  have sound := (Factoring.sound_initial wellFormed).run run
  have normal : factored.IsFactored := fun s => sound.settled s List.not_mem_nil
  refine Or.inr ⟨factored, changed, ended, run, normal, ⟨fun silent => ?_, fun already => ?_⟩,
    sound.unchanged, leftFactor_of_isFactored normal⟩
  · have same : factored = grammar := sound.unchanged silent
    exact same ▸ normal
  -- a grammar without groups is left alone, so that no change is reported
  · rw [leftFactor_of_isFactored already] at ended
    cases ended
    rfl

/-- Two groups, one of them made of equal alternatives, and a third one inside a new nonterminal. -/
theorem leftFactor_normalForm_nested :
    ∃ grammar, Grammar.ofText "S : A a b | A a | c | A ; A : b | b ;" = .ok grammar ∧
      ¬ grammar.IsFactored ∧
      ∃ factored, grammar.leftFactor = .ok (factored, true) ∧
        factored.nonterminals.length = 5 ∧ factored.IsFactored ∧
        factored.leftFactor = .ok (factored, false) := by
  obtain ⟨grammar, defined, wellFormed, ran⟩ := Grammar.exists_of_ofText
    "S : A a b | A a | c | A ; A : b | b ;"
    (fun grammar => grammar.leftFactor.toOption.any fun result =>
      result.2 && result.1.nonterminals.length == 5) (by decide +kernel)
  rcases leftFactor_normalForm wellFormed with
    ⟨failed, -⟩ | ⟨factored, changed, ended, -, normal, silent_iff, -, again⟩
  · rw [failed] at ran
    cases ran
  · obtain ⟨rfl, five⟩ : changed = true ∧ factored.nonterminals.length = 5 := by
      simpa [ended, Except.toOption] using ran
    refine ⟨grammar, defined, fun already => ?_, factored, ended, five, normal, again⟩
    exact Bool.false_ne_true (silent_iff.mpr already).symm

end Grammar

end Predictive
