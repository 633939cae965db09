import Mathlib.Algebra.Order.Ring.Nat
import Mathlib.Data.Finset.Card
import Mathlib.Tactic.Linarith
import Predictive.Symbol

/-!
# Unfolding the front of a string

While the lookahead stays the same, a predictive parser rewrites the leftmost symbol by a fixed
function until a symbol comes up that is not rewritten. Such an unfolding takes its steps in one
way only. If it ends, no symbol comes up again while it is being unfolded itself, as the two
unfoldings would take the same number of steps. Its length is bounded by the number of symbols
that are rewritten and the length of what they are rewritten to.

## Main definitions

* `Unfolds` — the number of steps and the result of an unfolding

## Main results

* `Unfolds.deterministic` — an unfolding takes its steps in one way
* `Unfolds.append_cases` — a string is unfolded part by part
* `Unfolds.bounded` — an unfolding that ends is short, and so is its result
-/

namespace Predictive

/-- The front of a string unfolds in a number of steps to a string whose first symbol is not
rewritten. -/
inductive Unfolds (rewrite : Symbol → Option (List Symbol)) :
    Nat → List Symbol → List Symbol → Prop where
  /-- Nothing is left. -/
  | done : Unfolds rewrite 0 [] []
  /-- The first symbol is not rewritten. -/
  | stop {s : Symbol} (rest : List Symbol) (stuck : rewrite s = none) :
      Unfolds rewrite 0 (s :: rest) (s :: rest)
  /-- The first symbol is rewritten. -/
  | next {s : Symbol} {expansion rest result : List Symbol} {steps : Nat}
      (found : rewrite s = some expansion)
      (later : Unfolds rewrite steps (expansion ++ rest) result) :
      Unfolds rewrite (steps + 1) (s :: rest) result

namespace Unfolds

variable {rewrite : Symbol → Option (List Symbol)} {s : Symbol} {m n : Nat}
  {form front back result other : List Symbol}

/-- An unfolding takes its steps in one way. -/
theorem deterministic (left : Unfolds rewrite m form result)
    (right : Unfolds rewrite n form other) : m = n ∧ result = other := by
  induction left generalizing n with
  | done =>
    cases right
    exact ⟨rfl, rfl⟩
  | stop rest stuck =>
    cases right with
    | stop => exact ⟨rfl, rfl⟩
    | next found => simp [stuck] at found
  | next found _ ih =>
    cases right with
    | stop _ stuck => simp [stuck] at found
    | next same later =>
      rw [found] at same
      cases same
      obtain ⟨rfl, rfl⟩ := ih later
      exact ⟨rfl, rfl⟩

/-- A part that vanishes makes way for the next one. -/
theorem append (left : Unfolds rewrite m front []) (right : Unfolds rewrite n back result) :
    Unfolds rewrite (m + n) (front ++ back) result := by
  generalize nothing : ([] : List Symbol) = last at left
  induction left with
  | done => rwa [Nat.zero_add]
  | stop => cases nothing
  | @next s expansion rest last steps found _ ih =>
    rw [Nat.add_right_comm, List.cons_append]
    refine .next found ?_
    rw [← List.append_assoc]
    exact ih nothing

/-- An unfolding that stops at a symbol takes no notice of what comes after. -/
theorem append_right (back : List Symbol) (left : Unfolds rewrite m front (s :: result)) :
    Unfolds rewrite m (front ++ back) (s :: result ++ back) := by
  generalize stopped : s :: result = last at left
  induction left with
  | done => cases stopped
  | stop rest stuck => exact .stop (rest ++ back) stuck
  | next found _ ih =>
    rw [List.cons_append]
    refine .next found ?_
    rw [← List.append_assoc]
    exact ih stopped

/-- A string is unfolded part by part: the first part vanishes before the second is touched. -/
theorem append_cases (unfolds : Unfolds rewrite n (front ++ back) result) :
    (∃ i j, n = i + j ∧ Unfolds rewrite i front [] ∧ Unfolds rewrite j back result) ∨
      ∃ s rest, result = s :: rest ++ back ∧ Unfolds rewrite n front (s :: rest) := by
  generalize joined : front ++ back = form at unfolds
  induction unfolds generalizing front with
  | done =>
    obtain ⟨rfl, rfl⟩ := List.append_eq_nil_iff.mp joined
    exact Or.inl ⟨0, 0, rfl, .done, .done⟩
  | @stop s rest stuck =>
    cases front with
    | nil =>
      rw [List.nil_append] at joined
      subst joined
      exact Or.inl ⟨0, 0, rfl, .done, .stop rest stuck⟩
    | cons first front =>
      obtain ⟨rfl, rfl⟩ := List.cons.inj joined
      exact Or.inr ⟨first, front, rfl, .stop front stuck⟩
  | @next s expansion rest result steps found later ih =>
    cases front with
    | nil =>
      rw [List.nil_append] at joined
      subst joined
      exact Or.inl ⟨0, steps + 1, (Nat.zero_add _).symm, .done, .next found later⟩
    | cons first front =>
      obtain ⟨rfl, rfl⟩ := List.cons.inj joined
      rcases ih (List.append_assoc ..) with ⟨i, j, rfl, vanishes, onward⟩ | ⟨t, rest, same, stops⟩
      · exact Or.inl ⟨i + 1, j, Nat.add_right_comm .., .next found vanishes, onward⟩
      · exact Or.inr ⟨t, rest, same, .next found stops⟩

/-- A string takes no longer than its symbols take one by one, and leaves what one of them leaves
in front of the others. -/
theorem bounded_of_symbols {steps length : Nat}
    (each : ∀ s m result, m ≤ n → Unfolds rewrite m [s] result →
      m ≤ steps ∧ result.length ≤ 1 + length)
    (unfolds : Unfolds rewrite n form result) :
    n ≤ form.length * steps ∧ result.length ≤ form.length + length := by
  induction form generalizing n with
  | nil =>
    cases unfolds
    simp
  | cons first rest ih =>
    rw [← List.singleton_append] at unfolds
    -- the first symbol vanishes and the others go on, or it stops in front of the others
    rcases unfolds.append_cases with ⟨i, j, rfl, vanishes, onward⟩ | ⟨t, last, rfl, stops⟩
    · have front := each first i [] (Nat.le_add_right i j) vanishes
      have back := ih (fun s m result less => each s m result (by omega)) onward
      rw [List.length_cons, Nat.succ_mul]
      omega
    · have front := each first n _ (Nat.le_refl n) stops
      rw [List.length_append, List.length_cons, Nat.succ_mul]
      omega

/-- An unfolding of one symbol is bounded by the symbols that are rewritten on the way. The symbol
itself is not among those that come up inside, as they take fewer steps. -/
theorem bounded_singleton {width : Nat}
    (short : ∀ s expansion, rewrite s = some expansion → expansion.length ≤ width)
    (allowed : Finset Symbol)
    (within : ∀ t m last, m ≤ n → 0 < m → Unfolds rewrite m [t] last → t ∈ allowed)
    (unfolds : Unfolds rewrite n [s] result) :
    n ≤ (width + 1) ^ allowed.card ∧ result.length ≤ 1 + allowed.card * width := by
  induction n using Nat.strong_induction_on generalizing s allowed result with
  | _ n ih =>
    have whole := unfolds
    cases unfolds with
    | stop => simp
    | @next _ expansion _ _ steps found later =>
      have member : s ∈ allowed := within s _ _ (Nat.le_refl _) (Nat.succ_pos _) whole
      have inner := fun t m last (less : m ≤ steps) => @ih m (by omega) t last (allowed.erase s)
        (fun r k final atMost positive inside => by
          refine Finset.mem_erase.mpr ⟨?_, within r k final (by omega) positive inside⟩
          -- inside its own unfolding, the symbol would take as many steps as outside
          rintro rfl
          have := (inside.deterministic whole).1
          omega)
      rw [List.append_nil] at later
      obtain ⟨fewer, shorter⟩ := later.bounded_of_symbols inner
      have wide := short s expansion found
      obtain ⟨rest, size⟩ : ∃ rest, allowed.card = rest + 1 :=
        ⟨_, (Finset.card_erase_add_one member).symm⟩
      rw [Finset.card_erase_of_mem member, size, Nat.add_sub_cancel] at fewer shorter
      have positive : 0 < (width + 1) ^ rest := Nat.pow_pos (Nat.succ_pos _)
      have product := Nat.mul_le_mul_right ((width + 1) ^ rest) wide
      rw [size, Nat.pow_succ, Nat.mul_add, Nat.mul_one, Nat.mul_comm _ width, Nat.succ_mul]
      omega

/-- An unfolding that ends is short, and so is its result. -/
theorem bounded {width : Nat} (allowed : Finset Symbol)
    (within : ∀ s expansion, rewrite s = some expansion →
      s ∈ allowed ∧ expansion.length ≤ width)
    (unfolds : Unfolds rewrite n form result) :
    n ≤ form.length * (width + 1) ^ allowed.card ∧
      result.length ≤ form.length + allowed.card * width := by
  refine unfolds.bounded_of_symbols fun s m last _ => ?_
  refine bounded_singleton (fun s expansion found => (within s expansion found).2) allowed ?_
  intro t k final _ positive inside
  cases inside with
  | stop => omega
  | next found => exact (within _ _ found).1

end Unfolds

end Predictive
