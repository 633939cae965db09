import Mathlib.Data.Nat.Find
import Predictive.Proofs.Descent.Outcome

/-!
# The depth that a parse allows

A nonterminal that leads back to itself need not be tried: a choice may be committed to an earlier
part. If recursive descent comes to an end at all, it does so within the depth that a parse allows.
A nonterminal that is tried again below itself, at the same place of the stream, would need less
depth than it needs; so along a chain of calls, as long as no token is taken, each nonterminal is
tried at most once, whether it could lead back to itself or not.

## Main definitions

* `Descent.shape` — an outcome without its trees
* `EbnfGrammar.endingBelow` — the productions that end in less than some depth
* `EbnfGrammar.EndsWithin` — what ends at some depth ends in the room that it needs

## Main results

* `EbnfGrammar.Descends.resized` — the number of nodes so far does not matter
* `EbnfGrammar.endsWithin` — the room that everything needs that ends
* `EbnfGrammar.parse_eq_some_iff` — a parse has a result exactly if the recursion ends
-/

namespace Predictive

namespace Descent

variable {outcome : Descent} {after : TokenStream}

/-- Whether an outcome is a match, and the stream after it. -/
def shape : Descent → Bool × TokenStream
  | .matched _ _ stream => (true, stream)
  | .failed stream => (false, stream)

@[simp] theorem shape_after {forest : List Tree} :
    (outcome.after forest).shape = outcome.shape := by
  cases outcome with
  | matched => rfl
  | failed => rfl

theorem shape_eq_matched_iff :
    outcome.shape = (true, after) ↔ ∃ forest size, outcome = .matched forest size after := by
  cases outcome with
  | matched => simp [shape]
  | failed => simp [shape]

theorem shape_eq_failed_iff : outcome.shape = (false, after) ↔ outcome = .failed after := by
  cases outcome with
  | matched => simp [shape]
  | failed => simp [shape]

end Descent

namespace EbnfGrammar

variable {source : EbnfGrammar} {expr part body : Expr} {rest parts : List Expr} {s : Symbol}
  {size other depth deeper fuel : Nat} {stream after : TokenStream} {outcome again : Descent}
  {failures : List (Expr × List StreamToken)}

/-! ### The number of nodes -/

theorem shape_takeTerminal (s : Symbol) (size other : Nat) (stream : TokenStream) :
    (takeTerminal s other stream).shape = (takeTerminal s size stream).shape := by
  unfold takeTerminal
  split
  · cases stream.next? with
    | none => rfl
    | some taken => rfl
  · rfl

/-- A run does the same with another number of nodes to begin with. -/
theorem Descends.resized (descends : source.Descends expr size stream outcome failures) :
    ∀ other, ∃ again, source.Descends expr other stream again failures ∧
      again.shape = outcome.shape := by
  induction descends with
  | terminal s size stream =>
    exact fun other => ⟨_, .terminal s other stream, shape_takeTerminal s size other stream⟩
  | undefined size stream absent => exact fun other => ⟨_, .undefined other stream absent, rfl⟩
  | nonterminal found _ ih =>
    intro other
    obtain ⟨again, inner, same⟩ := ih other
    obtain ⟨forest, last, rfl⟩ := Descent.shape_eq_matched_iff.mp same
    exact ⟨_, .nonterminal found inner, rfl⟩
  | nonterminalFailed found _ ih =>
    intro other
    obtain ⟨again, inner, same⟩ := ih other
    obtain rfl := Descent.shape_eq_failed_iff.mp same
    exact ⟨_, .nonterminalFailed found inner, rfl⟩
  | chainNil size stream => exact fun other => ⟨_, .chainNil other stream, rfl⟩
  | chainCons _ _ ihFirst ihLater =>
    intro other
    obtain ⟨again, first, same⟩ := ihFirst other
    obtain ⟨forest, last, rfl⟩ := Descent.shape_eq_matched_iff.mp same
    obtain ⟨ending, later, alike⟩ := ihLater last
    exact ⟨_, .chainCons first later, by simpa using alike⟩
  | chainFailed rest _ ih =>
    intro other
    obtain ⟨again, first, same⟩ := ih other
    obtain rfl := Descent.shape_eq_failed_iff.mp same
    exact ⟨_, .chainFailed rest first, rfl⟩
  | choiceNil size stream => exact fun other => ⟨_, .choiceNil other stream, rfl⟩
  | choiceMatched rest _ ih =>
    intro other
    obtain ⟨again, first, same⟩ := ih other
    obtain ⟨forest, last, rfl⟩ := Descent.shape_eq_matched_iff.mp same
    exact ⟨_, .choiceMatched rest first, rfl⟩
  | choiceNext _ _ ihFirst ihLater =>
    intro other
    obtain ⟨again, first, same⟩ := ihFirst other
    obtain rfl := Descent.shape_eq_failed_iff.mp same
    obtain ⟨ending, later, alike⟩ := ihLater other
    exact ⟨_, .choiceNext first later, alike⟩
  | optionalMatched _ ih =>
    intro other
    obtain ⟨again, inner, same⟩ := ih other
    obtain ⟨forest, last, rfl⟩ := Descent.shape_eq_matched_iff.mp same
    exact ⟨_, .optionalMatched inner, rfl⟩
  | optionalFailed _ ih =>
    intro other
    obtain ⟨again, inner, same⟩ := ih other
    obtain rfl := Descent.shape_eq_failed_iff.mp same
    exact ⟨_, .optionalFailed inner, rfl⟩
  | manyFailed _ ih =>
    intro other
    obtain ⟨again, inner, same⟩ := ih other
    obtain rfl := Descent.shape_eq_failed_iff.mp same
    exact ⟨_, .manyFailed inner, rfl⟩
  | manyIdle _ idle ih =>
    intro other
    obtain ⟨again, inner, same⟩ := ih other
    obtain ⟨forest, last, rfl⟩ := Descent.shape_eq_matched_iff.mp same
    exact ⟨_, .manyIdle inner idle, rfl⟩
  | manyAgain _ moved _ ihInner ihLater =>
    intro other
    obtain ⟨again, inner, same⟩ := ihInner other
    obtain ⟨forest, last, rfl⟩ := Descent.shape_eq_matched_iff.mp same
    obtain ⟨ending, later, alike⟩ := ihLater last
    exact ⟨_, .manyAgain inner moved later, by simpa using alike⟩
  | oneOrMore _ _ ihInner ihLater =>
    intro other
    obtain ⟨again, inner, same⟩ := ihInner other
    obtain ⟨forest, last, rfl⟩ := Descent.shape_eq_matched_iff.mp same
    obtain ⟨ending, later, alike⟩ := ihLater last
    exact ⟨_, .oneOrMore inner later, by simpa using alike⟩
  | oneOrMoreFailed _ ih =>
    intro other
    obtain ⟨again, inner, same⟩ := ih other
    obtain rfl := Descent.shape_eq_failed_iff.mp same
    exact ⟨_, .oneOrMoreFailed inner, rfl⟩

/-- Neither the depth nor the number of nodes makes a difference to where an expression ends. -/
theorem shape_of_descend (ran : source.descend depth expr size stream = some outcome)
    (reran : source.descend fuel expr other stream = some again) :
    again.shape = outcome.shape := by
  obtain ⟨failures, descends⟩ := descends_of_descend ran
  obtain ⟨_, redescends⟩ := descends_of_descend reran
  obtain ⟨resized, same, alike⟩ := descends.resized other
  rw [same.outcome_unique redescends, alike]

/-! ### What ends in less depth -/

/-- An expression comes to an end at some depth, with some number of nodes to begin with. -/
def EndsAt (source : EbnfGrammar) (expr : Expr) (stream : TokenStream) (depth : Nat) : Prop :=
  ∃ size outcome, source.descend depth expr size stream = some outcome

open Classical in
/-- The productions whose expressions come to an end in less than some depth. -/
noncomputable def endingBelow (source : EbnfGrammar) (depth : Nat) (stream : TokenStream) :
    List (Symbol × Expr) :=
  source.productions.entries.filter fun production =>
    decide (∃ less < depth, source.EndsAt production.2 stream less)

theorem sizeOfAll_le_of_sublist {few many : List Expr} (sublist : few.Sublist many) :
    Expr.sizeOfAll few ≤ Expr.sizeOfAll many := by
  induction sublist with
  | slnil => exact Nat.le_refl _
  | cons part _ ih =>
    rw [Expr.sizeOfAll]
    omega
  | cons_cons part _ ih =>
    rw [Expr.sizeOfAll, Expr.sizeOfAll]
    omega

theorem room_le_of_sublist {few many : List (Symbol × Expr)} (sublist : few.Sublist many) :
    source.room few stream ≤ source.room many stream :=
  Nat.add_le_add_right (sizeOfAll_le_of_sublist (sublist.map Prod.snd)) _

theorem mem_endingBelow_iff (found : source.expression? s = some body) :
    (s, body) ∈ source.endingBelow depth stream ↔
      ∃ less < depth, source.EndsAt body stream less := by
  simp [endingBelow, OrderedMap.mem_entries_iff.mpr found]

theorem endingBelow_sublist (less : depth ≤ deeper) :
    (source.endingBelow depth stream).Sublist (source.endingBelow deeper stream) := by
  classical
  refine List.monotone_filter_right _ fun production ends => ?_
  rw [decide_eq_true_eq] at ends ⊢
  obtain ⟨least, below, ends⟩ := ends
  exact ⟨least, Nat.lt_of_lt_of_le below less, ends⟩

theorem room_endingBelow_le_succ : source.room (source.endingBelow depth stream) stream ≤
    source.room (source.endingBelow (depth + 1) stream) stream :=
  room_le_of_sublist (endingBelow_sublist (Nat.le_add_right depth 1))

theorem room_endingBelow_le_entries : source.room (source.endingBelow depth stream) stream ≤
    source.room source.productions.entries stream :=
  room_le_of_sublist List.filter_sublist

/-- Where something was matched in less depth, there is room for the next expression. -/
theorem room_endingBelow_le (advances : ∃ taken, stream.Advances after taken) :
    source.room (source.endingBelow depth after) after ≤
      source.room (source.endingBelow (depth + 1) stream) stream := by
  obtain ⟨taken, advances⟩ := advances
  by_cases moved : taken = []
  · subst moved
    obtain rfl := advances.eq_of_nil
    exact room_endingBelow_le_succ
  · exact Nat.le_trans room_endingBelow_le_entries (Nat.le_of_lt (room_lt advances moved))

/-- An expression that ends at some depth does so at a least one. The room of its production is free
for what is tried below it. -/
theorem exists_least_depth (found : source.expression? s = some body)
    (ends : source.EndsAt body stream depth) :
    ∃ least ≤ depth, source.EndsAt body stream least ∧
      body.size + source.room (source.endingBelow least stream) stream + 1 ≤
        source.room (source.endingBelow (depth + 1) stream) stream := by
  classical
  have exists_depth : ∃ least, source.EndsAt body stream least := ⟨depth, ends⟩
  have below := Nat.find_min' exists_depth ends
  refine ⟨Nat.find exists_depth, below, Nat.find_spec exists_depth, ?_⟩
  have absent : (s, body) ∉ source.endingBelow (Nat.find exists_depth) stream := by
    rw [mem_endingBelow_iff found]
    rintro ⟨less, smaller, ends⟩
    exact Nat.find_min exists_depth smaller ends
  have present : (s, body) ∈ source.endingBelow (depth + 1) stream :=
    (mem_endingBelow_iff found).mpr ⟨depth, Nat.lt_succ_self depth, ends⟩
  -- the production itself does not end in less than its least depth, so that its size is free
  obtain ⟨front, back, split⟩ := List.append_of_mem present
  -- what ends in less depth is listed elsewhere
  have sublist := @endingBelow_sublist source _ _ stream (Nat.le_succ_of_le below)
  rw [split] at sublist
  have elsewhere : (source.endingBelow (Nat.find exists_depth) stream).Sublist (front ++ back) := by
    obtain ⟨first, second, same, inFront, inBack⟩ := List.sublist_append_iff.mp sublist
    rw [same] at absent ⊢
    rw [List.mem_append, not_or] at absent
    refine inFront.append ?_
    cases inBack with
    | cons _ later => exact later
    | cons_cons _ later => exact absurd List.mem_cons_self absent.2
  have fewer := sizeOfAll_le_of_sublist (elsewhere.map Prod.snd)
  unfold room
  rw [split, List.map_append, List.map_cons, sizeOfAll_append_cons, ← List.map_append]
  dsimp only
  omega

/-! ### The room that is needed -/

theorem exists_fuel {left : List (Symbol × Expr)} {need : Nat}
    (enough : need + source.room left stream ≤ fuel) : ∃ less, fuel = less + 1 := by
  have positive := one_le_sizeOfAll (left.map Prod.snd)
  unfold room at enough
  exact ⟨fuel - 1, by omega⟩

/-- What comes to an end at some depth does so at every depth that is as large as the room that it
needs, with any number of nodes to begin with. -/
structure EndsWithin (source : EbnfGrammar) (depth : Nat) : Prop where
  /-- An expression. -/
  expr : ∀ {expr size stream outcome}, source.descend depth expr size stream = some outcome →
    ∀ other fuel, expr.size + source.room (source.endingBelow depth stream) stream ≤ fuel →
      ∃ again, source.descend fuel expr other stream = some again
  /-- The parts of a chain. -/
  chain : ∀ {parts size stream outcome},
    source.descendChain depth parts size stream = some outcome →
    ∀ other fuel,
      Expr.sizeOfAll parts + source.room (source.endingBelow depth stream) stream ≤ fuel →
      ∃ again, source.descendChain fuel parts other stream = some again
  /-- The parts of a choice. -/
  choice : ∀ {parts size stream outcome},
    source.descendChoice depth parts size stream = some outcome →
    ∀ other fuel,
      Expr.sizeOfAll parts + source.room (source.endingBelow depth stream) stream ≤ fuel →
      ∃ again, source.descendChoice fuel parts other stream = some again
  /-- The rounds of a repetition. -/
  again : ∀ {body size stream outcome},
    source.descendMany depth body size stream = some outcome →
    ∀ other fuel, body.size + 1 + source.room (source.endingBelow depth stream) stream ≤ fuel →
      ∃ again, source.descendMany fuel body other stream = some again

theorem endsWithin_zero (source : EbnfGrammar) : source.EndsWithin 0 := by
  constructor
  · intro expr size stream outcome ran
    rw [descend] at ran
    cases ran
  · intro parts size stream outcome ran
    rw [descendChain] at ran
    cases ran
  · intro parts size stream outcome ran
    rw [descendChoice] at ran
    cases ran
  · intro body size stream outcome ran
    rw [descendMany] at ran
    cases ran

namespace EndsWithin

variable (within : source.EndsWithin depth)

include within

/-- A part that is tried first is tried alike with any number of nodes, and where it ends there is
room for what comes next. -/
theorem tried (ran : source.descend depth expr size stream = some outcome) (other fuel : Nat)
    (enough : expr.size + source.room (source.endingBelow (depth + 1) stream) stream ≤ fuel) :
    (∃ again, source.descend fuel expr other stream = some again ∧
        again.shape = outcome.shape) ∧
      source.room (source.endingBelow depth outcome.stream) outcome.stream ≤
        source.room (source.endingBelow (depth + 1) stream) stream := by
  have fewer := @room_endingBelow_le_succ source depth stream
  obtain ⟨again, reran⟩ := within.expr ran other fuel (by omega)
  obtain ⟨failures, descends⟩ := descends_of_descend ran
  exact ⟨⟨again, reran, shape_of_descend ran reran⟩, room_endingBelow_le descends.advances⟩

theorem chain_succ (ran : source.descendChain (depth + 1) parts size stream = some outcome)
    (other fuel : Nat)
    (enough : Expr.sizeOfAll parts +
      source.room (source.endingBelow (depth + 1) stream) stream ≤ fuel) :
    ∃ again, source.descendChain fuel parts other stream = some again := by
  obtain ⟨fuel, rfl⟩ := exists_fuel enough
  cases parts with
  | nil => exact ⟨_, by rw [descendChain]⟩
  | cons part rest =>
    rw [Expr.sizeOfAll] at enough
    rw [descendChain] at ran
    cases first : source.descend depth part size stream with
    | none =>
      rw [first] at ran
      cases ran
    | some front =>
      obtain ⟨⟨again, rerun, same⟩, room⟩ := within.tried first other fuel (by omega)
      rw [descendChain, rerun]
      cases front with
      | failed after =>
        obtain rfl := Descent.shape_eq_failed_iff.mp same
        exact ⟨_, rfl⟩
      | matched forest last after =>
        obtain ⟨forest', last', rfl⟩ := Descent.shape_eq_matched_iff.mp same
        rw [first] at ran
        obtain ⟨back, later, -⟩ := Option.map_eq_some_iff.mp ran
        obtain ⟨back', later'⟩ := within.chain later last' fuel (by
          rw [Descent.stream_matched] at room
          omega)
        exact ⟨_, by dsimp only; rw [later']; rfl⟩

theorem choice_succ (ran : source.descendChoice (depth + 1) parts size stream = some outcome)
    (other fuel : Nat)
    (enough : Expr.sizeOfAll parts +
      source.room (source.endingBelow (depth + 1) stream) stream ≤ fuel) :
    ∃ again, source.descendChoice fuel parts other stream = some again := by
  obtain ⟨fuel, rfl⟩ := exists_fuel enough
  cases parts with
  | nil => exact ⟨_, by rw [descendChoice]⟩
  | cons part rest =>
    rw [Expr.sizeOfAll] at enough
    rw [descendChoice] at ran
    cases first : source.descend depth part size stream with
    | none =>
      rw [first] at ran
      cases ran
    | some front =>
      obtain ⟨⟨again, rerun, same⟩, room⟩ := within.tried first other fuel (by omega)
      rw [descendChoice, rerun]
      cases front with
      | matched forest last after =>
        obtain ⟨forest', last', rfl⟩ := Descent.shape_eq_matched_iff.mp same
        exact ⟨_, rfl⟩
      | failed after =>
        obtain rfl := Descent.shape_eq_failed_iff.mp same
        rw [first] at ran
        exact within.choice ran other fuel (by
          rw [Descent.stream_failed] at room
          omega)

theorem again_succ (ran : source.descendMany (depth + 1) body size stream = some outcome)
    (other fuel : Nat)
    (enough : body.size + 1 + source.room (source.endingBelow (depth + 1) stream) stream ≤ fuel) :
    ∃ again, source.descendMany fuel body other stream = some again := by
  obtain ⟨fuel, rfl⟩ := exists_fuel enough
  rw [descendMany] at ran
  cases first : source.descend depth body size stream with
  | none =>
    rw [first] at ran
    cases ran
  | some front =>
    obtain ⟨⟨again, rerun, same⟩, -⟩ := within.tried first other fuel (by omega)
    rw [descendMany, rerun]
    rw [first] at ran
    cases front with
    | failed after =>
      obtain rfl := Descent.shape_eq_failed_iff.mp same
      exact ⟨_, rfl⟩
    | matched forest last after =>
      obtain ⟨forest', last', rfl⟩ := Descent.shape_eq_matched_iff.mp same
      dsimp only at ran ⊢
      split at ran
      · next moved =>
        obtain ⟨failures, descends⟩ := descends_of_descend first
        obtain ⟨taken, advances⟩ := descends.advances
        rw [Descent.stream_matched] at advances
        have counted := advances.position_eq
        have some : taken ≠ [] := List.ne_nil_of_length_pos (by omega)
        -- the next round has the room of all productions, and less than there is here
        have room := @room_lt source (source.endingBelow (depth + 1) stream) stream after taken
          advances some
        have all := @room_endingBelow_le_entries source depth after
        obtain ⟨back, later, -⟩ := Option.map_eq_some_iff.mp ran
        obtain ⟨back', later'⟩ := within.again later last' fuel (by omega)
        exact ⟨_, by rw [if_pos moved, later']; rfl⟩
      · next idle => exact ⟨_, if_neg idle⟩

theorem optional_succ
    (ran : source.descend (depth + 1) (.optional body) size stream = some outcome)
    (other fuel : Nat)
    (enough : (Expr.optional body).size +
      source.room (source.endingBelow (depth + 1) stream) stream ≤ fuel) :
    ∃ again, source.descend fuel (.optional body) other stream = some again := by
  obtain ⟨fuel, rfl⟩ := exists_fuel enough
  rw [Expr.size] at enough
  rw [descend] at ran ⊢
  cases tried : source.descend depth body size stream with
  | none =>
    rw [tried] at ran
    cases ran
  | some front =>
    obtain ⟨⟨again, rerun, -⟩, -⟩ := within.tried tried other fuel (by omega)
    rw [rerun]
    cases again with
    | matched => exact ⟨_, rfl⟩
    | failed => exact ⟨_, rfl⟩

theorem oneOrMore_succ
    (ran : source.descend (depth + 1) (.oneOrMore body) size stream = some outcome)
    (other fuel : Nat)
    (enough : (Expr.oneOrMore body).size +
      source.room (source.endingBelow (depth + 1) stream) stream ≤ fuel) :
    ∃ again, source.descend fuel (.oneOrMore body) other stream = some again := by
  obtain ⟨fuel, rfl⟩ := exists_fuel enough
  rw [Expr.size] at enough
  rw [descend] at ran ⊢
  cases tried : source.descend depth body size stream with
  | none =>
    rw [tried] at ran
    cases ran
  | some front =>
    obtain ⟨⟨again, rerun, same⟩, room⟩ := within.tried tried other fuel (by omega)
    rw [rerun]
    rw [tried] at ran
    cases front with
    | failed after =>
      obtain rfl := Descent.shape_eq_failed_iff.mp same
      exact ⟨_, rfl⟩
    | matched forest last after =>
      obtain ⟨forest', last', rfl⟩ := Descent.shape_eq_matched_iff.mp same
      obtain ⟨back, later, -⟩ := Option.map_eq_some_iff.mp ran
      obtain ⟨back', later'⟩ := within.again later last' fuel (by
        rw [Descent.stream_matched] at room
        omega)
      exact ⟨_, by dsimp only; rw [later']; rfl⟩

end EndsWithin

/-- A nonterminal ends if its expression does, which is not tried again below itself: it is run at
the least depth at which it ends. -/
theorem nonterminal_succ (within : ∀ less ≤ depth, source.EndsWithin less)
    (ran : source.descend (depth + 1) (.nonterminal s) size stream = some outcome)
    (other fuel : Nat)
    (enough : (Expr.nonterminal s).size +
      source.room (source.endingBelow (depth + 1) stream) stream ≤ fuel) :
    ∃ again, source.descend fuel (.nonterminal s) other stream = some again := by
  obtain ⟨fuel, rfl⟩ := exists_fuel enough
  rw [descend] at ran ⊢
  cases found : source.expression? s with
  | none => exact ⟨_, rfl⟩
  | some body =>
    rw [found] at ran
    dsimp only at ran ⊢
    rw [Expr.size] at enough
    cases tried : source.descend depth body size stream with
    | none =>
      rw [tried] at ran
      cases ran
    | some front =>
      -- the run at this depth is given up for one at the least depth
      obtain ⟨least, below, ⟨_, _, ends⟩, room⟩ := exists_least_depth found ⟨_, _, tried⟩
      obtain ⟨again, rerun⟩ := (within least below).expr ends other fuel (by omega)
      rw [rerun]
      cases again with
      | matched => exact ⟨_, rfl⟩
      | failed => exact ⟨_, rfl⟩

theorem expr_succ (within : ∀ less ≤ depth, source.EndsWithin less)
    (ran : source.descend (depth + 1) expr size stream = some outcome) (other fuel : Nat)
    (enough : expr.size + source.room (source.endingBelow (depth + 1) stream) stream ≤ fuel) :
    ∃ again, source.descend fuel expr other stream = some again := by
  have inner := within depth (Nat.le_refl depth)
  have fewer := @room_endingBelow_le_succ source depth stream
  cases expr with
  | nonterminal s => exact nonterminal_succ within ran other fuel enough
  | optional body => exact inner.optional_succ ran other fuel enough
  | oneOrMore body => exact inner.oneOrMore_succ ran other fuel enough
  | terminal s =>
    obtain ⟨fuel, rfl⟩ := exists_fuel enough
    exact ⟨_, by rw [descend]⟩
  -- the parts and the rounds are run at the same depth as what they are part of
  | chain parts =>
    obtain ⟨fuel, rfl⟩ := exists_fuel enough
    rw [Expr.size] at enough
    rw [descend] at ran ⊢
    exact inner.chain ran other fuel (by omega)
  | choice parts =>
    obtain ⟨fuel, rfl⟩ := exists_fuel enough
    rw [Expr.size] at enough
    rw [descend] at ran ⊢
    exact inner.choice ran other fuel (by omega)
  | zeroOrMore body =>
    obtain ⟨fuel, rfl⟩ := exists_fuel enough
    rw [Expr.size] at enough
    rw [descend] at ran ⊢
    exact inner.again ran other fuel (by omega)

theorem endsWithin (source : EbnfGrammar) (depth : Nat) : source.EndsWithin depth := by
  induction depth using Nat.strongRecOn with
  | ind depth ih =>
    cases depth with
    | zero => exact endsWithin_zero source
    | succ depth =>
      have within : ∀ less ≤ depth, source.EndsWithin less := fun less below =>
        ih less (Nat.lt_succ_of_le below)
      have inner := within depth (Nat.le_refl depth)
      exact ⟨expr_succ within, inner.chain_succ, inner.choice_succ, inner.again_succ⟩

/-- A run of a nonterminal's expression is followed at the depth that a parse allows. -/
theorem Descends.descend_depthBound
    (descends : source.Descends expr size stream outcome failures)
    (found : source.expression? s = some expr) :
    source.descend (source.depthBound stream.rest.length) expr size stream = some outcome := by
  obtain ⟨depth, follows⟩ := descends.settles
  have ran := follows depth (Nat.le_refl depth)
  have all := @room_endingBelow_le_entries source depth stream
  have bound := size_le_sizeOfAll found
  obtain ⟨again, rerun⟩ := (source.endsWithin depth).expr ran size
    (source.depthBound stream.rest.length) (by
      refine Nat.le_trans (Nat.add_le_add_left all _) ?_
      unfold room depthBound
      rw [Nat.add_mul, Nat.mul_add, Nat.mul_one]
      omega)
  obtain ⟨_, redescends⟩ := descends_of_descend rerun
  rw [rerun, descends.outcome_unique redescends]

/-- A parse has a result exactly if the lexer fails, or the recursion ends, and the result is then
that of the run. -/
theorem parse_eq_some_iff (wellFormed : source.WellFormed) {input : Input}
    {result : Except DescentError (Tree × Nat)} :
    source.parse input = some result ↔
      (∃ error, TokenStream.ofInput source.names input = .error error ∧
          result = .error (.lexical error)) ∨
        ∃ stream expr outcome failures, TokenStream.ofInput source.names input = .ok stream ∧
          source.expression? source.start = some expr ∧
          source.Descends expr 1 stream outcome failures ∧ result = source.conclude outcome := by
  obtain ⟨expr, found⟩ := exists_expression? wellFormed.start_isNonterminal
  unfold parse
  cases opened : TokenStream.ofInput source.names input with
  | error error => simp [eq_comm]
  | ok stream =>
    simp only [found, Option.map_eq_some_iff, reduceCtorEq, false_and, exists_false, false_or,
      Except.ok.injEq, Option.some.injEq]
    constructor
    · rintro ⟨outcome, ran, rfl⟩
      obtain ⟨failures, descends⟩ := descends_of_descend ran
      exact ⟨stream, expr, outcome, failures, rfl, rfl, descends, rfl⟩
    · rintro ⟨_, _, outcome, failures, rfl, rfl, descends, rfl⟩
      exact ⟨outcome, descends.descend_depthBound found, rfl⟩

end EbnfGrammar

end Predictive
