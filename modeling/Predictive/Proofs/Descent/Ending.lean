import Mathlib.Logic.Relation
import Predictive.Proofs.Descent.Spelling

/-!
# Recursive descent comes to an end

Recursive descent tries a nonterminal at the front of an expression without looking at a token. If
a nonterminal leads back to itself in this way, the recursion does not end. Otherwise, as long as no
token is taken, each nonterminal is tried at most once along a chain of calls; a token that is taken
makes room for all of them again. So the depth is bounded by the number of tokens times the size of
the grammar, and there is an outcome for every input.

## Main definitions

* `EbnfGrammar.LeftCorner` — the nonterminals that can come first in an expression
* `EbnfGrammar.IsLeftRecursive` — a nonterminal that leads back to itself
* `EbnfGrammar.Ends` — the depth that suffices

## Main results

* `EbnfGrammar.ends` — the recursion ends, whatever the depth that it is given
* `EbnfGrammar.exists_descend` — an expression has an outcome at the depth that a parse allows
-/

namespace Predictive

namespace EbnfGrammar

variable {source : EbnfGrammar} {expr later part body : Expr} {rest parts : List Expr}
  {s t : Symbol} {left : List (Symbol × Expr)} {size fuel : Nat} {stream after : TokenStream}

/-! ### Left recursion -/

/-- The nonterminals that can come first in an expression: in front of them in a chain, there are
only parts that match the empty word. -/
inductive LeftCorner (source : EbnfGrammar) : Expr → Symbol → Prop where
  /-- A nonterminal comes first in itself. -/
  | nonterminal (s : Symbol) : LeftCorner source (.nonterminal s) s
  /-- What comes first in the first part of a chain. -/
  | head {part : Expr} {rest : List Expr} {s : Symbol} (corner : LeftCorner source part s) :
      LeftCorner source (.chain (part :: rest)) s
  /-- What comes first in the rest of a chain, if the first part can be left out. -/
  | tail {part : Expr} {rest : List Expr} {s : Symbol} (vanishes : source.Matches [part] [])
      (corner : LeftCorner source (.chain rest) s) : LeftCorner source (.chain (part :: rest)) s
  /-- What comes first in a part of a choice. -/
  | choice {parts : List Expr} {part : Expr} {s : Symbol} (member : part ∈ parts)
      (corner : LeftCorner source part s) : LeftCorner source (.choice parts) s
  /-- What comes first in the body of an optional expression. -/
  | optional {body : Expr} {s : Symbol} (corner : LeftCorner source body s) :
      LeftCorner source (.optional body) s
  /-- What comes first in the body of a repetition. -/
  | zeroOrMore {body : Expr} {s : Symbol} (corner : LeftCorner source body s) :
      LeftCorner source (.zeroOrMore body) s
  /-- What comes first in the body of a repetition that is not empty. -/
  | oneOrMore {body : Expr} {s : Symbol} (corner : LeftCorner source body s) :
      LeftCorner source (.oneOrMore body) s

/-- A nonterminal leads to those that can come first in its expression. -/
def Leads (source : EbnfGrammar) (s t : Symbol) : Prop :=
  ∃ expr, source.expression? s = some expr ∧ source.LeftCorner expr t

/-- A nonterminal leads back to itself. -/
def IsLeftRecursive (source : EbnfGrammar) : Prop := ∃ s, Relation.TransGen source.Leads s s

/-! ### What may still be tried -/

/-- The productions that can be tried before a token is taken, beginning with an expression, are
among those that are left. -/
def Reached (source : EbnfGrammar) (left : List (Symbol × Expr)) (expr : Expr) : Prop :=
  ∀ {s t body}, source.LeftCorner expr s → Relation.ReflTransGen source.Leads s t →
    source.expression? t = some body → (t, body) ∈ left

/-- The depth that is needed below an expression: every production that is left is tried once, and
all of them again after each token. -/
def room (source : EbnfGrammar) (left : List (Symbol × Expr)) (stream : TokenStream) : Nat :=
  Expr.sizeOfAll (left.map Prod.snd) +
    stream.rest.length * Expr.sizeOfAll (source.productions.entries.map Prod.snd)

theorem reached_entries (expr : Expr) : source.Reached source.productions.entries expr :=
  fun _ _ found => OrderedMap.mem_entries_iff.mpr found

theorem Reached.mono (reached : source.Reached left expr)
    (fewer : ∀ {s}, source.LeftCorner later s → source.LeftCorner expr s) :
    source.Reached left later :=
  fun corner leads found => reached (fewer corner) leads found

theorem sizeOfAll_append_cons (front back : List Expr) :
    Expr.sizeOfAll (front ++ part :: back) = part.size + Expr.sizeOfAll (front ++ back) + 1 := by
  induction front with
  | nil => rw [List.nil_append, List.nil_append, Expr.sizeOfAll]
  | cons other front ih =>
    rw [List.cons_append, List.cons_append, Expr.sizeOfAll, Expr.sizeOfAll, ih]
    omega

theorem one_le_sizeOfAll (parts : List Expr) : 1 ≤ Expr.sizeOfAll parts := by
  cases parts with
  | nil => exact Nat.le_refl 1
  | cons part rest =>
    rw [Expr.sizeOfAll]
    omega

theorem size_le_sizeOfAll (found : source.expression? s = some expr) :
    expr.size ≤ Expr.sizeOfAll (source.productions.entries.map Prod.snd) := by
  obtain ⟨front, back, split⟩ := List.append_of_mem (OrderedMap.mem_entries_iff.mpr found)
  rw [split, List.map_append, List.map_cons, sizeOfAll_append_cons]
  dsimp only
  omega

/-- A nonterminal that is not left-recursive is not tried again below itself, so that the room of
its production is free for its expression. -/
theorem Reached.exists_body (reached : source.Reached left (.nonterminal s))
    (acyclic : ¬ source.IsLeftRecursive) (found : source.expression? s = some body) :
    ∃ left', source.Reached left' body ∧
      body.size + source.room left' stream + 1 = source.room left stream := by
  obtain ⟨front, back, rfl⟩ := List.append_of_mem (reached (.nonterminal s) .refl found)
  refine ⟨front ++ back, fun {first t inner} corner leads given => ?_, ?_⟩
  · have step : source.Leads s first := ⟨body, found, corner⟩
    have listed := reached (.nonterminal s) (.head step leads) given
    rw [List.mem_append, List.mem_cons] at listed
    rcases listed with early | same | late
    · exact List.mem_append_left _ early
    · obtain ⟨rfl, -⟩ := Prod.mk.inj same
      exact absurd ⟨t, .head' step leads⟩ acyclic
    · exact List.mem_append_right _ late
  · unfold room
    rw [List.map_append, List.map_append, List.map_cons, sizeOfAll_append_cons]
    dsimp only
    omega

/-- A token that was taken makes room for every production, and for one thing more. -/
theorem room_lt {taken : List StreamToken} (advances : stream.Advances after taken)
    (moved : taken ≠ []) :
    source.room source.productions.entries after < source.room left stream := by
  have counted := advances.length_eq
  have some := List.length_pos_of_ne_nil moved
  have positive := one_le_sizeOfAll (left.map Prod.snd)
  have fewer : (after.rest.length + 1) * Expr.sizeOfAll (source.productions.entries.map Prod.snd) ≤
      stream.rest.length * Expr.sizeOfAll (source.productions.entries.map Prod.snd) :=
    Nat.mul_le_mul_right _ (by omega)
  rw [Nat.add_mul, Nat.one_mul] at fewer
  unfold room
  omega

/-- Where an expression is left, there is room for the next one: nothing was taken, and it can be
tried with what is left, or a token was taken. -/
theorem exists_left (advances : ∃ taken, stream.Advances after taken)
    (idle : after = stream → source.Reached left later) :
    ∃ left', source.Reached left' later ∧ source.room left' after ≤ source.room left stream := by
  obtain ⟨taken, advances⟩ := advances
  by_cases moved : taken = []
  · subst moved
    obtain rfl := advances.eq_of_nil
    exact ⟨left, idle rfl, Nat.le_refl _⟩
  · exact ⟨_, reached_entries later, Nat.le_of_lt (room_lt advances moved)⟩

/-! ### The depth that suffices -/

/-- There is an outcome for everything that has room. -/
structure Ends (source : EbnfGrammar) (fuel : Nat) : Prop where
  /-- For an expression. -/
  expr : ∀ {expr size stream left}, source.Reached left expr →
    expr.size + source.room left stream ≤ fuel →
    ∃ outcome, source.descend fuel expr size stream = some outcome
  /-- For the parts of a chain. -/
  chain : ∀ {parts size stream left}, source.Reached left (.chain parts) →
    Expr.sizeOfAll parts + source.room left stream ≤ fuel →
    ∃ outcome, source.descendChain fuel parts size stream = some outcome
  /-- For the parts of a choice. -/
  choice : ∀ {parts size stream left}, source.Reached left (.choice parts) →
    Expr.sizeOfAll parts + source.room left stream ≤ fuel →
    ∃ outcome, source.descendChoice fuel parts size stream = some outcome
  /-- For the rounds of a repetition. -/
  again : ∀ {body size stream left}, source.Reached left body →
    body.size + 1 + source.room left stream ≤ fuel →
    ∃ outcome, source.descendMany fuel body size stream = some outcome

namespace Ends

variable (ends : source.Ends fuel)

include ends

theorem chain_succ (reached : source.Reached left (.chain parts))
    (enough : Expr.sizeOfAll parts + source.room left stream ≤ fuel + 1) :
    ∃ outcome, source.descendChain (fuel + 1) parts size stream = some outcome := by
  cases parts with
  | nil => exact ⟨_, by rw [descendChain]⟩
  | cons part rest =>
    rw [Expr.sizeOfAll] at enough
    have front : source.Reached left part := reached.mono fun corner => .head corner
    obtain ⟨outcome, tried⟩ := @ends.expr part size stream left front (by omega)
    obtain ⟨failures, descends⟩ := descends_of_descend tried
    rw [descendChain, tried]
    cases outcome with
    | failed after => exact ⟨_, rfl⟩
    | matched forest last after =>
      obtain ⟨left', reached', within⟩ := @exists_left source (.chain rest) left stream after
        descends.advances fun same => by
          subst same
          -- a part that matches without a token can be left out
          exact reached.mono fun corner => .tail descends.spells_nil.matches_nil corner
      obtain ⟨outcome, others⟩ := @ends.chain rest last after left' reached' (by omega)
      dsimp only
      exact ⟨_, by rw [others]; rfl⟩

theorem choice_succ (reached : source.Reached left (.choice parts))
    (enough : Expr.sizeOfAll parts + source.room left stream ≤ fuel + 1) :
    ∃ outcome, source.descendChoice (fuel + 1) parts size stream = some outcome := by
  cases parts with
  | nil => exact ⟨_, by rw [descendChoice]⟩
  | cons part rest =>
    rw [Expr.sizeOfAll] at enough
    have front : source.Reached left part :=
      reached.mono fun corner => .choice List.mem_cons_self corner
    have back : source.Reached left (.choice rest) := reached.mono fun corner => by
      cases corner with
      | choice member corner => exact .choice (List.mem_cons_of_mem _ member) corner
    obtain ⟨outcome, tried⟩ := @ends.expr part size stream left front (by omega)
    obtain ⟨failures, descends⟩ := descends_of_descend tried
    rw [descendChoice, tried]
    cases outcome with
    | matched forest last after => exact ⟨_, rfl⟩
    | failed after =>
      obtain ⟨left', reached', within⟩ := @exists_left source (.choice rest) left stream after
        descends.advances fun _ => back
      exact @ends.choice rest size after left' reached' (by omega)

theorem again_succ (reached : source.Reached left body)
    (enough : body.size + 1 + source.room left stream ≤ fuel + 1) :
    ∃ outcome, source.descendMany (fuel + 1) body size stream = some outcome := by
  obtain ⟨outcome, tried⟩ := @ends.expr body size stream left reached (by omega)
  obtain ⟨failures, descends⟩ := descends_of_descend tried
  rw [descendMany, tried]
  cases outcome with
  | failed after => exact ⟨_, rfl⟩
  | matched forest last after =>
    dsimp only
    split
    · next moved =>
      obtain ⟨taken, advances⟩ := descends.advances
      rw [Descent.stream_matched] at advances
      have counted := advances.position_eq
      have some : taken ≠ [] := List.ne_nil_of_length_pos (by omega)
      have room := @room_lt source left stream after taken advances some
      obtain ⟨outcome, again⟩ := @ends.again body last after _ (reached_entries body) (by omega)
      exact ⟨_, by rw [again]; rfl⟩
    · exact ⟨_, rfl⟩

theorem expr_succ (acyclic : ¬ source.IsLeftRecursive) (reached : source.Reached left expr)
    (enough : expr.size + source.room left stream ≤ fuel + 1) :
    ∃ outcome, source.descend (fuel + 1) expr size stream = some outcome := by
  cases expr with
  | terminal s => exact ⟨_, by rw [descend]⟩
  | nonterminal s =>
    rw [descend]
    cases found : source.expression? s with
    | none => exact ⟨_, rfl⟩
    | some body =>
      obtain ⟨left', reached', freed⟩ := @Reached.exists_body source body s left stream reached
        acyclic found
      rw [Expr.size] at enough
      obtain ⟨outcome, tried⟩ := @ends.expr body size stream left' reached' (by omega)
      dsimp only
      rw [tried]
      cases outcome with
      | matched forest last after => exact ⟨_, rfl⟩
      | failed after => exact ⟨_, rfl⟩
  | chain parts =>
    rw [Expr.size] at enough
    obtain ⟨outcome, tried⟩ := @ends.chain parts size stream left reached (by omega)
    exact ⟨outcome, by rw [descend, tried]⟩
  | choice parts =>
    rw [Expr.size] at enough
    obtain ⟨outcome, tried⟩ := @ends.choice parts size stream left reached (by omega)
    exact ⟨outcome, by rw [descend, tried]⟩
  | optional body =>
    rw [Expr.size] at enough
    obtain ⟨outcome, tried⟩ := @ends.expr body size stream left
      (reached.mono fun corner => .optional corner) (by omega)
    rw [descend, tried]
    cases outcome with
    | matched forest last after => exact ⟨_, rfl⟩
    | failed after => exact ⟨_, rfl⟩
  | zeroOrMore body =>
    rw [Expr.size] at enough
    obtain ⟨outcome, tried⟩ := @ends.again body size stream left
      (reached.mono fun corner => .zeroOrMore corner) (by omega)
    exact ⟨outcome, by rw [descend, tried]⟩
  | oneOrMore body =>
    rw [Expr.size] at enough
    have inner : source.Reached left body := reached.mono fun corner => .oneOrMore corner
    obtain ⟨outcome, tried⟩ := @ends.expr body size stream left inner (by omega)
    obtain ⟨failures, descends⟩ := descends_of_descend tried
    rw [descend, tried]
    cases outcome with
    | failed after => exact ⟨_, rfl⟩
    | matched forest last after =>
      obtain ⟨left', reached', within⟩ := @exists_left source body left stream after
        descends.advances fun _ => inner
      obtain ⟨outcome, again⟩ := @ends.again body last after left' reached' (by omega)
      dsimp only
      exact ⟨_, by rw [again]; rfl⟩

end Ends

/-- The recursion ends: there is an outcome for everything that has room. -/
theorem ends (acyclic : ¬ source.IsLeftRecursive) (fuel : Nat) : source.Ends fuel := by
  induction fuel with
  | zero =>
    -- nothing has room in no depth
    have positive : ∀ left stream, 1 ≤ source.room left stream := fun left stream =>
      Nat.le_add_right_of_le (one_le_sizeOfAll _)
    constructor
    · intro expr size stream left _ enough
      have some := positive left stream
      omega
    · intro parts size stream left _ enough
      have some := positive left stream
      omega
    · intro parts size stream left _ enough
      have some := positive left stream
      omega
    · intro body size stream left _ enough
      have some := positive left stream
      omega
  | succ fuel ih => exact ⟨ih.expr_succ acyclic, ih.chain_succ, ih.choice_succ, ih.again_succ⟩

/-- The expression of a nonterminal has an outcome at the depth that a parse allows, and at every
larger one. -/
theorem exists_descend_of_le (acyclic : ¬ source.IsLeftRecursive)
    (found : source.expression? s = some expr) (size : Nat) (stream : TokenStream)
    (enough : source.depthBound stream.rest.length ≤ fuel) :
    ∃ outcome, source.descend fuel expr size stream = some outcome := by
  refine (ends acyclic _).expr (reached_entries expr) (Nat.le_trans ?_ enough)
  have bound := size_le_sizeOfAll found
  unfold room depthBound
  rw [Nat.add_mul, Nat.mul_add, Nat.mul_one]
  omega

/-- The expression of a nonterminal has an outcome at the depth that a parse allows. -/
theorem exists_descend (acyclic : ¬ source.IsLeftRecursive)
    (found : source.expression? s = some expr) (size : Nat) (stream : TokenStream) :
    ∃ outcome, source.descend (source.depthBound stream.rest.length) expr size stream =
      some outcome :=
  exists_descend_of_le acyclic found size stream (Nat.le_refl _)

end EbnfGrammar

end Predictive
