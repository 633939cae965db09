import Predictive.Proofs.Ebnf.Follow
import Predictive.Proofs.Passes

/-!
# Passes over expressions end at a fixed point

The sets of an EBNF grammar are computed by passes over its expressions. As for alternatives, the
report of a change is right in every state, and symbols move on their own when terminals are handed
down, so that the passes end for every grammar, whether or not its expressions use symbols as they
were declared.

## Main results

* `Expr.mem_members_of_mem_first` — where the FIRST set of an expression has its members from
* `Expr.agreeAt_follow` — handing down moves each symbol on its own
* `passes_saturate` — the passes for FIRST and FOLLOW sets end at a fixed point
-/

namespace Predictive

namespace Expr

variable {firsts : FirstSets} {expr : Expr} {parts : List Expr} {s t : Symbol}
  {possible : List Symbol} {item : Symbol × SymbolSet}

theorem mem_first_of_mem_firstOfChain (member : t ∈ firstOfChain firsts .empty parts) :
    t = .epsilon ∨ ∃ part ∈ parts, t ∈ part.first firsts := by
  induction parts with
  | nil => exact Or.inl (mem_firstOfChain_nil.mp member)
  | cons part rest ih =>
    rcases mem_firstOfChain_cons.mp member with ⟨begins, -⟩ | ⟨-, later⟩
    · exact Or.inr ⟨part, List.mem_cons_self, begins⟩
    · exact (ih later).imp_right fun ⟨part, listed, begins⟩ =>
        ⟨part, List.mem_cons_of_mem _ listed, begins⟩

/-- Every member of the FIRST set of an expression is `ε` or comes from the set of a symbol. -/
theorem mem_members_of_mem_first (member : t ∈ expr.first firsts) :
    t = .epsilon ∨ ∃ s, t ∈ firsts.sets.members s := by
  induction expr using Expr.induction with
  | terminal s =>
    rw [first_terminal] at member
    exact Or.inr ⟨s, member⟩
  | nonterminal s =>
    rw [first_nonterminal] at member
    exact Or.inr ⟨s, member⟩
  | chain parts ih =>
    rw [first] at member
    rcases mem_first_of_mem_firstOfChain member with marker | ⟨part, listed, begins⟩
    · exact Or.inl marker
    · exact ih part listed begins
  | choice parts ih =>
    rw [first, mem_firstOfChoice] at member
    obtain ⟨part, listed, begins⟩ := member.resolve_left (SymbolSet.not_mem_empty t)
    exact ih part listed begins
  | optional body ih =>
    rw [first, SymbolSet.mem_insert] at member
    exact member.elim ih Or.inl
  | zeroOrMore body ih =>
    rw [first, SymbolSet.mem_insert] at member
    exact member.elim ih Or.inl
  | oneOrMore body ih =>
    rw [first] at member
    exact ih member

/-- What is handed down comes from what follows the expression and from the FIRST sets. -/
theorem mem_possible_of_handed {next : SymbolSet}
    (supplied : ∀ s, ∀ t ∈ firsts.sets.members s, t ≠ .epsilon → t ∈ possible)
    (follows : ∀ t ∈ next, t ≠ .epsilon → t ∈ possible)
    (listed : item ∈ expr.handed firsts next) : ∀ t ∈ item.2, t ≠ .epsilon → t ∈ possible := by
  have begins : ∀ (expr : Expr) (t : Symbol), t ∈ expr.first firsts → t ≠ .epsilon →
      t ∈ possible := by
    intro expr t member proper
    obtain ⟨s, member⟩ := (mem_members_of_mem_first member).resolve_left proper
    exact supplied s t member proper
  induction expr using Expr.induction generalizing next with
  | terminal s =>
    rw [handed] at listed
    cases listed
  | nonterminal s =>
    rw [handed, List.mem_singleton] at listed
    exact listed ▸ follows
  | chain parts ih =>
    rw [handed, mem_handedChain] at listed
    obtain ⟨front, part, back, rfl, inside⟩ := listed
    refine ih part (by simp) (fun t member proper => ?_) inside
    -- a part is followed by what begins the parts behind it
    rcases SymbolSet.mem_followedBy.mp member with ⟨member, -⟩ | ⟨-, member⟩
    · obtain ⟨part, -, member⟩ := (mem_first_of_mem_firstOfChain member).resolve_left proper
      exact begins part t member proper
    · exact follows t member proper
  | choice parts ih =>
    rw [handed, mem_handedChoice] at listed
    obtain ⟨part, member, inside⟩ := listed
    exact ih part member follows inside
  | optional body ih =>
    rw [handed] at listed
    exact ih follows listed
  | zeroOrMore body ih =>
    rw [handed] at listed
    refine ih (fun t member proper => ?_) listed
    rw [SymbolSet.mem_union, SymbolSet.mem_withoutEpsilon] at member
    exact member.elim (fun old => follows t old proper) fun again => begins body t again.1 proper
  | oneOrMore body ih =>
    rw [handed] at listed
    refine ih (fun t member proper => ?_) listed
    rw [SymbolSet.mem_union, SymbolSet.mem_withoutEpsilon] at member
    exact member.elim (fun old => follows t old proper) fun again => begins body t again.1 proper

/-- When terminals are handed down, each symbol moves on its own. -/
theorem agreeAt_follow {next more : SymbolSet} {follows other : FollowSets}
    (agree : OrderedMap.AgreeAt t follows.sets other.sets) (same : t ∈ more ↔ t ∈ next) :
    OrderedMap.AgreeAt t (expr.follow firsts next follows).1.sets
      (expr.follow firsts more other).1.sets := by
  induction expr using Expr.induction generalizing next more follows other with
  | terminal s =>
    rw [follow, follow]
    exact agree
  | nonterminal s =>
    rw [follow, follow]
    exact FollowSets.agreeAt_extend agree same
  | chain parts ih =>
    rw [follow, follow]
    induction parts generalizing follows other with
    | nil =>
      rw [followChain, followChain]
      exact agree
    | cons part rest ihRest =>
      rw [followChain, followChain]
      refine ihRest (fun part listed => ih part (List.mem_cons_of_mem _ listed)) ?_
      refine ih part List.mem_cons_self agree ?_
      -- what begins the parts behind depends on the FIRST sets only, which are the same
      rw [SymbolSet.mem_followedBy, SymbolSet.mem_followedBy, same]
  | choice parts ih =>
    rw [follow, follow]
    induction parts generalizing follows other with
    | nil =>
      rw [followChoice, followChoice]
      exact agree
    | cons part rest ihRest =>
      rw [followChoice, followChoice]
      refine ihRest (fun part listed => ih part (List.mem_cons_of_mem _ listed)) ?_
      exact ih part List.mem_cons_self agree same
  | optional body ih =>
    rw [follow, follow]
    exact ih agree same
  | zeroOrMore body ih =>
    rw [follow, follow]
    exact ih agree (by rw [SymbolSet.mem_union, SymbolSet.mem_union, same])
  | oneOrMore body ih =>
    rw [follow, follow]
    exact ih agree (by rw [SymbolSet.mem_union, SymbolSet.mem_union, same])

end Expr

theorem FirstSets.saturates_computeEbnf (grammar : EbnfGrammar) :
    Saturates FirstSets.sets (grammar.terminals.items ++ [.eof, .epsilon]) (passEbnf grammar)
      (initial grammar.terminals.items grammar.nonterminals) (computeEbnf grammar) := by
  refine saturates_sweep fun within production t member => ?_
  rcases Expr.mem_members_of_mem_first member with rfl | ⟨s, member⟩
  · simp
  · exact within s t member

namespace FollowSets

variable {grammar : EbnfGrammar} {firsts : FirstSets} {follows other : FollowSets} {t : Symbol}
  {possible : List Symbol}

/-- What both sides of every extension preserve, a pass preserves. -/
theorem passEbnf_invariant (holds : FollowSets → Prop) (initially : holds follows)
    (keeps : ∀ {production : Symbol × Expr} {before current : FollowSets}
      {item : Symbol × SymbolSet}, holds before → holds current →
      item ∈ production.2.handed firsts (before.get production.1) →
        holds (current.extend item.1 item.2).1) :
    holds (passEbnf grammar firsts follows).1 := by
  refine sweep_invariant holds initially fun before production _ held => ?_
  rw [Expr.follow_eq_sweep]
  exact sweep_invariant holds held fun current item listed now => keeps held now listed

/-- In a pass over expressions, too, each symbol moves on its own. -/
theorem agreeAt_passEbnf (agree : OrderedMap.AgreeAt t follows.sets other.sets) :
    OrderedMap.AgreeAt t (passEbnf grammar firsts follows).1.sets
      (passEbnf grammar firsts other).1.sets := by
  let related := fun follows other : FollowSets =>
    OrderedMap.AgreeAt t follows.sets other.sets
  refine sweep_related related (fun production _ follows other agree => ?_) agree
  exact Expr.agreeAt_follow agree (agree.mem_iff production.1)

/-- Passes over the FOLLOW sets of an EBNF grammar end at a fixed point, whatever FIRST sets are
given: the members are `EOF` and those of the FIRST sets. -/
theorem saturates_computeEbnf (grammar : EbnfGrammar)
    (supplied : ∀ s, ∀ t ∈ firsts.sets.members s, t ≠ .epsilon → t ∈ possible)
    (last : .eof ∈ possible) :
    Saturates FollowSets.sets possible (passEbnf grammar firsts)
      (initial grammar.nonterminals grammar.start) (computeEbnf grammar firsts) := by
  refine saturates_of_separate
    (Growing.sweep _ fun production _ => Expr.growing_follow firsts production.1 production.2)
    (fun follows => ?_) agreeAt_passEbnf (fun follows within => ?_) last
  · exact passEbnf_invariant (fun other => follows.sets.Grown other.sets) (.refl _)
      fun _ grown _ => grown_extend grown
  · refine passEbnf_invariant (fun follows => follows.sets.Within possible) within
      fun before now listed => within_extend now ?_
    exact Expr.mem_possible_of_handed supplied (fun t member _ => before _ t member) listed

end FollowSets

/-- The passes that compute FIRST and FOLLOW sets end at a fixed point, for every grammar and every
EBNF grammar. The members of FIRST sets are terminals, `EOF` and `ε`, and those of FOLLOW sets are
terminals and `EOF`, if the FIRST sets are those of the grammar. If they are any others, the passes
end as well, with members that come from these. -/
theorem passes_saturate :
    (∀ grammar : Grammar,
      Saturates FirstSets.sets (grammar.terminals.items ++ [.eof, .epsilon])
        (FirstSets.pass grammar) (.initial grammar.terminals.items grammar.nonterminals)
        (.compute grammar) ∧
      Saturates FollowSets.sets (grammar.terminals.items ++ [.eof])
        (FollowSets.pass grammar (.compute grammar)) (.initial grammar.nonterminals grammar.start)
        (.compute grammar (.compute grammar)) ∧
      ∀ firsts : FirstSets, Saturates FollowSets.sets (firsts.sets.allMembers ++ [.eof])
        (FollowSets.pass grammar firsts) (.initial grammar.nonterminals grammar.start)
        (.compute grammar firsts)) ∧
    ∀ grammar : EbnfGrammar,
      Saturates FirstSets.sets (grammar.terminals.items ++ [.eof, .epsilon])
        (FirstSets.passEbnf grammar) (.initial grammar.terminals.items grammar.nonterminals)
        (.computeEbnf grammar) ∧
      Saturates FollowSets.sets (grammar.terminals.items ++ [.eof])
        (FollowSets.passEbnf grammar (.computeEbnf grammar))
        (.initial grammar.nonterminals grammar.start)
        (.computeEbnf grammar (.computeEbnf grammar)) ∧
      ∀ firsts : FirstSets, Saturates FollowSets.sets (firsts.sets.allMembers ++ [.eof])
        (FollowSets.passEbnf grammar firsts) (.initial grammar.nonterminals grammar.start)
        (.computeEbnf grammar firsts) := by
  have own : ∀ {terminals : List Symbol} {firsts : FirstSets},
      firsts.sets.Within (terminals ++ [.eof, .epsilon]) → ∀ s, ∀ t ∈ firsts.sets.members s,
        t ≠ .epsilon → t ∈ terminals ++ [.eof] := by
    intro terminals firsts within s t member proper
    have listed := within s t member
    simp only [List.mem_append, List.mem_cons, List.not_mem_nil, or_false] at listed ⊢
    tauto
  have any : ∀ (firsts : FirstSets) (s : Symbol), ∀ t ∈ firsts.sets.members s,
      t ≠ .epsilon → t ∈ firsts.sets.allMembers ++ [.eof] := fun firsts s t member _ =>
    List.mem_append_left _ (OrderedMap.within_allMembers firsts.sets s t member)
  refine ⟨fun grammar => ?_, fun grammar => ?_⟩
  · have firsts := FirstSets.saturates_compute grammar
    exact ⟨firsts, FollowSets.saturates_compute grammar (own firsts.within_result) (by simp),
      fun firsts => FollowSets.saturates_compute grammar (any firsts) (by simp)⟩
  · have firsts := FirstSets.saturates_computeEbnf grammar
    exact ⟨firsts, FollowSets.saturates_computeEbnf grammar (own firsts.within_result) (by simp),
      fun firsts => FollowSets.saturates_computeEbnf grammar (any firsts) (by simp)⟩

end Predictive
