import Predictive.Proofs.Descent.Ending

/-!
# Recursive descent has one outcome

A run says what recursive descent does without a bound on the depth. The converse is shown here: a
run is followed at every depth that is large enough, so that an expression has one outcome at most
at each place of a stream. If no nonterminal leads back to itself, there is one, and the depth that
a parse allows is enough to find it: a larger one would not change it.

## Main definitions

* `EbnfGrammar.Settles` — an outcome at every depth that is large enough

## Main results

* `EbnfGrammar.Descends.settles` — a run is followed at every depth that is large enough
* `EbnfGrammar.Descends.outcome_unique` — all runs have the same outcome
* `EbnfGrammar.exists_outcome` — without left recursion, there is an outcome
* `EbnfGrammar.parse_ends` — recursive descent ends on every input
-/

namespace Predictive

namespace EbnfGrammar

variable {source : EbnfGrammar} {expr : Expr} {size : Nat} {stream : TokenStream}
  {outcome other : Descent} {failures others : List (Expr × List StreamToken)} {s : Symbol}

/-! ### From a run to the recursion -/

/-- An expression has an outcome at every depth from some depth on. -/
def Settles (source : EbnfGrammar) (expr : Expr) (size : Nat) (stream : TokenStream)
    (outcome : Descent) : Prop :=
  ∃ depth, ∀ fuel ≥ depth, source.descend fuel expr size stream = some outcome

theorem settles_of_add (depth extra : Nat)
    (follows : ∀ fuel ≥ depth, source.descend (fuel + extra) expr size stream = some outcome) :
    source.Settles expr size stream outcome := by
  refine ⟨depth + extra, fun fuel enough => ?_⟩
  obtain ⟨fuel, rfl⟩ := Nat.exists_eq_add_of_le' (Nat.le_of_add_left_le enough)
  exact follows fuel (by omega)

/-- A run is followed at every depth that is large enough. A list or a repetition takes one level
more than the expression that it makes up, which the run does not tell apart from it. -/
theorem Descends.settles (descends : source.Descends expr size stream outcome failures) :
    source.Settles expr size stream outcome := by
  induction descends with
  | terminal s size stream => exact settles_of_add 0 1 fun fuel _ => by rw [descend]
  | undefined size stream absent =>
    exact settles_of_add 0 1 fun fuel _ => by rw [descend, absent]
  | nonterminal found _ ih =>
    obtain ⟨depth, inner⟩ := ih
    exact settles_of_add depth 1 fun fuel enough => by
      simp only [descend, found, inner fuel enough]
  | nonterminalFailed found _ ih =>
    obtain ⟨depth, inner⟩ := ih
    exact settles_of_add depth 1 fun fuel enough => by
      simp only [descend, found, inner fuel enough]
  | chainNil size stream =>
    exact settles_of_add 0 2 fun fuel _ => by rw [descend, descendChain]
  | chainCons _ _ ihFirst ihLater =>
    obtain ⟨depth, first⟩ := ihFirst
    obtain ⟨deeper, later⟩ := ihLater
    refine settles_of_add (depth + deeper) 2 fun fuel enough => ?_
    have others := later (fuel + 1) (by omega)
    rw [descend] at others
    simp only [descend, descendChain, first fuel (by omega), others, Option.map_some]
  | chainFailed rest _ ih =>
    obtain ⟨depth, first⟩ := ih
    exact settles_of_add depth 2 fun fuel enough => by
      simp only [descend, descendChain, first fuel enough]
  | choiceNil size stream =>
    exact settles_of_add 0 2 fun fuel _ => by rw [descend, descendChoice]
  | choiceMatched rest _ ih =>
    obtain ⟨depth, first⟩ := ih
    exact settles_of_add depth 2 fun fuel enough => by
      simp only [descend, descendChoice, first fuel enough]
  | choiceNext _ _ ihFirst ihLater =>
    obtain ⟨depth, first⟩ := ihFirst
    obtain ⟨deeper, later⟩ := ihLater
    refine settles_of_add (depth + deeper) 2 fun fuel enough => ?_
    have others := later (fuel + 1) (by omega)
    rw [descend] at others
    simp only [descend, descendChoice, first fuel (by omega), others]
  | optionalMatched _ ih =>
    obtain ⟨depth, inner⟩ := ih
    exact settles_of_add depth 1 fun fuel enough => by simp only [descend, inner fuel enough]
  | optionalFailed _ ih =>
    obtain ⟨depth, inner⟩ := ih
    exact settles_of_add depth 1 fun fuel enough => by simp only [descend, inner fuel enough]
  | manyFailed _ ih =>
    obtain ⟨depth, inner⟩ := ih
    exact settles_of_add depth 2 fun fuel enough => by
      simp only [descend, descendMany, inner fuel enough]
  | manyIdle _ idle ih =>
    obtain ⟨depth, inner⟩ := ih
    exact settles_of_add depth 2 fun fuel enough => by
      simp only [descend, descendMany, inner fuel enough, if_neg idle]
  | manyAgain _ moved _ ihInner ihLater =>
    obtain ⟨depth, inner⟩ := ihInner
    obtain ⟨deeper, later⟩ := ihLater
    refine settles_of_add (depth + deeper) 2 fun fuel enough => ?_
    have again := later (fuel + 1) (by omega)
    rw [descend] at again
    simp only [descend, descendMany, inner fuel (by omega), if_pos moved, again, Option.map_some]
  | oneOrMore _ _ ihInner ihLater =>
    obtain ⟨depth, inner⟩ := ihInner
    obtain ⟨deeper, later⟩ := ihLater
    refine settles_of_add (depth + deeper) 1 fun fuel enough => ?_
    have again := later (fuel + 1) (by omega)
    rw [descend] at again
    simp only [descend, inner fuel (by omega), again, Option.map_some]
  | oneOrMoreFailed _ ih =>
    obtain ⟨depth, inner⟩ := ih
    exact settles_of_add depth 1 fun fuel enough => by simp only [descend, inner fuel enough]

/-- All runs have the same outcome, which is the one of the recursion at any depth. -/
theorem Descends.outcome_unique (descends : source.Descends expr size stream outcome failures)
    (again : source.Descends expr size stream other others) : other = outcome := by
  obtain ⟨depth, follows⟩ := descends.settles
  obtain ⟨deeper, follows'⟩ := again.settles
  have same := follows' (max depth deeper) (Nat.le_max_right _ _)
  rw [follows (max depth deeper) (Nat.le_max_left _ _)] at same
  exact (Option.some.inj same).symm

/-! ### The end of a parse -/

/-- Without left recursion, the expression of a nonterminal has an outcome at each place of a
stream, and every depth is enough to find it from the one on that a parse allows. -/
theorem exists_outcome (acyclic : ¬ source.IsLeftRecursive)
    (found : source.expression? s = some expr) (size : Nat) (stream : TokenStream) :
    ∃ outcome failures, source.Descends expr size stream outcome failures ∧
      ∀ fuel ≥ source.depthBound stream.rest.length,
        source.descend fuel expr size stream = some outcome := by
  obtain ⟨outcome, ran⟩ := exists_descend acyclic found size stream
  obtain ⟨failures, descends⟩ := descends_of_descend ran
  refine ⟨outcome, failures, descends, fun fuel enough => ?_⟩
  obtain ⟨result, deeper⟩ := exists_descend_of_le acyclic found size stream enough
  obtain ⟨_, again⟩ := descends_of_descend deeper
  rw [deeper, descends.outcome_unique again]

/-- The start symbol has a name to report. -/
theorem noMatch_ne_fault (wellFormed : source.WellFormed) (stream : TokenStream) (fault : Fault) :
    source.noMatch stream ≠ .fault fault := by
  have inside := (wellFormed.nonterminal_named wellFormed.start_isNonterminal).1
  obtain ⟨name, named⟩ := NameTable.name?_isSome_of_lt inside
  rw [noMatch, NameTable.name_eq_ok_iff.mpr named]
  nofun

theorem conclude_ne_fault (wellFormed : source.WellFormed) (outcome : Descent) (fault : Fault) :
    source.conclude outcome ≠ .error (.fault fault) := by
  unfold conclude
  split
  · exact fun same => noMatch_ne_fault wellFormed _ fault (Except.error.inj same)
  · split
    · nofun
    · nofun

/-- If no nonterminal leads back to itself, recursive descent ends on every input: it has a result,
which is a tree or an error that tells what does not fit. The result is that of a run of the start
symbol's expression, unless the lexer fails, and more depth than a parse allows would not change
it. -/
theorem parse_ends (wellFormed : source.WellFormed) (acyclic : ¬ source.IsLeftRecursive)
    (input : Input) :
    ∃ result, source.parse input = some result ∧ (∀ fault, result ≠ .error (.fault fault)) ∧
      ∀ stream, TokenStream.ofInput source.names input = .ok stream →
        ∃ expr outcome failures, source.expression? source.start = some expr ∧
          source.Descends expr 1 stream outcome failures ∧ result = source.conclude outcome ∧
          ∀ fuel ≥ source.depthBound stream.rest.length,
            source.descend fuel expr 1 stream = some outcome := by
  obtain ⟨expr, found⟩ := exists_expression? wellFormed.start_isNonterminal
  unfold parse
  cases opened : TokenStream.ofInput source.names input with
  | error error => exact ⟨_, rfl, nofun, nofun⟩
  | ok stream =>
    obtain ⟨outcome, failures, descends, settled⟩ := exists_outcome acyclic found 1 stream
    refine ⟨source.conclude outcome, ?_, conclude_ne_fault wellFormed outcome, ?_⟩
    · simp only [found, settled _ (Nat.le_refl _), Option.map_some]
    · rintro _ ⟨⟩
      exact ⟨expr, outcome, failures, found, descends, rfl, settled⟩

/-- The productions `S := T* c` and `T := (a b)?*`, with nested repetitions of expressions that
match the empty word. On the input `a a b c` the part `a b` takes a token before it fails. -/
theorem parse_ends_nested :
    ∃ source, EbnfDefinition.ofSteps [.terminal "a", .terminal "b", .terminal "c",
        .nonterminal "S", .nonterminal "T",
        .rule ⟨5⟩ (.chain [.zeroOrMore (.nonterminal ⟨6⟩), .terminal ⟨4⟩]),
        .rule ⟨6⟩ (.zeroOrMore (.optional (.chain [.terminal ⟨2⟩, .terminal ⟨3⟩])))] = .ok source ∧
      ¬ source.IsLeftRecursive ∧
      ∃ result, source.parse ⟨[⟨"a", "1"⟩, ⟨"a", "2"⟩, ⟨"b", "3"⟩, ⟨"c", "4"⟩], .eof ""⟩ =
          some result ∧ ∀ fault, result ≠ .error (.fault fault) := by
  obtain ⟨source, defined, wellFormed, -⟩ := EbnfDefinition.exists_of_ofSteps
    [.terminal "a", .terminal "b", .terminal "c", .nonterminal "S", .nonterminal "T",
      .rule ⟨5⟩ (.chain [.zeroOrMore (.nonterminal ⟨6⟩), .terminal ⟨4⟩]),
      .rule ⟨6⟩ (.zeroOrMore (.optional (.chain [.terminal ⟨2⟩, .terminal ⟨3⟩])))]
    (fun _ => true) (by decide +kernel)
  -- only the first production has a nonterminal, and it is that of the second one
  have leads : ∀ {s t}, source.Leads s t → s = ⟨5⟩ ∧ t = ⟨6⟩ := by
    rintro s t ⟨expr, found, corner⟩
    have given := EbnfDefinition.rule_mem_of_ofSteps defined found
    simp only [List.mem_cons, reduceCtorEq, false_or, List.not_mem_nil, or_false,
      EbnfDefinition.Step.rule.injEq] at given
    rcases given with ⟨rfl, rfl⟩ | ⟨rfl, rfl⟩
    · cases corner with
      | head corner =>
        cases corner with
        | zeroOrMore corner =>
          cases corner
          exact ⟨rfl, rfl⟩
      | tail _ corner =>
        cases corner with
        | head corner => cases corner
        | tail _ corner => cases corner
    · cases corner with
      | zeroOrMore corner =>
        cases corner with
        | optional corner =>
          cases corner with
          | head corner => cases corner
          | tail _ corner =>
            cases corner with
            | head corner => cases corner
            | tail _ corner => cases corner
  have acyclic : ¬ source.IsLeftRecursive := by
    rintro ⟨s, cycle⟩
    obtain ⟨t, first, -⟩ := Relation.TransGen.head'_iff.mp cycle
    obtain ⟨u, -, last⟩ := Relation.TransGen.tail'_iff.mp cycle
    have same := (leads first).1.symm.trans (leads last).2
    exact absurd same (by decide)
  obtain ⟨result, parsed, faultless, -⟩ := parse_ends wellFormed acyclic
    ⟨[⟨"a", "1"⟩, ⟨"a", "2"⟩, ⟨"b", "3"⟩, ⟨"c", "4"⟩], .eof ""⟩
  exact ⟨source, defined, acyclic, result, parsed, faultless⟩

end EbnfGrammar

end Predictive
