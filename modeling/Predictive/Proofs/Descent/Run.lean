import Mathlib.Data.List.Basic
import Predictive.Ebnf.Descent

/-!
# Runs of recursive descent

What recursive descent does with an expression is said here once and for all, without a bound on
the depth: which parts are tried, where in the stream, and what becomes of their outcomes. A part
that fails in a choice, an optional expression or a repetition is passed over, and the tokens that
it took are not given back. A run keeps a record of these parts and of their tokens.

## Main definitions

* `TokenStream.Advances` — from a stream to a later one
* `EbnfGrammar.Descends` — the outcome of matching an expression, with the parts passed over

## Main results

* `EbnfGrammar.descends_of_descend` — every outcome of `descend` is the outcome of a run
* `EbnfGrammar.Descends.advances` — a stream only moves forward
-/

namespace Predictive

namespace TokenStream

variable {stream middle after : TokenStream} {taken others : List StreamToken}

/-- The tokens between a stream and a later one. -/
def upTo (stream after : TokenStream) : List StreamToken :=
  stream.rest.take (after.position - stream.position)

/-- From a stream to a later one: some tokens are taken, and the position counts them. -/
structure Advances (stream after : TokenStream) (taken : List StreamToken) : Prop where
  /-- The tokens that are left come behind those that were taken. -/
  rest_eq : stream.rest = taken ++ after.rest
  /-- The position counts the tokens that were taken. -/
  position_eq : after.position = stream.position + taken.length

theorem Advances.refl (stream : TokenStream) : stream.Advances stream [] := ⟨rfl, rfl⟩

theorem Advances.trans (first : stream.Advances middle taken)
    (second : middle.Advances after others) : stream.Advances after (taken ++ others) := by
  constructor
  · rw [first.rest_eq, second.rest_eq, List.append_assoc]
  · rw [second.position_eq, first.position_eq, List.length_append, Nat.add_assoc]

theorem Advances.upTo_eq (advances : stream.Advances after taken) : stream.upTo after = taken := by
  rw [upTo, advances.rest_eq, advances.position_eq, Nat.add_sub_cancel_left]
  exact List.take_left

/-- A stream that did not move is the same. -/
theorem Advances.eq_of_nil (advances : stream.Advances after []) : after = stream := by
  obtain ⟨rest, position⟩ := stream
  obtain ⟨rest', position'⟩ := after
  have sameRest : rest = rest' := advances.rest_eq
  have samePosition : position' = position := advances.position_eq
  rw [sameRest, samePosition]

theorem Advances.taken_eq_nil (advances : stream.Advances after taken)
    (idle : ¬ stream.position < after.position) : taken = [] := by
  have moved := advances.position_eq
  exact List.length_eq_zero_iff.mp (by omega)

theorem Advances.length_eq (advances : stream.Advances after taken) :
    stream.rest.length = taken.length + after.rest.length := by
  rw [advances.rest_eq, List.length_append]

theorem advances_of_next? {token : StreamToken} (found : stream.next? = some (token, after)) :
    stream.Advances after [token] := by
  unfold next? at found
  split at found
  · cases found
  · next split =>
    cases found
    exact ⟨split, rfl⟩

end TokenStream

namespace Descent

/-- The stream after an outcome. -/
def stream : Descent → TokenStream
  | .matched _ _ stream => stream
  | .failed stream => stream

variable {forest : List Tree} {size : Nat} {after : TokenStream} {outcome : Descent}

@[simp] theorem stream_matched : (matched forest size after).stream = after := rfl

@[simp] theorem stream_failed : (failed after).stream = after := rfl

@[simp] theorem stream_after : (outcome.after forest).stream = outcome.stream := by
  cases outcome with
  | matched => rfl
  | failed => rfl

/-- Trees are put in front of a match only. -/
theorem after_eq_matched_iff {front : List Tree} :
    outcome.after front = .matched forest size after ↔
      ∃ back, outcome = .matched back size after ∧ forest = front ++ back := by
  cases outcome with
  | matched back last stream =>
    simp only [Descent.after, matched.injEq]
    constructor
    · rintro ⟨rfl, rfl, rfl⟩
      exact ⟨back, ⟨rfl, rfl, rfl⟩, rfl⟩
    · rintro ⟨_, ⟨rfl, rfl, rfl⟩, rfl⟩
      exact ⟨rfl, rfl, rfl⟩
  | failed stream => simp [Descent.after]

end Descent

namespace EbnfGrammar

/-- The outcome of matching an expression, given the number of nodes so far, together with the
parts that failed and were passed over, each with the tokens that it took. -/
inductive Descends (source : EbnfGrammar) :
    Expr → Nat → TokenStream → Descent → List (Expr × List StreamToken) → Prop where
  /-- A terminal takes the next token or fails. -/
  | terminal (s : Symbol) (size : Nat) (stream : TokenStream) :
      Descends source (.terminal s) size stream (takeTerminal s size stream) []
  /-- A nonterminal without an expression fails. -/
  | undefined {s : Symbol} (size : Nat) (stream : TokenStream)
      (absent : source.expression? s = none) :
      Descends source (.nonterminal s) size stream (.failed stream) []
  /-- A nonterminal makes a node of what its expression makes. -/
  | nonterminal {s : Symbol} {body : Expr} {size last : Nat} {stream after : TokenStream}
      {forest : List Tree} {failures : List (Expr × List StreamToken)}
      (found : source.expression? s = some body)
      (inner : Descends source body size stream (.matched forest last after) failures) :
      Descends source (.nonterminal s) size stream
        (.matched [.node last s none forest] (last + 1) after) failures
  /-- A nonterminal fails with its expression. -/
  | nonterminalFailed {s : Symbol} {body : Expr} {size : Nat} {stream after : TokenStream}
      {failures : List (Expr × List StreamToken)} (found : source.expression? s = some body)
      (inner : Descends source body size stream (.failed after) failures) :
      Descends source (.nonterminal s) size stream (.failed after) failures
  /-- A chain without parts matches. -/
  | chainNil (size : Nat) (stream : TokenStream) :
      Descends source (.chain []) size stream (.matched [] size stream) []
  /-- A chain goes on with the other parts. -/
  | chainCons {part : Expr} {rest : List Expr} {size last : Nat} {stream after : TokenStream}
      {forest : List Tree} {outcome : Descent} {failures others : List (Expr × List StreamToken)}
      (first : Descends source part size stream (.matched forest last after) failures)
      (later : Descends source (.chain rest) last after outcome others) :
      Descends source (.chain (part :: rest)) size stream (outcome.after forest)
        (failures ++ others)
  /-- A chain fails with a part. -/
  | chainFailed {part : Expr} (rest : List Expr) {size : Nat} {stream after : TokenStream}
      {failures : List (Expr × List StreamToken)}
      (first : Descends source part size stream (.failed after) failures) :
      Descends source (.chain (part :: rest)) size stream (.failed after) failures
  /-- A choice without parts fails. -/
  | choiceNil (size : Nat) (stream : TokenStream) :
      Descends source (.choice []) size stream (.failed stream) []
  /-- A choice is committed to a part that matches. -/
  | choiceMatched {part : Expr} (rest : List Expr) {size last : Nat} {stream after : TokenStream}
      {forest : List Tree} {failures : List (Expr × List StreamToken)}
      (first : Descends source part size stream (.matched forest last after) failures) :
      Descends source (.choice (part :: rest)) size stream (.matched forest last after) failures
  /-- A choice passes over a part that fails, and goes on where it stopped. -/
  | choiceNext {part : Expr} {rest : List Expr} {size : Nat} {stream after : TokenStream}
      {outcome : Descent} {failures others : List (Expr × List StreamToken)}
      (first : Descends source part size stream (.failed after) failures)
      (later : Descends source (.choice rest) size after outcome others) :
      Descends source (.choice (part :: rest)) size stream outcome
        ((part, stream.upTo after) :: others)
  /-- An optional expression matches with its body. -/
  | optionalMatched {body : Expr} {size last : Nat} {stream after : TokenStream}
      {forest : List Tree} {failures : List (Expr × List StreamToken)}
      (inner : Descends source body size stream (.matched forest last after) failures) :
      Descends source (.optional body) size stream (.matched forest last after) failures
  /-- An optional expression passes over a body that fails. -/
  | optionalFailed {body : Expr} {size : Nat} {stream after : TokenStream}
      {failures : List (Expr × List StreamToken)}
      (inner : Descends source body size stream (.failed after) failures) :
      Descends source (.optional body) size stream (.matched [] size after)
        [(body, stream.upTo after)]
  /-- A repetition passes over a body that fails, and ends. -/
  | manyFailed {body : Expr} {size : Nat} {stream after : TokenStream}
      {failures : List (Expr × List StreamToken)}
      (inner : Descends source body size stream (.failed after) failures) :
      Descends source (.zeroOrMore body) size stream (.matched [] size after)
        [(body, stream.upTo after)]
  /-- A repetition ends if its body takes no token. -/
  | manyIdle {body : Expr} {size last : Nat} {stream after : TokenStream} {forest : List Tree}
      {failures : List (Expr × List StreamToken)}
      (inner : Descends source body size stream (.matched forest last after) failures)
      (idle : ¬ stream.position < after.position) :
      Descends source (.zeroOrMore body) size stream (.matched [] size after) failures
  /-- A repetition goes on if its body takes a token. -/
  | manyAgain {body : Expr} {size last : Nat} {stream after : TokenStream} {forest : List Tree}
      {outcome : Descent} {failures others : List (Expr × List StreamToken)}
      (inner : Descends source body size stream (.matched forest last after) failures)
      (moved : stream.position < after.position)
      (later : Descends source (.zeroOrMore body) last after outcome others) :
      Descends source (.zeroOrMore body) size stream (outcome.after forest) (failures ++ others)
  /-- A repetition that is not empty goes on after its body. -/
  | oneOrMore {body : Expr} {size last : Nat} {stream after : TokenStream} {forest : List Tree}
      {outcome : Descent} {failures others : List (Expr × List StreamToken)}
      (inner : Descends source body size stream (.matched forest last after) failures)
      (later : Descends source (.zeroOrMore body) last after outcome others) :
      Descends source (.oneOrMore body) size stream (outcome.after forest) (failures ++ others)
  /-- A repetition that is not empty fails with its body. -/
  | oneOrMoreFailed {body : Expr} {size : Nat} {stream after : TokenStream}
      {failures : List (Expr × List StreamToken)}
      (inner : Descends source body size stream (.failed after) failures) :
      Descends source (.oneOrMore body) size stream (.failed after) failures

variable {source : EbnfGrammar} {size : Nat} {expr : Expr}
  {stream : TokenStream} {outcome : Descent} {failures : List (Expr × List StreamToken)}

mutual

/-- Every outcome of `descend` is the outcome of a run. -/
theorem descends_of_descend : ∀ {fuel : Nat} {expr : Expr} {size : Nat} {stream : TokenStream}
    {outcome : Descent}, source.descend fuel expr size stream = some outcome →
    ∃ failures, source.Descends expr size stream outcome failures
  | 0, _, _, _, _, found => by
    rw [descend] at found
    cases found
  | fuel + 1, .terminal s, size, stream, _, found => by
    rw [descend, Option.some.injEq] at found
    subst found
    exact ⟨_, .terminal s size stream⟩
  | fuel + 1, .nonterminal s, size, stream, outcome, found => by
    rw [descend] at found
    cases given : source.expression? s with
    | none =>
      simp only [given, Option.some.injEq] at found
      subst found
      exact ⟨_, .undefined size stream given⟩
    | some body =>
      simp only [given] at found
      cases tried : source.descend fuel body size stream with
      | none => simp [tried] at found
      | some result =>
        obtain ⟨failures, inner⟩ := descends_of_descend tried
        cases result with
        | matched forest last after =>
          simp only [tried, Option.some.injEq] at found
          subst found
          exact ⟨_, .nonterminal given inner⟩
        | failed after =>
          simp only [tried, Option.some.injEq] at found
          subst found
          exact ⟨_, .nonterminalFailed given inner⟩
  | fuel + 1, .chain parts, size, stream, outcome, found => by
    rw [descend] at found
    exact descends_of_descendChain found
  | fuel + 1, .choice parts, size, stream, outcome, found => by
    rw [descend] at found
    exact descends_of_descendChoice found
  | fuel + 1, .optional body, size, stream, outcome, found => by
    rw [descend] at found
    cases tried : source.descend fuel body size stream with
    | none => simp [tried] at found
    | some result =>
      obtain ⟨failures, inner⟩ := descends_of_descend tried
      cases result with
      | matched forest last after =>
        simp only [tried, Option.some.injEq] at found
        subst found
        exact ⟨_, .optionalMatched inner⟩
      | failed after =>
        simp only [tried, Option.some.injEq] at found
        subst found
        exact ⟨_, .optionalFailed inner⟩
  | fuel + 1, .zeroOrMore body, size, stream, outcome, found => by
    rw [descend] at found
    exact descends_of_descendMany found
  | fuel + 1, .oneOrMore body, size, stream, outcome, found => by
    rw [descend] at found
    cases tried : source.descend fuel body size stream with
    | none => simp [tried] at found
    | some result =>
      obtain ⟨failures, inner⟩ := descends_of_descend tried
      cases result with
      | matched forest last after =>
        simp only [tried, Option.map_eq_some_iff] at found
        obtain ⟨further, again, rfl⟩ := found
        obtain ⟨others, later⟩ := descends_of_descendMany again
        exact ⟨_, .oneOrMore inner later⟩
      | failed after =>
        simp only [tried, Option.some.injEq] at found
        subst found
        exact ⟨_, .oneOrMoreFailed inner⟩

theorem descends_of_descendChain : ∀ {fuel : Nat} {parts : List Expr} {size : Nat}
    {stream : TokenStream} {outcome : Descent},
    source.descendChain fuel parts size stream = some outcome →
    ∃ failures, source.Descends (.chain parts) size stream outcome failures
  | 0, _, _, _, _, found => by
    rw [descendChain] at found
    cases found
  | fuel + 1, [], size, stream, _, found => by
    rw [descendChain, Option.some.injEq] at found
    subst found
    exact ⟨_, .chainNil size stream⟩
  | fuel + 1, part :: rest, size, stream, outcome, found => by
    rw [descendChain] at found
    cases tried : source.descend fuel part size stream with
    | none => simp [tried] at found
    | some result =>
      obtain ⟨failures, first⟩ := descends_of_descend tried
      cases result with
      | matched forest last after =>
        simp only [tried, Option.map_eq_some_iff] at found
        obtain ⟨further, others, rfl⟩ := found
        obtain ⟨_, later⟩ := descends_of_descendChain others
        exact ⟨_, .chainCons first later⟩
      | failed after =>
        simp only [tried, Option.some.injEq] at found
        subst found
        exact ⟨_, .chainFailed rest first⟩

theorem descends_of_descendChoice : ∀ {fuel : Nat} {parts : List Expr} {size : Nat}
    {stream : TokenStream} {outcome : Descent},
    source.descendChoice fuel parts size stream = some outcome →
    ∃ failures, source.Descends (.choice parts) size stream outcome failures
  | 0, _, _, _, _, found => by
    rw [descendChoice] at found
    cases found
  | fuel + 1, [], size, stream, _, found => by
    rw [descendChoice, Option.some.injEq] at found
    subst found
    exact ⟨_, .choiceNil size stream⟩
  | fuel + 1, part :: rest, size, stream, outcome, found => by
    rw [descendChoice] at found
    cases tried : source.descend fuel part size stream with
    | none => simp [tried] at found
    | some result =>
      obtain ⟨failures, first⟩ := descends_of_descend tried
      cases result with
      | matched forest last after =>
        simp only [tried, Option.some.injEq] at found
        subst found
        exact ⟨_, .choiceMatched rest first⟩
      | failed after =>
        simp only [tried] at found
        obtain ⟨_, later⟩ := descends_of_descendChoice found
        exact ⟨_, .choiceNext first later⟩

theorem descends_of_descendMany : ∀ {fuel : Nat} {body : Expr} {size : Nat}
    {stream : TokenStream} {outcome : Descent},
    source.descendMany fuel body size stream = some outcome →
    ∃ failures, source.Descends (.zeroOrMore body) size stream outcome failures
  | 0, _, _, _, _, found => by
    rw [descendMany] at found
    cases found
  | fuel + 1, body, size, stream, outcome, found => by
    rw [descendMany] at found
    cases tried : source.descend fuel body size stream with
    | none => simp [tried] at found
    | some result =>
      obtain ⟨failures, inner⟩ := descends_of_descend tried
      cases result with
      | matched forest last after =>
        simp only [tried] at found
        split at found
        · next moved =>
          obtain ⟨further, again, rfl⟩ := Option.map_eq_some_iff.mp found
          obtain ⟨_, later⟩ := descends_of_descendMany again
          exact ⟨_, .manyAgain inner moved later⟩
        · next idle =>
          rw [Option.some.injEq] at found
          subst found
          exact ⟨_, .manyIdle inner idle⟩
      | failed after =>
        simp only [tried, Option.some.injEq] at found
        subst found
        exact ⟨_, .manyFailed inner⟩

end

/-! ### Terminals -/

/-- A terminal takes a token with its symbol, or the stream stays as it is. -/
theorem takeTerminal_cases (s : Symbol) (size : Nat) (stream : TokenStream) :
    (∃ token after, token.symbol = some s ∧ stream.Advances after [token] ∧
        takeTerminal s size stream =
          .matched [.node size s (some token.token.text) []] (size + 1) after) ∨
      (stream.peekSymbol? ≠ some s ∧ takeTerminal s size stream = .failed stream) := by
  unfold takeTerminal
  split
  · next same =>
    left
    cases left : stream.rest with
    | nil => simp [TokenStream.peekSymbol?, TokenStream.peek?, left] at same
    | cons token rest =>
      have symbol : token.symbol = some s := by
        simpa [TokenStream.peekSymbol?, TokenStream.peek?, left] using same
      have next : stream.next? = some (token, ⟨rest, stream.position + 1⟩) := by
        rw [TokenStream.next?, left]
      exact ⟨token, _, symbol, TokenStream.advances_of_next? next, by rw [next]⟩
  · next differs => exact Or.inr ⟨differs, rfl⟩

/-- A stream only moves forward. -/
theorem Descends.advances (descends : source.Descends expr size stream outcome failures) :
    ∃ taken, stream.Advances outcome.stream taken := by
  induction descends with
  | terminal s size stream =>
    rcases takeTerminal_cases s size stream with ⟨token, after, -, advances, taken⟩ | ⟨-, stays⟩
    · exact ⟨_, by simpa [taken] using advances⟩
    · exact ⟨_, by simpa [stays] using TokenStream.Advances.refl stream⟩
  | undefined size stream => exact ⟨_, .refl stream⟩
  | nonterminal _ _ ih => exact ih
  | nonterminalFailed _ _ ih => exact ih
  | chainNil size stream => exact ⟨_, .refl stream⟩
  | chainCons _ _ ihFirst ihLater =>
    obtain ⟨taken, first⟩ := ihFirst
    obtain ⟨others, later⟩ := ihLater
    exact ⟨_, by simpa using first.trans later⟩
  | chainFailed _ _ ih => exact ih
  | choiceNil size stream => exact ⟨_, .refl stream⟩
  | choiceMatched _ _ ih => exact ih
  | choiceNext _ _ ihFirst ihLater =>
    obtain ⟨taken, first⟩ := ihFirst
    obtain ⟨others, later⟩ := ihLater
    exact ⟨_, first.trans later⟩
  | optionalMatched _ ih => exact ih
  | optionalFailed _ ih => exact ih
  | manyFailed _ ih => exact ih
  | manyIdle _ _ ih => exact ih
  | manyAgain _ _ _ ihInner ihLater =>
    obtain ⟨taken, inner⟩ := ihInner
    obtain ⟨others, later⟩ := ihLater
    exact ⟨_, by simpa using inner.trans later⟩
  | oneOrMore _ _ ihInner ihLater =>
    obtain ⟨taken, inner⟩ := ihInner
    obtain ⟨others, later⟩ := ihLater
    exact ⟨_, by simpa using inner.trans later⟩
  | oneOrMoreFailed _ ih => exact ih

/-- What a part took before it failed. -/
theorem Descends.advances_of_failed {after : TokenStream}
    (descends : source.Descends expr size stream (.failed after) failures) :
    stream.Advances after (stream.upTo after) := by
  obtain ⟨taken, advances⟩ := descends.advances
  rw [Descent.stream_failed] at advances
  rwa [advances.upTo_eq]

end EbnfGrammar

end Predictive
