import Predictive.Proofs.Descent.Depth
import Predictive.Proofs.Descent.Trees

/-!
# What is left behind a match

Where the start symbol's expression matches, the rest of the stream decides the result of a parse.
If only the end of input is left, the input is accepted. If more is left, the next token is trailing
input. Nothing at all is left where the end of input was taken as well, which a grammar can do that
mentions it. That is reported as trailing input, too, at a position where there is no token.

## Main definitions

* `Expr.terminals` — the terminals that an expression mentions
* `EbnfGrammar.Leaves` — what a match of the start symbol's expression leaves of a stream

## Main results

* `EbnfGrammar.Descends.uses_of_taken` — a token is taken by a terminal that is mentioned
* `EbnfGrammar.Leaves.cases` — what can be left
* `EbnfGrammar.parse_trailing_iff` — when trailing input is reported, and where
-/

namespace Predictive

namespace Expr

mutual

/-- The terminals that an expression mentions. -/
def terminals : Expr → List Symbol
  | .terminal s => [s]
  | .nonterminal _ => []
  | .chain parts => terminalsOfAll parts
  | .choice parts => terminalsOfAll parts
  | .optional body => body.terminals
  | .zeroOrMore body => body.terminals
  | .oneOrMore body => body.terminals

/-- The terminals that a list of expressions mentions. -/
def terminalsOfAll : List Expr → List Symbol
  | [] => []
  | part :: rest => part.terminals ++ terminalsOfAll rest

end

end Expr

namespace EbnfGrammar

variable {source : EbnfGrammar} {expr : Expr} {parts : List Expr} {s : Symbol} {size : Nat}
  {stream after : TokenStream} {outcome : Descent} {failures : List (Expr × List StreamToken)}
  {input : Input}

mutual

/-- The terminals that a used expression mentions are used. -/
theorem Uses.terminal_of_mem : ∀ {expr : Expr}, source.Uses expr → s ∈ expr.terminals →
    source.Uses (.terminal s)
  | .terminal t, uses, member => by
    rw [Expr.terminals, List.mem_singleton] at member
    exact member ▸ uses
  | .nonterminal t, uses, member => by
    rw [Expr.terminals] at member
    cases member
  | .chain parts, uses, member =>
    uses_terminal_of_mem_all (fun _ inside => uses.chain inside) member
  | .choice parts, uses, member =>
    uses_terminal_of_mem_all (fun _ inside => uses.choice inside) member
  | .optional body, uses, member => Uses.terminal_of_mem uses.optional member
  | .zeroOrMore body, uses, member => Uses.terminal_of_mem uses.zeroOrMore member
  | .oneOrMore body, uses, member => Uses.terminal_of_mem uses.oneOrMore member

theorem uses_terminal_of_mem_all : ∀ {parts : List Expr}, (∀ part ∈ parts, source.Uses part) →
    s ∈ Expr.terminalsOfAll parts → source.Uses (.terminal s)
  | [], uses, member => by
    rw [Expr.terminalsOfAll] at member
    cases member
  | part :: rest, uses, member => by
    rw [Expr.terminalsOfAll, List.mem_append] at member
    rw [List.forall_mem_cons] at uses
    rcases member with here | later
    · exact Uses.terminal_of_mem uses.1 here
    · exact uses_terminal_of_mem_all uses.2 later

end

/-- The tokens that are taken are those of terminals that are used. -/
def TakesUsed (source : EbnfGrammar) (stream after : TokenStream) : Prop :=
  ∃ taken, stream.Advances after taken ∧
    ∀ token ∈ taken, ∃ s, token.symbol = some s ∧ source.Uses (.terminal s)

theorem takesUsed_refl (source : EbnfGrammar) (stream : TokenStream) :
    source.TakesUsed stream stream := ⟨[], .refl stream, nofun⟩

theorem TakesUsed.trans {middle : TokenStream} (first : source.TakesUsed stream middle)
    (second : source.TakesUsed middle after) : source.TakesUsed stream after := by
  obtain ⟨taken, front, used⟩ := first
  obtain ⟨others, back, used'⟩ := second
  exact ⟨taken ++ others, front.trans back, List.forall_mem_append.mpr ⟨used, used'⟩⟩

/-- A token is taken by a terminal that the grammar mentions. -/
theorem Descends.uses_of_taken (descends : source.Descends expr size stream outcome failures)
    (used : ∀ s ∈ expr.terminals, source.Uses (.terminal s)) :
    source.TakesUsed stream outcome.stream := by
  induction descends with
  | terminal s size stream =>
    rcases takeTerminal_cases s size stream with
      ⟨token, after, symbol, advances, taken⟩ | ⟨-, stays⟩
    · rw [taken]
      refine ⟨[token], advances, ?_⟩
      rw [List.forall_mem_singleton]
      exact ⟨s, symbol, used s (by simp [Expr.terminals])⟩
    · rw [stays]
      exact takesUsed_refl source stream
  | undefined size stream => exact takesUsed_refl source stream
  | nonterminal found _ ih => exact ih fun s member => (Uses.root found).terminal_of_mem member
  | nonterminalFailed found _ ih =>
    exact ih fun s member => (Uses.root found).terminal_of_mem member
  | chainNil size stream => exact takesUsed_refl source stream
  | chainCons _ _ ihFirst ihLater =>
    rw [Expr.terminals, Expr.terminalsOfAll, List.forall_mem_append] at used
    rw [Descent.stream_after]
    exact (ihFirst used.1).trans (ihLater used.2)
  | chainFailed rest _ ih =>
    rw [Expr.terminals, Expr.terminalsOfAll, List.forall_mem_append] at used
    exact ih used.1
  | choiceNil size stream => exact takesUsed_refl source stream
  | choiceMatched rest _ ih =>
    rw [Expr.terminals, Expr.terminalsOfAll, List.forall_mem_append] at used
    exact ih used.1
  | choiceNext _ _ ihFirst ihLater =>
    rw [Expr.terminals, Expr.terminalsOfAll, List.forall_mem_append] at used
    exact (ihFirst used.1).trans (ihLater used.2)
  | optionalMatched _ ih => exact ih used
  | optionalFailed _ ih => exact ih used
  | manyFailed _ ih => exact ih used
  | manyIdle _ _ ih => exact ih used
  | manyAgain _ _ _ ihInner ihLater =>
    rw [Descent.stream_after]
    exact (ihInner used).trans (ihLater used)
  | oneOrMore _ _ ihInner ihLater =>
    rw [Descent.stream_after]
    exact (ihInner used).trans (ihLater used)
  | oneOrMoreFailed _ ih => exact ih used

/-! ### Whole inputs -/

/-- The start symbol's expression matches at the front of a stream, and this is left of it. -/
def Leaves (source : EbnfGrammar) (stream after : TokenStream) : Prop :=
  ∃ expr forest size failures, source.expression? source.start = some expr ∧
    source.Descends expr 1 stream (.matched forest size after) failures

/-- The end of input is the last token of a stream, and it is nowhere else. -/
theorem exists_of_ofInput (opened : TokenStream.ofInput source.names input = .ok stream) :
    ∃ last, stream.rest = streamTokens source.names input ++ [last] ∧
      last.symbol = some .eof ∧ stream.position = 0 := by
  unfold TokenStream.ofInput at opened
  split at opened
  · cases opened
  · cases opened
    exact ⟨_, rfl, rfl, rfl⟩

/-- What is left: a token that is not the end of input, or the end of input alone, or nothing, where
the grammar mentions the end of input and it was taken. -/
theorem Leaves.cases (leaves : source.Leaves stream after)
    (opened : TokenStream.ofInput source.names input = .ok stream) :
    (∃ token, stream.rest[after.position]? = some token ∧ token.symbol ≠ some .eof ∧
        after.peek? = some token ∧ after.position < input.tokens.length) ∨
      (after.position = input.tokens.length ∧ after.peekSymbol? = some .eof) ∨
      (after.position = input.tokens.length + 1 ∧ after.peek? = none ∧
        source.Uses (.terminal .eof)) := by
  obtain ⟨expr, forest, size, failures, found, descends⟩ := leaves
  obtain ⟨taken, advances, used⟩ :=
    descends.uses_of_taken fun s member => (Uses.root found).terminal_of_mem member
  rw [Descent.stream_matched] at advances
  obtain ⟨last, tokens, ends, start⟩ := exists_of_ofInput opened
  have position := advances.position_eq
  rw [start, Nat.zero_add] at position
  have split := advances.rest_eq
  have counted := advances.length_eq
  rw [tokens, List.length_append, streamTokens, List.length_map, List.length_singleton] at counted
  cases behind : after.rest with
  | nil =>
    -- every token was taken, also the last one
    rw [behind, List.append_nil, tokens] at split
    rw [behind, List.length_nil] at counted
    obtain ⟨s, same, mentioned⟩ := used last (split ▸ by simp)
    obtain rfl := Option.some.inj (ends.symm.trans same)
    exact Or.inr (Or.inr ⟨by omega, by rw [TokenStream.peek?, behind]; rfl, mentioned⟩)
  | cons token others =>
    have next : after.peek? = some token := by rw [TokenStream.peek?, behind]; rfl
    rw [behind] at split counted
    rw [List.length_cons] at counted
    rcases List.eq_nil_or_concat' others with rfl | ⟨front, final, rfl⟩
    · rw [tokens] at split
      obtain ⟨-, same⟩ := List.append_inj' split rfl
      obtain rfl := List.singleton_inj.mp same
      rw [List.length_nil] at counted
      exact Or.inr (Or.inl ⟨by omega, by rw [TokenStream.peekSymbol?, next]; exact ends⟩)
    · have inside : token ∈ streamTokens source.names input := by
        rw [tokens, ← List.cons_append, ← List.append_assoc] at split
        rw [(List.append_inj' split rfl).1]
        simp
      rw [List.length_append, List.length_singleton] at counted
      refine Or.inl ⟨token, ?_, symbol_ne_eof inside, next, by omega⟩
      rw [split, position, List.getElem?_append_right (Nat.le_refl _), Nat.sub_self]
      rfl

/-- The result of a match, which is the result of the parse. -/
theorem Leaves.parse_eq (wellFormed : source.WellFormed) (leaves : source.Leaves stream after)
    (opened : TokenStream.ofInput source.names input = .ok stream) :
    (after.peekSymbol? = some .eof → ∃ tree size, source.parse input = some (.ok (tree, size))) ∧
      (after.peekSymbol? ≠ some .eof →
        source.parse input = some (.error (.trailingInput after.position (foundName after)))) := by
  obtain ⟨expr, forest, size, failures, found, descends⟩ := leaves
  have parsed := (parse_eq_some_iff wellFormed).mpr
    (Or.inr ⟨stream, expr, _, failures, opened, found, descends, rfl⟩)
  rw [conclude] at parsed
  constructor
  · intro ended
    rw [if_pos ended] at parsed
    exact ⟨_, _, parsed⟩
  · intro trailing
    rw [if_neg trailing] at parsed
    exact parsed

theorem length_of_ofInput (opened : TokenStream.ofInput source.names input = .ok stream) :
    stream.rest.length = input.tokens.length + 1 := by
  obtain ⟨last, tokens, -⟩ := exists_of_ofInput opened
  rw [tokens, streamTokens, List.length_append, List.length_map, List.length_singleton]

/-- The end of input is next where its position is reached. -/
theorem Leaves.peekSymbol?_eq_eof_iff (leaves : source.Leaves stream after)
    (opened : TokenStream.ofInput source.names input = .ok stream) :
    after.peekSymbol? = some .eof ↔ after.position = input.tokens.length := by
  rcases leaves.cases opened with
    ⟨token, -, proper, next, less⟩ | ⟨there, ended⟩ | ⟨beyond, none, -⟩
  · rw [TokenStream.peekSymbol?, next]
    exact iff_of_false proper (by omega)
  · exact iff_of_true ended there
  · rw [TokenStream.peekSymbol?, none]
    exact iff_of_false (by simp) (by omega)

/-- What is named where the end of input is not next: the token at the position, or nothing behind
all tokens. -/
theorem Leaves.foundName_iff (leaves : source.Leaves stream after)
    (opened : TokenStream.ofInput source.names input = .ok stream) {found : String} :
    after.peekSymbol? ≠ some .eof ∧ found = foundName after ↔
      (∃ token, stream.rest[after.position]? = some token ∧ token.symbol ≠ some .eof ∧
          found = token.token.name) ∨
        (after.position = stream.rest.length ∧ found = "") := by
  have length := length_of_ofInput opened
  rcases leaves.cases opened with
    ⟨token, there, -, next, less⟩ | ⟨final, ended⟩ | ⟨beyond, none, -⟩
  · have inside : after.position ≠ stream.rest.length := by omega
    rw [TokenStream.peekSymbol?, foundName, next]
    simp [there, inside]
  · obtain ⟨last, tokens, ends, -⟩ := exists_of_ofInput opened
    have there : stream.rest[after.position]? = some last := by
      rw [final, tokens, List.getElem?_append_right (by simp [streamTokens])]
      simp [streamTokens]
    have inside : after.position ≠ stream.rest.length := by omega
    simp [ended, there, ends, inside]
  · have behind : after.position = stream.rest.length := by omega
    rw [TokenStream.peekSymbol?, foundName, none]
    simp [behind]

/-- A parse is successful if the start symbol's expression matches in front of the end of input. -/
theorem parse_eq_ok_iff (wellFormed : source.WellFormed)
    (opened : TokenStream.ofInput source.names input = .ok stream) :
    (∃ tree size, source.parse input = some (.ok (tree, size))) ↔
      ∃ after, source.Leaves stream after ∧ after.peekSymbol? = some .eof := by
  constructor
  · rintro ⟨tree, size, parsed⟩
    obtain ⟨expr, _, forest, after, failures, root, again, descends, ended, -⟩ := parse_cases parsed
    cases opened.symm.trans again
    exact ⟨after, ⟨expr, forest, size, failures, root, descends⟩, ended⟩
  · rintro ⟨after, leaves, ended⟩
    exact (leaves.parse_eq wellFormed opened).1 ended

/-- A parse reports trailing input if the expression matches in front of something else. -/
theorem parse_eq_trailingInput_iff (wellFormed : source.WellFormed)
    (opened : TokenStream.ofInput source.names input = .ok stream) {position : Nat}
    {found : String} :
    source.parse input = some (.error (.trailingInput position found)) ↔
      ∃ after, source.Leaves stream after ∧ position = after.position ∧
        after.peekSymbol? ≠ some .eof ∧ found = foundName after := by
  constructor
  · intro parsed
    rcases (parse_eq_some_iff wellFormed).mp parsed with
      ⟨error, -, lexical⟩ | ⟨_, expr, outcome, failures, again, root, descends, concluded⟩
    · cases lexical
    · cases opened.symm.trans again
      cases outcome with
      | failed after =>
        rw [conclude, noMatch] at concluded
        split at concluded
        · cases concluded
        · cases concluded
      | matched forest size after =>
        rw [conclude] at concluded
        split at concluded
        · cases concluded
        · next trailing =>
          cases concluded
          exact ⟨after, ⟨expr, forest, size, failures, root, descends⟩, rfl, trailing, rfl⟩
  · rintro ⟨after, leaves, rfl, trailing, rfl⟩
    exact (leaves.parse_eq wellFormed opened).2 trailing

/-- Whether an error is the result. -/
def reports (error : DescentError) : Except DescentError (Tree × Nat) → Bool
  | .ok _ => false
  | .error told => decide (told = error)

theorem reports_iff {error : DescentError} {result : Except DescentError (Tree × Nat)} :
    reports error result = true ↔ result = .error error := by
  cases result with
  | ok outcome => simp [reports]
  | error told => simp [reports]

/-- When trailing input is reported, and where. A parse is successful exactly if the start symbol's
expression matches and leaves the end of input. It reports trailing input exactly if the expression
leaves more, which is then the token at the reported position, or if it leaves nothing, so that the
reported position is behind all tokens. The latter takes a grammar that mentions the end of
input. -/
theorem parse_trailing_iff (wellFormed : source.WellFormed)
    (opened : TokenStream.ofInput source.names input = .ok stream) :
    ((∃ tree size, source.parse input = some (.ok (tree, size))) ↔
      ∃ after, source.Leaves stream after ∧ after.position = input.tokens.length) ∧
    (∀ position found, source.parse input = some (.error (.trailingInput position found)) ↔
      ∃ after, source.Leaves stream after ∧ position = after.position ∧
        ((∃ token, stream.rest[position]? = some token ∧ token.symbol ≠ some .eof ∧
            found = token.token.name) ∨
          (position = stream.rest.length ∧ found = ""))) ∧
    (∀ after, source.Leaves stream after →
      after.position = stream.rest.length → source.Uses (.terminal .eof)) := by
  refine ⟨?_, fun position found => ?_, fun after leaves behind => ?_⟩
  · rw [parse_eq_ok_iff wellFormed opened]
    exact exists_congr fun after =>
      and_congr_right fun leaves => leaves.peekSymbol?_eq_eof_iff opened
  · rw [parse_eq_trailingInput_iff wellFormed opened]
    refine exists_congr fun after => and_congr_right fun leaves => and_congr_right fun same => ?_
    rw [same]
    exact leaves.foundName_iff opened
  · have length := length_of_ofInput opened
    rcases leaves.cases opened with ⟨_, -, -, -, less⟩ | ⟨there, -⟩ | ⟨-, -, mentioned⟩
    · omega
    · omega
    · exact mentioned

/-- With the production `S := a EOF?`, the input `a` is taken with its end, and of the input `a a`
a token is left. -/
theorem parse_trailing_iff_optional :
    ∃ source, EbnfDefinition.ofSteps [.terminal "a", .nonterminal "S",
        .rule ⟨3⟩ (.chain [.terminal ⟨2⟩, .optional (.terminal ⟨1⟩)])] = .ok source ∧
      (∃ stream after, TokenStream.ofInput source.names ⟨[⟨"a", "1"⟩], .eof ""⟩ = .ok stream ∧
        source.parse ⟨[⟨"a", "1"⟩], .eof ""⟩ = some (.error (.trailingInput 2 "")) ∧
        source.Leaves stream after ∧ after.position = stream.rest.length) ∧
      ∃ stream token,
        TokenStream.ofInput source.names ⟨[⟨"a", "1"⟩, ⟨"a", "2"⟩], .eof ""⟩ = .ok stream ∧
        source.parse ⟨[⟨"a", "1"⟩, ⟨"a", "2"⟩], .eof ""⟩ =
          some (.error (.trailingInput 1 "a")) ∧
        stream.rest[1]? = some token ∧ token.symbol ≠ some .eof ∧ token.token.name = "a" := by
  obtain ⟨source, defined, wellFormed, passes⟩ := EbnfDefinition.exists_of_ofSteps
    [.terminal "a", .nonterminal "S",
      .rule ⟨3⟩ (.chain [.terminal ⟨2⟩, .optional (.terminal ⟨1⟩)])]
    (fun source =>
      (TokenStream.ofInput source.names ⟨[⟨"a", "1"⟩], .eof ""⟩).toOption.any
        (fun stream : TokenStream => decide (stream.rest.length = 2)) &&
      (TokenStream.ofInput source.names ⟨[⟨"a", "1"⟩, ⟨"a", "2"⟩], .eof ""⟩).toOption.any
        (fun stream : TokenStream => decide (stream.rest.length = 3)) &&
      (source.parse ⟨[⟨"a", "1"⟩], .eof ""⟩).any (reports (.trailingInput 2 "")) &&
      (source.parse ⟨[⟨"a", "1"⟩, ⟨"a", "2"⟩], .eof ""⟩).any (reports (.trailingInput 1 "a")))
    (by decide +kernel)
  simp only [Bool.and_eq_true, Option.any_eq_true, decide_eq_true_eq, reports_iff] at passes
  obtain ⟨⟨⟨⟨stream, opened, length⟩, stream', opened', length'⟩, _, parsed, rfl⟩, _, parsed',
    rfl⟩ := passes
  have opened := toOption_eq_some_iff.mp opened
  have opened' := toOption_eq_some_iff.mp opened'
  obtain ⟨-, reported, -⟩ := parse_trailing_iff wellFormed opened
  obtain ⟨after, leaves, behind, -⟩ := (reported 2 "").mp parsed
  obtain ⟨-, reported', -⟩ := parse_trailing_iff wellFormed opened'
  obtain ⟨_, -, -, shown⟩ := (reported' 1 "a").mp parsed'
  refine ⟨source, defined, ⟨stream, after, opened, parsed, leaves, by omega⟩, stream', ?_⟩
  rcases shown with ⟨token, there, proper, named⟩ | ⟨beyond, -⟩
  · exact ⟨token, opened', parsed', there, proper, named.symm⟩
  · omega

/-- Trailing input is reported where there is none: the production `S := a EOF` takes both tokens of
the input `a`, and the position behind them is told. -/
theorem not_parse_trailing_genuine :
    ¬ ∀ (steps : List EbnfDefinition.Step) (source : EbnfGrammar) (input : Input)
        (stream : TokenStream) (position : Nat) (found : String),
      EbnfDefinition.ofSteps steps = .ok source →
      TokenStream.ofInput source.names input = .ok stream →
      source.parse input = some (.error (.trailingInput position found)) →
      ∃ token, stream.rest[position]? = some token ∧ token.symbol ≠ some .eof := by
  intro genuine
  obtain ⟨source, defined, -, passes⟩ := EbnfDefinition.exists_of_ofSteps
    [.terminal "a", .nonterminal "S", .rule ⟨3⟩ (.chain [.terminal ⟨2⟩, .terminal ⟨1⟩])]
    (fun source =>
      (TokenStream.ofInput source.names ⟨[⟨"a", "1"⟩], .eof ""⟩).toOption.any
        (fun stream : TokenStream => decide (stream.rest.length = 2)) &&
      (source.parse ⟨[⟨"a", "1"⟩], .eof ""⟩).any (reports (.trailingInput 2 "")))
    (by decide +kernel)
  simp only [Bool.and_eq_true, Option.any_eq_true, decide_eq_true_eq, reports_iff] at passes
  obtain ⟨⟨stream, opened, length⟩, result, parsed, rfl⟩ := passes
  obtain ⟨token, there, -⟩ :=
    genuine _ source _ stream 2 "" defined (toOption_eq_some_iff.mp opened) parsed
  rw [← length, List.getElem?_length] at there
  cases there

end EbnfGrammar

end Predictive
