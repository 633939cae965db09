import Predictive.Proofs.Parse.Expectation

/-!
# Which expected terminals are accepted

The terminals that a failed parse expected are rows of the table. What begins an alternative is in
the row of its nonterminal, and it is matched if it comes instead of the lookahead. But the row of a
nonterminal that can vanish has also what can follow it, wherever it stands, and what is waiting
behind it may be something else. So an expected terminal is accepted, or it can follow a
nonterminal that can vanish and whose row was looked at since the last match. The lookahead that was
rejected is never accepted, and it is expected if it can follow such a nonterminal.

A terminal is accepted after some tokens exactly if it can come after them in a derivation. The
machine does not stop in front of a token that can come next: the table has an entry for it, and a
success is at the end of input. Conversely, what was matched begins something that is derived.

## Main definitions

* `ParseResult.consulted` — the nonterminals whose rows were looked at since the last match
* `Grammar.AcceptsNext` — a strict parse gets past a terminal
* `Grammar.Collects` — expected terminals, and the rows that they come from
* `Machine.Ends` — a parse and the state in which it stops

## Main results

* `ParseTable.mem_lookaheads_iff` — the row of a nonterminal
* `Machine.Ends.isPrefix` — a strict parse matches the beginning of what is derived
* `Grammar.acceptsNext_iff_continues` — a terminal is accepted if it can come next in a derivation
* `Grammar.parse_expected_iff` — which terminals a failed parse expected
* `Grammar.not_parse_expected_accepted` — some of them are not accepted
-/

namespace Predictive

/-- The symbols that were expanded since the last match, given the events with the latest first. -/
def Event.expandedLast : List Event → List Symbol
  | .expand node _ _ _ :: earlier => node.symbol :: expandedLast earlier
  | _ => []

/-- The nonterminal for which there was no entry in the table, if a parse failed for that. -/
def Verdict.missed : Verdict → List Symbol
  | .failure ⟨.noTableEntry _, _, node :: _⟩ => [node.symbol]
  | _ => []

/-- The nonterminals whose rows were looked at since the last match: those that were expanded, and
the one for which there was no entry. -/
def ParseResult.consulted (result : ParseResult) : List Symbol :=
  result.verdict.missed ++ Event.expandedLast result.events.reverse

/-- A strict parse of some tokens and then a terminal gets past the terminal. -/
structure Grammar.AcceptsNext (grammar : Grammar) (front : List Token) (t : Symbol) : Prop where
  /-- A token that is read as the terminal is matched, whatever comes after it. -/
  matched : t ≠ .eof → ∀ token, grammar.terminalOf? token = some t → ∀ more ending,
    ∃ result, grammar.parse (ParseTable.ofGrammar grammar) true ⟨front ++ token :: more, ending⟩ =
        some result ∧
      front ++ [token] <+: (result.events.filterMap Event.shifted?).map Prod.snd
  /-- The parse succeeds if the terminal is the end of input. -/
  ended : t = .eof → ∀ text,
    ∃ result, grammar.parse (ParseTable.ofGrammar grammar) true ⟨front, .eof text⟩ =
        some result ∧ result.verdict = .success

/-! ### Rows -/

/-- The row of a nonterminal has the terminals that begin what it derives, and if it can vanish also
those that can follow it. -/
theorem ParseTable.mem_lookaheads_iff {grammar : Grammar} {s t : Symbol}
    (wellFormed : grammar.WellFormed) (deterministic : (ofGrammar grammar).isLL1 = true)
    (nonterminal : grammar.isTerminal s = false) :
    t ∈ (ofGrammar grammar).lookaheads s ↔ grammar.isTerminal t = true ∧
      ((∃ rest, grammar.Derives [s] (t :: rest)) ∨
        grammar.Derives [s] [] ∧ grammar.CanFollow s t) := by
  rw [mem_lookaheads, Option.isSome_iff_exists]
  constructor
  · rintro ⟨alternative, found⟩
    obtain ⟨rule, terminal, predicts⟩ := predicts_of_get? wellFormed found
    refine ⟨terminal, predicts.imp ?_ ?_⟩
    · exact fun ⟨rest, begins⟩ => ⟨rest, rule.derives.trans begins⟩
    · exact fun ⟨vanishes, follows⟩ => ⟨rule.derives.trans vanishes, follows⟩
  · rintro ⟨terminal, predicts⟩
    -- the first step of a derivation from a nonterminal expands it
    have expanded : ∀ {word}, grammar.Derives [s] word → word ≠ [s] →
        ∃ alternative, grammar.HasRule s alternative ∧
          grammar.Derives alternative.symbols word := by
      intro word derives proper
      rcases Grammar.derives_cons_iff.mp derives with
        ⟨rest, rfl, later⟩ | ⟨alternative, first, second, rule, rfl, inner, later⟩
      · rw [Grammar.derives_nil_iff.mp later] at proper
        exact absurd rfl proper
      · rw [Grammar.derives_nil_iff.mp later, List.append_nil]
        exact ⟨alternative, rule, inner⟩
    rcases predicts with ⟨rest, begins⟩ | ⟨vanishes, follows⟩
    · obtain ⟨alternative, rule, inner⟩ := expanded begins fun same => by
        rw [(List.cons.inj same).1, nonterminal] at terminal
        cases terminal
      exact ⟨alternative, get?_of_predicts wellFormed deterministic rule
        ⟨terminal, Or.inl ⟨rest, inner⟩⟩⟩
    · obtain ⟨alternative, rule, inner⟩ := expanded vanishes nofun
      exact ⟨alternative, get?_of_predicts wellFormed deterministic rule
        ⟨terminal, Or.inr ⟨inner, follows⟩⟩⟩

namespace Grammar

variable {grammar : Grammar} {front rows : List Symbol} {expected : SymbolSet} {s t : Symbol}

/-- The expected terminals after some matched ones are rows of the table, and terminals that can
come next. -/
structure Collects (grammar : Grammar) (front rows : List Symbol) (expected : SymbolSet) :
    Prop where
  /-- What is expected can come next, or it is in one of the rows. -/
  listed : ∀ t ∈ expected, grammar.isTerminal t = true ∧ grammar.Continues front t ∨
    ∃ s ∈ rows, t ∈ (ParseTable.ofGrammar grammar).lookaheads s
  /-- All of each row is expected. -/
  whole : ∀ s ∈ rows, ∀ t ∈ (ParseTable.ofGrammar grammar).lookaheads s, t ∈ expected
  /-- A row is that of a nonterminal that comes right after what was matched. -/
  leftmost : ∀ s ∈ rows, grammar.isTerminal s = false ∧
    ∃ rest, grammar.Derives [grammar.start, .eof] (front ++ s :: rest)

theorem collects_empty (grammar : Grammar) (front : List Symbol) :
    grammar.Collects front [] .empty where
  listed := fun t member => absurd member (SymbolSet.not_mem_empty t)
  whole := nofun
  leftmost := nofun

/-- A terminal that can come next is added. -/
theorem Collects.insert (collects : grammar.Collects front rows expected)
    (terminal : grammar.isTerminal t = true) (continues : grammar.Continues front t) :
    grammar.Collects front rows (expected.insert t) where
  listed := by
    intro other member
    rcases SymbolSet.mem_insert.mp member with before | rfl
    · exact collects.listed other before
    · exact Or.inl ⟨terminal, continues⟩
  whole := fun s row t member => SymbolSet.mem_insert.mpr (Or.inl (collects.whole s row t member))
  leftmost := collects.leftmost

/-- The row of a nonterminal is added. -/
theorem Collects.union (collects : grammar.Collects front rows expected)
    (nonterminal : grammar.isTerminal s = false)
    (reached : ∃ rest, grammar.Derives [grammar.start, .eof] (front ++ s :: rest)) :
    grammar.Collects front (s :: rows)
      (expected.union ((ParseTable.ofGrammar grammar).lookaheads s)) where
  listed := by
    intro t member
    rcases SymbolSet.mem_union.mp member with before | row
    · exact (collects.listed t before).imp_right fun ⟨other, earlier, held⟩ =>
        ⟨other, List.mem_cons_of_mem s earlier, held⟩
    · exact Or.inr ⟨s, List.mem_cons_self, row⟩
  whole := List.forall_mem_cons.mpr
    ⟨fun _ member => SymbolSet.mem_union.mpr (Or.inr member),
      fun other row t member =>
        SymbolSet.mem_union.mpr (Or.inl (collects.whole other row t member))⟩
  leftmost := List.forall_mem_cons.mpr ⟨⟨nonterminal, reached⟩, collects.leftmost⟩

/-- What is in a row begins its nonterminal, so that it can come next, or it can follow the
nonterminal. -/
theorem Collects.mem_iff (wellFormed : grammar.WellFormed)
    (deterministic : (ParseTable.ofGrammar grammar).isLL1 = true)
    (collects : grammar.Collects front rows expected)
    (complete : grammar.isTerminal t = true → grammar.Continues front t → t ∈ expected) :
    t ∈ expected ↔ grammar.isTerminal t = true ∧
      (grammar.Continues front t ∨
        ∃ s ∈ rows, grammar.Derives [s] [] ∧ grammar.CanFollow s t) := by
  constructor
  · intro member
    rcases collects.listed t member with ⟨terminal, continues⟩ | ⟨s, row, held⟩
    · exact ⟨terminal, Or.inl continues⟩
    · obtain ⟨nonterminal, rest, reached⟩ := collects.leftmost s row
      obtain ⟨terminal, ⟨behind, begins⟩ | follows⟩ :=
        (ParseTable.mem_lookaheads_iff wellFormed deterministic nonterminal).mp held
      · exact ⟨terminal, Or.inl ⟨behind ++ rest,
          reached.trans ((begins.append_right rest).append_left front)⟩⟩
      · exact ⟨terminal, Or.inr ⟨s, row, follows⟩⟩
  · rintro ⟨terminal, continues | ⟨s, row, follows⟩⟩
    · exact complete terminal continues
    · exact collects.whole s row t ((ParseTable.mem_lookaheads_iff wellFormed deterministic
        (collects.leftmost s row).1).mpr ⟨terminal, Or.inr follows⟩)

end Grammar

namespace Machine

variable {grammar : Grammar} {strict : Bool} {machine next : Machine} {result : ParseResult}
  {input : Input} {ending : Ending} {front more : List Token} {word rest : List Symbol}
  {t : Symbol}

/-! ### Steps -/

/-- The symbols that were expanded since the last match. -/
def consulted (machine : Machine) : List Symbol := Event.expandedLast machine.events

/-- Every move collects what it expects: a match starts anew, and an expansion adds a row. -/
theorem Moves.collects (covers : Covers grammar machine)
    (collects : grammar.Collects (machine.shifted.map Prod.fst) machine.consulted machine.expected)
    (moves : Moves grammar (ParseTable.ofGrammar grammar) machine next) :
    grammar.Collects (next.shifted.map Prod.fst) next.consulted next.expected := by
  cases moves with
  | shift => exact Grammar.collects_empty grammar _
  | @expand node others name s token alternative waiting _ _ _ nonterminal =>
    rw [shifted_expand]
    have reached := covers.reached
    rw [form, waiting, List.map_cons, List.cons_append] at reached
    exact collects.union nonterminal ⟨_, reached⟩

/-- A failure that is not the lexer's has collected what it expects. -/
theorem Stops.collects (covers : Covers grammar machine)
    (unended : Symbol.eof ∉ machine.waiting.map Pending.symbol)
    (collects : grammar.Collects (machine.shifted.map Prod.fst) machine.consulted machine.expected)
    (stops : Stops grammar (ParseTable.ofGrammar grammar) strict machine result)
    {failure : Failure} (failed : result.verdict = .failure failure)
    (unlexical : ∀ error, failure.cause ≠ .lexicalError error) :
    grammar.Collects (machine.shifted.map Prod.fst) result.consulted result.expected := by
  have reached := covers.reached
  cases stops with
  | @lexicalError error _ =>
    cases failed
    exact absurd rfl (unlexical error)
  -- the end of input or the waiting terminal is added, which comes right after what was matched
  | @finish name ahead token derived read =>
    rw [form, waiting_eq_nil unended derived] at reached
    unfold Machine.finish at failed ⊢
    split at failed
    · next asked =>
      rw [if_pos asked]
      simpa [ParseResult.consulted, fail, halt, Verdict.missed, consulted] using
        collects.insert Grammar.isTerminal_eof ⟨[], reached⟩
    · cases failed
  | unexpected waiting _ _ _ terminal =>
    rw [form, waiting, List.map_cons, List.cons_append] at reached
    simpa [ParseResult.consulted, fail, halt, Verdict.missed, consulted] using
      collects.insert terminal ⟨_, reached⟩
  -- the row without an entry is the last one
  | noEntry waiting _ _ _ nonterminal =>
    rw [form, waiting, List.map_cons, List.cons_append] at reached
    simpa [ParseResult.consulted, fail, halt, Verdict.missed, consulted, waiting] using
      collects.union nonterminal ⟨_, reached⟩
  | fault => cases failed

/-- A lookahead that can come next is not rejected. -/
theorem Stops.not_continues (wellFormed : grammar.WellFormed)
    (deterministic : (ParseTable.ofGrammar grammar).isLL1 = true) (covers : Covers grammar machine)
    (unended : Symbol.eof ∉ machine.waiting.map Pending.symbol)
    (stops : Stops grammar (ParseTable.ofGrammar grammar) strict machine result)
    {failure : Failure} (failed : result.verdict = .failure failure)
    (ahead : grammar.ahead? machine.input = some t) :
    ¬ grammar.Continues (machine.shifted.map Prod.fst) t := by
  rintro ⟨rest, derives⟩
  -- the lookahead then begins what is waiting, which each reason to stop denies
  have begins := covers.ahead ahead derives
  have reached := covers.reached
  cases stops with
  | lexicalError read => simp [Grammar.ahead?, read] at ahead
  | finish derived read =>
    rw [form, waiting_eq_nil unended derived] at begins
    obtain ⟨_, same, -⟩ :=
      (wellFormed.derives_terminal_cons_iff Grammar.isTerminal_eof).mp begins
    obtain rfl : some t = _ := by simpa [Grammar.ahead?, read] using ahead.symm
    rw [(List.cons.inj same).1] at failed
    simp [Machine.finish, halt] at failed
  | unexpected waiting _ read differs terminal =>
    rw [form, waiting, List.map_cons, List.cons_append] at begins
    obtain ⟨_, same, -⟩ := (wellFormed.derives_terminal_cons_iff terminal).mp begins
    rw [Grammar.ahead?, read, (List.cons.inj same).1] at ahead
    exact differs ahead
  | noEntry waiting _ read _ nonterminal absent =>
    rw [form, waiting, List.map_cons, List.cons_append] at begins reached
    rw [Grammar.ahead?, read] at ahead
    subst ahead
    obtain ⟨alternative, rule, predicts, -⟩ := Grammar.exists_predicts reached nonterminal
      (Grammar.isTerminal_of_lookahead read) begins
    have found := ParseTable.get?_of_predicts wellFormed deterministic rule predicts
    rw [absent t rfl] at found
    cases found
  | fault => cases failed

/-! ### Parses -/

/-- A parse, and the state in which it stops. -/
structure Ends (grammar : Grammar) (strict : Bool) (input : Input) (machine : Machine)
    (result : ParseResult) : Prop where
  /-- The parse has the result. -/
  parsed : grammar.parse (ParseTable.ofGrammar grammar) strict input = some result
  /-- The machine can come to the state. -/
  reaches : Reaches grammar (ParseTable.ofGrammar grammar) input machine
  /-- The machine stops in it with the result. -/
  stops : Stops grammar (ParseTable.ofGrammar grammar) strict machine result
  /-- The result shows the tokens that were matched. -/
  shifted : result.events.filterMap Event.shifted? = machine.shifted
  /-- The tokens are the matched ones and those that are left. -/
  builds : Builds grammar input.tokens machine
  /-- What can come next is expected, or begins what is waiting. -/
  covers : Covers grammar machine
  /-- What is expected was collected since the last match. -/
  collects : grammar.Collects (machine.shifted.map Prod.fst) machine.consulted machine.expected
  /-- The end of input is not waiting. -/
  unended : Symbol.eof ∉ machine.waiting.map Pending.symbol

/-- A parse stops, if the table has no conflicts and no alternative has the end of input. -/
theorem exists_ends (wellFormed : grammar.WellFormed)
    (unmentioned : ∀ {s alternative}, grammar.HasRule s alternative →
      Symbol.eof ∉ alternative.symbols)
    (deterministic : (ParseTable.ofGrammar grammar).isLL1 = true) (strict : Bool) (input : Input) :
    ∃ machine result, Ends grammar strict input machine result := by
  have rules : ∀ {s t alternative}, (ParseTable.ofGrammar grammar).get? s t = some alternative →
      grammar.HasRule s alternative := fun found => ParseTable.hasRule_of_get?_build found
  obtain ⟨moves, result, halts⟩ := @halts_of_unfolds grammar _ strict
    (Grammar.unfolds_of_isLL1 wellFormed deterministic) (.initial grammar.start input)
  obtain ⟨last, reaches, stops⟩ := halts.exists_reaches
  have covers : ∀ {machine}, Reaches grammar (ParseTable.ofGrammar grammar) input machine →
      Covers grammar machine := Covers.of_reaches wellFormed deterministic
  refine ⟨last, result, (Grammar.parse_eq_some_iff rules).mpr ⟨moves, halts⟩, reaches, stops, ?_,
    .of_reaches rules reaches, covers reaches, ?_,
    waiting_ne_eof_of_reaches wellFormed.start_ne_eof rules unmentioned reaches⟩
  · rw [(stops.shows wellFormed rules).1, Machine.shifted]
  -- the induction is on the moves, and each of them needs that its first state is covered
  · clear stops halts
    induction reaches with
    | refl => exact Grammar.collects_empty grammar _
    | tail earlier moves ih => exact moves.collects (covers earlier) ih

namespace Ends

/-- A parse succeeds if the lookahead in the last state can come next. -/
theorem success (wellFormed : grammar.WellFormed)
    (deterministic : (ParseTable.ofGrammar grammar).isLL1 = true)
    (ends : Ends grammar strict input machine result)
    (ahead : grammar.ahead? machine.input = some t)
    (continues : grammar.Continues (machine.shifted.map Prod.fst) t) :
    result.verdict = .success := by
  obtain ⟨-, -, -, ⟨success, -⟩ | ⟨failure, failed, -⟩⟩ :=
    ends.stops.shows wellFormed fun found => ParseTable.hasRule_of_get?_build found
  · exact success
  · exact absurd continues
      (ends.stops.not_continues wellFormed deterministic ends.covers ends.unended failed ahead)

/-- A strict parse succeeds at the end of input, with nothing left to be derived. -/
theorem ahead_eq_eof (ends : Ends grammar true input machine result)
    (success : result.verdict = .success) :
    machine.waiting = [] ∧ grammar.ahead? machine.input = some .eof := by
  obtain ⟨derived, -, ended⟩ := ends.stops.of_success success
  obtain ⟨name, token, read⟩ := ended rfl
  exact ⟨waiting_eq_nil ends.unended derived, by rw [Grammar.ahead?, read]⟩

/-- The matched tokens have been read as the matched terminals. -/
theorem map_terminalOf? (ends : Ends grammar strict input machine result) :
    (machine.shifted.map Prod.fst).map some =
      (machine.shifted.map Prod.snd).map grammar.terminalOf? := by
  rw [List.map_map, List.map_map]
  exact List.map_congr_left fun leaf listed => (ends.builds.read leaf listed).symm

/-- A strict parse matches the first tokens of an input if they are the beginning of something
derived: the token that it would stop at can come next. -/
theorem isPrefix (wellFormed : grammar.WellFormed)
    (deterministic : (ParseTable.ofGrammar grammar).isLL1 = true)
    (ends : Ends grammar true input machine result) (tokens : input.tokens = front ++ more)
    (spelled : word.map some = front.map grammar.terminalOf?) (proper : Symbol.eof ∉ word)
    (derives : grammar.Derives [grammar.start, .eof] (word ++ rest)) :
    front <+: machine.shifted.map Prod.snd := by
  -- the parse has got past the tokens, or it stops in front of one of them
  rcases List.append_eq_append_iff.mp (tokens.symm.trans ends.builds.consumed) with
    ⟨matched, shifted, -⟩ | ⟨left, rfl, remaining⟩
  · exact ⟨matched, shifted.symm⟩
  · cases left with
    | nil => rw [List.append_nil]
    | cons token others =>
      rw [List.map_append, ← ends.map_terminalOf?] at spelled
      obtain ⟨before, after, rfl, first, second⟩ := List.map_eq_append_iff.mp spelled
      obtain rfl := List.map_injective_iff.mpr (Option.some_injective Symbol) first
      obtain ⟨t, behind, rfl, read, -⟩ := List.map_eq_cons_iff.mp second
      have ahead : grammar.ahead? machine.input = some t := by
        rw [Grammar.ahead?_eq_terminalOf? remaining, read]
      have continues : grammar.Continues (machine.shifted.map Prod.fst) t :=
        ⟨behind ++ rest, by simpa using derives⟩
      -- it does not stop there with a failure, and a success is at the end of input
      have last := (ends.ahead_eq_eof
        (ends.success wellFormed deterministic ahead continues)).2
      rw [ahead, Option.some.injEq] at last
      exact absurd (by simp [last]) proper

/-- The terminals of the first matched tokens are the first matched terminals. -/
theorem isPrefix_terminals (ends : Ends grammar strict input machine result)
    (spelled : word.map some = front.map grammar.terminalOf?)
    (matched : front <+: machine.shifted.map Prod.snd) :
    word <+: machine.shifted.map Prod.fst := by
  have terminals := matched.map grammar.terminalOf?
  rw [← spelled, ← ends.map_terminalOf?] at terminals
  exact (List.prefix_map_iff_of_injective (Option.some_injective Symbol)).mp terminals

/-- A parse that has matched all tokens is at the end of input. -/
theorem ahead_of_isPrefix {text : String}
    (ends : Ends grammar strict ⟨front, .eof text⟩ machine result)
    (matched : front <+: machine.shifted.map Prod.snd) :
    grammar.ahead? machine.input = some .eof := by
  have consumed := congrArg List.length ends.builds.consumed
  have none : machine.input.tokens = [] := by
    refine List.eq_nil_of_length_eq_zero ?_
    have longer := matched.length_le
    rw [List.length_append] at consumed
    dsimp only at consumed
    omega
  rw [Grammar.ahead?, Grammar.lookahead, none, Grammar.ending_of_reaches ends.reaches]

/-- A parse at the end of input has matched all tokens, if none of them is read as the end of
input. -/
theorem shifted_eq_of_ahead (ends : Ends grammar strict ⟨front, ending⟩ machine result)
    (spelled : word.map some = front.map grammar.terminalOf?) (proper : Symbol.eof ∉ word)
    (ahead : grammar.ahead? machine.input = some .eof) :
    machine.shifted.map Prod.fst = word := by
  have consumed : front = _ := ends.builds.consumed
  rw [consumed, List.map_append, ← ends.map_terminalOf?] at spelled
  cases tokens : machine.input.tokens with
  | nil =>
    rw [tokens, List.map_nil, List.append_nil] at spelled
    exact (List.map_injective_iff.mpr (Option.some_injective Symbol) spelled).symm
  | cons token others =>
    rw [Grammar.ahead?_eq_terminalOf? tokens] at ahead
    have listed : some Symbol.eof ∈ word.map some := by simp [spelled, tokens, ahead]
    exact absurd (by simpa using listed) proper

end Ends

end Machine

namespace Grammar

variable {grammar : Grammar} {front : List Token} {word : List Symbol} {t : Symbol}

section Deterministic

variable (wellFormed : grammar.WellFormed)
  (unmentioned : ∀ {s alternative}, grammar.HasRule s alternative →
    Symbol.eof ∉ alternative.symbols)
  (deterministic : (ParseTable.ofGrammar grammar).isLL1 = true)
  (spelled : word.map some = front.map grammar.terminalOf?) (proper : Symbol.eof ∉ word)

include wellFormed unmentioned deterministic spelled proper

/-- What a parse gets past is at the beginning of what its last state shows to be derived. -/
theorem AcceptsNext.continues (accepts : grammar.AcceptsNext front t)
    (terminal : grammar.isTerminal t = true) : grammar.Continues word t := by
  have ends := Machine.exists_ends wellFormed unmentioned deterministic true
  by_cases last : t = .eof
  · obtain ⟨other, parsed, success⟩ := accepts.ended last ""
    obtain ⟨machine, result, ends⟩ := ends ⟨front, .eof ""⟩
    obtain rfl := Option.some.inj (parsed.symm.trans ends.parsed)
    obtain ⟨done, ahead⟩ := ends.ahead_eq_eof success
    have reached := ends.covers.reached
    rw [ends.shifted_eq_of_ahead spelled proper ahead, Machine.form, done] at reached
    exact ⟨[], last ▸ reached⟩
  -- every terminal has a name, so that there is a token that is read as it
  · obtain ⟨name, named⟩ := NameTable.name?_isSome_of_lt (wellFormed.named (Or.inl terminal))
    have read : grammar.terminalOf? ⟨name, ""⟩ = some t :=
      terminalOf?_eq_some_iff.mpr ⟨named, terminal⟩
    obtain ⟨other, parsed, matched⟩ := accepts.matched last _ read [] (.eof "")
    obtain ⟨machine, result, ends⟩ := ends ⟨front ++ [⟨name, ""⟩], .eof ""⟩
    obtain rfl := Option.some.inj (parsed.symm.trans ends.parsed)
    rw [ends.shifted] at matched
    have longer : (word ++ [t]).map some =
        (front ++ [Token.mk name ""]).map grammar.terminalOf? := by
      simp [spelled, read]
    obtain ⟨behind, same⟩ := ends.isPrefix_terminals longer matched
    have reached := ends.covers.reached
    rw [← same, List.append_assoc, List.append_assoc, List.singleton_append] at reached
    exact ⟨_, reached⟩

/-- A parse gets past what can come next. -/
theorem Continues.acceptsNext (continues : grammar.Continues word t) :
    grammar.AcceptsNext front t := by
  have ends := Machine.exists_ends wellFormed unmentioned deterministic true
  obtain ⟨rest, derives⟩ := continues
  constructor
  · intro other token read more ending
    obtain ⟨machine, result, ends⟩ := ends ⟨front ++ token :: more, ending⟩
    refine ⟨result, ends.parsed, ?_⟩
    rw [ends.shifted]
    rw [List.append_cons] at derives
    refine ends.isPrefix wellFormed deterministic (List.append_cons front token more) ?_ ?_ derives
    · simp [spelled, read]
    · simp [proper, other.symm]
  · rintro rfl text
    obtain ⟨machine, result, ends⟩ := ends ⟨front, .eof text⟩
    refine ⟨result, ends.parsed, ?_⟩
    have all := ends.isPrefix wellFormed deterministic (List.append_nil front).symm spelled proper
      derives
    have ahead := ends.ahead_of_isPrefix all
    rw [← ends.shifted_eq_of_ahead spelled proper ahead] at derives
    exact ends.success wellFormed deterministic ahead ⟨rest, derives⟩

/-- Let some tokens be read as terminals that are not the end of input. A strict parse of them and
then a terminal gets past the terminal exactly if it can come after them. -/
theorem acceptsNext_iff_continues (terminal : grammar.isTerminal t = true) :
    grammar.AcceptsNext front t ↔ grammar.Continues word t :=
  ⟨fun accepts => accepts.continues wellFormed unmentioned deterministic spelled proper terminal,
    fun continues => continues.acceptsNext wellFormed unmentioned deterministic spelled proper⟩

end Deterministic

end Grammar

/-- Which terminals a failed parse expected. Let the table of a grammar have no conflicts, and let
the end of input occur in no alternative. If a parse fails, and not because of the lexer, then it
expected a terminal exactly if a strict parse of the matched tokens and then the terminal gets past
the terminal, or if the terminal can follow a nonterminal that can vanish and whose row was looked
at since the last match. The terminal that was rejected is not one that a strict parse gets past. -/
theorem Grammar.parse_expected_iff {grammar : Grammar} (wellFormed : grammar.WellFormed)
    (unmentioned : ∀ {s alternative}, grammar.HasRule s alternative →
      Symbol.eof ∉ alternative.symbols)
    (deterministic : (ParseTable.ofGrammar grammar).isLL1 = true) (strict : Bool) (input : Input) :
    ∃ result, grammar.parse (ParseTable.ofGrammar grammar) strict input = some result ∧
      ∀ failure, result.verdict = .failure failure →
        (∀ error, failure.cause ≠ .lexicalError error) →
        let front := (result.events.filterMap Event.shifted?).map Prod.snd
        (∀ t, t ∈ result.expected ↔ grammar.isTerminal t = true ∧
          (grammar.AcceptsNext front t ∨
            ∃ s ∈ result.consulted, grammar.Derives [s] [] ∧ grammar.CanFollow s t)) ∧
        ∃ rejected, input.tokens = front ++ rejected ∧
          ∀ t, grammar.ahead? ⟨rejected, input.ending⟩ = some t →
            ¬ grammar.AcceptsNext front t := by
  obtain ⟨machine, result, ends⟩ :=
    Machine.exists_ends wellFormed unmentioned deterministic strict input
  refine ⟨result, ends.parsed, fun failure failed unlexical => ?_⟩
  have proper : Symbol.eof ∉ machine.shifted.map Prod.fst := by
    intro member
    obtain ⟨leaf, listed, same⟩ := List.mem_map.mp member
    exact Machine.ne_eof_of_mem_shifted (Machine.ne_eof_of_reaches ends.reaches) listed same
  have accepts : ∀ {t}, grammar.isTerminal t = true →
      (grammar.AcceptsNext (machine.shifted.map Prod.snd) t ↔
        grammar.Continues (machine.shifted.map Prod.fst) t) :=
    acceptsNext_iff_continues wellFormed unmentioned deterministic ends.map_terminalOf? proper
  rw [ends.shifted]
  refine ⟨fun t => ?_, machine.input.tokens, ends.builds.consumed, fun t ahead => ?_⟩
  · have collects := ends.stops.collects ends.covers ends.unended ends.collects failed unlexical
    rw [collects.mem_iff wellFormed deterministic fun terminal =>
      ends.covers.of_stops wellFormed deterministic ends.unended ends.stops failed unlexical
        terminal]
    exact and_congr_right fun terminal => or_congr_left (accepts terminal).symm
  · rw [← ending_of_reaches ends.reaches] at ahead
    rw [accepts (isTerminal_of_ahead? ahead)]
    exact ends.stops.not_continues wellFormed deterministic ends.covers ends.unended failed ahead

/-- A nonterminal vanishes in front of a lookahead that can follow it elsewhere. The lookahead is
expected, with two other terminals, and it is not accepted. -/
theorem Grammar.parse_expected_iff_elsewhere :
    ∃ grammar, Grammar.ofText "S : l A r | A d ; A : a | ;" = .ok grammar ∧
      ∃ result, grammar.parse (ParseTable.ofGrammar grammar) true
          ⟨[⟨"l", "1"⟩, ⟨"d", "2"⟩], .eof ""⟩ = some result ∧
        result.expected.toList = [⟨5⟩, ⟨6⟩, ⟨7⟩] ∧
        (∀ t ∈ result.expected, grammar.AcceptsNext [⟨"l", "1"⟩] t ∨
          grammar.Derives [⟨3⟩] [] ∧ grammar.CanFollow ⟨3⟩ t) ∧
        ¬ grammar.AcceptsNext [⟨"l", "1"⟩] ⟨6⟩ := by
  obtain ⟨grammar, defined, wellFormed, checked⟩ := Grammar.exists_of_ofText
    "S : l A r | A d ; A : a | ;"
    (fun grammar => (ParseTable.ofGrammar grammar).isLL1 &&
      (grammar.productions.entries.all fun production =>
        production.2.all fun alternative => decide (Symbol.eof ∉ alternative.symbols)) &&
      decide (grammar.ahead? ⟨[⟨"d", "2"⟩], .eof ""⟩ = some ⟨6⟩) &&
      (grammar.parse (ParseTable.ofGrammar grammar) true
        ⟨[⟨"l", "1"⟩, ⟨"d", "2"⟩], .eof ""⟩).any fun result : ParseResult =>
          decide (result.events.filterMap Event.shifted? = [(⟨4⟩, ⟨"l", "1"⟩)] ∧
            result.verdict = .failure ⟨.unexpectedToken ⟨5⟩, "d", [⟨3, ⟨5⟩⟩]⟩ ∧
            result.consulted = [⟨3⟩] ∧ result.expected.toList = [⟨5⟩, ⟨6⟩, ⟨7⟩]))
    (by decide +kernel)
  simp only [Bool.and_eq_true, decide_eq_true_eq, List.all_eq_true] at checked
  obtain ⟨⟨⟨deterministic, entries⟩, ahead⟩, ran⟩ := checked
  obtain ⟨result, parsed, holds⟩ := Grammar.parse_expected_iff wellFormed
    (fun ⟨_, found, member⟩ => entries _ (OrderedMap.mem_entries_iff.mpr found) _ member)
    deterministic true ⟨[⟨"l", "1"⟩, ⟨"d", "2"⟩], .eof ""⟩
  rw [parsed, Option.any_some, decide_eq_true_eq] at ran
  obtain ⟨shifted, failed, consulted, listed⟩ := ran
  obtain ⟨expected, rejected, tokens, refused⟩ := holds _ failed nofun
  rw [shifted] at expected tokens refused
  obtain rfl := (List.cons.inj tokens).2
  refine ⟨grammar, defined, result, parsed, listed, fun t member => ?_, refused _ ahead⟩
  refine ((expected t).mp member).2.imp_right fun ⟨s, row, follows⟩ => ?_
  rw [consulted, List.mem_singleton] at row
  exact row ▸ follows

/-- An expected terminal need not be accepted after the matched tokens, also if every nonterminal is
reached and derives a word. The lookahead that is rejected is expected here. -/
theorem Grammar.not_parse_expected_accepted :
    ∃ grammar, Grammar.ofText "S : l A r | A d ; A : a | ;" = .ok grammar ∧
      (∀ s alternative, grammar.HasRule s alternative → Symbol.eof ∉ alternative.symbols) ∧
      (∀ s, grammar.isNonterminal s = true → grammar.Reaches s ∧
        ∃ word, (∀ t ∈ word, grammar.isTerminal t = true) ∧ grammar.Derives [s] word) ∧
      (ParseTable.ofGrammar grammar).isLL1 = true ∧
      ∃ result failure, grammar.parse (ParseTable.ofGrammar grammar) true
          ⟨[⟨"l", "1"⟩, ⟨"d", "2"⟩], .eof ""⟩ = some result ∧
        result.verdict = .failure failure ∧ failure.cause = .unexpectedToken ⟨5⟩ ∧
        ∃ t ∈ result.expected, grammar.ahead? ⟨[⟨"d", "2"⟩], .eof ""⟩ = some t ∧
          ¬ grammar.AcceptsNext ((result.events.filterMap Event.shifted?).map Prod.snd) t := by
  obtain ⟨grammar, defined, wellFormed, checked⟩ := Grammar.exists_of_ofText
    "S : l A r | A d ; A : a | ;"
    (fun grammar => (ParseTable.ofGrammar grammar).isLL1 &&
      (grammar.productions.entries.all fun production =>
        production.2.all fun alternative => decide (Symbol.eof ∉ alternative.symbols)) &&
      decide (grammar.start = ⟨2⟩ ∧ grammar.nonterminals = [⟨2⟩, ⟨3⟩] ∧
        grammar.alternatives? ⟨2⟩ =
          some [.ofSymbols [⟨4⟩, ⟨3⟩, ⟨5⟩], .ofSymbols [⟨3⟩, ⟨6⟩]] ∧
        grammar.alternatives? ⟨3⟩ = some [.ofSymbols [⟨7⟩], .ofSymbols []] ∧
        grammar.isTerminal ⟨6⟩ = true ∧ grammar.terminalOf? ⟨"d", "2"⟩ = some ⟨6⟩) &&
      (grammar.parse (ParseTable.ofGrammar grammar) true
        ⟨[⟨"l", "1"⟩, ⟨"d", "2"⟩], .eof ""⟩).any fun result : ParseResult =>
          decide (result.events.filterMap Event.shifted? = [(⟨4⟩, ⟨"l", "1"⟩)] ∧
            result.verdict = .failure ⟨.unexpectedToken ⟨5⟩, "d", [⟨3, ⟨5⟩⟩]⟩ ∧
            ⟨6⟩ ∈ result.expected))
    (by decide +kernel)
  simp only [Bool.and_eq_true, decide_eq_true_eq, List.all_eq_true] at checked
  obtain ⟨⟨⟨deterministic, entries⟩, started, nonterminals, outer, inner, terminal, read⟩, ran⟩ :=
    checked
  obtain ⟨result, parsed, checked⟩ := (Option.any_eq_true _ _).mp ran
  obtain ⟨shifted, failed, member⟩ := of_decide_eq_true checked
  have whole : grammar.HasRule ⟨2⟩ (.ofSymbols [⟨3⟩, ⟨6⟩]) := ⟨_, outer, by simp⟩
  have vanishes : grammar.HasRule ⟨3⟩ (.ofSymbols []) := ⟨_, inner, by simp⟩
  have word : grammar.Derives [⟨2⟩] [⟨6⟩] :=
    whole.derives.trans (vanishes.derives.append_right [⟨6⟩])
  refine ⟨grammar, defined, fun s alternative ⟨_, found, member⟩ =>
    entries _ (OrderedMap.mem_entries_iff.mpr found) _ member, fun s nonterminal => ?_,
    deterministic, result, _, parsed, failed, rfl, ⟨6⟩, member,
    (ahead?_eq_terminalOf? rfl).trans read, fun accepts => ?_⟩
  · rw [isNonterminal_iff, nonterminals, List.mem_cons, List.mem_singleton] at nonterminal
    rcases nonterminal with rfl | rfl
    · exact ⟨⟨[], [], by rw [started]; exact .refl _⟩, [⟨6⟩], by simpa using terminal, word⟩
    · exact ⟨⟨[], [⟨6⟩], by rw [started]; exact whole.derives⟩, [], by simp, vanishes.derives⟩
  -- a run on the matched tokens and the lookahead is the one that failed
  · obtain ⟨other, same, matched⟩ := accepts.matched (by decide) _ read [] (.eof "")
    rw [shifted] at same matched
    obtain rfl := Option.some.inj (same.symm.trans parsed)
    rw [shifted] at matched
    exact absurd matched.length_le (by decide)

end Predictive
