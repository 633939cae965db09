import Predictive.Proofs.Ebnf.WellFormed

/-!
# What expressions match

An expression matches words by what it says: a chain matches one part after the other, a choice
what one of its parts does, and a nonterminal what its expression does. A plain grammar realizes
expressions if it has a symbol for each of them, with the alternatives that the kind of the
expression asks for. Such a symbol derives exactly the words that its expression matches: a
derivation is taken apart along the expressions, and a repetition becomes a right-recursive
production.

## Main definitions

* `EbnfGrammar.Matches` — the words that expressions match one after the other
* `EbnfGrammar.Realizes` — the symbols that stand for expressions in a plain grammar
* `EbnfGrammar.LoweredTo` — a plain grammar in which every expression is realized
* `EbnfGrammar.Expands` — what an expression can be replaced by

## Main results

* `EbnfGrammar.LoweredTo.expands_of_rule` — alternatives stand for what expressions are replaced by
* `EbnfGrammar.LoweredTo.derives_of_matches` — what is matched is derived
* `EbnfGrammar.LoweredTo.matches_of_yields` — what is derived is matched
* `EbnfGrammar.LoweredTo.matches_iff_derives` — a nonterminal matches what it derives
-/

namespace Predictive

/-- A symbol derives the symbols that one of its alternatives was made of. -/
theorem Grammar.derives_of_alternatives? {grammar : Grammar} {r : Symbol} {symbols : List Symbol}
    {alternatives : List Alternative} (defined : grammar.alternatives? r = some alternatives)
    (member : .ofSymbols symbols ∈ alternatives) (absent : Symbol.epsilon ∉ symbols) :
    grammar.Derives [r] symbols := by
  have rule : grammar.HasRule r (.ofSymbols symbols) := ⟨alternatives, defined, member⟩
  simpa only [Alternative.symbols_ofSymbols absent] using rule.derives

/-- In lists that are related position by position, a member of the first is related to a member
of the second. -/
theorem exists_of_forall₂ {α β : Type} {related : α → β → Prop} {items : List α} {others : List β}
    {item : α} (aligned : List.Forall₂ related items others) (member : item ∈ items) :
    ∃ other ∈ others, related item other := by
  induction aligned with
  | nil => cases member
  | cons head _ ih =>
    rcases List.mem_cons.mp member with rfl | later
    · exact ⟨_, List.mem_cons_self, head⟩
    · obtain ⟨other, listed, holds⟩ := ih later
      exact ⟨other, List.mem_cons_of_mem _ listed, holds⟩

namespace EbnfGrammar

variable {source : EbnfGrammar} {grammar : Grammar} {s r : Symbol} {expr part : Expr}
  {parts rest : List Expr} {form symbols word : List Symbol}

/-- The words that expressions match one after the other. -/
inductive Matches (source : EbnfGrammar) : List Expr → List Symbol → Prop where
  /-- No expression matches the empty word. -/
  | nil : Matches source [] []
  /-- A terminal matches itself. -/
  | terminal (s : Symbol) {rest : List Expr} {word : List Symbol}
      (others : Matches source rest word) : Matches source (.terminal s :: rest) (s :: word)
  /-- A nonterminal matches what its expression matches. -/
  | nonterminal {s : Symbol} {expr : Expr} {rest : List Expr} {first word : List Symbol}
      (found : source.expression? s = some expr) (inner : Matches source [expr] first)
      (others : Matches source rest word) : Matches source (.nonterminal s :: rest) (first ++ word)
  /-- A chain matches its parts one after the other. -/
  | chain {parts rest : List Expr} {first word : List Symbol} (inner : Matches source parts first)
      (others : Matches source rest word) : Matches source (.chain parts :: rest) (first ++ word)
  /-- A choice matches what one of its parts matches. -/
  | choice {part : Expr} {parts rest : List Expr} {first word : List Symbol}
      (member : part ∈ parts) (inner : Matches source [part] first)
      (others : Matches source rest word) : Matches source (.choice parts :: rest) (first ++ word)
  /-- An optional expression matches the empty word. -/
  | optionalNone (body : Expr) {rest : List Expr} {word : List Symbol}
      (others : Matches source rest word) : Matches source (.optional body :: rest) word
  /-- An optional expression matches what its body matches. -/
  | optionalSome {body : Expr} {rest : List Expr} {first word : List Symbol}
      (inner : Matches source [body] first) (others : Matches source rest word) :
      Matches source (.optional body :: rest) (first ++ word)
  /-- A repetition matches the empty word. -/
  | zeroOrMoreNone (body : Expr) {rest : List Expr} {word : List Symbol}
      (others : Matches source rest word) : Matches source (.zeroOrMore body :: rest) word
  /-- A repetition matches what its body matches, and then again. -/
  | zeroOrMoreSome {body : Expr} {rest : List Expr} {first second word : List Symbol}
      (inner : Matches source [body] first) (again : Matches source [.zeroOrMore body] second)
      (others : Matches source rest word) :
      Matches source (.zeroOrMore body :: rest) (first ++ second ++ word)
  /-- A repetition that is not empty matches what its body matches, and then any number of times. -/
  | oneOrMore {body : Expr} {rest : List Expr} {first second word : List Symbol}
      (inner : Matches source [body] first) (again : Matches source [.zeroOrMore body] second)
      (others : Matches source rest word) :
      Matches source (.oneOrMore body :: rest) (first ++ second ++ word)

/-- What the first expression matches comes before what the others match. -/
theorem Matches.of_cons (matched : source.Matches (part :: rest) word) :
    ∃ first second, word = first ++ second ∧ source.Matches [part] first ∧
      source.Matches rest second := by
  cases matched with
  | terminal s others => exact ⟨[s], _, rfl, .terminal s .nil, others⟩
  | nonterminal found inner others =>
    exact ⟨_, _, rfl, by simpa using Matches.nonterminal found inner .nil, others⟩
  | chain inner others => exact ⟨_, _, rfl, by simpa using Matches.chain inner .nil, others⟩
  | choice member inner others =>
    exact ⟨_, _, rfl, by simpa using Matches.choice member inner .nil, others⟩
  | optionalNone body others => exact ⟨[], _, rfl, .optionalNone body .nil, others⟩
  | optionalSome inner others =>
    exact ⟨_, _, rfl, by simpa using Matches.optionalSome inner .nil, others⟩
  | zeroOrMoreNone body others => exact ⟨[], _, rfl, .zeroOrMoreNone body .nil, others⟩
  | zeroOrMoreSome inner again others =>
    exact ⟨_, _, rfl, by simpa using Matches.zeroOrMoreSome inner again .nil, others⟩
  | oneOrMore inner again others =>
    exact ⟨_, _, rfl, by simpa using Matches.oneOrMore inner again .nil, others⟩

theorem Matches.eq_nil (matched : source.Matches [] word) : word = [] := by
  cases matched
  rfl

/-! ### Realization -/

/-- The symbols that stand for expressions in a plain grammar. -/
inductive Realizes (source : EbnfGrammar) (grammar : Grammar) :
    List Expr → List Symbol → Prop where
  /-- Nothing stands for no expression. -/
  | nil : Realizes source grammar [] []
  /-- A terminal stands for itself. -/
  | terminal {s : Symbol} {rest : List Expr} {form : List Symbol}
      (allowed : source.isTerminal s = true) (others : Realizes source grammar rest form) :
      Realizes source grammar (.terminal s :: rest) (s :: form)
  /-- A nonterminal stands for itself. -/
  | nonterminal {s : Symbol} {rest : List Expr} {form : List Symbol}
      (allowed : source.isNonterminal s = true) (others : Realizes source grammar rest form) :
      Realizes source grammar (.nonterminal s :: rest) (s :: form)
  /-- The alternative of a chain has the symbols of its parts. -/
  | chain {r : Symbol} {parts rest : List Expr} {symbols form : List Symbol}
      (inner : Realizes source grammar parts symbols)
      (defined : grammar.alternatives? r = some [.ofSymbols symbols])
      (others : Realizes source grammar rest form) :
      Realizes source grammar (.chain parts :: rest) (r :: form)
  /-- A choice has an alternative for each of its parts. -/
  | choice {r : Symbol} {parts rest : List Expr} {symbols form : List Symbol}
      (inner : Realizes source grammar parts symbols)
      (defined : grammar.alternatives? r = some (symbols.map fun s => .ofSymbols [s]))
      (others : Realizes source grammar rest form) :
      Realizes source grammar (.choice parts :: rest) (r :: form)
  /-- An optional expression has its body as an alternative, and the empty one. -/
  | optional {r s : Symbol} {body : Expr} {rest : List Expr} {form : List Symbol}
      (inner : Realizes source grammar [body] [s])
      (defined : grammar.alternatives? r = some [.ofSymbols [s], .epsilon])
      (others : Realizes source grammar rest form) :
      Realizes source grammar (.optional body :: rest) (r :: form)
  /-- A repetition has its body in front of itself as an alternative, and the empty one. -/
  | zeroOrMore {r s : Symbol} {body : Expr} {rest : List Expr} {form : List Symbol}
      (inner : Realizes source grammar [body] [s])
      (defined : grammar.alternatives? r = some [.ofSymbols [s, r], .epsilon])
      (others : Realizes source grammar rest form) :
      Realizes source grammar (.zeroOrMore body :: rest) (r :: form)
  /-- A repetition that is not empty has its body in front of one that may be. -/
  | oneOrMore {r s more : Symbol} {body : Expr} {rest : List Expr} {form : List Symbol}
      (inner : Realizes source grammar [body] [s])
      (defined : grammar.alternatives? r = some [.ofSymbols [s, more]])
      (further : grammar.alternatives? more = some [.ofSymbols [s, more], .epsilon])
      (others : Realizes source grammar rest form) :
      Realizes source grammar (.oneOrMore body :: rest) (r :: form)

/-- A plain grammar in which every expression is realized. -/
structure LoweredTo (source : EbnfGrammar) (grammar : Grammar) : Prop where
  /-- Each nonterminal has one alternative, the symbol that stands for its expression. -/
  roots : ∀ {s expr}, source.expression? s = some expr →
    ∃ root, grammar.alternatives? s = some [.ofSymbols [root]] ∧
      Realizes source grammar [expr] [root]
  /-- Terminals have no production. -/
  terminal : ∀ {s}, source.isTerminal s = true → grammar.alternatives? s = none
  /-- The empty marker has no production. -/
  epsilon : grammar.alternatives? .epsilon = none

/-- The first symbol stands for the first expression. -/
theorem Realizes.of_cons (realizes : Realizes source grammar (part :: rest) form) :
    ∃ s others, form = s :: others ∧ Realizes source grammar [part] [s] ∧
      Realizes source grammar rest others := by
  cases realizes with
  | terminal allowed others => exact ⟨_, _, rfl, .terminal allowed .nil, others⟩
  | nonterminal allowed others => exact ⟨_, _, rfl, .nonterminal allowed .nil, others⟩
  | chain inner defined others => exact ⟨_, _, rfl, .chain inner defined .nil, others⟩
  | choice inner defined others => exact ⟨_, _, rfl, .choice inner defined .nil, others⟩
  | optional inner defined others => exact ⟨_, _, rfl, .optional inner defined .nil, others⟩
  | zeroOrMore inner defined others => exact ⟨_, _, rfl, .zeroOrMore inner defined .nil, others⟩
  | oneOrMore inner defined further others =>
    exact ⟨_, _, rfl, .oneOrMore inner defined further .nil, others⟩

theorem Realizes.cons (first : Realizes source grammar [part] [s])
    (others : Realizes source grammar rest form) :
    Realizes source grammar (part :: rest) (s :: form) := by
  cases first with
  | terminal allowed => exact .terminal allowed others
  | nonterminal allowed => exact .nonterminal allowed others
  | chain inner defined => exact .chain inner defined others
  | choice inner defined => exact .choice inner defined others
  | optional inner defined => exact .optional inner defined others
  | zeroOrMore inner defined => exact .zeroOrMore inner defined others
  | oneOrMore inner defined further => exact .oneOrMore inner defined further others

/-- Each symbol stands for its expression. -/
theorem Realizes.forall₂ (realizes : Realizes source grammar parts form) :
    List.Forall₂ (fun part s => Realizes source grammar [part] [s]) parts form := by
  induction parts generalizing form with
  | nil =>
    cases realizes
    exact .nil
  | cons part rest ih =>
    obtain ⟨s, others, rfl, stands, later⟩ := realizes.of_cons
    exact .cons stands (ih later)

/-- Every part has a symbol. -/
theorem Realizes.exists_symbol (realizes : Realizes source grammar parts symbols)
    (member : part ∈ parts) : ∃ s ∈ symbols, Realizes source grammar [part] [s] :=
  exists_of_forall₂ realizes.forall₂ member

/-- Every symbol stands for a part. -/
theorem Realizes.exists_part (realizes : Realizes source grammar parts symbols)
    (member : s ∈ symbols) : ∃ part ∈ parts, Realizes source grammar [part] [s] :=
  exists_of_forall₂ realizes.forall₂.flip member

/-- What an expression can be replaced by. A repetition gives its body and then itself again, or
nothing. -/
inductive Expands (source : EbnfGrammar) : Expr → List Expr → Prop where
  /-- A nonterminal is replaced by its expression. -/
  | nonterminal {s : Symbol} {expr : Expr} (found : source.expression? s = some expr) :
      Expands source (.nonterminal s) [expr]
  /-- A chain is replaced by its parts. -/
  | chain (parts : List Expr) : Expands source (.chain parts) parts
  /-- A choice is replaced by one of its parts. -/
  | choice {part : Expr} {parts : List Expr} (member : part ∈ parts) :
      Expands source (.choice parts) [part]
  /-- An optional expression is replaced by its body. -/
  | optionalSome (body : Expr) : Expands source (.optional body) [body]
  /-- An optional expression is left out. -/
  | optionalNone (body : Expr) : Expands source (.optional body) []
  /-- A repetition goes on. -/
  | zeroOrMoreSome (body : Expr) :
      Expands source (.zeroOrMore body) [body, .zeroOrMore body]
  /-- A repetition ends. -/
  | zeroOrMoreNone (body : Expr) : Expands source (.zeroOrMore body) []
  /-- A repetition that is not empty begins. -/
  | oneOrMore (body : Expr) : Expands source (.oneOrMore body) [body, .zeroOrMore body]

/-- An expression matches what it is replaced by matches. -/
theorem Expands.matches {first : List Symbol} (expands : source.Expands expr parts)
    (inner : source.Matches parts first) (others : source.Matches rest word) :
    source.Matches (expr :: rest) (first ++ word) := by
  cases expands with
  | nonterminal found => exact .nonterminal found inner others
  | chain => exact .chain inner others
  | choice member => exact .choice member inner others
  | optionalSome => exact .optionalSome inner others
  | optionalNone body =>
    rw [inner.eq_nil, List.nil_append]
    exact .optionalNone body others
  | zeroOrMoreSome =>
    obtain ⟨once, more, rfl, body, again⟩ := inner.of_cons
    exact .zeroOrMoreSome body again others
  | zeroOrMoreNone body =>
    rw [inner.eq_nil, List.nil_append]
    exact .zeroOrMoreNone body others
  | oneOrMore =>
    obtain ⟨once, more, rfl, body, again⟩ := inner.of_cons
    exact .oneOrMore body again others

namespace LoweredTo

variable (wellFormed : source.WellFormed) (lowered : source.LoweredTo grammar)

include wellFormed lowered

/-- The empty marker stands for no expression. -/
theorem ne_epsilon (realizes : Realizes source grammar parts form) : Symbol.epsilon ∉ form := by
  -- a symbol that was introduced has a production, and the marker has none
  have defined_ne : ∀ {r alternatives}, grammar.alternatives? r = some alternatives →
      Symbol.epsilon ≠ r := by
    rintro r alternatives defined rfl
    rw [lowered.epsilon] at defined
    cases defined
  induction realizes with
  | nil => exact List.not_mem_nil
  | terminal allowed _ ih =>
    rw [List.mem_cons, not_or]
    refine ⟨?_, ih⟩
    rintro rfl
    rcases isTerminal_iff.mp allowed with same | listed
    · exact absurd same (by decide)
    · exact absurd (wellFormed.terminal_named listed).2 (by decide)
  | nonterminal allowed _ ih =>
    rw [List.mem_cons, not_or]
    refine ⟨?_, ih⟩
    rintro rfl
    exact absurd (wellFormed.nonterminal_named allowed).2 (by decide)
  | chain _ defined _ _ ih => exact List.not_mem_cons_of_ne_of_not_mem (defined_ne defined) ih
  | choice _ defined _ _ ih => exact List.not_mem_cons_of_ne_of_not_mem (defined_ne defined) ih
  | optional _ defined _ _ ih => exact List.not_mem_cons_of_ne_of_not_mem (defined_ne defined) ih
  | zeroOrMore _ defined _ _ ih => exact List.not_mem_cons_of_ne_of_not_mem (defined_ne defined) ih
  | oneOrMore _ defined _ _ _ ih => exact List.not_mem_cons_of_ne_of_not_mem (defined_ne defined) ih

/-- The alternatives of a symbol stand for what its expression can be replaced by. -/
theorem expands_of_rule {alternative : Alternative} (stands : Realizes source grammar [expr] [s])
    (rule : grammar.HasRule s alternative) :
    ∃ parts, source.Expands expr parts ∧ Realizes source grammar parts alternative.symbols := by
  obtain ⟨alternatives, found, member⟩ := rule
  have written : ∀ {parts symbols}, alternative = .ofSymbols symbols → source.Expands expr parts →
      Realizes source grammar parts symbols →
      ∃ parts, source.Expands expr parts ∧ Realizes source grammar parts alternative.symbols := by
    rintro parts symbols rfl expands inner
    refine ⟨parts, expands, ?_⟩
    rwa [Alternative.symbols_ofSymbols (lowered.ne_epsilon wellFormed inner)]
  cases stands with
  | terminal allowed =>
    rw [lowered.terminal allowed] at found
    cases found
  | nonterminal allowed =>
    obtain ⟨expr, given⟩ := exists_expression? allowed
    obtain ⟨root, defined, stands⟩ := lowered.roots given
    obtain rfl := Option.some.inj (found.symm.trans defined)
    exact written (List.mem_singleton.mp member) (.nonterminal given) stands
  | chain inner defined =>
    obtain rfl := Option.some.inj (found.symm.trans defined)
    exact written (List.mem_singleton.mp member) (.chain _) inner
  | choice inner defined =>
    obtain rfl := Option.some.inj (found.symm.trans defined)
    obtain ⟨t, listed, same⟩ := List.mem_map.mp member
    obtain ⟨part, inside, stands⟩ := inner.exists_part listed
    exact written same.symm (.choice inside) stands
  | optional inner defined =>
    obtain rfl := Option.some.inj (found.symm.trans defined)
    rcases List.mem_pair.mp member with same | rfl
    · exact written same (.optionalSome _) inner
    · exact ⟨[], .optionalNone _, .nil⟩
  | zeroOrMore inner defined =>
    obtain rfl := Option.some.inj (found.symm.trans defined)
    rcases List.mem_pair.mp member with same | rfl
    · exact written same (.zeroOrMoreSome _) (inner.cons (.zeroOrMore inner defined .nil))
    · exact ⟨[], .zeroOrMoreNone _, .nil⟩
  | oneOrMore inner defined further =>
    obtain rfl := Option.some.inj (found.symm.trans defined)
    exact written (List.mem_singleton.mp member) (.oneOrMore _)
      (inner.cons (.zeroOrMore inner further .nil))

/-- What expressions match is derived from the symbols that stand for them. -/
theorem derives_of_matches (matched : source.Matches parts word)
    (realizes : Realizes source grammar parts form) : grammar.Derives form word := by
  have absent := fun {parts form} => @ne_epsilon source grammar parts form wellFormed lowered
  have vanishes : ∀ {r alternatives}, grammar.alternatives? r = some alternatives →
      .epsilon ∈ alternatives → grammar.Derives [r] [] :=
    fun defined member => Grammar.derives_of_alternatives? defined member List.not_mem_nil
  induction matched generalizing form with
  | nil =>
    cases realizes
    exact .refl []
  | terminal s _ ih =>
    cases realizes with
    | terminal _ others => exact (ih others).append_left [s]
  | nonterminal found _ _ ihInner ih =>
    cases realizes with
    | nonterminal _ others =>
      obtain ⟨root, defined, stands⟩ := lowered.roots found
      have step := Grammar.derives_of_alternatives? defined (by simp) (absent stands)
      exact (step.trans (ihInner stands)).append (ih others)
  | chain _ _ ihInner ih =>
    cases realizes with
    | chain inner defined others =>
      have step := Grammar.derives_of_alternatives? defined (by simp) (absent inner)
      exact (step.trans (ihInner inner)).append (ih others)
  | choice member _ _ ihInner ih =>
    cases realizes with
    | choice inner defined others =>
      obtain ⟨s, listed, stands⟩ := inner.exists_symbol member
      have step := Grammar.derives_of_alternatives? defined (List.mem_map_of_mem listed)
        (absent stands)
      exact (step.trans (ihInner stands)).append (ih others)
  | optionalNone _ _ ih =>
    cases realizes with
    | optional _ defined others => exact (vanishes defined (by simp)).append (ih others)
  | optionalSome _ _ ihInner ih =>
    cases realizes with
    | optional inner defined others =>
      have step := Grammar.derives_of_alternatives? defined (by simp) (absent inner)
      exact (step.trans (ihInner inner)).append (ih others)
  | zeroOrMoreNone _ _ ih =>
    cases realizes with
    | zeroOrMore _ defined others => exact (vanishes defined (by simp)).append (ih others)
  | zeroOrMoreSome _ _ _ ihInner ihAgain ih =>
    cases realizes with
    | zeroOrMore inner defined others =>
      -- the symbol comes up again in its own alternative, for the rounds that are left
      have again := Realizes.zeroOrMore inner defined .nil
      have step := Grammar.derives_of_alternatives? defined (by simp) (absent (inner.cons again))
      exact (step.trans ((ihInner inner).append (ihAgain again))).append (ih others)
  | oneOrMore _ _ _ ihInner ihAgain ih =>
    cases realizes with
    | oneOrMore inner defined further others =>
      -- the second symbol stands for the rounds after the first one
      have again := Realizes.zeroOrMore inner further .nil
      have step := Grammar.derives_of_alternatives? defined (by simp) (absent (inner.cons again))
      exact (step.trans ((ihInner inner).append (ihAgain again))).append (ih others)

/-- A word of terminals that is derived from symbols is matched by the expressions that they stand
for. -/
theorem matches_of_yields (yields : grammar.Yields form word)
    (terminals : ∀ s ∈ word, source.isTerminal s = true)
    (realizes : Realizes source grammar parts form) : source.Matches parts word := by
  induction yields generalizing parts with
  | nil =>
    cases realizes
    exact .nil
  | @keep s form word _ ih =>
    rw [List.forall_mem_cons] at terminals
    -- only a terminal can stay in a word of terminals
    have undefined := lowered.terminal terminals.1
    cases realizes with
    | terminal _ others => exact .terminal s (ih terminals.2 others)
    | nonterminal allowed _ =>
      obtain ⟨expr, found⟩ := exists_expression? allowed
      obtain ⟨root, defined, -⟩ := lowered.roots found
      simp [undefined] at defined
    | chain _ defined => simp [undefined] at defined
    | choice _ defined => simp [undefined] at defined
    | optional _ defined => simp [undefined] at defined
    | zeroOrMore _ defined => simp [undefined] at defined
    | oneOrMore _ defined => simp [undefined] at defined
  | @expand s alternative form first second rule _ _ ihInner ih =>
    rw [List.forall_mem_append] at terminals
    cases parts with
    | nil => cases realizes
    | cons part rest =>
      obtain ⟨_, _, same, stands, others⟩ := realizes.of_cons
      obtain ⟨rfl, rfl⟩ := List.cons.inj same
      obtain ⟨inside, expands, inner⟩ := lowered.expands_of_rule wellFormed stands rule
      exact expands.matches (ihInner terminals.1 inner) (ih terminals.2 others)

/-- A nonterminal matches the words of terminals that it derives. -/
theorem matches_iff_derives (nonterminal : source.isNonterminal s = true)
    (terminals : ∀ t ∈ word, source.isTerminal t = true) :
    source.Matches [.nonterminal s] word ↔ grammar.Derives [s] word := by
  have stands : Realizes source grammar [.nonterminal s] [s] := .nonterminal nonterminal .nil
  constructor
  · intro matched
    exact lowered.derives_of_matches wellFormed matched stands
  · intro derives
    have yields := Grammar.derives_iff_yields.mp derives
    exact lowered.matches_of_yields wellFormed yields terminals stands

end LoweredTo

end EbnfGrammar

end Predictive
