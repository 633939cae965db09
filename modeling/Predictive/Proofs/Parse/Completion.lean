import Predictive.Proofs.Parse.Prediction
import Predictive.Proofs.Parse.Snapshot

/-!
# What a successful parse has derived

The end of input is at the bottom of the stack, and an alternative may have it as well. The machine
does not tell the two apart: it stops where the end of input comes up, and reports success. What is
waiting then was not looked at. So a successful parse has derived the start symbol exactly if the
end of input is nowhere in its tree; otherwise the first such leaf and all that stands after it is
as the alternatives put it there. A strict parse has the end of input ahead at that leaf, and other
parses may have anything.

## Main definitions

* `Machine.Accepts` — the states in which the machine reports success
* `Grammar.DerivedUpTo` — what was derived before the nodes that were not looked at

## Main results

* `Machine.ne_eof_of_reaches` — the end of input is neither matched nor expanded
* `Grammar.derivedUpTo_of_accepts` — what has been derived in such a state
* `Grammar.parse_eq_success_iff` — a parse succeeds if the machine comes to such a state
* `Grammar.parse_success_derives` — what a successful parse has derived
-/

namespace Predictive

namespace Machine

variable {grammar : Grammar} {table : ParseTable Alternative} {strict : Bool} {input : Input}
  {machine next : Machine} {result : ParseResult}

/-! ### Success -/

/-- The states in which the machine reports success. -/
structure Accepts (grammar : Grammar) (strict : Bool) (machine : Machine) : Prop where
  /-- Nothing is waiting, or the end of input comes first. -/
  derived : ∀ node ∈ machine.waiting.head?, node.symbol = .eof
  /-- There is a lookahead, and a strict parse asks that it is the end of input. -/
  read : ∃ name ahead token, grammar.lookahead machine.input = .ok (name, ahead, token) ∧
    (strict = true → ahead = some .eof)

theorem Accepts.step_eq (accepts : machine.Accepts grammar strict) :
    machine.step grammar table strict = .inr (machine.halt grammar.start .success) := by
  obtain ⟨derived, name, ahead, token, read, strictly⟩ := accepts
  have finished : machine.finish grammar.start strict name ahead =
      machine.halt grammar.start .success := by
    unfold finish
    by_cases asked : strict = true
    · simp [asked, strictly asked]
    · simp [asked]
  cases waiting : machine.waiting with
  | nil => simp [step, read, waiting, finished]
  | cons node rest =>
    have last : node.symbol = .eof := derived node (by simp [waiting])
    simp [step, read, waiting, last, finished]

theorem Stops.accepts (stops : Stops grammar table strict machine result)
    (success : result.verdict = .success) :
    machine.Accepts grammar strict ∧ result = machine.halt grammar.start .success := by
  cases stops with
  | @finish name ahead token derived read =>
    unfold Machine.finish at success ⊢
    split at success
    · cases success
    · next passed =>
      rw [if_neg passed]
      refine ⟨⟨derived, name, ahead, token, read, fun asked => ?_⟩, rfl⟩
      simpa [asked] using passed
  | lexicalError => cases success
  | unexpected => cases success
  | noEntry => cases success
  | fault => cases success

/-- A run goes through every state that the machine can come to. -/
theorem exists_halts {first : Machine}
    (reaches : Relation.ReflTransGen (Moves grammar table) first machine)
    (last : machine.step grammar table strict = .inr result) :
    ∃ moves, Halts grammar table strict moves first result := by
  induction reaches using Relation.ReflTransGen.head_induction_on with
  | refl => exact ⟨0, .stop last⟩
  | head first _ ih =>
    obtain ⟨moves, later⟩ := ih
    exact ⟨moves + 1, .move first later⟩

/-! ### The end of input -/

/-- A move is not about the end of input. -/
theorem Moves.ne_eof (before : ∀ event ∈ machine.events, event.node.symbol ≠ .eof)
    (moves : Moves grammar table machine next) :
    ∀ event ∈ next.events, event.node.symbol ≠ .eof := by
  cases moves with
  | shift waiting proper read => exact List.forall_mem_cons.mpr ⟨proper, before⟩
  | expand waiting proper read => exact List.forall_mem_cons.mpr ⟨proper, before⟩

/-- The end of input is neither matched nor expanded. -/
theorem ne_eof_of_reaches (reaches : Reaches grammar table input machine) :
    ∀ event ∈ machine.events, event.node.symbol ≠ .eof := by
  induction reaches with
  | refl => exact nofun
  | tail _ moves ih => exact moves.ne_eof ih

theorem ne_eof_of_mem_shifted {leaf : Symbol × Token}
    (proper : ∀ event ∈ machine.events, event.node.symbol ≠ .eof)
    (listed : leaf ∈ machine.shifted) : leaf.1 ≠ .eof := by
  obtain ⟨event, happened, same⟩ := List.mem_filterMap.mp listed
  have other := proper event (List.mem_reverse.mp happened)
  cases event with
  | expand => cases same
  | shift node token =>
    cases same
    exact other

/-- The tree has the end of input exactly if it is waiting. -/
theorem Builds.forall_ne_eof_iff {tokens : List Token} (builds : Builds grammar tokens machine)
    (proper : ∀ event ∈ machine.events, event.node.symbol ≠ .eof) :
    (∀ node ∈ (machine.tree grammar.start).nodes, node.symbol ≠ .eof) ↔
      ∀ node ∈ machine.waiting, node.symbol ≠ .eof := by
  have labels := builds.perm_nodes
  constructor
  · intro absent node waits
    obtain ⟨tree, member, rfl⟩ :=
      List.mem_map.mp (labels.mem_iff.mpr (List.mem_append_right _ waits))
    exact absent tree member
  · intro absent tree member
    -- a node of the tree that is not waiting was matched or expanded
    rcases List.mem_append.mp (labels.mem_iff.mp (List.mem_map_of_mem member)) with
      past | waits
    · obtain ⟨event, happened, same⟩ := List.mem_map.mp past
      have other := proper event happened
      rw [same] at other
      exact other
    · exact absent tree.label waits

/-- In a state in which the machine reports success, nothing is waiting unless the end of input
is. -/
theorem Accepts.waiting_eq_nil_iff (accepts : machine.Accepts grammar strict) :
    machine.waiting = [] ↔ ∀ node ∈ machine.waiting, node.symbol ≠ .eof := by
  constructor
  · intro none
    rw [none]
    exact nofun
  · intro absent
    cases waiting : machine.waiting with
    | nil => rfl
    | cons node rest =>
      have last : node.symbol = .eof := accepts.derived node (by simp [waiting])
      exact absurd last (absent node (by simp [waiting]))

/-- If no alternative has the end of input, it never comes to wait. -/
theorem waiting_ne_eof_of_reaches (proper : grammar.start ≠ .eof)
    (rules : ∀ {s t alternative}, table.get? s t = some alternative →
      grammar.HasRule s alternative)
    (unmentioned : ∀ {s alternative}, grammar.HasRule s alternative →
      Symbol.eof ∉ alternative.symbols)
    (reaches : Reaches grammar table input machine) :
    Symbol.eof ∉ machine.waiting.map Pending.symbol := by
  induction reaches with
  | refl => simpa [initial] using proper.symm
  | tail _ moves ih => exact moves.waiting_ne_eof rules unmentioned ih

end Machine

/-! ### What has been derived -/

namespace Grammar

variable {grammar : Grammar} {table : ParseTable Alternative} {strict : Bool} {input : Input}
  {machine : Machine} {result : ParseResult}

/-- What a successful parse has derived before the nodes that were not looked at, and the tokens
that it has not matched. -/
structure DerivedUpTo (grammar : Grammar) (strict : Bool) (input : Input) (result : ParseResult)
    (unseen : List Pending) (rest : List Token) : Prop where
  /-- The tokens are those that were matched, and the others. -/
  consumed : input.tokens = (result.events.filterMap Event.shifted?).map Prod.snd ++ rest
  /-- A matched token is read as the terminal that it matched, which is not the end of input. -/
  matched : ∀ leaf ∈ result.events.filterMap Event.shifted?,
    grammar.terminalOf? leaf.2 = some leaf.1 ∧ leaf.1 ≠ .eof
  /-- The leaves of the tree are those that were matched, and then those not looked at. -/
  snapshot : grammar.Snapshot (.eof :: (unseen.map Pending.symbol).reverse)
    (unseen.map Pending.id).reverse result.tree result.size
    (result.events.filterMap Event.shifted?)
  /-- Of these, the end of input comes first. -/
  stopped : ∀ node ∈ unseen.head?, node.symbol = .eof
  /-- There are none exactly if the end of input is nowhere in the tree. -/
  complete : unseen = [] ↔ ∀ node ∈ result.tree.nodes, node.symbol ≠ .eof
  /-- A strict parse has the end of input ahead. -/
  ended : strict = true → (rest = [] ∧ ∃ text, input.ending = .eof text) ∨
    ∃ token ∈ rest.head?, grammar.terminalOf? token = some .eof

theorem WellFormed.start_ne_eof (wellFormed : grammar.WellFormed) : grammar.start ≠ .eof := by
  have unreserved := wellFormed.nonterminal_unreserved wellFormed.start_isNonterminal
  intro ended
  rw [ended] at unreserved
  cases unreserved

/-- The ending of an input is not touched. -/
theorem ending_of_reaches (reaches : Machine.Reaches grammar table input machine) :
    machine.input.ending = input.ending := by
  induction reaches with
  | refl => rfl
  | tail _ moves ih =>
    cases moves with
    | shift => exact ih
    | expand => exact ih

/-- What has been derived in a state in which the machine reports success. -/
theorem derivedUpTo_of_accepts
    (rules : ∀ {s t alternative}, table.get? s t = some alternative →
      grammar.HasRule s alternative)
    (reaches : Machine.Reaches grammar table input machine)
    (accepts : machine.Accepts grammar strict) :
    grammar.DerivedUpTo strict input (machine.halt grammar.start .success) machine.waiting
      machine.input.tokens := by
  have builds := Machine.Builds.of_reaches rules reaches
  have proper := Machine.ne_eof_of_reaches reaches
  refine ⟨builds.consumed, fun leaf listed => ⟨builds.read leaf listed, ?_⟩, builds.snapshot,
    accepts.derived, ?_, fun asked => ?_⟩
  · exact Machine.ne_eof_of_mem_shifted proper listed
  · exact accepts.waiting_eq_nil_iff.trans (builds.forall_ne_eof_iff proper).symm
  · -- a token could be called like the end of input
    obtain ⟨name, ahead, first, read, strictly⟩ := accepts.read
    rcases lookahead_cases read with ⟨token, others, tokens, -, same, -⟩ | ⟨none, ends, -⟩
    · refine Or.inr ⟨token, by rw [tokens]; rfl, ?_⟩
      rw [← same, strictly asked]
    · rw [ending_of_reaches reaches] at ends
      exact Or.inl ⟨none, ends⟩

/-- A parse succeeds exactly if the machine comes to a state in which it reports success. -/
theorem parse_eq_success_iff
    (rules : ∀ {s t alternative}, table.get? s t = some alternative →
      grammar.HasRule s alternative) :
    grammar.parse table strict input = some result ∧ result.verdict = .success ↔
      ∃ machine, Machine.Reaches grammar table input machine ∧ machine.Accepts grammar strict ∧
        result = machine.halt grammar.start .success := by
  rw [parse_eq_some_iff rules]
  constructor
  · rintro ⟨⟨moves, halts⟩, success⟩
    obtain ⟨last, reaches, stops⟩ := halts.exists_reaches
    exact ⟨last, reaches, stops.accepts success⟩
  · rintro ⟨machine, reaches, accepts, rfl⟩
    exact ⟨Machine.exists_halts reaches accepts.step_eq, rfl⟩

/-- A parse succeeds exactly if the machine comes to a state in which nothing is waiting or the end
of input comes first. It has then derived what stands before the first end of input in its tree,
and nothing that stands after it. If no alternative has the end of input, the start symbol is fully
derived. -/
theorem parse_success_derives (wellFormed : grammar.WellFormed) (firsts : FirstSets)
    (follows : FollowSets) (strict : Bool) (input : Input) (result : ParseResult) :
    let table := ParseTable.build grammar firsts follows
    (grammar.parse table strict input = some result ∧ result.verdict = .success ↔
      ∃ machine, Machine.Reaches grammar table input machine ∧ machine.Accepts grammar strict ∧
        result = machine.halt grammar.start .success) ∧
    (grammar.parse table strict input = some result → result.verdict = .success →
      ∃ unseen rest, grammar.DerivedUpTo strict input result unseen rest ∧
        ((∀ s alternative, grammar.HasRule s alternative → .eof ∉ alternative.symbols) →
          unseen = [])) := by
  intro table
  have rules : ∀ {s t alternative}, table.get? s t = some alternative →
      grammar.HasRule s alternative := fun found => ParseTable.hasRule_of_get?_build found
  refine ⟨parse_eq_success_iff rules, fun parsed success => ?_⟩
  obtain ⟨machine, reaches, accepts, rfl⟩ := (parse_eq_success_iff rules).mp ⟨parsed, success⟩
  refine ⟨machine.waiting, machine.input.tokens, derivedUpTo_of_accepts rules reaches accepts,
    fun unmentioned => accepts.waiting_eq_nil_iff.mpr fun node waits same => ?_⟩
  have absent := Machine.waiting_ne_eof_of_reaches wellFormed.start_ne_eof rules
    (fun rule => unmentioned _ _ rule) reaches
  exact absent (same ▸ List.mem_map_of_mem waits)

/-- A strict parse that stops at the end of input in the middle of an alternative. Not all of its
tree was derived. -/
theorem parse_success_derives_middle :
    ∃ grammar, Grammar.ofText "S : a EOF b ;" = .ok grammar ∧ grammar.WellFormed ∧
      ∃ result, grammar.parse (ParseTable.ofGrammar grammar) true ⟨[⟨"a", "1"⟩], .eof ""⟩ =
          some result ∧ result.verdict = .success ∧
        ∃ unseen rest, unseen ≠ [] ∧
          grammar.DerivedUpTo true ⟨[⟨"a", "1"⟩], .eof ""⟩ result unseen rest := by
  obtain ⟨grammar, defined, wellFormed, checked⟩ := Grammar.exists_of_ofText "S : a EOF b ;"
    (fun grammar => (grammar.parse (ParseTable.ofGrammar grammar) true
      ⟨[⟨"a", "1"⟩], .eof ""⟩).any fun result =>
        result.isSuccess && result.tree.nodes.any fun node => decide (node.symbol = .eof))
    (by decide +kernel)
  obtain ⟨result, parsed, ended⟩ := (Option.any_eq_true _ _).mp checked
  rw [Bool.and_eq_true, List.any_eq_true] at ended
  obtain ⟨succeeded, node, member, last⟩ := ended
  have success : result.verdict = .success := by simpa [ParseResult.isSuccess] using succeeded
  obtain ⟨-, derives⟩ := parse_success_derives wellFormed (FirstSets.compute grammar)
    (FollowSets.compute grammar (FirstSets.compute grammar)) true ⟨[⟨"a", "1"⟩], .eof ""⟩ result
  obtain ⟨unseen, rest, derived, -⟩ := derives parsed success
  refine ⟨grammar, defined, wellFormed, result, parsed, success, unseen, rest, ?_, derived⟩
  intro none
  exact derived.complete.mp none node member (by simpa using last)

/-- A successful parse need not have matched the terminals of its tree, also if it is strict, and it
need not have read all tokens where its tree has the end of input. -/
theorem not_success_complete :
    (¬ ∀ (text : String) (grammar : Grammar) (strict : Bool) (input : Input)
        (result : ParseResult), Grammar.ofText text = .ok grammar →
      grammar.parse (ParseTable.ofGrammar grammar) strict input = some result →
      result.verdict = .success →
      ∀ node ∈ result.tree.nodes, grammar.isTerminal node.symbol = true → node.symbol ≠ .eof →
        node.text?.isSome = true) ∧
    ¬ ∀ (text : String) (grammar : Grammar) (strict : Bool) (input : Input)
        (result : ParseResult), Grammar.ofText text = .ok grammar →
      grammar.parse (ParseTable.ofGrammar grammar) strict input = some result →
      result.verdict = .success →
      ∀ node ∈ result.tree.nodes, node.symbol = .eof →
        (result.events.filterMap Event.shifted?).map Prod.snd = input.tokens := by
  constructor
  · intro complete
    obtain ⟨grammar, defined, -, checked⟩ := Grammar.exists_of_ofText "S : a EOF b ;"
      (fun grammar => (grammar.parse (ParseTable.ofGrammar grammar) true
        ⟨[⟨"a", "1"⟩], .eof ""⟩).any fun result : ParseResult =>
          decide (result.verdict = .success) && result.tree.nodes.any fun node =>
            grammar.isTerminal node.symbol && decide (node.symbol ≠ .eof) && !node.text?.isSome)
      (by decide +kernel)
    obtain ⟨result, parsed, ended⟩ := (Option.any_eq_true _ _).mp checked
    rw [Bool.and_eq_true, decide_eq_true_eq, List.any_eq_true] at ended
    obtain ⟨success, node, member, left⟩ := ended
    rw [Bool.and_eq_true, Bool.and_eq_true, decide_eq_true_eq, Bool.not_eq_true'] at left
    obtain ⟨⟨terminal, proper⟩, unmatched⟩ := left
    rw [complete _ grammar true _ result defined parsed success node member terminal proper]
      at unmatched
    cases unmatched
  · intro complete
    obtain ⟨grammar, defined, -, checked⟩ := Grammar.exists_of_ofText "S : a EOF b ;"
      (fun grammar => (grammar.parse (ParseTable.ofGrammar grammar) false
        ⟨[⟨"a", "1"⟩, ⟨"c", "2"⟩], .eof ""⟩).any fun result : ParseResult =>
          decide (result.verdict = .success) &&
            (result.tree.nodes.any fun node => decide (node.symbol = .eof)) &&
            decide ((result.events.filterMap Event.shifted?).map Prod.snd ≠
              [⟨"a", "1"⟩, ⟨"c", "2"⟩]))
      (by decide +kernel)
    obtain ⟨result, parsed, ended⟩ := (Option.any_eq_true _ _).mp checked
    rw [Bool.and_eq_true, Bool.and_eq_true, decide_eq_true_eq, List.any_eq_true,
      decide_eq_true_eq] at ended
    obtain ⟨⟨success, node, member, last⟩, remaining⟩ := ended
    exact remaining (complete _ grammar false _ result defined parsed success node member
      (by simpa using last))

end Grammar

end Predictive
