import Predictive.Proofs.Descent.Spelling
import Predictive.Proofs.Ebnf.Site
import Predictive.Proofs.Splicing

/-!
# Trees of a lowered grammar

The trees of a lowered grammar show the nonterminals that lowering introduced. If these are spliced
out, what is left are the trees that the expressions make, with the same leaves. To tell which nodes
are spliced out, it does not suffice that a symbol has the productions that its expression asks for:
the symbol of a nonterminal is a declared one, and that of any other expression was introduced.

## Main definitions

* `EbnfGrammar.Uses` — the expressions that the productions are made of
* `EbnfGrammar.introduced` — the nonterminals that lowering introduced
* `EbnfGrammar.Stands` — the symbol that lowering put in the place of an expression

## Main results

* `EbnfGrammar.LaysOut.stands_of_rule` — the alternatives of a symbol that stands for an expression
* `EbnfGrammar.LaysOut.spells_spliceAll` — what is left of the trees of a lowered grammar
* `EbnfGrammar.LaysOut.eof_not_mem_symbols` — the end of input is in no alternative
-/

namespace Predictive

namespace EbnfGrammar

variable {source : EbnfGrammar} {grammar : Grammar} {expr body : Expr} {parts : List Expr}
  {s : Symbol} {first : Nat} {site : Site} {firsts : FirstSets} {follows : FollowSets}
  {alternative : Alternative}

/-- The expressions that the productions are made of. -/
inductive Uses (source : EbnfGrammar) : Expr → Prop where
  /-- The expression of a nonterminal. -/
  | root {s : Symbol} {expr : Expr} (found : source.expression? s = some expr) : Uses source expr
  /-- A part of a chain. -/
  | chain {part : Expr} {parts : List Expr} (outer : Uses source (.chain parts))
      (member : part ∈ parts) : Uses source part
  /-- A part of a choice. -/
  | choice {part : Expr} {parts : List Expr} (outer : Uses source (.choice parts))
      (member : part ∈ parts) : Uses source part
  /-- The body of an optional expression. -/
  | optional {body : Expr} (outer : Uses source (.optional body)) : Uses source body
  /-- The body of a repetition. -/
  | zeroOrMore {body : Expr} (outer : Uses source (.zeroOrMore body)) : Uses source body
  /-- The body of a repetition that is not empty. -/
  | oneOrMore {body : Expr} (outer : Uses source (.oneOrMore body)) : Uses source body

theorem Uses.admits (uses : source.Uses expr) (wellFormed : source.WellFormed) :
    source.Admits expr := by
  induction uses with
  | root found => exact wellFormed.admits found
  | chain _ member ih => exact admitsAll_iff.mp ih _ member
  | choice _ member ih => exact admitsAll_iff.mp ih.2 _ member
  | optional _ ih => exact ih
  | zeroOrMore _ ih => exact ih
  | oneOrMore _ ih => exact ih

/-- The expressions at the sites of a grammar are used. -/
theorem Sites.uses (sites : Sites source grammar firsts follows site) : source.Uses site.expr := by
  induction sites with
  | root found => exact .root found
  | part _ inside ih =>
    cases inside with
    | chain => exact .chain ih (by simp)
    | choice => exact .choice ih (by simp)
    | optional => exact .optional ih
    | zeroOrMore => exact .zeroOrMore ih
    | oneOrMore => exact .oneOrMore ih

/-- Whether a symbol is a nonterminal that lowering introduced. -/
def introduced (source : EbnfGrammar) (grammar : Grammar) (s : Symbol) : Bool :=
  grammar.isNonterminal s && !source.isNonterminal s

/-- The symbol that lowering put in the place of an expression. -/
inductive Stands (source : EbnfGrammar) (grammar : Grammar) : Expr → Symbol → Prop where
  /-- A nonterminal stands for itself. -/
  | nonterminal {s : Symbol} (declared : source.isNonterminal s = true) :
      Stands source grammar (.nonterminal s) s
  /-- The productions of an expression are laid out behind the declared symbols. -/
  | laid {expr : Expr} {first : Nat} (uses : source.Uses expr)
      (beyond : source.names.size ≤ first) (laid : expr.Laid grammar first) :
      Stands source grammar expr (expr.symbolAt first)
  /-- A repetition that is not empty has a second symbol, for the rounds after the first one. -/
  | again {body : Expr} {first : Nat} {more : Symbol} (uses : source.Uses body)
      (beyond : source.names.size ≤ first) (new : source.names.size ≤ more.id)
      (laid : body.Laid grammar first)
      (defined : grammar.alternatives? more =
        some [.ofSymbols [body.symbolAt first, more], .epsilon]) :
      Stands source grammar (.zeroOrMore body) more

namespace Stands

theorem realizes (stands : source.Stands grammar expr s) (wellFormed : source.WellFormed) :
    Realizes source grammar [expr] [s] := by
  cases stands with
  | nonterminal declared => exact .nonterminal declared .nil
  | laid uses _ laid => exact laid.realizes (uses.admits wellFormed)
  | again uses _ _ laid defined =>
    exact .zeroOrMore (laid.realizes (uses.admits wellFormed)) defined .nil

/-- Only a terminal stands for a terminal. -/
theorem eq_terminal (stands : source.Stands grammar expr s) (lowered : source.LoweredTo grammar)
    (wellFormed : source.WellFormed) (terminal : source.isTerminal s = true) :
    expr = .terminal s := by
  have undefined := lowered.terminal terminal
  cases stands.realizes wellFormed with
  | terminal => rfl
  | nonterminal declared =>
    obtain ⟨expr, found⟩ := exists_expression? declared
    obtain ⟨root, defined, -⟩ := lowered.roots found
    rw [undefined] at defined
    cases defined
  | chain _ defined => cases undefined.symm.trans defined
  | choice _ defined => cases undefined.symm.trans defined
  | optional _ defined => cases undefined.symm.trans defined
  | zeroOrMore _ defined => cases undefined.symm.trans defined
  | oneOrMore _ defined => cases undefined.symm.trans defined

/-- The symbol of an expression that is no symbol was introduced. -/
theorem not_declared (stands : source.Stands grammar expr s) (wellFormed : source.WellFormed)
    (compound : expr.isSymbol = false) : source.isNonterminal s = false := by
  have new : source.names.size ≤ s.id := by
    cases stands with
    | nonterminal => cases compound
    | again _ _ new => exact new
    | laid _ beyond =>
      cases expr with
      | terminal => cases compound
      | nonterminal => cases compound
      | chain => exact beyond
      | choice => exact beyond
      | optional => exact beyond
      | zeroOrMore => exact beyond
      | oneOrMore => exact beyond
  by_contra declared
  rw [Bool.not_eq_false] at declared
  exact absurd (wellFormed.nonterminal_named declared).1 (Nat.not_lt.mpr new)

end Stands

/-- The symbols of the parts of a list stand for the parts. -/
theorem forall₂_stands (uses : ∀ part ∈ parts, source.Uses part)
    (beyond : source.names.size ≤ first) (laid : Expr.LaidAll grammar first parts) :
    List.Forall₂ (source.Stands grammar) parts (Expr.symbolsAt first parts) := by
  induction parts generalizing first with
  | nil => exact .nil
  | cons part rest ih =>
    rw [List.forall_mem_cons] at uses
    exact .cons (.laid uses.1 beyond laid.1) (ih uses.2 (Nat.le_add_right_of_le beyond) laid.2)

/-- The symbols that were introduced for an expression stand for it, or for the rounds of a
repetition after the first one. -/
theorem Sites.stands_of_mem_own (sites : Sites source grammar firsts follows site)
    (own : s ∈ site.own) : ∃ expr, source.Stands grammar expr s := by
  have uses := sites.uses
  have beyond := sites.le_first
  have laid := sites.laid
  have whole : source.Stands grammar site.expr site.symbol := .laid uses beyond laid
  obtain ⟨expr, first, next⟩ := site
  cases expr with
  | terminal => cases own
  | nonterminal => cases own
  | oneOrMore body =>
    rcases List.mem_pair.mp own with rfl | rfl
    · exact ⟨_, whole⟩
    · have new : source.names.size ≤ first + 1 := Nat.le_add_right_of_le beyond
      exact ⟨_, .again uses.oneOrMore (Nat.le_add_right_of_le beyond) new laid.2.2 laid.2.1⟩
  | chain =>
    obtain rfl := List.mem_singleton.mp own
    exact ⟨_, whole⟩
  | choice =>
    obtain rfl := List.mem_singleton.mp own
    exact ⟨_, whole⟩
  | optional =>
    obtain rfl := List.mem_singleton.mp own
    exact ⟨_, whole⟩
  | zeroOrMore =>
    obtain rfl := List.mem_singleton.mp own
    exact ⟨_, whole⟩

namespace LaysOut

variable (wellFormed : source.WellFormed) (laysOut : source.LaysOut grammar)

include wellFormed laysOut

/-- The symbols of an alternative that was made of symbols that stand for expressions. -/
theorem stands_symbols {symbols : List Symbol}
    (stand : List.Forall₂ (source.Stands grammar) parts symbols) :
    List.Forall₂ (source.Stands grammar) parts (Alternative.ofSymbols symbols).symbols := by
  have proper : Symbol.epsilon ∉ symbols := by
    intro listed
    obtain ⟨part, -, stands⟩ := exists_of_forall₂ stand.flip listed
    exact (laysOut.loweredTo wellFormed).ne_epsilon wellFormed (stands.realizes wellFormed)
      List.mem_cons_self
  rwa [Alternative.symbols_ofSymbols proper]

/-- A declared nonterminal has one alternative, the symbol that stands for its expression. -/
theorem stands_of_declared (declared : source.isNonterminal s = true)
    (rule : grammar.HasRule s alternative) :
    ∃ expr, source.expression? s = some expr ∧
      List.Forall₂ (source.Stands grammar) [expr] alternative.symbols := by
  obtain ⟨expr, found⟩ := exists_expression? declared
  obtain ⟨first, beyond, defined, laid⟩ := laysOut.exists_laidOut found
  obtain ⟨alternatives, given, member⟩ := rule
  obtain rfl := Option.some.inj (given.symm.trans defined)
  obtain rfl := List.mem_singleton.mp member
  exact ⟨expr, found,
    laysOut.stands_symbols wellFormed (.cons (.laid (.root found) beyond laid) .nil)⟩

/-- The alternatives of a symbol that stands for an expression consist of symbols that stand for
what the expression can be replaced by. -/
theorem stands_of_rule (stands : source.Stands grammar expr s)
    (rule : grammar.HasRule s alternative) :
    ∃ parts, source.Expands expr parts ∧
      List.Forall₂ (source.Stands grammar) parts alternative.symbols := by
  have symbols := fun {parts symbols} =>
    @stands_symbols source grammar parts wellFormed laysOut symbols
  have declared : ∀ {s}, source.isNonterminal s = true → grammar.HasRule s alternative →
      ∃ parts, source.Expands (.nonterminal s) parts ∧
        List.Forall₂ (source.Stands grammar) parts alternative.symbols := by
    intro s nonterminal rule
    obtain ⟨expr, found, stand⟩ := laysOut.stands_of_declared wellFormed nonterminal rule
    exact ⟨[expr], .nonterminal found, stand⟩
  cases stands with
  | nonterminal nonterminal => exact declared nonterminal rule
  | again uses beyond new laid defined =>
    have inner := Stands.laid uses beyond laid
    have itself := Stands.again uses beyond new laid defined
    obtain ⟨alternatives, found, member⟩ := rule
    obtain rfl := Option.some.inj (found.symm.trans defined)
    rcases List.mem_pair.mp member with rfl | rfl
    · exact ⟨_, .zeroOrMoreSome _, symbols (.cons inner (.cons itself .nil))⟩
    · exact ⟨[], .zeroOrMoreNone _, .nil⟩
  | @laid _ first uses beyond laid =>
    cases expr with
    | terminal s =>
      obtain ⟨alternatives, found, -⟩ := rule
      rw [Expr.symbolAt, (laysOut.loweredTo wellFormed).terminal (uses.admits wellFormed)] at found
      cases found
    | nonterminal s => exact declared (uses.admits wellFormed) rule
    | chain parts =>
      obtain ⟨alternatives, found, member⟩ := rule
      obtain rfl := Option.some.inj (found.symm.trans laid.1)
      obtain rfl := List.mem_singleton.mp member
      exact ⟨parts, .chain parts, symbols (forall₂_stands (fun part => uses.chain)
        (Nat.le_add_right_of_le beyond) laid.2)⟩
    | choice parts =>
      obtain ⟨alternatives, found, member⟩ := rule
      obtain rfl := Option.some.inj (found.symm.trans laid.1)
      obtain ⟨t, listed, rfl⟩ := List.mem_map.mp member
      have stand := forall₂_stands (fun part => uses.choice) (Nat.le_add_right_of_le beyond) laid.2
      obtain ⟨part, inside, stands⟩ := exists_of_forall₂ stand.flip listed
      exact ⟨[part], .choice inside, symbols (.cons stands .nil)⟩
    | optional body =>
      have inner := Stands.laid uses.optional (Nat.le_add_right_of_le beyond) laid.2
      obtain ⟨alternatives, found, member⟩ := rule
      obtain rfl := Option.some.inj (found.symm.trans laid.1)
      rcases List.mem_pair.mp member with rfl | rfl
      · exact ⟨_, .optionalSome body, symbols (.cons inner .nil)⟩
      · exact ⟨[], .optionalNone body, .nil⟩
    | zeroOrMore body =>
      have inner := Stands.laid uses.zeroOrMore (Nat.le_add_right_of_le beyond) laid.2
      have itself := Stands.laid uses beyond laid
      obtain ⟨alternatives, found, member⟩ := rule
      obtain rfl := Option.some.inj (found.symm.trans laid.1)
      rcases List.mem_pair.mp member with rfl | rfl
      · exact ⟨_, .zeroOrMoreSome body, symbols (.cons inner (.cons itself .nil))⟩
      · exact ⟨[], .zeroOrMoreNone body, .nil⟩
    | oneOrMore body =>
      have inside : source.names.size ≤ first + 2 := Nat.le_add_right_of_le beyond
      have new : source.names.size ≤ first + 1 := Nat.le_add_right_of_le beyond
      have inner := Stands.laid uses.oneOrMore inside laid.2.2
      have more := @Stands.again source grammar body _ ⟨first + 1⟩ uses.oneOrMore inside new
        laid.2.2 laid.2.1
      obtain ⟨alternatives, found, member⟩ := rule
      obtain rfl := Option.some.inj (found.symm.trans laid.1)
      obtain rfl := List.mem_singleton.mp member
      exact ⟨_, .oneOrMore body, symbols (.cons inner (.cons more .nil))⟩

/-! ### What is left of the trees -/

theorem introduced_of_terminal (terminal : grammar.isTerminal s = true) :
    source.introduced grammar s = false := by
  unfold introduced
  cases nonterminal : grammar.isNonterminal s with
  | false => rfl
  | true =>
    rw [(laysOut.wellFormed wellFormed).not_isTerminal nonterminal] at terminal
    cases terminal

/-- If the nonterminals that lowering introduced are spliced out of the trees of a lowered grammar,
the trees of the expressions are left, with the same leaves. -/
theorem spells_spliceAll {trees : List Tree} {leaves : List (Symbol × Option String)}
    {tokens : List StreamToken} (spells : grammar.Spells trees leaves)
    (stand : List.Forall₂ (source.Stands grammar) parts (trees.map Tree.symbol))
    (read : leaves.map (fun leaf => (some leaf.1, leaf.2)) =
      tokens.map fun token => (token.symbol, some token.token.text)) :
    source.Spells parts (Tree.spliceAll (source.introduced grammar) trees) tokens := by
  have lowered := laysOut.loweredTo wellFormed
  induction spells generalizing parts tokens with
  | nil =>
    cases stand
    rw [List.map_nil, eq_comm, List.map_eq_nil_iff] at read
    rw [read]
    exact .nil
  | pending id s _ _ =>
    -- every token has a text
    obtain ⟨token, _, -, same, -⟩ := List.map_eq_cons_iff.mp read.symm
    cases (Prod.mk.inj same).2
  | @matched id s text _ _ terminal _ ih =>
    obtain ⟨token, others, rfl, same, rest⟩ := List.map_eq_cons_iff.mp read.symm
    obtain ⟨symbol, taken⟩ := Prod.mk.inj same
    cases stand with
    | cons first later =>
      obtain rfl := first.eq_terminal lowered wellFormed (laysOut.isTerminal_eq ▸ terminal)
      have leaf := Spells.terminal id symbol (ih later rest.symm)
      rw [Option.some.inj taken] at leaf
      rw [Tree.spliceAll, Tree.splice_of_shown (laysOut.introduced_of_terminal wellFormed terminal)]
      exact leaf
  | @expanded id s alternative children _ _ _ rule spelled _ _ ihInner ih =>
    rw [List.map_append] at read
    obtain ⟨inside, others, rfl, front, back⟩ := List.map_eq_append_iff.mp read.symm
    cases stand with
    | @cons part _ _ _ first later =>
      change source.Stands grammar part s at first
      obtain ⟨replaced, expands, below⟩ := laysOut.stands_of_rule wellFormed first rule
      have inner := ihInner (spelled.symm ▸ below) front.symm
      have tail := ih later back.symm
      rw [Tree.spliceAll]
      cases compound : part.isSymbol with
      | false =>
        -- the node was introduced, and its children take its place
        have gone : source.introduced grammar s = true := by
          rw [introduced, first.not_declared wellFormed compound,
            Grammar.isNonterminal_of_rule rule]
          rfl
        rw [Tree.splice_of_hidden gone]
        exact .inline compound expands inner tail
      | true =>
        -- a terminal has no alternatives, so that this is the node of a declared nonterminal
        cases expands with
        | nonterminal found =>
          cases first.realizes wellFormed with
          | nonterminal declared =>
            have shown : source.introduced grammar s = false := by
              rw [introduced, declared, Bool.not_true, Bool.and_false]
            rw [Tree.splice_of_shown shown]
            exact .nonterminal id found inner tail
        | _ => cases compound

/-- The end of input is in no alternative, if no expression uses it. -/
theorem eof_not_mem_symbols (unused : ¬ source.Uses (.terminal .eof))
    (rule : grammar.HasRule s alternative) : Symbol.eof ∉ alternative.symbols := by
  intro listed
  have stand : ∃ parts, List.Forall₂ (source.Stands grammar) parts alternative.symbols := by
    rcases laysOut.exists_site ⟨.empty⟩ ⟨.empty⟩ (Grammar.isNonterminal_of_rule rule) with
      declared | ⟨site, sites, own⟩
    · obtain ⟨expr, -, stand⟩ := laysOut.stands_of_declared wellFormed declared rule
      exact ⟨[expr], stand⟩
    · obtain ⟨expr, stands⟩ := sites.stands_of_mem_own own
      obtain ⟨parts, -, stand⟩ := laysOut.stands_of_rule wellFormed stands rule
      exact ⟨parts, stand⟩
  obtain ⟨parts, stand⟩ := stand
  obtain ⟨part, -, stands⟩ := exists_of_forall₂ stand.flip listed
  have terminal : source.isTerminal .eof = true := isTerminal_iff.mpr (Or.inl rfl)
  obtain rfl := stands.eq_terminal (laysOut.loweredTo wellFormed) wellFormed terminal
  cases stands with
  | laid uses => exact unused uses

end LaysOut

end EbnfGrammar

end Predictive
