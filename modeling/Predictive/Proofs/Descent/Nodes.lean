import Predictive.Proofs.Arena
import Predictive.Proofs.Descent.Run
import Predictive.Proofs.Ebnf.WellFormed

/-!
# The nodes of recursive descent

An expression can be read as a pattern of symbols, in which a nonterminal stands for itself and not
for what it matches. The trees that a run makes have roots in the pattern of their expression, and
so have the children of every nonterminal below them; terminals have a text and no children. The
nodes are numbered in the order in which they are made, and the numbers of parts that failed are
given out again, so that no number is left out.

## Main definitions

* `Expr.Arranges` — the rows of symbols in the pattern of an expression
* `EbnfGrammar.Fits` — a node that fits a grammar
* `EbnfGrammar.Makes` — the trees of an expression

## Main results

* `EbnfGrammar.Descends.numbered` — a run gives out every number once
* `EbnfGrammar.Descends.makes` — what a run makes
-/

namespace Predictive

/-- The rows of symbols in the pattern of an expression. -/
inductive Expr.Arranges : Expr → List Symbol → Prop where
  /-- A terminal stands for itself. -/
  | terminal (s : Symbol) : Arranges (.terminal s) [s]
  /-- A nonterminal stands for itself. -/
  | nonterminal (s : Symbol) : Arranges (.nonterminal s) [s]
  /-- A chain without parts is empty. -/
  | chainNil : Arranges (.chain []) []
  /-- The parts of a chain come one after the other. -/
  | chainCons {part : Expr} {rest : List Expr} {front back : List Symbol}
      (first : Arranges part front) (others : Arranges (.chain rest) back) :
      Arranges (.chain (part :: rest)) (front ++ back)
  /-- A choice is one of its parts. -/
  | choice {part : Expr} {parts : List Expr} {row : List Symbol} (member : part ∈ parts)
      (inner : Arranges part row) : Arranges (.choice parts) row
  /-- An optional expression may be left out. -/
  | optionalNone (body : Expr) : Arranges (.optional body) []
  /-- An optional expression may be there. -/
  | optionalSome {body : Expr} {row : List Symbol} (inner : Arranges body row) :
      Arranges (.optional body) row
  /-- A repetition may have no rounds. -/
  | zeroOrMoreNone (body : Expr) : Arranges (.zeroOrMore body) []
  /-- A repetition may have one more round. -/
  | zeroOrMoreSome {body : Expr} {front back : List Symbol} (inner : Arranges body front)
      (again : Arranges (.zeroOrMore body) back) : Arranges (.zeroOrMore body) (front ++ back)
  /-- A repetition that is not empty has a first round. -/
  | oneOrMore {body : Expr} {front back : List Symbol} (inner : Arranges body front)
      (again : Arranges (.zeroOrMore body) back) : Arranges (.oneOrMore body) (front ++ back)

namespace EbnfGrammar

variable {source : EbnfGrammar} {expr part body : Expr} {rest : List Expr} {size last : Nat}
  {forest more : List Tree} {stream after : TokenStream} {outcome : Descent}
  {failures : List (Expr × List StreamToken)} {s : Symbol}

/-- A node that fits a grammar. -/
inductive Fits (source : EbnfGrammar) : Tree → Prop where
  /-- A terminal has a text and no children. -/
  | terminal (id : Nat) {s : Symbol} (text : String) (declared : source.isTerminal s = true) :
      Fits source (.node id s (some text) [])
  /-- A nonterminal has no text, and children in the pattern of its expression. -/
  | nonterminal (id : Nat) {s : Symbol} {body : Expr} {children : List Tree}
      (found : source.expression? s = some body)
      (arranged : body.Arranges (children.map Tree.symbol)) : Fits source (.node id s none children)

/-! ### Numbers -/

/-- A run gives out every number once, from one size of the arena to another. -/
theorem Descends.numbered (descends : source.Descends expr size stream outcome failures)
    (matched : outcome = .matched forest last after) : Tree.Numbered size forest last := by
  induction descends generalizing forest last after with
  | terminal s size stream =>
    rcases takeTerminal_cases s size stream with ⟨token, rest, -, -, taken⟩ | ⟨-, stays⟩
    · rw [taken] at matched
      cases matched
      exact .cons (.nil size) (.nil (size + 1))
    · rw [stays] at matched
      cases matched
  | undefined => cases matched
  | nonterminal _ _ ih =>
    cases matched
    exact .cons (ih rfl) (.nil _)
  | nonterminalFailed => cases matched
  | chainNil size stream =>
    cases matched
    exact .nil size
  | chainCons _ _ ihFirst ihLater =>
    obtain ⟨back, rfl, rfl⟩ := Descent.after_eq_matched_iff.mp matched
    exact (ihFirst rfl).append (ihLater rfl)
  | chainFailed => cases matched
  | choiceNil => cases matched
  | choiceMatched rest _ ih => exact ih matched
  | choiceNext _ _ _ ihLater => exact ihLater matched
  | optionalMatched _ ih => exact ih matched
  | optionalFailed =>
    cases matched
    exact .nil _
  | manyFailed =>
    cases matched
    exact .nil _
  | manyIdle =>
    cases matched
    exact .nil _
  | manyAgain _ _ _ ihInner ihLater =>
    obtain ⟨back, rfl, rfl⟩ := Descent.after_eq_matched_iff.mp matched
    exact (ihInner rfl).append (ihLater rfl)
  | oneOrMore _ _ ihInner ihLater =>
    obtain ⟨back, rfl, rfl⟩ := Descent.after_eq_matched_iff.mp matched
    exact (ihInner rfl).append (ihLater rfl)
  | oneOrMoreFailed => cases matched

/-! ### Symbols -/

/-- The trees of an expression. -/
structure Makes (source : EbnfGrammar) (expr : Expr) (forest : List Tree) : Prop where
  /-- The roots are in the pattern of the expression. -/
  arranged : expr.Arranges (forest.map Tree.symbol)
  /-- Every node fits the grammar. -/
  fits : ∀ node ∈ Tree.nodesOfAll forest, source.Fits node

/-- Two lists of trees next to each other are in the patterns of both. -/
theorem Makes.append {joint front back : Expr} (first : source.Makes front forest)
    (second : source.Makes back more)
    (joined : ∀ {row others}, front.Arranges row → back.Arranges others →
      joint.Arranges (row ++ others)) :
    source.Makes joint (forest ++ more) where
  arranged := by
    rw [List.map_append]
    exact joined first.arranged second.arranged
  fits := by
    rw [Tree.nodesOfAll_append, List.forall_mem_append]
    exact ⟨first.fits, second.fits⟩

theorem makes_nil (empty : expr.Arranges []) : source.Makes expr [] := ⟨empty, nofun⟩

theorem Makes.imp {other : Expr} (makes : source.Makes expr forest)
    (wider : ∀ {row}, expr.Arranges row → other.Arranges row) : source.Makes other forest :=
  ⟨wider makes.arranged, makes.fits⟩

/-- A terminal makes a leaf. -/
theorem makes_terminal (id : Nat) (text : String) (declared : source.isTerminal s = true) :
    source.Makes (.terminal s) [.node id s (some text) []] where
  arranged := .terminal s
  fits := by
    rw [Tree.nodesOfAll, Tree.nodes, Tree.nodesOfAll, List.append_nil, List.forall_mem_singleton]
    exact .terminal id text declared

/-- A nonterminal makes a node with those of its expression below it. -/
theorem Makes.node (id : Nat) (makes : source.Makes body forest)
    (found : source.expression? s = some body) :
    source.Makes (.nonterminal s) [.node id s none forest] where
  arranged := .nonterminal s
  fits := by
    rw [Tree.nodesOfAll, Tree.nodes, Tree.nodesOfAll, List.append_nil, List.forall_mem_cons]
    exact ⟨.nonterminal id found makes.arranged, makes.fits⟩

/-- What a run makes, if its expression uses symbols as declared. -/
theorem Descends.makes (wellFormed : source.WellFormed)
    (descends : source.Descends expr size stream outcome failures) (admits : source.Admits expr)
    (matched : outcome = .matched forest last after) : source.Makes expr forest := by
  induction descends generalizing forest last after with
  | terminal s size stream =>
    rcases takeTerminal_cases s size stream with ⟨token, rest, -, -, taken⟩ | ⟨-, stays⟩
    · rw [taken] at matched
      cases matched
      exact makes_terminal size token.token.text admits
    · rw [stays] at matched
      cases matched
  | undefined => cases matched
  | nonterminal found _ ih =>
    cases matched
    exact (ih (wellFormed.admits found) rfl).node _ found
  | nonterminalFailed => cases matched
  | chainNil =>
    cases matched
    exact makes_nil .chainNil
  | chainCons _ _ ihFirst ihLater =>
    obtain ⟨back, rfl, rfl⟩ := Descent.after_eq_matched_iff.mp matched
    exact (ihFirst admits.1 rfl).append (ihLater admits.2 rfl) .chainCons
  | chainFailed => cases matched
  | choiceNil => cases matched
  | choiceMatched rest _ ih =>
    cases matched
    exact (ih admits.2.1 rfl).imp (.choice List.mem_cons_self)
  | @choiceNext part rest _ _ _ _ _ _ _ later _ ihLater =>
    -- nothing matches in a choice without parts
    have some : rest ≠ [] := by
      rintro rfl
      rw [matched] at later
      cases later
    refine (ihLater ⟨some, admits.2.2⟩ matched).imp fun inner => ?_
    cases inner with
    | choice member inner => exact .choice (List.mem_cons_of_mem _ member) inner
  | optionalMatched _ ih =>
    cases matched
    exact (ih admits rfl).imp .optionalSome
  | @optionalFailed body =>
    cases matched
    exact makes_nil (.optionalNone body)
  | @manyFailed body =>
    cases matched
    exact makes_nil (.zeroOrMoreNone body)
  | @manyIdle body =>
    cases matched
    exact makes_nil (.zeroOrMoreNone body)
  | manyAgain _ _ _ ihInner ihLater =>
    obtain ⟨back, rfl, rfl⟩ := Descent.after_eq_matched_iff.mp matched
    exact (ihInner admits rfl).append (ihLater admits rfl) .zeroOrMoreSome
  | oneOrMore _ _ ihInner ihLater =>
    obtain ⟨back, rfl, rfl⟩ := Descent.after_eq_matched_iff.mp matched
    exact (ihInner admits rfl).append (ihLater admits rfl) .oneOrMore
  | oneOrMoreFailed => cases matched

end EbnfGrammar

end Predictive
