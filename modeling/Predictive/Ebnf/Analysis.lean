import Predictive.Analysis.Table
import Predictive.Ebnf.Grammar

/-!
# FIRST and FOLLOW sets of EBNF grammars

The sets of an EBNF grammar are read off its expressions directly. The FIRST set of an expression
is computed from those of its parts; what can follow an expression is handed down to its parts
and reaches the FOLLOW sets of the nonterminals that occur in it.

## Main definitions

* `Expr.first` — the FIRST set of an expression
* `Expr.follow` — hand down what can follow an expression
* `FirstSets.computeEbnf`, `FollowSets.computeEbnf` — the sets of an EBNF grammar
* `ParseTable.buildEbnf` — the table of an EBNF grammar
-/

namespace Predictive

namespace Expr

mutual

/-- The FIRST set of an expression, given those of the symbols in it. -/
def first (firsts : FirstSets) : Expr → SymbolSet
  | .terminal s => (firsts.get? s).getD .empty
  | .nonterminal s => (firsts.get? s).getD .empty
  | .chain parts => firstOfChain firsts .empty parts
  | .choice parts => firstOfChoice firsts .empty parts
  | .optional body => (body.first firsts).insert .epsilon
  | .zeroOrMore body => (body.first firsts).insert .epsilon
  | .oneOrMore body => body.first firsts

/-- The FIRST set of a chain, given the members found for the parts before it, all of which are
nullable. -/
def firstOfChain (firsts : FirstSets) (found : SymbolSet) : List Expr → SymbolSet
  | [] => found.insert .epsilon
  | part :: rest =>
    let begins := part.first firsts
    if begins.contains .epsilon then firstOfChain firsts (found.union begins) rest
    else (found.union begins).withoutEpsilon

/-- The FIRST set of a choice, given the members found for the parts before it. -/
def firstOfChoice (firsts : FirstSets) (found : SymbolSet) : List Expr → SymbolSet
  | [] => found
  | part :: rest => firstOfChoice firsts (found.union (part.first firsts)) rest

end

mutual

/-- Hand down the terminals that can follow an expression into the FOLLOW sets of the
nonterminals in it, and tell whether any set grew. -/
def follow (firsts : FirstSets) (next : SymbolSet) (follows : FollowSets) :
    Expr → FollowSets × Bool
  | .terminal _ => (follows, false)
  | .nonterminal s => follows.extend s next
  | .chain parts => followChain firsts next follows parts
  | .choice parts => followChoice firsts next follows parts
  | .optional body => body.follow firsts next follows
  | .zeroOrMore body => body.follow firsts (next.union (body.first firsts).withoutEpsilon) follows
  | .oneOrMore body => body.follow firsts (next.union (body.first firsts).withoutEpsilon) follows

/-- A part of a chain is followed by what begins the rest of the chain. -/
def followChain (firsts : FirstSets) (next : SymbolSet) (follows : FollowSets) :
    List Expr → FollowSets × Bool
  | [] => (follows, false)
  | part :: rest =>
    let inner := (firstOfChain firsts .empty rest).followedBy next
    let (follows, grew) := part.follow firsts inner follows
    let (follows, grewLater) := followChain firsts next follows rest
    (follows, grew || grewLater)

/-- Each part of a choice is followed by what follows the choice. -/
def followChoice (firsts : FirstSets) (next : SymbolSet) (follows : FollowSets) :
    List Expr → FollowSets × Bool
  | [] => (follows, false)
  | part :: rest =>
    let (follows, grew) := part.follow firsts next follows
    let (follows, grewLater) := followChoice firsts next follows rest
    (follows, grew || grewLater)

end

end Expr

namespace FirstSets

/-- Add what each production says, one after the other. -/
def passEbnf (grammar : EbnfGrammar) (firsts : FirstSets) : FirstSets × Bool :=
  sweep (fun firsts production => firsts.extend production.1 (production.2.first firsts))
    firsts grammar.productions.entries

/-- The FIRST sets of an EBNF grammar. -/
def computeEbnf (grammar : EbnfGrammar) : FirstSets :=
  let firsts := initial grammar.terminals.items grammar.nonterminals
  saturate (passEbnf grammar) (firsts.passBound grammar.terminals.items) firsts

end FirstSets

namespace FollowSets

/-- Add what each production says, one after the other. -/
def passEbnf (grammar : EbnfGrammar) (firsts : FirstSets) (follows : FollowSets) :
    FollowSets × Bool :=
  sweep (fun follows production =>
    production.2.follow firsts (follows.get production.1) follows)
    follows grammar.productions.entries

/-- The FOLLOW sets of an EBNF grammar, given its FIRST sets. -/
def computeEbnf (grammar : EbnfGrammar) (firsts : FirstSets) : FollowSets :=
  let follows := initial grammar.nonterminals grammar.start
  saturate (passEbnf grammar firsts) (follows.passBound grammar.terminals.items) follows

end FollowSets

namespace ParseTable

/-- The table of an EBNF grammar, whose cells hold the whole expression of a nonterminal. -/
def buildEbnf (grammar : EbnfGrammar) (firsts : FirstSets) (follows : FollowSets) :
    ParseTable Expr :=
  grammar.productions.entries.foldl (fun table production =>
    table.fill production.1 (production.2.first firsts) (follows.get production.1) production.2)
    (initial grammar.nonterminals)

/-- The readable form of the table of an EBNF grammar. -/
def renderEbnf (table : ParseTable Expr) (names : NameTable) : Except Fault String :=
  table.renderWith names fun _ expr => expr.render names

end ParseTable

end Predictive
