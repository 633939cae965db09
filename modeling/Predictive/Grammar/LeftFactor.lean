import Predictive.Grammar.Basic
import Predictive.Worklist

/-!
# Left factoring

Alternatives of one production that begin alike cannot be told apart by one symbol of
lookahead. Left factoring replaces the first group of alternatives with the same first symbol by
their longest common beginning, followed by a new nonterminal that derives what is left of each.
It goes on until no production has such a group.

## Main definitions

* `Grammar.firstGroup?` — the first group of alternatives with the same first symbol
* `Grammar.factorOnce` — factor out the first group of one production
* `Grammar.leftFactor` — factor until no group is left
-/

namespace Predictive

namespace Grammar

/-- The beginning that two strings share. -/
def commonStart : List Symbol → List Symbol → List Symbol
  | s :: rest, t :: others => if s = t then s :: commonStart rest others else []
  | _, _ => []

/-- The beginning that a string shares with all strings of a list. -/
def sharedStart (first : List Symbol) (others : List (List Symbol)) : List Symbol :=
  others.foldl commonStart first

/-- Whether an alternative begins with a symbol. -/
def beginsWith (head : Symbol) (alternative : Alternative) : Bool :=
  alternative.head? == some head

/-- A group of alternatives that begin with the same symbol, in its surroundings. -/
structure Group where
  /-- The alternatives before the first member. -/
  before : List Alternative
  /-- The first member. -/
  leader : Alternative
  /-- The alternatives after the first member. -/
  after : List Alternative
  /-- The symbol with which the members begin. -/
  head : Symbol

/-- The members of a group. -/
def Group.members (group : Group) : List Alternative :=
  group.leader :: group.after.filter (beginsWith group.head)

/-- The alternatives after the first member that are no members. -/
def Group.others (group : Group) : List Alternative :=
  group.after.filter fun alternative => !beginsWith group.head alternative

/-- The beginning that all members share. -/
def Group.shared (group : Group) : List Symbol :=
  sharedStart group.leader.symbols ((group.members.drop 1).map Alternative.symbols)

/-- What is left of each member after the shared beginning. -/
def Group.suffixes (group : Group) : List Alternative :=
  group.members.map fun alternative =>
    .ofSymbols (alternative.symbols.drop group.shared.length)

/-- The alternatives with the group replaced by its shared beginning and a symbol. -/
def Group.replaceBy (group : Group) (factored : Symbol) : List Alternative :=
  group.before ++ .ofSymbols (group.shared ++ [factored]) :: group.others

/-- The first group with at least two members, given the alternatives that were passed over. -/
def firstGroupFrom? (before : List Alternative) : List Alternative → Option Group
  | [] => none
  | alternative :: after =>
    match alternative.head? with
    | some head =>
      if after.any (beginsWith head) then some ⟨before, alternative, after, head⟩
      else firstGroupFrom? (before ++ [alternative]) after
    -- the empty alternative shares its beginning with no other
    | none => firstGroupFrom? (before ++ [alternative]) after

/-- The first group of alternatives with the same first symbol. -/
def firstGroup? (alternatives : List Alternative) : Option Group :=
  firstGroupFrom? [] alternatives

/-- The candidates for the name of a new nonterminal: the name itself, then numbered ones. -/
def candidateName (name : String) (n : Nat) : String :=
  if n = 0 then name else name ++ "_" ++ toString n

/-- The first candidate that is not taken. Among more candidates than there are names, one is
free. -/
def freshName (names : NameTable) (name : String) : String :=
  match (List.range (names.size + 1)).find? fun n => !names.contains (candidateName name n) with
  | some n => candidateName name n
  | none => name

/-- Factor out the first group of a production, if it has one. The new nonterminal is named for
the production and the place of the group. -/
def factorOnce (grammar : Grammar) (s : Symbol) : Except Fault (Option (Symbol × Grammar)) :=
  match (grammar.alternatives? s).bind firstGroup? with
  | none => .ok none
  | some group => do
    let stem := (← grammar.names.name s) ++ "_LF" ++ toString group.before.length
    let (factored, names) ← grammar.names.intern (freshName grammar.names stem)
    let grammar := { grammar with names }
    return some (factored,
      (grammar.setAlternatives factored group.suffixes).setAlternatives s
        (group.replaceBy factored))

/-- The number of occurrences of symbols in all alternatives. -/
def occurrenceCount (grammar : Grammar) : Nat :=
  (grammar.productions.entries.flatMap fun production =>
    production.2.flatMap Alternative.symbols).length

/-- Factor the pending nonterminals. A production that was factored is looked at again, and so
is the new one. -/
def factorPending : Nat → Worklist Symbol → Grammar → Bool → Except Fault (Grammar × Bool)
  | 0, _, grammar, changed => .ok (grammar, changed)
  | fuel + 1, pending, grammar, changed =>
    match pending.pop? with
    | none => .ok (grammar, changed)
    | some (s, pending) => do
      match ← grammar.factorOnce s with
      | none => factorPending fuel pending grammar changed
      | some (factored, grammar) => factorPending fuel (pending.extend [s, factored]) grammar true

/-- Factor until no two alternatives of a production begin alike, and tell whether anything
changed. Each factoring removes an occurrence of a symbol of the given grammar, since a new
symbol occurs only once; this bounds the number of nonterminals that are looked at. -/
def leftFactor (grammar : Grammar) : Except Fault (Grammar × Bool) :=
  factorPending (grammar.nonterminals.length + 2 * grammar.occurrenceCount + 1)
    (Worklist.ofList grammar.nonterminals) grammar false

end Grammar

end Predictive
