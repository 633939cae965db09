import Predictive.Ebnf.Grammar
import Predictive.Lexer.Stream
import Predictive.Tree

/-!
# Recursive descent

An expression is matched against the front of a token stream by going through its parts. A choice
is committed to its first part that matches, a repetition goes on as long as its body matches and
takes a token, and tokens taken by a part that fails in the end are not given back. The number of
a nonterminal's node comes after those of the nodes below it; the numbers that a failed part gave
out are given out again. As in the machine, numbers have no bound.

## Main definitions

* `Descent` — the outcome of matching an expression
* `EbnfGrammar.descend` — match an expression
* `EbnfGrammar.parse` — parse a whole input
* `DescentError` — why an input does not fit
-/

namespace Predictive

/-- The outcome of matching an expression. -/
inductive Descent where
  /-- The expression matches: the trees of its symbols, the number of nodes from now on, and the
  stream after it. -/
  | matched (forest : List Tree) (size : Nat) (stream : TokenStream)
  /-- The expression does not match; tokens may have been taken. -/
  | failed (stream : TokenStream)

/-- Put trees in front of those of an outcome. -/
def Descent.after (forest : List Tree) : Descent → Descent
  | .matched more size stream => .matched (forest ++ more) size stream
  | .failed stream => .failed stream

/-- Why an input does not fit. -/
inductive DescentError where
  /-- The input is not recognized by the lexer. -/
  | lexical (error : LexError)
  /-- The start symbol does not match; the token found at a position is told. -/
  | noMatch (start : String) (position : Nat) (found : String)
  /-- The start symbol matches, and a token is left. -/
  | trailingInput (position : Nat) (found : String)
  /-- The start symbol has no name. -/
  | fault (fault : Fault)
  deriving DecidableEq

/-- The wording of an error, or nothing where a fault cut the parse short. -/
def DescentError.message? : DescentError → Option String
  | .lexical error => some ("lexical error: " ++ error.message)
  | .noMatch start position found =>
    some ("no match for `" ++ start ++ "' (at token #" ++ toString position ++ ": " ++ found ++ ")")
  | .trailingInput position found =>
    some ("unexpected trailing input at token #" ++ toString position ++ ": " ++ found)
  | .fault _ => none

namespace EbnfGrammar

/-- Match a terminal. -/
def takeTerminal (s : Symbol) (size : Nat) (stream : TokenStream) : Descent :=
  if stream.peekSymbol? = some s then
    match stream.next? with
    | some (taken, stream) => .matched [.node size s (some taken.token.text) []] (size + 1) stream
    | none => .failed stream
  else .failed stream

mutual

/-- Match an expression, given the number of nodes so far. There is no outcome if the fuel, a bound
on the depth of the recursion, does not suffice. -/
def descend (grammar : EbnfGrammar) : Nat → Expr → Nat → TokenStream → Option Descent
  | 0, _, _, _ => none
  | fuel + 1, expr, size, stream =>
    match expr with
    | .terminal s => some (takeTerminal s size stream)
    | .nonterminal s =>
      match grammar.expression? s with
      | none => some (.failed stream)
      | some body =>
        match descend grammar fuel body size stream with
        -- the node is numbered after all nodes below it
        | some (.matched forest after stream) =>
          some (.matched [.node after s none forest] (after + 1) stream)
        | outcome => outcome
    | .chain parts => descendChain grammar fuel parts size stream
    | .choice parts => descendChoice grammar fuel parts size stream
    | .optional body =>
      match descend grammar fuel body size stream with
      | some (.failed stream) => some (.matched [] size stream)
      | outcome => outcome
    | .zeroOrMore body => descendMany grammar fuel body size stream
    | .oneOrMore body =>
      match descend grammar fuel body size stream with
      | some (.matched forest size stream) =>
        (descendMany grammar fuel body size stream).map (Descent.after forest)
      | outcome => outcome

/-- Match the parts of a chain in order. -/
def descendChain (grammar : EbnfGrammar) : Nat → List Expr → Nat → TokenStream → Option Descent
  | 0, _, _, _ => none
  | _ + 1, [], size, stream => some (.matched [] size stream)
  | fuel + 1, part :: rest, size, stream =>
    match descend grammar fuel part size stream with
    | some (.matched forest size stream) =>
      (descendChain grammar fuel rest size stream).map (Descent.after forest)
    | outcome => outcome

/-- Match the first part of a choice that matches. -/
def descendChoice (grammar : EbnfGrammar) : Nat → List Expr → Nat → TokenStream → Option Descent
  | 0, _, _, _ => none
  | _ + 1, [], _, stream => some (.failed stream)
  | fuel + 1, part :: rest, size, stream =>
    match descend grammar fuel part size stream with
    -- the next part starts where the failed one stopped, with the numbers from before it
    | some (.failed stream) => descendChoice grammar fuel rest size stream
    | outcome => outcome

/-- Match the body of a repetition as long as it matches and takes a token. -/
def descendMany (grammar : EbnfGrammar) : Nat → Expr → Nat → TokenStream → Option Descent
  | 0, _, _, _ => none
  | fuel + 1, body, size, stream =>
    match descend grammar fuel body size stream with
    | none => none
    | some (.failed after) => some (.matched [] size after)
    | some (.matched forest sizeAfter after) =>
      if stream.position < after.position then
        (descendMany grammar fuel body sizeAfter after).map (Descent.after forest)
      -- an iteration without a token leaves no nodes
      else some (.matched [] size after)

end

/-- The depth beyond which the recursion does not end. Along a chain of calls the position never
goes back, and a call that comes up again at the same position comes up for good. -/
def depthBound (grammar : EbnfGrammar) (tokens : Nat) : Nat :=
  (tokens + 2) * (Expr.sizeOfAll (grammar.productions.entries.map Prod.snd) + 1)

/-- The name of the next token, which is empty behind the last one. -/
def foundName (stream : TokenStream) : String :=
  match stream.peek? with
  | some next => next.token.name
  | none => ""

/-- The error if the start symbol does not match. -/
def noMatch (grammar : EbnfGrammar) (stream : TokenStream) : DescentError :=
  match grammar.names.name grammar.start with
  | .ok name => .noMatch name stream.position (foundName stream)
  | .error fault => .fault fault

/-- The result of matching the expression of the start symbol: the tree with the number of its
nodes, or an error. The end of input must come next. -/
def conclude (grammar : EbnfGrammar) : Descent → Except DescentError (Tree × Nat)
  | .failed stream => .error (grammar.noMatch stream)
  | .matched forest size stream =>
    if stream.peekSymbol? = some .eof then .ok (.node 0 grammar.start none forest, size)
    else .error (.trailingInput stream.position (foundName stream))

/-- Parse a whole input by recursive descent: the tree with the number of its nodes, or an error.
There is no result if the recursion would not end, which takes a left-recursive grammar. -/
def parse (grammar : EbnfGrammar) (input : Input) : Option (Except DescentError (Tree × Nat)) :=
  match TokenStream.ofInput grammar.names input with
  | .error error => some (.error (.lexical error))
  | .ok stream =>
    match grammar.expression? grammar.start with
    | none => some (.error (grammar.noMatch stream))
    | some expr =>
      (grammar.descend (grammar.depthBound stream.rest.length) expr 1 stream).map
        grammar.conclude

end EbnfGrammar

end Predictive
