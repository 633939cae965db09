import Predictive.Ebnf.Descent
import Predictive.Tree.Arena

/-!
# Recursive descent into an arena

Recursive descent makes its nodes in an arena. The nodes that an expression makes have no parent at
first; a nonterminal is made after the nodes below it and adopts the outermost of them, and the root
comes first and adopts at the end. Where a part fails, or an iteration takes no token, the arena is
cut back to the length that it had before. Only the lengths tell which nodes are dropped.

## Main definitions

* `Planting` — the outcome of matching an expression
* `EbnfGrammar.plant` — match an expression and make its nodes
* `EbnfGrammar.parseInto` — parse a whole input
-/

namespace Predictive

/-- The outcome of matching an expression. -/
structure Planting where
  /-- The outermost nodes of the expression, or nothing if it does not match. -/
  roots : Option (List Nat)
  /-- The stream from now on. -/
  stream : TokenStream
  /-- The arena from now on. -/
  arena : Arena

/-- Put nodes in front of those of an outcome. -/
def Planting.after (front : List Nat) (planting : Planting) : Planting :=
  { planting with roots := planting.roots.map (front ++ ·) }

namespace EbnfGrammar

/-- Match a terminal. -/
def plantTerminal (s : Symbol) (stream : TokenStream) (arena : Arena) : Planting :=
  if stream.peekSymbol? = some s then
    match stream.next? with
    | some (taken, stream) =>
      let (id, arena) := arena.push s none
      ⟨some [id], stream, arena.setText id taken.token.text⟩
    | none => ⟨none, stream, arena⟩
  else ⟨none, stream, arena⟩

mutual

/-- Match an expression and make its nodes. There is no outcome if the fuel, a bound on the depth of
the recursion, does not suffice. -/
def plant (grammar : EbnfGrammar) : Nat → Expr → TokenStream → Arena → Option Planting
  | 0, _, _, _ => none
  | fuel + 1, expr, stream, arena =>
    match expr with
    | .terminal s => some (plantTerminal s stream arena)
    | .nonterminal s =>
      match grammar.expression? s with
      | none => some ⟨none, stream, arena⟩
      | some body =>
        match plant grammar fuel body stream arena with
        | none => none
        | some ⟨none, stream, grown⟩ => some ⟨none, stream, grown.truncate arena.length⟩
        | some ⟨some children, stream, grown⟩ =>
          let (id, grown) := grown.push s none
          some ⟨some [id], stream, grown.adopt id children⟩
    | .chain parts => plantChain grammar fuel arena.length parts stream arena
    | .choice parts => plantChoice grammar fuel parts stream arena
    | .optional body =>
      match plant grammar fuel body stream arena with
      | none => none
      | some planting => some { planting with roots := some (planting.roots.getD []) }
    | .zeroOrMore body => plantMany grammar fuel body stream arena
    | .oneOrMore body =>
      match plant grammar fuel body stream arena with
      | some ⟨some roots, stream, arena⟩ =>
        (plantMany grammar fuel body stream arena).map (Planting.after roots)
      | outcome => outcome

/-- Match the parts of a chain in order. The length is that of the arena before the chain. -/
def plantChain (grammar : EbnfGrammar) :
    Nat → Nat → List Expr → TokenStream → Arena → Option Planting
  | 0, _, _, _, _ => none
  | _ + 1, _, [], stream, arena => some ⟨some [], stream, arena⟩
  | fuel + 1, length, part :: rest, stream, arena =>
    match plant grammar fuel part stream arena with
    | none => none
    | some ⟨none, stream, arena⟩ => some ⟨none, stream, arena.truncate length⟩
    | some ⟨some roots, stream, arena⟩ =>
      (plantChain grammar fuel length rest stream arena).map (Planting.after roots)

/-- Match the first part of a choice that matches. -/
def plantChoice (grammar : EbnfGrammar) : Nat → List Expr → TokenStream → Arena → Option Planting
  | 0, _, _, _ => none
  | _ + 1, [], stream, arena => some ⟨none, stream, arena⟩
  | fuel + 1, part :: rest, stream, arena =>
    match plant grammar fuel part stream arena with
    | some ⟨none, stream, grown⟩ =>
      plantChoice grammar fuel rest stream (grown.truncate arena.length)
    | outcome => outcome

/-- Match the body of a repetition as long as it matches and takes a token. -/
def plantMany (grammar : EbnfGrammar) : Nat → Expr → TokenStream → Arena → Option Planting
  | 0, _, _, _ => none
  | fuel + 1, body, stream, arena =>
    match plant grammar fuel body stream arena with
    | none => none
    | some ⟨none, after, grown⟩ => some ⟨some [], after, grown⟩
    | some ⟨some roots, after, grown⟩ =>
      if stream.position < after.position then
        (plantMany grammar fuel body after grown).map (Planting.after roots)
      else some ⟨some [], after, grown.truncate arena.length⟩

end

/-- The result of matching the expression of the start symbol: the arena, in which the root has
adopted the outermost nodes, or an error. The end of input must come next. -/
def harvest (grammar : EbnfGrammar) (root : Nat) (planting : Planting) :
    Except DescentError Arena :=
  match planting.roots with
  | none => .error (grammar.noMatch planting.stream)
  | some children =>
    let arena := planting.arena.adopt root children
    if planting.stream.peekSymbol? = some .eof then .ok arena
    else .error (.trailingInput planting.stream.position (foundName planting.stream))

/-- Parse a whole input by recursive descent into an arena whose first node is the root. -/
def parseInto (grammar : EbnfGrammar) (input : Input) : Option (Except DescentError Arena) :=
  match TokenStream.ofInput grammar.names input with
  | .error error => some (.error (.lexical error))
  | .ok stream =>
    let (root, arena) := Arena.push [] grammar.start none
    match grammar.expression? grammar.start with
    | none => some (.error (grammar.noMatch stream))
    | some expr =>
      (grammar.plant (grammar.depthBound stream.rest.length) expr stream arena).map
        (grammar.harvest root)

end EbnfGrammar

end Predictive
