import Predictive.Tree.Arena

/-!
# Going about in an arena

From a node of an arena one goes up by the places of the parents, and down by those of the children.
On the way down, the nodes that are still to be visited are on a stack, whose top is at its end. The
children of a node are put there in reverse, so that the leftmost of them comes next, and everything
below it before its siblings.

An arena by itself does not tell that such a walk ends, and both are loops without a bound. There is
no result if a walk comes to a place without a node.

## Main definitions

* `Arena.gather` — visit the nodes on a stack and everything below them
* `Arena.descendantsNamed`, `Arena.text` — what is found below a node
* `Arena.ancestorNamed` — what is found above a node
-/

namespace Predictive

/-- Whether a node stands for a symbol of the given name. -/
def Slot.isNamed (names : NameTable) (name : String) (slot : Slot) : Bool :=
  names.name? slot.symbol == some name

namespace Arena

/-- Take the node on top of a stack: add what is picked from it to what was found before, and put
its children on the stack. The walk ends with what was found once the stack is empty. -/
def visitTop {α : Type} (arena : Arena) (pick : Nat → Slot → Option α) :
    List α × List Nat → Option (List α × List Nat ⊕ List α)
  | (found, stack) =>
    match stack.getLast? with
    | none => some (.inr found)
    | some id =>
      arena[id]?.map fun slot =>
        .inl (found ++ (pick id slot).toList, stack.dropLast ++ slot.children.reverse)

/-- Visit the nodes on a stack and everything below them, and add what is picked from a node to what
was found before. -/
def gather {α : Type} (arena : Arena) (pick : Nat → Slot → Option α) (found : List α)
    (stack : List Nat) : Option (List α) :=
  repeatM (arena.visitTop pick) (found, stack)

/-- The nodes strictly below a node with one of the given names. -/
def descendantsNamed (arena : Arena) (names : NameTable) (wanted : List String) (id : Nat) :
    Option (List Nat) :=
  match arena[id]? with
  | none => none
  | some slot =>
    arena.gather
      (fun id slot => if wanted.any fun name => slot.isNamed names name then some id else none)
      [] slot.children.reverse

/-- The texts matched by a node and the nodes below it, joined by a separator. -/
def text (arena : Arena) (separator : String) (id : Nat) : Option String :=
  (arena.gather (fun _ slot => slot.text) [] [id]).map separator.intercalate

/-- Look at a place on the way up. The way ends above the root, and at a node that passes a test. -/
def lookAt (arena : Arena) (test : Slot → Bool) : Option Nat → Option (Option Nat ⊕ Option Nat)
  | none => some (.inr none)
  | some id => arena[id]?.map fun slot => if test slot then .inr (some id) else .inl slot.parent

/-- The first node that passes a test, from a place on and then from parent to parent. -/
def climb (arena : Arena) (test : Slot → Bool) (place : Option Nat) : Option (Option Nat) :=
  repeatM (arena.lookAt test) place

/-- The nearest strict ancestor of the given name. -/
def ancestorNamed (arena : Arena) (names : NameTable) (name : String) (id : Nat) :
    Option (Option Nat) :=
  match arena[id]? with
  | none => none
  | some slot => arena.climb (Slot.isNamed names name) slot.parent

end Arena

end Predictive
