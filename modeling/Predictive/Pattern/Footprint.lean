import Predictive.Pattern.Basic
import Predictive.Text.Utf8

/-!
# The size of a pattern

A pattern is accepted only if the automaton that reads its bytes, and the one that reads them
from the end, stay within a limit. This module lays out both automata, state after state,
and keeps of them nothing but their size: the number of states, and the memory of the links
that go out of a state beyond what the state itself has room for.

A set of characters is laid out as a tree of byte ranges in which equal ends are shared.
Which ends are at hand is looked up in a table where each key has one slot, and a later key
takes the slot of an earlier one; an end that has lost its slot is laid out anew.

## Main definitions

* `Footprint` — the size of what has been laid out
* `Pattern.measure` — lay out a pattern
* `Pattern.fits` — whether both automata stay within the limit
-/

namespace Predictive

/-- The size of what has been laid out of an automaton. -/
structure Footprint where
  /-- The number of states. -/
  states : Nat
  /-- The memory of links beyond what the states have room for. -/
  links : Nat
  deriving DecidableEq

namespace Footprint

/-- The memory of a state. -/
def stateSize : Nat := 32

/-- The memory of a link that is followed without reading. -/
def wayOutSize : Nat := 4

/-- The memory of a link that is followed by reading a byte of a range. -/
def rangeSize : Nat := 8

/-- The memory that an automaton may take. -/
def limit : Nat := 10 * 1024 * 1024

/-- Nothing has been laid out. -/
def zero : Footprint := ⟨0, 0⟩

/-- The memory of what has been laid out. -/
def memory (footprint : Footprint) : Nat := stateSize * footprint.states + footprint.links

/-- The size of two parts together. -/
def add (first second : Footprint) : Footprint :=
  ⟨first.states + second.states, first.links + second.links⟩

/-- Lay out more, unless the limit would be passed. -/
def grow? (footprint : Footprint) (states links : Nat) : Option Footprint :=
  let grown := footprint.add ⟨states, links⟩
  if grown.memory ≤ limit then some grown else none

/-- Do a step `n` times. -/
def times (step : Footprint → Option Footprint) : Nat → Footprint → Option Footprint
  | 0, footprint => some footprint
  | n + 1, footprint =>
    match step footprint with
    | none => none
    | some footprint => times step n footprint

end Footprint

/-- In which direction an automaton reads. -/
inductive Direction where
  /-- From the start to the end. -/
  | forward
  /-- From the end to the start. -/
  | backward
  deriving DecidableEq

/-! ### Sets of characters -/

/-- A layout in progress, with a table of the states that can be shared. -/
structure Weaver where
  /-- In each slot a key and its state. -/
  slots : Array (Option (List Nat × Nat))
  /-- What has been laid out. -/
  footprint : Footprint

namespace Weaver

/-- A layout in progress with no state to be shared, and the given number of slots. -/
def start (slots : Nat) (footprint : Footprint) : Weaver :=
  ⟨Array.replicate slots none, footprint⟩

/-- The slot of a key among `count` slots. -/
def slotOf (count : Nat) (key : List Nat) : Nat :=
  let scatter (hash : UInt64) (n : Nat) : UInt64 := (hash ^^^ n.toUInt64) * 1099511628211
  (key.foldl scatter 14695981039346656037).toNat % count

/-- The state of a key: the one in its slot, or a new one that takes the slot. -/
def state? (weaver : Weaver) (key : List Nat) (links : Nat) : Option (Nat × Weaver) :=
  let slot := slotOf weaver.slots.size key
  let found := weaver.slots[slot]?.join.bind fun (other, state) =>
    if other = key then some state else none
  match found with
  | some state => some (state, weaver)
  | none => do
    let state := weaver.footprint.states
    let footprint ← weaver.footprint.grow? 1 links
    return (state, ⟨weaver.slots.setIfInBounds slot (some (key, state)), footprint⟩)

end Weaver

/-- A state of a tree of byte ranges that may still get links. -/
structure Stem where
  /-- The links that are settled, the latest first: the range of bytes, and the state they
  lead to. -/
  settled : List (Nat × Nat × Nat)
  /-- The range of bytes of the link that leads to the stem below, or to the end of the tree. -/
  latest : Option (Nat × Nat)

namespace Stem

/-- The links, once it is known where the latest one leads to. -/
def settle (stem : Stem) (next : Nat) : List (Nat × Nat × Nat) :=
  match stem.latest with
  | some (low, high) => (low, high, next) :: stem.settled
  | none => stem.settled

/-- The states of stems, the topmost first: that of the topmost is the result, and `target` is
the state at the end of the tree. -/
def close (target : Nat) : List Stem → Weaver → Option (Nat × Weaver)
  | [], weaver => some (target, weaver)
  | stem :: below, weaver => do
    let (next, weaver) ← close target below weaver
    let links := (stem.settle next).reverse
    weaver.state? (links.flatMap fun (low, high, next) => [low, high, next])
      (Footprint.rangeSize * links.length)

/-- Add the ranges of one more sequence of bytes. The stems that it does not go through are
closed. -/
def add (target : Nat) : List Stem → List (Nat × Nat) → Weaver → Option (List Stem × Weaver)
  | stem :: below, range :: rest, weaver => do
    if stem.latest = some range then
      let (below, weaver) ← add target below rest weaver
      return (stem :: below, weaver)
    else
      let (next, weaver) ← close target below weaver
      return (⟨stem.settle next, some range⟩ :: rest.map (fun range => ⟨[], some range⟩), weaver)
  | stems, _, weaver => some (stems, weaver)

end Stem

/-- Lay out the tree of the byte ranges of a set. -/
def measureTree (sequences : List (List (Nat × Nat))) (footprint : Footprint) :
    Option Footprint := do
  let target := footprint.states
  let weaver := Weaver.start 10000 (← footprint.grow? 1 0)
  let (stems, weaver) ← sequences.foldlM
    (fun (stems, weaver) sequence => Stem.add target stems sequence weaver)
    ([⟨[], none⟩], weaver)
  let (_, weaver) ← Stem.close target stems weaver
  return weaver.footprint

/-- Lay out a sequence of bytes that is read from its last one. The state before which it has
been read is the result. -/
def measureChain (sequence : List (Nat × Nat)) (target : Nat) (weaver : Weaver) :
    Option (Nat × Weaver) :=
  sequence.foldlM (fun (target, weaver) range => weaver.state? [target, range.1, range.2] 0)
    (target, weaver)

/-- Lay out the byte ranges of a set that are read from the last one: a chain for each
sequence. -/
def measureChains (sequences : List (List (Nat × Nat))) (footprint : Footprint) :
    Option Footprint := do
  let target := footprint.states + 1
  let weaver := Weaver.start 1000 (← footprint.grow? 2 0)
  let weaver ← sequences.foldlM
    (fun weaver sequence => do
      let (_, weaver) ← measureChain sequence target weaver
      return { weaver with footprint := ← weaver.footprint.grow? 0 Footprint.wayOutSize })
    weaver
  return weaver.footprint

/-- Lay out a set of characters. Seven-bit characters take one state with a link for each
range. -/
def CharSet.measure (direction : Direction) (set : CharSet) (footprint : Footprint) :
    Option Footprint :=
  if set.isAscii then footprint.grow? 2 (Footprint.rangeSize * set.ranges.length)
  else
    let sequences := set.codePoints.flatMap fun (low, high) => Text.byteSequences low high
    match direction with
    | .forward => measureTree sequences footprint
    | .backward => measureChains sequences footprint

/-! ### Alternations of literals -/

/-- Words between which no empty word stands, each with its first byte apart. -/
def wordChunks : List (List Nat) → List (List (Nat × List Nat))
  | [] => [[]]
  | [] :: rest => [] :: wordChunks rest
  | (byte :: word) :: rest =>
    match wordChunks rest with
    | chunk :: others => ((byte, word) :: chunk) :: others
    | [] => [[(byte, word)]]

/-- Words without repetitions of the empty word at their front. -/
def dropRepeatedEnds : List (List Nat) → List (List Nat)
  | [] :: rest => [] :: rest.dropWhile List.isEmpty
  | words => words

/-- The size of the tree of words that are told apart byte by byte. A word that ends parts
the words before it from those after it, as they differ in preference. A state from which
no byte is read is the end of the tree. `depth` is the length of the longest word. -/
def wordTree (depth : Nat) (words : List (List Nat)) : Footprint :=
  match depth with
  | 0 => .zero
  | depth + 1 =>
    if words.all List.isEmpty then .zero
    else
      let chunks := wordChunks (dropRepeatedEnds words)
      let ends := chunks.length - 1
      let filled := chunks.filter fun chunk => !chunk.isEmpty
      let fork : Footprint := ⟨1, Footprint.wayOutSize * (filled.length + ends)⟩
      filled.foldl (fun total chunk =>
        let bytes := (chunk.map Prod.fst).eraseDups
        let links := if bytes.length = 1 then 0 else Footprint.rangeSize * bytes.length
        bytes.foldl (fun total byte =>
            total.add (wordTree depth
              (chunk.filterMap fun (first, word) => if first = byte then some word else none)))
          (total.add ⟨1, links⟩)) fork

/-- The bytes of a literal in the order in which they are read. -/
def literalBytes? (direction : Direction) : Pattern → Option (List Nat)
  | .literal text =>
    let bytes := text.flatMap fun c => Text.encode c.toNat
    match direction with
    | .forward => some bytes
    | .backward => some bytes.reverse
  | _ => none

/-- The size of an alternation all branches of which are literals. -/
def literalsFootprint? (direction : Direction) (branches : List Pattern) : Option Footprint :=
  (branches.mapM (literalBytes? direction)).map fun words =>
    (wordTree (words.foldl (fun depth word => max depth word.length) 0) words).add ⟨1, 0⟩

/-! ### Patterns -/

/-- Join branch number `branch` of an alternation to those before it. The fork and the end of
an alternation are laid out after its second branch. -/
def joinBranch? (branch : Nat) (footprint : Footprint) : Option Footprint :=
  match branch with
  | 0 => some footprint
  | 1 => footprint.grow? 2 (2 * Footprint.wayOutSize)
  | _ => footprint.grow? 0 Footprint.wayOutSize

namespace Pattern

/-- Lay out a pattern. `branch` is the number of branches of the same alternation that have
been laid out before. -/
def measure (direction : Direction) (branch : Nat) : Pattern → Footprint → Option Footprint
  | .empty, footprint => footprint.grow? 1 0
  | .literal text, footprint => footprint.grow? (Text.byteSize text) 0
  | .oneOf set, footprint => set.measure direction footprint
  | .assert _, footprint => footprint.grow? 1 0
  | .group _ body, footprint =>
    -- the ends of a group are marked in one direction only
    match direction with
    | .forward => do (← body.measure direction 0 (← footprint.grow? 1 0)).grow? 1 0
    | .backward => body.measure direction 0 footprint
  | .seq first second, footprint =>
    match direction with
    | .forward => do second.measure direction 0 (← first.measure direction 0 footprint)
    | .backward => do first.measure direction 0 (← second.measure direction 0 footprint)
  | .alt preferred other, footprint =>
    let literals :=
      if branch = 0 then literalsFootprint? direction (preferred :: other.branches) else none
    match literals with
    | some ⟨states, links⟩ => footprint.grow? states links
    | none => do
      let footprint ← joinBranch? branch (← preferred.measure direction 0 footprint)
      let footprint ← other.measure direction (branch + 1) footprint
      match other with
      | .alt _ _ => return footprint
      | _ => joinBranch? (branch + 1) footprint
  | .repeated body least most _, footprint =>
    let once := body.measure direction 0
    let fork := 2 * Footprint.wayOutSize
    let optional := fun footprint => do (← once (← footprint.grow? 1 0)).grow? 0 fork
    match least, most with
    | 0, none =>
      -- where an iteration may be empty, whether to begin is asked apart from whether to go on
      if body.mustRead then optional footprint
      else do (← once footprint).grow? 3 (2 * fork)
    | n + 1, none => do (← once (← Footprint.times once n footprint)).grow? 1 fork
    | 0, some 1 => do (← optional footprint).grow? 1 0
    | least, some most =>
      if least = most then Footprint.times once least footprint
      else do
        let footprint ←
          if least = 0 then footprint.grow? 1 0 else Footprint.times once least footprint
        Footprint.times optional (most - least) (← footprint.grow? 1 0)

/-- Lay out what stands before a pattern: unless a match can only begin where the reading
begins, bytes are skipped. -/
def measureApproach (anchored : Bool) : Option Footprint :=
  if anchored then Footprint.zero.grow? 1 0
  else Footprint.zero.grow? 3 (2 * Footprint.wayOutSize + Footprint.rangeSize)

/-- The size of the automaton that reads the bytes of a pattern in a direction. -/
def footprint? (direction : Direction) (pattern : Pattern) : Option Footprint :=
  match direction with
  | .forward => do
    let start ← measureApproach (pattern.opensWith .textStart)
    (← pattern.measure .forward 0 (← start.grow? 1 0)).grow? 2 0
  | .backward => do
    let start ← measureApproach (pattern.endsWith .textEnd)
    (← pattern.measure .backward 0 start).grow? 1 0

/-- Whether both automata of a pattern stay within the limit. -/
def fits (pattern : Pattern) : Bool :=
  (pattern.footprint? .forward).isSome && (pattern.footprint? .backward).isSome

end Pattern

end Predictive
