import Mathlib.Data.List.Nodup
import Predictive.Worklist

/-!
# Worklists are queues without repetition

A worklist keeps its items twice, in a queue and in a set, and no operation looks whether the two
agree. They do, from the empty worklist on: a push adds to both or to neither, and a pop takes one
item out of both. What the set says of an item is therefore true of the queue, so that an item is
refused exactly while it is pending.

A history tells what happened to a worklist, event by event, where queueing a list counts as one
event for each item. The items that were queued are, in this order, those that were taken and those
that are pending. As the pending items are distinct, an item that is taken is no longer pending, and
before it can be taken once more it has to be queued once more.

## Main definitions

* `Worklist.InStep` — the queue and the set hold the same items, none of them twice
* `Worklist.Call`, `Worklist.Event` — what is asked of a worklist, and what happens to it
* `Worklist.run` — a sequence of calls, with its history
* `Worklist.Passes` — a history as a relation between worklists
* `Worklist.IsQueue` — what makes a worklist with a history a queue without repetition

## Main results

* `Worklist.InStep.push`, `Worklist.InStep.pop` — one step keeps the two containers in step
* `Worklist.Passes.queued_eq` — first in, first out
* `Worklist.Passes.not_mem_pending` — an item that is not queued does not become pending
* `Worklist.run_isQueue` — every run of every worklist is that of a queue without repetition
-/

namespace Predictive

namespace Worklist

variable {α : Type} {list next last rest : Worklist α} {item other : α} {items : List α}

/-! ### The two containers -/

/-- The queue and the set beside it hold the same items, none of them twice. -/
structure InStep (list : Worklist α) : Prop where
  /-- No item waits twice. -/
  nodup : list.pending.Nodup
  /-- The items in the set are those that are pending. -/
  waiting_iff : ∀ item, item ∈ list.waiting.items ↔ item ∈ list.pending

theorem inStep_empty : (empty : Worklist α).InStep := ⟨List.nodup_nil, fun _ => Iff.rfl⟩

/-- A worklist on which nothing is pending is the empty one. -/
theorem InStep.eq_empty (inStep : list.InStep) (none : list.pending = []) : list = empty := by
  obtain ⟨pending, ⟨waiting, nodup⟩⟩ := list
  obtain rfl : pending = [] := none
  obtain rfl : waiting = [] :=
    List.eq_nil_iff_forall_not_mem.mpr fun item => (inStep.waiting_iff item).not.mpr List.not_mem_nil
  rfl

variable [DecidableEq α]

theorem pop?_eq_none_iff : list.pop? = none ↔ list.pending = [] := by
  unfold pop?
  split
  · next none => simp [none]
  · next first later some => simp [some]

/-- What a pop takes out of each container. -/
theorem pop?_cases (taken : list.pop? = some (item, rest)) :
    list.pending = item :: rest.pending ∧ rest.waiting = list.waiting.swapRemove item := by
  unfold pop? at taken
  split at taken
  · cases taken
  · next first later pending =>
    cases taken
    exact ⟨pending, rfl⟩

theorem pending_of_pop? (taken : list.pop? = some (item, rest)) :
    list.pending = item :: rest.pending := (pop?_cases taken).1

/-- When an item has been taken, it is no longer pending. -/
theorem InStep.not_mem_of_pop (inStep : list.InStep) (taken : list.pop? = some (item, rest)) :
    item ∉ rest.pending := by
  have nodup := inStep.nodup
  rw [pending_of_pop? taken, List.nodup_cons] at nodup
  exact nodup.1

/-- A pop takes the first item out of both containers. -/
theorem InStep.pop (inStep : list.InStep) (taken : list.pop? = some (item, rest)) :
    rest.InStep := by
  obtain ⟨pending, waiting⟩ := pop?_cases taken
  have nodup := inStep.nodup
  rw [pending] at nodup
  refine ⟨nodup.of_cons, fun other => ?_⟩
  rw [waiting, OrderedSet.mem_items_swapRemove, inStep.waiting_iff, pending, List.mem_cons]
  -- the set loses every trace of the item, and in the queue there was no other occurrence of it
  constructor
  · rintro ⟨same | later, other⟩
    · exact absurd same other
    · exact later
  · rintro later
    exact ⟨Or.inr later, fun same => inStep.not_mem_of_pop taken (same ▸ later)⟩

/-- An item that is pending is refused, and nothing changes. -/
theorem InStep.push_of_mem (inStep : list.InStep) (waits : item ∈ list.pending) :
    list.push item = (list, false) := by
  rw [push, OrderedSet.contains, if_pos (decide_eq_true ((inStep.waiting_iff item).mpr waits))]

/-- Any other item is queued. -/
theorem InStep.push_of_not_mem (inStep : list.InStep) (absent : item ∉ list.pending) :
    list.push item = (⟨list.pending ++ [item], list.waiting.insert item⟩, true) := by
  have unknown : item ∉ list.waiting.items := (inStep.waiting_iff item).not.mpr absent
  simp [push, OrderedSet.contains, unknown]

/-- A push adds to both containers or to neither. -/
theorem InStep.push (inStep : list.InStep) (item : α) : (list.push item).1.InStep := by
  by_cases waits : item ∈ list.pending
  · rwa [inStep.push_of_mem waits]
  · rw [inStep.push_of_not_mem waits]
    refine ⟨?_, fun other => ?_⟩
    · rw [List.nodup_append]
      refine ⟨inStep.nodup, List.nodup_singleton item, fun first member second last => ?_⟩
      rintro rfl
      exact waits (List.mem_singleton.mp last ▸ member)
    · dsimp only
      rw [OrderedSet.mem_items_insert, inStep.waiting_iff, List.mem_append, List.mem_singleton]

theorem extend_cons (list : Worklist α) (item : α) (items : List α) :
    list.extend (item :: items) = (list.push item).1.extend items := rfl

theorem InStep.extend (inStep : list.InStep) (items : List α) : (list.extend items).InStep := by
  induction items generalizing list with
  | nil => exact inStep
  | cons item items ih => exact ih (inStep.push item)

theorem inStep_ofList (items : List α) : (ofList items).InStep := inStep_empty.extend items

theorem InStep.mem_push (inStep : list.InStep) :
    other ∈ (list.push item).1.pending ↔ other ∈ list.pending ∨ other = item := by
  by_cases waits : item ∈ list.pending
  · rw [inStep.push_of_mem waits]
    exact ⟨Or.inl, fun h => h.elim id fun same => same ▸ waits⟩
  · rw [inStep.push_of_not_mem waits]
    dsimp only
    rw [List.mem_append, List.mem_singleton]

theorem InStep.mem_extend (inStep : list.InStep) :
    other ∈ (list.extend items).pending ↔ other ∈ list.pending ∨ other ∈ items := by
  induction items generalizing list with
  | nil => simp [Worklist.extend]
  | cons first later ih =>
    rw [extend_cons, ih (inStep.push first), inStep.mem_push, List.mem_cons, or_assoc]

theorem mem_ofList : other ∈ (ofList items).pending ↔ other ∈ items := by
  rw [ofList, inStep_empty.mem_extend]
  simp [empty]

theorem size_push_le : (list.push item).1.size ≤ list.size + 1 := by
  unfold push
  split
  · exact Nat.le_succ _
  · simp [size]

theorem size_extend_le : (list.extend items).size ≤ list.size + items.length := by
  induction items generalizing list with
  | nil => exact Nat.le_refl _
  | cons first later ih =>
    have pushed : (list.push first).1.size ≤ list.size + 1 := size_push_le
    have extended := @ih (list.push first).1
    rw [extend_cons, List.length_cons]
    omega

/-! ### Histories -/

/-- What is asked of a worklist. -/
inductive Call (α : Type) where
  /-- Queue an item. -/
  | push (item : α)
  /-- Take an item. -/
  | pop
  /-- Queue every item of a list. -/
  | extend (items : List α)

/-- What happens to a worklist. -/
inductive Event (α : Type) where
  /-- An item is offered, and queued or refused. -/
  | offered (item : α) (queued : Bool)
  /-- An item is taken. -/
  | taken (item : α)
  /-- There is no item to take. -/
  | idle

/-- The item that an event puts into the queue. -/
def Event.queued? : Event α → Option α
  | .offered item queued => if queued then some item else none
  | .taken _ => none
  | .idle => none

/-- The item that an event takes out of the queue. -/
def Event.taken? : Event α → Option α
  | .offered _ _ => none
  | .taken item => some item
  | .idle => none

/-- What happens when the items of a list are queued. -/
def offers (list : Worklist α) : List α → List (Event α)
  | [] => []
  | item :: items => .offered item (list.push item).2 :: offers (list.push item).1 items

/-- Answer a call. -/
def perform (list : Worklist α) : Call α → Worklist α × List (Event α)
  | .push item => ((list.push item).1, [.offered item (list.push item).2])
  | .pop =>
    match list.pop? with
    | some (item, rest) => (rest, [.taken item])
    | none => (list, [.idle])
  | .extend items => (list.extend items, list.offers items)

/-- Answer a sequence of calls. -/
def run (list : Worklist α) : List (Call α) → Worklist α × List (Event α)
  | [] => (list, [])
  | call :: calls =>
    let (next, events) := list.perform call
    let (last, later) := next.run calls
    (last, events ++ later)

variable {history before after : List (Event α)}

/-- The events that lead from one worklist to another. -/
inductive Passes : Worklist α → List (Event α) → Worklist α → Prop where
  /-- Nothing happens. -/
  | nil (list : Worklist α) : Passes list [] list
  /-- An item is offered. -/
  | offered {list last : Worklist α} {item : α} {history : List (Event α)}
      (onward : Passes (list.push item).1 history last) :
      Passes list (.offered item (list.push item).2 :: history) last
  /-- An item is taken. -/
  | taken {list rest last : Worklist α} {item : α} {history : List (Event α)}
      (found : list.pop? = some (item, rest)) (onward : Passes rest history last) :
      Passes list (.taken item :: history) last
  /-- There is no item to take. -/
  | idle {list last : Worklist α} {history : List (Event α)}
      (finished : list.pop? = none) (onward : Passes list history last) :
      Passes list (.idle :: history) last

theorem Passes.append (first : Passes list before next) (second : Passes next after last) :
    Passes list (before ++ after) last := by
  induction first with
  | nil => exact second
  | offered _ ih => exact .offered (ih second)
  | taken found _ ih => exact .taken found (ih second)
  | idle finished _ ih => exact .idle finished (ih second)

/-- A history in two parts leads through a worklist between them. -/
theorem Passes.split (passes : Passes list (before ++ after) last) :
    ∃ middle, Passes list before middle ∧ Passes middle after last := by
  induction before generalizing list with
  | nil => exact ⟨list, .nil list, passes⟩
  | cons event before ih =>
    rw [List.cons_append] at passes
    cases passes with
    | offered onward =>
      obtain ⟨middle, first, second⟩ := ih onward
      exact ⟨middle, .offered first, second⟩
    | taken found onward =>
      obtain ⟨middle, first, second⟩ := ih onward
      exact ⟨middle, .taken found first, second⟩
    | idle finished onward =>
      obtain ⟨middle, first, second⟩ := ih onward
      exact ⟨middle, .idle finished first, second⟩

theorem passes_offers (list : Worklist α) (items : List α) :
    Passes list (list.offers items) (list.extend items) := by
  induction items generalizing list with
  | nil => exact .nil list
  | cons item items ih => exact .offered (ih (list.push item).1)

theorem passes_perform (list : Worklist α) (call : Call α) :
    Passes list (list.perform call).2 (list.perform call).1 := by
  cases call with
  | push item => exact .offered (.nil _)
  | pop =>
    unfold perform
    dsimp only
    split
    · next item rest found => exact .taken found (.nil rest)
    · next finished => exact .idle finished (.nil list)
  | extend items => exact passes_offers list items

theorem passes_run (list : Worklist α) (calls : List (Call α)) :
    Passes list (list.run calls).2 (list.run calls).1 := by
  induction calls generalizing list with
  | nil => exact .nil list
  | cons call calls ih => exact (passes_perform list call).append (ih _)

theorem Passes.inStep (passes : Passes list history last) (inStep : list.InStep) :
    last.InStep := by
  induction passes with
  | nil => exact inStep
  | offered _ ih => exact ih (inStep.push _)
  | taken found _ ih => exact ih (inStep.pop found)
  | idle _ _ ih => exact ih inStep

/-- First in, first out: what was pending and what is queued is taken in this order, and the items
that are left are pending. -/
theorem Passes.queued_eq (passes : Passes list history last) (inStep : list.InStep) :
    list.pending ++ history.filterMap Event.queued? =
      history.filterMap Event.taken? ++ last.pending := by
  induction passes with
  | nil => simp
  | @offered list last item history _ ih =>
    have ih := ih (inStep.push item)
    by_cases waits : item ∈ list.pending
    -- a refused item counts on neither side, and a queued one comes last on the left
    · rw [inStep.push_of_mem waits] at ih ⊢
      simpa [List.filterMap_cons, Event.queued?, Event.taken?] using ih
    · rw [inStep.push_of_not_mem waits] at ih ⊢
      simpa [List.filterMap_cons, Event.queued?, Event.taken?] using ih
  | taken found _ ih =>
    have ih := ih (inStep.pop found)
    rw [pending_of_pop? found]
    simpa [List.filterMap_cons, Event.queued?, Event.taken?] using ih
  | idle _ _ ih => simpa [List.filterMap_cons, Event.queued?, Event.taken?] using ih inStep

/-- An item that is not queued does not become pending. -/
theorem Passes.not_mem_pending (passes : Passes list history last) (inStep : list.InStep)
    (absent : item ∉ list.pending) (never : .offered item true ∉ history) :
    item ∉ last.pending := by
  induction passes with
  | nil => exact absent
  | @offered list last offered history _ ih =>
    rw [List.mem_cons, not_or] at never
    refine ih (inStep.push offered) ?_ never.2
    rw [inStep.mem_push, not_or]
    refine ⟨absent, ?_⟩
    rintro rfl
    exact never.1 (by rw [inStep.push_of_not_mem absent])
  | taken found _ ih =>
    rw [List.mem_cons, not_or] at never
    refine ih (inStep.pop found) (fun later => absent ?_) never.2
    rw [pending_of_pop? found]
    exact List.mem_cons_of_mem _ later
  | idle _ _ ih =>
    rw [List.mem_cons, not_or] at never
    exact ih inStep absent never.2

/-! ### Queues without repetition -/

/-- A worklist that came about by a history is a queue without repetition. -/
structure IsQueue (list : Worklist α) (history : List (Event α)) : Prop where
  /-- The items in the set are those in the queue, where none occurs twice. -/
  inStep : list.InStep
  /-- An item is refused, and nothing changes, exactly if it is pending. -/
  push_refuses : ∀ item, list.push item = (list, false) ↔ item ∈ list.pending
  /-- Any other item goes to the end of the queue. -/
  push_queues : ∀ item, item ∉ list.pending →
    (list.push item).2 = true ∧ (list.push item).1.pending = list.pending ++ [item]
  /-- There is something to take if something is pending. -/
  pop_finishes : list.pop? = none ↔ list.pending = []
  /-- The first item of the queue is taken, and then it can be queued again. -/
  pop_takes : ∀ item rest, list.pop? = some (item, rest) →
    list.pending = item :: rest.pending ∧ (rest.push item).2 = true
  /-- The items that were queued are, in this order, those that were taken and those pending. -/
  queued_eq : history.filterMap Event.queued? = history.filterMap Event.taken? ++ list.pending
  /-- Between two times that an item is taken it is queued. -/
  queued_between : ∀ item before middle after,
    history = before ++ .taken item :: (middle ++ .taken item :: after) →
      .offered item true ∈ middle

/-- To be taken a second time, an item has to be queued after it was taken first. -/
theorem Passes.queued_between {middle : List (Event α)} (passes : Passes list history last)
    (inStep : list.InStep)
    (twice : history = before ++ .taken item :: (middle ++ .taken item :: after)) :
    .offered item true ∈ middle := by
  subst twice
  obtain ⟨first, earlier, onward⟩ := passes.split
  have inStep := earlier.inStep inStep
  cases onward with
  | taken found onward =>
    obtain ⟨second, between, final⟩ := onward.split
    cases final with
    | taken foundAgain _ =>
      by_contra never
      -- the first pop leaves the item out, and nothing brings it back before the second
      refine between.not_mem_pending (inStep.pop found) (inStep.not_mem_of_pop found) never ?_
      rw [pending_of_pop? foundAgain]
      exact List.mem_cons_self

theorem Passes.isQueue (passes : Passes empty history list) : list.IsQueue history where
  inStep := passes.inStep inStep_empty
  push_refuses item := by
    have inStep := passes.inStep inStep_empty
    refine ⟨fun refused => ?_, inStep.push_of_mem⟩
    by_contra absent
    rw [inStep.push_of_not_mem absent] at refused
    cases congrArg Prod.snd refused
  push_queues item absent := by
    rw [(passes.inStep inStep_empty).push_of_not_mem absent]
    exact ⟨rfl, rfl⟩
  pop_finishes := pop?_eq_none_iff
  pop_takes item rest taken := by
    have inStep := passes.inStep inStep_empty
    refine ⟨pending_of_pop? taken, ?_⟩
    rw [(inStep.pop taken).push_of_not_mem (inStep.not_mem_of_pop taken)]
  queued_eq := passes.queued_eq inStep_empty
  queued_between _ _ _ _ := passes.queued_between inStep_empty

/-- A worklist is a queue without repetition, whatever list it is filled from and whatever calls
follow. The history begins with the items of the list. -/
theorem run_isQueue (items : List α) (calls : List (Call α)) :
    ((ofList items).run calls).1.IsQueue
      (empty.offers items ++ ((ofList items).run calls).2) :=
  ((passes_offers empty items).append (passes_run (ofList items) calls)).isQueue

/-- An item that waits is refused, and one that was taken may come again. -/
example : ((ofList [1, 2, 1, 3]).run [.pop, .extend [2, 1], .pop, .pop, .pop, .pop]).2 =
    [.taken 1, .offered 2 false, .offered 1 true, .taken 2, .taken 3, .taken 1, .idle] := rfl

end Worklist

end Predictive
