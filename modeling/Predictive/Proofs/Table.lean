import Predictive.Analysis.Table
import Predictive.Proofs.Follow

/-!
# Parse tables hold what is selected last

A table is filled by a list of writes, and each of its cells depends only on the entries that were
written into it: it holds the last of them, and its conflicts are the pairs of successive ones. In
the table of a grammar the entries of a cell are the alternatives that its lookahead selects, in
the order of the production.

## Main definitions

* `ParseTable.Selection`, `ParseTable.writeAll` — a table as a list of writes
* `ParseTable.overwritten` — the conflicts of one cell
* `ParseTable.selecting` — the alternatives of a nonterminal that a lookahead selects
* `Grammar.Predicts` — when a lookahead selects an alternative, in terms of derivations

## Main results

* `ParseTable.get?_writeAll`, `ParseTable.overwritten_writeAll` — a cell by the entries written
  into it
* `ParseTable.get?_build`, `ParseTable.overwritten_build` — a cell of the table of a grammar
* `ParseTable.isLL1_build_iff` — no lookahead selects two alternatives
* `ParseTable.mem_selecting_iff` — selection in terms of derivations
-/

namespace Predictive

/-- A lookahead predicts an alternative: it begins something that the alternative derives, or the
alternative derives the empty string and the lookahead can follow the nonterminal. -/
def Grammar.Predicts (grammar : Grammar) (s : Symbol) (alternative : Alternative) (t : Symbol) :
    Prop :=
  grammar.isTerminal t = true ∧
    ((∃ rest, grammar.Derives alternative.symbols (t :: rest)) ∨
      (grammar.Derives alternative.symbols [] ∧ grammar.CanFollow s t))

/-- At most one member of a list passes a test if no two do. -/
theorem length_filter_le_one_iff {α : Type} {items : List α} {test : α → Bool} :
    (items.filter test).length ≤ 1 ↔
      items.Pairwise fun item other => ¬ (test item = true ∧ test other = true) := by
  induction items with
  | nil => simp
  | cons item rest ih =>
    rw [List.pairwise_cons, ← ih, List.filter_cons]
    split
    · next passes =>
      have none_iff : (∀ other ∈ rest, ¬ (test item = true ∧ test other = true)) ↔
          rest.filter test = [] := by
        rw [List.filter_eq_nil_iff]
        simp [passes]
      rw [none_iff, List.length_cons, ← List.length_eq_zero_iff]
      omega
    · next fails => simp [fails]

namespace ParseTable

variable {α : Type} {table : ParseTable α} {s t : Symbol} {entry : α}

/-! ### Writing cells -/

/-- An entry and the cell that it is written into. -/
structure Selection (α : Type) where
  /-- The nonterminal of the cell's row. -/
  nonterminal : Symbol
  /-- The lookahead of the cell. -/
  terminal : Symbol
  /-- The entry. -/
  entry : α

/-- Whether a selection is for a given cell. -/
def Selection.isFor (s t : Symbol) (selection : Selection α) : Bool :=
  decide (selection.nonterminal = s ∧ selection.terminal = t)

/-- The entries selected for a cell, in order. -/
def Selection.entries (selections : List (Selection α)) (s t : Symbol) : List α :=
  (selections.filter (isFor s t)).map Selection.entry

/-- Write a list of selections one after the other. -/
def writeAll (table : ParseTable α) (selections : List (Selection α)) : ParseTable α :=
  selections.foldl (fun table selection =>
    table.write selection.nonterminal selection.entry selection.terminal) table

/-- The entries that were overwritten in a cell, each with the one written over it. -/
def overwritten (table : ParseTable α) (s t : Symbol) : List (α × α) :=
  (table.conflicts.filter fun conflict => conflict.nonterminal = s ∧ conflict.terminal = t).map
    fun conflict => (conflict.replaced, conflict.chosen)

/-- Each entry of a list with the next one. -/
def successive (entries : List α) : List (α × α) := entries.zip entries.tail

theorem isLL1_iff : table.isLL1 = true ↔ ∀ s t, table.overwritten s t = [] := by
  rw [isLL1, List.isEmpty_iff]
  constructor
  · intro none s t
    simp [overwritten, none]
  · intro none
    refine List.eq_nil_iff_forall_not_mem.mpr fun conflict listed => ?_
    have pair : (conflict.replaced, conflict.chosen) ∈
        table.overwritten conflict.nonterminal conflict.terminal :=
      List.mem_map.mpr ⟨conflict, List.mem_filter.mpr ⟨listed, by simp⟩, rfl⟩
    rw [none] at pair
    cases pair

/-- The old entry of a cell, also in a row that is not there yet. -/
theorem get?_getD_row : ((table.row? s).getD .empty).get? t = table.get? s t := by
  unfold get?
  cases table.row? s with
  | none => rfl
  | some row => rfl

/-- A cell answers with the entry written last. -/
theorem get?_write {r u : Symbol} :
    (table.write s entry t).get? r u = if r = s ∧ u = t then some entry else table.get? r u := by
  have rows : (table.write s entry t).rows =
      table.rows.insert s (((table.row? s).getD .empty).insert t entry) := by
    unfold write
    dsimp only
    split
    · rfl
    · rfl
  rw [get?, row?, rows, OrderedMap.get?_insert]
  -- a row that was not there before is empty but for the entry
  by_cases sameRow : r = s
  · subst sameRow
    rw [if_pos rfl, Option.bind_some, OrderedMap.get?_insert, get?_getD_row]
    simp
  · simp [sameRow, get?, row?]

/-- Writing into a cell that has an entry is a conflict. -/
theorem conflicts_write :
    (table.write s entry t).conflicts = table.conflicts ++
      (table.get? s t).toList.map fun replaced => ⟨s, t, replaced, entry⟩ := by
  unfold write
  dsimp only
  rw [get?_getD_row]
  cases table.get? s t with
  | none => simp
  | some replaced => rfl

theorem overwritten_write {r u : Symbol} :
    (table.write s entry t).overwritten r u = table.overwritten r u ++
      if r = s ∧ u = t then (table.get? s t).toList.map (·, entry) else [] := by
  rw [overwritten, conflicts_write, List.filter_append, List.map_append]
  congr 1
  cases table.get? s t with
  | none => simp
  | some replaced =>
    by_cases same : r = s ∧ u = t
    · simp [same]
    · have other : ¬ (s = r ∧ t = u) := fun ⟨first, second⟩ => same ⟨first.symm, second.symm⟩
      simp [same, other]

/-- A cell holds the last entry that was written into it. -/
theorem get?_writeAll (selections : List (Selection α)) :
    (table.writeAll selections).get? s t =
      (Selection.entries selections s t).getLast?.or (table.get? s t) := by
  induction selections generalizing table with
  | nil => rfl
  | cons selection rest ih =>
    have step : table.writeAll (selection :: rest) =
        (table.write selection.nonterminal selection.entry selection.terminal).writeAll rest := rfl
    rw [step, ih, get?_write]
    by_cases same : s = selection.nonterminal ∧ t = selection.terminal
    · obtain ⟨rfl, rfl⟩ := same
      simp [Selection.entries, Selection.isFor, List.getLast?_cons]
    · have other : ¬ (selection.nonterminal = s ∧ selection.terminal = t) :=
        fun ⟨first, second⟩ => same ⟨first.symm, second.symm⟩
      simp [Selection.entries, Selection.isFor, same, other]

/-- The conflicts of a cell are the pairs of entries that were written into it successively. -/
theorem overwritten_writeAll (selections : List (Selection α)) :
    (table.writeAll selections).overwritten s t = table.overwritten s t ++
      successive ((table.get? s t).toList ++ Selection.entries selections s t) := by
  induction selections generalizing table with
  | nil =>
    cases table.get? s t with
    | none => simp [writeAll, Selection.entries, successive]
    | some found => simp [writeAll, Selection.entries, successive]
  | cons selection rest ih =>
    have step : table.writeAll (selection :: rest) =
        (table.write selection.nonterminal selection.entry selection.terminal).writeAll rest := rfl
    rw [step, ih, get?_write, overwritten_write]
    by_cases same : s = selection.nonterminal ∧ t = selection.terminal
    · obtain ⟨rfl, rfl⟩ := same
      cases table.get? selection.nonterminal selection.terminal with
      | none => simp [Selection.entries, Selection.isFor]
      | some replaced => simp [Selection.entries, Selection.isFor, successive]
    · have other : ¬ (selection.nonterminal = s ∧ selection.terminal = t) :=
        fun ⟨first, second⟩ => same ⟨first.symm, second.symm⟩
      simp [Selection.entries, Selection.isFor, same, other]

/-! ### The table of a grammar -/

variable {grammar : Grammar} {firsts : FirstSets} {follows : FollowSets}
  {alternative : Alternative}

/-- The alternatives of a nonterminal that a lookahead selects, in order. -/
def selecting (grammar : Grammar) (firsts : FirstSets) (follows : FollowSets) (s t : Symbol) :
    List Alternative :=
  ((grammar.alternatives? s).getD []).filter fun alternative =>
    decide (t ∈ (firsts.ofString alternative.symbols).followedBy (follows.get s))

/-- The writes that fill a table. -/
def selections (grammar : Grammar) (firsts : FirstSets) (follows : FollowSets) :
    List (Selection Alternative) :=
  (choices grammar).flatMap fun choice =>
    ((firsts.ofString choice.2.symbols).followedBy (follows.get choice.1)).toList.map fun t =>
      ⟨choice.1, t, choice.2⟩

theorem build_eq_writeAll : build grammar firsts follows =
    (initial grammar.nonterminals).writeAll (selections grammar firsts follows) := by
  simp only [build, fill, writeAll, selections, List.foldl_flatMap, List.foldl_map]

theorem get?_initial {nonterminals : List Symbol} :
    (initial nonterminals : ParseTable α).get? s t = none := by
  rw [get?, row?, initial, OrderedMap.get?_constant]
  split
  · rfl
  · rfl

/-- An entry that is written under all members of a set comes into each cell once. -/
theorem entries_map_toList {r : Symbol} (set : SymbolSet) :
    Selection.entries (set.toList.map fun u => ⟨r, u, entry⟩) s t =
      if r = s ∧ t ∈ set then [entry] else [] := by
  -- no member is listed twice
  have alone : set.toList.filter (fun u => decide (u = t)) =
      List.replicate (if t ∈ set.toList then 1 else 0) t := by
    rw [List.filter_eq, SymbolSet.nodup_toList.count]
  rw [Selection.entries, List.filter_map, List.map_map]
  by_cases row : r = s
  · have cells : Selection.isFor s t ∘ (fun u => (⟨r, u, entry⟩ : Selection α)) =
        fun u => decide (u = t) := by
      funext u
      simp [Selection.isFor, row]
    rw [cells, alone]
    by_cases member : t ∈ set
    · simp [member, row]
    · simp [member]
  · have cells : Selection.isFor s t ∘ (fun u => (⟨r, u, entry⟩ : Selection α)) =
        fun _ => false := by
      funext u
      simp [Selection.isFor, row]
    simp [cells, row]

/-- What is written for a list of items, each under the members of a set, comes into the cells of
these members. -/
theorem entries_flatMap (items : List (Symbol × α)) (under : Symbol → α → SymbolSet) :
    Selection.entries (items.flatMap fun item =>
        (under item.1 item.2).toList.map fun t => ⟨item.1, t, item.2⟩) s t =
      (items.filter fun item => decide (item.1 = s ∧ t ∈ under s item.2)).map Prod.snd := by
  induction items with
  | nil => rfl
  | cons item rest ih =>
    rw [List.flatMap_cons, Selection.entries, List.filter_append, List.map_append,
      ← Selection.entries, ← Selection.entries, ih, entries_map_toList]
    by_cases row : item.1 = s
    · subst row
      by_cases member : t ∈ under item.1 item.2
      · simp [member]
      · simp [member]
    · simp [row]

/-- No nonterminal has two productions, so what is collected from all of them comes from one. -/
theorem flatMap_entries {β γ : Type} (productions : OrderedMap Symbol β) (kept : β → List γ) :
    (productions.entries.flatMap fun production =>
      if production.1 = s then kept production.2 else []) =
      ((productions.get? s).map kept).getD [] := by
  obtain ⟨entries, nodup⟩ := productions
  unfold OrderedMap.get?
  dsimp only
  induction entries with
  | nil => simp
  | cons production rest ih =>
    rw [List.map_cons, List.nodup_cons] at nodup
    rw [List.flatMap_cons, ih nodup.2, List.lookup_cons]
    by_cases same : production.1 = s
    · have absent : rest.lookup s = none := by
        rw [List.lookup_eq_none_iff]
        rintro later listed
        have differs : s ≠ later.1 := by
          rintro rfl
          exact nodup.1 (same ▸ List.mem_map_of_mem listed)
        simpa using differs
      simp [same, absent]
    · have differs : (s == production.1) = false := by simpa using fun other => same other.symm
      simp [same, differs]

/-- The entries of a cell, if every production offers some options: those of the row's nonterminal
under whose lookaheads the cell is. -/
theorem entries_options {β : Type} (productions : OrderedMap Symbol β) (options : β → List α)
    (under : Symbol → α → SymbolSet) :
    Selection.entries ((productions.entries.flatMap fun production =>
        (options production.2).map fun option => (production.1, option)).flatMap fun item =>
          (under item.1 item.2).toList.map fun t => ⟨item.1, t, item.2⟩) s t =
      ((productions.get? s).map fun production =>
        (options production).filter fun option => decide (t ∈ under s option)).getD [] := by
  -- the options of all nonterminals are filtered first, and then those of one are picked out
  rw [entries_flatMap, List.filter_flatMap, List.map_flatMap, ← flatMap_entries]
  congr 1
  funext production
  rw [List.filter_map, List.map_map]
  by_cases row : production.1 = s
  · simp [row, Function.comp_def]
  · simp [row, Function.comp_def]

/-- The entries of a cell are the alternatives that its lookahead selects. -/
theorem entries_selections :
    Selection.entries (selections grammar firsts follows) s t =
      selecting grammar firsts follows s t := by
  have collected := @entries_options Alternative s t _ grammar.productions id fun s alternative =>
    (firsts.ofString alternative.symbols).followedBy (follows.get s)
  refine collected.trans ?_
  rw [selecting, Grammar.alternatives?]
  cases grammar.productions.get? s with
  | none => rfl
  | some alternatives => rfl

/-- A cell of the table of a grammar holds the last alternative that its lookahead selects. -/
theorem get?_build :
    (build grammar firsts follows).get? s t = (selecting grammar firsts follows s t).getLast? := by
  rw [build_eq_writeAll, get?_writeAll, entries_selections, get?_initial, Option.or_none]

/-- The conflicts of a cell are the successive alternatives that its lookahead selects. -/
theorem overwritten_build :
    (build grammar firsts follows).overwritten s t =
      successive (selecting grammar firsts follows s t) := by
  rw [build_eq_writeAll, overwritten_writeAll, entries_selections, get?_initial]
  rfl

/-- A table is free of conflicts if no cell was written twice. -/
theorem isLL1_writeAll_iff {nonterminals : List Symbol} {selections : List (Selection α)} :
    ((initial nonterminals).writeAll selections).isLL1 = true ↔
      ∀ s t, (Selection.entries selections s t).length ≤ 1 := by
  rw [isLL1_iff]
  refine forall₂_congr fun s t => ?_
  rw [overwritten_writeAll, get?_initial, ← List.length_eq_zero_iff]
  simp only [overwritten, initial, List.filter_nil, List.map_nil, List.nil_append,
    Option.toList_none, successive, List.length_zip, List.length_tail]
  omega

/-- A table is free of conflicts if no lookahead selects two alternatives. -/
theorem isLL1_build_iff :
    (build grammar firsts follows).isLL1 = true ↔
      ∀ s t, (selecting grammar firsts follows s t).length ≤ 1 := by
  simp only [build_eq_writeAll, isLL1_writeAll_iff, entries_selections]

/-- The lookaheads of a nonterminal are those whose cells hold something. -/
theorem mem_lookaheads : t ∈ table.lookaheads s ↔ (table.get? s t).isSome := by
  rw [lookaheads, get?]
  cases table.row? s with
  | none => simp
  | some row => simp [OrderedMap.get?_isSome_iff]

/-! ### Selection in terms of derivations -/

theorem hasRule_of_mem_selecting (member : alternative ∈ selecting grammar firsts follows s t) :
    grammar.HasRule s alternative := by
  obtain ⟨listed, -⟩ := List.mem_filter.mp member
  cases found : grammar.alternatives? s with
  | none => simp [found] at listed
  | some alternatives =>
    rw [found, Option.getD_some] at listed
    exact ⟨alternatives, found, listed⟩

/-- Whatever a table holds is an alternative of the row's nonterminal. -/
theorem hasRule_of_get?_build (found : (build grammar firsts follows).get? s t = some alternative) :
    grammar.HasRule s alternative := by
  rw [get?_build] at found
  exact hasRule_of_mem_selecting (List.mem_of_getLast? found)

/-- The alternatives that a lookahead selects are those that predict it. -/
theorem mem_selecting_iff (wellFormed : grammar.WellFormed) :
    alternative ∈ selecting grammar (FirstSets.compute grammar)
        (FollowSets.compute grammar (FirstSets.compute grammar)) s t ↔
      grammar.HasRule s alternative ∧ grammar.Predicts s alternative t := by
  have meaning : grammar.HasRule s alternative →
      (t ∈ ((FirstSets.compute grammar).ofString alternative.symbols).followedBy
          ((FollowSets.compute grammar (FirstSets.compute grammar)).get s) ↔
        grammar.Predicts s alternative t) := by
    intro rule
    have begins := fun {t} => @FirstSets.mem_ofString_compute_iff grammar t _ wellFormed
      (wellFormed.knows_of_rule rule)
    rw [SymbolSet.mem_followedBy, begins, begins, FollowSets.get_eq_members,
      FollowSets.mem_members_compute_iff wellFormed (Grammar.isNonterminal_of_rule rule)]
    have unmarked : grammar.isTerminal t = true → t ≠ .epsilon :=
      fun terminal => wellFormed.ne_epsilon (Or.inl terminal)
    simp only [Grammar.Begins, Grammar.Predicts, wellFormed.not_isTerminal_epsilon]
    simp only [Bool.false_eq_true, false_and, true_and, false_or]
    tauto
  constructor
  · intro member
    have rule := hasRule_of_mem_selecting member
    exact ⟨rule, (meaning rule).mp (of_decide_eq_true (List.mem_filter.mp member).2)⟩
  · rintro ⟨rule, predicts⟩
    refine List.mem_filter.mpr ⟨?_, decide_eq_true ((meaning rule).mpr predicts)⟩
    obtain ⟨alternatives, found, member⟩ := rule
    rwa [found]

/-- Every entry of a grammar's table predicts its lookahead. -/
theorem predicts_of_get? (wellFormed : grammar.WellFormed)
    (found : (ofGrammar grammar).get? s t = some alternative) :
    grammar.HasRule s alternative ∧ grammar.Predicts s alternative t := by
  rw [ofGrammar, get?_build] at found
  exact (mem_selecting_iff wellFormed).mp (List.mem_of_getLast? found)

/-- Without conflicts, the table holds every alternative that predicts its lookahead. -/
theorem get?_of_predicts (wellFormed : grammar.WellFormed)
    (deterministic : (ofGrammar grammar).isLL1 = true) (rule : grammar.HasRule s alternative)
    (predicts : grammar.Predicts s alternative t) :
    (ofGrammar grammar).get? s t = some alternative := by
  have member := (mem_selecting_iff wellFormed).mpr ⟨rule, predicts⟩
  rw [ofGrammar, isLL1_build_iff] at deterministic
  have short := deterministic s t
  rw [ofGrammar, get?_build]
  -- no other alternative is selected, so this one is the last
  obtain ⟨first, single⟩ := List.length_eq_one_iff.mp
    (Nat.le_antisymm short (List.length_pos_of_mem member))
  rw [single] at member ⊢
  rw [List.mem_singleton.mp member]
  rfl

end ParseTable

end Predictive
