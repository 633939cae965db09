import Predictive.Command.Basic
import Predictive.Proofs.Selection

/-!
# Printing does not fail

Whatever is printed about a grammar is spelled out of the names of its symbols, and looking a name
up is the only thing that can fail. The symbols of a well-formed grammar have names, and its
analyses come upon no other symbols: the FIRST and FOLLOW sets hold terminals and `ε`, and the cells
of its table and their conflicts are for a nonterminal and a terminal and hold alternatives of the
grammar. So all of it can be printed.

## Main definitions

* `Succeeds` — a computation gives a value
* `NameTable.Holds` — a table has a name for a symbol

## Main results

* `Grammar.WellFormed.succeeds_render` — a well-formed grammar can be printed
* `Grammar.WellFormed.succeeds_renderConflicts` — so can the conflicts of its table
* `Grammar.WellFormed.exists_renderAnalysis` — so can its analysis, and the warning comes last
-/

namespace Predictive

/-! ### Computations that give a value -/

section

variable {ε α β : Type} {first : Except ε α} {second : α → Except ε β}

/-- A computation gives a value. -/
def Succeeds (outcome : Except ε α) : Prop := ∃ value, outcome = .ok value

theorem succeeds_ok (value : α) : Succeeds (.ok value : Except ε α) := ⟨value, rfl⟩

theorem Succeeds.bind (head : Succeeds first) (tail : ∀ value, Succeeds (second value)) :
    Succeeds (first >>= second) := by
  obtain ⟨value, passed⟩ := head
  obtain ⟨result, ended⟩ := tail value
  exact ⟨result, bind_eq_ok_iff.mpr ⟨value, passed, ended⟩⟩

theorem succeeds_mapM {items : List α} {action : α → Except ε β}
    (each : ∀ item ∈ items, Succeeds (action item)) : Succeeds (items.mapM action) := by
  obtain ⟨values, passed, -⟩ := exists_mapM_eq_ok each
  exact ⟨values, passed⟩

end

/-! ### Names -/

namespace NameTable

variable {table : NameTable} {s : Symbol} {set : SymbolSet} {symbols : List Symbol}

/-- A table has a name for a symbol. -/
def Holds (table : NameTable) (s : Symbol) : Prop := s.id < table.size

theorem holds_epsilon : table.Holds .epsilon := lt_size_of_name? name?_epsilon

theorem holds_eof : table.Holds .eof := lt_size_of_name? name?_eof

theorem Holds.succeeds_name (held : table.Holds s) : Succeeds (table.name s) := by
  obtain ⟨name, found⟩ := name?_isSome_of_lt held
  exact ⟨name, name_eq_ok_iff.mpr found⟩

theorem Holds.succeeds_display (held : table.Holds s) : Succeeds (table.display s) := by
  unfold display
  split
  · exact succeeds_ok _
  · exact held.succeeds_name

theorem succeeds_displaySet (held : ∀ s ∈ set, table.Holds s) :
    Succeeds (table.displaySet set) :=
  (succeeds_mapM fun s listed => (held s (SymbolSet.mem_toList.mp listed)).succeeds_display).bind
    fun _ => succeeds_ok _

theorem succeeds_render {alternative : Alternative}
    (held : ∀ s ∈ alternative.symbols, table.Holds s) : Succeeds (alternative.render table) := by
  unfold Alternative.render
  split
  · exact succeeds_ok _
  · exact (succeeds_mapM fun s listed => (held s listed).succeeds_name).bind fun _ => succeeds_ok _

end NameTable

/-! ### What is in a table -/

namespace ParseTable

variable {α : Type} {table : ParseTable α} {s t r : Symbol} {entry : α} {grammar : Grammar}
  {firsts : FirstSets} {follows : FollowSets}

/-- A row is there from the beginning, or it was written. -/
theorem mem_keys_write (listed : r ∈ (table.write s entry t).rows.keys) :
    r = s ∨ r ∈ table.rows.keys := by
  unfold write at listed
  dsimp only at listed
  split at listed
  · exact OrderedMap.mem_keys_insert.mp listed
  · exact OrderedMap.mem_keys_insert.mp listed

theorem mem_keys_writeAll {selections : List (Selection α)}
    (listed : r ∈ (table.writeAll selections).rows.keys) :
    (∃ selection ∈ selections, selection.nonterminal = r) ∨ r ∈ table.rows.keys := by
  induction selections generalizing table with
  | nil => exact Or.inr listed
  | cons selection rest ih =>
    rcases ih listed with ⟨later, member, same⟩ | before
    · exact Or.inl ⟨later, List.mem_cons_of_mem _ member, same⟩
    · rcases mem_keys_write before with rfl | before
      · exact Or.inl ⟨selection, List.mem_cons_self, rfl⟩
      · exact Or.inr before

/-- The rows of the table of a grammar are for its nonterminals. -/
theorem isNonterminal_of_row (listed : r ∈ (build grammar firsts follows).rows.keys) :
    grammar.isNonterminal r = true := by
  rw [build_eq_writeAll] at listed
  rcases mem_keys_writeAll listed with ⟨selection, member, rfl⟩ | first
  · obtain ⟨⟨s, alternative⟩, chosen, written⟩ := List.mem_flatMap.mp member
    obtain ⟨t, -, rfl⟩ := List.mem_map.mp written
    obtain ⟨⟨s', alternatives⟩, production, listed⟩ := List.mem_flatMap.mp chosen
    obtain ⟨_, -, same⟩ := List.mem_map.mp listed
    cases same
    exact Grammar.isNonterminal_iff.mpr (List.mem_map_of_mem (f := Prod.fst) production)
  · rw [← OrderedMap.get?_isSome_iff, initial, OrderedMap.get?_constant] at first
    split at first
    · next listed => exact Grammar.isNonterminal_iff.mpr listed
    · cases first

/-- A conflict is between two alternatives that its lookahead selects. -/
theorem mem_selecting_of_conflict {conflict : Conflict Alternative}
    (listed : conflict ∈ (build grammar firsts follows).conflicts) :
    conflict.replaced ∈ selecting grammar firsts follows conflict.nonterminal conflict.terminal ∧
      conflict.chosen ∈
        selecting grammar firsts follows conflict.nonterminal conflict.terminal := by
  have pair : (conflict.replaced, conflict.chosen) ∈
      (build grammar firsts follows).overwritten conflict.nonterminal conflict.terminal :=
    List.mem_map.mpr ⟨conflict, List.mem_filter.mpr ⟨listed, by simp⟩, rfl⟩
  rw [overwritten_build] at pair
  obtain ⟨first, second⟩ := List.of_mem_zip pair
  exact ⟨first, List.mem_of_mem_tail second⟩

end ParseTable

/-! ### Grammars and their analyses -/

namespace Grammar.WellFormed

open ParseTable

variable {grammar : Grammar} (wellFormed : grammar.WellFormed) {s t : Symbol}
  {alternative : Alternative}

include wellFormed

theorem holds_terminal (listed : s ∈ grammar.terminals.items) : grammar.names.Holds s :=
  wellFormed.named (Or.inl (isTerminal_iff.mpr (Or.inr listed)))

theorem holds_nonterminal (listed : s ∈ grammar.nonterminals) : grammar.names.Holds s :=
  wellFormed.named (Or.inr (isNonterminal_iff.mpr listed))

theorem succeeds_alternative (rule : grammar.HasRule s alternative) :
    Succeeds (alternative.render grammar.names) :=
  NameTable.succeeds_render fun t listed =>
    wellFormed.named (wellFormed.knows_of_rule rule t listed)

/-- A well-formed grammar can be printed. -/
theorem succeeds_render : Succeeds grammar.render := by
  have production : ∀ s ∈ grammar.nonterminals, Succeeds (grammar.renderProduction s) := by
    intro s listed
    refine (wellFormed.holds_nonterminal listed).succeeds_name.bind fun _ =>
      (succeeds_mapM fun alternative member => ?_).bind fun _ => succeeds_ok _
    obtain ⟨alternatives, defined⟩ :=
      Option.isSome_iff_exists.mp (isNonterminal_iff.mpr listed)
    have found : grammar.alternatives? s = some alternatives := defined
    rw [found, Option.getD_some] at member
    exact wellFormed.succeeds_alternative ⟨alternatives, found, member⟩
  refine (succeeds_mapM production).bind fun rules => ?_
  refine (succeeds_mapM fun s listed => ?_).bind fun _ =>
    (succeeds_mapM fun s listed => ?_).bind fun _ => succeeds_ok _
  · exact (wellFormed.holds_terminal listed).succeeds_name.bind fun _ => succeeds_ok _
  · exact (wellFormed.holds_nonterminal listed).succeeds_name.bind fun _ => succeeds_ok _

/-- So can its FIRST sets. -/
theorem succeeds_renderFirsts :
    Succeeds ((FirstSets.compute grammar).render grammar.names grammar.nonterminals) := by
  refine (succeeds_mapM fun s listed => ?_).bind fun _ => succeeds_ok _
  split
  · exact succeeds_ok _
  · next set found =>
    refine (wellFormed.holds_nonterminal listed).succeeds_display.bind fun _ =>
      (NameTable.succeeds_displaySet fun t member => ?_).bind fun _ => succeeds_ok _
    have members : (FirstSets.compute grammar).sets.members s = set := by
      rw [OrderedMap.members, ← FirstSets.get?, found]
      rfl
    have bounded := (FirstSets.confined_compute grammar).within s t (members ▸ member)
    simp only [List.mem_append, List.mem_cons, List.not_mem_nil, or_false] at bounded
    rcases bounded with terminal | rfl | rfl
    · exact wellFormed.holds_terminal terminal
    · exact NameTable.holds_eof
    · exact NameTable.holds_epsilon

/-- So can its FOLLOW sets. -/
theorem succeeds_renderFollows :
    Succeeds ((FollowSets.compute grammar (FirstSets.compute grammar)).render grammar.names) := by
  have confined := FollowSets.confined_compute (FirstSets.confined_compute grammar)
  refine (succeeds_mapM fun entry listed => ?_).bind fun _ => succeeds_ok _
  obtain ⟨s, set⟩ := entry
  have nonterminal : s ∈ grammar.nonterminals := by
    have key : s ∈ (FollowSets.compute grammar (FirstSets.compute grammar)).sets.keys :=
      List.mem_map_of_mem (f := Prod.fst) listed
    rwa [confined.keys_eq, FollowSets.mem_keys_initial] at key
  have found := OrderedMap.mem_entries_iff.mp listed
  refine (wellFormed.holds_nonterminal nonterminal).succeeds_display.bind fun _ =>
    (NameTable.succeeds_displaySet fun t member => ?_).bind fun _ => succeeds_ok _
  have members : (FollowSets.compute grammar (FirstSets.compute grammar)).sets.members s = set := by
    rw [OrderedMap.members, found]
    rfl
  exact wellFormed.named (Or.inl (confined.isTerminal (members ▸ member)))

/-- So can its table. -/
theorem succeeds_renderTable : Succeeds ((ofGrammar grammar).render grammar.names) := by
  refine (succeeds_mapM fun entry listed => ?_).bind fun _ => succeeds_ok _
  obtain ⟨s, row⟩ := entry
  have nonterminal : s ∈ grammar.nonterminals :=
    isNonterminal_iff.mp (isNonterminal_of_row (List.mem_map_of_mem (f := Prod.fst) listed))
  have named := (wellFormed.holds_nonterminal nonterminal).succeeds_name
  have found := OrderedMap.mem_entries_iff.mp listed
  refine named.bind fun _ => (succeeds_mapM fun cell member => ?_).bind fun _ => succeeds_ok _
  obtain ⟨t, alternative⟩ := cell
  have held : (ofGrammar grammar).get? s t = some alternative := by
    rw [get?, row?, found, Option.bind_some]
    exact OrderedMap.mem_entries_iff.mp member
  obtain ⟨rule, predicts⟩ := predicts_of_get? wellFormed held
  refine (NameTable.Holds.succeeds_name (wellFormed.named (Or.inl predicts.1))).bind fun _ => ?_
  refine Succeeds.bind ?_ fun _ => succeeds_ok _
  exact named.bind fun _ => (wellFormed.succeeds_alternative rule).bind fun _ => succeeds_ok _

/-- So can the conflicts of its table. -/
theorem succeeds_renderConflicts :
    Succeeds (Command.renderConflicts grammar (ofGrammar grammar)) := by
  refine (succeeds_mapM fun conflict listed => ?_).bind fun _ => succeeds_ok _
  obtain ⟨replaced, chosen⟩ := mem_selecting_of_conflict listed
  obtain ⟨rule, predicts⟩ := (mem_selecting_iff wellFormed).mp chosen
  have before := hasRule_of_mem_selecting replaced
  refine Succeeds.bind ?_ fun _ => succeeds_ok _
  refine (wellFormed.holds_nonterminal (isNonterminal_iff.mp
    (isNonterminal_of_rule rule))).succeeds_name.bind fun _ => ?_
  refine (NameTable.Holds.succeeds_name (wellFormed.named (Or.inl predicts.1))).bind fun _ => ?_
  exact (wellFormed.succeeds_alternative before).bind fun _ =>
    (wellFormed.succeeds_alternative rule).bind fun _ => succeeds_ok _

/-- So can its analysis, and the warning about conflicts comes last. -/
theorem exists_renderAnalysis :
    ∃ body, Command.renderAnalysis grammar =
      .ok (body ++ Command.renderSummary (ofGrammar grammar)) := by
  obtain ⟨listing, listed⟩ := wellFormed.succeeds_render
  obtain ⟨firsts, first⟩ := wellFormed.succeeds_renderFirsts
  obtain ⟨follows, follow⟩ := wellFormed.succeeds_renderFollows
  obtain ⟨table, tabulated⟩ := wellFormed.succeeds_renderTable
  obtain ⟨conflicts, warned⟩ := wellFormed.succeeds_renderConflicts
  rw [ofGrammar] at tabulated warned
  refine ⟨listing ++ "\n## first sets:\n" ++ firsts ++ "\n## follow sets:\n" ++ follows ++
    "\n## parse table:\n" ++ table ++ conflicts, ?_⟩
  simp only [Command.renderAnalysis, listed, first, follow, tabulated, warned]
  rfl

end Grammar.WellFormed

end Predictive
