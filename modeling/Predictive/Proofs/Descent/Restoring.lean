import Predictive.Proofs.Descent.Outcome
import Predictive.Proofs.Descent.Planting

/-!
# What recursive descent leaves behind

An expression is matched against any stream, in an arena that may hold anything already. If it does
not match, the arena is the one from before: every part that made nodes has dropped them again, and
nothing else was touched. Tokens are not given back, so the stream may have moved. If it matches,
the nodes from before are still there, and behind them come trees whose roots are handed over
without a parent. The mark to which a part cuts the arena back is a length, so all of this rests on
the nodes of an expression being the last ones of the arena.

## Main definitions

* `Arena.Sprouts` — an arena with trees behind its nodes

## Main results

* `EbnfGrammar.plant_restores` — a failure leaves the arena as it was, and a match adds trees to it
-/

namespace Predictive

/-- An arena with new nodes behind those of another one: some of them, which are told, have no
parent, and every other one is a child of a new node. -/
structure Arena.Sprouts (arena grown : Arena) (roots : List Nat) : Prop where
  /-- The nodes from before are where they were, with the parents and children that they had. -/
  kept : arena <+: grown
  /-- No root is told twice. -/
  apart : roots.Nodup
  /-- The roots are new, and they have no parent. -/
  root : ∀ id ∈ roots, arena.length ≤ id ∧ ∃ slot, grown[id]? = some slot ∧ slot.parent = none
  /-- Every other new node is among the children of the new node that is its parent. -/
  below : ∀ id slot, grown[id]? = some slot → arena.length ≤ id → id ∉ roots →
    ∃ p, slot.parent = some p ∧ arena.length ≤ p ∧ grown.Lists p id

namespace Tree.Numbered

variable {arena : Arena} {forest : List Tree} {last : Nat} {item : Tree}

/-- The numbers of trees are not below the first one. -/
theorem le_id {first : Nat} (numbered : Numbered first forest last)
    (member : item ∈ nodesOfAll forest) : first ≤ item.id := by
  have listed := numbered.perm_ids.mem_iff.mp (List.mem_map_of_mem member)
  exact (List.mem_range'_1.mp listed).1

/-- Trees that are numbered from the length of an arena are at home behind its nodes. -/
theorem sprouts (numbered : Numbered arena.length forest last) :
    arena.Sprouts (arena ++ slotsOfAll none forest) (forest.map Tree.id) := by
  have inPlace : ∀ {parent item}, (parent, item) ∈ withParentsAll none forest →
      (arena ++ slotsOfAll none forest)[item.id]? = some (item.slot parent) := by
    intro parent item listed
    have found := numbered.getElem?_slotsOfAll arena [] rfl listed
    rwa [List.append_nil] at found
  have distinct : ((nodesOfAll forest).map Tree.id).Nodup :=
    numbered.perm_ids.nodup_iff.mpr List.nodup_range'
  constructor
  · exact List.prefix_append arena _
  · exact ((sublist_nodesOfAll forest).map Tree.id).nodup distinct
  · intro id listed
    obtain ⟨tree, member, rfl⟩ := List.mem_map.mp listed
    exact ⟨numbered.le_id ((sublist_nodesOfAll forest).subset member),
      _, inPlace (mem_withParentsAll_of_mem member), rfl⟩
  · intro id slot there new other
    obtain ⟨inside, -⟩ := List.getElem?_eq_some_iff.mp there
    rw [List.length_append] at inside
    -- a new place is the number of a node
    have counted := @numbered.length_slotsOfAll none
    have given : id ∈ (nodesOfAll forest).map Tree.id :=
      numbered.perm_ids.mem_iff.mpr (List.mem_range'_1.mpr ⟨new, by omega⟩)
    obtain ⟨item, member, rfl⟩ := List.mem_map.mp given
    rw [← map_snd_withParentsAll none] at member
    obtain ⟨⟨parent, same⟩, listed, rfl⟩ := List.mem_map.mp member
    rw [inPlace listed, Option.some.injEq] at there
    subst there
    rcases cases_of_mem_withParentsAll listed with ⟨-, root⟩ | ⟨above, higher, rfl, child⟩
    · exact absurd (List.mem_map_of_mem root) other
    · have aboveThere := higher
      rw [← map_snd_withParentsAll none] at aboveThere
      obtain ⟨⟨grand, _⟩, entry, rfl⟩ := List.mem_map.mp aboveThere
      exact ⟨_, rfl, numbered.le_id higher, _, inPlace entry, List.mem_map_of_mem child⟩

end Tree.Numbered

namespace EbnfGrammar

variable {source : EbnfGrammar} {fuel : Nat} {expr : Expr} {stream : TokenStream}
  {arena : Arena} {planting : Planting}

/-- An outcome of recursive descent into an arena is that of a run. -/
theorem exists_descends_of_plant (present : arena ≠ [])
    (ran : source.plant fuel expr stream arena = some planting) :
    ∃ outcome failures, source.Descends expr arena.length stream outcome failures ∧
      outcome.planted arena arena = planting := by
  rw [(source.plants fuel).expr present] at ran
  obtain ⟨outcome, descended, rfl⟩ := Option.map_eq_some_iff.mp ran
  obtain ⟨failures, descends⟩ := descends_of_descend descended
  exact ⟨outcome, failures, descends, rfl⟩

/-- The stream of an outcome is that of its nodes. -/
@[simp] theorem stream_planted (outcome : Descent) (kept : Arena) :
    (outcome.planted kept arena).stream = outcome.stream := by
  cases outcome with
  | matched => rfl
  | failed => rfl

/-- Whatever the expression, the stream and the arena: an expression that does not match leaves the
arena as it was; one that matches leaves new trees behind the nodes of the arena and hands over
their roots; and the stream moves forward over the tokens that were taken. -/
theorem plant_restores (present : arena ≠ [])
    (ran : source.plant fuel expr stream arena = some planting) :
    (planting.roots = none → planting.arena = arena) ∧
      (∀ roots, planting.roots = some roots → arena.Sprouts planting.arena roots) ∧
      stream.position ≤ planting.stream.position ∧
      ∃ taken, stream.Advances planting.stream taken := by
  obtain ⟨outcome, failures, descends, rfl⟩ := exists_descends_of_plant present ran
  obtain ⟨taken, advances⟩ := descends.advances
  have moved := advances.position_eq
  rw [stream_planted]
  refine ⟨fun failed => ?_, fun roots matched => ?_, by omega, taken, advances⟩
  · cases outcome with
    | matched => cases failed
    | failed => rfl
  · cases outcome with
    | failed => cases matched
    | matched forest last after =>
      cases matched
      exact (descends.numbered rfl).sprouts

/-- The productions `S := (T b)? T? c` and `T := a` once more, behind a root. On `a a b` the
expression of `S` drops the nodes of the second `T` like those of the first one, and two tokens are
gone; on `a a c` it hands over `T` and `c`, and the node below `T` has it as its parent. -/
theorem plant_restores_dropped :
    ∃ source, EbnfDefinition.ofSteps [.terminal "a", .terminal "b", .terminal "c",
        .nonterminal "S", .nonterminal "T",
        .rule ⟨5⟩ (.chain [.optional (.chain [.nonterminal ⟨6⟩, .terminal ⟨3⟩]),
          .optional (.nonterminal ⟨6⟩), .terminal ⟨4⟩]),
        .rule ⟨6⟩ (.terminal ⟨2⟩)] = .ok source ∧
      ∃ expr failed matched, source.expression? ⟨5⟩ = some expr ∧
        source.plant 9 expr ⟨[⟨some ⟨2⟩, "a", "1"⟩, ⟨some ⟨2⟩, "a", "2"⟩, ⟨some ⟨3⟩, "b", "3"⟩], 0⟩
          [⟨⟨5⟩, none, [], none⟩] = some failed ∧
        source.plant 9 expr ⟨[⟨some ⟨2⟩, "a", "1"⟩, ⟨some ⟨2⟩, "a", "2"⟩, ⟨some ⟨4⟩, "c", "3"⟩], 0⟩
          [⟨⟨5⟩, none, [], none⟩] = some matched ∧
        failed.stream.position = 2 ∧ failed.arena = [⟨⟨5⟩, none, [], none⟩] ∧
        matched.stream.position = 3 ∧
        Arena.Sprouts [⟨⟨5⟩, none, [], none⟩] matched.arena [2, 3] := by
  obtain ⟨source, defined, -, passes⟩ := EbnfDefinition.exists_of_ofSteps
    [.terminal "a", .terminal "b", .terminal "c", .nonterminal "S", .nonterminal "T",
      .rule ⟨5⟩ (.chain [.optional (.chain [.nonterminal ⟨6⟩, .terminal ⟨3⟩]),
        .optional (.nonterminal ⟨6⟩), .terminal ⟨4⟩]),
      .rule ⟨6⟩ (.terminal ⟨2⟩)]
    (fun source => (source.expression? ⟨5⟩).any fun expr =>
      (source.plant 9 expr ⟨[⟨some ⟨2⟩, "a", "1"⟩, ⟨some ⟨2⟩, "a", "2"⟩, ⟨some ⟨3⟩, "b", "3"⟩], 0⟩
        [⟨⟨5⟩, none, [], none⟩]).any (fun failed : Planting =>
          decide (failed.roots = none ∧ failed.stream.position = 2)) &&
      (source.plant 9 expr ⟨[⟨some ⟨2⟩, "a", "1"⟩, ⟨some ⟨2⟩, "a", "2"⟩, ⟨some ⟨4⟩, "c", "3"⟩], 0⟩
        [⟨⟨5⟩, none, [], none⟩]).any (fun matched : Planting =>
          decide (matched.roots = some [2, 3] ∧ matched.stream.position = 3)))
    (by decide +kernel)
  simp only [Option.any_eq_true, Bool.and_eq_true, decide_eq_true_eq] at passes
  obtain ⟨expr, found, ⟨failed, ran, failing, moved⟩, matched, reran, roots, ahead⟩ := passes
  exact ⟨source, defined, expr, failed, matched, found, ran, reran, moved,
    (plant_restores (by simp) ran).1 failing, ahead, (plant_restores (by simp) reran).2.1 _ roots⟩

end EbnfGrammar

end Predictive
