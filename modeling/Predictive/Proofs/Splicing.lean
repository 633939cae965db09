import Predictive.Proofs.Parse.Spelling

/-!
# Splicing nodes out of trees

A transformed grammar has nonterminals of its own. Its trees show them, and splicing a node out
puts the children in its place. Two grammars have the same meaning in the strict sense if the trees
of the one are what is left of the trees of the other when the further nonterminals are spliced
out. This is kept by transformations one after the other, and the same strings are derived.

## Main definitions

* `Tree.splice`, `Tree.spliceAll` — what is left of a tree, and of a list of trees
* `Grammar.SplicesTo` — the trees of one grammar are those of another with some nodes spliced out

## Main results

* `Grammar.Yields.exists_spells` — every derivation has trees
* `Grammar.SplicesTo.trans` — transformations one after the other
* `Grammar.SplicesTo.derives_iff` — the same strings are derived
* `Grammar.SplicesTo.spells_iff` — the trees of a symbol that is not spliced out
-/

namespace Predictive

namespace Tree

variable {hidden inner outer : Symbol → Bool} {trees front back : List Tree} {tree : Tree}

mutual

/-- What is left of a tree: the children of a hidden node take its place. -/
def splice (hidden : Symbol → Bool) : Tree → List Tree
  | .node id s text children =>
    if hidden s then spliceAll hidden children
    else [.node id s text (spliceAll hidden children)]

/-- What is left of a list of trees. -/
def spliceAll (hidden : Symbol → Bool) : List Tree → List Tree
  | [] => []
  | tree :: rest => tree.splice hidden ++ spliceAll hidden rest

end

theorem splice_of_hidden {id : Nat} {s : Symbol} {text : Option String} (gone : hidden s = true) :
    (node id s text trees).splice hidden = spliceAll hidden trees := by
  rw [splice, if_pos gone]

theorem splice_of_shown {id : Nat} {s : Symbol} {text : Option String} (shown : hidden s = false) :
    (node id s text trees).splice hidden = [node id s text (spliceAll hidden trees)] := by
  rw [splice, if_neg (Bool.not_eq_true _ ▸ shown)]

@[simp] theorem spliceAll_singleton : spliceAll hidden [tree] = tree.splice hidden := by
  rw [spliceAll, spliceAll, List.append_nil]

theorem spliceAll_append :
    spliceAll hidden (front ++ back) = spliceAll hidden front ++ spliceAll hidden back := by
  induction front with
  | nil => rfl
  | cons tree rest ih => rw [List.cons_append, spliceAll, spliceAll, ih, List.append_assoc]

/-- Trees whose roots are not hidden keep their roots. -/
theorem map_symbol_spliceAll (shown : ∀ s ∈ trees.map symbol, hidden s = false) :
    (spliceAll hidden trees).map symbol = trees.map symbol := by
  induction trees with
  | nil => rfl
  | cons tree rest ih =>
    rw [List.map_cons, List.forall_mem_cons] at shown
    obtain ⟨id, s, text, children⟩ := tree
    have first : hidden s = false := shown.1
    rw [spliceAll, splice_of_shown first, List.map_append, ih shown.2]
    rfl

mutual

/-- A node that is spliced out later may be spliced out first. -/
theorem spliceAll_splice (weaker : ∀ s, inner s = true → outer s = true) (tree : Tree) :
    spliceAll outer (tree.splice inner) = tree.splice outer := by
  obtain ⟨id, s, text, children⟩ := tree
  have below := spliceAll_spliceAll weaker children
  cases gone : inner s with
  | true => rw [splice_of_hidden gone, splice_of_hidden (weaker s gone), below]
  | false =>
    rw [splice_of_shown gone, spliceAll_singleton]
    cases later : outer s with
    | true => rw [splice_of_hidden later, splice_of_hidden later, below]
    | false => rw [splice_of_shown later, splice_of_shown later, below]

theorem spliceAll_spliceAll (weaker : ∀ s, inner s = true → outer s = true) (trees : List Tree) :
    spliceAll outer (spliceAll inner trees) = spliceAll outer trees := by
  match trees with
  | [] => rfl
  | tree :: rest =>
    rw [spliceAll, spliceAll_append, spliceAll_splice weaker tree,
      spliceAll_spliceAll weaker rest, spliceAll]

end

end Tree

namespace Grammar

variable {grammar before middle after : Grammar} {hidden inner outer : Symbol → Bool}
  {trees : List Tree} {word : List (Symbol × Option String)} {form result : List Symbol}

/-- Every derivation has trees, in which no symbol is matched yet. -/
theorem Yields.exists_spells (yields : grammar.Yields form result) :
    ∃ trees, trees.map Tree.symbol = form ∧
      grammar.Spells trees (result.map fun s => (s, none)) := by
  induction yields with
  | nil => exact ⟨[], rfl, .nil⟩
  | keep s _ ih =>
    obtain ⟨trees, roots, spells⟩ := ih
    exact ⟨.leaf 0 s :: trees, congrArg (s :: ·) roots, .pending 0 s spells⟩
  | @expand s _ _ _ _ rule _ _ inner rest =>
    obtain ⟨children, spelled, below⟩ := inner
    obtain ⟨trees, roots, spells⟩ := rest
    refine ⟨.node 0 s none children :: trees, congrArg (s :: ·) roots, ?_⟩
    rw [List.map_append]
    exact .expanded 0 rule spelled below spells

/-- Trees without hidden nodes are left as they are. -/
theorem Spells.spliceAll_eq (ruled : ∀ {s alternative}, grammar.HasRule s alternative →
      hidden s = false)
    (matchable : ∀ {s}, grammar.isTerminal s = true → hidden s = false)
    (spells : grammar.Spells trees word) (shown : ∀ leaf ∈ word, hidden leaf.1 = false) :
    Tree.spliceAll hidden trees = trees := by
  induction spells with
  | nil => rfl
  | pending id s _ ih =>
    rw [List.forall_mem_cons] at shown
    rw [Tree.spliceAll, Tree.leaf, Tree.splice_of_shown shown.1, ih shown.2]
    rfl
  | matched id text terminal _ ih =>
    rw [List.forall_mem_cons] at shown
    rw [Tree.spliceAll, Tree.splice_of_shown (matchable terminal), ih shown.2]
    rfl
  | expanded id rule _ _ _ ihInner ihRest =>
    rw [List.forall_mem_append] at shown
    rw [Tree.spliceAll, Tree.splice_of_shown (ruled rule), ihInner shown.1, ihRest shown.2]
    rfl

/-- The trees of the grammar `before` are those of the grammar `after` with the hidden nodes
spliced out. Leaves that wait to be expanded are not hidden. -/
structure SplicesTo (after before : Grammar) (hidden : Symbol → Bool) : Prop where
  /-- What is left of the trees of `after` are trees of `before`. -/
  splice : ∀ {trees word}, after.Spells trees word → (∀ leaf ∈ word, hidden leaf.1 = false) →
    before.Spells (Tree.spliceAll hidden trees) word
  /-- Every tree of `before` is what is left of a tree of `after`. -/
  unsplice : ∀ {trees word}, before.Spells trees word → (∀ leaf ∈ word, hidden leaf.1 = false) →
    ∃ grown, after.Spells grown word ∧ grown.map Tree.symbol = trees.map Tree.symbol ∧
      Tree.spliceAll hidden grown = trees

namespace SplicesTo

theorem refl (ruled : ∀ {s alternative}, grammar.HasRule s alternative → hidden s = false)
    (matchable : ∀ {s}, grammar.isTerminal s = true → hidden s = false) :
    grammar.SplicesTo grammar hidden where
  splice spells shown := (spells.spliceAll_eq ruled matchable shown).symm ▸ spells
  unsplice spells shown := ⟨_, spells, rfl, spells.spliceAll_eq ruled matchable shown⟩

/-- Transformations one after the other. -/
theorem trans (first : middle.SplicesTo before outer) (second : after.SplicesTo middle inner)
    (weaker : ∀ s, inner s = true → outer s = true) : after.SplicesTo before outer := by
  have narrower : ∀ {word : List (Symbol × Option String)},
      (∀ leaf ∈ word, outer leaf.1 = false) → ∀ leaf ∈ word, inner leaf.1 = false := by
    intro word shown leaf listed
    by_contra gone
    rw [Bool.not_eq_false] at gone
    exact absurd (weaker _ gone) (by simp [shown leaf listed])
  constructor
  · intro trees word spells shown
    rw [← Tree.spliceAll_spliceAll weaker]
    exact first.splice (second.splice spells (narrower shown)) shown
  · intro trees word spells shown
    obtain ⟨grown, partly, roots, left⟩ := first.unsplice spells shown
    obtain ⟨full, wholly, roots', left'⟩ := second.unsplice partly (narrower shown)
    exact ⟨full, wholly, roots'.trans roots, by
      rw [← Tree.spliceAll_spliceAll weaker, left', left]⟩

/-- The same strings are derived. -/
theorem derives_iff (splices : after.SplicesTo before hidden)
    (formShown : ∀ s ∈ form, hidden s = false) (resultShown : ∀ s ∈ result, hidden s = false) :
    before.Derives form result ↔ after.Derives form result := by
  have shown : ∀ leaf ∈ result.map fun s => (s, (none : Option String)), hidden leaf.1 = false := by
    simpa using resultShown
  have symbols : (result.map fun s => (s, (none : Option String))).map Prod.fst = result := by
    simp [Function.comp_def]
  constructor
  · intro derives
    obtain ⟨trees, roots, spells⟩ := (derives_iff_yields.mp derives).exists_spells
    obtain ⟨grown, spelled, roots', -⟩ := splices.unsplice spells shown
    simpa only [roots', roots, symbols] using spelled.derives
  · intro derives
    obtain ⟨trees, roots, spells⟩ := (derives_iff_yields.mp derives).exists_spells
    have spliced := (splices.splice spells shown).derives
    rwa [Tree.map_symbol_spliceAll (roots ▸ formShown), roots, symbols] at spliced

/-- The trees of a symbol that is not spliced out. -/
theorem spells_iff {s : Symbol} {tree : Tree} (splices : after.SplicesTo before hidden)
    (rootShown : hidden s = false) (shown : ∀ leaf ∈ word, hidden leaf.1 = false) :
    (tree.symbol = s ∧ before.Spells [tree] word) ↔
      ∃ grown, grown.symbol = s ∧ after.Spells [grown] word ∧ grown.splice hidden = [tree] := by
  constructor
  · rintro ⟨rfl, spells⟩
    obtain ⟨all, spelled, roots, left⟩ := splices.unsplice spells shown
    obtain ⟨grown, rfl, root⟩ := List.map_eq_singleton_iff.mp roots
    exact ⟨grown, root, spelled, by rwa [Tree.spliceAll_singleton] at left⟩
  · rintro ⟨grown, rfl, spells, left⟩
    have spliced := splices.splice spells shown
    rw [Tree.spliceAll_singleton, left] at spliced
    refine ⟨?_, spliced⟩
    obtain ⟨id, s, text, children⟩ := grown
    have root : hidden s = false := rootShown
    rw [Tree.splice_of_shown root, List.singleton_inj] at left
    rw [← left]
    rfl

end SplicesTo

end Grammar

end Predictive
