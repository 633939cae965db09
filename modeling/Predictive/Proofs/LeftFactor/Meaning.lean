import Predictive.Proofs.LeftFactor.Step
import Predictive.Proofs.Splicing

/-!
# Left factoring keeps the meaning

Each factoring hides one more nonterminal inside the trees: where a member of the group was used,
its shared beginning is followed by a node of the new nonterminal, and the rest is below that node.
Splicing the node out gives the old tree back, so that after any number of factorings the trees of
the given grammar are those of the factored one with all new nodes spliced out. A factoring uses up
an occurrence of a symbol of the given grammar, because a new nonterminal occurs only once and
cannot be shared; so there is no more than one new name for each occurrence.

## Main definitions

* `Grammar.isNew` — whether a name came after those of a grammar
* `Grammar.Sparse` — new symbols occur only once
* `Grammar.FactoredForm` — what any number of factorings make of a grammar

## Main results

* `Grammar.Factored.splicesTo` — the trees after one factoring
* `Grammar.Factored.sparse`, `Grammar.Factored.countP_lt` — what one factoring does to the
  occurrences of symbols
* `Grammar.fits_factorPending` — any number of factorings
* `Grammar.leftFactor_preserves_trees` — left factoring keeps the trees of every nonterminal
-/

namespace Predictive

namespace Grammar

variable {grammar before middle after : Grammar} {s t : Symbol} {group : Group} {name : String}
  {alternative : Alternative} {trees children : List Tree} {word : List (Symbol × Option String)}

/-- Whether the name of a symbol came after those of the grammar. -/
def isNew (grammar : Grammar) (s : Symbol) : Bool := decide (grammar.names.size ≤ s.id)

theorem isNew_size : grammar.isNew ⟨grammar.names.size⟩ = true := decide_eq_true (Nat.le_refl _)

theorem WellFormed.not_isNew (wellFormed : grammar.WellFormed) (known : grammar.Knows s) :
    grammar.isNew s = false :=
  decide_eq_false (Nat.not_le.mpr (wellFormed.named known))

theorem WellFormed.not_isNew_of_rule (wellFormed : grammar.WellFormed)
    (rule : grammar.HasRule s alternative) :
    grammar.isNew s = false ∧ ∀ t ∈ alternative.symbols, grammar.isNew t = false :=
  ⟨wellFormed.not_isNew (Or.inr (isNonterminal_of_rule rule)), fun t listed =>
    wellFormed.not_isNew (wellFormed.knows_of_rule rule t listed)⟩

/-! ### Trees after one factoring -/

namespace Factored

variable (factored : Factored before after s group name) (wellFormed : before.WellFormed)

include factored wellFormed

/-- A tree of the new nonterminal that is not waiting is an ending of a member. -/
theorem exists_member {tree : Tree} (spells : after.Spells [tree] word)
    (root : tree.symbol = ⟨before.names.size⟩)
    (shown : ∀ leaf ∈ word, before.isNew leaf.1 = false) :
    ∃ member ∈ group.members, (tree.splice before.isNew).map Tree.symbol =
      (group.suffixOf member).symbols := by
  cases spells with
  | pending id t _ =>
    have waits : t = ⟨before.names.size⟩ := root
    rw [List.forall_mem_cons, waits, isNew_size] at shown
    cases shown.1
  | @matched id t text _ _ _ _ =>
    have matched : t = ⟨before.names.size⟩ := root
    rw [List.forall_mem_cons, matched, isNew_size] at shown
    cases shown.1
  | @expanded id t alternative children _ _ _ rule spelled inner _ =>
    obtain rfl : t = ⟨before.names.size⟩ := root
    rcases factored.hasRule_cases wellFormed rule with ⟨-, suffix⟩ | ⟨same, -⟩ | old
    · obtain ⟨member, inside, rfl⟩ := Group.mem_suffixes.mp suffix
      refine ⟨member, inside, ?_⟩
      have known := (wellFormed.not_isNew_of_rule (factored.hasRule_member inside)).2
      rw [Group.symbols_of_mem_members inside, List.forall_mem_append] at known
      rw [Tree.splice_of_hidden isNew_size, Tree.map_symbol_spliceAll (spelled ▸ known.2), spelled]
    · exact absurd same.symm (factored.ne_new wellFormed)
    · have shown := (wellFormed.not_isNew_of_rule old).1
      rw [isNew_size] at shown
      cases shown

/-- What is left of a tree after the factoring, with the new nodes spliced out, is a tree. -/
theorem spells_spliceAll (spells : after.Spells trees word)
    (shown : ∀ leaf ∈ word, before.isNew leaf.1 = false) :
    before.Spells (Tree.spliceAll before.isNew trees) word := by
  induction spells with
  | nil => exact .nil
  | pending id t _ ih =>
    rw [List.forall_mem_cons] at shown
    rw [Tree.spliceAll, Tree.leaf, Tree.splice_of_shown shown.1]
    exact .pending id t (ih shown.2)
  | matched id text terminal _ ih =>
    rw [List.forall_mem_cons] at shown
    rw [Tree.spliceAll, Tree.splice_of_shown shown.1]
    exact .matched id text (factored.isTerminal_eq _ ▸ terminal) (ih shown.2)
  | @expanded id t alternative children trees first second rule spelled inner _ ihInner ihRest =>
    rw [List.forall_mem_append] at shown
    rw [Tree.spliceAll]
    rcases factored.hasRule_cases wellFormed rule with ⟨rfl, -⟩ | ⟨rfl, rfl⟩ | old
    -- a new node leaves its children
    · rw [Tree.splice_of_hidden isNew_size]
      exact (ihInner shown.1).append (ihRest shown.2)
    -- the last child is new, and what it leaves makes the children spell a member
    · have leads : group.leader ∈ group.members := List.mem_cons_self
      have rooted := wellFormed.not_isNew_of_rule (factored.hasRule_member leads)
      rw [Group.symbols_stand (ne_epsilon_size _)] at spelled
      obtain ⟨front, ending, rfl, begins, ends⟩ := List.map_eq_append_iff.mp spelled
      obtain ⟨last, rfl, root⟩ := List.map_eq_singleton_iff.mp ends
      obtain ⟨early, late, rfl, -, below⟩ := Spells.append_iff.mp inner
      rw [List.forall_mem_append] at shown
      obtain ⟨member, inside, left⟩ := factored.exists_member wellFormed below root shown.1.2
      have kept : ∀ u ∈ front.map Tree.symbol, before.isNew u = false := by
        intro u listed
        rw [begins] at listed
        exact rooted.2 u ((Group.shared_isPrefix leads).subset listed)
      rw [Tree.splice_of_shown rooted.1]
      refine .expanded id (factored.hasRule_member inside) ?_
        (ihInner (List.forall_mem_append.mpr shown.1)) (ihRest shown.2)
      rw [Tree.spliceAll_append, List.map_append, Tree.map_symbol_spliceAll kept, begins,
        Tree.spliceAll_singleton, left, Group.symbols_of_mem_members inside]
    -- an old rule is used as before
    · obtain ⟨rootShown, known⟩ := wellFormed.not_isNew_of_rule old
      rw [Tree.splice_of_shown rootShown]
      refine .expanded id old ?_ (ihInner shown.1) (ihRest shown.2)
      rw [Tree.map_symbol_spliceAll (spelled ▸ known), spelled]

/-- Every tree is what is left of a tree after the factoring. -/
theorem exists_spliceAll_eq (spells : before.Spells trees word)
    (shown : ∀ leaf ∈ word, before.isNew leaf.1 = false) :
    ∃ grown, after.Spells grown word ∧ grown.map Tree.symbol = trees.map Tree.symbol ∧
      Tree.spliceAll before.isNew grown = trees := by
  induction spells with
  | nil => exact ⟨[], .nil, rfl, rfl⟩
  | pending id t _ ih =>
    rw [List.forall_mem_cons] at shown
    obtain ⟨grown, spelled, roots, left⟩ := ih shown.2
    refine ⟨_, .pending id t spelled, congrArg (t :: ·) roots, ?_⟩
    rw [Tree.spliceAll, Tree.leaf, Tree.splice_of_shown shown.1, left]
    rfl
  | @matched id t text _ _ terminal _ ih =>
    rw [List.forall_mem_cons] at shown
    obtain ⟨grown, spelled, roots, left⟩ := ih shown.2
    refine ⟨_, .matched id text ((factored.isTerminal_eq _).trans terminal) spelled,
      congrArg (t :: ·) roots, ?_⟩
    rw [Tree.spliceAll, Tree.splice_of_shown shown.1, left]
    rfl
  | @expanded id t alternative children trees first second rule spelled _ _ ihInner ihRest =>
    rw [List.forall_mem_append] at shown
    obtain ⟨below, spelledBelow, rootsBelow, leftBelow⟩ := ihInner shown.1
    obtain ⟨grown, spelledRest, roots, left⟩ := ihRest shown.2
    have rootShown := (wellFormed.not_isNew_of_rule rule).1
    rcases factored.hasRule_of wellFormed rule with kept | ⟨rfl, member⟩
    · refine ⟨_, .expanded id kept (rootsBelow.trans spelled) spelledBelow spelledRest,
        congrArg (t :: ·) roots, ?_⟩
      rw [Tree.spliceAll, Tree.splice_of_shown rootShown, leftBelow, left]
      rfl
    -- what comes after the shared beginning goes below a new node
    · rw [spelled, Group.symbols_of_mem_members member] at rootsBelow
      obtain ⟨front, back, rfl, begins, ends⟩ := List.map_eq_append_iff.mp rootsBelow
      obtain ⟨early, late, rfl, frontSpells, backSpells⟩ := Spells.append_iff.mp spelledBelow
      have suffix : after.HasRule ⟨before.names.size⟩ (group.suffixOf alternative) :=
        ⟨_, factored.alternatives?_new, Group.mem_suffixes.mpr ⟨_, member, rfl⟩⟩
      have node := frontSpells.append (Spells.expanded 0 suffix ends backSpells .nil)
      rw [List.append_nil] at node
      refine ⟨_, .expanded id factored.hasRule_stand ?_ node spelledRest,
        congrArg (t :: ·) roots, ?_⟩
      · rw [Group.symbols_stand (ne_epsilon_size _), List.map_append, begins]
        rfl
      · rw [Tree.spliceAll, Tree.splice_of_shown rootShown, Tree.spliceAll_append,
          Tree.spliceAll_singleton, Tree.splice_of_hidden isNew_size, ← Tree.spliceAll_append,
          leftBelow, left]
        rfl

/-- The trees of the grammar are those after the factoring with the new nodes spliced out. -/
theorem splicesTo : after.SplicesTo before before.isNew where
  splice := factored.spells_spliceAll wellFormed
  unsplice := factored.exists_spliceAll_eq wellFormed

end Factored

/-! ### Occurrences after one factoring -/

/-- Symbols beyond a bound occur at most once. -/
def Sparse (grammar : Grammar) (bound : Nat) : Prop :=
  ∀ s : Symbol, bound ≤ s.id → grammar.occurrences.count s ≤ 1

theorem mem_occurrences_iff :
    s ∈ grammar.occurrences ↔ ∃ t alternative, grammar.HasRule t alternative ∧
      s ∈ alternative.symbols := by
  simp only [occurrences, List.mem_flatMap]
  constructor
  · rintro ⟨⟨t, alternatives⟩, entry, alternative, listed, inside⟩
    exact ⟨t, alternative, ⟨alternatives, OrderedMap.mem_entries_iff.mp entry, listed⟩, inside⟩
  · rintro ⟨t, alternative, ⟨alternatives, found, listed⟩, inside⟩
    exact ⟨(t, alternatives), OrderedMap.mem_entries_iff.mpr found, alternative, listed, inside⟩

/-- No symbol beyond the names occurs. -/
theorem WellFormed.count_eq_zero (wellFormed : grammar.WellFormed)
    (beyond : grammar.names.size ≤ s.id) : grammar.occurrences.count s = 0 := by
  refine List.count_eq_zero.mpr fun occurs => ?_
  obtain ⟨t, alternative, rule, listed⟩ := mem_occurrences_iff.mp occurs
  exact absurd (wellFormed.named (wellFormed.knows_of_rule rule s listed)) (Nat.not_lt.mpr beyond)

namespace Factored

variable {bound : Nat} (factored : Factored before after s group name)
  (wellFormed : before.WellFormed)

include factored wellFormed

/-- A symbol that is shared occurs more than once. -/
theorem lt_of_mem_shared (sparse : before.Sparse bound) (shared : t ∈ group.shared) :
    t.id < bound := by
  by_contra beyond
  obtain ⟨alternatives, -, within⟩ := factored.within
  obtain ⟨others, old, -⟩ := factored.exists_countP_occurrences wellFormed (· == t)
  have once : before.occurrences.countP (· == t) ≤ 1 := sparse t (Nat.not_lt.mp beyond)
  have occurs : 1 ≤ group.shared.countP (· == t) := List.count_pos_iff.mpr shared
  have twice : 2 * 1 ≤ _ := Nat.mul_le_mul within.two_le_length_members occurs
  omega

theorem sparse (sparse : before.Sparse bound) : after.Sparse bound := by
  intro t beyond
  obtain ⟨others, old, new⟩ := factored.exists_countP_occurrences wellFormed (· == t)
  have once : before.occurrences.countP (· == t) ≤ 1 := sparse t beyond
  have unshared : group.shared.countP (· == t) = 0 := List.count_eq_zero.mpr fun shared =>
    absurd (factored.lt_of_mem_shared wellFormed sparse shared) (Nat.not_lt.mpr beyond)
  rw [List.count, new, unshared, Nat.zero_add]
  by_cases same : (⟨before.names.size⟩ : Symbol) = t
  · have absent : before.occurrences.countP (· == t) = 0 :=
      wellFormed.count_eq_zero (same ▸ Nat.le_refl _)
    have single : [(⟨before.names.size⟩ : Symbol)].countP (· == t) ≤ 1 := List.countP_le_length
    omega
  · have none : [(⟨before.names.size⟩ : Symbol)].countP (· == t) = 0 := by simp [same]
    omega

/-- A factoring uses up an occurrence of a symbol below the bound. -/
theorem countP_lt (sparse : before.Sparse bound) (later : bound ≤ before.names.size) :
    after.occurrences.countP (fun t => decide (t.id < bound)) <
      before.occurrences.countP (fun t => decide (t.id < bound)) := by
  obtain ⟨alternatives, -, within⟩ := factored.within
  obtain ⟨others, old, new⟩ :=
    factored.exists_countP_occurrences wellFormed fun t => decide (t.id < bound)
  have shared : group.head ∈ group.shared := List.mem_of_mem_head? within.head?_shared
  have used : 1 ≤ group.shared.countP fun t => decide (t.id < bound) :=
    List.countP_pos_iff.mpr ⟨_, shared, decide_eq_true
      (factored.lt_of_mem_shared wellFormed sparse shared)⟩
  have twice := Nat.mul_le_mul_right (group.shared.countP fun t => decide (t.id < bound))
    within.two_le_length_members
  have none : [(⟨before.names.size⟩ : Symbol)].countP (fun t => decide (t.id < bound)) = 0 := by
    simpa using later
  omega

end Factored

/-! ### Any number of factorings -/

/-- A symbol whose name is made from that of a nonterminal. -/
def IsFactor (grammar : Grammar) (s : Symbol) : Prop :=
  ∃ origin base ending, grammar.isNonterminal origin = true ∧
    grammar.names.name? origin = some base ∧
    grammar.names.name? s = some (base ++ "_LF" ++ ending)

/-- What any number of factorings make of a grammar. -/
structure FactoredForm (before after : Grammar) : Prop where
  /-- The grammar stays well formed. -/
  wellFormed : after.WellFormed
  /-- Names are added at the end. -/
  names : before.names.Extends after.names
  /-- The terminals stay. -/
  terminals_eq : after.terminals = before.terminals
  /-- The start symbol stays. -/
  start_eq : after.start = before.start
  /-- The nonterminals stay. -/
  kept : ∀ {s}, before.isNonterminal s = true → after.isNonterminal s = true
  /-- The other nonterminals are new, and named for what they were factored out of. -/
  added : ∀ {s}, after.isNonterminal s = true → before.isNonterminal s = false →
    before.isNew s = true ∧ after.IsFactor s
  /-- The trees stay, up to the new nodes. -/
  splices : after.SplicesTo before before.isNew

theorem factoredForm_refl (wellFormed : grammar.WellFormed) : grammar.FactoredForm grammar where
  wellFormed := wellFormed
  names := .refl _
  terminals_eq := rfl
  start_eq := rfl
  kept := fun nonterminal => nonterminal
  added := fun nonterminal other => by rw [nonterminal] at other; cases other
  splices := .refl (fun rule => (wellFormed.not_isNew_of_rule rule).1)
    fun terminal => wellFormed.not_isNew (Or.inl terminal)

theorem Factored.form (factored : Factored before after s group name)
    (wellFormed : before.WellFormed) : before.FactoredForm after where
  wellFormed := factored.preserves_wellFormed wellFormed
  names := ⟨_, factored.introduces.names_eq⟩
  terminals_eq := factored.introduces.terminals_eq
  start_eq := factored.introduces.start_eq
  kept := fun nonterminal => (factored.isNonterminal_iff wellFormed).mpr (Or.inr nonterminal)
  added := by
    intro t nonterminal other
    rcases (factored.isNonterminal_iff wellFormed).mp nonterminal with rfl | old
    · obtain ⟨base, ending, named, rfl⟩ := factored.named
      have grown : before.names.Extends after.names := ⟨_, factored.introduces.names_eq⟩
      refine ⟨isNew_size, s, base, ending, ?_, ?_, ?_⟩
      · exact Option.isSome_iff_exists.mpr ⟨_, factored.alternatives?_old⟩
      · rw [grown.name? (NameTable.lt_size_of_name? named), named]
      · rw [NameTable.name?, ← Array.getElem?_toList, factored.introduces.names_eq,
          NameTable.size, ← Array.length_toList, List.getElem?_concat_length]
    · rw [other] at old
      cases old
  splices := factored.splicesTo wellFormed

/-- A symbol keeps its name when further ones come in. -/
theorem IsFactor.mono (factor : before.IsFactor s) (form : before.FactoredForm after) :
    after.IsFactor s := by
  obtain ⟨origin, base, ending, nonterminal, named, made⟩ := factor
  refine ⟨origin, base, ending, form.kept nonterminal, ?_, ?_⟩
  · rw [form.names.name? (NameTable.lt_size_of_name? named), named]
  · rw [form.names.name? (NameTable.lt_size_of_name? made), made]

theorem FactoredForm.trans (first : before.FactoredForm middle)
    (second : middle.FactoredForm after) : before.FactoredForm after where
  wellFormed := second.wellFormed
  names := first.names.trans second.names
  terminals_eq := second.terminals_eq.trans first.terminals_eq
  start_eq := second.start_eq.trans first.start_eq
  kept := fun nonterminal => second.kept (first.kept nonterminal)
  added := by
    intro s nonterminal other
    have grown := first.names.size_le
    cases known : middle.isNonterminal s with
    | true => exact (first.added known other).imp_right fun factor => factor.mono second
    | false =>
      obtain ⟨new, factor⟩ := second.added nonterminal known
      exact ⟨decide_eq_true (Nat.le_trans grown (of_decide_eq_true new)), factor⟩
  splices := first.splices.trans second.splices fun _ new =>
    decide_eq_true (Nat.le_trans first.names.size_le (of_decide_eq_true new))

/-- Factoring the pending nonterminals succeeds if there is more room than there are occurrences of
symbols below a bound beyond which symbols occur only once. -/
theorem fits_factorPending {bound fuel : Nat} {pending : Worklist Symbol} {changed : Bool}
    (wellFormed : grammar.WellFormed) (sparse : grammar.Sparse bound)
    (later : bound ≤ grammar.names.size) :
    NameTable.Fits
      (grammar.names.size + (grammar.occurrences.countP fun t => decide (t.id < bound)) + 1)
      (fun result => grammar.FactoredForm result.1)
      (factorPending fuel pending grammar changed) := by
  induction fuel generalizing grammar pending changed with
  | zero => exact NameTable.fits_ok (factoredForm_refl wellFormed)
  | succ fuel ih =>
    unfold factorPending
    split
    · exact NameTable.fits_ok (factoredForm_refl wellFormed)
    · next s rest _ =>
      refine (fits_factorOnce wellFormed s).bind (by omega) ?_
      rintro result (⟨rfl, -⟩ | ⟨next, group, name, rfl, factored⟩)
      · exact ih wellFormed sparse later
      · have size := factored.size_eq
        have fewer := factored.countP_lt wellFormed sparse later
        have form := factored.form wellFormed
        rcases @ih next (rest.extend [s, ⟨grammar.names.size⟩]) true form.wellFormed
          (factored.sparse wellFormed sparse) (by omega) with
          ⟨failed, full⟩ | ⟨result, passed, further⟩
        · exact Or.inl ⟨failed, by omega⟩
        · exact Or.inr ⟨result, passed, form.trans further⟩

/-- Left factoring keeps the trees of every nonterminal. It fails only for want of room, if there
are too many occurrences of symbols for the names that are left. Otherwise the start symbol, the
terminals and the nonterminals stay what they are, and the new nonterminals come after them. The
trees of an old nonterminal, over old symbols, are those of the factored grammar with the nodes of
the new nonterminals spliced out; so it derives the same strings as before. -/
theorem leftFactor_preserves_trees (wellFormed : grammar.WellFormed) :
    (grammar.leftFactor = .error .tooManySymbols ∧
        NameTable.capacity ≤ grammar.names.size + grammar.occurrenceCount) ∨
      ∃ factored changed, grammar.leftFactor = .ok (factored, changed) ∧
        (∃ added, factored.names.names.toList = grammar.names.names.toList ++ added) ∧
        factored.terminals = grammar.terminals ∧ factored.start = grammar.start ∧
        (∀ A, grammar.isNonterminal A = true →
          factored.isNonterminal A = true ∧ grammar.isNew A = false) ∧
        (∀ B, factored.isNonterminal B = true → grammar.isNonterminal B = false →
          grammar.isNew B = true ∧ factored.IsFactor B) ∧
        ∀ A, grammar.isNonterminal A = true →
          (∀ tree word, (∀ leaf ∈ word, grammar.Knows leaf.1) →
            ((tree.symbol = A ∧ grammar.Spells [tree] word) ↔
              ∃ grown, grown.symbol = A ∧ factored.Spells [grown] word ∧
                grown.splice grammar.isNew = [tree])) ∧
          ∀ word, (∀ t ∈ word, grammar.isTerminal t = true) →
            (grammar.Derives [A] word ↔ factored.Derives [A] word) := by
  have sparse : grammar.Sparse grammar.names.size := fun s beyond => by
    rw [wellFormed.count_eq_zero beyond]
    exact Nat.zero_le 1
  have fewer := List.countP_le_length (p := fun t : Symbol => decide (t.id < grammar.names.size))
    (l := grammar.occurrences)
  rw [length_occurrences] at fewer
  rcases fits_factorPending wellFormed sparse (Nat.le_refl _) with
    ⟨failed, full⟩ | ⟨⟨factored, changed⟩, passed, form⟩
  · exact Or.inl ⟨failed, by omega⟩
  · refine Or.inr ⟨factored, changed, passed, form.names, form.terminals_eq, form.start_eq,
      fun A old => ⟨form.kept old, wellFormed.not_isNew (Or.inr old)⟩,
      fun B nonterminal other => form.added nonterminal other, fun A old => ⟨?_, ?_⟩⟩
    · intro tree word known
      exact form.splices.spells_iff (wellFormed.not_isNew (Or.inr old)) fun leaf listed =>
        wellFormed.not_isNew (known leaf listed)
    · intro word terminals
      refine form.splices.derives_iff ?_ fun t listed =>
        wellFormed.not_isNew (Or.inl (terminals t listed))
      rw [List.forall_mem_singleton]
      exact wellFormed.not_isNew (Or.inr old)

/-- In `S : a b c | a b d | a e` the group of three is factored out, and then a group of two inside
the new nonterminal. Each alternative is still derived, by a tree that splices to it. -/
theorem leftFactor_preserves_trees_twice :
    ∃ grammar, Grammar.ofText "S : a b c | a b d | a e ;" = .ok grammar ∧
      ∃ factored, grammar.leftFactor = .ok (factored, true) ∧
        factored.nonterminals.length = 3 ∧
        ∀ alternative, grammar.HasRule grammar.start alternative →
          factored.Derives [grammar.start] alternative.symbols ∧
          ∃ grown, factored.Spells [grown] (alternative.symbols.map fun t => (t, none)) ∧
            grown.splice grammar.isNew =
              [.node 0 grammar.start none (alternative.symbols.map (Tree.leaf 0))] := by
  obtain ⟨grammar, defined, wellFormed, checked⟩ := Grammar.exists_of_ofText
    "S : a b c | a b d | a e ;"
    (fun grammar => (grammar.leftFactor.toOption.any fun result =>
        result.2 && result.1.nonterminals.length == 3) &&
      (grammar.alternatives? grammar.start).all fun alternatives =>
        alternatives.all fun alternative => alternative.symbols.all grammar.isTerminal)
    (by decide +kernel)
  rw [Bool.and_eq_true] at checked
  obtain ⟨ran, terminals⟩ := checked
  rcases leftFactor_preserves_trees wellFormed with
    ⟨failed, -⟩ | ⟨factored, changed, passed, -, -, -, -, -, preserved⟩
  · rw [failed] at ran
    cases ran
  · obtain ⟨rfl, three⟩ : changed = true ∧ factored.nonterminals.length = 3 := by
      simpa [passed, Except.toOption] using ran
    refine ⟨grammar, defined, factored, passed, three, fun alternative rule => ?_⟩
    obtain ⟨trees, derives⟩ := preserved grammar.start wellFormed.start_isNonterminal
    obtain ⟨alternatives, found, listed⟩ := rule
    have rule : grammar.HasRule grammar.start alternative := ⟨alternatives, found, listed⟩
    rw [found, Option.all_some, List.all_eq_true] at terminals
    have leaves := List.all_eq_true.mp (terminals alternative listed)
    have spells : ∀ symbols : List Symbol, grammar.Spells (symbols.map (Tree.leaf 0))
        (symbols.map fun t => (t, none)) := by
      intro symbols
      induction symbols with
      | nil => exact .nil
      | cons t rest ih => exact .pending 0 t ih
    have spelled : (alternative.symbols.map (Tree.leaf 0)).map Tree.symbol =
        alternative.symbols := by
      rw [List.map_map]
      exact List.map_id _
    have whole := Spells.expanded 0 rule spelled (spells alternative.symbols) .nil
    rw [List.append_nil] at whole
    have known : ∀ leaf ∈ alternative.symbols.map fun t => (t, (none : Option String)),
        grammar.Knows leaf.1 := by
      intro leaf member
      obtain ⟨t, listed, rfl⟩ := List.mem_map.mp member
      exact Or.inl (leaves t listed)
    obtain ⟨grown, -, spelledGrown, left⟩ := (trees _ _ known).mp ⟨rfl, whole⟩
    exact ⟨(derives _ leaves).mp rule.derives, grown, spelledGrown, left⟩

end Grammar

end Predictive
