import Predictive.Proofs.LeftFactor.Ending
import Predictive.Proofs.Selection

/-!
# Left factoring keeps the analyses

A string over the symbols of a factored grammar stands for strings over the old symbols: the new
nonterminal can be filled by what is left of any member of its group. A derivation of the factored
grammar is a derivation of the old one between such fillings, and an old derivation is a new one. So
FIRST and FOLLOW sets of old nonterminals stay what they are, and what follows the new nonterminal
follows the production that it was factored out of, since it occurs there only, and last.

A grammar without conflicts can have a group only if the shared beginning starts with no terminal;
if everything begins with something, the shared beginning can vanish. Then a lookahead that
predicts what is left of a member predicts the member, and no conflict comes in.

## Main definitions

* `Grammar.Group.Fills` — fill the new nonterminal in a string
* `Grammar.Productive` — every nonterminal begins with a terminal or can vanish
* `Grammar.SameAnalyses` — what left factoring keeps

## Main results

* `Grammar.Factored.exists_fills_yields` — derivations after one factoring
* `Grammar.Factored.begins_iff`, `Grammar.Factored.canFollow_iff` — what begins and what follows
* `Grammar.Factored.canFollow_of_new` — what follows the new nonterminal
* `Grammar.Factored.isLL1` — one factoring brings no conflict in
* `Grammar.leftFactor_preserves_analyses` — left factoring keeps the analyses
-/

namespace Predictive

namespace Grammar

variable {grammar before after : Grammar} {s t r new : Symbol} {group : Group} {name : String}
  {alternative : Alternative} {form other result front back : List Symbol}

/-! ### Filling the new nonterminal -/

namespace Group

/-- Each occurrence of the new nonterminal is filled by what is left of a member of the group. -/
inductive Fills (group : Group) (new : Symbol) : List Symbol → List Symbol → Prop where
  /-- The empty string. -/
  | nil : Fills group new [] []
  /-- Another symbol stays. -/
  | keep {s : Symbol} {form other : List Symbol} (old : s ≠ new)
      (rest : Fills group new form other) : Fills group new (s :: form) (s :: other)
  /-- The new nonterminal is filled. -/
  | fill {member : Alternative} {form other : List Symbol} (listed : member ∈ group.members)
      (rest : Fills group new form other) :
      Fills group new (new :: form) ((group.suffixOf member).symbols ++ other)

theorem Fills.append {form' other' : List Symbol} (left : group.Fills new form other)
    (right : group.Fills new form' other') :
    group.Fills new (form ++ form') (other ++ other') := by
  induction left with
  | nil => exact right
  | keep old _ ih => exact .keep old ih
  | fill listed _ ih =>
    rw [List.append_assoc]
    exact .fill listed ih

/-- A string in two parts is filled part by part. -/
theorem fills_append_iff :
    group.Fills new (front ++ back) result ↔
      ∃ first second, result = first ++ second ∧ group.Fills new front first ∧
        group.Fills new back second := by
  constructor
  · intro fills
    induction front generalizing result with
    | nil => exact ⟨[], result, rfl, .nil, fills⟩
    | cons s rest ih =>
      cases fills with
      | keep old tail =>
        obtain ⟨first, second, rfl, left, right⟩ := ih tail
        exact ⟨s :: first, second, rfl, .keep old left, right⟩
      | fill listed tail =>
        obtain ⟨first, second, rfl, left, right⟩ := ih tail
        exact ⟨_, second, (List.append_assoc ..).symm, .fill listed left, right⟩
  · rintro ⟨first, second, rfl, left, right⟩
    exact left.append right

/-- A string of old symbols is filled by itself only. -/
theorem fills_iff_eq (old : ∀ s ∈ form, s ≠ new) : group.Fills new form other ↔ other = form := by
  induction form generalizing other with
  | nil =>
    constructor
    · intro fills
      cases fills
      rfl
    · rintro rfl
      exact .nil
  | cons s rest ih =>
    rw [List.forall_mem_cons] at old
    constructor
    · intro fills
      cases fills with
      | keep _ tail => rw [(ih old.2).mp tail]
      | fill => exact absurd rfl old.1
    · rintro rfl
      exact .keep old.1 ((ih old.2).mpr rfl)

/-- Every string can be filled. -/
theorem exists_fills (group : Group) (new : Symbol) (form : List Symbol) :
    ∃ other, group.Fills new form other := by
  induction form with
  | nil => exact ⟨[], .nil⟩
  | cons s rest ih =>
    obtain ⟨other, fills⟩ := ih
    by_cases same : s = new
    · subst same
      exact ⟨_, .fill List.mem_cons_self fills⟩
    · exact ⟨_, .keep same fills⟩

/-- Two old symbols side by side stay so when what is around them is filled. -/
theorem exists_fills_around (group : Group) (old : r ≠ new) (next : t ≠ new)
    (front back : List Symbol) :
    ∃ front' back', group.Fills new (front ++ r :: t :: back) (front' ++ r :: t :: back') := by
  obtain ⟨front', fills⟩ := group.exists_fills new front
  obtain ⟨back', fills'⟩ := group.exists_fills new back
  exact ⟨front', back', fills.append (.keep old (.keep next fills'))⟩

/-- The alternative that stands for the group is filled by the members. -/
theorem exists_member_of_fills (proper : new ≠ .epsilon) (old : ∀ s ∈ group.shared, s ≠ new)
    (fills : group.Fills new (group.stand new).symbols result) :
    ∃ member ∈ group.members, result = member.symbols := by
  rw [symbols_stand proper] at fills
  obtain ⟨first, second, rfl, left, right⟩ := fills_append_iff.mp fills
  obtain rfl := (fills_iff_eq old).mp left
  cases right with
  | keep wrong => exact absurd rfl wrong
  | fill listed rest =>
    cases rest
    exact ⟨_, listed, by rw [List.append_nil, symbols_of_mem_members listed]⟩

end Group

/-! ### Derivations after one factoring -/

/-- A symbol of the grammar is not the next one to be introduced. -/
theorem WellFormed.ne_size (wellFormed : grammar.WellFormed) (known : grammar.Knows t) :
    t ≠ ⟨grammar.names.size⟩ := by
  rintro rfl
  exact absurd (wellFormed.named known) (Nat.lt_irrefl _)

theorem WellFormed.ne_size_of_rule (wellFormed : grammar.WellFormed)
    (rule : grammar.HasRule t alternative) :
    ∀ u ∈ alternative.symbols, u ≠ ⟨grammar.names.size⟩ := fun u listed =>
  wellFormed.ne_size (wellFormed.knows_of_rule rule u listed)

namespace Factored

variable (factored : Factored before after s group name) (wellFormed : before.WellFormed)

include factored wellFormed

theorem ne_new_of_mem_shared (listed : t ∈ group.shared) : t ≠ ⟨before.names.size⟩ :=
  wellFormed.ne_size_of_rule (factored.hasRule_member List.mem_cons_self) t
    ((Group.shared_isPrefix List.mem_cons_self).subset listed)

theorem ne_new_of_mem_suffixOf {member : Alternative} (inside : member ∈ group.members) :
    ∀ u ∈ (group.suffixOf member).symbols, u ≠ ⟨before.names.size⟩ := by
  intro u listed
  refine wellFormed.ne_size_of_rule (factored.hasRule_member inside) u ?_
  rw [Group.symbols_of_mem_members inside]
  exact List.mem_append_right _ listed

omit wellFormed in
theorem hasRule_suffixOf {member : Alternative} (inside : member ∈ group.members) :
    after.HasRule ⟨before.names.size⟩ (group.suffixOf member) :=
  ⟨_, factored.alternatives?_new, Group.mem_suffixes.mpr ⟨member, inside, rfl⟩⟩

/-- An old derivation is a derivation after the factoring. -/
theorem derives_after (derives : before.Derives form result) : after.Derives form result := by
  have expands : ∀ {t alternative}, before.HasRule t alternative →
      after.Derives [t] alternative.symbols := by
    intro t alternative rule
    rcases factored.hasRule_of wellFormed rule with kept | ⟨rfl, member⟩
    · exact kept.derives
    -- a member is reached by the shared beginning and the new nonterminal
    · have stands := factored.hasRule_stand.derives
      rw [Group.symbols_stand (ne_epsilon_size _)] at stands
      rw [Group.symbols_of_mem_members member]
      exact stands.trans ((factored.hasRule_suffixOf member).derives.append_left group.shared)
  induction derives with
  | refl => exact .refl _
  | tail _ step ih =>
    obtain ⟨front, back, rule⟩ := step
    exact ih.trans (((expands rule).append_right back).append_left front)

/-- A derivation after the factoring is an old derivation between strings that are filled. -/
theorem exists_fills_yields {filled : List Symbol} (yields : after.Yields form result)
    (fills : group.Fills ⟨before.names.size⟩ result filled) :
    ∃ origin, group.Fills ⟨before.names.size⟩ form origin ∧ before.Yields origin filled := by
  induction yields generalizing filled with
  | nil =>
    cases fills
    exact ⟨[], .nil, .nil⟩
  | keep t _ ih =>
    cases fills with
    | keep old rest =>
      obtain ⟨origin, begins, yields⟩ := ih rest
      exact ⟨t :: origin, .keep old begins, .keep t yields⟩
    | fill listed rest =>
      obtain ⟨origin, begins, yields⟩ := ih rest
      exact ⟨_, .fill listed begins, (Yields.refl _).append yields⟩
  | @expand t alternative form first second rule _ _ ihInner ihRest =>
    obtain ⟨left, right, rfl, fillsFirst, fillsSecond⟩ := Group.fills_append_iff.mp fills
    obtain ⟨inner, fillsInner, yieldsInner⟩ := ihInner fillsFirst
    obtain ⟨rest, fillsRest, yieldsRest⟩ := ihRest fillsSecond
    rcases factored.hasRule_cases wellFormed rule with ⟨rfl, suffix⟩ | ⟨rfl, rfl⟩ | old
    -- the new nonterminal was filled by the alternative that it is expanded by
    · obtain ⟨member, inside, rfl⟩ := Group.mem_suffixes.mp suffix
      obtain rfl := (Group.fills_iff_eq
        (factored.ne_new_of_mem_suffixOf wellFormed inside)).mp fillsInner
      exact ⟨_, .fill inside fillsRest, yieldsInner.append yieldsRest⟩
    -- the alternative that stands for the group was filled to a member
    · obtain ⟨member, inside, rfl⟩ := Group.exists_member_of_fills (ne_epsilon_size _)
        (fun u => factored.ne_new_of_mem_shared wellFormed) fillsInner
      exact ⟨_, .keep (factored.ne_new wellFormed) fillsRest,
        .expand (factored.hasRule_member inside) yieldsInner yieldsRest⟩
    · obtain rfl := (Group.fills_iff_eq (wellFormed.ne_size_of_rule old)).mp fillsInner
      have oldLeft := wellFormed.ne_size (Or.inr (isNonterminal_of_rule old))
      exact ⟨_, .keep oldLeft fillsRest, .expand old yieldsInner yieldsRest⟩

/-- From a string of old symbols, whatever can be derived can be derived filled. -/
theorem derives_before (old : ∀ u ∈ form, u ≠ ⟨before.names.size⟩)
    (derives : after.Derives form result)
    (fills : group.Fills ⟨before.names.size⟩ result other) : before.Derives form other := by
  obtain ⟨origin, fillsForm, yields⟩ :=
    factored.exists_fills_yields wellFormed (derives_iff_yields.mp derives) fills
  obtain rfl := (Group.fills_iff_eq old).mp fillsForm
  exact yields.derives

/-! ### What begins and what follows -/

/-- A terminal in front of a derived string stays there when the rest is filled. -/
theorem exists_derives_cons (old : ∀ u ∈ form, u ≠ ⟨before.names.size⟩)
    (terminal : before.isTerminal t = true) (derives : after.Derives form (t :: back)) :
    ∃ rest, before.Derives form (t :: rest) := by
  obtain ⟨rest, fills⟩ := group.exists_fills ⟨before.names.size⟩ back
  have oldT := wellFormed.ne_size (Or.inl terminal)
  exact ⟨rest, factored.derives_before wellFormed old derives (.keep oldT fills)⟩

/-- The same begins a string of old symbols as before. -/
theorem begins_iff (old : ∀ u ∈ form, u ≠ ⟨before.names.size⟩) :
    after.Begins form t ↔ before.Begins form t := by
  rw [Begins, Begins, factored.isTerminal_eq]
  constructor
  · rintro (⟨terminal, rest, derives⟩ | ⟨marker, vanishes⟩)
    · exact Or.inl ⟨terminal, factored.exists_derives_cons wellFormed old terminal derives⟩
    · exact Or.inr ⟨marker, factored.derives_before wellFormed old vanishes .nil⟩
  · rintro (⟨terminal, rest, derives⟩ | ⟨marker, vanishes⟩)
    · exact Or.inl ⟨terminal, rest, factored.derives_after wellFormed derives⟩
    · exact Or.inr ⟨marker, factored.derives_after wellFormed vanishes⟩

/-- The same follows an old symbol as before. -/
theorem canFollow_iff (old : r ≠ ⟨before.names.size⟩) (terminal : before.isTerminal t = true) :
    after.CanFollow r t ↔ before.CanFollow r t := by
  have start : after.start = before.start := factored.introduces.start_eq
  have around := group.exists_fills_around old (wellFormed.ne_size (Or.inl terminal))
  constructor
  · rintro (⟨front, back, derives⟩ | ⟨left, nonterminal, front, back, derives⟩)
    · obtain ⟨front', back', fills⟩ := around front back
      refine Or.inl ⟨front', back', factored.derives_before wellFormed ?_ (start ▸ derives) fills⟩
      rw [List.forall_mem_cons, List.forall_mem_singleton]
      exact ⟨wellFormed.ne_size (Or.inr wellFormed.start_isNonterminal),
        wellFormed.ne_size (Or.inl isTerminal_eof)⟩
    · obtain ⟨front', back', fills⟩ := around front back
      obtain ⟨origin, fillsLeft, yields⟩ :=
        factored.exists_fills_yields wellFormed (derives_iff_yields.mp derives) fills
      cases fillsLeft with
      | keep oldLeft rest =>
        cases rest
        have known := ((factored.isNonterminal_iff wellFormed).mp nonterminal).resolve_left oldLeft
        exact Or.inr ⟨left, known, front', back', yields.derives⟩
      -- what the new nonterminal derives is derived behind the shared beginning
      | @fill member _ _ inside rest =>
        cases rest
        have rule := factored.hasRule_member inside
        have expanded := rule.derives
        rw [Group.symbols_of_mem_members inside] at expanded
        have onward := yields.derives.append_left group.shared
        rw [List.append_nil] at onward
        refine Or.inr ⟨s, isNonterminal_of_rule rule, group.shared ++ front', back', ?_⟩
        simpa only [List.append_assoc] using expanded.trans onward
  · rintro (⟨front, back, derives⟩ | ⟨left, nonterminal, front, back, derives⟩)
    · exact Or.inl ⟨front, back, start ▸ factored.derives_after wellFormed derives⟩
    · exact Or.inr ⟨left, (factored.isNonterminal_iff wellFormed).mpr (Or.inr nonterminal), front,
        back, factored.derives_after wellFormed derives⟩

/-- The new nonterminal occurs only behind the shared beginning, and nothing comes after it. -/
theorem eq_of_occurs_new {left : Symbol} (rule : after.HasRule left alternative)
    (split : alternative.symbols = front ++ ⟨before.names.size⟩ :: back) :
    left = s ∧ back = [] := by
  have occurs : (⟨before.names.size⟩ : Symbol) ∈ alternative.symbols := by simp [split]
  rcases factored.hasRule_cases wellFormed rule with ⟨rfl, suffix⟩ | ⟨rfl, rfl⟩ | old
  · obtain ⟨member, inside, rfl⟩ := Group.mem_suffixes.mp suffix
    exact absurd rfl (factored.ne_new_of_mem_suffixOf wellFormed inside _ occurs)
  · rw [Group.symbols_stand (ne_epsilon_size _)] at split
    rcases split_append split with ⟨gap, shared, -⟩ | ⟨gap, last, -⟩
    · have listed : (⟨before.names.size⟩ : Symbol) ∈ group.shared := by simp [shared]
      exact absurd rfl (factored.ne_new_of_mem_shared wellFormed listed)
    · refine ⟨rfl, ?_⟩
      cases gap with
      | nil => exact (List.cons.inj last).2.symm
      | cons first rest => simp at last
  · exact absurd rfl (wellFormed.ne_size_of_rule old _ occurs)

/-- What follows the new nonterminal follows the one that it was factored out of. This is kept by
each extension of a FOLLOW set, since the new set is extended by that of the other only. -/
theorem canFollow_of_new (terminal : after.isTerminal t = true)
    (follows : after.CanFollow ⟨before.names.size⟩ t) : after.CanFollow s t := by
  have wellFormed' := factored.preserves_wellFormed wellFormed
  let firsts := FirstSets.compute after
  let holds := fun follows : FollowSets => ∀ u, u ∈ follows.sets.members ⟨before.names.size⟩ →
    u ∈ follows.sets.members s
  have isNew : after.isNonterminal ⟨before.names.size⟩ = true :=
    (factored.isNonterminal_iff wellFormed).mpr (Or.inl rfl)
  have isOld : after.isNonterminal s = true := isNonterminal_of_rule factored.hasRule_stand
  have initially : holds (FollowSets.initial after.nonterminals after.start) := by
    intro u member
    obtain ⟨-, start, -⟩ := FollowSets.mem_members_initial.mp member
    rw [factored.introduces.start_eq] at start
    exact absurd start.symm (wellFormed.ne_size (Or.inr wellFormed.start_isNonterminal))
  have kept : holds (FollowSets.compute after firsts) := by
    refine saturate_invariant holds _ initially fun follows held => ?_
    refine FollowSets.pass_invariant holds held ?_ ?_
    · intro left alternative front r back follows rule split held u member
      rw [FollowSets.mem_members_extend] at member ⊢
      rcases member with old | ⟨rfl, -, begins, proper⟩
      · exact Or.inl (held u old)
      -- nothing but the empty string comes after the new nonterminal
      · obtain ⟨-, rfl⟩ := factored.eq_of_occurs_new wellFormed rule split
        exact absurd (FirstSets.mem_ofString_nil.mp begins) proper
    · intro left alternative front r back follows rule split _ held u member
      rw [FollowSets.mem_members_extend] at member ⊢
      rcases member with old | ⟨rfl, -, inherited, -⟩
      · exact Or.inl (held u old)
      · obtain ⟨rfl, -⟩ := factored.eq_of_occurs_new wellFormed rule split
        exact Or.inl inherited
  have member := (FollowSets.mem_members_compute_iff wellFormed' isNew).mpr ⟨terminal, follows⟩
  exact ((FollowSets.mem_members_compute_iff wellFormed' isOld).mp (kept t member)).2

end Factored

/-! ### Grammars without conflicts -/

/-- Every nonterminal begins with a terminal or can vanish. -/
def Productive (grammar : Grammar) : Prop :=
  ∀ A, grammar.isNonterminal A = true → ∃ t, grammar.Begins [A] t

/-- Then so does every string. -/
theorem Productive.exists_begins (productive : grammar.Productive)
    (known : ∀ u ∈ form, grammar.Knows u) : ∃ t, grammar.Begins form t := by
  induction form with
  | nil => exact ⟨.epsilon, Or.inr ⟨rfl, .refl []⟩⟩
  | cons u rest ih =>
    rw [List.forall_mem_cons] at known
    rcases known.1 with terminal | nonterminal
    · exact ⟨u, Or.inl ⟨terminal, rest, .refl _⟩⟩
    · obtain ⟨t, ⟨terminal, tail, derives⟩ | ⟨-, vanishes⟩⟩ := productive u nonterminal
      · exact ⟨t, Or.inl ⟨terminal, tail ++ rest, derives.append_right rest⟩⟩
      · obtain ⟨t, begins⟩ := ih known.2
        exact ⟨t, begins.of_derives (vanishes.append_right rest)⟩

namespace Factored

variable (factored : Factored before after s group name) (wellFormed : before.WellFormed)

include factored wellFormed

theorem productive (productive : before.Productive) : after.Productive := by
  intro A nonterminal
  rcases (factored.isNonterminal_iff wellFormed).mp nonterminal with rfl | old
  · have leads : group.leader ∈ group.members := List.mem_cons_self
    obtain ⟨t, begins⟩ := @Productive.exists_begins _ (group.suffixOf group.leader).symbols
      productive fun u listed => by
        refine wellFormed.knows_of_rule (factored.hasRule_member leads) u ?_
        rw [Group.symbols_of_mem_members leads]
        exact List.mem_append_right _ listed
    rw [← factored.begins_iff wellFormed (factored.ne_new_of_mem_suffixOf wellFormed leads)]
      at begins
    exact ⟨t, begins.of_derives (factored.hasRule_suffixOf leads).derives⟩
  · obtain ⟨t, begins⟩ := productive A old
    refine ⟨t, (factored.begins_iff wellFormed ?_).mpr begins⟩
    exact List.forall_mem_singleton.mpr (wellFormed.ne_size (Or.inr old))

/-- Without conflicts, the shared beginning can vanish: a terminal in front of it would predict all
members. -/
theorem shared_vanishes (productive : before.Productive)
    (deterministic : (ParseTable.ofGrammar before).isLL1 = true) :
    before.Derives group.shared [] := by
  obtain ⟨alternatives, given, within⟩ := factored.within
  have leads : group.leader ∈ group.members := List.mem_cons_self
  have known : ∀ u ∈ group.shared, before.Knows u := fun u listed =>
    wellFormed.knows_of_rule (factored.hasRule_member leads) u
      ((Group.shared_isPrefix leads).subset listed)
  obtain ⟨t, ⟨terminal, rest, derives⟩ | ⟨-, vanishes⟩⟩ := productive.exists_begins known
  · exfalso
    have apart := (ParseTable.isLL1_iff_pairwise_predicts wellFormed).mp deterministic s
      alternatives given t
    have predicts : ∀ member ∈ group.members, before.Predicts s member t := by
      intro member inside
      refine ⟨terminal, Or.inl ⟨rest ++ (group.suffixOf member).symbols, ?_⟩⟩
      rw [Group.symbols_of_mem_members inside]
      exact derives.append_right _
    -- the first two members are predicted together
    have two := within.two_le_length_members
    rw [within.perm.pairwise_iff fun apart both => apart both.symm, List.pairwise_append,
      List.pairwise_iff_getElem] at apart
    exact apart.1 0 1 (by omega) (by omega) (by omega)
      ⟨predicts _ (List.getElem_mem _), predicts _ (List.getElem_mem _)⟩
  · exact vanishes

/-- An old alternative of an old nonterminal is predicted as before. -/
theorem predicts_before (old : r ≠ ⟨before.names.size⟩) (rule : before.HasRule r alternative)
    (predicts : after.Predicts r alternative t) : before.Predicts r alternative t := by
  have symbols := wellFormed.ne_size_of_rule rule
  obtain ⟨terminal, ahead⟩ := predicts
  rw [factored.isTerminal_eq] at terminal
  refine ⟨terminal, ?_⟩
  rcases ahead with ⟨rest, derives⟩ | ⟨vanishes, follows⟩
  · exact Or.inl (factored.exists_derives_cons wellFormed symbols terminal derives)
  · exact Or.inr ⟨factored.derives_before wellFormed symbols vanishes .nil,
      (factored.canFollow_iff wellFormed old terminal).mp follows⟩

/-- Whatever predicts the alternative that stands for the group predicts a member. -/
theorem exists_predicts_of_stand
    (predicts : after.Predicts s (group.stand ⟨before.names.size⟩) t) :
    ∃ member ∈ group.members, before.Predicts s member t := by
  -- whatever a derivation leads to, it begins with the symbols of a member
  have derives_member : ∀ {result filled},
      after.Derives (group.stand ⟨before.names.size⟩).symbols result →
      group.Fills ⟨before.names.size⟩ result filled →
      ∃ member ∈ group.members, before.Derives member.symbols filled := by
    intro result filled derives fills
    obtain ⟨origin, fillsStand, yields⟩ :=
      factored.exists_fills_yields wellFormed (derives_iff_yields.mp derives) fills
    obtain ⟨member, inside, rfl⟩ := Group.exists_member_of_fills (ne_epsilon_size _)
      (fun u => factored.ne_new_of_mem_shared wellFormed) fillsStand
    exact ⟨member, inside, yields.derives⟩
  obtain ⟨terminal, ahead⟩ := predicts
  rw [factored.isTerminal_eq] at terminal
  rcases ahead with ⟨rest, derives⟩ | ⟨vanishes, follows⟩
  · obtain ⟨filled, fills⟩ := group.exists_fills ⟨before.names.size⟩ rest
    obtain ⟨member, inside, begins⟩ := derives_member derives
      (.keep (wellFormed.ne_size (Or.inl terminal)) fills)
    exact ⟨member, inside, terminal, Or.inl ⟨filled, begins⟩⟩
  · obtain ⟨member, inside, empty⟩ := derives_member vanishes .nil
    exact ⟨member, inside, terminal, Or.inr ⟨empty,
      (factored.canFollow_iff wellFormed (factored.ne_new wellFormed) terminal).mp follows⟩⟩

/-- If the shared beginning can vanish, whatever predicts the rest of a member predicts the
member. -/
theorem predicts_of_suffixOf (vanishes : before.Derives group.shared []) {member : Alternative}
    (inside : member ∈ group.members)
    (predicts : after.Predicts ⟨before.names.size⟩ (group.suffixOf member) t) :
    before.Predicts s member t := by
  have symbols := factored.ne_new_of_mem_suffixOf wellFormed inside
  have shortened : before.Derives member.symbols (group.suffixOf member).symbols := by
    rw [Group.symbols_of_mem_members inside]
    exact vanishes.append_right _
  obtain ⟨known, ahead⟩ := predicts
  have terminal : before.isTerminal t = true := by rw [← factored.isTerminal_eq, known]
  refine ⟨terminal, ?_⟩
  rcases ahead with ⟨rest, derives⟩ | ⟨empty, follows⟩
  · obtain ⟨filled, begins⟩ := factored.exists_derives_cons wellFormed symbols terminal derives
    exact Or.inl ⟨filled, shortened.trans begins⟩
  · have behind := factored.canFollow_of_new wellFormed known follows
    exact Or.inr ⟨shortened.trans (factored.derives_before wellFormed symbols empty .nil),
      (factored.canFollow_iff wellFormed (factored.ne_new wellFormed) terminal).mp behind⟩

/-- A factoring brings no conflict in. -/
theorem isLL1 (productive : before.Productive)
    (deterministic : (ParseTable.ofGrammar before).isLL1 = true) :
    (ParseTable.ofGrammar after).isLL1 = true := by
  have vanishes := factored.shared_vanishes wellFormed productive deterministic
  rw [ParseTable.isLL1_iff_pairwise_predicts wellFormed] at deterministic
  rw [ParseTable.isLL1_iff_pairwise_predicts (factored.preserves_wellFormed wellFormed)]
  obtain ⟨given, listed, within⟩ := factored.within
  intro r alternatives defined t
  have apart := deterministic s given listed t
  rw [within.perm.pairwise_iff fun apart both => apart both.symm, List.pairwise_append] at apart
  obtain ⟨members, others, between⟩ := apart
  rw [factored.alternatives?_eq wellFormed] at defined
  split at defined
  -- what is left of the members is told apart as the members are
  · next new =>
    subst new
    obtain rfl := Option.some.inj defined
    rw [Group.suffixes_eq_map, List.pairwise_map]
    refine members.imp_of_mem fun inside inside' apart both => apart ⟨?_, ?_⟩
    · exact factored.predicts_of_suffixOf wellFormed vanishes inside both.1
    · exact factored.predicts_of_suffixOf wellFormed vanishes inside' both.2
  · next old =>
    split at defined
    -- the alternative that stands for the group is predicted when a member is
    · next same =>
      subst same
      obtain rfl := Option.some.inj defined
      have rule : ∀ {other}, other ∈ group.before ++ group.others → before.HasRule r other :=
        fun outside => ⟨given, listed, within.mem_iff.mpr (Or.inr outside)⟩
      rw [(group.replaceBy_perm _).pairwise_iff fun apart both => apart both.symm,
        List.pairwise_cons]
      refine ⟨fun other outside both => ?_, others.imp_of_mem fun outside outside' apart both => ?_⟩
      · obtain ⟨member, inside, predicts⟩ := factored.exists_predicts_of_stand wellFormed both.1
        exact between member inside other outside
          ⟨predicts, factored.predicts_before wellFormed old (rule outside) both.2⟩
      · exact apart ⟨factored.predicts_before wellFormed old (rule outside) both.1,
          factored.predicts_before wellFormed old (rule outside') both.2⟩
    -- other productions are as before
    · refine (deterministic r alternatives defined t).imp_of_mem fun inside inside' apart both =>
        apart ⟨?_, ?_⟩
      · exact factored.predicts_before wellFormed old ⟨_, defined, inside⟩ both.1
      · exact factored.predicts_before wellFormed old ⟨_, defined, inside'⟩ both.2

end Factored

/-! ### Any number of factorings -/

theorem get?_firsts_eq (nonterminal : grammar.isNonterminal s = true) :
    (FirstSets.compute grammar).get? s = some ((FirstSets.compute grammar).sets.members s) :=
  OrderedMap.get?_eq_some_members
    ((FirstSets.confined_compute grammar).mem_keys (Or.inr nonterminal))

theorem get?_follows_eq (nonterminal : grammar.isNonterminal s = true) :
    (FollowSets.compute grammar (FirstSets.compute grammar)).get? s =
      some ((FollowSets.compute grammar (FirstSets.compute grammar)).sets.members s) := by
  apply OrderedMap.get?_eq_some_members
  rw [(FollowSets.confined_compute (FirstSets.confined_compute grammar)).keys_eq,
    FollowSets.mem_keys_initial]
  exact isNonterminal_iff.mp nonterminal

/-- No FIRST set of a nonterminal is empty if every nonterminal begins with something. -/
theorem WellFormed.productive_iff (wellFormed : grammar.WellFormed) :
    grammar.Productive ↔ ∀ A, grammar.isNonterminal A = true →
      ∃ set t, (FirstSets.compute grammar).get? A = some set ∧ t ∈ set := by
  apply forall₂_congr
  intro A nonterminal
  have members := fun t =>
    @FirstSets.mem_members_compute_iff grammar A t wellFormed (Or.inr nonterminal)
  rw [get?_firsts_eq nonterminal]
  constructor
  · rintro ⟨t, begins⟩
    exact ⟨_, t, rfl, (members t).mpr begins⟩
  · rintro ⟨set, t, found, member⟩
    rw [← Option.some.inj found] at member
    exact ⟨t, (members t).mp member⟩

/-- What left factoring keeps. -/
structure SameAnalyses (before after : Grammar) : Prop where
  /-- The nonterminals stay. -/
  kept : ∀ {A}, before.isNonterminal A = true → after.isNonterminal A = true
  /-- They have the same FIRST sets. -/
  firsts : ∀ {A}, before.isNonterminal A = true →
    (FirstSets.compute after).get? A = (FirstSets.compute before).get? A
  /-- They have the same FOLLOW sets. -/
  follows : ∀ {A}, before.isNonterminal A = true →
    (FollowSets.compute after (FirstSets.compute after)).get? A =
      (FollowSets.compute before (FirstSets.compute before)).get? A
  /-- Every nonterminal still begins with something. -/
  productive : before.Productive → after.Productive
  /-- There is still no conflict. -/
  isLL1 : before.Productive → (ParseTable.ofGrammar before).isLL1 = true →
    (ParseTable.ofGrammar after).isLL1 = true

theorem SameAnalyses.refl (grammar : Grammar) : grammar.SameAnalyses grammar :=
  ⟨id, fun _ => rfl, fun _ => rfl, id, fun _ => id⟩

theorem SameAnalyses.trans {middle : Grammar} (first : before.SameAnalyses middle)
    (second : middle.SameAnalyses after) : before.SameAnalyses after where
  kept := fun nonterminal => second.kept (first.kept nonterminal)
  firsts := fun nonterminal =>
    (second.firsts (first.kept nonterminal)).trans (first.firsts nonterminal)
  follows := fun nonterminal =>
    (second.follows (first.kept nonterminal)).trans (first.follows nonterminal)
  productive := fun productive => second.productive (first.productive productive)
  isLL1 := fun productive deterministic =>
    second.isLL1 (first.productive productive) (first.isLL1 productive deterministic)

/-- One factoring keeps the analyses. -/
theorem Factored.sameAnalyses (factored : Factored before after s group name)
    (wellFormed : before.WellFormed) : before.SameAnalyses after := by
  have wellFormed' := factored.preserves_wellFormed wellFormed
  have kept : ∀ {A}, before.isNonterminal A = true → after.isNonterminal A = true :=
    fun nonterminal => (factored.isNonterminal_iff wellFormed).mpr (Or.inr nonterminal)
  refine ⟨kept, fun {A} nonterminal => ?_, fun {A} nonterminal => ?_,
    factored.productive wellFormed, factored.isLL1 wellFormed⟩
  · rw [get?_firsts_eq nonterminal, get?_firsts_eq (kept nonterminal)]
    congr 1
    apply SymbolSet.ext_mem
    intro t
    rw [FirstSets.mem_members_compute_iff wellFormed (Or.inr nonterminal),
      FirstSets.mem_members_compute_iff wellFormed' (Or.inr (kept nonterminal))]
    apply factored.begins_iff wellFormed
    exact List.forall_mem_singleton.mpr (wellFormed.ne_size (Or.inr nonterminal))
  · rw [get?_follows_eq nonterminal, get?_follows_eq (kept nonterminal)]
    congr 1
    apply SymbolSet.ext_mem
    intro t
    rw [FollowSets.mem_members_compute_iff wellFormed nonterminal,
      FollowSets.mem_members_compute_iff wellFormed' (kept nonterminal), factored.isTerminal_eq]
    apply and_congr_right
    intro terminal
    exact factored.canFollow_iff wellFormed (wellFormed.ne_size (Or.inr nonterminal)) terminal

/-- Left factoring keeps the analyses. It fails only for want of room, if there are too many
occurrences of symbols for the names that are left. Otherwise the nonterminals of the grammar have
the same FIRST and FOLLOW sets in the factored one. If none of these FIRST sets is empty, and the
table of the grammar is free of conflicts, so is the table of the factored one. -/
theorem leftFactor_preserves_analyses (wellFormed : grammar.WellFormed) :
    (grammar.leftFactor = .error .tooManySymbols ∧
        NameTable.capacity ≤ grammar.names.size + grammar.occurrenceCount) ∨
      ∃ factored changed, grammar.leftFactor = .ok (factored, changed) ∧
        (∀ A, grammar.isNonterminal A = true →
          (∃ set, (FirstSets.compute grammar).get? A = some set ∧
            (FirstSets.compute factored).get? A = some set) ∧
          ∃ set, (FollowSets.compute grammar (FirstSets.compute grammar)).get? A = some set ∧
            (FollowSets.compute factored (FirstSets.compute factored)).get? A = some set) ∧
        ((∀ A, grammar.isNonterminal A = true →
            ∃ set t, (FirstSets.compute grammar).get? A = some set ∧ t ∈ set) →
          (ParseTable.ofGrammar grammar).isLL1 = true →
          (ParseTable.ofGrammar factored).isLL1 = true) := by
  rcases runs_leftFactor wellFormed with ⟨failed, full⟩ | ⟨⟨factored, changed⟩, ended, run⟩
  · exact Or.inl ⟨failed, by omega⟩
  have same : grammar.SameAnalyses factored :=
    (Factoring.sound_initial wellFormed).invariant
      (fun wellFormed factored same => same.trans (factored.sameAnalyses wellFormed)) run
      (SameAnalyses.refl grammar)
  refine Or.inr ⟨factored, changed, ended, fun A nonterminal => ?_, fun nonempty deterministic =>
    same.isLL1 (wellFormed.productive_iff.mpr nonempty) deterministic⟩
  rw [same.firsts nonterminal, same.follows nonterminal]
  exact ⟨⟨_, get?_firsts_eq nonterminal, get?_firsts_eq nonterminal⟩,
    ⟨_, get?_follows_eq nonterminal, get?_follows_eq nonterminal⟩⟩

/-- The nonterminal `B` can only vanish, so that the two alternatives of `S` that begin with it are
told apart by what comes next, before and after they are factored. -/
theorem leftFactor_preserves_analyses_vanishing :
    ∃ grammar, Grammar.ofText "S : B a S | B b | c ; B : ;" = .ok grammar ∧
      (ParseTable.ofGrammar grammar).isLL1 = true ∧
      ∃ factored, grammar.leftFactor = .ok (factored, true) ∧
        (ParseTable.ofGrammar factored).isLL1 = true ∧
        ∃ set, (FirstSets.compute grammar).get? grammar.start = some set ∧
          (FirstSets.compute factored).get? grammar.start = some set := by
  obtain ⟨grammar, defined, wellFormed, checked⟩ := Grammar.exists_of_ofText
    "S : B a S | B b | c ; B : ;"
    (fun grammar => (ParseTable.ofGrammar grammar).isLL1 &&
      (grammar.leftFactor.toOption.any fun result => result.2) &&
      grammar.nonterminals.all fun A =>
        ((FirstSets.compute grammar).get? A).any fun set => !set.toList.isEmpty)
    (by decide +kernel)
  simp only [Bool.and_eq_true, List.all_eq_true, Option.any_eq_true] at checked
  obtain ⟨⟨deterministic, result, ran, silent⟩, nonempty⟩ := checked
  rw [toOption_eq_some_iff] at ran
  rcases leftFactor_preserves_analyses wellFormed with
    ⟨failed, -⟩ | ⟨factored, changed, ended, same, still⟩
  · rw [failed] at ran
    cases ran
  · rw [ended] at ran
    cases ran
    obtain rfl : changed = true := silent
    refine ⟨grammar, defined, deterministic, factored, ended, still ?_ deterministic,
      (same grammar.start wellFormed.start_isNonterminal).1⟩
    intro A nonterminal
    obtain ⟨set, found, inhabited⟩ := nonempty A (isNonterminal_iff.mp nonterminal)
    obtain ⟨t, listed⟩ := List.exists_mem_of_ne_nil set.toList (by simpa using inhabited)
    exact ⟨set, t, found, SymbolSet.mem_toList.mp listed⟩

end Grammar

end Predictive
