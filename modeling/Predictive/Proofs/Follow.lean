import Predictive.Analysis.Follow
import Predictive.Proofs.First

/-!
# FOLLOW sets are exact

A terminal follows a nonterminal if the two stand side by side in some string that can be derived.
The computed sets hold exactly these terminals, where derivations may start from the start symbol
with the end of input behind it, or from any nonterminal. The second kind matters for
nonterminals that the start symbol does not reach: their productions are looked at as well.

That every member follows is kept by each visit of an occurrence. The converse is an invariant of
rewriting: in every string that can be derived, what begins the string after a nonterminal is in
the FOLLOW set of the nonterminal.

## Main definitions

* `Grammar.FollowedBy` — two symbols side by side in a derived string
* `Grammar.CanFollow` — the terminals that can follow a nonterminal
* `FollowSets.Respects` — a string in which the FOLLOW sets are respected

## Main results

* `FollowSets.compute_closed` — the computed sets are closed under the productions
* `FollowSets.Respects.rewrites` — rewriting respects the FOLLOW sets
* `FollowSets.mem_members_compute_iff` — the FOLLOW set of a nonterminal holds what can follow it
* `FollowSets.compute_follow_exact` — the FOLLOW sets of a well-formed grammar are exact
-/

namespace Predictive

namespace Grammar

variable {grammar : Grammar} {s t : Symbol} {form other before after : List Symbol}

/-- The symbol `t` comes right after `s` in some string derived from `form`. -/
def FollowedBy (grammar : Grammar) (form : List Symbol) (s t : Symbol) : Prop :=
  ∃ before after, grammar.Derives form (before ++ s :: t :: after)

/-- The symbol `t` can come right after `s`, in a string derived from the start symbol with the
end of input behind it, or in one derived from a nonterminal. -/
def CanFollow (grammar : Grammar) (s t : Symbol) : Prop :=
  grammar.FollowedBy [grammar.start, .eof] s t ∨
    ∃ left, grammar.isNonterminal left = true ∧ grammar.FollowedBy [left] s t

/-- The start symbol derives a string in which `s` occurs. -/
def Reaches (grammar : Grammar) (s : Symbol) : Prop :=
  ∃ before after, grammar.Derives [grammar.start] (before ++ s :: after)

/-- What comes after a nonterminal comes after the last symbol of its alternatives, if the rest
of the alternative vanishes. -/
theorem FollowedBy.of_rule {left : Symbol} {alternative : Alternative}
    (follows : grammar.FollowedBy form left t) (rule : grammar.HasRule left alternative)
    (split : alternative.symbols = before ++ s :: after) (vanishes : grammar.Derives after []) :
    grammar.FollowedBy form s t := by
  obtain ⟨front, back, derives⟩ := follows
  have expanded : grammar.Derives [left] (before ++ [s]) := by
    have shortened := vanishes.append_left (before ++ [s])
    rw [List.append_assoc, List.singleton_append, List.append_nil] at shortened
    exact (split ▸ rule.derives).trans shortened
  refine ⟨front ++ before, back, derives.trans ?_⟩
  have inside := (expanded.append_left front).append_right (t :: back)
  simpa only [List.append_assoc, List.singleton_append] using inside

theorem CanFollow.of_rule {left : Symbol} {alternative : Alternative}
    (follows : grammar.CanFollow left t) (rule : grammar.HasRule left alternative)
    (split : alternative.symbols = before ++ s :: after) (vanishes : grammar.Derives after []) :
    grammar.CanFollow s t :=
  follows.imp (fun found => found.of_rule rule split vanishes)
    fun ⟨root, nonterminal, found⟩ => ⟨root, nonterminal, found.of_rule rule split vanishes⟩

/-- If everything is reached from the start symbol, other roots of derivations add nothing. -/
theorem canFollow_iff_of_reaches
    (reached : ∀ left, grammar.isNonterminal left = true → grammar.Reaches left) :
    grammar.CanFollow s t ↔ grammar.FollowedBy [grammar.start, .eof] s t := by
  refine ⟨?_, Or.inl⟩
  rintro (found | ⟨left, nonterminal, before, after, derives⟩)
  · exact found
  · obtain ⟨front, back, reaches⟩ := reached left nonterminal
    refine ⟨front ++ before, after ++ (back ++ [.eof]), ?_⟩
    have started := reaches.append_right [Symbol.eof]
    have inside := (derives.append_left front).append_right (back ++ [.eof])
    simp only [List.append_assoc, List.cons_append] at started inside ⊢
    exact started.trans inside

end Grammar

namespace FollowSets

variable {grammar : Grammar} {firsts : FirstSets} {follows : FollowSets} {s t left : Symbol}
  {added : SymbolSet} {alternative : Alternative} {before after : List Symbol}

theorem get_eq_members : follows.get s = follows.sets.members s := rfl

/-! ### Passes -/

theorem extend_eq (follows : FollowSets) (s : Symbol) (added : SymbolSet) :
    follows.extend s added =
      (⟨(follows.sets.extendAt s added.withoutEpsilon).1⟩,
        (follows.sets.extendAt s added.withoutEpsilon).2) := by
  unfold extend OrderedMap.extendAt get?
  cases follows.sets.get? s with
  | none => rfl
  | some set =>
    dsimp only
    split
    · rfl
    · rfl

theorem mem_members_extend {r : Symbol} :
    t ∈ (follows.extend s added).1.sets.members r ↔
      t ∈ follows.sets.members r ∨
        (r = s ∧ s ∈ follows.sets.keys ∧ t ∈ added ∧ t ≠ .epsilon) := by
  rw [extend_eq, OrderedMap.mem_members_extendAt, SymbolSet.mem_withoutEpsilon]

theorem keys_extend : (follows.extend s added).1.sets.keys = follows.sets.keys := by
  rw [extend_eq]
  exact OrderedMap.keys_extendAt

/-- A silent extension finds every member in its place. -/
theorem mem_members_of_silent (silent : (follows.extend s added).2 = false)
    (known : s ∈ follows.sets.keys) (member : t ∈ added) (proper : t ≠ .epsilon) :
    t ∈ follows.sets.members s := by
  rw [extend_eq] at silent
  rcases OrderedMap.extendAt_cases follows.sets s added.withoutEpsilon with
    ⟨-, closed⟩ | ⟨grown, -⟩
  · exact closed known t (SymbolSet.mem_withoutEpsilon.mpr ⟨member, proper⟩)
  · rw [grown] at silent
    cases silent

theorem growing_extend (s : Symbol) (added : FollowSets → SymbolSet) :
    Growing (fun follows : FollowSets => follows.sets.weight)
      fun follows => follows.extend s (added follows) := by
  have growing := OrderedMap.growing_extendAt s fun sets => (added ⟨sets⟩).withoutEpsilon
  constructor
  · intro follows silent
    rw [extend_eq] at silent ⊢
    exact congrArg FollowSets.mk (growing.same silent)
  · intro follows changed
    rw [extend_eq] at changed ⊢
    exact growing.more changed

/-- The second extension of a visit: what follows the left-hand side is handed on if the rest of
the alternative is nullable. -/
def inherit (firsts : FirstSets) (left : Symbol) (follows : FollowSets)
    (occurrence : Symbol × List Symbol) : FollowSets × Bool :=
  if Symbol.epsilon ∈ firsts.ofString occurrence.2 then
    follows.extend occurrence.1 (follows.get left)
  else (follows, false)

/-- A visit is two extensions, one after the other. -/
theorem visit_eq (firsts : FirstSets) (left : Symbol) (follows : FollowSets)
    (occurrence : Symbol × List Symbol) :
    visit firsts left follows occurrence =
      let extended := follows.extend occurrence.1 (firsts.ofString occurrence.2)
      ((inherit firsts left extended.1 occurrence).1,
        extended.2 || (inherit firsts left extended.1 occurrence).2) := by
  by_cases nullable : Symbol.epsilon ∈ firsts.ofString occurrence.2
  · simp [visit, inherit, nullable, SymbolSet.contains_iff_mem]
  · simp [visit, inherit, nullable, SymbolSet.contains_iff_mem]

theorem growing_inherit (firsts : FirstSets) (left : Symbol) (occurrence : Symbol × List Symbol) :
    Growing (fun follows : FollowSets => follows.sets.weight)
      fun follows => inherit firsts left follows occurrence := by
  unfold inherit
  split
  · exact growing_extend occurrence.1 fun follows => follows.get left
  · exact ⟨fun _ => rfl, fun changed => by cases changed⟩

theorem growing_visit (firsts : FirstSets) (left : Symbol) (occurrence : Symbol × List Symbol) :
    Growing (fun follows : FollowSets => follows.sets.weight)
      fun follows => visit firsts left follows occurrence := by
  simp only [visit_eq]
  exact (growing_extend occurrence.1 fun _ => firsts.ofString occurrence.2).andThen
    (growing_inherit firsts left occurrence)

theorem growing_visitProduction (grammar : Grammar) (firsts : FirstSets)
    (production : Symbol × List Alternative) :
    Growing (fun follows : FollowSets => follows.sets.weight)
      fun follows => visitProduction grammar firsts follows production :=
  Growing.sweep _ fun occurrence _ => growing_visit firsts production.1 occurrence

/-- A pass is silent only if it changes nothing, and a reported change adds members. -/
theorem growing_pass (grammar : Grammar) (firsts : FirstSets) :
    Growing (fun follows : FollowSets => follows.sets.weight) (pass grammar firsts) :=
  Growing.sweep _ fun production _ => growing_visitProduction grammar firsts production

/-- Occurrences are the ways to split a string at a symbol. -/
theorem mem_occurrences {symbols : List Symbol} :
    (s, after) ∈ occurrences symbols ↔ ∃ before, symbols = before ++ s :: after := by
  induction symbols with
  | nil => simp [occurrences]
  | cons first rest ih =>
    rw [occurrences, List.mem_cons, ih]
    constructor
    · rintro (same | ⟨before, rfl⟩)
      · obtain ⟨rfl, rfl⟩ := Prod.mk.inj same
        exact ⟨[], rfl⟩
      · exact ⟨first :: before, rfl⟩
    · rintro ⟨before, split⟩
      cases before with
      | nil =>
        obtain ⟨rfl, rfl⟩ := List.cons.inj split
        exact Or.inl rfl
      | cons head tail => exact Or.inr ⟨tail, (List.cons.inj split).2⟩

/-- The occurrences that a production is visited at. -/
theorem mem_found {alternatives : List Alternative} :
    (s, after) ∈ (alternatives.flatMap fun alternative => occurrences alternative.symbols).filter
        (fun occurrence => grammar.isNonterminal occurrence.1) ↔
      (∃ alternative ∈ alternatives, ∃ before, alternative.symbols = before ++ s :: after) ∧
        grammar.isNonterminal s = true := by
  simp only [List.mem_filter, List.mem_flatMap, mem_occurrences]

/-- What both extensions of every visit preserve, a pass preserves. -/
theorem pass_invariant (holds : FollowSets → Prop) (initially : holds follows)
    (sideways : ∀ {left alternative before s after follows}, grammar.HasRule left alternative →
      alternative.symbols = before ++ s :: after → holds follows →
        holds (follows.extend s (firsts.ofString after)).1)
    (downwards : ∀ {left alternative before s after follows}, grammar.HasRule left alternative →
      alternative.symbols = before ++ s :: after → Symbol.epsilon ∈ firsts.ofString after →
        holds follows → holds (follows.extend s (follows.get left)).1) :
    holds (pass grammar firsts follows).1 := by
  refine sweep_invariant holds initially fun follows production listed before => ?_
  obtain ⟨left, alternatives⟩ := production
  refine sweep_invariant holds before fun follows occurrence visited before => ?_
  obtain ⟨s, after⟩ := occurrence
  obtain ⟨⟨alternative, member, front, split⟩, -⟩ := mem_found.mp visited
  have rule : grammar.HasRule left alternative :=
    ⟨alternatives, OrderedMap.mem_entries_iff.mp listed, member⟩
  have extended := sideways rule split before
  rw [visit_eq]
  dsimp only [inherit]
  split
  · next nullable => exact downwards rule split nullable extended
  · exact extended

/-- What holds of the sets through every pass: the keys stay, and members are terminals or
`EOF`. -/
structure Confined (grammar : Grammar) (follows : FollowSets) : Prop where
  /-- The keys are those of the initial sets. -/
  keys_eq : follows.sets.keys = (initial grammar.nonterminals grammar.start).sets.keys
  /-- Members are terminals or `EOF`. -/
  within : ∀ s, ∀ t ∈ follows.sets.members s, t ∈ grammar.terminals.items ++ [.eof]

theorem Confined.isTerminal (confined : Confined grammar follows)
    (member : t ∈ follows.sets.members s) : grammar.isTerminal t = true := by
  have bounded := confined.within s t member
  rw [List.mem_append, List.mem_singleton] at bounded
  exact Grammar.isTerminal_iff.mpr bounded.symm

theorem get?_initial {nonterminals : List Symbol} {start : Symbol} :
    (initial nonterminals start).sets.get? s =
      if s ∈ nonterminals then some (if s = start then .singleton .eof else .empty) else none := by
  unfold initial
  dsimp only
  split
  · next listed =>
    rw [OrderedMap.contains, OrderedMap.get?_constant] at listed
    rw [OrderedMap.get?_insert, OrderedMap.get?_constant]
    by_cases same : s = start
    · subst same
      simp_all
    · simp [same]
  · next unlisted =>
    rw [OrderedMap.contains, OrderedMap.get?_constant] at unlisted
    rw [OrderedMap.get?_constant]
    by_cases same : s = start
    · subst same
      simp_all
    · simp [same]

theorem mem_keys_initial {nonterminals : List Symbol} {start : Symbol} :
    s ∈ (initial nonterminals start).sets.keys ↔ s ∈ nonterminals := by
  rw [← OrderedMap.get?_isSome_iff, get?_initial]
  split
  · simp_all
  · simp_all

theorem mem_members_initial {nonterminals : List Symbol} {start : Symbol} :
    t ∈ (initial nonterminals start).sets.members s ↔
      s ∈ nonterminals ∧ s = start ∧ t = .eof := by
  rw [OrderedMap.members, get?_initial]
  by_cases listed : s ∈ nonterminals
  · by_cases same : s = start
    · subst same
      simp [listed]
    · simp [listed, same]
  · simp [listed]

theorem confined_initial (grammar : Grammar) :
    Confined grammar (initial grammar.nonterminals grammar.start) := by
  refine ⟨rfl, fun s t member => ?_⟩
  obtain ⟨-, -, rfl⟩ := mem_members_initial.mp member
  simp

theorem Confined.extend (confined : Confined grammar follows)
    (within : ∀ t ∈ added, t ≠ .epsilon → t ∈ grammar.terminals.items ++ [.eof]) :
    Confined grammar (follows.extend s added).1 := by
  refine ⟨keys_extend.trans confined.keys_eq, fun r t member => ?_⟩
  rcases mem_members_extend.mp member with old | ⟨-, -, new, proper⟩
  · exact confined.within r t old
  · exact within t new proper

theorem Confined.pass (bounded : FirstSets.Confined grammar firsts)
    (confined : Confined grammar follows) : Confined grammar (pass grammar firsts follows).1 := by
  refine pass_invariant _ confined (fun _ _ confined => confined.extend ?_)
    fun _ _ _ confined => confined.extend fun t member _ => confined.within _ t member
  intro t member proper
  have listed := bounded.mem_ofString member
  simp only [List.mem_append, List.mem_cons, List.not_mem_nil, or_false] at listed ⊢
  tauto

theorem confined_compute (bounded : FirstSets.Confined grammar firsts) :
    Confined grammar (compute grammar firsts) :=
  saturate_invariant _ _ (confined_initial grammar) fun _ confined => confined.pass bounded

/-- Passes that keep the keys, and take members from a list only, end because one of them adds
nothing, not because the fuel is used up. -/
theorem silent_of_confined {pass : FollowSets → FollowSets × Bool} {holds : FollowSets → Prop}
    {terminals nonterminals : List Symbol} {start : Symbol}
    (growing : Growing (fun follows : FollowSets => follows.sets.weight) pass)
    (initially : holds (initial nonterminals start))
    (keeps : ∀ follows, holds follows → holds (pass follows).1)
    (keys_eq : ∀ follows, holds follows →
      follows.sets.keys = (initial nonterminals start).sets.keys)
    (within : ∀ follows, holds follows → ∀ s, ∀ t ∈ follows.sets.members s,
      t ∈ terminals ++ [.eof]) :
    (pass (saturate pass ((initial nonterminals start).passBound terminals)
      (initial nonterminals start))).2 = false := by
  -- as for the FIRST sets, there is a limit to the weight
  have light : ∀ follows, holds follows → follows.sets.weight ≤
      (initial nonterminals start).sets.keys.length * (terminals ++ [Symbol.eof]).length := by
    intro follows held
    rw [← keys_eq follows held]
    exact OrderedMap.weight_le (within follows held)
  refine saturate_silent growing initially keeps light ?_
  refine Nat.lt_of_lt_of_le ?_ (Nat.le_add_left _ _)
  simp [passBound, OrderedMap.size, OrderedMap.keys]

/-- The last pass adds nothing. -/
theorem compute_silent (bounded : FirstSets.Confined grammar firsts) :
    (pass grammar firsts (compute grammar firsts)).2 = false :=
  silent_of_confined (growing_pass grammar firsts) (confined_initial grammar)
    (fun _ confined => confined.pass bounded) (fun _ confined => confined.keys_eq)
    fun _ confined => confined.within

/-- The computed sets are closed under the productions: what begins the rest of an alternative
follows, and so does what follows the left-hand side if the rest is nullable. -/
theorem compute_closed (bounded : FirstSets.Confined grammar firsts)
    (rule : grammar.HasRule left alternative) (split : alternative.symbols = before ++ s :: after)
    (nonterminal : grammar.isNonterminal s = true) (proper : t ≠ .epsilon)
    (comes : t ∈ firsts.ofString after ∨
      (Symbol.epsilon ∈ firsts.ofString after ∧
        t ∈ (compute grammar firsts).sets.members left)) :
    t ∈ (compute grammar firsts).sets.members s := by
  obtain ⟨alternatives, found, member⟩ := rule
  have production := sweep_silent
    (fun production _ => growing_visitProduction grammar firsts production)
    (compute_silent bounded) (left, alternatives) (OrderedMap.mem_entries_iff.mpr found)
  have silent := sweep_silent (fun occurrence _ => growing_visit firsts left occurrence)
    production (s, after) (mem_found.mpr ⟨⟨alternative, member, before, split⟩, nonterminal⟩)
  have known : s ∈ (compute grammar firsts).sets.keys := by
    rw [(confined_compute bounded).keys_eq, mem_keys_initial]
    exact Grammar.isNonterminal_iff.mp nonterminal
  rw [visit_eq, Bool.or_eq_false_iff] at silent
  obtain ⟨sideways, downwards⟩ := silent
  rcases comes with begins | ⟨nullable, inherited⟩
  · exact mem_members_of_silent sideways known begins proper
  -- the first extension changes nothing, so that the second one starts from the same sets
  · have unchanged := (growing_extend s fun _ => firsts.ofString after).same sideways
    dsimp only at downwards unchanged
    rw [unchanged, inherit, if_pos nullable] at downwards
    exact mem_members_of_silent downwards known inherited proper

/-! ### Every member can follow -/

/-- The members that were added so far can follow their nonterminals. -/
def Sound (grammar : Grammar) (follows : FollowSets) : Prop :=
  ∀ s t, t ∈ follows.sets.members s → grammar.CanFollow s t

theorem sound_initial (grammar : Grammar) :
    Sound grammar (initial grammar.nonterminals grammar.start) := by
  intro s t member
  obtain ⟨-, rfl, rfl⟩ := mem_members_initial.mp member
  exact Or.inl ⟨[], [], .refl _⟩

theorem Sound.pass (wellFormed : grammar.WellFormed) (sound : Sound grammar follows) :
    Sound grammar (pass grammar (FirstSets.compute grammar) follows).1 := by
  have meaning : ∀ {left alternative before s after t}, grammar.HasRule left alternative →
      alternative.symbols = before ++ s :: after →
      t ∈ (FirstSets.compute grammar).ofString after → grammar.Begins after t := by
    intro left alternative before s after t rule split member
    refine (FirstSets.mem_ofString_compute_iff wellFormed fun r listed => ?_).mp member
    exact wellFormed.knows_of_rule rule r (by simp [split, listed])
  refine pass_invariant (Sound grammar) sound ?_ ?_
  · intro left alternative before s after follows rule split sound r t member
    rcases mem_members_extend.mp member with old | ⟨rfl, -, new, proper⟩
    · exact sound r t old
    -- the two stand side by side in what the alternative derives
    · rcases meaning rule split new with ⟨-, rest, derives⟩ | ⟨marker, -⟩
      · have step := rule.derives
        rw [split] at step
        exact Or.inr ⟨left, Grammar.isNonterminal_of_rule rule, before, rest,
          step.trans ((derives.append_left [r]).append_left before)⟩
      · exact absurd marker proper
  · intro left alternative before s after follows rule split nullable sound r t member
    rcases mem_members_extend.mp member with old | ⟨rfl, -, inherited, proper⟩
    · exact sound r t old
    · rcases meaning rule split nullable with ⟨terminal, -⟩ | ⟨-, vanishes⟩
      · rw [wellFormed.not_isTerminal_epsilon] at terminal
        cases terminal
      · exact (sound left t inherited).of_rule rule split vanishes

theorem sound_compute (wellFormed : grammar.WellFormed) :
    Sound grammar (compute grammar (FirstSets.compute grammar)) :=
  saturate_invariant (Sound grammar) _ (sound_initial grammar) fun _ sound =>
    sound.pass wellFormed

/-! ### Everything that can follow is a member -/

/-- In the string, what begins the part after a nonterminal is in the FOLLOW set of the
nonterminal. -/
def Respects (grammar : Grammar) (form : List Symbol) : Prop :=
  ∀ before s after, form = before ++ s :: after → grammar.isNonterminal s = true →
    ∀ t ∈ (FirstSets.compute grammar).ofString after, t ≠ .epsilon →
      t ∈ (compute grammar (FirstSets.compute grammar)).sets.members s

/-- Rewriting respects the FOLLOW sets. -/
theorem Respects.rewrites (wellFormed : grammar.WellFormed) {form other : List Symbol}
    (respects : Respects grammar form) (known : ∀ s ∈ form, grammar.Knows s)
    (step : grammar.Rewrites form other) : Respects grammar other := by
  have bounded := FirstSets.confined_compute grammar
  obtain ⟨front, back, rule⟩ := step
  rename_i left alternative
  intro before s after place nonterminal t member proper
  -- the nonterminal stands in front of the replaced symbol, in its alternative, or behind it
  rcases Grammar.split_append place with ⟨gap, rfl, rfl⟩ | ⟨gap, inside, rfl⟩
  · refine respects before s (gap ++ left :: back) (by simp) nonterminal t ?_ proper
    refine FirstSets.mem_ofString_of_yields wellFormed ?_ (fun r listed => ?_) member
    · exact Grammar.derives_iff_yields.mp (.single (.replace gap back rule))
    · exact known r (by simp only [List.append_assoc, List.mem_append, List.mem_cons] at *; tauto)
  rcases Grammar.split_append inside with ⟨rest, split, rfl⟩ | ⟨rest, rfl, rfl⟩
  -- inside the alternative, what comes next begins the rest of it or follows the replaced symbol
  · have covered : (FirstSets.compute grammar).Covers (rest ++ back) := by
      refine bounded.covers fun r listed => ?_
      rcases List.mem_append.mp listed with inner | outer
      · exact wellFormed.knows_of_rule rule r (by simp [split, inner])
      · exact known r (by simp [outer])
    rcases (FirstSets.mem_ofString_append covered).mp member with ⟨begins, -⟩ | ⟨nullable, later⟩
    · exact compute_closed bounded rule split nonterminal proper (Or.inl begins)
    · have inherited := respects front left back rfl (Grammar.isNonterminal_of_rule rule) t later
        proper
      exact compute_closed bounded rule split nonterminal proper (Or.inr ⟨nullable, inherited⟩)
  · exact respects (front ++ left :: rest) s after (by simp) nonterminal t member proper

theorem Respects.derives (wellFormed : grammar.WellFormed) {form other : List Symbol}
    (respects : Respects grammar form) (known : ∀ s ∈ form, grammar.Knows s)
    (derives : grammar.Derives form other) : Respects grammar other := by
  induction derives with
  | refl => exact respects
  | tail derives step ih =>
    have yields := Grammar.derives_iff_yields.mp derives
    exact ih.rewrites wellFormed (wellFormed.knows_of_yields yields known) step

/-- The end of input follows the start symbol, from the initial sets on. -/
theorem eof_mem_members_start (wellFormed : grammar.WellFormed) (firsts : FirstSets) :
    Symbol.eof ∈ (compute grammar firsts).sets.members grammar.start := by
  let holds := fun follows : FollowSets => Symbol.eof ∈ follows.sets.members grammar.start
  have initially : holds (initial grammar.nonterminals grammar.start) :=
    mem_members_initial.mpr
      ⟨Grammar.isNonterminal_iff.mp wellFormed.start_isNonterminal, rfl, rfl⟩
  refine saturate_invariant holds _ initially fun follows member => ?_
  exact pass_invariant holds member (fun _ _ member => mem_members_extend.mpr (Or.inl member))
    fun _ _ _ member => mem_members_extend.mpr (Or.inl member)

/-- The start symbol with the end of input behind it respects the FOLLOW sets. -/
theorem respects_start (wellFormed : grammar.WellFormed) :
    Respects grammar [grammar.start, .eof] := by
  have ends : grammar.isTerminal .eof = true := Grammar.isTerminal_eof
  intro before s after place nonterminal t member proper
  -- the nonterminal is the start symbol, since the end of input is a terminal
  rcases before with - | ⟨head, before⟩
  · obtain ⟨rfl, rfl⟩ := List.cons.inj place
    have known : ∀ r ∈ [Symbol.eof], grammar.Knows r :=
      List.forall_mem_singleton.mpr (Or.inl ends)
    rcases (FirstSets.mem_ofString_compute_iff wellFormed known).mp member with
      ⟨-, rest, derives⟩ | ⟨marker, -⟩
    · obtain ⟨rest, same, -⟩ := (wellFormed.derives_terminal_cons_iff ends).mp derives
      rw [(List.cons.inj same).1]
      exact eof_mem_members_start wellFormed _
    · exact absurd marker proper
  · have listed : s ∈ [Symbol.eof] := by simp [(List.cons.inj place).2]
    rw [List.mem_singleton.mp listed, wellFormed.not_isNonterminal ends] at nonterminal
    cases nonterminal

/-- A single symbol respects the FOLLOW sets, since nothing comes after it. -/
theorem respects_singleton (grammar : Grammar) (left : Symbol) : Respects grammar [left] := by
  intro before s after place _ t member proper
  have last : after = [] := by
    have lengths := congrArg List.length place
    simp only [List.length_append, List.length_cons, List.length_nil] at lengths
    exact List.eq_nil_of_length_eq_zero (by omega)
  subst last
  exact absurd (FirstSets.mem_ofString_nil.mp member) proper

/-- If a derived string respects the FOLLOW sets, they hold what comes after its nonterminals. -/
theorem Respects.mem_members (wellFormed : grammar.WellFormed) {form : List Symbol}
    (respects : Respects grammar form) (known : ∀ s ∈ form, grammar.Knows s)
    (nonterminal : grammar.isNonterminal s = true) (terminal : grammar.isTerminal t = true)
    (follows : grammar.FollowedBy form s t) :
    t ∈ (compute grammar (FirstSets.compute grammar)).sets.members s := by
  obtain ⟨before, after, derives⟩ := follows
  have knownResult := wellFormed.knows_of_yields (Grammar.derives_iff_yields.mp derives) known
  refine respects.derives wellFormed known derives before s (t :: after) rfl nonterminal t ?_
    (wellFormed.ne_epsilon (Or.inl terminal))
  refine (FirstSets.mem_ofString_compute_iff wellFormed fun r listed => ?_).mpr
    (Or.inl ⟨terminal, after, .refl _⟩)
  exact knownResult r (List.mem_append_right before (List.mem_cons_of_mem s listed))

/-- The FOLLOW set of a nonterminal holds the terminals that can follow it. -/
theorem mem_members_compute_iff (wellFormed : grammar.WellFormed)
    (nonterminal : grammar.isNonterminal s = true) :
    t ∈ (compute grammar (FirstSets.compute grammar)).sets.members s ↔
      grammar.isTerminal t = true ∧ grammar.CanFollow s t := by
  constructor
  · intro member
    refine ⟨?_, sound_compute wellFormed s t member⟩
    exact (confined_compute (FirstSets.confined_compute grammar)).isTerminal member
  · rintro ⟨terminal, found | ⟨left, root, found⟩⟩
    · refine (respects_start wellFormed).mem_members wellFormed ?_ nonterminal terminal found
      rw [List.forall_mem_cons, List.forall_mem_singleton]
      exact ⟨Or.inr wellFormed.start_isNonterminal, Or.inl Grammar.isTerminal_eof⟩
    · refine (respects_singleton grammar left).mem_members wellFormed ?_ nonterminal terminal found
      exact List.forall_mem_singleton.mpr (Or.inr root)

/-- The FOLLOW sets of a well-formed grammar are exact. The set of a nonterminal holds the
terminals that come right after it in a string derived from the start symbol with the end of input
behind it, or in one derived from a nonterminal; the start symbol alone is enough if it reaches
every nonterminal. No set holds `ε`. -/
theorem compute_follow_exact (wellFormed : grammar.WellFormed) :
    (∀ s, grammar.isNonterminal s = true →
      ∃ set, (compute grammar (FirstSets.compute grammar)).get? s = some set ∧
        (∀ t, t ∈ set ↔ grammar.isTerminal t = true ∧
          (grammar.FollowedBy [grammar.start, .eof] s t ∨
            ∃ left, grammar.isNonterminal left = true ∧ grammar.FollowedBy [left] s t)) ∧
        ((∀ left, grammar.isNonterminal left = true → grammar.Reaches left) →
          ∀ t, t ∈ set ↔ grammar.isTerminal t = true ∧
            grammar.FollowedBy [grammar.start, .eof] s t)) ∧
    ∀ s set, (compute grammar (FirstSets.compute grammar)).get? s = some set →
      Symbol.epsilon ∉ set := by
  have confined := confined_compute (FirstSets.confined_compute grammar)
  have known : ∀ s, grammar.isNonterminal s = true ↔
      s ∈ (compute grammar (FirstSets.compute grammar)).sets.keys := by
    intro s
    rw [confined.keys_eq, mem_keys_initial, Grammar.isNonterminal_iff]
  refine ⟨fun s nonterminal => ?_, fun s set found member => ?_⟩
  · have holds := fun t => @mem_members_compute_iff grammar s t wellFormed nonterminal
    refine ⟨_, OrderedMap.get?_eq_some_members ((known s).mp nonterminal), holds, ?_⟩
    intro reached t
    rw [holds, Grammar.canFollow_iff_of_reaches reached]
  · have terminal := @Confined.isTerminal _ _ s .epsilon confined (by
      rw [get?] at found
      rwa [OrderedMap.members, found])
    rw [wellFormed.not_isTerminal_epsilon] at terminal
    cases terminal

/-- A grammar with a nonterminal that the start symbol does not reach. -/
theorem compute_follow_exact_unreachable :
    ∃ grammar, Grammar.ofText "S : A b | ; A : a A | ; U : A EOF | U c ;" = .ok grammar ∧
      ∃ set, (compute grammar (FirstSets.compute grammar)).get? grammar.start = some set ∧
        (∀ t, t ∈ set ↔ grammar.isTerminal t = true ∧
          (grammar.FollowedBy [grammar.start, .eof] grammar.start t ∨
            ∃ left, grammar.isNonterminal left = true ∧
              grammar.FollowedBy [left] grammar.start t)) := by
  obtain ⟨grammar, defined, wellFormed, -⟩ := Grammar.exists_of_ofText
    "S : A b | ; A : a A | ; U : A EOF | U c ;" (fun _ => true) (by decide +kernel)
  obtain ⟨set, found, holds, -⟩ :=
    (compute_follow_exact wellFormed).1 grammar.start wellFormed.start_isNonterminal
  exact ⟨grammar, defined, set, found, holds⟩

end FollowSets

end Predictive
