import Predictive.Analysis.First
import Predictive.Proofs.Saturation
import Predictive.Proofs.WellFormed

/-!
# FIRST sets are exact

The FIRST sets of a grammar are computed by passes over its productions, each of which sees what
the productions before it have added. Every member that is ever added begins something that its
symbol derives, and the last pass adds nothing, so that the sets are closed under the productions.
A derivation read backwards then stays within the sets: what begins its last string begins its
first.

## Main definitions

* `Grammar.Begins` — what begins a string, in terms of derivations

## Main results

* `FirstSets.mem_ofString_append` — the FIRST set of a string in terms of those of its parts
* `FirstSets.compute_closed` — the computed sets are closed under the productions
* `FirstSets.mem_ofString_compute_iff` — the FIRST set of a string holds what begins it
* `FirstSets.compute_exact` — the FIRST sets of a well-formed grammar are exact
-/

namespace Predictive

theorem SymbolSet.mem_followedBy {first follow : SymbolSet} {t : Symbol} :
    t ∈ first.followedBy follow ↔
      (t ∈ first ∧ t ≠ .epsilon) ∨ (Symbol.epsilon ∈ first ∧ t ∈ follow) := by
  unfold followedBy
  split
  · next nullable => simp [contains_iff_mem.mp nullable]
  · next proper =>
    rw [contains_iff_mem] at proper
    simp [proper]

theorem SymbolSet.followedBy_mono {first follow other : SymbolSet} {t : Symbol}
    (within : ∀ t ∈ follow, t ∈ other) (member : t ∈ first.followedBy follow) :
    t ∈ first.followedBy other := by
  rw [mem_followedBy] at member ⊢
  exact member.imp_right (And.imp_right (within t))

/-- What begins a string: a terminal that comes first in something the string derives, or `ε` if
it derives the empty string. -/
def Grammar.Begins (grammar : Grammar) (form : List Symbol) (t : Symbol) : Prop :=
  (grammar.isTerminal t = true ∧ ∃ rest, grammar.Derives form (t :: rest)) ∨
    (t = .epsilon ∧ grammar.Derives form [])

/-- What begins the result of a derivation begins the string at its front. -/
theorem Grammar.Begins.of_derives {grammar : Grammar} {form other : List Symbol} {t : Symbol}
    (begins : grammar.Begins other t) (derives : grammar.Derives form other) :
    grammar.Begins form t := by
  rcases begins with ⟨terminal, rest, onward⟩ | ⟨marker, vanishes⟩
  · exact Or.inl ⟨terminal, rest, derives.trans onward⟩
  · exact Or.inr ⟨marker, derives.trans vanishes⟩

namespace FirstSets

variable {grammar : Grammar} {firsts : FirstSets} {s t : Symbol} {found added : SymbolSet}
  {symbols front back : List Symbol}

/-! ### Strings of known symbols -/

/-- Strings of symbols that have a set. -/
def Covers (firsts : FirstSets) (symbols : List Symbol) : Prop :=
  ∀ s ∈ symbols, s ∈ firsts.sets.keys

theorem covers_cons : firsts.Covers (s :: symbols) ↔ s ∈ firsts.sets.keys ∧ firsts.Covers symbols :=
  List.forall_mem_cons

theorem covers_singleton : firsts.Covers [s] ↔ s ∈ firsts.sets.keys := List.forall_mem_singleton

theorem covers_append :
    firsts.Covers (front ++ back) ↔ firsts.Covers front ∧ firsts.Covers back :=
  List.forall_mem_append

/-- One symbol of a string: if it is not nullable, the string ends here. -/
theorem ofStringFrom_cons (known : s ∈ firsts.sets.keys) :
    firsts.ofStringFrom found (s :: symbols) =
      if Symbol.epsilon ∈ firsts.sets.members s then
        firsts.ofStringFrom (found.union (firsts.sets.members s)) symbols
      else (found.union (firsts.sets.members s)).withoutEpsilon := by
  rw [ofStringFrom, get?, OrderedMap.get?_eq_some_members known]
  rfl

/-- What was found before a string only adds to the members of the string. -/
theorem mem_ofStringFrom (covered : firsts.Covers symbols) :
    t ∈ firsts.ofStringFrom found symbols ↔
      (t ∈ found ∧ t ≠ .epsilon) ∨ t ∈ firsts.ofString symbols := by
  unfold ofString
  induction symbols generalizing found with
  | nil =>
    by_cases marker : t = .epsilon
    · simp [ofStringFrom, marker]
    · simp [ofStringFrom, marker]
  | cons s rest ih =>
    obtain ⟨known, covered⟩ := covers_cons.mp covered
    rw [ofStringFrom_cons known, ofStringFrom_cons known]
    -- the scan goes on behind a nullable symbol, where the members found so far are more
    split
    · rw [ih covered, @ih (SymbolSet.empty.union _) covered]
      simp only [SymbolSet.mem_union, SymbolSet.not_mem_empty, false_or]
      tauto
    · simp only [SymbolSet.mem_withoutEpsilon, SymbolSet.mem_union, SymbolSet.not_mem_empty,
        false_or]
      tauto

@[simp] theorem mem_ofString_nil : t ∈ firsts.ofString [] ↔ t = .epsilon := by
  simp [ofString, ofStringFrom]

/-- After the empty string comes what follows. -/
@[simp] theorem followedBy_ofString_nil (next : SymbolSet) :
    (firsts.ofString []).followedBy next = next := by
  refine SymbolSet.ext_mem fun t => ?_
  rw [SymbolSet.mem_followedBy, mem_ofString_nil, mem_ofString_nil]
  tauto

theorem mem_ofString_cons (covered : firsts.Covers (s :: symbols)) :
    t ∈ firsts.ofString (s :: symbols) ↔
      (t ∈ firsts.sets.members s ∧ t ≠ .epsilon) ∨
        (Symbol.epsilon ∈ firsts.sets.members s ∧ t ∈ firsts.ofString symbols) := by
  obtain ⟨known, covered⟩ := covers_cons.mp covered
  rw [ofString, ofStringFrom_cons known]
  split
  · next nullable =>
    rw [mem_ofStringFrom covered]
    simp [nullable]
  · next solid => simp [solid]

/-- The FIRST set of a single symbol. -/
theorem mem_ofString_singleton (covered : firsts.Covers [s]) :
    t ∈ firsts.ofString [s] ↔ t ∈ firsts.sets.members s := by
  rw [mem_ofString_cons covered, mem_ofString_nil]
  by_cases marker : t = .epsilon
  · simp [marker]
  · simp [marker]

/-- The FIRST set of a string in terms of those of its parts. -/
theorem mem_ofString_append (covered : firsts.Covers (front ++ back)) :
    t ∈ firsts.ofString (front ++ back) ↔
      (t ∈ firsts.ofString front ∧ t ≠ .epsilon) ∨
        (Symbol.epsilon ∈ firsts.ofString front ∧ t ∈ firsts.ofString back) := by
  induction front with
  | nil => simp
  | cons s rest ih =>
    have frontCovered := (covers_append.mp covered).1
    rw [List.cons_append] at covered ⊢
    rw [mem_ofString_cons covered, ih (covers_cons.mp covered).2, mem_ofString_cons frontCovered,
      mem_ofString_cons frontCovered]
    tauto

/-- Every member of the FIRST set of a string is `ε` or comes from the set of a symbol. -/
theorem mem_members_of_mem_ofStringFrom (member : t ∈ firsts.ofStringFrom found symbols) :
    t = .epsilon ∨ t ∈ found ∨ ∃ s, t ∈ firsts.sets.members s := by
  induction symbols generalizing found with
  | nil =>
    rw [ofStringFrom, SymbolSet.mem_insert] at member
    exact member.elim (fun old => Or.inr (Or.inl old)) Or.inl
  | cons s rest ih =>
    by_cases known : s ∈ firsts.sets.keys
    · have within : t ∈ found.union (firsts.sets.members s) →
          t = .epsilon ∨ t ∈ found ∨ ∃ s, t ∈ firsts.sets.members s := by
        rw [SymbolSet.mem_union]
        rintro (old | new)
        · exact Or.inr (Or.inl old)
        · exact Or.inr (Or.inr ⟨s, new⟩)
      rw [ofStringFrom_cons known] at member
      split at member
      · rcases ih member with marker | inFound | fromSymbol
        · exact Or.inl marker
        · exact within inFound
        · exact Or.inr (Or.inr fromSymbol)
      · exact within (SymbolSet.mem_withoutEpsilon.mp member).1
    · rw [ofStringFrom, get?, OrderedMap.get?_eq_none_iff.mpr known] at member
      exact Or.inr (Or.inl member)

theorem mem_ofAlternatives {alternatives : List Alternative} :
    t ∈ firsts.ofAlternatives alternatives ↔
      ∃ alternative ∈ alternatives, t ∈ firsts.ofString alternative.symbols := by
  have collected : ∀ set : SymbolSet,
      t ∈ alternatives.foldl
          (fun set alternative => set.union (firsts.ofString alternative.symbols)) set ↔
        t ∈ set ∨ ∃ alternative ∈ alternatives, t ∈ firsts.ofString alternative.symbols := by
    induction alternatives with
    | nil => simp
    | cons alternative rest ih =>
      intro set
      rw [List.foldl_cons, ih, SymbolSet.mem_union, List.exists_mem_cons_iff, or_assoc]
  simpa [ofAlternatives] using collected .empty

/-! ### Passes -/

theorem extend_eq (firsts : FirstSets) (s : Symbol) (added : SymbolSet) :
    firsts.extend s added =
      (⟨(firsts.sets.extendAt s added).1⟩, (firsts.sets.extendAt s added).2) := by
  unfold extend OrderedMap.extendAt get?
  cases firsts.sets.get? s with
  | none => rfl
  | some set =>
    dsimp only
    split
    · rfl
    · rfl

theorem growing_extend (s : Symbol) (added : FirstSets → SymbolSet) :
    Growing (fun firsts : FirstSets => firsts.sets.weight)
      fun firsts => firsts.extend s (added firsts) := by
  have growing := OrderedMap.growing_extendAt s fun sets => added ⟨sets⟩
  constructor
  · intro firsts silent
    rw [extend_eq] at silent ⊢
    exact congrArg FirstSets.mk (growing.same silent)
  · intro firsts changed
    rw [extend_eq] at changed ⊢
    exact growing.more changed

/-- A silent extension finds every member in its place. -/
theorem mem_members_of_silent (silent : (firsts.extend s added).2 = false)
    (known : s ∈ firsts.sets.keys) (member : t ∈ added) : t ∈ firsts.sets.members s := by
  rw [extend_eq] at silent
  rcases OrderedMap.extendAt_cases firsts.sets s added with ⟨-, closed⟩ | ⟨grown, -⟩
  · exact closed known t member
  · rw [grown] at silent
    cases silent

/-- Passes that extend sets keep the members that are there. -/
theorem mem_members_saturate {γ : Type} {items : List (Symbol × γ)}
    {said : FirstSets → Symbol × γ → SymbolSet} (fuel : Nat)
    (member : t ∈ firsts.sets.members s) :
    t ∈ (saturate (fun firsts => sweep (fun firsts production =>
      firsts.extend production.1 (said firsts production)) firsts items) fuel
        firsts).sets.members s := by
  let holds := fun firsts : FirstSets => t ∈ firsts.sets.members s
  refine saturate_invariant holds fuel member fun firsts member => ?_
  refine sweep_invariant holds member fun firsts production _ member => ?_
  dsimp only [holds]
  rw [extend_eq]
  exact OrderedMap.mem_members_extendAt.mpr (Or.inl member)

/-- A pass is silent only if it changes nothing, and a reported change adds members. -/
theorem growing_pass (grammar : Grammar) :
    Growing (fun firsts : FirstSets => firsts.sets.weight) (pass grammar) :=
  Growing.sweep _ fun production _ =>
    growing_extend production.1 fun firsts => firsts.ofAlternatives production.2

/-- What holds of the sets through every pass: the keys stay, and members are terminals, `EOF` or
`ε`. -/
structure Confined (grammar : Grammar) (firsts : FirstSets) : Prop where
  /-- The keys are those of the initial sets. -/
  keys_eq : firsts.sets.keys = (initial grammar.terminals.items grammar.nonterminals).sets.keys
  /-- Members are terminals, `EOF` or `ε`. -/
  within : ∀ s, ∀ t ∈ firsts.sets.members s, t ∈ grammar.terminals.items ++ [.eof, .epsilon]

theorem get?_initial {terminals nonterminals : List Symbol} :
    (initial terminals nonterminals).sets.get? s =
      if s ∈ nonterminals then some .empty
      else if s ∈ terminals ++ [.eof, .epsilon] then some (.singleton s) else none := by
  rw [initial, OrderedMap.get?_insertAll_map, OrderedMap.get?_insertAll_map]
  rfl

theorem mem_keys_initial {terminals nonterminals : List Symbol} :
    s ∈ (initial terminals nonterminals).sets.keys ↔
      s ∈ nonterminals ∨ s ∈ terminals ++ [.eof, .epsilon] := by
  rw [← OrderedMap.get?_isSome_iff, get?_initial]
  split
  · simp_all
  · split
    · simp_all
    · simp_all

theorem mem_members_initial {terminals nonterminals : List Symbol} :
    t ∈ (initial terminals nonterminals).sets.members s ↔
      t = s ∧ ¬ s ∈ nonterminals ∧ s ∈ terminals ++ [.eof, .epsilon] := by
  rw [OrderedMap.members, get?_initial]
  split
  · next listed => simp [listed]
  · next absent =>
    split
    · next listed => simp [absent, listed]
    · next unlisted => simp [unlisted]

theorem confined_initial (grammar : Grammar) :
    Confined grammar (initial grammar.terminals.items grammar.nonterminals) := by
  refine ⟨rfl, fun s t member => ?_⟩
  obtain ⟨rfl, -, listed⟩ := mem_members_initial.mp member
  exact listed

theorem Confined.extend (confined : Confined grammar firsts)
    (within : ∀ t ∈ added, t ∈ grammar.terminals.items ++ [.eof, .epsilon]) :
    Confined grammar (firsts.extend s added).1 := by
  rw [extend_eq]
  refine ⟨OrderedMap.keys_extendAt.trans confined.keys_eq, fun r t member => ?_⟩
  rcases OrderedMap.mem_members_extendAt.mp member with old | ⟨-, -, new⟩
  · exact confined.within r t old
  · exact within t new

theorem Confined.mem_ofString (confined : Confined grammar firsts)
    (member : t ∈ firsts.ofString symbols) : t ∈ grammar.terminals.items ++ [.eof, .epsilon] := by
  rcases mem_members_of_mem_ofStringFrom member with rfl | impossible | ⟨s, member⟩
  · simp
  · exact absurd impossible (SymbolSet.not_mem_empty t)
  · exact confined.within s t member

theorem Confined.pass (confined : Confined grammar firsts) :
    Confined grammar (pass grammar firsts).1 := by
  refine sweep_invariant _ confined fun firsts production _ confined => confined.extend ?_
  intro t member
  obtain ⟨alternative, -, member⟩ := mem_ofAlternatives.mp member
  exact confined.mem_ofString member

theorem confined_compute (grammar : Grammar) : Confined grammar (compute grammar) :=
  saturate_invariant _ _ (confined_initial grammar) fun _ confined => confined.pass

/-- Passes that keep the keys, and take members from a list only, end because one of them adds
nothing, not because the fuel is used up. -/
theorem silent_of_confined {pass : FirstSets → FirstSets × Bool} {holds : FirstSets → Prop}
    {terminals nonterminals : List Symbol}
    (growing : Growing (fun firsts : FirstSets => firsts.sets.weight) pass)
    (initially : holds (initial terminals nonterminals))
    (keeps : ∀ firsts, holds firsts → holds (pass firsts).1)
    (keys_eq : ∀ firsts, holds firsts →
      firsts.sets.keys = (initial terminals nonterminals).sets.keys)
    (within : ∀ firsts, holds firsts → ∀ s, ∀ t ∈ firsts.sets.members s,
      t ∈ terminals ++ [.eof, .epsilon]) :
    (pass (saturate pass ((initial terminals nonterminals).passBound terminals)
      (initial terminals nonterminals))).2 = false := by
  -- there is a limit to the weight
  have bounded : ∀ firsts, holds firsts → firsts.sets.weight ≤
      (initial terminals nonterminals).sets.keys.length *
        (terminals ++ [Symbol.eof, Symbol.epsilon]).length := by
    intro firsts held
    rw [← keys_eq firsts held]
    exact OrderedMap.weight_le (within firsts held)
  refine saturate_silent growing initially keeps bounded ?_
  refine Nat.lt_of_lt_of_le ?_ (Nat.le_add_left _ _)
  simp [passBound, OrderedMap.size, OrderedMap.keys]

/-- The last pass adds nothing. -/
theorem compute_silent (grammar : Grammar) : (pass grammar (compute grammar)).2 = false :=
  silent_of_confined (growing_pass grammar) (confined_initial grammar)
    (fun _ confined => confined.pass) (fun _ confined => confined.keys_eq)
    fun _ confined => confined.within

/-- The computed sets are closed under the productions. -/
theorem compute_closed {alternative : Alternative} (rule : grammar.HasRule s alternative)
    (member : t ∈ (compute grammar).ofString alternative.symbols) :
    t ∈ (compute grammar).sets.members s := by
  obtain ⟨alternatives, found, listed⟩ := rule
  -- the last pass has looked at the production and added nothing for it
  have silent := sweep_silent (fun production _ =>
      growing_extend production.1 fun firsts => firsts.ofAlternatives production.2)
    (compute_silent grammar) (s, alternatives) (OrderedMap.mem_entries_iff.mpr found)
  refine mem_members_of_silent silent ?_ (mem_ofAlternatives.mpr ⟨alternative, listed, member⟩)
  rw [(confined_compute grammar).keys_eq, mem_keys_initial]
  exact Or.inl (Grammar.isNonterminal_iff.mp (Grammar.isNonterminal_of_alternatives? found))

/-! ### Every member begins something -/

theorem Confined.mem_keys (confined : Confined grammar firsts) (known : grammar.Knows s) :
    s ∈ firsts.sets.keys := by
  rw [confined.keys_eq, mem_keys_initial]
  rcases known with terminal | nonterminal
  · rcases Grammar.isTerminal_iff.mp terminal with rfl | listed
    · simp
    · exact Or.inr (List.mem_append_left _ listed)
  · exact Or.inl (Grammar.isNonterminal_iff.mp nonterminal)

theorem Confined.covers (confined : Confined grammar firsts)
    (known : ∀ s ∈ symbols, grammar.Knows s) : firsts.Covers symbols :=
  fun s member => confined.mem_keys (known s member)

/-- The members that were added so far begin what their symbols derive. The marker `ε`, which
has a set of its own, derives nothing. -/
structure Sound (grammar : Grammar) (firsts : FirstSets) : Prop where
  /-- The keys stay, and members are terminals, `EOF` or `ε`. -/
  confined : Confined grammar firsts
  /-- A member begins something. -/
  begins : ∀ {s t}, s ≠ .epsilon → t ∈ firsts.sets.members s → grammar.Begins [s] t

theorem Sound.begins_of_mem_ofString (wellFormed : grammar.WellFormed)
    (sound : Sound grammar firsts) (known : ∀ s ∈ symbols, grammar.Knows s)
    (member : t ∈ firsts.ofString symbols) : grammar.Begins symbols t := by
  induction symbols with
  | nil => exact Or.inr ⟨mem_ofString_nil.mp member, .refl []⟩
  | cons s rest ih =>
    have distinct := wellFormed.ne_epsilon (known s List.mem_cons_self)
    rcases (mem_ofString_cons (sound.confined.covers known)).mp member with
      ⟨member, proper⟩ | ⟨nullable, later⟩
    · rcases sound.begins distinct member with ⟨terminal, tail, derives⟩ | ⟨marker, -⟩
      · exact Or.inl ⟨terminal, tail ++ rest, derives.append_right rest⟩
      · exact absurd marker proper
    -- a member `ε` says that the first symbol vanishes
    · rcases sound.begins distinct nullable with ⟨terminal, -⟩ | ⟨-, vanishes⟩
      · rw [wellFormed.not_isTerminal_epsilon] at terminal
        cases terminal
      · exact (ih (fun s member => known s (List.mem_cons_of_mem _ member)) later).of_derives
          (vanishes.append_right rest)

theorem sound_initial (grammar : Grammar) :
    Sound grammar (initial grammar.terminals.items grammar.nonterminals) := by
  refine ⟨confined_initial grammar, fun {s t} distinct member => ?_⟩
  obtain ⟨rfl, -, listed⟩ := mem_members_initial.mp member
  have terminal : grammar.isTerminal t = true := by
    rw [Grammar.isTerminal_iff]
    simp only [List.mem_append, List.mem_cons, List.not_mem_nil, or_false] at listed
    tauto
  exact Or.inl ⟨terminal, [], .refl [t]⟩

theorem Sound.pass (wellFormed : grammar.WellFormed) (sound : Sound grammar firsts) :
    Sound grammar (pass grammar firsts).1 := by
  refine sweep_invariant _ sound fun firsts production listed sound => ?_
  obtain ⟨left, alternatives⟩ := production
  have found := OrderedMap.mem_entries_iff.mp listed
  refine ⟨sound.confined.extend fun t member => ?_, fun {s t} distinct member => ?_⟩
  · obtain ⟨alternative, -, member⟩ := mem_ofAlternatives.mp member
    exact sound.confined.mem_ofString member
  · rw [extend_eq] at member
    rcases OrderedMap.mem_members_extendAt.mp member with old | ⟨rfl, -, new⟩
    · exact sound.begins distinct old
    · obtain ⟨alternative, member, begins⟩ := mem_ofAlternatives.mp new
      have rule : grammar.HasRule s alternative := ⟨alternatives, found, member⟩
      exact (sound.begins_of_mem_ofString wellFormed (wellFormed.knows_of_rule rule)
        begins).of_derives rule.derives

theorem sound_compute (wellFormed : grammar.WellFormed) : Sound grammar (compute grammar) :=
  saturate_invariant _ _ (sound_initial grammar) fun _ sound => sound.pass wellFormed

/-! ### Everything that begins is a member -/

/-- A symbol that derives nothing is in its own set from the beginning, and stays there. -/
theorem mem_members_of_listed (wellFormed : grammar.WellFormed)
    (listed : t ∈ grammar.terminals.items ++ [.eof, .epsilon]) :
    t ∈ (compute grammar).sets.members t := by
  refine mem_members_saturate _ (mem_members_initial.mpr ⟨rfl, fun other => ?_, listed⟩)
  have nonterminal := Grammar.isNonterminal_iff.mpr other
  simp only [List.mem_append, List.mem_cons, List.not_mem_nil, or_false] at listed
  rcases listed with terminal | rfl | rfl
  · rw [wellFormed.apart terminal] at nonterminal
    cases nonterminal
  · exact absurd (wellFormed.nonterminal_unreserved nonterminal) (by decide)
  · exact absurd (wellFormed.nonterminal_unreserved nonterminal) (by decide)

theorem mem_members_self (wellFormed : grammar.WellFormed)
    (terminal : grammar.isTerminal t = true) : t ∈ (compute grammar).sets.members t := by
  refine mem_members_of_listed wellFormed ?_
  rcases Grammar.isTerminal_iff.mp terminal with rfl | listed
  · simp
  · exact List.mem_append_left _ listed

/-- Read backwards, a derivation only adds to the FIRST set. -/
theorem mem_ofString_of_yields (wellFormed : grammar.WellFormed) {form result : List Symbol}
    (yields : grammar.Yields form result) (known : ∀ s ∈ form, grammar.Knows s)
    (member : t ∈ (compute grammar).ofString result) : t ∈ (compute grammar).ofString form := by
  have covers := fun {symbols} => @Confined.covers grammar _ symbols (confined_compute grammar)
  induction yields generalizing t with
  | nil => exact member
  | @keep s form result rest ih =>
    have knownRest := fun s listed => known s (List.mem_cons_of_mem _ listed)
    have knownResult := wellFormed.knows_of_yields (.keep s rest) known
    rw [mem_ofString_cons (covers knownResult)] at member
    rw [mem_ofString_cons (covers known)]
    exact member.imp id fun later => ⟨later.1, ih knownRest later.2⟩
  | @expand s alternative form first second rule inner rest ihInner ihRest =>
    have knownInner := wellFormed.knows_of_rule rule
    have knownRest := fun s listed => known s (List.mem_cons_of_mem _ listed)
    have knownResult := wellFormed.knows_of_yields (.expand rule inner rest) known
    rw [mem_ofString_append (covers knownResult)] at member
    rw [mem_ofString_cons (covers known)]
    -- the symbol begins the expansion, or the expansion vanishes and it begins what comes after
    rcases member with ⟨member, proper⟩ | ⟨nullable, member⟩
    · exact Or.inl ⟨compute_closed rule (ihInner knownInner member), proper⟩
    · exact Or.inr ⟨compute_closed rule (ihInner knownInner nullable), ihRest knownRest member⟩

/-- The FIRST set of a string holds what begins it. -/
theorem mem_ofString_compute_iff (wellFormed : grammar.WellFormed)
    (known : ∀ s ∈ symbols, grammar.Knows s) :
    t ∈ (compute grammar).ofString symbols ↔ grammar.Begins symbols t := by
  constructor
  · exact (sound_compute wellFormed).begins_of_mem_ofString wellFormed known
  · rintro (⟨terminal, rest, derives⟩ | ⟨rfl, vanishes⟩)
    · have yields := Grammar.derives_iff_yields.mp derives
      refine mem_ofString_of_yields wellFormed yields known ?_
      rw [mem_ofString_cons ((confined_compute grammar).covers
        (wellFormed.knows_of_yields yields known))]
      exact Or.inl ⟨mem_members_self wellFormed terminal, wellFormed.ne_epsilon (Or.inl terminal)⟩
    · exact mem_ofString_of_yields wellFormed (Grammar.derives_iff_yields.mp vanishes) known
        (mem_ofString_nil.mpr rfl)

/-- The set of a symbol is the FIRST set of the string that consists of it. -/
theorem mem_members_compute_iff (wellFormed : grammar.WellFormed) (known : grammar.Knows s) :
    t ∈ (compute grammar).sets.members s ↔ grammar.Begins [s] t := by
  have alone : ∀ r ∈ [s], grammar.Knows r := by simpa using known
  rw [← mem_ofString_compute_iff wellFormed alone,
    mem_ofString_singleton ((confined_compute grammar).covers alone)]

/-- A nonterminal that derives a string with a terminal in front takes a step to do so. -/
theorem transGen_of_derives (wellFormed : grammar.WellFormed)
    (nonterminal : grammar.isNonterminal s = true) (terminal : grammar.isTerminal t = true)
    {rest : List Symbol} (derives : grammar.Derives [s] (t :: rest)) :
    Relation.TransGen grammar.Rewrites [s] (t :: rest) := by
  rcases Relation.reflTransGen_iff_eq_or_transGen.mp derives with same | steps
  · obtain ⟨rfl, -⟩ := List.cons.inj same
    rw [wellFormed.not_isTerminal nonterminal] at terminal
    cases terminal
  · exact steps

/-- The FIRST sets of a well-formed grammar are exact. The set of a nonterminal holds the
terminals that begin what it derives in one or more steps, and `ε` if it derives the empty string;
the FIRST set of a string of symbols of the grammar has the same meaning for the string. -/
theorem compute_exact (wellFormed : grammar.WellFormed) :
    (∀ s, grammar.isNonterminal s = true → ∃ set, (compute grammar).get? s = some set ∧
      ∀ t, t ∈ set ↔
        (grammar.isTerminal t = true ∧
          ∃ rest, Relation.TransGen grammar.Rewrites [s] (t :: rest)) ∨
        (t = .epsilon ∧ grammar.Derives [s] [])) ∧
    (∀ symbols, (∀ s ∈ symbols, grammar.Knows s) →
      ∀ t, t ∈ (compute grammar).ofString symbols ↔
        (grammar.isTerminal t = true ∧ ∃ rest, grammar.Derives symbols (t :: rest)) ∨
        (t = .epsilon ∧ grammar.Derives symbols [])) ∧
    (compute grammar).ofString [] = .singleton .epsilon := by
  refine ⟨fun s nonterminal => ?_, fun symbols known t => ?_, ?_⟩
  · have known : grammar.Knows s := Or.inr nonterminal
    refine ⟨_, OrderedMap.get?_eq_some_members ((confined_compute grammar).mem_keys known), ?_⟩
    intro t
    rw [mem_members_compute_iff wellFormed known]
    -- a nonterminal is not a terminal itself, so at least one step is taken
    refine or_congr_left (and_congr_right fun terminal => exists_congr fun rest => ?_)
    exact ⟨transGen_of_derives wellFormed nonterminal terminal, Relation.TransGen.to_reflTransGen⟩
  · exact mem_ofString_compute_iff wellFormed known
  · exact SymbolSet.ext_mem fun t => by rw [mem_ofString_nil, SymbolSet.mem_singleton]

/-- A grammar with a left-recursive, a nullable and an unproductive nonterminal. -/
theorem compute_exact_leftRecursive :
    ∃ grammar, Grammar.ofText "S : S a | B C ; B : b | ; C : C c | EOF S ;" = .ok grammar ∧
      ∃ set, (compute grammar).get? grammar.start = some set ∧
        ∀ t, t ∈ set ↔
          (grammar.isTerminal t = true ∧
            ∃ rest, Relation.TransGen grammar.Rewrites [grammar.start] (t :: rest)) ∨
          (t = .epsilon ∧ grammar.Derives [grammar.start] []) := by
  obtain ⟨grammar, defined, wellFormed, -⟩ := Grammar.exists_of_ofText
    "S : S a | B C ; B : b | ; C : C c | EOF S ;" (fun _ => true) (by decide +kernel)
  exact ⟨grammar, defined,
    (compute_exact wellFormed).1 grammar.start wellFormed.start_isNonterminal⟩

end FirstSets

end Predictive
