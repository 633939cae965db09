import Predictive.Proofs.Ebnf.First
import Predictive.Proofs.Follow

/-!
# FOLLOW sets of expressions

What can follow an expression is handed down to its parts, until it reaches the nonterminals in
it; in the lowered grammar it goes from symbol to symbol along the alternatives. The two ways meet
at the sites of a grammar: what is handed down to a site is what follows the symbol that stands
for its expression. As for the FIRST sets, no pass over the expressions goes beyond the sets of
the lowered grammar, so that the passes come to an end, and then no pass over the productions goes
beyond what is handed down.

## Main definitions

* `Expr.handed` — the nonterminals in an expression with what is handed down to them
* `EbnfGrammar.Expects` — what the sites say that can follow a symbol

## Main results

* `Expr.follow_eq_sweep` — handing down is one extension for each nonterminal
* `EbnfGrammar.LaysOut.mem_follow_of_site` — what is handed down to a site follows its symbol
* `EbnfGrammar.LaysOut.follows_closed` — what is handed down to a nonterminal follows it
* `EbnfGrammar.LaysOut.expects_of_mem_follow` — nothing else follows
* `EbnfGrammar.LaysOut.get?_follows` — the two computations agree on declared nonterminals
-/

namespace Predictive

/-! ### Handing down -/

namespace Expr

variable {firsts : FirstSets} {next : SymbolSet} {item : Symbol × SymbolSet}

mutual

/-- The nonterminals in an expression, each with the terminals that are handed down to it. -/
def handed (firsts : FirstSets) (next : SymbolSet) : Expr → List (Symbol × SymbolSet)
  | .terminal _ => []
  | .nonterminal s => [(s, next)]
  | .chain parts => handedChain firsts next parts
  | .choice parts => handedChoice firsts next parts
  | .optional body => body.handed firsts next
  | .zeroOrMore body => body.handed firsts (next.union (body.first firsts).withoutEpsilon)
  | .oneOrMore body => body.handed firsts (next.union (body.first firsts).withoutEpsilon)

/-- The nonterminals in the parts of a chain. -/
def handedChain (firsts : FirstSets) (next : SymbolSet) : List Expr → List (Symbol × SymbolSet)
  | [] => []
  | part :: rest =>
    part.handed firsts ((firstOfChain firsts .empty rest).followedBy next) ++
      handedChain firsts next rest

/-- The nonterminals in the parts of a choice. -/
def handedChoice (firsts : FirstSets) (next : SymbolSet) : List Expr → List (Symbol × SymbolSet)
  | [] => []
  | part :: rest => part.handed firsts next ++ handedChoice firsts next rest

end

mutual

/-- Handing down is one extension for each nonterminal. -/
theorem follow_eq_sweep (firsts : FirstSets) : ∀ (expr : Expr) (next : SymbolSet)
    (follows : FollowSets), expr.follow firsts next follows =
      sweep (fun follows item => follows.extend item.1 item.2) follows (expr.handed firsts next)
  | .terminal _, _, _ => by rw [follow, handed, sweep_nil]
  | .nonterminal _, _, _ => by simp [follow, handed, sweep]
  | .chain parts, next, follows => by rw [follow, handed, followChain_eq_sweep]
  | .choice parts, next, follows => by rw [follow, handed, followChoice_eq_sweep]
  | .optional body, next, follows => by rw [follow, handed, follow_eq_sweep]
  | .zeroOrMore body, next, follows => by rw [follow, handed, follow_eq_sweep]
  | .oneOrMore body, next, follows => by rw [follow, handed, follow_eq_sweep]

theorem followChain_eq_sweep (firsts : FirstSets) : ∀ (parts : List Expr) (next : SymbolSet)
    (follows : FollowSets), followChain firsts next follows parts =
      sweep (fun follows item => follows.extend item.1 item.2) follows
        (handedChain firsts next parts)
  | [], _, _ => by rw [followChain, handedChain, sweep_nil]
  | part :: rest, next, follows => by
    rw [followChain, handedChain, sweep_append, follow_eq_sweep firsts part]
    dsimp only
    rw [followChain_eq_sweep firsts rest]

theorem followChoice_eq_sweep (firsts : FirstSets) : ∀ (parts : List Expr) (next : SymbolSet)
    (follows : FollowSets), followChoice firsts next follows parts =
      sweep (fun follows item => follows.extend item.1 item.2) follows
        (handedChoice firsts next parts)
  | [], _, _ => by rw [followChoice, handedChoice, sweep_nil]
  | part :: rest, next, follows => by
    rw [followChoice, handedChoice, sweep_append, follow_eq_sweep firsts part]
    dsimp only
    rw [followChoice_eq_sweep firsts rest]

end

/-- What is handed down to the parts of a chain. -/
theorem mem_handedChain {parts : List Expr} :
    item ∈ handedChain firsts next parts ↔
      ∃ front part back, parts = front ++ part :: back ∧
        item ∈ part.handed firsts ((firstOfChain firsts .empty back).followedBy next) := by
  induction parts with
  | nil => simp [handedChain]
  | cons first rest ih =>
    rw [handedChain, List.mem_append, ih]
    constructor
    · rintro (inside | ⟨front, part, back, rfl, inside⟩)
      · exact ⟨[], first, rest, rfl, inside⟩
      · exact ⟨first :: front, part, back, rfl, inside⟩
    · rintro ⟨front, part, back, split, inside⟩
      cases front with
      | nil =>
        obtain ⟨rfl, rfl⟩ := List.cons.inj split
        exact Or.inl inside
      | cons head tail => exact Or.inr ⟨tail, part, back, (List.cons.inj split).2, inside⟩

/-- What is handed down to the parts of a choice. -/
theorem mem_handedChoice {parts : List Expr} :
    item ∈ handedChoice firsts next parts ↔ ∃ part ∈ parts, item ∈ part.handed firsts next := by
  induction parts with
  | nil => simp [handedChoice]
  | cons first rest ih => rw [handedChoice, List.mem_append, ih, List.exists_mem_cons_iff]

/-- Handing down what follows a nonterminal is silent only if it changes nothing, and a reported
change adds members. -/
theorem growing_follow (firsts : FirstSets) (left : Symbol) (expr : Expr) :
    Growing (fun follows : FollowSets => follows.sets.weight)
      fun follows => expr.follow firsts (follows.get left) follows := by
  simp only [follow_eq_sweep]
  have growing : ∀ next, Growing (fun follows : FollowSets => follows.sets.weight)
      fun follows => sweep (fun follows item => follows.extend item.1 item.2) follows
        (expr.handed firsts next) :=
    fun next => Growing.sweep _ fun item _ => FollowSets.growing_extend item.1 fun _ => item.2
  exact ⟨(growing _).same, (growing _).more⟩

/-- If handing down is silent, nothing that is handed down is new. -/
theorem extend_silent_of_follow {expr : Expr} {follows : FollowSets}
    (silent : (expr.follow firsts next follows).2 = false) :
    ∀ item ∈ expr.handed firsts next, (follows.extend item.1 item.2).2 = false := by
  rw [follow_eq_sweep] at silent
  exact sweep_silent (fun item _ => FollowSets.growing_extend item.1 fun _ => item.2) silent

end Expr

/-- What is handed down inside a part is handed down inside the whole. -/
theorem Site.Part.handed_subset {firsts : FirstSets} {site inner : Site}
    (part : Site.Part firsts site inner) :
    inner.expr.handed firsts inner.next ⊆ site.expr.handed firsts site.next := by
  intro item listed
  cases part with
  | chain front part back =>
    rw [Expr.handed, Expr.mem_handedChain]
    exact ⟨front, part, back, rfl, listed⟩
  | choice front part back =>
    rw [Expr.handed, Expr.mem_handedChoice]
    exact ⟨part, by simp, listed⟩
  | optional => rwa [Expr.handed]
  | zeroOrMore => rwa [Expr.handed]
  | oneOrMore => rwa [Expr.handed]

namespace EbnfGrammar

variable {source : EbnfGrammar} {grammar : Grammar} {firsts : FirstSets} {follows : FollowSets}
  {site : Site} {item : Symbol × SymbolSet} {s t u : Symbol} {expr : Expr}

/-- Whatever is handed down to a nonterminal is handed down to a site. -/
theorem Sites.exists_nonterminal {first : Nat} {next : SymbolSet}
    (sites : Sites source grammar firsts follows ⟨expr, first, next⟩)
    (listed : item ∈ expr.handed firsts next) :
    ∃ place, Sites source grammar firsts follows ⟨.nonterminal item.1, place, item.2⟩ := by
  induction expr using Expr.induction generalizing first next with
  | terminal s =>
    rw [Expr.handed] at listed
    cases listed
  | nonterminal s =>
    rw [Expr.handed] at listed
    obtain rfl := List.mem_singleton.mp listed
    exact ⟨first, sites⟩
  | chain parts ih =>
    rw [Expr.handed] at listed
    obtain ⟨front, part, back, rfl, inside⟩ := Expr.mem_handedChain.mp listed
    exact ih part (by simp) (sites.part (.chain front part back first next)) inside
  | choice parts ih =>
    rw [Expr.handed] at listed
    obtain ⟨part, member, inside⟩ := Expr.mem_handedChoice.mp listed
    obtain ⟨front, back, rfl⟩ := List.append_of_mem member
    exact ih part member (sites.part (.choice front part back first next)) inside
  | optional body ih =>
    rw [Expr.handed] at listed
    exact ih (sites.part (.optional body first next)) listed
  | zeroOrMore body ih =>
    rw [Expr.handed] at listed
    exact ih (sites.part (.zeroOrMore body first next)) listed
  | oneOrMore body ih =>
    rw [Expr.handed] at listed
    exact ih (sites.part (.oneOrMore body first next)) listed

/-- If a pass is silent, nothing that is handed down inside a site is new. -/
theorem Sites.extend_silent (silent : (FollowSets.passEbnf source firsts follows).2 = false)
    (sites : Sites source grammar firsts follows site) :
    ∀ item ∈ site.expr.handed firsts site.next, (follows.extend item.1 item.2).2 = false := by
  induction sites with
  | @root left expr first found =>
    have still := sweep_silent
      (fun production _ => Expr.growing_follow firsts production.1 production.2) silent
      (left, expr) (OrderedMap.mem_entries_iff.mpr found)
    exact Expr.extend_silent_of_follow still
  | part _ inside ih => exact fun item listed => ih item (inside.handed_subset listed)

/-- The end of input follows the start symbol, from the initial sets on. -/
theorem WellFormed.eof_mem_follows_start (wellFormed : source.WellFormed) (firsts : FirstSets) :
    Symbol.eof ∈ (FollowSets.computeEbnf source firsts).sets.members source.start := by
  let holds := fun follows : FollowSets => Symbol.eof ∈ follows.sets.members source.start
  have initially : holds (FollowSets.initial source.nonterminals source.start) :=
    FollowSets.mem_members_initial.mpr
      ⟨OrderedMap.contains_iff.mp wellFormed.start_isNonterminal, rfl, rfl⟩
  refine saturate_invariant holds _ initially fun follows member => ?_
  refine sweep_invariant holds member fun follows production _ member => ?_
  rw [Expr.follow_eq_sweep]
  exact sweep_invariant holds member fun follows item _ member =>
    FollowSets.mem_members_extend.mpr (Or.inl member)

/-! ### What is handed down follows -/

/-- FOLLOW sets of an EBNF grammar that do not go beyond those of the lowered grammar. -/
structure FollowsWithin (source : EbnfGrammar) (grammar : Grammar) (follows : FollowSets) :
    Prop where
  /-- The keys are those of the initial sets. -/
  keys_eq : follows.sets.keys = (FollowSets.initial source.nonterminals source.start).sets.keys
  /-- Members are members for the lowered grammar. -/
  within : ∀ s, ∀ t ∈ follows.sets.members s,
    t ∈ (FollowSets.compute grammar (FirstSets.compute grammar)).sets.members s

/-- What the sites say that can follow a symbol: a declared nonterminal has its own set, and a
symbol that was introduced for an expression is followed by what is handed down to it. -/
def Expects (source : EbnfGrammar) (grammar : Grammar) (u t : Symbol) : Prop :=
  (source.isNonterminal u = true ∧
      t ∈ (FollowSets.computeEbnf source (.computeEbnf source)).sets.members u) ∨
    ∃ site, Sites source grammar (.computeEbnf source) (.computeEbnf source (.computeEbnf source))
      site ∧ u ∈ site.own ∧ t ∈ site.next

/-- FOLLOW sets of the lowered grammar that do not go beyond what the sites say. -/
structure FollowsReached (source : EbnfGrammar) (grammar : Grammar) (follows : FollowSets) :
    Prop where
  /-- The keys are those of the initial sets. -/
  keys_eq : follows.sets.keys = (FollowSets.initial grammar.nonterminals grammar.start).sets.keys
  /-- Members are what the sites say. -/
  within : ∀ u, ∀ t ∈ follows.sets.members u, Expects source grammar u t

namespace LaysOut

variable (wellFormed : source.WellFormed) (laysOut : source.LaysOut grammar)

include wellFormed laysOut

/-- What begins the rest of an alternative follows a symbol in it, and so does what follows the
symbol of the alternative if the rest is nullable. -/
theorem mem_follow_of_alternative {left : Symbol} {alternatives : List Alternative}
    {parts : List Expr} {before after : List Symbol}
    (defined : grammar.alternatives? left = some alternatives)
    (listed : .ofSymbols (before ++ s :: after) ∈ alternatives)
    (inner : Realizes source grammar parts (before ++ s :: after))
    (nonterminal : grammar.isNonterminal s = true)
    (comes : t ∈ ((FirstSets.compute grammar).ofString after).followedBy
      ((FollowSets.compute grammar (FirstSets.compute grammar)).sets.members left)) :
    t ∈ (FollowSets.compute grammar (FirstSets.compute grammar)).sets.members s := by
  have absent := (laysOut.loweredTo wellFormed).ne_epsilon wellFormed inner
  have proper : t ≠ .epsilon := by
    rcases SymbolSet.mem_followedBy.mp comes with ⟨-, proper⟩ | ⟨-, member⟩
    · exact proper
    · exact (laysOut.wellFormed wellFormed).ne_epsilon (Or.inl
        ((FollowSets.confined_compute (FirstSets.confined_compute grammar)).isTerminal member))
  exact FollowSets.compute_closed (FirstSets.confined_compute grammar) ⟨_, defined, listed⟩
    (Alternative.symbols_ofSymbols absent) nonterminal proper
    ((SymbolSet.mem_followedBy.mp comes).imp_left And.left)

/-- What follows the symbol of an alternative follows the last symbol in it. -/
theorem mem_follow_of_last {left : Symbol} {alternatives : List Alternative} {parts : List Expr}
    (before : List Symbol) (defined : grammar.alternatives? left = some alternatives)
    (listed : .ofSymbols (before ++ [s]) ∈ alternatives)
    (inner : Realizes source grammar parts (before ++ [s]))
    (nonterminal : grammar.isNonterminal s = true)
    (comes : t ∈ (FollowSets.compute grammar (FirstSets.compute grammar)).sets.members left) :
    t ∈ (FollowSets.compute grammar (FirstSets.compute grammar)).sets.members s := by
  refine laysOut.mem_follow_of_alternative wellFormed defined listed inner nonterminal ?_
  rwa [FirstSets.followedBy_ofString_nil]

/-- What comes after the body of a repetition: the body again, or what follows the repetition. -/
theorem followedBy_again {body : Expr} (next : SymbolSet)
    (stands : Realizes source grammar [.zeroOrMore body] [s]) :
    ((FirstSets.compute grammar).ofString [s]).followedBy next =
      next.union (body.first (.computeEbnf source)).withoutEpsilon := by
  refine SymbolSet.ext_mem fun t => ?_
  rw [SymbolSet.mem_followedBy, SymbolSet.mem_union, SymbolSet.mem_withoutEpsilon]
  simp only [FirstSets.mem_ofString_singleton
    (laysOut.covers (FirstSets.confined_compute grammar) stands),
    ← laysOut.first_eq wellFormed stands, Expr.first, SymbolSet.mem_insert]
  tauto

/-- In the alternative of a repetition, what begins the body again follows the body, and so does
what follows the repetition. -/
theorem mem_follow_of_repeated {left r : Symbol} {alternatives : List Alternative} {body : Expr}
    {next : SymbolSet} (defined : grammar.alternatives? left = some alternatives)
    (listed : .ofSymbols [s, r] ∈ alternatives) (stands : Realizes source grammar [body] [s])
    (again : Realizes source grammar [.zeroOrMore body] [r])
    (nonterminal : grammar.isNonterminal s = true)
    (within : ∀ t ∈ next,
      t ∈ (FollowSets.compute grammar (FirstSets.compute grammar)).sets.members left)
    (handed : t ∈ next.union (body.first (.computeEbnf source)).withoutEpsilon) :
    t ∈ (FollowSets.compute grammar (FirstSets.compute grammar)).sets.members s := by
  rw [← laysOut.followedBy_again wellFormed next again] at handed
  exact @mem_follow_of_alternative source grammar s t wellFormed laysOut _ _ _ [] [r] defined
    listed (stands.cons again) nonterminal (SymbolSet.followedBy_mono within handed)

/-- What is handed down to a site follows the symbol that stands for its expression. -/
theorem mem_follow_of_site (within : ∀ s, ∀ t ∈ follows.sets.members s,
      t ∈ (FollowSets.compute grammar (FirstSets.compute grammar)).sets.members s)
    (sites : Sites source grammar (.computeEbnf source) follows site)
    (nonterminal : grammar.isNonterminal site.symbol = true) (handed : t ∈ site.next) :
    t ∈ (FollowSets.compute grammar (FirstSets.compute grammar)).sets.members site.symbol := by
  induction sites generalizing t with
  | @root s expr first found beyond laid =>
    exact laysOut.mem_follow_of_last wellFormed [] laid.1 List.mem_cons_self
      (laid.2.realizes (wellFormed.admits found)) nonterminal (within s t handed)
  | part outer inside ih =>
    have whole := outer.realizes wellFormed
    have stands := (outer.part inside).realizes wellFormed
    have laid := outer.laid
    have nonterminal_of := fun {r} => @Grammar.isNonterminal_of_alternatives? grammar r
    cases inside with
    | chain front part back first next =>
      have inner := Expr.LaidAll.realizes laid.2 (outer.admits wellFormed)
      have rest := laid.realizes_back (outer.admits wellFormed)
      have defined := laid.1
      rw [Expr.symbolsAt_append, Expr.symbolsAt] at inner defined
      rw [laysOut.firstOfChain_eq wellFormed rest] at handed
      exact laysOut.mem_follow_of_alternative wellFormed defined List.mem_cons_self inner
        nonterminal (SymbolSet.followedBy_mono (fun _ => ih (nonterminal_of laid.1)) handed)
    | choice front part back first next =>
      have listed : part.symbolAt (first + 1 + Expr.extentOfAll front) ∈
          Expr.symbolsAt (first + 1) (front ++ part :: back) := by
        rw [Expr.symbolsAt_append, Expr.symbolsAt]
        simp
      exact laysOut.mem_follow_of_last wellFormed [] laid.1 (List.mem_map_of_mem listed) stands
        nonterminal (ih (nonterminal_of laid.1) handed)
    | optional body first next =>
      exact laysOut.mem_follow_of_last wellFormed [] laid.1 List.mem_cons_self stands nonterminal
        (ih (nonterminal_of laid.1) handed)
    | zeroOrMore body first next =>
      exact laysOut.mem_follow_of_repeated wellFormed laid.1 List.mem_cons_self stands whole
        nonterminal (fun _ => ih (nonterminal_of laid.1)) handed
    | oneOrMore body first next =>
      exact laysOut.mem_follow_of_repeated wellFormed laid.1 List.mem_cons_self stands
        (.zeroOrMore stands laid.2.1 .nil) nonterminal (fun _ => ih (nonterminal_of laid.1)) handed

theorem followsWithin_initial :
    FollowsWithin source grammar (FollowSets.initial source.nonterminals source.start) := by
  refine ⟨rfl, fun s t member => ?_⟩
  obtain ⟨-, rfl, rfl⟩ := FollowSets.mem_members_initial.mp member
  rw [← laysOut.start_eq]
  exact FollowSets.eof_mem_members_start (laysOut.wellFormed wellFormed) _

/-- A pass over the expressions does not go beyond the sets of the lowered grammar. -/
theorem followsWithin_pass (before : FollowsWithin source grammar follows) :
    FollowsWithin source grammar (FollowSets.passEbnf source (.computeEbnf source) follows).1 := by
  refine sweep_invariant _ before fun follows production listed before => ?_
  obtain ⟨left, expr⟩ := production
  have found : source.expression? left = some expr := OrderedMap.mem_entries_iff.mp listed
  obtain ⟨first, beyond, laid⟩ := laysOut.exists_laidOut found
  rw [Expr.follow_eq_sweep]
  refine sweep_invariant _ before fun current item inside growing => ?_
  refine ⟨FollowSets.keys_extend.trans growing.keys_eq, fun s t member => ?_⟩
  rcases FollowSets.mem_members_extend.mp member with old | ⟨rfl, -, new, -⟩
  · exact growing.within s t old
  -- what is handed down was settled when the production was begun
  · obtain ⟨place, sites⟩ := Sites.exists_nonterminal (.root found beyond laid) inside
    simpa only [Site.symbol, Expr.symbolAt] using laysOut.mem_follow_of_site wellFormed
      before.within sites (laysOut.isNonterminal (sites.admits wellFormed)) new

theorem followsWithin_compute :
    FollowsWithin source grammar (.computeEbnf source (.computeEbnf source)) :=
  saturate_invariant _ _ (laysOut.followsWithin_initial wellFormed) fun _ before =>
    laysOut.followsWithin_pass wellFormed before

/-- The passes over the expressions come to an end, as the sets of the lowered grammar bound the
weight. -/
theorem passEbnf_silent : (FollowSets.passEbnf source (.computeEbnf source)
    (.computeEbnf source (.computeEbnf source))).2 = false := by
  refine FollowSets.silent_of_confined
    (Growing.sweep _ fun production _ => Expr.growing_follow _ production.1 production.2)
    (laysOut.followsWithin_initial wellFormed)
    (fun _ before => laysOut.followsWithin_pass wellFormed before)
    (fun _ before => before.keys_eq) fun follows before s t member => ?_
  rw [← laysOut.terminals_eq]
  exact (FollowSets.confined_compute (FirstSets.confined_compute grammar)).within s t
    (before.within s t member)

/-- What is handed down to a nonterminal follows it. -/
theorem follows_closed {first : Nat} {next : SymbolSet}
    (sites : Sites source grammar (.computeEbnf source)
      (.computeEbnf source (.computeEbnf source)) ⟨.nonterminal s, first, next⟩)
    (handed : t ∈ next) (proper : t ≠ .epsilon) :
    t ∈ (FollowSets.computeEbnf source (.computeEbnf source)).sets.members s := by
  have known : s ∈ (FollowSets.computeEbnf source (.computeEbnf source)).sets.keys := by
    rw [(laysOut.followsWithin_compute wellFormed).keys_eq, FollowSets.mem_keys_initial]
    exact OrderedMap.contains_iff.mp (sites.admits wellFormed)
  refine FollowSets.mem_members_of_silent
    (sites.extend_silent (laysOut.passEbnf_silent wellFormed) (s, next) ?_) known handed proper
  rw [Expr.handed]
  exact List.mem_cons_self

/-- What is handed down to a site follows every symbol that was introduced for its expression. -/
theorem mem_follow_of_own (sites : Sites source grammar (.computeEbnf source)
      (.computeEbnf source (.computeEbnf source)) site)
    (own : u ∈ site.own) (handed : t ∈ site.next) :
    t ∈ (FollowSets.compute grammar (FirstSets.compute grammar)).sets.members u := by
  have follows := fun nonterminal => laysOut.mem_follow_of_site wellFormed
    (laysOut.followsWithin_compute wellFormed).within sites nonterminal handed
  have laid := sites.laid
  have nonterminal_of := fun {r} => @Grammar.isNonterminal_of_alternatives? grammar r
  have admits := sites.admits wellFormed
  obtain ⟨expr, first, next⟩ := site
  cases expr with
  | terminal => cases own
  | nonterminal => cases own
  | chain => exact List.mem_singleton.mp own ▸ follows (nonterminal_of laid.1)
  | choice => exact List.mem_singleton.mp own ▸ follows (nonterminal_of laid.1)
  | optional => exact List.mem_singleton.mp own ▸ follows (nonterminal_of laid.1)
  | zeroOrMore => exact List.mem_singleton.mp own ▸ follows (nonterminal_of laid.1)
  | oneOrMore body =>
    have whole := follows (nonterminal_of laid.1)
    rcases List.mem_pair.mp own with rfl | rfl
    · exact whole
    -- the second symbol comes last in the alternative of the first
    · have stands := laid.2.2.realizes admits
      exact laysOut.mem_follow_of_last wellFormed [_] laid.1 List.mem_cons_self
        (stands.cons (.zeroOrMore stands laid.2.1 .nil)) (nonterminal_of laid.2.1) whole

/-! ### Nothing else follows -/

/-- What is handed down to a site is expected after its symbol. -/
theorem expects_of_site (sites : Sites source grammar (.computeEbnf source)
      (.computeEbnf source (.computeEbnf source)) site)
    (nonterminal : grammar.isNonterminal site.symbol = true) (handed : t ∈ site.next)
    (proper : t ≠ .epsilon) : Expects source grammar site.symbol t := by
  have admits := sites.admits wellFormed
  obtain ⟨expr, first, next⟩ := site
  cases expr with
  | terminal s =>
    have terminal : grammar.isTerminal s = true := laysOut.isTerminal_eq ▸ admits
    have apart := (laysOut.wellFormed wellFormed).not_isTerminal nonterminal
    exact absurd (terminal.symm.trans apart) (by decide)
  | nonterminal s => exact Or.inl ⟨admits, laysOut.follows_closed wellFormed sites handed proper⟩
  | chain => exact Or.inr ⟨_, sites, List.mem_cons_self, handed⟩
  | choice => exact Or.inr ⟨_, sites, List.mem_cons_self, handed⟩
  | optional => exact Or.inr ⟨_, sites, List.mem_cons_self, handed⟩
  | zeroOrMore => exact Or.inr ⟨_, sites, List.mem_cons_self, handed⟩
  | oneOrMore => exact Or.inr ⟨_, sites, List.mem_cons_self, handed⟩

theorem occurrences_ofSymbols {parts : List Expr} {symbols : List Symbol}
    (inner : Realizes source grammar parts symbols) :
    FollowSets.occurrences (Alternative.ofSymbols symbols).symbols =
      FollowSets.occurrences symbols := by
  rw [Alternative.symbols_ofSymbols ((laysOut.loweredTo wellFormed).ne_epsilon wellFormed inner)]

/-- In an alternative that is the symbol of a site, what comes next is expected. -/
theorem expects_of_alone {after : List Symbol}
    (sites : Sites source grammar (.computeEbnf source)
      (.computeEbnf source (.computeEbnf source)) site)
    (occurs : (s, after) ∈ FollowSets.occurrences (Alternative.ofSymbols [site.symbol]).symbols)
    (nonterminal : grammar.isNonterminal s = true) (proper : t ≠ .epsilon)
    (comes : t ∈ ((FirstSets.compute grammar).ofString after).followedBy site.next) :
    Expects source grammar s t := by
  rw [laysOut.occurrences_ofSymbols wellFormed (sites.realizes wellFormed)] at occurs
  obtain ⟨rfl, rfl⟩ := Prod.mk.inj (List.mem_singleton.mp occurs)
  rw [FirstSets.followedBy_ofString_nil] at comes
  exact laysOut.expects_of_site wellFormed sites nonterminal comes proper

/-- In the alternative of a repetition, what comes next is expected: the body is followed by the
repetition, and the repetition by what follows the whole. -/
theorem expects_of_repeated {inner : Site} {more : Symbol} {after : List Symbol}
    (sites : Sites source grammar (.computeEbnf source)
      (.computeEbnf source (.computeEbnf source)) site)
    (inside : Site.Part (.computeEbnf source) site inner)
    (next_eq : inner.next =
      site.next.union (inner.expr.first (.computeEbnf source)).withoutEpsilon)
    (again : Realizes source grammar [.zeroOrMore inner.expr] [more]) (own : more ∈ site.own)
    (occurs : (s, after) ∈
      FollowSets.occurrences (Alternative.ofSymbols [inner.symbol, more]).symbols)
    (nonterminal : grammar.isNonterminal s = true) (proper : t ≠ .epsilon)
    (comes : t ∈ ((FirstSets.compute grammar).ofString after).followedBy site.next) :
    Expects source grammar s t := by
  have both := ((sites.part inside).realizes wellFormed).cons again
  rw [laysOut.occurrences_ofSymbols wellFormed both] at occurs
  rcases List.mem_pair.mp occurs with first | second
  · obtain ⟨rfl, rfl⟩ := Prod.mk.inj first
    rw [laysOut.followedBy_again wellFormed site.next again, ← next_eq] at comes
    exact laysOut.expects_of_site wellFormed (sites.part inside) nonterminal comes proper
  · obtain ⟨rfl, rfl⟩ := Prod.mk.inj second
    rw [FirstSets.followedBy_ofString_nil] at comes
    exact Or.inr ⟨site, sites, own, comes⟩

/-- In the alternatives of a symbol that was introduced at a site, what comes next is expected. -/
theorem expects_of_own {alternative : Alternative} {after : List Symbol}
    (sites : Sites source grammar (.computeEbnf source)
      (.computeEbnf source (.computeEbnf source)) site)
    (own : u ∈ site.own) (rule : grammar.HasRule u alternative)
    (occurs : (s, after) ∈ FollowSets.occurrences alternative.symbols)
    (nonterminal : grammar.isNonterminal s = true) (proper : t ≠ .epsilon)
    (comes : t ∈ ((FirstSets.compute grammar).ofString after).followedBy site.next) :
    Expects source grammar s t := by
  have whole := sites.realizes wellFormed
  have laid := sites.laid
  have admits := sites.admits wellFormed
  have nothing : alternative ≠ .epsilon := by
    rintro rfl
    cases occurs
  obtain ⟨alternatives, found, member⟩ := rule
  obtain ⟨expr, first, next⟩ := site
  cases expr with
  | terminal => cases own
  | nonterminal => cases own
  | chain parts =>
    obtain rfl := List.mem_singleton.mp own
    obtain rfl := Option.some.inj (found.symm.trans laid.1)
    obtain rfl := List.mem_singleton.mp member
    rw [laysOut.occurrences_ofSymbols wellFormed (Expr.LaidAll.realizes laid.2 admits)] at occurs
    obtain ⟨before, split⟩ := FollowSets.mem_occurrences.mp occurs
    obtain ⟨front, part, back, rfl, rfl, rfl⟩ := Expr.exists_of_symbolsAt_eq_append split
    rw [← laysOut.firstOfChain_eq wellFormed (laid.realizes_back admits)] at comes
    exact laysOut.expects_of_site wellFormed (sites.part (.chain front part back first next))
      nonterminal comes proper
  | choice parts =>
    obtain rfl := List.mem_singleton.mp own
    obtain rfl := Option.some.inj (found.symm.trans laid.1)
    obtain ⟨r, listed, rfl⟩ := List.mem_map.mp member
    obtain ⟨before, others, split⟩ := List.append_of_mem listed
    obtain ⟨front, part, back, rfl, rfl, -⟩ := Expr.exists_of_symbolsAt_eq_append split
    exact laysOut.expects_of_alone wellFormed (sites.part (.choice front part back first next))
      occurs nonterminal proper comes
  | optional body =>
    obtain rfl := List.mem_singleton.mp own
    obtain rfl := Option.some.inj (found.symm.trans laid.1)
    obtain rfl := (List.mem_pair.mp member).resolve_right nothing
    exact laysOut.expects_of_alone wellFormed (sites.part (.optional body first next)) occurs
      nonterminal proper comes
  | zeroOrMore body =>
    obtain rfl := List.mem_singleton.mp own
    obtain rfl := Option.some.inj (found.symm.trans laid.1)
    obtain rfl := (List.mem_pair.mp member).resolve_right nothing
    exact laysOut.expects_of_repeated wellFormed sites (.zeroOrMore body first next) rfl whole
      List.mem_cons_self occurs nonterminal proper comes
  | oneOrMore body =>
    have more := Realizes.zeroOrMore (laid.2.2.realizes admits) laid.2.1 .nil
    -- both symbols have the alternative that goes on
    obtain rfl : alternative = .ofSymbols [body.symbolAt (first + 2), ⟨first + 1⟩] := by
      rcases List.mem_pair.mp own with rfl | rfl
      · obtain rfl := Option.some.inj (found.symm.trans laid.1)
        exact List.mem_singleton.mp member
      · obtain rfl := Option.some.inj (found.symm.trans laid.2.1)
        exact (List.mem_pair.mp member).resolve_right nothing
    exact laysOut.expects_of_repeated wellFormed sites (.oneOrMore body first next) rfl more
      (List.mem_cons_of_mem _ List.mem_cons_self) occurs nonterminal proper comes

/-- In the only alternative of a declared nonterminal, what comes next is expected. -/
theorem expects_of_declared {left : Symbol} {alternative : Alternative} {after : List Symbol}
    (declared : source.isNonterminal left = true) (rule : grammar.HasRule left alternative)
    (occurs : (s, after) ∈ FollowSets.occurrences alternative.symbols)
    (nonterminal : grammar.isNonterminal s = true) (proper : t ≠ .epsilon)
    (comes : t ∈ ((FirstSets.compute grammar).ofString after).followedBy
      ((FollowSets.computeEbnf source (.computeEbnf source)).get left)) :
    Expects source grammar s t := by
  obtain ⟨expr, found⟩ := exists_expression? declared
  obtain ⟨first, beyond, laid⟩ := laysOut.exists_laidOut found
  obtain ⟨alternatives, defined, member⟩ := rule
  obtain rfl := Option.some.inj (defined.symm.trans laid.1)
  obtain rfl := List.mem_singleton.mp member
  exact laysOut.expects_of_alone wellFormed (.root found beyond laid) occurs nonterminal proper
    comes

/-- In every alternative, what comes next is expected. -/
theorem expects_of_rule {left : Symbol} {alternative : Alternative} {before after : List Symbol}
    (rule : grammar.HasRule left alternative) (split : alternative.symbols = before ++ s :: after)
    (nonterminal : grammar.isNonterminal s = true) (proper : t ≠ .epsilon)
    (comes : t ∈ (FirstSets.compute grammar).ofString after ∨
      (Symbol.epsilon ∈ (FirstSets.compute grammar).ofString after ∧
        Expects source grammar left t)) : Expects source grammar s t := by
  have occurs := FollowSets.mem_occurrences.mpr ⟨before, split⟩
  rcases comes with begins | ⟨nullable, ⟨declared, follows⟩ | ⟨site, sites, own, handed⟩⟩
  -- what begins the rest of the alternative, wherever its symbol comes from
  · have member : ∀ next, t ∈ ((FirstSets.compute grammar).ofString after).followedBy next :=
      fun next => SymbolSet.mem_followedBy.mpr (Or.inl ⟨begins, proper⟩)
    rcases laysOut.exists_site (.computeEbnf source) (.computeEbnf source (.computeEbnf source))
      (Grammar.isNonterminal_of_rule rule) with declared | ⟨site, sites, own⟩
    · exact laysOut.expects_of_declared wellFormed declared rule occurs nonterminal proper
        (member _)
    · exact laysOut.expects_of_own wellFormed sites own rule occurs nonterminal proper (member _)
  · exact laysOut.expects_of_declared wellFormed declared rule occurs nonterminal proper
      (SymbolSet.mem_followedBy.mpr (Or.inr ⟨nullable, follows⟩))
  · exact laysOut.expects_of_own wellFormed sites own rule occurs nonterminal proper
      (SymbolSet.mem_followedBy.mpr (Or.inr ⟨nullable, handed⟩))

theorem followsReached_initial :
    FollowsReached source grammar (FollowSets.initial grammar.nonterminals grammar.start) := by
  refine ⟨rfl, fun u t member => ?_⟩
  obtain ⟨-, rfl, rfl⟩ := FollowSets.mem_members_initial.mp member
  rw [laysOut.start_eq]
  exact Or.inl ⟨wellFormed.start_isNonterminal, wellFormed.eof_mem_follows_start _⟩

/-- A pass over the productions does not go beyond what the sites say. -/
theorem followsReached_pass (before : FollowsReached source grammar follows) :
    FollowsReached source grammar
      (FollowSets.pass grammar (FirstSets.compute grammar) follows).1 := by
  have known : ∀ {follows s}, FollowsReached source grammar follows → s ∈ follows.sets.keys →
      grammar.isNonterminal s = true := by
    intro follows s before listed
    rw [before.keys_eq, FollowSets.mem_keys_initial] at listed
    exact Grammar.isNonterminal_iff.mpr listed
  refine FollowSets.pass_invariant _ before ?_ ?_
  · intro left alternative front s after follows rule split before
    refine ⟨FollowSets.keys_extend.trans before.keys_eq, fun u t member => ?_⟩
    rcases FollowSets.mem_members_extend.mp member with old | ⟨rfl, listed, new, proper⟩
    · exact before.within u t old
    · exact laysOut.expects_of_rule wellFormed rule split (known before listed) proper (Or.inl new)
  · intro left alternative front s after follows rule split nullable before
    refine ⟨FollowSets.keys_extend.trans before.keys_eq, fun u t member => ?_⟩
    rcases FollowSets.mem_members_extend.mp member with old | ⟨rfl, listed, new, proper⟩
    · exact before.within u t old
    · exact laysOut.expects_of_rule wellFormed rule split (known before listed) proper
        (Or.inr ⟨nullable, before.within left t new⟩)

/-- What follows a symbol of the lowered grammar is what the sites say. -/
theorem expects_of_mem_follow
    (follows : t ∈ (FollowSets.compute grammar (FirstSets.compute grammar)).sets.members u) :
    Expects source grammar u t :=
  (saturate_invariant _ _ (laysOut.followsReached_initial wellFormed)
    fun _ before => laysOut.followsReached_pass wellFormed before :
      FollowsReached source grammar (.compute grammar (.compute grammar))).within u t follows

/-! ### The two computations agree -/

/-- The two computations agree on declared nonterminals. -/
theorem get?_follows (nonterminal : source.isNonterminal s = true) :
    (FollowSets.computeEbnf source (.computeEbnf source)).get? s =
      (FollowSets.compute grammar (FirstSets.compute grammar)).get? s := by
  have within := laysOut.followsWithin_compute wellFormed
  have listed : s ∈ (FollowSets.computeEbnf source (.computeEbnf source)).sets.keys := by
    rw [within.keys_eq, FollowSets.mem_keys_initial]
    exact OrderedMap.contains_iff.mp nonterminal
  have known : s ∈ (FollowSets.compute grammar (FirstSets.compute grammar)).sets.keys := by
    rw [(FollowSets.confined_compute (FirstSets.confined_compute grammar)).keys_eq,
      FollowSets.mem_keys_initial]
    exact Grammar.isNonterminal_iff.mp (laysOut.isNonterminal nonterminal)
  rw [FollowSets.get?, FollowSets.get?, OrderedMap.get?_eq_some_members listed,
    OrderedMap.get?_eq_some_members known]
  refine congrArg some (SymbolSet.ext_mem fun t => ⟨within.within s t, fun member => ?_⟩)
  rcases laysOut.expects_of_mem_follow wellFormed member with ⟨-, follows⟩ | ⟨site, sites, own, -⟩
  · exact follows
  -- a declared symbol was not introduced for an expression
  · have beyond := sites.le_of_mem_own own
    exact absurd (wellFormed.nonterminal_named nonterminal).1 (Nat.not_lt.mpr beyond)

end LaysOut

end EbnfGrammar

end Predictive
