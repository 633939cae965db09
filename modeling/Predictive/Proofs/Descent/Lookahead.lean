import Predictive.Proofs.Descent.Spelling
import Predictive.Proofs.Ebnf.First

/-!
# Recursive descent and FIRST sets

Recursive descent tries expressions without looking ahead, and tokens that a part took before it
failed are gone. The FIRST sets tell when this does no harm: an expression takes no token if the
next one does not begin it, whether the expression matches or fails. On the other hand, what an
expression spells begins with a token of its FIRST set, or it is empty and the set has `ε`.

## Main definitions

* `Awaits` — the next token is one of a set
* `EbnfGrammar.Begins` — a word begins with a token of a set, or it is empty and the set has `ε`

## Main results

* `EbnfGrammar.LaysOut.begins_of_spells` — what expressions spell begins as their FIRST sets say
* `EbnfGrammar.LaysOut.awaits_of_spells` — so does what they spell, with something behind it
* `EbnfGrammar.LaysOut.stays` — an expression takes no token that does not begin it
-/

namespace Predictive

/-- The next token is one of a set of terminals. -/
def Awaits (next : SymbolSet) (tokens : List StreamToken) : Prop :=
  ∃ t ∈ next, t ≠ .epsilon ∧ tokens.head?.bind StreamToken.symbol = some t

theorem Awaits.mono {next other : SymbolSet} {tokens : List StreamToken}
    (awaits : Awaits next tokens) (within : ∀ t ∈ next, t ≠ .epsilon → t ∈ other) :
    Awaits other tokens := by
  obtain ⟨t, member, proper, ahead⟩ := awaits
  exact ⟨t, within t member proper, proper, ahead⟩

namespace EbnfGrammar

open FirstSets (computeEbnf)

variable {source : EbnfGrammar} {grammar : Grammar} {expr part body : Expr}
  {parts rest : List Expr} {set other next : SymbolSet} {word first second : List StreamToken}
  {trees forest : List Tree} {size : Nat} {stream : TokenStream} {outcome : Descent}
  {failures : List (Expr × List StreamToken)} {t : Symbol}

/-- A word begins with a token of a set, or it is empty and the set has `ε`. -/
def Begins (set : SymbolSet) (word : List StreamToken) : Prop :=
  (word = [] ∧ Symbol.epsilon ∈ set) ∨ Awaits set word

theorem Begins.mono (begins : Begins set word) (within : ∀ t ∈ set, t ∈ other) :
    Begins other word :=
  begins.imp (And.imp_right (within _)) fun awaits => awaits.mono fun t member _ => within t member

/-- What comes behind a word is next if the word is empty. -/
theorem Begins.awaits (begins : Begins set word) {behind : List StreamToken}
    (awaits : Awaits next behind) : Awaits (set.followedBy next) (word ++ behind) := by
  rcases begins with ⟨rfl, vanishes⟩ | ⟨t, member, proper, ahead⟩
  · exact awaits.mono fun t member _ => SymbolSet.mem_followedBy.mpr (Or.inr ⟨vanishes, member⟩)
  · refine ⟨t, SymbolSet.mem_followedBy.mpr (Or.inl ⟨member, proper⟩), proper, ?_⟩
    cases word with
    | nil => cases ahead
    | cons token word => exact ahead

/-- A word of a chain begins as its first part does, or as the others do if that part is empty. -/
theorem Begins.chain {firsts : FirstSets} (head : Begins (part.first firsts) first)
    (tail : Begins (Expr.firstOfChain firsts .empty rest) second) :
    Begins (Expr.firstOfChain firsts .empty (part :: rest)) (first ++ second) := by
  rcases head with ⟨rfl, vanishes⟩ | ⟨t, member, proper, ahead⟩
  · exact tail.mono fun t member => Expr.mem_firstOfChain_cons.mpr (Or.inr ⟨vanishes, member⟩)
  · refine Or.inr ⟨t, Expr.mem_firstOfChain_cons.mpr (Or.inl ⟨member, proper⟩), proper, ?_⟩
    cases first with
    | nil => cases ahead
    | cons token first => exact ahead

/-- Tokens with symbols that begin with themselves, as terminals do. -/
def Lexed (source : EbnfGrammar) (tokens : List StreamToken) : Prop :=
  ∀ token ∈ tokens, ∀ t, token.symbol = some t →
    t ≠ .epsilon ∧ t ∈ (computeEbnf source).sets.members t

/-- A terminal begins with itself. -/
theorem WellFormed.mem_firsts_self (wellFormed : source.WellFormed)
    (terminal : source.isTerminal t = true) : t ∈ (computeEbnf source).sets.members t := by
  refine FirstSets.mem_members_saturate _ (FirstSets.mem_members_initial.mpr ⟨rfl, ?_, ?_⟩)
  · intro listed
    have nonterminal : source.isNonterminal t = true := OrderedMap.contains_iff.mpr listed
    rw [wellFormed.not_isNonterminal terminal] at nonterminal
    cases nonterminal
  · rcases isTerminal_iff.mp terminal with rfl | member
    · simp
    · exact List.mem_append_left _ member

namespace LaysOut

variable (wellFormed : source.WellFormed) (laysOut : source.LaysOut grammar)

include wellFormed laysOut

/-- What expressions spell begins as their FIRST sets say. -/
theorem begins_of_spells (spells : source.Spells parts trees word) (lexed : source.Lexed word) :
    Begins (Expr.firstOfChain (computeEbnf source) .empty parts) word := by
  induction spells with
  | nil => exact Or.inl ⟨rfl, Expr.mem_firstOfChain_nil.mpr rfl⟩
  | @terminal _ s token _ _ _ same _ ih =>
    rw [Lexed, List.forall_mem_cons] at lexed
    obtain ⟨proper, self⟩ := lexed.1 s same
    have head : Begins ((Expr.terminal s).first (computeEbnf source)) [token] :=
      Or.inr ⟨s, Expr.first_terminal ▸ self, proper, same⟩
    exact head.chain (ih lexed.2)
  | nonterminal _ found _ _ ihInner ih =>
    rw [Lexed, List.forall_mem_append] at lexed
    refine Begins.chain ((ihInner lexed.1).mono fun t member => ?_) (ih lexed.2)
    exact laysOut.mem_first_of_expands wellFormed (.nonterminal found) member
  | inline _ expands _ _ ihInner ih =>
    rw [Lexed, List.forall_mem_append] at lexed
    refine Begins.chain ((ihInner lexed.1).mono fun t member => ?_) (ih lexed.2)
    exact laysOut.mem_first_of_expands wellFormed expands member

/-- After what expressions spell comes what follows them, so that the next token is one that begins
them or, if they can be empty, follows them. -/
theorem awaits_of_spells (spells : source.Spells parts trees word) {behind : List StreamToken}
    (lexed : source.Lexed (word ++ behind)) (awaits : Awaits next behind) :
    Awaits ((Expr.firstOfChain (computeEbnf source) .empty parts).followedBy next)
      (word ++ behind) :=
  (laysOut.begins_of_spells wellFormed spells fun token listed =>
    lexed token (List.mem_append_left _ listed)).awaits awaits

/-- An expression that can match without a token has `ε` in its FIRST set. -/
theorem epsilon_mem_first (spells : source.Spells [expr] trees []) :
    Symbol.epsilon ∈ expr.first (computeEbnf source) := by
  rw [← Expr.firstOfChain_singleton]
  rcases laysOut.begins_of_spells wellFormed spells
    (fun _ listed => absurd listed List.not_mem_nil) with ⟨-, vanishes⟩ | ⟨_, -, -, ahead⟩
  · exact vanishes
  · cases ahead

/-- An expression takes no token if the next one does not begin it. -/
theorem stays (descends : source.Descends expr size stream outcome failures)
    (ahead : stream.peekSymbol? = some t) (proper : t ≠ .epsilon)
    (self : t ∈ (computeEbnf source).sets.members t)
    (absent : t ∉ expr.first (computeEbnf source)) : outcome.stream = stream := by
  induction descends with
  | terminal s size stream =>
    rw [Expr.first_terminal] at absent
    have other : stream.peekSymbol? ≠ some s := by
      rw [ahead]
      rintro ⟨⟩
      exact absent self
    rw [takeTerminal, if_neg other]
    rfl
  | undefined => rfl
  | nonterminal found _ ih =>
    rw [Expr.first_nonterminal] at absent
    exact ih ahead fun begins => absent (laysOut.firsts_closed wellFormed found begins)
  | nonterminalFailed found _ ih =>
    rw [Expr.first_nonterminal] at absent
    exact ih ahead fun begins => absent (laysOut.firsts_closed wellFormed found begins)
  | chainNil => rfl
  | chainCons first _ ihFirst ihLater =>
    rw [Expr.first, Expr.mem_firstOfChain_cons, not_or, not_and, not_and] at absent
    have same := ihFirst ahead fun begins => absent.1 begins proper
    rw [Descent.stream_matched] at same
    subst same
    -- the part matches without a token, so that the token does not begin the others either
    have vanishes := laysOut.epsilon_mem_first wellFormed first.spells_nil
    rw [Descent.stream_after]
    exact ihLater ahead (by rw [Expr.first]; exact absent.2 vanishes)
  | chainFailed _ _ ih =>
    rw [Expr.first, Expr.mem_firstOfChain_cons, not_or, not_and, not_and] at absent
    exact ih ahead fun begins => absent.1 begins proper
  | choiceNil => rfl
  | choiceMatched _ _ ih =>
    rw [Expr.first, Expr.mem_firstOfChoice, not_or] at absent
    exact ih ahead fun begins => absent.2 ⟨_, List.mem_cons_self, begins⟩
  | choiceNext _ _ ihFirst ihLater =>
    rw [Expr.first, Expr.mem_firstOfChoice, not_or] at absent
    have same := ihFirst ahead fun begins => absent.2 ⟨_, List.mem_cons_self, begins⟩
    rw [Descent.stream_failed] at same
    subst same
    refine ihLater ahead ?_
    rw [Expr.first, Expr.mem_firstOfChoice, not_or]
    refine ⟨SymbolSet.not_mem_empty t, ?_⟩
    rintro ⟨part, listed, begins⟩
    exact absent.2 ⟨part, List.mem_cons_of_mem _ listed, begins⟩
  | optionalMatched _ ih =>
    rw [Expr.first, SymbolSet.mem_insert, not_or] at absent
    exact ih ahead absent.1
  | optionalFailed _ ih =>
    rw [Expr.first, SymbolSet.mem_insert, not_or] at absent
    exact ih ahead absent.1
  | manyFailed _ ih =>
    rw [Expr.first, SymbolSet.mem_insert, not_or] at absent
    exact ih ahead absent.1
  | manyIdle _ _ ih =>
    rw [Expr.first, SymbolSet.mem_insert, not_or] at absent
    exact ih ahead absent.1
  | manyAgain _ moved _ ihInner _ =>
    rw [Expr.first, SymbolSet.mem_insert, not_or] at absent
    have same := ihInner ahead absent.1
    rw [Descent.stream_matched] at same
    rw [same] at moved
    exact absurd moved (Nat.lt_irrefl _)
  | oneOrMore _ _ ihInner ihLater =>
    have inner := absent
    rw [Expr.first] at inner
    have same := ihInner ahead inner
    rw [Descent.stream_matched] at same
    subst same
    rw [Descent.stream_after]
    refine ihLater ahead ?_
    rw [Expr.first, SymbolSet.mem_insert, not_or]
    exact ⟨inner, proper⟩
  | oneOrMoreFailed _ ih =>
    rw [Expr.first] at absent
    exact ih ahead absent

end LaysOut

end EbnfGrammar

end Predictive
