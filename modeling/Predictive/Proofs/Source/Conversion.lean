import Predictive.Proofs.Source.Progress

/-!
# Converting named rules

Named rules are converted by declaring names and adding alternatives, and at each of these steps
something may be refused. No name is ever declared as both kinds of symbols, as all rule names come
first and no word that is a rule name is declared as a terminal. So the conversion fails only for
what can be seen in the named rules: the names of the rules, the start symbol, and the number of
rules and alternatives.

## Main definitions

* `Source.IsDefinable` — named rules that define a grammar
* `Source.Flawed` — what can be wrong with named rules
* `Grammar.Conforms` — a grammar that says what the named rules say

## Main results

* `Source.declareHeads_outcome`, `Source.designate_outcome` — the steps that can fail
* `Source.exists_addRules` — adding the alternatives of all rules cannot
* `Grammar.ofSource_iff_definable` — when named rules are converted, and to what
-/

namespace Predictive

/-! ### Named rules -/

namespace Source

/-- The rules, with each alternative cut into words. -/
def rulesByWords (source : Source) : List (String × List (List String)) :=
  source.rules.entries.map fun rule => (rule.1, rule.2.map Text.wordsOf)

/-- The words of all alternatives. -/
def words (source : Source) : List String :=
  source.rulesByWords.flatMap fun rule => rule.2.flatten

/-- The words that stand for terminals where `names` are the names of the rules. The end of input is
not listed. -/
def terminalWords (names words : List String) : List String :=
  words.filter fun word => decide (word ∉ names ∧ word ≠ "EOF")

/-- The names that may have to be declared. -/
def declarable (source : Source) : List String :=
  (source.rules.keys ++ source.words).filter Declarations.isValidName

/-- Named rules that define a grammar. -/
structure IsDefinable (source : Source) : Prop where
  /-- There is a rule. -/
  nonempty : source.rules.entries ≠ []
  /-- The names of rules are words, and not reserved. -/
  names : ∀ name ∈ source.rules.keys, Text.IsWord name ∧ name ≠ "EOF"
  /-- Every rule has an alternative. -/
  offered : ∀ rule ∈ source.rules.entries, rule.2 ≠ []
  /-- The start symbol, if there is one, is the name of a rule. -/
  start : ∀ name ∈ source.start, name ∈ source.rules.keys

/-- What can be wrong with named rules. -/
inductive Flawed (source : Source) : GrammarError → Prop where
  /-- The name of a rule is no word, or reserved. -/
  | invalidName {name : String} (rule : name ∈ source.rules.keys)
      (unfit : ¬ (Text.IsWord name ∧ name ≠ "EOF")) : Flawed source (.invalidName name)
  /-- The start symbol is not the name of a rule. -/
  | unknownStart {name : String} (given : source.start = some name)
      (other : name ∉ source.rules.keys) : Flawed source (.unknownStart name)
  /-- A rule has no alternative. -/
  | noAlternatives {name : String} (rule : (name, []) ∈ source.rules.entries) :
      Flawed source (.noAlternatives name)
  /-- There is no rule. -/
  | noNonterminals (none : source.rules.entries = []) : Flawed source .noNonterminals

theorem Flawed.not_isDefinable {source : Source} {error : GrammarError}
    (flawed : source.Flawed error) : ¬ source.IsDefinable := by
  intro definable
  cases flawed with
  | invalidName rule unfit => exact unfit (definable.names _ rule)
  | unknownStart given other => exact other (definable.start _ given)
  | noAlternatives rule => exact definable.offered _ rule rfl
  | noNonterminals none => exact definable.nonempty none

end Source

namespace NameTable

variable {table next : NameTable} {s : Symbol} {name : String}

/-- The symbols of the names of rules. -/
structure Heads (table : NameTable) (heads : List (String × Symbol)) (names : List String) :
    Prop where
  /-- There is one for each name. -/
  names : heads.map Prod.fst = names
  /-- It has this name. -/
  named : ∀ head ∈ heads, table.name? head.2 = some head.1

theorem Heads.mono {heads : List (String × Symbol)} {names : List String}
    (paired : table.Heads heads names) (grown : table.Extends next) : next.Heads heads names :=
  ⟨paired.names, fun head listed => grown.name?_eq_some (paired.named head listed)⟩

theorem Heads.of_lookup {heads : List (String × Symbol)} {names : List String}
    (paired : table.Heads heads names) (found : heads.lookup name = some s) :
    name ∈ names ∧ table.name? s = some name := by
  obtain ⟨before, after, rfl, -⟩ := List.lookup_eq_some_iff.mp found
  refine ⟨?_, paired.named (name, s) (by simp)⟩
  rw [← paired.names]
  simp

theorem Heads.not_mem_of_lookup {heads : List (String × Symbol)} {names : List String}
    (paired : table.Heads heads names) (absent : heads.lookup name = none) : name ∉ names := by
  rw [← paired.names]
  intro listed
  obtain ⟨head, member, rfl⟩ := List.mem_map.mp listed
  have other := List.lookup_eq_none_iff.mp absent head member
  simp at other

end NameTable

/-! ### The steps of the conversion -/

namespace Source

open Definition (Tells)

variable {definition : Definition} {left : Symbol} {name : String} {start : Option String}
  {heads : List (String × Symbol)} {pool terminals names words texts : List String}
  {rules before after : List (String × List (List String))} {alternatives : List (List String)}

/-- The names of rules are declared, or one of them cannot be a name. -/
theorem declareHeads_outcome (roomy : pool.dedup.length + 2 ≤ NameTable.capacity)
    (tells : definition.Tells pool [] rules start)
    (listed : ∀ name ∈ names, Declarations.isValidName name = true → name ∈ pool)
    (fresh : (rules.map Prod.fst ++ names).Nodup) :
    (∃ heads next, declareHeads names definition = .ok (heads, next) ∧
      (∀ name ∈ names, Declarations.isValidName name = true) ∧
      definition.declared.names.Extends next.declared.names ∧
      next.declared.names.Heads heads names ∧
      next.Tells pool [] (rules ++ names.map fun name => (name, [])) start) ∨
    ∃ name ∈ names, Declarations.isValidName name = false ∧
      declareHeads names definition = .error (.invalidName name) := by
  -- on the names; what was declared for those in front is in the rules so far
  induction names generalizing definition rules with
  | nil =>
    left
    refine ⟨[], definition, rfl, by simp, .refl _, ⟨rfl, by simp⟩, ?_⟩
    simpa using tells
  | cons name names ih =>
    rw [List.forall_mem_cons] at listed
    cases valid : Declarations.isValidName name with
    | false =>
      right
      refine ⟨name, List.mem_cons_self, valid, ?_⟩
      have refused : definition.nonterminal name = .error (.invalidName name) := by
        simp [Definition.nonterminal, Declarations.nonterminal, Declarations.register, valid, bind,
          Except.bind]
      rw [declareHeads, refused]
      rfl
    | true =>
      have new : name ∉ rules.map Prod.fst := fun known =>
        (List.nodup_append.mp fresh).2.2 name known name List.mem_cons_self rfl
      obtain ⟨s, middle, declare, grown, named, tells'⟩ :=
        tells.nonterminal roomy valid (listed.1 valid) new
      have fresh' : ((rules ++ [(name, [])]).map Prod.fst ++ names).Nodup := by simpa using fresh
      rcases ih tells' listed.2 fresh' with
        ⟨heads, next, rest, valids, grown', paired, tells''⟩ | ⟨other, member, invalid, rest⟩
      · left
        refine ⟨(name, s) :: heads, next, ?_, List.forall_mem_cons.mpr ⟨valid, valids⟩,
          grown.trans grown', ⟨by rw [List.map_cons, paired.names], ?_⟩, by simpa using tells''⟩
        · rw [declareHeads, declare]
          simp only [bind, Except.bind, rest]
          rfl
        · exact List.forall_mem_cons.mpr ⟨grown'.name?_eq_some named, paired.named⟩
      · right
        refine ⟨other, List.mem_cons_of_mem _ member, invalid, ?_⟩
        rw [declareHeads, declare]
        simp only [bind, Except.bind, rest]

/-- The start symbol is designated, or it is not the name of a rule. -/
theorem designate_outcome (tells : definition.Tells pool terminals rules none)
    (paired : definition.declared.names.Heads heads (rules.map Prod.fst)) :
    (∃ next, designate start heads definition = .ok next ∧
      (∀ name ∈ start, name ∈ rules.map Prod.fst) ∧
      next.declared.names = definition.declared.names ∧
      next.Tells pool terminals rules start) ∨
    ∃ name, start = some name ∧ name ∉ rules.map Prod.fst ∧
      designate start heads definition = .error (.unknownStart name) := by
  cases start with
  | none => exact Or.inl ⟨definition, rfl, by simp, rfl, tells⟩
  | some name =>
    cases found : heads.lookup name with
    | none =>
      right
      refine ⟨name, rfl, paired.not_mem_of_lookup found, ?_⟩
      simp only [designate, found]
    | some s =>
      left
      obtain ⟨listed, named⟩ := paired.of_lookup found
      obtain ⟨next, taken, same, tells'⟩ := tells.designateStart named listed
      refine ⟨next, ?_, by simpa using listed, same, tells'⟩
      simp only [designate, found]
      exact taken

/-- The symbol of one word: that of the rule of this name, or else a terminal. -/
def resolveWord (heads : List (String × Symbol)) (word : String) (definition : Definition) :
    Except GrammarError (Symbol × Definition) :=
  match heads.lookup word with
  | some s => .ok (s, definition)
  | none => definition.terminal word

theorem resolve_cons (heads : List (String × Symbol)) (word : String) (words : List String)
    (definition : Definition) :
    resolve heads (word :: words) definition =
      resolveWord heads word definition >>= fun first =>
        resolve heads words first.2 >>= fun others => .ok (first.1 :: others.1, others.2) := by
  rw [resolve, resolveWord]
  cases heads.lookup word with
  | some s => rfl
  | none => rfl

theorem terminalWords_append (names words others : List String) :
    terminalWords names (words ++ others) =
      terminalWords names words ++ terminalWords names others :=
  List.filter_append ..

/-- A word is turned into a symbol, and may be new. -/
theorem exists_resolveWord (roomy : pool.dedup.length + 2 ≤ NameTable.capacity)
    (tells : definition.Tells pool terminals rules start)
    (paired : definition.declared.names.Heads heads (rules.map Prod.fst)) {word : String}
    (wordlike : Text.IsWord word)
    (listed : Declarations.isValidName word = true → word ∈ pool) :
    ∃ s next, resolveWord heads word definition = .ok (s, next) ∧
      definition.declared.names.Extends next.declared.names ∧
      next.declared.names.name? s = some word ∧
      next.Tells pool (terminals ++ terminalWords (rules.map Prod.fst) [word]) rules start := by
  cases found : heads.lookup word with
  | some s =>
    obtain ⟨known, named⟩ := paired.of_lookup found
    refine ⟨s, definition, by rw [resolveWord, found], .refl _, named, ?_⟩
    have none : terminalWords (rules.map Prod.fst) [word] = [] :=
      List.filter_eq_nil_iff.mpr fun other listed => by
        rw [List.mem_singleton.mp listed, decide_eq_true_eq]
        exact fun proper => proper.1 known
    rw [none, List.append_nil]
    exact tells
  | none =>
    have other := paired.not_mem_of_lookup found
    obtain ⟨s, next, declare, grown, named, tells'⟩ := tells.terminal roomy wordlike listed other
    refine ⟨s, next, by rw [resolveWord, found]; exact declare, grown, named, ?_⟩
    have same : (Declarations.properName? word).toList =
        terminalWords (rules.map Prod.fst) [word] := by
      rw [Declarations.properName?, terminalWords, List.filter_cons]
      by_cases ended : word = "EOF"
      · rw [if_pos ended, if_neg (by simp [ended])]
        rfl
      · rw [if_neg ended, if_pos (decide_eq_true ⟨other, ended⟩)]
        rfl
    exact same ▸ tells'

/-- Words are turned into symbols. -/
theorem exists_resolve (roomy : pool.dedup.length + 2 ≤ NameTable.capacity)
    (tells : definition.Tells pool terminals rules start)
    (paired : definition.declared.names.Heads heads (rules.map Prod.fst))
    (wordlike : ∀ word ∈ words, Text.IsWord word)
    (listed : ∀ word ∈ words, Declarations.isValidName word = true → word ∈ pool) :
    ∃ symbols next, resolve heads words definition = .ok (symbols, next) ∧
      definition.declared.names.Extends next.declared.names ∧
      next.declared.names.Spells symbols words ∧
      next.Tells pool (terminals ++ terminalWords (rules.map Prod.fst) words) rules start := by
  induction words generalizing definition terminals with
  | nil =>
    refine ⟨[], definition, rfl, .refl _, NameTable.spells_nil _, ?_⟩
    simpa [terminalWords] using tells
  | cons word words ih =>
    rw [List.forall_mem_cons] at wordlike listed
    obtain ⟨s, middle, first, grown, named, tells'⟩ :=
      exists_resolveWord roomy tells paired wordlike.1 listed.1
    obtain ⟨symbols, next, rest, grown', spells, tells''⟩ :=
      ih tells' (paired.mono grown) wordlike.2 listed.2
    refine ⟨s :: symbols, next, ?_, grown.trans grown',
      NameTable.spells_cons.mpr ⟨grown'.name?_eq_some named, spells⟩, ?_⟩
    · rw [resolve_cons]
      exact bind_eq_ok_iff.mpr
        ⟨(s, middle), first, bind_eq_ok_iff.mpr ⟨(symbols, next), rest, rfl⟩⟩
    · rw [List.append_assoc, ← terminalWords_append] at tells''
      exact tells''

/-- The alternatives of a rule are added. -/
theorem exists_addAlternatives (roomy : pool.dedup.length + 2 ≤ NameTable.capacity)
    (tells : definition.Tells pool terminals (before ++ (name, alternatives) :: after) start)
    (paired : definition.declared.names.Heads heads
      ((before ++ (name, alternatives) :: after).map Prod.fst))
    (named : definition.declared.names.name? left = some name)
    (listed : ∀ word ∈ (texts.map Text.wordsOf).flatten,
      Declarations.isValidName word = true → word ∈ pool) :
    ∃ next, addAlternatives heads left texts definition = .ok next ∧
      definition.declared.names.Extends next.declared.names ∧
      next.Tells pool
        (terminals ++ terminalWords ((before ++ (name, alternatives) :: after).map Prod.fst)
          (texts.map Text.wordsOf).flatten)
        (before ++ (name, alternatives ++ texts.map Text.wordsOf) :: after) start := by
  -- on the alternatives; the names of the rules stay the same
  induction texts generalizing definition terminals alternatives with
  | nil =>
    refine ⟨definition, rfl, .refl _, ?_⟩
    simpa [terminalWords] using tells
  | cons text texts ih =>
    rw [List.map_cons, List.flatten_cons, List.forall_mem_append] at listed
    have wordlike : ∀ word ∈ Text.wordsOf text, Text.IsWord word := fun word listed =>
      Text.isWord_of_mem_wordsOf listed
    obtain ⟨symbols, resolved, resolve, grown, spells, tells'⟩ :=
      exists_resolve roomy tells paired wordlike listed.1
    obtain ⟨added, add, same, tells''⟩ :=
      tells'.rule (grown.name?_eq_some named) spells wordlike
    have names : (before ++ (name, alternatives ++ [Text.wordsOf text]) :: after).map Prod.fst =
        (before ++ (name, alternatives) :: after).map Prod.fst := by simp
    have grown' : definition.declared.names.Extends added.declared.names := same ▸ grown
    obtain ⟨next, rest, grown'', told⟩ := ih tells'' (names ▸ paired.mono grown')
      (grown'.name?_eq_some named) listed.2
    refine ⟨next, ?_, grown'.trans grown'', ?_⟩
    · exact bind_eq_ok_iff.mpr
        ⟨(symbols, resolved), resolve, bind_eq_ok_iff.mpr ⟨added, add, rest⟩⟩
    · rw [names, List.append_assoc, ← terminalWords_append, List.append_assoc] at told
      exact told

/-- The alternatives of all rules are added, where those in front have been added. -/
theorem exists_addRules (roomy : pool.dedup.length + 2 ≤ NameTable.capacity)
    {pending : List (String × List String)} {ahead : List (String × Symbol)}
    (tells : definition.Tells pool terminals
      (before ++ pending.map fun rule => (rule.1, [])) start)
    (paired : definition.declared.names.Heads heads (before.map Prod.fst ++ pending.map Prod.fst))
    (aligned : definition.declared.names.Heads ahead (pending.map Prod.fst))
    (listed : ∀ word ∈ pending.flatMap fun rule => (rule.2.map Text.wordsOf).flatten,
      Declarations.isValidName word = true → word ∈ pool) :
    ∃ next, addRules heads (ahead.zip (pending.map Prod.snd)) definition = .ok next ∧
      next.Tells pool
        (terminals ++ terminalWords (before.map Prod.fst ++ pending.map Prod.fst)
          (pending.flatMap fun rule => (rule.2.map Text.wordsOf).flatten))
        (before ++ pending.map fun rule => (rule.1, rule.2.map Text.wordsOf)) start := by
  -- on the rules that are left; each goes from there to the rules in front
  induction pending generalizing definition terminals before ahead with
  | nil =>
    refine ⟨definition, ?_, ?_⟩
    · rw [List.map_nil, List.zip_nil_right]
      rfl
    · simpa [terminalWords] using tells
  | cons rule pending ih =>
    rw [List.flatMap_cons, List.forall_mem_append] at listed
    have filled : ahead ≠ [] := by
      rintro rfl
      exact absurd aligned.names (by simp)
    obtain ⟨⟨name, left⟩, ahead, rfl⟩ := List.exists_cons_of_ne_nil filled
    obtain ⟨rfl, names⟩ : name = rule.1 ∧ ahead.map Prod.fst = pending.map Prod.fst := by
      simpa using aligned.names
    have named := aligned.named _ List.mem_cons_self
    have keys : (before ++ (rule.1, []) :: pending.map fun rule =>
        (rule.1, ([] : List (List String)))).map Prod.fst =
          before.map Prod.fst ++ (rule :: pending).map Prod.fst := by
      simp [Function.comp_def]
    obtain ⟨added, add, grown, tells'⟩ := exists_addAlternatives roomy tells
      (keys ▸ paired) named listed.1
    rw [keys] at tells'
    have told : added.Tells pool
        (terminals ++ terminalWords (before.map Prod.fst ++ (rule :: pending).map Prod.fst)
          (rule.2.map Text.wordsOf).flatten)
        ((before ++ [(rule.1, rule.2.map Text.wordsOf)]) ++
          pending.map fun rule => (rule.1, [])) start := by
      simpa using tells'
    have aligned' : added.declared.names.Heads ahead (pending.map Prod.fst) :=
      ⟨names, fun head listed =>
        grown.name?_eq_some (aligned.named head (List.mem_cons_of_mem _ listed))⟩
    obtain ⟨next, rest, last⟩ := ih told (by simpa using paired.mono grown) aligned' listed.2
    refine ⟨next, bind_eq_ok_iff.mpr ⟨added, add, rest⟩, ?_⟩
    rw [List.flatMap_cons, terminalWords_append, ← List.append_assoc]
    simpa using last

end Source

namespace Grammar

variable {source : Source}

/-- A grammar that says what named rules say. -/
structure Conforms (grammar : Grammar) (source : Source) : Prop where
  /-- The nonterminals are the names of the rules, in order. -/
  nonterminals : grammar.names.Spells grammar.productions.keys source.rules.keys
  /-- The terminals are the other words, each once and in the order of the first use. -/
  terminals : grammar.names.Spells grammar.terminals.items
    (Source.terminalWords source.rules.keys source.words).eraseDups
  /-- The alternatives of each rule are spelled by their words. A symbol is told by its name, so
  that `EOF` is the end of input, and no words at all are `ε`. -/
  productions : List.Forall₂ grammar.names.SpellsRule grammar.productions.entries
    source.rulesByWords
  /-- The start symbol is the one that is given, or else that of the first rule. -/
  start : grammar.names.name? grammar.start = source.start.or source.rules.keys.head?

/-- Named rules are converted to a grammar that says the same, or something is wrong with them. -/
theorem ofSource_outcome
    (roomy : source.declarable.dedup.length + 2 ≤ NameTable.capacity) :
    (∃ grammar, ofSource source = .ok grammar ∧ source.IsDefinable ∧ grammar.Conforms source) ∨
      ∃ error, ofSource source = .error error ∧ source.Flawed error := by
  have listed : ∀ name ∈ source.rules.keys ++ source.words,
      Declarations.isValidName name = true → name ∈ source.declarable :=
    fun name member valid => List.mem_filter.mpr ⟨member, valid⟩
  have keys : (source.rules.entries.map fun rule =>
      (rule.1, ([] : List (List String)))).map Prod.fst = source.rules.keys := by
    rw [List.map_map]
    rfl
  have names : source.rulesByWords.map Prod.fst = source.rules.keys := by
    rw [Source.rulesByWords, List.map_map]
    rfl
  have words : (source.rules.entries.flatMap fun rule => (rule.2.map Text.wordsOf).flatten) =
      source.words := by
    rw [Source.words, Source.rulesByWords, List.flatMap_map]
  -- the names of the rules
  rcases Source.declareHeads_outcome roomy (Definition.tells_empty _)
      (fun name member => listed name (List.mem_append_left _ member)) source.rules.nodup with
    ⟨heads, headed, declare, valid, -, paired, tells⟩ | ⟨name, rule, invalid, declare⟩
  swap
  · refine Or.inr ⟨_, bind_eq_error_iff.mpr (Or.inl declare), .invalidName rule fun fit => ?_⟩
    rw [Declarations.isValidName_iff.mpr fit] at invalid
    cases invalid
  have begun : headed.Tells source.declarable []
      (source.rules.entries.map fun rule => (rule.1, [])) none := by
    simpa [OrderedMap.keys, Function.comp_def] using tells
  -- the start symbol
  rcases Source.designate_outcome begun (keys.symm ▸ paired) with
    ⟨designated, designate, known, same, tells⟩ | ⟨name, given, other, designate⟩
  swap
  · refine Or.inr ⟨_, bind_eq_error_iff.mpr (Or.inr ⟨_, declare,
      bind_eq_error_iff.mpr (Or.inl designate)⟩), .unknownStart given (keys ▸ other)⟩
  -- the alternatives
  have front : designated.Tells source.declarable []
      ([] ++ source.rules.entries.map fun rule => (rule.1, [])) source.start := tells
  obtain ⟨ruled, addRules, tells⟩ := Source.exists_addRules roomy front
    (same ▸ paired) (same ▸ paired) (words ▸ fun word member =>
      listed word (List.mem_append_right _ member))
  have told : ruled.Tells source.declarable
      (Source.terminalWords source.rules.keys source.words) source.rulesByWords source.start := by
    rw [words] at tells
    exact tells
  have steps : ∀ result : Except GrammarError Grammar, ruled.finish = result →
      ofSource source = result := by
    rintro result rfl
    simp only [ofSource, declare, designate, addRules, bind, Except.bind]
  -- the final check
  rcases told.finish_outcome with
    ⟨first, finished, filled, offered, chosen⟩ | ⟨none, finished⟩ | ⟨name, empty, finished⟩
  · left
    have spells := NameTable.spells_of_forall₂ told.rules
    have start := told.lists.nonterminals
    have once : source.rules.keys.eraseDups = source.rules.keys :=
      eraseDups_of_nodup source.rules.nodup
    rw [names] at spells start
    rw [once] at start
    refine ⟨_, steps _ finished, ⟨?_, ?_, ?_, ?_⟩,
      ⟨spells, told.lists.terminals, told.rules, told.start.name?_of_or start chosen⟩⟩
    · exact fun none => filled (List.map_eq_nil_iff.mpr none)
    · exact fun name rule => Declarations.isValidName_iff.mp (valid name rule)
    · intro rule member none
      exact offered _ (List.mem_map_of_mem member) (List.map_eq_nil_iff.mpr none)
    · exact keys ▸ known
  · exact Or.inr ⟨_, steps _ finished, .noNonterminals (List.map_eq_nil_iff.mp none)⟩
  · obtain ⟨⟨_, texts⟩, member, same⟩ := List.mem_map.mp empty
    obtain ⟨rfl, none⟩ := Prod.mk.inj same
    obtain rfl := List.map_eq_nil_iff.mp none
    exact Or.inr ⟨_, steps _ finished, .noAlternatives member⟩

/-- When named rules are converted, and to what. They have to define a grammar, provided that there
is room for their names; otherwise what is wrong with them is reported, and it is never a matter of
the kinds of symbols. The grammar says what the rules say. -/
theorem ofSource_iff_definable (source : Source)
    (roomy : source.declarable.dedup.length + 2 ≤ NameTable.capacity) :
    ((∃ grammar, ofSource source = .ok grammar) ↔ source.IsDefinable) ∧
    (∀ error, ofSource source = .error error → source.Flawed error) ∧
    (∀ name referencedBy, ofSource source ≠ .error (.kindMismatch name) ∧
      ofSource source ≠ .error (.undefinedSymbol name referencedBy) ∧
      ofSource source ≠ .error (.notNonterminal name)) ∧
    ∀ grammar, ofSource source = .ok grammar → grammar.Conforms source := by
  have flawed : ∀ error, ofSource source = .error error → source.Flawed error := by
    intro error failed
    rcases ofSource_outcome roomy with ⟨grammar, defined, -, -⟩ | ⟨other, failed', flawed⟩
    · rw [defined] at failed
      cases failed
    · rw [failed'] at failed
      cases failed
      exact flawed
  refine ⟨?_, flawed, fun name referencedBy => ⟨?_, ?_, ?_⟩, fun grammar defined => ?_⟩
  · rcases ofSource_outcome roomy with ⟨grammar, defined, definable, -⟩ | ⟨error, failed, flawed⟩
    · exact iff_of_true ⟨grammar, defined⟩ definable
    · refine iff_of_false (fun ⟨grammar, defined⟩ => ?_) flawed.not_isDefinable
      rw [failed] at defined
      cases defined
  · exact fun failed => nomatch flawed _ failed
  · exact fun failed => nomatch flawed _ failed
  · exact fun failed => nomatch flawed _ failed
  · rcases ofSource_outcome roomy with ⟨other, same, -, conforms⟩ | ⟨error, failed, -⟩
    · rw [defined] at same
      cases same
      exact conforms
    · rw [failed] at defined
      cases defined

/-- A name that is used in front of its rule is no terminal, and neither is the end of input. An
alternative may be empty. -/
theorem ofSource_iff_definable_later :
    let source : Source := ⟨some "T", (OrderedMap.empty.insert "E" ["T plus E", " "]).insert "T"
      ["x EOF", "x"]⟩
    source.declarable.dedup.length + 2 ≤ NameTable.capacity ∧
      ∃ grammar, ofSource source = .ok grammar ∧
        grammar.names.Spells grammar.productions.keys ["E", "T"] ∧
        grammar.names.Spells grammar.terminals.items ["plus", "x"] ∧
        List.Forall₂ grammar.names.SpellsRule grammar.productions.entries
          [("E", [["T", "plus", "E"], []]), ("T", [["x", "EOF"], ["x"]])] ∧
        grammar.names.name? grammar.start = some "T" := by
  intro source
  have roomy : source.declarable.dedup.length + 2 ≤ NameTable.capacity := by decide +kernel
  have words : source.rulesByWords =
      [("E", [["T", "plus", "E"], []]), ("T", [["x", "EOF"], ["x"]])] := by decide +kernel
  have terminals : (Source.terminalWords source.rules.keys source.words).eraseDups =
      ["plus", "x"] := by decide +kernel
  have valid : ∀ name ∈ source.rules.keys, Declarations.isValidName name = true := by
    decide +kernel
  obtain ⟨accepts, -, -, conforms⟩ := ofSource_iff_definable source roomy
  obtain ⟨grammar, defined⟩ := accepts.mpr ⟨by decide, fun name rule =>
    Declarations.isValidName_iff.mp (valid name rule), by decide, by decide⟩
  have conforming := conforms grammar defined
  exact ⟨roomy, grammar, defined, conforming.nonterminals, terminals ▸ conforming.terminals,
    words ▸ conforming.productions, conforming.start⟩

end Grammar

end Predictive
