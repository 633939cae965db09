import Predictive.Proofs.Source.Items

/-!
# Writing and reading grammar texts

Named rules are written as a text by quoting every name, so that no character of a name is taken for
punctuation, for a comment or for `%start`. A name between quotes has no white space and does not
have the quote itself; apart from that it may be any name. Such a text is read back as the rules
that were written, with the alternatives in place and the empty one among them.

## Main definitions

* `SourceToken.IsQuotable` — the names that can be quoted
* `SourceToken.Written`, `SourceToken.Spaced` — the texts of a token, and of a list of tokens
* `Source.tokens`, `Source.write` — named rules as tokens, and as a text
* `Source.IsPlain` — named rules that can be written

## Main results

* `Text.wordsOf_joinNames` — the names of an alternative are its words
* `SourceToken.map_token_scanFrom` — the tokens of a text are those that were written
* `Source.IsPlain.takeAll_tokens` — the reader finds the rules in their tokens
* `Source.read_write` — rules are read back from every text that is written for them
-/

namespace Predictive

/-! ### Words of an alternative -/

namespace Text

variable {word rest : List Char}

/-- A run of characters that are not blank belongs to one word. -/
theorem splitWords_append (solid : ∀ c ∈ word, isBlank c = false) :
    splitWords (word ++ rest) = (word ++ (splitWords rest).1, (splitWords rest).2) := by
  induction word with
  | nil => rfl
  | cons c word ih =>
    rw [List.forall_mem_cons] at solid
    rw [List.cons_append, splitWords, ih solid.2]
    simp [solid.1]

theorem words_of_solid (solid : ∀ c ∈ word, isBlank c = false) (filled : word ≠ []) :
    words word = [word] := by
  have split := @splitWords_append word [] solid
  rw [List.append_nil] at split
  simp [words, split, splitWords, consWord, filled]

/-- A blank ends a word. -/
theorem words_append_blank {c : Char} (solid : ∀ c ∈ word, isBlank c = false) (filled : word ≠ [])
    (blank : isBlank c = true) : words (word ++ c :: rest) = word :: words rest := by
  have front : splitWords (c :: rest) = ([], words rest) := by
    simp [splitWords, blank, words]
  simp [words, splitWords_append solid, front, consWord, filled]

/-- A text that is one word. -/
structure IsWord (text : String) : Prop where
  /-- There is something in it. -/
  ne_empty : text ≠ ""
  /-- There is no white space in it. -/
  solid : ∀ c ∈ text.toList, isBlank c = false

/-- The names of an alternative are its words. -/
theorem wordsOf_joinNames {names : List String} (wordlike : ∀ name ∈ names, IsWord name) :
    wordsOf (Source.joinNames names) = names := by
  -- a blank stands between two words, and none after the last
  have split : words ([' '].intercalate (names.map String.toList)) = names.map String.toList := by
    induction names with
    | nil => rfl
    | cons name rest ih =>
      rw [List.forall_mem_cons] at wordlike
      obtain ⟨word, others⟩ := wordlike
      have filled : name.toList ≠ [] := by simpa using word.ne_empty
      cases rest with
      | nil => simpa using words_of_solid word.solid filled
      | cons next rest =>
        rw [List.map_cons, List.map_cons, List.intercalate_cons_cons, List.append_assoc]
        have blank : isBlank ' ' = true := by decide
        rw [List.singleton_append, words_append_blank word.solid filled blank]
        exact congrArg _ (ih others)
  have text : (Source.joinNames names).toList = [' '].intercalate (names.map String.toList) := by
    rw [Source.joinNames, String.toList_intercalate]
    rfl
  rw [wordsOf, text, split]
  simp [Function.comp_def]

end Text

/-! ### Tokens of a text -/

namespace SourceToken

variable {token : SourceToken} {tokens : List SourceToken} {word text : List Char} {quote c : Char}

/-- A name that can be quoted. -/
structure IsQuotable (name : String) : Prop where
  /-- It has no white space. -/
  isWord : Text.IsWord name
  /-- One of the quotes is not in it. -/
  free : '\'' ∉ name.toList ∨ '"' ∉ name.toList

/-- Whether a name can be quoted. -/
def canQuote (name : String) : Bool :=
  name != "" && name.toList.all (fun c => !Text.isBlank c) &&
    (!name.toList.contains '\'' || !name.toList.contains '"')

theorem canQuote_iff {name : String} : canQuote name = true ↔ IsQuotable name := by
  simp only [canQuote, Bool.and_eq_true, bne_iff_ne, List.all_eq_true, Bool.not_eq_true',
    Bool.or_eq_true, ← Bool.not_eq_true, List.contains_iff_mem]
  exact ⟨fun ⟨⟨filled, solid⟩, free⟩ => ⟨⟨filled, by simpa using solid⟩, free⟩,
    fun ⟨⟨filled, solid⟩, free⟩ => ⟨⟨filled, by simpa using solid⟩, free⟩⟩

instance (name : String) : Decidable (IsQuotable name) :=
  decidable_of_iff _ canQuote_iff

/-- A token that can be written. -/
def IsWritable : SourceToken → Prop
  | .name text => IsQuotable text
  | .unrecognized _ => False
  | .start => True
  | .colon => True
  | .bar => True
  | .semicolon => True

/-- The texts of a token. A name stands between two quotes that are not in it. -/
inductive Written : SourceToken → List Char → Prop where
  /-- A quoted name. -/
  | name {name : String} {quote : Char} (isQuote : quote = '\'' ∨ quote = '"')
      (free : quote ∉ name.toList) : Written (.name name) (quote :: (name.toList ++ [quote]))
  /-- The word that announces the start symbol. -/
  | start : Written .start ['%', 's', 't', 'a', 'r', 't']
  /-- A colon. -/
  | colon : Written .colon [':']
  /-- A bar. -/
  | bar : Written .bar ['|']
  /-- A semicolon. -/
  | semicolon : Written .semicolon [';']

/-- The texts of a list of tokens, with blanks before, between and after them. -/
inductive Spaced : List SourceToken → List Char → Prop where
  /-- Nothing is left to be written. -/
  | nil : Spaced [] []
  /-- A blank. -/
  | blank {tokens : List SourceToken} {text : List Char} {c : Char}
      (separates : isSeparator c = true) (rest : Spaced tokens text) : Spaced tokens (c :: text)
  /-- The next token. -/
  | token {token : SourceToken} {tokens : List SourceToken} {word text : List Char}
      (written : Written token word) (rest : Spaced tokens text) :
      Spaced (token :: tokens) (word ++ text)

/-- A quoted name is scanned up to the closing quote. -/
theorem scanQuoted_append {name : String} (quotable : IsQuotable name)
    (free : quote ∉ name.toList) :
    scanQuoted quote (name.toList ++ quote :: text) = (.name name, text) := by
  have inner : ∀ c ∈ name.toList, isQuotedChar quote c = true := by
    intro c member
    have other : c ≠ quote := fun same => free (same ▸ member)
    simp [isQuotedChar, other, quotable.isWord.solid c member]
  have stop : isQuotedChar quote quote = false := by simp [isQuotedChar]
  obtain ⟨first, more, split⟩ : ∃ first more, name.toList = first :: more :=
    List.exists_cons_of_ne_nil (by simpa using quotable.isWord.ne_empty)
  have body : (name.toList ++ quote :: text).takeWhile (isQuotedChar quote) = first :: more := by
    rw [List.takeWhile_append_of_pos inner, List.takeWhile_cons_of_neg (by simp [stop]), split,
      List.append_nil]
  have rest : (name.toList ++ quote :: text).dropWhile (isQuotedChar quote) = quote :: text := by
    rw [List.dropWhile_append_of_pos inner, List.dropWhile_cons_of_neg (by simp [stop])]
  have whole : String.ofList (first :: more) = name := by rw [← split, String.ofList_toList]
  simp only [scanQuoted, body, rest, if_true, whole]

/-- What stands at the front of a text and is neither a blank nor a comment is a token. -/
theorem scanFrom_of_scanToken {after : List Char} (line : Nat) (solid : isSeparator c = false)
    (speaks : c ≠ '#' ∧ c ≠ '/') (scanned : scanToken c text = (token, after)) :
    scanFrom line (c :: text) = ⟨line, token⟩ :: scanFrom line after := by
  rw [scanFrom]
  simp [solid, speaks.1, speaks.2, scanned]

/-- A token that was written is the one that is scanned, whatever follows. -/
theorem Written.scanFrom_append (written : Written token word) (writable : token.IsWritable)
    (line : Nat) :
    scanFrom line (word ++ text) = ⟨line, token⟩ :: scanFrom line text := by
  cases written with
  | @name name quote isQuote free =>
    have scanned : scanToken quote (name.toList ++ [quote] ++ text) = (.name name, text) := by
      -- either quote announces a quoted name, whatever the name begins with
      have quoted : scanToken quote (name.toList ++ [quote] ++ text) =
          scanQuoted quote (name.toList ++ [quote] ++ text) := by
        rcases isQuote with rfl | rfl
        · rfl
        · rfl
      rw [quoted, List.append_assoc]
      exact scanQuoted_append writable free
    rcases isQuote with rfl | rfl
    · exact scanFrom_of_scanToken line (by decide) (by decide) scanned
    · exact scanFrom_of_scanToken line (by decide) (by decide) scanned
  | start => exact scanFrom_of_scanToken line (by decide) (by decide) rfl
  | colon => exact scanFrom_of_scanToken line (by decide) (by decide) rfl
  | bar => exact scanFrom_of_scanToken line (by decide) (by decide) rfl
  | semicolon => exact scanFrom_of_scanToken line (by decide) (by decide) rfl

/-- The tokens of a text are those that were written, on whatever lines they stand. -/
theorem map_token_scanFrom (spaced : Spaced tokens text)
    (writable : ∀ token ∈ tokens, token.IsWritable) (line : Nat) :
    (scanFrom line text).map Located.token = tokens := by
  induction spaced generalizing line with
  | nil => simp [scanFrom]
  | blank separates _ ih =>
    rw [scanFrom, if_pos separates]
    exact ih writable _
  | token written _ ih =>
    rw [List.forall_mem_cons] at writable
    rw [written.scanFrom_append writable.1, List.map_cons, ih writable.2]

/-- Write a token, with the quote that is free. -/
def write : SourceToken → List Char
  | .name text =>
    let quote := if '\'' ∈ text.toList then '"' else '\''
    quote :: (text.toList ++ [quote])
  | .start => ['%', 's', 't', 'a', 'r', 't']
  | .colon => [':']
  | .bar => ['|']
  | .semicolon => [';']
  | .unrecognized text => text.toList

theorem written_write (writable : token.IsWritable) : Written token token.write := by
  cases token with
  | name text =>
    by_cases inside : '\'' ∈ text.toList
    · simp only [write, if_pos inside]
      exact .name (Or.inr rfl) (writable.free.resolve_left (not_not_intro inside))
    · simp only [write, if_neg inside]
      exact .name (Or.inl rfl) inside
  | start => exact .start
  | colon => exact .colon
  | bar => exact .bar
  | semicolon => exact .semicolon
  | unrecognized text => exact writable.elim

/-- Tokens can be written one after the other. -/
theorem spaced_write (writable : ∀ token ∈ tokens, token.IsWritable) :
    Spaced tokens (tokens.flatMap fun token => token.write ++ [' ']) := by
  induction tokens with
  | nil => exact .nil
  | cons token tokens ih =>
    rw [List.forall_mem_cons] at writable
    rw [List.flatMap_cons, List.append_assoc]
    exact .token (written_write writable.1) (.blank (by decide) (ih writable.2))

/-- So can lists of tokens with bars between them. -/
theorem isWritable_intercalate {lists : List (List SourceToken)}
    (writable : ∀ list ∈ lists, ∀ token ∈ list, token.IsWritable) :
    ∀ token ∈ [bar].intercalate lists, token.IsWritable := by
  induction lists with
  | nil => exact nofun
  | cons list lists ih =>
    rw [List.forall_mem_cons] at writable
    cases lists with
    | nil => simpa using writable.1
    | cons next lists =>
      rw [List.intercalate_cons_cons, List.forall_mem_append, List.forall_mem_append]
      refine ⟨⟨writable.1, ?_⟩, ih writable.2⟩
      simp [IsWritable]

end SourceToken

/-! ### Rules of a list of tokens -/

namespace Source

open SourceToken (IsQuotable Spaced)

variable {source : Source}

/-- The names of an alternative, as tokens. -/
def nameTokens (text : String) : List SourceToken := (Text.wordsOf text).map .name

/-- A rule: its name, a colon, its alternatives with a bar between any two, and a semicolon. -/
def ruleTokens (rule : String × List String) : List SourceToken :=
  .name rule.1 :: .colon :: ([SourceToken.bar].intercalate (rule.2.map nameTokens) ++ [.semicolon])

/-- The start symbol, if there is one. -/
def startTokens : Option String → List SourceToken
  | none => []
  | some name => [.start, .name name]

/-- Named rules as tokens: the start symbol first, and then the rules in order. -/
def tokens (source : Source) : List SourceToken :=
  startTokens source.start ++ source.rules.entries.flatMap ruleTokens

/-- A text for named rules. -/
def write (source : Source) : String :=
  String.ofList (source.tokens.flatMap fun token => token.write ++ [' '])

/-- Named rules that can be written. -/
structure IsPlain (source : Source) : Prop where
  /-- The start symbol can be quoted. -/
  start : ∀ name ∈ source.start, IsQuotable name
  /-- The names of the rules can be quoted. -/
  heads : ∀ rule ∈ source.rules.entries, IsQuotable rule.1
  /-- No rule is without alternatives. -/
  bodies : ∀ rule ∈ source.rules.entries, rule.2 ≠ []
  /-- An alternative is made of names that can be quoted, with single blanks between them. -/
  alternatives : ∀ rule ∈ source.rules.entries, ∀ text ∈ rule.2,
    ∃ names, (∀ name ∈ names, IsQuotable name) ∧ text = joinNames names

/-- What is read does not depend on the lines, if all goes well. -/
theorem readTokens_of_takeAll {progress : Progress} {line : Nat} {result : Source}
    {located : List SourceToken.Located}
    (taken : takeAll (source, progress) (located.map SourceToken.Located.token) =
      .ok (result, .between)) : readTokens source progress line located = .ok result := by
  induction located generalizing source progress line with
  | nil =>
    cases taken
    rfl
  | cons first rest ih =>
    obtain ⟨⟨next, after⟩, stepped, later⟩ := bind_eq_ok_iff.mp taken
    have stepped : step source progress first.token = .ok (next, after) := stepped
    rw [readTokens, stepped]
    exact ih later

/-- Rules are written as items, one for each. -/
theorem exists_items_of_rules {rules : List (String × List String)}
    (offered : ∀ rule ∈ rules, rule.2 ≠ [])
    (joined : ∀ rule ∈ rules, ∀ text ∈ rule.2, joinNames (Text.wordsOf text) = text) :
    ∃ items : List Item, items.flatMap Item.tokens = rules.flatMap ruleTokens ∧
      items.filterMap Item.start? = [] ∧
      (items.filterMap Item.rule?).map (fun rule => (rule.1, rule.2.map joinNames)) = rules := by
  induction rules with
  | nil => exact ⟨[], rfl, rfl, rfl⟩
  | cons rule rules ih =>
    rw [List.forall_mem_cons] at offered joined
    obtain ⟨items, same, unstarted, read⟩ := ih offered.2 joined.2
    refine ⟨.rule rule.1 (rule.2.map Text.wordsOf) (by simpa using offered.1) :: items, ?_,
      unstarted, ?_⟩
    · rw [List.flatMap_cons, List.flatMap_cons, same, Item.tokens, List.map_map]
      rfl
    · have back : rule.2.map (joinNames ∘ Text.wordsOf) = rule.2 :=
        (List.map_congr_left joined.1).trans (List.map_id _)
      simp only [List.filterMap_cons, Item.rule?, List.map_cons, List.map_map, back, read]

/-- The words of an alternative are its names. -/
theorem IsPlain.joinNames_wordsOf (plain : source.IsPlain) :
    ∀ rule ∈ source.rules.entries, ∀ text ∈ rule.2, joinNames (Text.wordsOf text) = text := by
  intro rule member text listed
  obtain ⟨names, quotable, rfl⟩ := plain.alternatives rule member text listed
  rw [Text.wordsOf_joinNames fun name member => (quotable name member).isWord]

/-- The reader finds the rules in their tokens. -/
theorem IsPlain.takeAll_tokens (plain : source.IsPlain) :
    takeAll (.empty, .between) source.tokens = .ok (source, .between) := by
  obtain ⟨items, same, unstarted, read⟩ :=
    exists_items_of_rules plain.bodies plain.joinNames_wordsOf
  -- the start symbol is an item of its own
  obtain ⟨first, started, chosen, noRule⟩ : ∃ first : List Item,
      first.flatMap Item.tokens = startTokens source.start ∧
        (first.filterMap Item.start?).getLast? = source.start ∧
        first.filterMap Item.rule? = [] := by
    cases source.start with
    | none => exact ⟨[], rfl, rfl, rfl⟩
    | some name => exact ⟨[.start name], rfl, rfl, rfl⟩
  have rules : (first ++ items).filterMap Item.rule? = items.filterMap Item.rule? := by
    rw [List.filterMap_append, noRule, List.nil_append]
  have nodup : (ruleNames (first ++ items)).Nodup := by
    have distinct := source.rules.nodup
    rw [← read, List.map_map] at distinct
    rw [ruleNames, rules]
    exact distinct
  obtain ⟨start, entries⟩ := ofItems_eq nodup
  have described : ofItems (first ++ items) = source := by
    rw [List.filterMap_append, unstarted, List.append_nil, chosen] at start
    rw [rules, read] at entries
    calc ofItems (first ++ items)
      _ = ⟨source.start, (ofItems (first ++ items)).rules⟩ := by rw [← start]
      _ = source := by rw [OrderedMap.ext_entries entries]
  have taken := takeAll_items nodup
  rwa [List.flatMap_append, started, same, described] at taken

/-- The tokens of rules that can be written can be written. -/
theorem IsPlain.isWritable (plain : source.IsPlain) :
    ∀ token ∈ source.tokens, token.IsWritable := by
  rw [tokens, List.forall_mem_append]
  constructor
  · cases chosen : source.start with
    | none => exact nofun
    | some name =>
      have quotable := plain.start name chosen
      simpa [startTokens, SourceToken.IsWritable] using quotable
  · intro token member
    obtain ⟨rule, listed, inside⟩ := List.mem_flatMap.mp member
    have named : ∀ list ∈ rule.2.map nameTokens, ∀ token ∈ list, token.IsWritable := by
      rw [List.forall_mem_map]
      intro text given
      obtain ⟨names, quotable, rfl⟩ := plain.alternatives rule listed text given
      rw [nameTokens, Text.wordsOf_joinNames fun name member => (quotable name member).isWord,
        List.forall_mem_map]
      exact quotable
    have body := SourceToken.isWritable_intercalate named
    have whole : ∀ token ∈ ruleTokens rule, token.IsWritable := by
      rw [ruleTokens, List.forall_mem_cons, List.forall_mem_cons, List.forall_mem_append]
      refine ⟨plain.heads rule listed, trivial, body, ?_⟩
      simp [SourceToken.IsWritable]
    exact whole token inside

/-- Rules are read back from every text that is written for them: each name between quotes that are
not in it, and any blanks between tokens. There is such a text. -/
theorem read_write (plain : source.IsPlain) :
    Spaced source.tokens source.write.toList ∧
      ∀ text : String, Spaced source.tokens text.toList → read text = .ok source := by
  constructor
  · rw [write, String.toList_ofList]
    exact SourceToken.spaced_write plain.isWritable
  · intro text spaced
    have scanned := SourceToken.map_token_scanFrom spaced plain.isWritable 1
    refine readTokens_of_takeAll ?_
    rw [SourceToken.scan, scanned]
    exact plain.takeAll_tokens

/-- The names may be anything that the reader would otherwise heed: punctuation, comments, `%start`
and one of the quotes. -/
theorem read_write_punctuation :
    let source : Source := ⟨some "%start",
      ⟨[("%start", ["'#' : a|b", ""]), ("//\"", ["; %start"])], by decide⟩⟩
    source.IsPlain ∧
      source.write =
        "%start '%start' '%start' : \"'#'\" ':' 'a|b' | ; '//\"' : ';' '%start' ; " ∧
      read source.write = .ok source := by
  intro source
  have plain : source.IsPlain := by
    refine ⟨by decide +kernel, by decide +kernel, by decide, ?_⟩
    simp only [source, List.forall_mem_cons]
    refine ⟨⟨⟨["'#'", ":", "a|b"], by decide +kernel, by decide +kernel⟩,
      ⟨[], by simp, by decide +kernel⟩, nofun⟩,
      ⟨⟨[";", "%start"], by decide +kernel, by decide +kernel⟩, nofun⟩, nofun⟩
  obtain ⟨spaced, reads⟩ := read_write plain
  exact ⟨plain, by decide +kernel, reads _ spaced⟩

end Source

end Predictive
