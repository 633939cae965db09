import Predictive.Proofs.Source.Position

/-!
# What the reader of grammar texts accepts

A grammar text is read exactly if its tokens are those of items with a different name for each rule.
What is read then has the rules in the order of the text, and each alternative, which is kept as one
text, gives its names back when it is split at white space. Any other text is refused where the
tokens stop being the beginning of such items, on the line on which the token read last starts.

## Main definitions

* `Source.Spells` — a text is made of items
* `Source.FailsAt` — the line of the token that is read last

## Main results

* `Source.readTokens_cases` — the reader succeeds, or stops at a token
* `Source.failsAt_of_read` — where a text is refused
* `Source.read_accepts_items` — the texts that are read, what is read, and where others are refused
-/

namespace Predictive

namespace Source

open SourceToken (Located StartsAfter lineFeeds scan)

variable {source : Source} {progress : Progress} {text : String} {items : List Item} {line : Nat}

/-- The tokens of a text are those of items with a different name for each rule. -/
def Spells (text : String) (items : List Item) : Prop :=
  (scan text).map Located.token = items.flatMap Item.tokens ∧ (ruleNames items).Nodup

/-- The token that is read last of a text that is refused starts on the given line, which is one
more than the line feeds in front of it. The tokens in front of it can begin a grammar text. With it
they cannot, or else nothing follows. -/
def FailsAt (text : String) (line : Nat) : Prop :=
  ∃ (before : List Char) (front : List Located) (last : Located) (back : List Located),
    scan text = front ++ last :: back ∧ StartsAfter 1 text.toList before front last back ∧
      line = 1 + lineFeeds before ∧ IsBegun (front.map Located.token) ∧
      (back = [] ∨ ¬ IsBegun ((front ++ [last]).map Located.token))

/-! ### Where the reader stops -/

theorem close_eq_ok_iff {result : Source} :
    close source progress = .ok result ↔ progress = .between ∧ source = result := by
  cases progress with
  | between => simp [close]
  | afterStart | afterName | inRule => simp [close]

/-- The reader succeeds, or stops at a token: the one that cannot be taken, or the last one. -/
theorem readTokens_cases (source : Source) (progress : Progress) (line : Nat)
    (located : List Located) :
    (∃ result, takeAll (source, progress) (located.map Located.token) = .ok (result, .between) ∧
        readTokens source progress line located = .ok result) ∨
      ∃ failing cause, readTokens source progress line located = .error (.malformed failing cause) ∧
        ((located = [] ∧ progress ≠ .between ∧ failing = line) ∨
          ∃ front last back, located = front ++ last :: back ∧ failing = last.line ∧
            (∃ state, takeAll (source, progress) (front.map Located.token) = .ok state) ∧
            (back = [] ∨ ¬ ∃ state,
              takeAll (source, progress) ((front ++ [last]).map Located.token) = .ok state)) := by
  induction located generalizing source progress line with
  | nil =>
    rw [readTokens]
    cases closed : close source progress with
    | ok result =>
      obtain ⟨rfl, rfl⟩ := close_eq_ok_iff.mp closed
      exact Or.inl ⟨source, rfl, rfl⟩
    | error cause =>
      refine Or.inr ⟨line, cause, rfl, Or.inl ⟨rfl, ?_, rfl⟩⟩
      rintro rfl
      cases closed
  | cons first rest ih =>
    rw [readTokens]
    cases stepped : step source progress first.token with
    -- the token cannot be taken, and none was taken before it
    | error cause =>
      refine Or.inr ⟨first.line, cause, rfl,
        Or.inr ⟨[], first, rest, rfl, rfl, ⟨_, rfl⟩, Or.inr ?_⟩⟩
      rintro ⟨state, taken⟩
      have taken : takeAll (source, progress) [first.token] = .ok state := taken
      rw [takeAll_singleton, stepped] at taken
      cases taken
    | ok state =>
      obtain ⟨next, after⟩ := state
      have further : ∀ tokens, takeAll (source, progress) (first.token :: tokens) =
          takeAll (next, after) tokens := by
        intro tokens
        rw [← List.singleton_append, takeAll_append, takeAll_singleton, stepped]
        rfl
      rcases ih next after first.line with ⟨result, taken, read⟩ | ⟨failing, cause, refused, stops⟩
      · exact Or.inl ⟨result, (further _).trans taken, read⟩
      · refine Or.inr ⟨failing, cause, refused, Or.inr ?_⟩
        -- without tokens behind it this one is the last
        rcases stops with ⟨rfl, -, rfl⟩ | ⟨front, last, back, rfl, at_last, taken, stops⟩
        · exact ⟨[], first, [], rfl, rfl, ⟨_, rfl⟩, Or.inl rfl⟩
        · refine ⟨first :: front, last, back, rfl, at_last, ?_, ?_⟩
          · rw [List.map_cons, further]
            exact taken
          · rw [List.cons_append, List.map_cons, further]
            exact stops

/-- A text is refused where its tokens stop being the beginning of items. -/
theorem failsAt_of_read {error : GrammarError} (refused : read text = .error error) :
    ∃ line cause, error = .malformed line cause ∧ FailsAt text line := by
  rcases readTokens_cases .empty .between 1 (scan text) with
    ⟨result, -, accepted⟩ | ⟨failing, cause, failed, stops⟩
  · cases refused.symm.trans accepted
  · cases refused.symm.trans failed
    refine ⟨failing, cause, rfl, ?_⟩
    rcases stops with ⟨-, elsewhere, -⟩ | ⟨front, last, back, split, rfl, taken, stops⟩
    · exact absurd rfl elsewhere
    · obtain ⟨before, there⟩ := SourceToken.exists_startsAfter split
      rw [takeAll_isOk_iff] at taken stops
      exact ⟨before, front, last, back, split, there, there.line_eq, taken, stops⟩

/-! ### What is read -/

/-- The tokens of a text that is read are those of items, and their rules are what is read. -/
theorem read_eq_ok_iff :
    read text = .ok source ↔ ∃ items, Spells text items ∧ source = ofItems items := by
  constructor
  · intro accepted
    rcases readTokens_cases .empty .between 1 (scan text) with
      ⟨result, taken, same⟩ | ⟨failing, cause, failed, -⟩
    · cases accepted.symm.trans same
      obtain ⟨items, part, split, nodup, described, begins⟩ := takeAll_eq_ok_iff.mp taken
      cases begins
      rw [List.append_nil] at split
      exact ⟨items, ⟨split, nodup⟩, described⟩
    · cases accepted.symm.trans failed
  · rintro ⟨items, ⟨split, nodup⟩, rfl⟩
    refine readTokens_of_takeAll ?_
    rw [split]
    exact takeAll_items nodup

/-- The names of an item are among its tokens. -/
theorem Item.name_mem_tokens {item : Item} {rule : String × List (List String)}
    {names : List String} {name : String} (given : item.rule? = some rule) (listed : names ∈ rule.2)
    (member : name ∈ names) : SourceToken.name name ∈ item.tokens := by
  cases item with
  | start other => cases given
  | rule head alternatives offered =>
    cases given
    have inside : SourceToken.name name ∈ nameTokens names := List.mem_map_of_mem member
    obtain ⟨complete, current, rfl⟩ := (List.eq_nil_or_concat' alternatives).resolve_left offered
    rw [tokens, intercalate_concat]
    rcases List.mem_append.mp listed with earlier | last
    · simp only [List.mem_cons, List.mem_append, List.mem_flatMap]
      exact Or.inr (Or.inr (Or.inl (Or.inl ⟨names, earlier, Or.inl inside⟩)))
    · rw [List.mem_singleton.mp last] at inside
      simp [inside]

/-- What is read has the start symbol that was chosen last and the rules in the order of the text,
with alternatives that can be split into their names. -/
theorem Spells.read_eq (spells : Spells text items) :
    (ofItems items).start = (items.filterMap Item.start?).getLast? ∧
      (ofItems items).rules.entries.map (fun rule => (rule.1, rule.2.map Text.wordsOf)) =
        items.filterMap Item.rule? := by
  obtain ⟨split, nodup⟩ := spells
  obtain ⟨started, entries⟩ := ofItems_eq nodup
  refine ⟨started, ?_⟩
  rw [entries, List.map_map]
  refine (List.map_congr_left fun rule given => ?_).trans (List.map_id _)
  obtain ⟨item, member, given⟩ := List.mem_filterMap.mp given
  -- no name has white space in it, as it was scanned
  have wordlike : ∀ names ∈ rule.2, ∀ name ∈ names, Text.IsWord name := by
    intro names listed name inside
    have token : SourceToken.name name ∈ (scan text).map Located.token := by
      rw [split]
      exact List.mem_flatMap.mpr ⟨item, member, Item.name_mem_tokens given listed inside⟩
    obtain ⟨located, scanned, same⟩ := List.mem_map.mp token
    exact SourceToken.isWord_of_mem_scanFrom scanned same
  have back : rule.2.map (Text.wordsOf ∘ joinNames) = rule.2 :=
    (List.map_congr_left fun names listed => Text.wordsOf_joinNames (wordlike names listed)).trans
      (List.map_id _)
  simp [List.map_map, back]

/-- An item has no token that is unrecognized. -/
theorem Item.ne_unrecognized {item : Item} {word : String} :
    SourceToken.unrecognized word ∉ item.tokens := by
  cases item with
  | start name => simp [tokens]
  | rule name alternatives offered =>
    obtain ⟨complete, current, rfl⟩ := (List.eq_nil_or_concat' alternatives).resolve_left offered
    rw [tokens, intercalate_concat]
    simp [nameTokens]

/-- A text is read exactly if its tokens are those of items with a different name for each rule.
What is read has the rules in order, each with the names of its alternatives, and the start symbol
that was chosen last. Any other text is malformed, and so is every text with something that is no
token; the line is that of the token read last. -/
theorem read_accepts_items (text : String) :
    ((∃ source, read text = .ok source) ↔ ∃ items, Spells text items) ∧
      (∀ items, Spells text items → ∃ source, read text = .ok source ∧
        source.start = (items.filterMap Item.start?).getLast? ∧
        source.rules.entries.map (fun rule => (rule.1, rule.2.map Text.wordsOf)) =
          items.filterMap Item.rule?) ∧
      ((¬ ∃ items, Spells text items) → ∃ line cause, read text = .error (.malformed line cause)) ∧
      ((∃ located ∈ scan text, ∃ word, located.token = .unrecognized word) →
        ∃ line cause, read text = .error (.malformed line cause)) ∧
      ∀ error, read text = .error error →
        ∃ line cause, error = .malformed line cause ∧ FailsAt text line := by
  have accepts : (∃ source, read text = .ok source) ↔ ∃ items, Spells text items := by
    constructor
    · rintro ⟨source, accepted⟩
      obtain ⟨items, spells, -⟩ := read_eq_ok_iff.mp accepted
      exact ⟨items, spells⟩
    · rintro ⟨items, spells⟩
      exact ⟨_, read_eq_ok_iff.mpr ⟨items, spells, rfl⟩⟩
  have refuses : (¬ ∃ items, Spells text items) →
      ∃ line cause, read text = .error (.malformed line cause) := by
    intro unspelled
    cases outcome : read text with
    | ok source => exact absurd (accepts.mp ⟨source, outcome⟩) unspelled
    | error error =>
      obtain ⟨line, cause, rfl, -⟩ := failsAt_of_read outcome
      exact ⟨line, cause, rfl⟩
  refine ⟨accepts, fun items spells => ?_, refuses, ?_,
    fun error refused => failsAt_of_read refused⟩
  · exact ⟨_, read_eq_ok_iff.mpr ⟨items, spells, rfl⟩, spells.read_eq⟩
  · rintro ⟨located, scanned, word, unknown⟩
    refine refuses fun ⟨items, split, _⟩ => ?_
    have token : SourceToken.unrecognized word ∈ items.flatMap Item.tokens := by
      rw [← split, ← unknown]
      exact List.mem_map_of_mem scanned
    obtain ⟨item, -, inside⟩ := List.mem_flatMap.mp token
    exact Item.ne_unrecognized inside

/-- One text is read: a bar in quotes is a name, and no comment is. Another one is refused for its
second rule of one name, where that rule ends, two line feeds after the text begins. -/
theorem read_accepts_items_lines :
    (∃ source, read "A : b | 'c|' d ; // A\n%start A %start B" = .ok source ∧
        source.start = some "B" ∧
        source.rules.entries.map (fun rule => (rule.1, rule.2.map Text.wordsOf)) =
          [("A", [["b"], ["c|", "d"]])]) ∧
      read "A : b ;\nA : c // A\n ; B % C" = .error (.malformed 3 .duplicateRule) ∧
      FailsAt "A : b ;\nA : c // A\n ; B % C" 3 := by
  have spells : Spells "A : b | 'c|' d ; // A\n%start A %start B"
      [.rule "A" [["b"], ["c|", "d"]] (by decide), .start "A", .start "B"] :=
    ⟨by decide +kernel, by decide⟩
  have refused : read "A : b ;\nA : c // A\n ; B % C" = .error (.malformed 3 .duplicateRule) := by
    have found : (match read "A : b ;\nA : c // A\n ; B % C" with
        | .ok _ => none
        | .error error => some error) = some (.malformed 3 .duplicateRule) := by decide +kernel
    split at found
    · cases found
    · next error failed => rw [failed, Option.some.inj found]
  obtain ⟨-, reads, -⟩ := read_accepts_items "A : b | 'c|' d ; // A\n%start A %start B"
  obtain ⟨-, -, -, -, fails⟩ := read_accepts_items "A : b ;\nA : c // A\n ; B % C"
  obtain ⟨line, cause, same, failing⟩ := fails _ refused
  cases same
  exact ⟨reads _ spells, refused, failing⟩

end Source

end Predictive
