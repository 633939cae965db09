import Mathlib.Data.List.Induction
import Predictive.Grammar.Source.Reader
import Predictive.Proofs.Names
import Predictive.Proofs.OrderedMap

/-!
# The items of a grammar text

The tokens of a grammar text are those of its items, one after the other: `%start NAME`, or
`NAME : NAMES | ... | NAMES ;` with one alternative at least, which may be empty. The reader takes a
token at a time and keeps what it has read of an item. It gets on as long as the tokens are those of
complete items, with a different name for each rule, and the beginning of one more.

## Main definitions

* `Source.Item` — an item and its tokens
* `Source.ofItems` — the named rules that items describe
* `Source.takeAll` — what the reader makes of tokens
* `Source.Begins` — the tokens of the part of an item that the reader is in
* `Source.IsBegun` — complete items, and the beginning of one more

## Main results

* `Source.step_cases` — a token goes on with an item, or completes it
* `Source.takeAll_eq_ok_iff` — how far the reader gets
* `Source.takeAll_isOk_iff` — the tokens on which it gets on
-/

namespace Predictive

namespace Source

/-! ### Items -/

/-- An item of a grammar text. -/
inductive Item where
  /-- The start symbol is chosen. -/
  | start (name : String)
  /-- A rule is given, with one alternative at least. -/
  | rule (name : String) (alternatives : List (List String)) (offered : alternatives ≠ [])

namespace Item

/-- The names of an alternative, as tokens. -/
def nameTokens (names : List String) : List SourceToken := names.map .name

/-- The tokens of an item: a bar stands between any two alternatives. -/
def tokens : Item → List SourceToken
  | .start name => [.start, .name name]
  | .rule name alternatives _ =>
    .name name :: .colon ::
      ([SourceToken.bar].intercalate (alternatives.map nameTokens) ++ [.semicolon])

/-- The start symbol that an item chooses. -/
def start? : Item → Option String
  | .start name => some name
  | .rule _ _ _ => none

/-- The rule that an item gives: its name, and the names of each alternative. -/
def rule? : Item → Option (String × List (List String))
  | .start _ => none
  | .rule name alternatives _ => some (name, alternatives)

/-- What an item adds to named rules. A start symbol takes the place of an earlier one. -/
def addTo (source : Source) : Item → Source
  | .start name => { source with start := some name }
  | .rule name alternatives _ =>
    { source with rules := source.rules.insert name (alternatives.map joinNames) }

/-- An item that gives no rule under a name that has one. -/
def IsNew (source : Source) (item : Item) : Prop :=
  ∀ rule ∈ item.rule?, source.rules.contains rule.1 = false

end Item

/-- The names of the rules that items give. -/
def ruleNames (items : List Item) : List String := (items.filterMap Item.rule?).map Prod.fst

/-- The named rules that items describe. -/
def ofItems (items : List Item) : Source := items.foldl Item.addTo .empty

variable {source next : Source} {progress after : Progress} {token : SourceToken}
  {tokens rest : List SourceToken} {items : List Item} {item : Item} {name : String}

theorem ofItems_concat (items : List Item) (item : Item) :
    ofItems (items ++ [item]) = item.addTo (ofItems items) := by
  rw [ofItems, List.foldl_append]
  rfl

theorem ruleNames_concat (items : List Item) (item : Item) :
    ruleNames (items ++ [item]) = ruleNames items ++ (item.rule?.map Prod.fst).toList := by
  cases item with
  | start name => simp [ruleNames, Item.rule?]
  | rule name alternatives offered => simp [ruleNames, Item.rule?]

theorem mem_keys_ofItems :
    name ∈ (ofItems items).rules.keys ↔ name ∈ ruleNames items := by
  induction items using List.reverseRecOn with
  | nil => simp [ofItems, ruleNames, Source.empty, OrderedMap.empty, OrderedMap.keys]
  | append_singleton items item ih =>
    rw [ofItems_concat, ruleNames_concat, List.mem_append, ← ih]
    cases item with
    | start other => simp [Item.addTo, Item.rule?]
    | rule other alternatives offered =>
      rw [Item.addTo, OrderedMap.mem_keys_insert]
      simp [Item.rule?, or_comm]

/-- An item is new to the items before it if no rule among them has its name. -/
theorem nodup_ruleNames_concat_iff :
    (ruleNames (items ++ [item])).Nodup ↔
      (ruleNames items).Nodup ∧ item.IsNew (ofItems items) := by
  rw [ruleNames_concat]
  cases item with
  | start other => simp [Item.rule?, Item.IsNew]
  | rule other alternatives offered =>
    have fresh : (ofItems items).rules.contains other = false ↔ other ∉ ruleNames items := by
      rw [← Bool.not_eq_true, OrderedMap.contains_iff, mem_keys_ofItems]
    simp only [Item.rule?, Option.map_some, Option.toList_some, Item.IsNew, Option.mem_def,
      Option.some.injEq, forall_eq', fresh]
    rw [List.nodup_append]
    simp only [List.nodup_singleton, List.mem_singleton, forall_eq, true_and]
    exact and_congr_right fun _ =>
      ⟨fun apart member => apart other member rfl, fun absent first member same =>
        absent (same ▸ member)⟩

/-- Items with different names describe their rules in order, and the start symbol chosen last. -/
theorem ofItems_eq (nodup : (ruleNames items).Nodup) :
    (ofItems items).start = (items.filterMap Item.start?).getLast? ∧
      (ofItems items).rules.entries =
        (items.filterMap Item.rule?).map fun rule => (rule.1, rule.2.map joinNames) := by
  induction items using List.reverseRecOn with
  | nil => exact ⟨rfl, rfl⟩
  | append_singleton items item ih =>
    obtain ⟨before, fresh⟩ := nodup_ruleNames_concat_iff.mp nodup
    obtain ⟨started, entries⟩ := ih before
    rw [ofItems_concat, List.filterMap_append, List.filterMap_append, List.map_append, ← entries]
    cases item with
    | start other => exact ⟨by simp [Item.addTo, Item.start?], (List.append_nil _).symm⟩
    -- a new name is put behind the others
    | rule other alternatives offered =>
      have absent : other ∉ (ofItems items).rules.keys := by
        rw [← OrderedMap.contains_iff, Bool.not_eq_true]
        exact fresh _ rfl
      exact ⟨started.trans (congrArg _ (List.append_nil _).symm),
        OrderedMap.entries_insert_of_not_mem absent⟩

/-! ### Taking tokens -/

/-- Take the tokens of a list. -/
def takeAll (state : Source × Progress) (tokens : List SourceToken) :
    Except SourceError (Source × Progress) :=
  tokens.foldlM (fun state token => step state.1 state.2 token) state

theorem takeAll_append (state : Source × Progress) (first rest : List SourceToken) :
    takeAll state (first ++ rest) = takeAll state first >>= (takeAll · rest) :=
  List.foldlM_append

theorem takeAll_singleton (state : Source × Progress) (token : SourceToken) :
    takeAll state [token] = step state.1 state.2 token := by
  rw [takeAll, List.foldlM_cons]
  cases step state.1 state.2 token with
  | error cause => rfl
  | ok next => rfl

/-- The tokens of the part of an item that the reader is in. -/
inductive Begins : Progress → List SourceToken → Prop where
  /-- Nothing was read of the next item. -/
  | between : Begins .between []
  /-- The name of the start symbol comes next. -/
  | afterStart : Begins .afterStart [.start]
  /-- The colon of a rule comes next. -/
  | afterName (name : String) : Begins (.afterName name) [.name name]
  /-- Some alternatives of a rule are complete, and some names of one more were read. -/
  | inRule (name : String) (complete : List (List String)) (current : List String) :
      Begins (.inRule name (complete.map joinNames) current)
        (.name name :: .colon ::
          (complete.flatMap (fun names => Item.nameTokens names ++ [.bar]) ++
            Item.nameTokens current))

theorem intercalate_concat (complete : List (List String)) (current : List String) :
    [SourceToken.bar].intercalate ((complete ++ [current]).map Item.nameTokens) =
      complete.flatMap (fun names => Item.nameTokens names ++ [.bar]) ++
        Item.nameTokens current := by
  induction complete with
  | nil => simp
  | cons names complete ih =>
    obtain ⟨first, others, split⟩ : ∃ first others, complete ++ [current] = first :: others :=
      List.exists_cons_of_ne_nil (by simp)
    rw [List.cons_append, split, List.map_cons, List.map_cons, List.intercalate_cons_cons,
      ← List.map_cons, ← split, ih, List.flatMap_cons]
    simp only [List.append_assoc]

/-- Names are collected. -/
theorem takeAll_names (complete current names : List String) :
    takeAll (source, .inRule name complete current) (Item.nameTokens names) =
      .ok (source, .inRule name complete (current ++ names)) := by
  induction names generalizing current with
  | nil =>
    rw [List.append_nil]
    rfl
  | cons word names ih =>
    have stepped : takeAll (source, .inRule name complete current)
        (Item.nameTokens (word :: names)) =
          takeAll (source, .inRule name complete (current ++ [word])) (Item.nameTokens names) := rfl
    rw [stepped, ih, List.append_assoc]
    rfl

/-- Alternatives are collected, each with the bar behind it. -/
theorem takeAll_alternatives (complete : List String) (alternatives : List (List String)) :
    takeAll (source, .inRule name complete [])
        (alternatives.flatMap fun names => Item.nameTokens names ++ [.bar]) =
      .ok (source, .inRule name (complete ++ alternatives.map joinNames) []) := by
  induction alternatives generalizing complete with
  | nil =>
    rw [List.map_nil, List.append_nil]
    rfl
  | cons names alternatives ih =>
    have barred : takeAll (source, .inRule name complete names) [SourceToken.bar] =
        .ok (source, .inRule name (complete ++ [joinNames names]) []) := rfl
    rw [List.flatMap_cons, takeAll_append, takeAll_append, takeAll_names, List.nil_append]
    dsimp only [bind, Except.bind]
    rw [barred]
    dsimp only
    rw [ih, List.append_assoc]
    rfl

/-- The tokens of a part of an item bring the reader into that part. -/
theorem Begins.takeAll_eq (begins : Begins progress tokens) :
    takeAll (source, .between) tokens = .ok (source, progress) := by
  cases begins with
  | between => rfl
  | afterStart => rfl
  | afterName name => rfl
  | inRule name complete current =>
    have headed : takeAll (source, .between) [.name name, .colon] =
        .ok (source, .inRule name [] []) := rfl
    rw [show ∀ rest, SourceToken.name name :: .colon :: rest = [.name name, .colon] ++ rest from
      fun _ => rfl, takeAll_append, headed]
    dsimp only [bind, Except.bind]
    rw [takeAll_append, takeAll_alternatives]
    dsimp only [bind, Except.bind]
    rw [takeAll_names, List.nil_append, List.nil_append]

/-- What a token does: it goes on with the item, and nothing is added yet, or it completes an item
that is new. -/
theorem step_cases (begins : Begins progress tokens)
    (stepped : step source progress token = .ok (next, after)) :
    (next = source ∧ Begins after (tokens ++ [token])) ∨
      ∃ item : Item, item.tokens = tokens ++ [token] ∧ after = .between ∧
        next = item.addTo source ∧ item.IsNew source := by
  cases begins with
  | between =>
    cases token with
    | start => cases stepped; exact Or.inl ⟨rfl, .afterStart⟩
    | name name => cases stepped; exact Or.inl ⟨rfl, .afterName name⟩
    | colon | bar | semicolon | unrecognized => cases stepped
  | afterStart =>
    cases token with
    | name name => cases stepped; exact Or.inr ⟨.start name, rfl, rfl, rfl, nofun⟩
    | start | colon | bar | semicolon | unrecognized => cases stepped
  | afterName name =>
    cases token with
    | colon =>
      cases stepped
      exact Or.inl ⟨rfl, .inRule name [] []⟩
    | start | name | bar | semicolon | unrecognized => cases stepped
  | inRule name complete current =>
    cases token with
    | name word =>
      cases stepped
      refine Or.inl ⟨rfl, ?_⟩
      have grown := Begins.inRule name complete (current ++ [word])
      rw [Item.nameTokens, List.map_append] at grown
      simpa [Item.nameTokens] using grown
    | bar =>
      cases stepped
      refine Or.inl ⟨rfl, ?_⟩
      have grown := Begins.inRule name (complete ++ [current]) []
      rw [List.map_append, List.flatMap_append] at grown
      simpa [Item.nameTokens] using grown
    | semicolon =>
      rw [step] at stepped
      split at stepped
      · cases stepped
      · next fresh =>
        cases stepped
        refine Or.inr ⟨.rule name (complete ++ [current]) (by simp), ?_, rfl, ?_, ?_⟩
        · rw [Item.tokens, intercalate_concat]
          rfl
        · rw [Item.addTo, List.map_append]
          rfl
        · rintro _ ⟨⟩
          simpa using fresh
    | start | colon | unrecognized => cases stepped

/-- A part of an item can be completed. -/
theorem Begins.exists_item (begins : Begins progress tokens) :
    ∃ (item : Item) (back : List SourceToken), item.tokens = tokens ++ back ∧ back ≠ [] := by
  cases begins with
  | between => exact ⟨.start "", _, rfl, by simp⟩
  | afterStart => exact ⟨.start "", [.name ""], rfl, by simp⟩
  | afterName name => exact ⟨.rule name [[]] (by simp), [.colon, .semicolon], rfl, by simp⟩
  | inRule name complete current =>
    refine ⟨.rule name (complete ++ [current]) (by simp), [.semicolon], ?_, by simp⟩
    rw [Item.tokens, intercalate_concat]
    rfl

/-- The last token of an item completes it, if it is new. -/
theorem Item.exists_last (item : Item) :
    ∃ progress front last, item.tokens = front ++ [last] ∧ Begins progress front ∧
      ∀ {source}, item.IsNew source →
        step source progress last = .ok (item.addTo source, .between) := by
  cases item with
  | start name => exact ⟨_, _, .name name, rfl, .afterStart, fun _ => rfl⟩
  | rule name alternatives offered =>
    obtain ⟨complete, current, rfl⟩ := (List.eq_nil_or_concat' alternatives).resolve_left offered
    refine ⟨_, _, .semicolon, ?_, .inRule name complete current, fun {source} fresh => ?_⟩
    · rw [Item.tokens, intercalate_concat]
      rfl
    · have fresh : source.rules.contains name = false := fresh _ rfl
      rw [step, fresh, if_neg Bool.false_ne_true, Item.addTo, List.map_append]
      rfl

/-- The reader gets through a new item. -/
theorem Item.takeAll_eq (fresh : item.IsNew source) :
    takeAll (source, .between) item.tokens = .ok (item.addTo source, .between) := by
  obtain ⟨progress, front, last, split, begins, ends⟩ := item.exists_last
  rw [split, takeAll_append, begins.takeAll_eq]
  dsimp only [bind, Except.bind]
  rw [takeAll_singleton, ends fresh]

theorem takeAll_items (nodup : (ruleNames items).Nodup) :
    takeAll (.empty, .between) (items.flatMap Item.tokens) = .ok (ofItems items, .between) := by
  induction items using List.reverseRecOn with
  | nil => rfl
  | append_singleton items item ih =>
    obtain ⟨before, fresh⟩ := nodup_ruleNames_concat_iff.mp nodup
    rw [List.flatMap_append, List.flatMap_singleton, takeAll_append, ih before]
    dsimp only [bind, Except.bind]
    rw [Item.takeAll_eq fresh, ofItems_concat]

/-- How far the reader gets: it has the rules of the complete items, which have different names, and
is in the part of an item that follows them. -/
theorem takeAll_eq_ok_iff :
    takeAll (.empty, .between) tokens = .ok (source, progress) ↔
      ∃ (items : List Item) (part : List SourceToken), tokens = items.flatMap Item.tokens ++ part ∧
        (ruleNames items).Nodup ∧ source = ofItems items ∧ Begins progress part := by
  constructor
  -- from the last token back: it goes on with the part that is there, or completes it
  · intro taken
    induction tokens using List.reverseRecOn generalizing source progress with
    | nil =>
      cases taken
      exact ⟨[], [], rfl, .nil, rfl, .between⟩
    | append_singleton tokens token ih =>
      rw [takeAll_append] at taken
      obtain ⟨⟨earlier, reached⟩, front, last⟩ := bind_eq_ok_iff.mp taken
      obtain ⟨items, part, rfl, nodup, rfl, begins⟩ := ih front
      rw [takeAll_singleton] at last
      rcases step_cases begins last with ⟨rfl, grown⟩ | ⟨item, whole, rfl, rfl, fresh⟩
      · exact ⟨items, part ++ [token], List.append_assoc _ _ _, nodup, rfl, grown⟩
      · refine ⟨items ++ [item], [], ?_, nodup_ruleNames_concat_iff.mpr ⟨nodup, fresh⟩,
          (ofItems_concat items item).symm, .between⟩
        rw [List.flatMap_append, List.flatMap_singleton, whole, List.append_nil, List.append_assoc]
  · rintro ⟨items, part, rfl, nodup, rfl, begins⟩
    rw [takeAll_append, takeAll_items nodup]
    exact begins.takeAll_eq

/-- Complete items with a different name for each rule, and then a part of an item, which may be
empty but is not all of it. -/
def IsBegun (tokens : List SourceToken) : Prop :=
  ∃ (items : List Item) (item : Item) (front back : List SourceToken),
    tokens = items.flatMap Item.tokens ++ front ∧ (ruleNames items).Nodup ∧
      item.tokens = front ++ back ∧ back ≠ []

/-- The reader gets on as long as the tokens are those of items with a different name for each rule,
and the beginning of one more. -/
theorem takeAll_isOk_iff :
    (∃ state, takeAll (.empty, .between) tokens = .ok state) ↔ IsBegun tokens := by
  constructor
  · rintro ⟨⟨source, progress⟩, taken⟩
    obtain ⟨items, part, rfl, nodup, -, begins⟩ := takeAll_eq_ok_iff.mp taken
    obtain ⟨item, back, whole, unfinished⟩ := begins.exists_item
    exact ⟨items, item, part, back, rfl, nodup, whole, unfinished⟩
  · rintro ⟨items, item, front, back, rfl, nodup, whole, unfinished⟩
    -- what is there of the item comes before its last token
    obtain ⟨progress, part, last, split, begins, -⟩ := item.exists_last
    obtain ⟨others, final, rfl⟩ := (List.eq_nil_or_concat' back).resolve_left unfinished
    rw [whole, ← List.append_assoc] at split
    obtain ⟨rfl, -⟩ := List.append_inj' split rfl
    have taken : takeAll (ofItems items, .between) (front ++ others) =
        .ok (ofItems items, progress) := begins.takeAll_eq
    rw [takeAll_append] at taken
    obtain ⟨state, reached, -⟩ := bind_eq_ok_iff.mp taken
    refine ⟨state, ?_⟩
    rw [takeAll_append, takeAll_items nodup]
    exact reached

end Source

end Predictive
