import Mathlib.Data.List.TakeWhile
import Predictive.Proofs.RoundTrip

/-!
# Where the tokens of a text start

The scanner counts the line feeds that it passes. That each token is given the line on which it
starts takes two facts: a token has no line feed in it, and a token ends where it ends whatever
comes next, so that the tokens in front of a place are those of the text in front of it.

## Main definitions

* `SourceToken.IsFront` — what a scanner takes of a text, if it takes no notice of the rest
* `SourceToken.StartsAfter` — the place of a token in a text

## Main results

* `SourceToken.exists_isFront` — a token is a front of the text in which it is scanned
* `SourceToken.isWord_of_mem_scanFrom` — names are words
* `SourceToken.exists_startsAfter` — every token has its place, and its line counts the line feeds
  in front of it
-/

namespace Predictive

namespace SourceToken

variable {quote c : Char} {text shorter : List Char} {line : Nat} {located : Located}
  {front back : List Located} {p : Char → Bool}

/-! ### One token -/

/-- The run at the front of a text is the same if the text ends earlier behind it. -/
theorem takeWhile_append_of_cut (cut : shorter <+: text.dropWhile p) :
    (text.takeWhile p ++ shorter).takeWhile p = text.takeWhile p ∧
      (text.takeWhile p ++ shorter).dropWhile p = shorter := by
  have inside : ∀ d ∈ text.takeWhile p, p d = true := fun d member => List.mem_takeWhile_imp member
  rw [List.takeWhile_append_of_pos inside, List.dropWhile_append_of_pos inside]
  cases shorter with
  | nil => simp
  | cons d rest =>
    obtain ⟨others, split⟩ := cut
    have stops : p d = false := by
      have first := List.head?_dropWhile_not p text
      rw [← split] at first
      simpa using first
    simp [stops]

theorem not_mem_takeWhile (other : p c = false) : c ∉ text.takeWhile p := fun member =>
  Bool.false_ne_true (other.symm.trans (List.mem_takeWhile_imp member))

theorem isQuotedChar_lineFeed (quote : Char) : isQuotedChar quote '\n' = false := by
  have blank : Text.isBlank '\n' = true := by decide
  simp [isQuotedChar, blank]

theorem isNameChar_lineFeed : isNameChar '\n' = false := by decide

/-- What a scanner takes of a text: a front without a line feed, which it would also take if the
text ended earlier behind it. -/
structure IsFront (scan : List Char → SourceToken × List Char) (text word : List Char) : Prop where
  /-- The characters that are taken come first. -/
  split : text = word ++ (scan text).2
  /-- None of them is a line feed. -/
  solid : '\n' ∉ word
  /-- The token ends there whatever comes next. -/
  again : ∀ {shorter}, shorter <+: (scan text).2 → scan (word ++ shorter) = ((scan text).1, shorter)

/-- A name in quotes: there is something between the quotes, and the second one is there. -/
theorem scanQuoted_of_closed {first : Char} {more rest : List Char}
    (body : text.takeWhile (isQuotedChar quote) = first :: more)
    (behind : text.dropWhile (isQuotedChar quote) = quote :: rest) :
    scanQuoted quote text = (.name (String.ofList (first :: more)), rest) := by
  simp only [scanQuoted, body, behind, if_true]

/-- No name in quotes: there is nothing between them, or the second one is missing. -/
theorem scanQuoted_of_open
    (opened : text.takeWhile (isQuotedChar quote) = [] ∨
      (text.dropWhile (isQuotedChar quote)).head? ≠ some quote) :
    scanQuoted quote text =
      (.unrecognized (String.ofList (quote :: text.takeWhile (isQuotedChar quote))),
        text.dropWhile (isQuotedChar quote)) := by
  cases body : text.takeWhile (isQuotedChar quote) with
  | nil => simp only [scanQuoted, body]
  | cons first more =>
    cases behind : text.dropWhile (isQuotedChar quote) with
    | nil => simp only [scanQuoted, body, behind]
    | cons d rest =>
      have other : d ≠ quote := by simpa [body, behind] using opened
      simp only [scanQuoted, body, behind, if_neg other]

theorem isFront_of_closed {first : Char} {more rest : List Char} (proper : quote ≠ '\n')
    (body : text.takeWhile (isQuotedChar quote) = first :: more)
    (behind : text.dropWhile (isQuotedChar quote) = quote :: rest) :
    IsFront (scanQuoted quote) text (first :: more ++ [quote]) := by
  have split := @List.takeWhile_append_dropWhile _ (isQuotedChar quote) text
  have absent : '\n' ∉ text.takeWhile (isQuotedChar quote) :=
    not_mem_takeWhile (isQuotedChar_lineFeed quote)
  have scanned := scanQuoted_of_closed body behind
  refine ⟨?_, by simpa [body, proper.symm] using absent, fun {shorter} cut => ?_⟩
  · rw [scanned, List.append_assoc, List.singleton_append, ← behind, ← body, split]
  · rw [scanned] at cut ⊢
    have within : quote :: shorter <+: text.dropWhile (isQuotedChar quote) := by
      rw [behind]
      exact List.cons_prefix_cons.mpr ⟨rfl, cut⟩
    obtain ⟨front, back⟩ := takeWhile_append_of_cut within
    rw [body] at front back
    rw [List.append_assoc, List.singleton_append]
    exact scanQuoted_of_closed front back

theorem isFront_of_open
    (opened : text.takeWhile (isQuotedChar quote) = [] ∨
      (text.dropWhile (isQuotedChar quote)).head? ≠ some quote) :
    IsFront (scanQuoted quote) text (text.takeWhile (isQuotedChar quote)) := by
  have scanned := scanQuoted_of_open opened
  refine ⟨?_, not_mem_takeWhile (isQuotedChar_lineFeed quote), fun {shorter} cut => ?_⟩
  · rw [scanned, List.takeWhile_append_dropWhile]
  · rw [scanned] at cut ⊢
    obtain ⟨front, back⟩ := takeWhile_append_of_cut cut
    -- what is left of the rest begins with the character that is no quote, or there is nothing
    have still : text.takeWhile (isQuotedChar quote) = [] ∨ shorter.head? ≠ some quote := by
      refine opened.imp_right fun other closed => other ?_
      obtain ⟨beyond, same⟩ := cut
      dsimp only at same
      rw [← same, List.head?_append, closed]
      rfl
    rw [scanQuoted_of_open (by rwa [front, back]), front, back]

theorem exists_isFront_scanQuoted (proper : quote ≠ '\n') (text : List Char) :
    ∃ word, IsFront (scanQuoted quote) text word := by
  by_cases opened : text.takeWhile (isQuotedChar quote) = [] ∨
      (text.dropWhile (isQuotedChar quote)).head? ≠ some quote
  · exact ⟨_, isFront_of_open opened⟩
  · rw [not_or, not_not] at opened
    obtain ⟨first, more, body⟩ := List.exists_cons_of_ne_nil opened.1
    obtain ⟨rest, behind⟩ := List.head?_eq_some_iff.mp opened.2
    exact ⟨_, isFront_of_closed proper body behind⟩

/-- A percent sign is a token alone, unless the keyword follows. -/
theorem exists_isFront_percent (text : List Char) : ∃ word, IsFront (scanToken '%') text word := by
  by_cases announced : ['s', 't', 'a', 'r', 't'] <+: text
  · obtain ⟨rest, rfl⟩ := announced
    exact ⟨['s', 't', 'a', 'r', 't'], rfl, by decide, fun _ => rfl⟩
  · have unknown : ∀ {shorter}, shorter <+: text →
        scanToken '%' shorter = (.unrecognized (String.singleton '%'), shorter) := by
      intro shorter cut
      have other : ¬ ['s', 't', 'a', 'r', 't'] <+: shorter := fun found =>
        announced (found.trans cut)
      simp [scanToken, other, isNameChar]
    have scanned := unknown List.prefix_rfl
    refine ⟨[], by rw [scanned]; rfl, List.not_mem_nil, fun {shorter} cut => ?_⟩
    rw [scanned] at cut ⊢
    exact unknown cut

/-- A character that is no mark begins a name, or it is no token. -/
theorem exists_isFront_plain
    (plain : ∀ text, scanToken c text =
      if isNameChar c then
        (.name (String.ofList (c :: text.takeWhile isNameChar)), text.dropWhile isNameChar)
      else (.unrecognized (String.singleton c), text))
    (text : List Char) : ∃ word, IsFront (scanToken c) text word := by
  by_cases named : isNameChar c = true
  · refine ⟨text.takeWhile isNameChar, ?_, not_mem_takeWhile isNameChar_lineFeed,
      fun {shorter} cut => ?_⟩
    · rw [plain, if_pos named, List.takeWhile_append_dropWhile]
    · rw [plain, if_pos named] at cut
      obtain ⟨front, back⟩ := takeWhile_append_of_cut cut
      rw [plain, plain, if_pos named, if_pos named, front, back]
  · refine ⟨[], ?_, List.not_mem_nil, fun {shorter} _ => ?_⟩
    · rw [plain, if_neg named, List.nil_append]
    · rw [plain, plain, if_neg named, if_neg named, List.nil_append]

/-- A token is a front of the text in which it is scanned. -/
theorem exists_isFront (solid : isSeparator c = false) (text : List Char) :
    ∃ word, IsFront (scanToken c) text word := by
  by_cases colon : c = ':'
  · subst colon
    exact ⟨[], rfl, List.not_mem_nil, fun _ => rfl⟩
  by_cases bar : c = '|'
  · subst bar
    exact ⟨[], rfl, List.not_mem_nil, fun _ => rfl⟩
  by_cases semicolon : c = ';'
  · subst semicolon
    exact ⟨[], rfl, List.not_mem_nil, fun _ => rfl⟩
  by_cases quoted : c = '\'' ∨ c = '"'
  · have same : scanToken c = scanQuoted c := by
      funext text
      rcases quoted with rfl | rfl
      · rfl
      · rfl
    have proper : c ≠ '\n' := by
      rintro rfl
      cases solid
    rw [same]
    exact exists_isFront_scanQuoted proper text
  rw [not_or] at quoted
  by_cases percent : c = '%'
  · subst percent
    exact exists_isFront_percent text
  · exact exists_isFront_plain
      (by simp [scanToken, colon, bar, semicolon, quoted.1, quoted.2, percent]) text

/-- The name of a token is a word. -/
theorem isWord_of_scanToken {name : String} (named : (scanToken c text).1 = .name name) :
    Text.IsWord name := by
  have quoted : ∀ quote, (scanQuoted quote text).1 = .name name → Text.IsWord name := by
    intro quote found
    unfold scanQuoted at found
    dsimp only at found
    split at found
    · next first more d rest body behind =>
      split at found
      · cases found
        refine ⟨by simp [body], fun d member => ?_⟩
        rw [String.toList_ofList] at member
        have inside : isQuotedChar quote d = true := List.mem_takeWhile_imp member
        simp only [isQuotedChar, Bool.not_eq_true', Bool.or_eq_false_iff] at inside
        exact inside.2
      · cases found
    · cases found
  unfold scanToken at named
  split at named
  · cases named
  split at named
  · cases named
  split at named
  · cases named
  split at named
  · exact quoted c named
  split at named
  · cases named
  split at named
  · next plain =>
    cases named
    refine ⟨by simp, fun d member => ?_⟩
    rw [String.toList_ofList, List.mem_cons] at member
    have inside : isNameChar d = true := by
      rcases member with rfl | later
      · exact plain
      · exact List.mem_takeWhile_imp later
    simp only [isNameChar, Bool.not_eq_true', Bool.or_eq_false_iff] at inside
    exact inside.1.1.1.1.1.1.1.1
  · cases named

/-! ### Places -/

/-- Something that is neither a blank nor the beginning of a comment. -/
def Speaks (c : Char) (rest : List Char) : Prop :=
  isSeparator c = false ∧ ¬ (c = '#' ∨ c = '/' ∧ rest.head? = some '/')

/-- A token starts after a part of a text: the tokens in front of it are those of that part, and the
tokens behind it are those of the text behind it. -/
structure StartsAfter (line : Nat) (text before : List Char) (front : List Located)
    (located : Located) (back : List Located) : Prop where
  /-- The tokens in front of it. -/
  front_eq : scanFrom line before = front
  /-- The token is what comes next in the text. -/
  place : ∃ c rest, text = before ++ c :: rest ∧ Speaks c rest ∧
    (scanToken c rest).1 = located.token ∧ scanFrom located.line (scanToken c rest).2 = back
  /-- The lines that come before it end in that part. -/
  line_eq : located.line = line + lineFeeds before

theorem lineFeeds_eq_zero (absent : '\n' ∉ text) : lineFeeds text = 0 :=
  List.count_eq_zero_of_not_mem absent

theorem lineFeeds_append : lineFeeds (text ++ shorter) = lineFeeds text + lineFeeds shorter :=
  List.count_append

theorem lineFeeds_cons (proper : c ≠ '\n') : lineFeeds (c :: text) = lineFeeds text :=
  List.count_cons_of_ne proper

namespace StartsAfter

variable {before rest : List Char}

/-- A blank in front of a text. -/
theorem cons_separator (separates : isSeparator c = true)
    (there : StartsAfter (if c = '\n' then line + 1 else line) rest before front located back) :
    StartsAfter line (c :: rest) (c :: before) front located back := by
  obtain ⟨d, others, rfl, token⟩ := there.place
  refine ⟨?_, ⟨d, others, rfl, token⟩, ?_⟩
  · rw [scanFrom, if_pos separates]
    exact there.front_eq
  · rw [there.line_eq]
    by_cases feeds : c = '\n'
    · subst feeds
      rw [if_pos rfl, lineFeeds, lineFeeds, List.count_cons_self]
      omega
    · rw [if_neg feeds, lineFeeds_cons feeds]

/-- A comment in front of a text. It is cut off where its line ends, also if nothing of the next
line is there. -/
theorem append_comment (solid : ¬ isSeparator c = true)
    (comment : (decide (c = '#') || decide (c = '/') && decide (rest.head? = some '/')) = true)
    (there : StartsAfter line (rest.dropWhile (· != '\n')) before front located back) :
    StartsAfter line (c :: rest) (c :: (rest.takeWhile (· != '\n') ++ before)) front located
      back := by
  obtain ⟨d, others, behind, token⟩ := there.place
  obtain ⟨-, again⟩ := takeWhile_append_of_cut ⟨d :: others, behind.symm⟩
  have comment' : (decide (c = '#') || decide (c = '/') &&
      decide ((rest.takeWhile (· != '\n') ++ before).head? = some '/')) = true := by
    cases rest with
    | nil =>
      have hash : c = '#' := by simpa using comment
      simp [hash]
    | cons e more =>
      simp only [Bool.or_eq_true, Bool.and_eq_true, decide_eq_true_eq, List.head?_cons,
        Option.some.injEq] at comment ⊢
      refine comment.imp_right fun ⟨slash, again⟩ => ⟨slash, ?_⟩
      simp [again]
  refine ⟨?_, ⟨d, others, ?_, token⟩, ?_⟩
  · rw [scanFrom, if_neg solid, if_pos comment', again]
    exact there.front_eq
  · rw [List.cons_append, List.append_assoc, ← behind, List.takeWhile_append_dropWhile]
  · have proper : c ≠ '\n' := by
      rintro rfl
      exact solid rfl
    rw [there.line_eq, lineFeeds_cons proper, lineFeeds_append,
      lineFeeds_eq_zero (not_mem_takeWhile (by decide)), Nat.zero_add]

/-- A token in front of a text. It ends where it ends, whatever is there of the text. -/
theorem append_token {word : List Char} (speaks : Speaks c rest)
    (isFront : IsFront (scanToken c) rest word)
    (there : StartsAfter line (scanToken c rest).2 before front located back) :
    StartsAfter line (c :: rest) (c :: (word ++ before)) (⟨line, (scanToken c rest).1⟩ :: front)
      located back := by
  obtain ⟨solid, silent⟩ := speaks
  obtain ⟨d, more, behind, token⟩ := there.place
  have whole : rest = word ++ before ++ d :: more := by
    rw [List.append_assoc, ← behind]
    exact isFront.split
  -- no comment begins there, as none begins in the whole text
  have silent' : ¬ (decide (c = '#') || decide (c = '/') &&
      decide ((word ++ before).head? = some '/')) = true := by
    simp only [Bool.or_eq_true, Bool.and_eq_true, decide_eq_true_eq]
    rintro (hash | ⟨slash, again⟩)
    · exact silent (Or.inl hash)
    · refine silent (Or.inr ⟨slash, ?_⟩)
      rw [whole, List.head?_append, again]
      rfl
  refine ⟨?_, ⟨d, more, ?_, token⟩, ?_⟩
  · rw [scanFrom, if_neg (by simp [solid]), if_neg silent',
      isFront.again ⟨d :: more, behind.symm⟩, there.front_eq]
  · rw [whole, List.cons_append]
  · have proper : c ≠ '\n' := by
      rintro rfl
      cases solid
    rw [there.line_eq, lineFeeds_cons proper, lineFeeds_append, lineFeeds_eq_zero isFront.solid,
      Nat.zero_add]

end StartsAfter

/-- Every token has its place. -/
theorem exists_startsAfter (split : scanFrom line text = front ++ located :: back) :
    ∃ before, StartsAfter line text before front located back := by
  fun_induction scanFrom line text generalizing front with
  | case1 line => simp at split
  | case2 line c rest separates ih =>
    obtain ⟨before, there⟩ := ih split
    exact ⟨_, there.cons_separator separates⟩
  | case3 line c rest solid comment shorter ih =>
    obtain ⟨before, there⟩ := ih split
    exact ⟨_, there.append_comment solid comment⟩
  | case4 line c rest solid silent shorter ih =>
    have speaks : Speaks c rest := ⟨by simpa using solid, by simpa using silent⟩
    cases front with
    | nil =>
      obtain ⟨rfl, rfl⟩ := List.cons.inj split
      exact ⟨[], by rw [scanFrom], ⟨c, rest, rfl, speaks, rfl, rfl⟩, rfl⟩
    | cons first others =>
      obtain ⟨rfl, later⟩ := List.cons.inj split
      obtain ⟨before, there⟩ := ih later
      obtain ⟨word, isFront⟩ := exists_isFront speaks.1 rest
      exact ⟨_, there.append_token speaks isFront⟩

/-- The names in a text are words. -/
theorem isWord_of_mem_scanFrom {name : String} (member : located ∈ scanFrom line text)
    (named : located.token = .name name) : Text.IsWord name := by
  obtain ⟨front, back, split⟩ := List.append_of_mem member
  obtain ⟨before, there⟩ := exists_startsAfter split
  obtain ⟨c, rest, -, -, same, -⟩ := there.place
  exact isWord_of_scanToken (same.trans named)

end SourceToken

end Predictive
