import Predictive.Lexer.Scanner

/-!
# The pieces of a text

A scanner cuts a text into pieces, from its front on. Each piece is what the first rule takes that
takes anything there, and it becomes a token or is skipped; and where no rule takes anything the
scanner is stuck, be it at the end of the text. Nothing is left out between the pieces, and nothing
is taken twice.

The search of a rule may be any at all: only this is known of it, that a match lies in the text and
does not end before it begins.

## Main definitions

* `Piece` — a part of a text that is skipped or becomes a token
* `Scanner.Applies`, `Scanner.Stuck` — the rule that applies at the front of a text, or none
* `Scanner.Cuts` — the pieces of a text, and what is left of it

## Main results

* `Scanner.exists_cuts` — every text is cut until the scanner is stuck
* `Scanner.Cuts.covers` — the pieces and what is left of the text make up the text
* `Scanner.Cuts.gap` — between two pieces is what the pieces between them have taken
-/

namespace Predictive

/-- A part of a text that a rule has taken. -/
structure Piece where
  /-- The number of bytes before it. -/
  start : Nat
  /-- What the rule has taken. -/
  text : List Char
  /-- The name of the token, or nothing if the piece is skipped. -/
  name : Option String

namespace Piece

/-- The number of bytes before the end of a piece. -/
def stop (piece : Piece) : Nat := piece.start + Text.byteSize piece.text

/-- The token of a piece that is not skipped. -/
def token? (piece : Piece) : Option Token :=
  piece.name.map fun name => ⟨name, String.ofList piece.text⟩

/-- Whether a piece becomes a token. -/
def isToken (piece : Piece) : Bool := piece.name.isSome

end Piece

namespace Text

variable {text rest : List Char}

theorem byteSize_append : byteSize (text ++ rest) = byteSize text + byteSize rest := by
  induction text with
  | nil => simp [byteSize]
  | cons c text ih => rw [List.cons_append, byteSize, byteSize, ih, Nat.add_assoc]

theorem byteSize_pos (nonempty : text ≠ []) : 0 < byteSize text := by
  cases text with
  | nil => exact absurd rfl nonempty
  | cons c rest =>
    rw [byteSize]
    exact Nat.add_pos_left c.utf8Size_pos _

end Text

/-! ### The rule that applies -/

/-- A rule takes a number of characters from the front of a text: those before the end of a match
that is not empty. -/
def ScanRule.Takes (rule : ScanRule) (text : List Char) (n : Nat) : Prop :=
  ∃ first, rule.finder.find? text = some (first, n) ∧ first < n

namespace ScanRule

variable {rule : ScanRule} {text : List Char} {n : Nat}

theorem extent?_eq_some_iff : rule.extent? text = some n ↔ rule.Takes text n := by
  unfold extent? Takes
  cases found : rule.finder.find? text with
  | none => simp
  | some range =>
    obtain ⟨first, last⟩ := range
    dsimp only
    constructor
    · intro taken
      split at taken
      · next inside =>
        cases taken
        exact ⟨first, rfl, inside⟩
      · cases taken
    · rintro ⟨other, same, inside⟩
      cases same
      exact if_pos inside

theorem extent?_eq_none_iff : rule.extent? text = none ↔ ∀ n, ¬ rule.Takes text n := by
  rw [Option.eq_none_iff_forall_not_mem]
  exact forall_congr' fun n => not_congr extent?_eq_some_iff

/-- What a rule takes lies in the text, and is not empty. -/
theorem Takes.bounds (takes : rule.Takes text n) : 0 < n ∧ n ≤ text.length := by
  obtain ⟨first, found, inside⟩ := takes
  exact ⟨Nat.zero_lt_of_lt inside, (rule.finder.find?_le found).2⟩

end ScanRule

namespace Scanner

variable {scanner : Scanner} {text taken left rest : List Char} {name : Option String}
  {n offset stop : Nat} {pieces before after : List Piece} {piece : Piece} {matched : String}

/-- The first rule that takes anything from the front of a text, by the name of its token and the
number of characters. -/
def Applies (scanner : Scanner) (text : List Char) (name : Option String) (n : Nat) : Prop :=
  ∃ earlier rule later, scanner.rules = earlier ++ rule :: later ∧
    (∀ other ∈ earlier, ∀ m, ¬ other.Takes text m) ∧ rule.Takes text n ∧ rule.token = name

/-- No rule takes anything from the front of a text. -/
def Stuck (scanner : Scanner) (text : List Char) : Prop :=
  ∀ rule ∈ scanner.rules, ∀ n, ¬ rule.Takes text n

theorem firstMatch?_eq_some_iff :
    firstMatch? text scanner.rules = some (name, n) ↔ scanner.Applies text name n := by
  unfold Applies
  generalize scanner.rules = rules
  induction rules with
  | nil => simp [firstMatch?]
  | cons rule rules ih =>
    rw [firstMatch?]
    cases extent : rule.extent? text with
    | some m =>
      have takes := ScanRule.extent?_eq_some_iff.mp extent
      constructor
      · intro found
        cases found
        exact ⟨[], rule, rules, rfl, by simp, takes, rfl⟩
      · rintro ⟨earlier, other, later, split, none, takes', named⟩
        cases earlier with
        | nil =>
          cases split
          rw [ScanRule.extent?_eq_some_iff.mpr takes'] at extent
          cases extent
          rw [named]
        | cons first earlier =>
          cases split
          exact absurd takes (none rule List.mem_cons_self m)
    | none =>
      have takes := ScanRule.extent?_eq_none_iff.mp extent
      rw [ih]
      constructor
      · rintro ⟨earlier, other, later, rfl, none, rest⟩
        exact ⟨rule :: earlier, other, later, rfl, List.forall_mem_cons.mpr ⟨takes, none⟩, rest⟩
      · rintro ⟨earlier, other, later, split, none, takes', named⟩
        cases earlier with
        | nil =>
          cases split
          exact absurd takes' (takes n)
        | cons first earlier =>
          cases split
          exact ⟨earlier, other, later, rfl, (List.forall_mem_cons.mp none).2, takes', named⟩

theorem firstMatch?_eq_none_iff :
    firstMatch? text scanner.rules = none ↔ scanner.Stuck text := by
  unfold Stuck
  generalize scanner.rules = rules
  induction rules with
  | nil => simp [firstMatch?]
  | cons rule rules ih =>
    rw [firstMatch?, List.forall_mem_cons, ← ih, ← ScanRule.extent?_eq_none_iff]
    cases rule.extent? text with
    | some m => simp
    | none => simp

theorem Applies.bounds (applies : scanner.Applies text name n) : 0 < n ∧ n ≤ text.length := by
  obtain ⟨-, rule, -, -, -, takes, -⟩ := applies
  exact takes.bounds

theorem Applies.ne_nil (applies : scanner.Applies (taken ++ left) name taken.length) :
    taken ≠ [] := by
  rintro rfl
  exact absurd applies.bounds.1 (Nat.lt_irrefl 0)

/-! ### Cutting a text -/

/-- The pieces of a text behind `offset` bytes, where they stop, and what is left of the text. -/
inductive Cuts (scanner : Scanner) :
    Nat → List Char → List Piece → Nat → List Char → Prop where
  /-- The text is not cut any more. -/
  | here (offset : Nat) (text : List Char) : Cuts scanner offset text [] offset text
  /-- A piece is taken by the rule that applies. -/
  | piece {offset stop : Nat} {taken left rest : List Char} {name : Option String}
      {pieces : List Piece} (applies : scanner.Applies (taken ++ left) name taken.length)
      (others : Cuts scanner (offset + Text.byteSize taken) left pieces stop rest) :
      Cuts scanner offset (taken ++ left) (⟨offset, taken, name⟩ :: pieces) stop rest

/-- Every text is cut until the scanner is stuck. -/
theorem exists_cuts (scanner : Scanner) (offset : Nat) (text : List Char) :
    ∃ pieces stop rest, scanner.Cuts offset text pieces stop rest ∧ scanner.Stuck rest := by
  -- every piece takes something, so that less is left of the text
  induction length : text.length using Nat.strongRecOn generalizing offset text with
  | ind size ih =>
    subst length
    cases found : firstMatch? text scanner.rules with
    | none => exact ⟨[], offset, text, .here offset text, firstMatch?_eq_none_iff.mp found⟩
    | some taken =>
      obtain ⟨name, n⟩ := taken
      have applies := firstMatch?_eq_some_iff.mp found
      obtain ⟨positive, bounded⟩ := applies.bounds
      have shorter : (text.drop n).length < text.length := by
        rw [List.length_drop]
        omega
      obtain ⟨pieces, stop, rest, cuts, stuck⟩ :=
        ih _ shorter (offset + Text.byteSize (text.take n)) (text.drop n) rfl
      have whole : text.take n ++ text.drop n = text := List.take_append_drop n text
      have length : (text.take n).length = n := List.length_take_of_le bounded
      refine ⟨⟨offset, text.take n, name⟩ :: pieces, stop, rest, ?_, stuck⟩
      have front : scanner.Applies (text.take n ++ text.drop n) name (text.take n).length := by
        rw [whole, length]
        exact applies
      have cut := Cuts.piece front cuts
      rwa [whole] at cut

namespace Cuts

/-- Nothing is left out, and nothing is taken twice. -/
theorem covers (cuts : scanner.Cuts offset text pieces stop rest) :
    text = pieces.flatMap Piece.text ++ rest ∧
      stop = offset + Text.byteSize (pieces.flatMap Piece.text) := by
  induction cuts with
  | here => exact ⟨rfl, rfl⟩
  | piece _ _ ih =>
    rw [List.flatMap_cons, List.append_assoc, Text.byteSize_append, ← Nat.add_assoc, ← ih.1]
    exact ⟨rfl, ih.2⟩

/-- No piece is empty. -/
theorem start_lt_stop (cuts : scanner.Cuts offset text pieces stop rest) :
    ∀ piece ∈ pieces, piece.start < piece.stop := by
  induction cuts with
  | here => simp
  | piece applies _ ih =>
    exact List.forall_mem_cons.mpr
      ⟨Nat.lt_add_of_pos_right (Text.byteSize_pos applies.ne_nil), ih⟩

/-- The pieces up to one of them are followed by it. -/
theorem start_eq (cuts : scanner.Cuts offset text (before ++ piece :: after) stop rest) :
    piece.start = offset + Text.byteSize (before.flatMap Piece.text) := by
  induction before generalizing offset text with
  | nil =>
    cases cuts
    rfl
  | cons first before ih =>
    cases cuts with
    | piece _ others =>
      rw [ih others, List.flatMap_cons, Text.byteSize_append, Nat.add_assoc]

/-- Between two pieces is what the pieces between them have taken, and nothing else. -/
theorem gap {between : List Piece} {later : Piece}
    (cuts : scanner.Cuts offset text (before ++ piece :: (between ++ later :: after)) stop rest) :
    later.start = piece.stop + Text.byteSize (between.flatMap Piece.text) := by
  have first := cuts.start_eq
  rw [← List.cons_append, ← List.append_assoc] at cuts
  rw [cuts.start_eq, Piece.stop, first, List.flatMap_append, List.flatMap_cons,
    Text.byteSize_append, Text.byteSize_append]
  omega

/-- A piece has the name of a rule. -/
theorem exists_rule (cuts : scanner.Cuts offset text pieces stop rest) :
    ∀ piece ∈ pieces, ∃ rule ∈ scanner.rules, rule.token = piece.name := by
  induction cuts with
  | here => simp
  | piece applies _ ih =>
    obtain ⟨earlier, rule, later, split, -, -, named⟩ := applies
    exact List.forall_mem_cons.mpr ⟨⟨rule, by rw [split]; simp, named⟩, ih⟩

end Cuts

end Scanner

end Predictive
