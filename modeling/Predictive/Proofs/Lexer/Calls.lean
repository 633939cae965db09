import Predictive.Lexer.Basic
import Predictive.Lexer.Stream
import Predictive.Proofs.Lexer.Pieces
import Predictive.Proofs.Names

/-!
# The calls of a lexer

The calls of a lexer answer with the pieces of a text that become tokens, one after the other. What
is skipped makes no difference to the answers. After the last token the answer is the end of input
if nothing is left of the text, and an error at the place where the scanner is stuck otherwise, and
it remains so for good.

## Main definitions

* `Scanner.ending` — how the input ends where a scanner is stuck
* `Lexer.after`, `Lexer.answer` — any number of calls of a lexer
* `Lexer.Delivers` — what the calls of a lexer make of pieces

## Main results

* `Lexer.delivers_of_cuts` — the calls of a lexer, by the pieces
* `Scanner.scanFrom_of_cuts` — all tokens of a text, by the pieces
* `Lexer.exists_pieces` — what a lexer makes of a text
-/

namespace Predictive

/-- The answer by which a lexer tells how the input ends. -/
def Ending.answer : Ending → Except LexError Token
  | .eof text => .ok ⟨Token.eofName, text⟩
  | .error cause => .error cause

namespace Scanner

variable {scanner : Scanner} {text taken left rest : List Char} {offset stop : Nat}
  {pieces : List Piece} {matched : String}

/-! ### One call -/

theorem next_nil :
    scanner.next ⟨[], offset, matched⟩ = (.ok ⟨Token.eofName, ""⟩, ⟨[], offset, ""⟩) := by
  rw [next]
  rfl

/-- Where no rule takes anything, the lexer stays. -/
theorem next_stuck (stuck : scanner.Stuck text) (nonempty : text ≠ []) :
    scanner.next ⟨text, offset, matched⟩ =
      (.error (.unrecognized offset (String.ofList (text.take snippetSize))),
        ⟨text, offset, matched⟩) := by
  rw [next, dif_neg nonempty]
  split
  · rfl
  · next found => rw [firstMatch?_eq_none_iff.mpr stuck] at found; cases found
  · next found => rw [firstMatch?_eq_none_iff.mpr stuck] at found; cases found

/-- A piece becomes a token. -/
theorem next_token {word : String}
    (applies : scanner.Applies (taken ++ left) (some word) taken.length) :
    scanner.next ⟨taken ++ left, offset, matched⟩ =
      (.ok ⟨word, String.ofList taken⟩,
        ⟨left, offset + Text.byteSize taken, String.ofList taken⟩) := by
  have nonempty : taken ++ left ≠ [] := List.append_ne_nil_of_left_ne_nil applies.ne_nil left
  have found := firstMatch?_eq_some_iff.mpr applies
  rw [next, dif_neg nonempty]
  split
  · next other => rw [found] at other; cases other
  · next other =>
    rw [found] at other
    cases other
    simp [Position.advance]
  · next other => rw [found] at other; cases other

/-- A piece is skipped. -/
theorem next_skip (applies : scanner.Applies (taken ++ left) none taken.length) :
    scanner.next ⟨taken ++ left, offset, matched⟩ =
      scanner.next ⟨left, offset + Text.byteSize taken, matched⟩ := by
  have nonempty : taken ++ left ≠ [] := List.append_ne_nil_of_left_ne_nil applies.ne_nil left
  have found := firstMatch?_eq_some_iff.mpr applies
  rw [next, dif_neg nonempty]
  split
  · next other => rw [found] at other; cases other
  · next other => rw [found] at other; cases other
  · next other =>
    rw [found] at other
    cases other
    simp [Position.advance]

/-! ### All calls -/

/-- How the input ends where a scanner is stuck: with the end of input if nothing is left of the
text, and with an error otherwise. -/
def ending (stop : Nat) (rest : List Char) : Ending :=
  if rest = [] then .eof ""
  else .error (.unrecognized stop (String.ofList (rest.take snippetSize)))

theorem scanFrom_of_error {position place : Position} {error : LexError}
    (read : scanner.next position = (.error error, place)) :
    scanner.scanFrom position = ⟨[], .error error⟩ := by
  rw [scanFrom]
  split
  · next failed =>
    rw [read] at failed
    cases failed
    rfl
  · next found =>
    rw [read] at found
    cases found

theorem scanFrom_of_token {position place : Position} {token : Token}
    (read : scanner.next position = (.ok token, place)) :
    scanner.scanFrom position =
      if token.name = Token.eofName then ⟨[], .eof token.text⟩
      else (scanner.scanFrom place).cons token := by
  rw [scanFrom]
  split
  · next failed =>
    rw [read] at failed
    cases failed
  · next found =>
    rw [read] at found
    cases found
    split
    · rfl
    · rfl

theorem scanFrom_congr {position place : Position}
    (same : scanner.next position = scanner.next place) :
    scanner.scanFrom position = scanner.scanFrom place := by
  obtain ⟨answer, after, read⟩ : ∃ answer after, scanner.next place = (answer, after) :=
    ⟨_, _, rfl⟩
  cases answer with
  | error error => rw [scanFrom_of_error read, scanFrom_of_error (same.trans read)]
  | ok token => rw [scanFrom_of_token read, scanFrom_of_token (same.trans read)]

/-- Reading all tokens gives those of the pieces, if none of them is named like the end of input. -/
theorem scanFrom_of_cuts (cuts : scanner.Cuts offset text pieces stop rest)
    (stuck : scanner.Stuck rest) (unended : ∀ piece ∈ pieces, piece.name ≠ some Token.eofName) :
    scanner.scanFrom ⟨text, offset, matched⟩ =
      ⟨pieces.filterMap Piece.token?, ending stop rest⟩ := by
  induction cuts generalizing matched with
  | here offset text =>
    by_cases ended : text = []
    · subst ended
      rw [scanFrom_of_token next_nil]
      rfl
    · rw [scanFrom_of_error (next_stuck stuck ended), ending, if_neg ended]
      rfl
  | @piece offset stop taken left rest name pieces applies _ ih =>
    rw [List.forall_mem_cons] at unended
    cases name with
    | none => exact (scanFrom_congr (next_skip applies)).trans (ih stuck unended.2)
    | some word =>
      have plain : word ≠ Token.eofName := fun same => unended.1 (congrArg some same)
      rw [scanFrom_of_token (next_token applies), if_neg plain, ih stuck unended.2]
      rfl

end Scanner

namespace Lexer

variable {scanner : Scanner} {lexer other : Lexer} {text rest : List Char} {offset stop n : Nat}
  {pieces : List Piece} {matched : String}

/-- A lexer after a number of calls. -/
def after (lexer : Lexer) : Nat → Lexer
  | 0 => lexer
  | n + 1 => lexer.next.2.after n

/-- The answer of a call after a number of calls. -/
def answer (lexer : Lexer) (n : Nat) : Except LexError Token := (lexer.after n).next.1

/-- What the calls of a lexer make of pieces, where the scanner is stuck behind them. -/
structure Delivers (lexer : Lexer) (scanner : Scanner) (pieces : List Piece) (stop : Nat)
    (rest : List Char) : Prop where
  /-- The answers are the tokens in order. The lexer is then at the end of the piece, and has its
  text as the text of the last token. -/
  token : ∀ n piece, (pieces.filter Piece.isToken)[n]? = some piece →
    ∃ token left, piece.token? = some token ∧ lexer.answer n = .ok token ∧
      lexer.after (n + 1) = .byRules scanner ⟨left, piece.stop, token.text⟩
  /-- Every later answer is the last one. The end of input has no text, and an error leaves the text
  of the last token as it was. -/
  ending : ∀ n, (pieces.filter Piece.isToken).length ≤ n →
    lexer.answer n = (Scanner.ending stop rest).answer ∧
      lexer.after (n + 1) =
        .byRules scanner ⟨rest, stop, if rest = [] then "" else (lexer.after n).matched⟩

theorem after_succ : lexer.after (n + 1) = (lexer.after n).next.2 := by
  induction n generalizing lexer with
  | zero => rfl
  | succ n ih => exact ih

/-- One call where the scanner is stuck. -/
theorem next_of_stuck (stuck : scanner.Stuck rest) :
    (byRules scanner ⟨rest, stop, matched⟩).next =
      ((Scanner.ending stop rest).answer,
        byRules scanner ⟨rest, stop, if rest = [] then "" else matched⟩) := by
  by_cases ended : rest = []
  · subst ended
    rw [next, Scanner.next_nil]
    rfl
  · rw [next, Scanner.next_stuck stuck ended, Scanner.ending, if_neg ended, if_neg ended]
    rfl

/-- Where the scanner is stuck, the lexer stays for good. -/
theorem delivers_nil (stuck : scanner.Stuck rest) :
    (byRules scanner ⟨rest, stop, matched⟩).Delivers scanner [] stop rest := by
  -- the text of the last token may be forgotten, and nothing else changes
  have stays : ∀ n, ∃ last, (byRules scanner ⟨rest, stop, matched⟩).after n =
      byRules scanner ⟨rest, stop, last⟩ := by
    intro n
    induction n with
    | zero => exact ⟨matched, rfl⟩
    | succ n ih =>
      obtain ⟨last, before⟩ := ih
      rw [after_succ, before, next_of_stuck stuck]
      exact ⟨_, rfl⟩
  refine ⟨fun n piece none => by simp at none, fun n _ => ?_⟩
  obtain ⟨last, before⟩ := stays n
  rw [answer, after_succ, before, next_of_stuck stuck]
  exact ⟨rfl, rfl⟩

/-- What is skipped makes no difference. -/
theorem Delivers.skip {piece : Piece} (delivers : other.Delivers scanner pieces stop rest)
    (skipped : piece.isToken = false) (same : lexer.next = other.next)
    (kept : lexer.matched = other.matched) :
    lexer.Delivers scanner (piece :: pieces) stop rest := by
  -- the two lexers differ in their place before the first call only
  have later : ∀ n, lexer.after (n + 1) = other.after (n + 1) := fun n => by
    rw [after, after, same]
  have answers : ∀ n, lexer.answer n = other.answer n := by
    intro n
    cases n with
    | zero => exact congrArg Prod.fst same
    | succ n => rw [answer, answer, later]
  have texts : ∀ n, (lexer.after n).matched = (other.after n).matched := by
    intro n
    cases n with
    | zero => exact kept
    | succ n => rw [later]
  have tokens : (piece :: pieces).filter Piece.isToken = pieces.filter Piece.isToken :=
    List.filter_cons_of_neg (Bool.eq_false_iff.mp skipped)
  constructor
  · intro n found listed
    rw [tokens] at listed
    rw [answers, later]
    exact delivers.token n found listed
  · intro n beyond
    rw [tokens] at beyond
    rw [answers, later, texts]
    exact delivers.ending n beyond

/-- A token comes in front of the others. -/
theorem Delivers.cons {piece : Piece} {token : Token} {left : List Char}
    (delivers : other.Delivers scanner pieces stop rest)
    (becomes : piece.token? = some token) (read : lexer.next = (.ok token, other))
    (place : other = byRules scanner ⟨left, piece.stop, token.text⟩) :
    lexer.Delivers scanner (piece :: pieces) stop rest := by
  have isToken : piece.isToken = true := by
    rw [Piece.token?, Option.map_eq_some_iff] at becomes
    obtain ⟨name, named, -⟩ := becomes
    rw [Piece.isToken, named]
    rfl
  -- the first call takes the token, and the other lexer is left for the later ones
  have later : ∀ n, lexer.after (n + 1) = other.after n := fun n => by rw [after, read]
  have tokens : (piece :: pieces).filter Piece.isToken = piece :: pieces.filter Piece.isToken :=
    List.filter_cons_of_pos isToken
  constructor
  · intro n found listed
    rw [tokens] at listed
    cases n with
    | zero =>
      cases listed
      exact ⟨token, left, becomes, congrArg Prod.fst read, (later 0).trans place⟩
    | succ n =>
      rw [answer, later, later]
      exact delivers.token n found listed
  · intro n beyond
    rw [tokens, List.length_cons] at beyond
    cases n with
    | zero => exact absurd beyond (Nat.not_succ_le_zero _)
    | succ n =>
      rw [answer, later, later]
      exact delivers.ending n (Nat.le_of_succ_le_succ beyond)

/-- The calls of a lexer answer with the pieces that are tokens. -/
theorem delivers_of_cuts (cuts : scanner.Cuts offset text pieces stop rest)
    (stuck : scanner.Stuck rest) :
    (byRules scanner ⟨text, offset, matched⟩).Delivers scanner pieces stop rest := by
  induction cuts generalizing matched with
  | here => exact delivers_nil stuck
  | @piece offset stop taken left rest name pieces applies _ ih =>
    cases name with
    | none =>
      have delivers := @ih matched stuck
      refine delivers.skip rfl ?_ rfl
      rw [next, next, Scanner.next_skip applies]
    | some word =>
      refine (ih stuck).cons rfl ?_ rfl
      rw [next, Scanner.next_token applies]

end Lexer

/-! ### Token streams -/

namespace TokenStream

variable {names : NameTable} {name : String}

/-- No other name has the symbol of the end of input. -/
theorem symbolOf_ne_eof : symbolOf names name ≠ some .eof := by
  intro same
  have unreserved := (Option.filter_eq_some_iff.mp same).2
  exact absurd unreserved (by decide)

/-- A stream ends with the end of input and has it nowhere else, if no token of the input is named
like it. -/
theorem ends_of_ofInput {input : Input} {stream : TokenStream}
    (unended : ∀ token ∈ input.tokens, token.name ≠ Token.eofName)
    (read : ofInput names input = .ok stream) :
    ∃ front text, stream.rest = front ++ [⟨some .eof, Token.eofName, text⟩] ∧
      input.ending = .eof text ∧ stream.position = 0 ∧ front.map StreamToken.token = input.tokens ∧
      ∀ token ∈ front, token.symbol ≠ some .eof ∧ token.token.name ≠ Token.eofName := by
  unfold ofInput at read
  split at read
  · cases read
  · next text ended =>
    cases read
    refine ⟨_, text, rfl, ended, rfl, ?_, fun token listed => ?_⟩
    · rw [List.map_map]
      exact List.map_id _
    · obtain ⟨given, member, rfl⟩ := List.mem_map.mp listed
      exact ⟨symbolOf_ne_eof, unended given member⟩

end TokenStream

/-- What a lexer makes of a text, whatever the searches of its rules find, if no rule has the name
of the end of input. The text is cut into pieces up to a place where the scanner is stuck. No piece
is empty, and between two of them is what the pieces between them have taken. The calls answer with
the pieces that become tokens, and then for good with the end of input if nothing is left of the
text, or else with an error at the place where the scanner is stuck. So the stream of all tokens, if
there is one, ends with the end of input and has it nowhere else. -/
theorem Lexer.exists_pieces (scanner : Scanner) (place : Scanner.Position) (text : String)
    (unended : ∀ rule ∈ scanner.rules, rule.token ≠ some Token.eofName) :
    ∃ pieces stop rest,
      scanner.Cuts 0 text.toList pieces stop rest ∧ scanner.Stuck rest ∧
      text.toList = pieces.flatMap Piece.text ++ rest ∧
      stop = Text.byteSize (pieces.flatMap Piece.text) ∧
      (∀ piece ∈ pieces, piece.start < piece.stop ∧ piece.name ≠ some Token.eofName) ∧
      (∀ before piece between later after,
        pieces = before ++ piece :: (between ++ later :: after) →
          later.start = piece.stop + Text.byteSize (between.flatMap Piece.text)) ∧
      ((byRules scanner place).restart text).Delivers scanner pieces stop rest ∧
      (byRules scanner place).scan text =
        ⟨pieces.filterMap Piece.token?, Scanner.ending stop rest⟩ ∧
      ∀ names stream,
        TokenStream.ofInput names ((byRules scanner place).scan text) = .ok stream →
          rest = [] ∧ ∃ front, stream.rest = front ++ [⟨some .eof, Token.eofName, ""⟩] ∧
            stream.position = 0 ∧
            front.map StreamToken.token = pieces.filterMap Piece.token? ∧
            ∀ token ∈ front, token.symbol ≠ some .eof ∧ token.token.name ≠ Token.eofName := by
  obtain ⟨pieces, stop, rest, cuts, stuck⟩ := scanner.exists_cuts 0 text.toList
  obtain ⟨covers, stops⟩ := cuts.covers
  have plain : ∀ piece ∈ pieces, piece.name ≠ some Token.eofName := by
    intro piece listed
    obtain ⟨rule, member, named⟩ := cuts.exists_rule piece listed
    rw [← named]
    exact unended rule member
  have scans : (byRules scanner place).scan text =
      ⟨pieces.filterMap Piece.token?, Scanner.ending stop rest⟩ :=
    Scanner.scanFrom_of_cuts cuts stuck plain
  refine ⟨pieces, stop, rest, cuts, stuck, covers, by rw [stops, Nat.zero_add],
    fun piece listed => ⟨cuts.start_lt_stop piece listed, plain piece listed⟩, ?_,
    delivers_of_cuts cuts stuck, scans, fun names stream read => ?_⟩
  · rintro before piece between later after rfl
    exact cuts.gap
  · rw [scans] at read
    have others : ∀ token ∈ pieces.filterMap Piece.token?, token.name ≠ Token.eofName := by
      intro token listed
      obtain ⟨piece, member, becomes⟩ := List.mem_filterMap.mp listed
      obtain ⟨name, named, rfl⟩ := Option.map_eq_some_iff.mp becomes
      exact fun same => plain piece member (named.trans (congrArg some same))
    obtain ⟨front, text, rest_eq, ended, position, tokens, apart⟩ :=
      TokenStream.ends_of_ofInput others read
    unfold Scanner.ending at ended
    split at ended
    · next none =>
      cases ended
      exact ⟨none, front, rest_eq, position, tokens, apart⟩
    · cases ended

/-- Rules that skip, a letter of two bytes, and a place where no rule applies. -/
theorem Lexer.exists_pieces_unrecognized :
    ∃ scanner, Scanner.ofText "A [a-b]+\n- é" = .ok scanner ∧
      (∀ rule ∈ scanner.rules, rule.token ≠ some Token.eofName) ∧
      ∃ pieces stop rest, scanner.Cuts 0 "abéa!".toList pieces stop rest ∧
        ((byRules scanner (.front "")).restart "abéa!").Delivers scanner pieces stop rest ∧
        pieces.filterMap Piece.token? = [⟨"A", "ab"⟩, ⟨"A", "a"⟩] ∧
        Scanner.ending stop rest = .error (.unrecognized 5 "!") := by
  have computed : ((Scanner.ofText "A [a-b]+\n- é").toOption.any fun scanner =>
      scanner.rules.all (fun rule => decide (rule.token ≠ some Token.eofName)) &&
        decide (scanner.scan "abéa!" =
          ⟨[⟨"A", "ab"⟩, ⟨"A", "a"⟩], .error (.unrecognized 5 "!")⟩)) = true := by
    decide +kernel
  obtain ⟨scanner, compiled, passes⟩ := (Option.any_eq_true _ _).mp computed
  rw [Bool.and_eq_true, List.all_eq_true, decide_eq_true_eq] at passes
  have unended : ∀ rule ∈ scanner.rules, rule.token ≠ some Token.eofName := fun rule listed =>
    of_decide_eq_true (passes.1 rule listed)
  obtain ⟨pieces, stop, rest, cuts, -, -, -, -, -, delivers, scans, -⟩ :=
    exists_pieces scanner (.front "") "abéa!" unended
  have whole : scanner.scan "abéa!" = ⟨pieces.filterMap Piece.token?, Scanner.ending stop rest⟩ :=
    scans
  obtain ⟨tokens, ended⟩ := Input.mk.inj (whole.symm.trans passes.2)
  exact ⟨scanner, toOption_eq_some_iff.mp compiled, unended, pieces, stop, rest, cuts, delivers,
    tokens, ended⟩

end Predictive
