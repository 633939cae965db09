import Mathlib.Data.List.Infix
import Predictive.Proofs.Ebnf.Site

/-!
# Names spell places

The names that lowering introduces are spelled out of words and numerals: each step from an
expression to a part adds the word of the kind of the expression, and the position of the part if
there are several. Such a name can be read back. No word begins another one, no word goes on where
one has begun, and a numeral ends where a word begins; so a name that is cut in front of a word is
cut between two steps, and what comes before is the path to an inner expression. It follows that the
names of one expression are all different, and that the names of two expressions which are named
after different stems meet only if one stem leads to a place inside the other expression.

## Main definitions

* `Kind`, `Expr.kind?` — the kinds of expressions for which names are introduced
* `Expr.HasPart`, `Expr.StandsAt` — the parts of an expression and the paths to what is inside
* `Kind.Leads` — a text that begins with the word of a kind

## Main results

* `Kind.cut_word`, `cut_numeral` — where a name can be cut
* `Expr.mem_syntheticNames_iff` — the names of an expression are its own and those of its parts
* `Expr.exists_standsAt` — a name that is cut in front of a word
* `Expr.nodup_syntheticNames` — the names of one expression are all different
* `Expr.meet_iff` — when the names of two expressions meet
-/

namespace Predictive

/-! ### Cutting texts -/

/-- Of two ways to cut a text, the second one cuts at the same place or later, or it cuts off less
than the first one. -/
theorem append_eq_append_cases {x y u v : String} (same : x ++ y = u ++ v) :
    (∃ w, u = x ++ w ∧ y = w ++ v) ∨ ∃ w, w ≠ "" ∧ x = u ++ w ∧ v = w ++ y := by
  have letters := congrArg String.toList same
  rw [String.toList_append, String.toList_append, List.append_eq_append_iff] at letters
  rcases letters with ⟨w, first, second⟩ | ⟨w, first, second⟩
  · refine Or.inl ⟨String.ofList w, String.toList_inj.mp ?_, String.toList_inj.mp ?_⟩
    · simpa using first
    · simpa using second
  by_cases empty : w = []
  -- both cut at the same place
  · subst empty
    refine Or.inl ⟨"", String.toList_inj.mp ?_, String.toList_inj.mp ?_⟩
    · simpa using first.symm
    · simpa using second.symm
  · refine Or.inr ⟨String.ofList w, ?_, String.toList_inj.mp ?_, String.toList_inj.mp ?_⟩
    · simpa [← String.toList_inj] using empty
    · simpa using first
    · simpa using second

theorem toList_ne_nil {text : String} (nonempty : text ≠ "") : text.toList ≠ [] := fun none =>
  nonempty (String.toList_inj.mp (none.trans String.toList_empty.symm))

/-- The kinds of expressions for which names are introduced. -/
inductive Kind where
  /-- A chain. -/
  | chain
  /-- A choice. -/
  | choice
  /-- An expression or nothing. -/
  | optional
  /-- Any number of rounds. -/
  | zeroOrMore
  /-- One round or more. -/
  | oneOrMore
  deriving DecidableEq

namespace Kind

variable {kind other : Kind} {x y z u : String}

/-- The word by which names tell the kind. -/
def word : Kind → String
  | chain => "Chain"
  | choice => "Choice"
  | optional => "Optional"
  | zeroOrMore => "ZeroOrMore"
  | oneOrMore => "OneOrMore"

/-- The endings of the names that are introduced for an expression itself. -/
def endings : Kind → List String
  | oneOrMore => [word oneOrMore, word oneOrMore ++ "Opt"]
  | kind => [kind.word]

/-- A text that begins with the word of a kind. -/
def Leads (kind : Kind) (text : String) : Prop := ∃ rest, text = kind.word ++ rest

/-- No word begins another one. -/
theorem eq_of_isPrefix (begins : kind.word.toList <+: other.word.toList) : kind = other := by
  revert begins
  cases kind <;> cases other <;> decide

/-- No word goes on inside another one, nor one inside it. -/
theorem not_overlap (kind other : Kind) :
    ∀ tail ∈ kind.word.toList.tail.tails, tail ≠ [] →
      ¬ tail <+: other.word.toList ∧ ¬ other.word.toList <+: tail := by
  cases kind <;> cases other <;> decide

theorem five_le_length_word (kind : Kind) : 5 ≤ kind.word.length := by
  cases kind <;> decide

theorem head?_word (kind : Kind) :
    ∃ letter, kind.word.toList.head? = some letter ∧ letter.isDigit = false := by
  cases kind <;> exact ⟨_, rfl, by decide⟩

theorem Leads.five_le_length (leads : kind.Leads y) : 5 ≤ y.length := by
  obtain ⟨rest, rfl⟩ := leads
  have word := kind.five_le_length_word
  rw [String.length_append]
  omega

/-- A text begins with the word of one kind only. -/
theorem Leads.unique (first : kind.Leads y) (second : other.Leads y) : kind = other := by
  obtain ⟨rest, rfl⟩ := first
  obtain ⟨rest', same⟩ := second
  have letters := congrArg String.toList same
  rw [String.toList_append, String.toList_append] at letters
  have begins : other.word.toList <+: kind.word.toList ++ rest.toList := ⟨_, letters.symm⟩
  rcases List.prefix_or_prefix_of_prefix (List.prefix_append _ _) begins with inside | inside
  · exact eq_of_isPrefix inside
  · exact (eq_of_isPrefix inside).symm

/-- A text that begins with a word, and is cut in front of another word later on, is cut behind the
first word. -/
theorem cut_word (same : kind.word ++ z = u ++ y) (leads : other.Leads y) (inside : u ≠ "") :
    ∃ w, u = kind.word ++ w ∧ z = w ++ y := by
  rcases append_eq_append_cases same with behind | ⟨w, nonempty, split, begins⟩
  · exact behind
  -- otherwise the second word begins inside the first one
  exfalso
  obtain ⟨rest, rfl⟩ := leads
  have letters := congrArg String.toList begins
  rw [String.toList_append, String.toList_append] at letters
  have tail : w.toList ∈ kind.word.toList.tail.tails := by
    rw [List.mem_tails, split, String.toList_append,
      List.tail_append_of_ne_nil (toList_ne_nil inside)]
    exact List.suffix_append _ _
  obtain ⟨below, above⟩ := kind.not_overlap other w.toList tail (toList_ne_nil nonempty)
  have begins : other.word.toList <+: w.toList ++ z.toList := ⟨_, letters⟩
  exact (List.prefix_or_prefix_of_prefix (List.prefix_append _ _) begins).elim below above

theorem eq_of_mem_endings (ending : x ∈ kind.endings) :
    x = kind.word ∨ x = kind.word ++ "Opt" := by
  cases kind with
  | oneOrMore => simpa only [endings, List.mem_cons, List.not_mem_nil, or_false] using ending
  | _ => exact Or.inl (List.mem_singleton.mp ending)

theorem word_mem_endings (kind : Kind) : kind.word ∈ kind.endings := by
  cases kind <;> exact List.mem_cons_self

theorem leads_of_mem_endings (ending : x ∈ kind.endings) : kind.Leads x := by
  rcases eq_of_mem_endings ending with rfl | rfl
  · exact ⟨"", String.append_empty.symm⟩
  · exact ⟨_, rfl⟩

/-- The ending of a name is not cut in front of a word: what comes behind its own word is too short
for another one. -/
theorem ne_append_of_mem_endings (ending : x ∈ kind.endings) (leads : other.Leads y)
    (inside : u ≠ "") : x ≠ u ++ y := by
  have long := leads.five_le_length
  have short : ∃ z, x = kind.word ++ z ∧ z.length ≤ 3 := by
    rcases eq_of_mem_endings ending with rfl | rfl
    · exact ⟨"", String.append_empty.symm, by decide⟩
    · exact ⟨"Opt", rfl, by decide⟩
  obtain ⟨z, rfl, short⟩ := short
  intro same
  -- the cut is behind the own word, and the other word has to fit into the three letters left
  obtain ⟨w, -, rfl⟩ := cut_word same leads inside
  rw [String.length_append] at short
  omega

end Kind

/-- A text that begins with a numeral, and is cut in front of a word, is cut behind the numeral. -/
theorem cut_numeral {kind : Kind} {n : Nat} {y z u : String} (same : toString n ++ z = u ++ y)
    (leads : kind.Leads y) : ∃ w, u = toString n ++ w ∧ z = w ++ y := by
  rcases append_eq_append_cases same with behind | ⟨w, nonempty, split, begins⟩
  · exact behind
  -- otherwise a digit is the first letter of the word
  exfalso
  obtain ⟨rest, rfl⟩ := leads
  obtain ⟨letter, first, notDigit⟩ := kind.head?_word
  obtain ⟨others, spelled⟩ := List.head?_eq_some_iff.mp first
  have letters := congrArg String.toList begins
  rw [String.toList_append, String.toList_append, spelled] at letters
  obtain ⟨digit, more, remaining⟩ := List.exists_cons_of_ne_nil (toList_ne_nil nonempty)
  rw [remaining] at letters
  obtain ⟨rfl, -⟩ := List.cons.inj letters
  have digits := congrArg String.toList split
  rw [Nat.toString_eq_ofList_toDigits, String.toList_ofList, String.toList_append, remaining]
    at digits
  have listed : letter ∈ Nat.toDigits 10 n := by simp [digits]
  rw [Nat.isDigit_of_mem_toDigits (by decide) (by decide) listed] at notDigit
  cases notDigit

/-- Two numerals in front of words are the same. -/
theorem numeral_unique {kind other : Kind} {m n : Nat} {y z : String}
    (same : toString m ++ y = toString n ++ z) (leads : kind.Leads y) (leads' : other.Leads z) :
    m = n := by
  obtain ⟨w, longer, -⟩ := cut_numeral same leads'
  obtain ⟨w', longer', -⟩ := cut_numeral same.symm leads
  have lengths := congrArg String.length longer
  have lengths' := congrArg String.length longer'
  rw [String.length_append] at lengths lengths'
  -- each numeral begins with the other one, so neither goes on
  have none : w = "" := String.length_eq_zero_iff.mp (by omega)
  rw [none, String.append_empty] at longer
  have digits := congrArg String.toList longer
  rw [Nat.toString_eq_ofList_toDigits, Nat.toString_eq_ofList_toDigits, String.toList_ofList,
    String.toList_ofList] at digits
  rw [← @Nat.ofDigitChars_ten_toDigits m, ← digits, Nat.ofDigitChars_ten_toDigits]

namespace Expr

variable {expr other part inner : Expr} {stem step path name x y : String}

/-! ### Parts -/

/-- The kind of an expression for which names are introduced. -/
def kind? : Expr → Option Kind
  | .terminal _ => none
  | .nonterminal _ => none
  | .chain _ => some .chain
  | .choice _ => some .choice
  | .optional _ => some .optional
  | .zeroOrMore _ => some .zeroOrMore
  | .oneOrMore _ => some .oneOrMore

/-- The parts of an expression, each with what its names add to those of the expression: the word
of the kind, and the position of the part if there are several. -/
def HasPart : Expr → String → Expr → Prop
  | .terminal _, _, _ => False
  | .nonterminal _, _, _ => False
  | .chain parts, step, part =>
    ∃ i : Nat, parts[i]? = some part ∧ step = Kind.word .chain ++ toString i
  | .choice parts, step, part =>
    ∃ i : Nat, parts[i]? = some part ∧ step = Kind.word .choice ++ toString i
  | .optional body, step, part => part = body ∧ step = Kind.word .optional
  | .zeroOrMore body, step, part => part = body ∧ step = Kind.word .zeroOrMore
  | .oneOrMore body, step, part => part = body ∧ step = Kind.word .oneOrMore

/-- An expression inside another one, and the path to it, which its names begin with. -/
inductive StandsAt : Expr → String → Expr → Prop where
  /-- The expression itself. -/
  | here (expr : Expr) : StandsAt expr "" expr
  /-- Something inside a part. -/
  | inside {expr part inner : Expr} {step path : String} (first : expr.HasPart step part)
      (rest : StandsAt part path inner) : StandsAt expr (step ++ path) inner

theorem HasPart.exists_word (inside : expr.HasPart step part) :
    ∃ kind, expr.kind? = some kind ∧
      (step = kind.word ∨ ∃ i : Nat, step = kind.word ++ toString i) := by
  cases expr with
  | terminal => cases inside
  | nonterminal => cases inside
  | chain => exact ⟨.chain, rfl, Or.inr (inside.imp fun _ => And.right)⟩
  | choice => exact ⟨.choice, rfl, Or.inr (inside.imp fun _ => And.right)⟩
  | optional => exact ⟨.optional, rfl, Or.inl inside.2⟩
  | zeroOrMore => exact ⟨.zeroOrMore, rfl, Or.inl inside.2⟩
  | oneOrMore => exact ⟨.oneOrMore, rfl, Or.inl inside.2⟩

theorem HasPart.leads (inside : expr.HasPart step part) :
    ∃ kind, expr.kind? = some kind ∧ kind.Leads step := by
  obtain ⟨kind, found, rfl | ⟨i, rfl⟩⟩ := inside.exists_word
  · exact ⟨kind, found, "", String.append_empty.symm⟩
  · exact ⟨kind, found, _, rfl⟩

/-- A text that begins with a step, and is cut in front of a word later on, is cut behind the
step. -/
theorem HasPart.cut {kind : Kind} {z : String} (inside : expr.HasPart step part)
    (same : step ++ z = x ++ y) (leads : kind.Leads y) (nonempty : x ≠ "") :
    ∃ w, x = step ++ w ∧ z = w ++ y := by
  obtain ⟨own, -, rfl | ⟨i, rfl⟩⟩ := inside.exists_word
  · exact Kind.cut_word same leads nonempty
  · rw [String.append_assoc] at same
    obtain ⟨w, rfl, numbered⟩ := Kind.cut_word same leads nonempty
    obtain ⟨w', rfl, rest⟩ := cut_numeral numbered leads
    exact ⟨w', String.append_assoc.symm, rest⟩

/-- What holds of an expression if it holds of its parts, holds of all expressions. -/
theorem induction_parts {holds : Expr → Prop}
    (steps : ∀ expr, (∀ step part, HasPart expr step part → holds part) → holds expr)
    (expr : Expr) : holds expr := by
  induction expr using Expr.induction with
  | terminal s => exact steps _ fun _ _ none => none.elim
  | nonterminal s => exact steps _ fun _ _ none => none.elim
  | chain parts ih =>
    exact steps _ fun _ part ⟨_, listed, _⟩ => ih part (List.mem_of_getElem? listed)
  | choice parts ih =>
    exact steps _ fun _ part ⟨_, listed, _⟩ => ih part (List.mem_of_getElem? listed)
  | optional body ih => exact steps _ fun _ _ inside => inside.1 ▸ ih
  | zeroOrMore body ih => exact steps _ fun _ _ inside => inside.1 ▸ ih
  | oneOrMore body ih => exact steps _ fun _ _ inside => inside.1 ▸ ih

/-! ### The names of an expression -/

theorem mem_syntheticNamesOfAll {parts : List Expr} {place : Nat} :
    name ∈ syntheticNamesOfAll stem place parts ↔
      ∃ (i : Nat) (part : Expr), parts[i]? = some part ∧
        name ∈ part.syntheticNames (stem ++ toString (place + i)) := by
  induction parts generalizing place with
  | nil => simp [syntheticNamesOfAll]
  | cons first rest ih =>
    rw [syntheticNamesOfAll, List.mem_append, ih]
    constructor
    · rintro (listed | ⟨i, part, found, listed⟩)
      · exact ⟨0, first, rfl, listed⟩
      · exact ⟨i + 1, part, found, by rwa [Nat.add_right_comm] at listed⟩
    · rintro ⟨i, part, found, listed⟩
      cases i with
      | zero =>
        cases found
        exact Or.inl listed
      | succ i => exact Or.inr ⟨i, part, found, by rwa [Nat.add_right_comm]⟩

/-- The names of an expression are its own and those of its parts. -/
theorem mem_syntheticNames_iff :
    name ∈ expr.syntheticNames stem ↔
      (∃ kind ending, expr.kind? = some kind ∧ ending ∈ kind.endings ∧ name = stem ++ ending) ∨
        ∃ step part, expr.HasPart step part ∧ name ∈ part.syntheticNames (stem ++ step) := by
  have numbered : ∀ (parts : List Expr) (kind : Kind),
      name ∈ syntheticNamesOfAll (stem ++ kind.word) 0 parts ↔
        ∃ step part, (∃ i : Nat, parts[i]? = some part ∧ step = kind.word ++ toString i) ∧
          name ∈ part.syntheticNames (stem ++ step) := by
    intro parts kind
    simp only [mem_syntheticNamesOfAll, Nat.zero_add, String.append_assoc]
    constructor
    · rintro ⟨i, part, listed, member⟩
      exact ⟨_, part, ⟨i, listed, rfl⟩, member⟩
    · rintro ⟨_, part, ⟨i, listed, rfl⟩, member⟩
      exact ⟨i, part, listed, member⟩
  cases expr with
  | terminal => simp [syntheticNames, kind?, HasPart]
  | nonterminal => simp [syntheticNames, kind?, HasPart]
  | chain parts =>
    rw [syntheticNames, List.mem_cons]
    exact or_congr (by simp [kind?, Kind.endings, Kind.word]) (numbered parts .chain)
  | choice parts =>
    rw [syntheticNames, List.mem_cons]
    exact or_congr (by simp [kind?, Kind.endings, Kind.word]) (numbered parts .choice)
  | optional body =>
    rw [syntheticNames, List.mem_cons]
    simp [kind?, HasPart, Kind.endings, Kind.word]
  | zeroOrMore body =>
    rw [syntheticNames, List.mem_cons]
    simp [kind?, HasPart, Kind.endings, Kind.word]
  | oneOrMore body =>
    rw [syntheticNames, List.mem_cons, List.mem_cons]
    simp [kind?, HasPart, Kind.endings, Kind.word, String.append_assoc, or_assoc]

/-- A name goes on, behind the stem, with the word of the kind of its expression. -/
theorem exists_leads (member : name ∈ expr.syntheticNames stem) :
    ∃ kind rest, expr.kind? = some kind ∧ kind.Leads rest ∧ name = stem ++ rest := by
  rcases mem_syntheticNames_iff.mp member with
    ⟨kind, ending, found, listed, rfl⟩ | ⟨step, part, inside, listed⟩
  · exact ⟨kind, ending, found, Kind.leads_of_mem_endings listed, rfl⟩
  · obtain ⟨kind, found, rest, rfl⟩ := inside.leads
    obtain ⟨more, rfl⟩ := exists_append_of_mem_syntheticNames _ _ listed
    exact ⟨kind, kind.word ++ (rest ++ more), found, ⟨_, rfl⟩, by simp only [String.append_assoc]⟩

theorem root_mem_syntheticNames {kind : Kind} (found : expr.kind? = some kind) (stem : String) :
    stem ++ kind.word ∈ expr.syntheticNames stem :=
  mem_syntheticNames_iff.mpr (Or.inl ⟨kind, _, found, kind.word_mem_endings, rfl⟩)

/-- The names of an inner expression are names of the whole. -/
theorem StandsAt.mem_syntheticNames (stands : expr.StandsAt path inner)
    (member : name ∈ inner.syntheticNames (stem ++ path)) : name ∈ expr.syntheticNames stem := by
  induction stands generalizing stem with
  | here expr => rwa [String.append_empty] at member
  | inside first _ ih =>
    rw [← String.append_assoc] at member
    exact mem_syntheticNames_iff.mpr (Or.inr ⟨_, _, first, ih member⟩)

/-- A name that is cut in front of a word is cut at the place of an inner expression, and is one of
the names of this expression. The path is followed step by step. -/
theorem exists_standsAt {kind : Kind} (leads : kind.Leads y)
    (member : stem ++ (path ++ y) ∈ expr.syntheticNames stem) :
    ∃ inner, expr.StandsAt path inner ∧
      stem ++ (path ++ y) ∈ inner.syntheticNames (stem ++ path) := by
  induction expr using induction_parts generalizing stem path with
  | steps expr ih =>
    by_cases empty : path = ""
    · subst empty
      exact ⟨expr, .here expr, by rwa [String.append_empty]⟩
    rcases mem_syntheticNames_iff.mp member with
      ⟨own, ending, -, listed, same⟩ | ⟨step, part, inside, listed⟩
    -- a name of the expression itself has no word but its own
    · have whole := (String.append_right_inj stem).mp same
      exact absurd whole.symm (Kind.ne_append_of_mem_endings listed leads empty)
    -- a name of a part is cut behind the step that leads there
    · obtain ⟨z, same⟩ := exists_append_of_mem_syntheticNames _ _ listed
      rw [String.append_assoc, String.append_right_inj] at same
      obtain ⟨w, rfl, rfl⟩ := inside.cut same.symm leads empty
      have regrouped : stem ++ (step ++ w ++ y) = stem ++ step ++ (w ++ y) := by
        simp only [String.append_assoc]
      rw [regrouped] at listed ⊢
      obtain ⟨inner, stands, inInner⟩ := ih step part inside listed
      exact ⟨inner, .inside inside stands, by rwa [← String.append_assoc]⟩

/-- Expressions that share a name after the same stem are of the same kind. -/
theorem kind?_eq_of_mem (first : name ∈ expr.syntheticNames stem)
    (second : name ∈ other.syntheticNames stem) :
    ∃ kind, expr.kind? = some kind ∧ other.kind? = some kind := by
  obtain ⟨kind, rest, found, leads, rfl⟩ := exists_leads first
  obtain ⟨kind', rest', found', leads', same⟩ := exists_leads second
  rw [String.append_right_inj] at same
  subst same
  obtain rfl := leads.unique leads'
  exact ⟨kind, found, found'⟩

/-- Names after a longer stem meet those of an expression if the rest of the stem leads to an inner
expression of the same kind. -/
theorem meet_iff (expr other : Expr) (stem path : String) :
    (∃ name, name ∈ expr.syntheticNames stem ∧ name ∈ other.syntheticNames (stem ++ path)) ↔
      ∃ inner kind, expr.StandsAt path inner ∧ inner.kind? = some kind ∧
        other.kind? = some kind := by
  constructor
  · rintro ⟨name, first, second⟩
    obtain ⟨kind, rest, -, leads, rfl⟩ := exists_leads second
    rw [String.append_assoc] at first second
    obtain ⟨inner, stands, member⟩ := exists_standsAt leads first
    obtain ⟨shared, found, found'⟩ := kind?_eq_of_mem member second
    exact ⟨inner, shared, stands, found, found'⟩
  · rintro ⟨inner, kind, stands, found, found'⟩
    exact ⟨_, stands.mem_syntheticNames (root_mem_syntheticNames found _),
      root_mem_syntheticNames found' _⟩

/-! ### All names of an expression are different -/

theorem ne_of_mem_syntheticNames (member : name ∈ expr.syntheticNames stem) : name ≠ stem := by
  obtain ⟨kind, rest, -, leads, rfl⟩ := exists_leads member
  intro same
  have long := leads.five_le_length
  have lengths := congrArg String.length same
  rw [String.length_append] at lengths
  omega

theorem ne_of_mem_syntheticNamesOfAll {parts : List Expr} {place : Nat}
    (member : name ∈ syntheticNamesOfAll stem place parts) : name ≠ stem := by
  obtain ⟨i, part, -, listed⟩ := mem_syntheticNamesOfAll.mp member
  obtain ⟨kind, rest, -, leads, rfl⟩ := exists_leads listed
  intro same
  have long := leads.five_le_length
  have lengths := congrArg String.length same
  rw [String.length_append, String.length_append] at lengths
  omega

/-- Parts at different places have different names, since the numerals differ. -/
theorem nodup_syntheticNamesOfAll {parts : List Expr} {place : Nat}
    (each : ∀ part ∈ parts, ∀ stem, (part.syntheticNames stem).Nodup) :
    (syntheticNamesOfAll stem place parts).Nodup := by
  induction parts generalizing place with
  | nil => exact List.nodup_nil
  | cons first rest ih =>
    rw [List.forall_mem_cons] at each
    rw [syntheticNamesOfAll]
    refine (each.1 _).append (ih each.2) fun name early late => ?_
    obtain ⟨i, part, -, listed⟩ := mem_syntheticNamesOfAll.mp late
    obtain ⟨kind, rest, -, leads, rfl⟩ := exists_leads early
    obtain ⟨kind', rest', -, leads', same⟩ := exists_leads listed
    rw [String.append_assoc, String.append_assoc, String.append_right_inj] at same
    have places := numeral_unique same leads leads'
    omega

/-- The names of one expression are all different. -/
theorem nodup_syntheticNames (expr : Expr) (stem : String) : (expr.syntheticNames stem).Nodup := by
  induction expr using Expr.induction generalizing stem with
  | terminal => exact List.nodup_nil
  | nonterminal => exact List.nodup_nil
  | chain parts ih =>
    exact List.nodup_cons.mpr ⟨fun member => ne_of_mem_syntheticNamesOfAll member rfl,
      nodup_syntheticNamesOfAll ih⟩
  | choice parts ih =>
    exact List.nodup_cons.mpr ⟨fun member => ne_of_mem_syntheticNamesOfAll member rfl,
      nodup_syntheticNamesOfAll ih⟩
  | optional body ih =>
    exact List.nodup_cons.mpr ⟨fun member => ne_of_mem_syntheticNames member rfl, ih _⟩
  | zeroOrMore body ih =>
    exact List.nodup_cons.mpr ⟨fun member => ne_of_mem_syntheticNames member rfl, ih _⟩
  | oneOrMore body ih =>
    refine List.nodup_cons.mpr ⟨fun member => ?_, List.nodup_cons.mpr ⟨fun member => ?_, ih _⟩⟩
    · rcases List.mem_cons.mp member with same | inside
      · have lengths := congrArg String.length same
        rw [@String.length_append _ "Opt"] at lengths
        have added : "Opt".length = 3 := rfl
        omega
      · exact ne_of_mem_syntheticNames inside rfl
    -- no name goes on behind the word with so few letters
    · obtain ⟨kind, rest, -, leads, same⟩ := exists_leads member
      rw [String.append_right_inj] at same
      have long := leads.five_le_length
      rw [← same] at long
      exact absurd long (by decide)

end Expr

end Predictive
