import Mathlib.Data.List.Perm.Subperm
import Predictive.Grammar.LeftFactor
import Predictive.Proofs.Ebnf.Growth
import Predictive.Proofs.WellFormed

/-!
# Factoring out one group

Factoring out a group of alternatives takes a new name, gives it what is left of each member, and
puts the shared beginning and the new name in place of the members. The new name is always found,
since there are more candidates than names, so the only thing that can be missing is room. All
symbols of the members are still there, except that the shared beginning is there only once.

## Main definitions

* `Grammar.occurrences` — the occurrences of symbols in all alternatives
* `Grammar.Factored` — a grammar in which a group was factored out

## Main results

* `Grammar.Group.symbols_of_mem_members` — a member is the shared beginning and a suffix
* `Grammar.get?_freshName` — there is a new name
* `Grammar.fits_factorOnce` — one factoring
* `Grammar.Factored.preserves_wellFormed` — the grammar stays well formed
* `Grammar.Factored.exists_countP_occurrences` — what happens to the occurrences of symbols
-/

namespace Predictive

namespace Grammar

variable {grammar before after : Grammar} {s t : Symbol} {group : Group}
  {alternative : Alternative} {alternatives : List Alternative}

/-! ### Shared beginnings -/

theorem commonStart_isPrefix (first second : List Symbol) :
    commonStart first second <+: first ∧ commonStart first second <+: second := by
  induction first generalizing second with
  | nil => exact ⟨List.nil_prefix, List.nil_prefix⟩
  | cons s rest ih =>
    cases second with
    | nil => exact ⟨List.nil_prefix, List.nil_prefix⟩
    | cons t others =>
      rw [commonStart]
      split
      · next same =>
        subst same
        exact ⟨List.cons_prefix_cons.mpr ⟨rfl, (ih others).1⟩,
          List.cons_prefix_cons.mpr ⟨rfl, (ih others).2⟩⟩
      · exact ⟨List.nil_prefix, List.nil_prefix⟩

/-- What is shared is a beginning of all strings. -/
theorem sharedStart_isPrefix (first : List Symbol) (others : List (List Symbol)) :
    sharedStart first others <+: first ∧
      ∀ other ∈ others, sharedStart first others <+: other := by
  induction others generalizing first with
  | nil => exact ⟨List.prefix_rfl, fun _ listed => absurd listed List.not_mem_nil⟩
  | cons other rest ih =>
    obtain ⟨begins, inRest⟩ := ih (commonStart first other)
    obtain ⟨left, right⟩ := commonStart_isPrefix first other
    exact ⟨begins.trans left, List.forall_mem_cons.mpr ⟨begins.trans right, inRest⟩⟩

/-- Strings that begin with the same symbol share it. -/
theorem head?_sharedStart {head : Symbol} {first : List Symbol} {others : List (List Symbol)}
    (begins : first.head? = some head) (alike : ∀ other ∈ others, other.head? = some head) :
    (sharedStart first others).head? = some head := by
  induction others generalizing first with
  | nil => exact begins
  | cons other rest ih =>
    rw [List.forall_mem_cons] at alike
    refine ih ?_ alike.2
    obtain ⟨firstRest, rfl⟩ := List.head?_eq_some_iff.mp begins
    obtain ⟨otherRest, rfl⟩ := List.head?_eq_some_iff.mp alike.1
    simp [commonStart]

/-! ### Groups -/

/-- A group stands in its surroundings, and has at least two members. -/
structure Group.Within (group : Group) (alternatives : List Alternative) : Prop where
  /-- The surroundings are the alternatives. -/
  split : alternatives = group.before ++ group.leader :: group.after
  /-- The first member begins with the symbol of the group. -/
  begins : group.leader.head? = some group.head
  /-- So does a later alternative. -/
  partner : ∃ alternative ∈ group.after, beginsWith group.head alternative = true

theorem within_of_firstGroupFrom? {passed : List Alternative}
    (found : firstGroupFrom? passed alternatives = some group) :
    group.Within (passed ++ alternatives) := by
  induction alternatives generalizing passed with
  | nil => cases found
  | cons alternative after ih =>
    rw [firstGroupFrom?] at found
    have later : firstGroupFrom? (passed ++ [alternative]) after = some group →
        group.Within (passed ++ alternative :: after) := fun found => by
      simpa only [List.append_assoc, List.singleton_append] using ih found
    split at found
    · next head begins =>
      split at found
      · next paired =>
        cases found
        exact ⟨rfl, begins, List.any_eq_true.mp paired⟩
      · exact later found
    · exact later found

theorem within_of_firstGroup? (found : firstGroup? alternatives = some group) :
    group.Within alternatives := within_of_firstGroupFrom? found

namespace Group

variable {factored : Symbol}

/-- The members come first, up to the order. -/
theorem Within.perm (within : group.Within alternatives) :
    alternatives.Perm (group.members ++ (group.before ++ group.others)) := by
  have parted : (group.leader :: group.after).Perm (group.members ++ group.others) :=
    (List.filter_append_perm (beginsWith group.head) group.after).symm.cons group.leader
  rw [within.split, ← List.append_assoc]
  refine (parted.append_left group.before).trans ?_
  rw [← List.append_assoc]
  exact List.perm_append_comm.append_right group.others

theorem Within.mem_iff (within : group.Within alternatives) :
    alternative ∈ alternatives ↔
      alternative ∈ group.members ∨ alternative ∈ group.before ++ group.others := by
  rw [within.perm.mem_iff, List.mem_append]

theorem Within.head?_of_mem_members (within : group.Within alternatives)
    (member : alternative ∈ group.members) : alternative.head? = some group.head := by
  rcases List.mem_cons.mp member with rfl | later
  · exact within.begins
  · exact beq_iff_eq.mp (List.mem_filter.mp later).2

/-- The shared beginning is not empty. -/
theorem Within.head?_shared (within : group.Within alternatives) :
    group.shared.head? = some group.head := by
  refine head?_sharedStart within.begins fun other listed => ?_
  obtain ⟨alternative, member, rfl⟩ := List.mem_map.mp listed
  exact within.head?_of_mem_members (List.mem_of_mem_drop member)

theorem Within.two_le_length_members (within : group.Within alternatives) :
    2 ≤ group.members.length := by
  obtain ⟨alternative, listed, begins⟩ := within.partner
  have paired := List.length_pos_of_mem (List.mem_filter.mpr ⟨listed, begins⟩)
  rw [members, List.length_cons]
  omega

theorem shared_isPrefix (member : alternative ∈ group.members) :
    group.shared <+: alternative.symbols := by
  obtain ⟨leader, others⟩ := sharedStart_isPrefix group.leader.symbols
    ((group.members.drop 1).map Alternative.symbols)
  rcases List.mem_cons.mp member with rfl | later
  · exact leader
  · exact others _ (List.mem_map_of_mem later)

theorem epsilon_not_mem_shared : Symbol.epsilon ∉ group.shared := fun listed =>
  group.leader.noEpsilon ((shared_isPrefix List.mem_cons_self).subset listed)

/-- What is left of a member. -/
def suffixOf (group : Group) (alternative : Alternative) : Alternative :=
  .ofSymbols (alternative.symbols.drop group.shared.length)

/-- A member is the shared beginning and what is left of it. -/
theorem symbols_of_mem_members (member : alternative ∈ group.members) :
    alternative.symbols = group.shared ++ (group.suffixOf alternative).symbols := by
  have noEpsilon : Symbol.epsilon ∉ alternative.symbols.drop group.shared.length := fun listed =>
    alternative.noEpsilon (List.mem_of_mem_drop listed)
  rw [suffixOf, Alternative.symbols_ofSymbols noEpsilon]
  exact (List.prefix_iff_eq_append.mp (shared_isPrefix member)).symm

theorem suffixes_eq_map : group.suffixes = group.members.map group.suffixOf := rfl

theorem mem_suffixes :
    alternative ∈ group.suffixes ↔ ∃ member ∈ group.members, group.suffixOf member = alternative :=
  List.mem_map

/-- The alternative that stands for the group. -/
def stand (group : Group) (factored : Symbol) : Alternative :=
  .ofSymbols (group.shared ++ [factored])

theorem symbols_stand (proper : factored ≠ .epsilon) :
    (group.stand factored).symbols = group.shared ++ [factored] := by
  refine Alternative.symbols_ofSymbols ?_
  rw [List.mem_append, List.mem_singleton, not_or]
  exact ⟨epsilon_not_mem_shared, proper.symm⟩

/-- One alternative comes in place of the members, up to the order. -/
theorem replaceBy_perm (group : Group) (factored : Symbol) :
    (group.replaceBy factored).Perm
      (group.stand factored :: (group.before ++ group.others)) :=
  List.perm_middle

theorem mem_replaceBy :
    alternative ∈ group.replaceBy factored ↔
      alternative = group.stand factored ∨ alternative ∈ group.before ++ group.others := by
  rw [(group.replaceBy_perm factored).mem_iff, List.mem_cons]

end Group

/-! ### New names -/

theorem candidateName_injective (name : String) : Function.Injective (candidateName name) := by
  intro m n same
  have longer : ∀ k : Nat, name ≠ name ++ "_" ++ toString k := by
    intro k equal
    have lengths := congrArg String.length equal
    rw [String.length_append, String.length_append] at lengths
    have added : "_".length = 1 := rfl
    omega
  unfold candidateName at same
  split at same <;> split at same
  · omega
  · exact absurd same (longer n)
  · exact absurd same.symm (longer m)
  · have numerals : (toString m).toList = (toString n).toList :=
      congrArg String.toList ((String.append_right_inj _).mp same)
    rw [Nat.toString_eq_ofList_toDigits, Nat.toString_eq_ofList_toDigits, String.toList_ofList,
      String.toList_ofList] at numerals
    rw [← @Nat.ofDigitChars_ten_toDigits m, numerals, Nat.ofDigitChars_ten_toDigits]

/-- Among more candidates than there are names, one is new. -/
theorem get?_freshName (names : NameTable) (name : String) :
    names.get? (freshName names name) = none ∧
      ∃ n, freshName names name = candidateName name n := by
  unfold freshName
  split
  · next n found =>
    have free := List.find?_some found
    exact ⟨by simpa [NameTable.contains] using free, n, rfl⟩
  · next taken =>
    -- otherwise the candidates are distinct members of a shorter list
    exfalso
    have inside : (List.range (names.size + 1)).map (candidateName name) ⊆ names.names.toList := by
      intro candidate listed
      obtain ⟨n, inRange, rfl⟩ := List.mem_map.mp listed
      have known := List.find?_eq_none.mp taken n inRange
      by_contra absent
      rw [← NameTable.get?_eq_none_iff_not_mem] at absent
      simp [NameTable.contains, absent] at known
    have distinct := (List.nodup_range (n := names.size + 1)).map (candidateName_injective name)
    have lengths := (List.subperm_of_subset distinct inside).length_le
    rw [List.length_map, List.length_range, Array.length_toList, NameTable.size] at lengths
    omega

/-! ### One factoring -/

/-- A grammar in which a group of a production was factored out. -/
structure Factored (before after : Grammar) (s : Symbol) (group : Group) (name : String) :
    Prop where
  /-- The group stands in the production. -/
  within : ∃ alternatives, before.alternatives? s = some alternatives ∧ group.Within alternatives
  /-- One name is new. -/
  introduces : Introduces before after [name] [s]
  /-- The new name is made from that of the production. -/
  named : ∃ base ending, before.names.name? s = some base ∧ name = base ++ "_LF" ++ ending
  /-- The new nonterminal derives what is left of the members. -/
  alternatives?_new : after.alternatives? ⟨before.names.size⟩ = some group.suffixes
  /-- The members are replaced. -/
  alternatives?_old : after.alternatives? s = some (group.replaceBy ⟨before.names.size⟩)

/-- Grammars that are well formed have no productions beyond their names. -/
theorem WellFormed.bounded (wellFormed : grammar.WellFormed) : grammar.Bounded := by
  intro s beyond
  by_contra found
  have nonterminal : grammar.isNonterminal s = true := Option.isSome_iff_ne_none.mpr found
  exact absurd (wellFormed.named (Or.inr nonterminal)) (Nat.not_lt.mpr beyond)

/-- One factoring: there is no group, or it is factored out, if there is room for a name. -/
theorem fits_factorOnce (wellFormed : grammar.WellFormed) (s : Symbol) :
    NameTable.Fits (grammar.names.size + 1)
      (fun result =>
        (result = none ∧ (grammar.alternatives? s).bind firstGroup? = none) ∨
          ∃ next group name, result = some (⟨grammar.names.size⟩, next) ∧
            Factored grammar next s group name)
      (grammar.factorOnce s) := by
  unfold factorOnce
  split
  · next none => exact NameTable.fits_ok (Or.inl ⟨rfl, none⟩)
  · next group found =>
    obtain ⟨alternatives, defined, grouped⟩ := Option.bind_eq_some_iff.mp found
    have within := within_of_firstGroup? grouped
    have inside : s.id < grammar.names.size :=
      wellFormed.named (Or.inr (Option.isSome_iff_exists.mpr ⟨_, defined⟩))
    obtain ⟨base, named⟩ := NameTable.name?_isSome_of_lt inside
    rw [NameTable.name_eq_ok_iff.mpr named]
    obtain ⟨fresh, n, candidate⟩ := get?_freshName grammar.names
      (base ++ "_LF" ++ toString group.before.length)
    refine (NameTable.fits_intern fresh).bind (Nat.le_refl _) ?_
    rintro ⟨_, names⟩ ⟨rfl, pushed⟩
    have size : names.size = grammar.names.size + 1 := by
      rw [NameTable.size, pushed, Array.size_push, NameTable.size]
    have other : (⟨grammar.names.size⟩ : Symbol) ≠ s := by
      rintro rfl
      exact absurd inside (Nat.lt_irrefl _)
    have renamed : Introduces grammar { grammar with names }
        [freshName grammar.names (base ++ "_LF" ++ toString group.before.length)] [s] :=
      ⟨(congrArg Array.toList pushed).trans Array.toList_push, rfl, rfl, fun _ _ _ => rfl,
        fun t (beyond : names.size ≤ t.id) => wellFormed.bounded t (by omega)⟩
    have filled := renamed.setAlternatives (s := ⟨grammar.names.size⟩)
      (show grammar.names.size < names.size by omega) (Or.inl (Nat.le_refl _)) group.suffixes
    have replaced := filled.setAlternatives (s := s) (show s.id < names.size by omega)
      (Or.inr List.mem_cons_self) (group.replaceBy ⟨grammar.names.size⟩)
    refine NameTable.fits_ok (Or.inr ⟨_, group, _, rfl,
      ⟨⟨alternatives, defined, within⟩, replaced, ⟨base, ?_⟩, ?_, ?_⟩⟩)
    · rw [candidate, candidateName]
      split
      · exact ⟨_, named, rfl⟩
      · exact ⟨toString group.before.length ++ "_" ++ toString n, named, by
          simp only [String.append_assoc]⟩
    · rw [alternatives?_setAlternatives, if_neg other, alternatives?_setAlternatives, if_pos rfl]
    · rw [alternatives?_setAlternatives, if_pos rfl]

/-- The first symbol beyond a table is not reserved. -/
theorem isReserved_size (names : NameTable) : Symbol.isReserved ⟨names.size⟩ = false := by
  have two : 1 < names.size := NameTable.lt_size_of_name? (names.name?_eof)
  exact decide_eq_false (Nat.not_lt.mpr two)

theorem ne_epsilon_size (names : NameTable) : (⟨names.size⟩ : Symbol) ≠ .epsilon := by
  intro same
  exact absurd (isReserved_size names) (by rw [same]; decide)

namespace Factored

variable {name : String} (factored : Factored before after s group name)
  (wellFormed : before.WellFormed)

include factored

theorem size_eq : after.names.size = before.names.size + 1 := factored.introduces.size_eq

theorem isTerminal_eq (t : Symbol) : after.isTerminal t = before.isTerminal t := by
  rw [isTerminal, isTerminal, factored.introduces.terminals_eq]

theorem hasRule_stand : after.HasRule s (group.stand ⟨before.names.size⟩) :=
  ⟨_, factored.alternatives?_old, Group.mem_replaceBy.mpr (Or.inl rfl)⟩

theorem hasRule_member (member : alternative ∈ group.members) : before.HasRule s alternative := by
  obtain ⟨alternatives, given, within⟩ := factored.within
  exact ⟨alternatives, given, within.mem_iff.mpr (Or.inl member)⟩

include wellFormed

theorem lt_size : s.id < before.names.size := by
  obtain ⟨alternatives, defined, -⟩ := factored.within
  exact wellFormed.named (Or.inr (Option.isSome_iff_exists.mpr ⟨_, defined⟩))

theorem ne_new : s ≠ ⟨before.names.size⟩ := by
  rintro rfl
  exact absurd (factored.lt_size wellFormed) (Nat.lt_irrefl _)

/-- All productions but two stay. -/
theorem alternatives?_eq (t : Symbol) :
    after.alternatives? t =
      if t = ⟨before.names.size⟩ then some group.suffixes
      else if t = s then some (group.replaceBy ⟨before.names.size⟩)
      else before.alternatives? t := by
  split
  · next same => rw [same, factored.alternatives?_new]
  · next notNew =>
    split
    · next same => rw [same, factored.alternatives?_old]
    · next other =>
      by_cases old : t.id < before.names.size
      · exact factored.introduces.kept t old (by simpa using other)
      · have beyond : t.id ≠ before.names.size := fun same => notNew (congrArg Symbol.mk same)
        have size := factored.size_eq
        rw [wellFormed.bounded t (Nat.not_lt.mp old), factored.introduces.bounded t (by omega)]

/-- A rule is one of the new nonterminal, or the one that leads to it, or an old one. -/
theorem hasRule_cases (rule : after.HasRule t alternative) :
    (t = ⟨before.names.size⟩ ∧ alternative ∈ group.suffixes) ∨
      (t = s ∧ alternative = group.stand ⟨before.names.size⟩) ∨ before.HasRule t alternative := by
  obtain ⟨found, defined, listed⟩ := rule
  obtain ⟨alternatives, given, within⟩ := factored.within
  rw [factored.alternatives?_eq wellFormed] at defined
  split at defined
  · next same => exact Or.inl ⟨same, Option.some.inj defined ▸ listed⟩
  · split at defined
    · next same =>
      rw [← Option.some.inj defined, Group.mem_replaceBy] at listed
      refine Or.inr (listed.imp (fun equal => ⟨same, equal⟩) fun other => ?_)
      exact ⟨alternatives, same ▸ given, within.mem_iff.mpr (Or.inr other)⟩
    · exact Or.inr (Or.inr ⟨found, defined, listed⟩)

/-- An old rule stays, or it is a member of the group. -/
theorem hasRule_of (rule : before.HasRule t alternative) :
    after.HasRule t alternative ∨ (t = s ∧ alternative ∈ group.members) := by
  obtain ⟨found, defined, listed⟩ := rule
  obtain ⟨alternatives, given, within⟩ := factored.within
  have notNew : t ≠ ⟨before.names.size⟩ := by
    rintro rfl
    have undefined := wellFormed.bounded ⟨before.names.size⟩ (Nat.le_refl _)
    rw [defined] at undefined
    cases undefined
  by_cases same : t = s
  · subst same
    rw [given] at defined
    cases defined
    refine (within.mem_iff.mp listed).elim (fun member => Or.inr ⟨rfl, member⟩) fun other => ?_
    exact Or.inl ⟨_, factored.alternatives?_old, Group.mem_replaceBy.mpr (Or.inr other)⟩
  · refine Or.inl ⟨found, ?_, listed⟩
    rw [factored.alternatives?_eq wellFormed, if_neg notNew, if_neg same, defined]

theorem isNonterminal_iff :
    after.isNonterminal t = true ↔
      t = ⟨before.names.size⟩ ∨ before.isNonterminal t = true := by
  obtain ⟨alternatives, given, -⟩ := factored.within
  have isSome_iff : ∀ grammar : Grammar, grammar.isNonterminal t = true ↔
      (grammar.alternatives? t).isSome = true := fun _ => Iff.rfl
  rw [isSome_iff, isSome_iff, factored.alternatives?_eq wellFormed]
  by_cases new : t = ⟨before.names.size⟩
  · simp [new]
  · by_cases same : t = s
    · subst same
      simp [new, given]
    · simp [new, same]

/-- The symbols of the grammar stay, and one is new. -/
theorem knows_iff : after.Knows t ↔ t = ⟨before.names.size⟩ ∨ before.Knows t := by
  rw [Knows, Knows, factored.isTerminal_eq, factored.isNonterminal_iff wellFormed]
  tauto

/-- The grammar stays well formed. -/
theorem preserves_wellFormed : after.WellFormed where
  start_isNonterminal := by
    rw [factored.introduces.start_eq, factored.isNonterminal_iff wellFormed]
    exact Or.inr wellFormed.start_isNonterminal
  alternatives_ne_nil := by
    intro t alternatives defined
    rw [factored.alternatives?_eq wellFormed] at defined
    split at defined
    · cases defined
      exact List.cons_ne_nil _ _
    · split at defined
      · cases defined
        exact List.append_ne_nil_of_right_ne_nil _ (List.cons_ne_nil _ _)
      · exact wellFormed.alternatives_ne_nil defined
  knows_of_rule := by
    intro t alternative rule u listed
    rw [factored.knows_iff wellFormed]
    rcases factored.hasRule_cases wellFormed rule with ⟨-, suffix⟩ | ⟨-, rfl⟩ | old
    · obtain ⟨member, inside, rfl⟩ := Group.mem_suffixes.mp suffix
      refine Or.inr (wellFormed.knows_of_rule (factored.hasRule_member inside) u ?_)
      rw [Group.symbols_of_mem_members inside]
      exact List.mem_append_right _ listed
    · rw [Group.symbols_stand (ne_epsilon_size _), List.mem_append, List.mem_singleton] at listed
      refine listed.symm.imp_right fun inside => ?_
      exact wellFormed.knows_of_rule (factored.hasRule_member List.mem_cons_self) u
        ((Group.shared_isPrefix List.mem_cons_self).subset inside)
    · exact Or.inr (wellFormed.knows_of_rule old u listed)
  apart := by
    intro t listed
    rw [factored.introduces.terminals_eq] at listed
    rw [Bool.eq_false_iff, Ne, factored.isNonterminal_iff wellFormed, wellFormed.apart listed]
    rintro (rfl | wrong)
    · exact absurd (wellFormed.named (Or.inl (isTerminal_iff.mpr (Or.inr listed))))
        (Nat.lt_irrefl _)
    · cases wrong
  terminal_unreserved := by
    intro t listed
    rw [factored.introduces.terminals_eq] at listed
    exact wellFormed.terminal_unreserved listed
  nonterminal_unreserved := by
    intro t nonterminal
    rcases (factored.isNonterminal_iff wellFormed).mp nonterminal with rfl | old
    · exact isReserved_size before.names
    · exact wellFormed.nonterminal_unreserved old
  named := by
    intro t known
    have size := factored.size_eq
    rcases (factored.knows_iff wellFormed).mp known with rfl | old
    · dsimp only
      omega
    · have inside := wellFormed.named old
      omega

end Factored

/-! ### Occurrences of symbols -/

/-- The occurrences of symbols in all alternatives. -/
def occurrences (grammar : Grammar) : List Symbol :=
  grammar.productions.entries.flatMap fun production => production.2.flatMap Alternative.symbols

theorem length_occurrences : grammar.occurrences.length = grammar.occurrenceCount := rfl

/-- What is left of the members is shorter by the shared beginning of each. -/
theorem Group.countP_members (test : Symbol → Bool) {listed : List Alternative}
    (inside : listed ⊆ group.members) :
    (listed.flatMap Alternative.symbols).countP test =
      listed.length * group.shared.countP test +
        ((listed.map group.suffixOf).flatMap Alternative.symbols).countP test := by
  induction listed with
  | nil => simp
  | cons first rest ih =>
    rw [List.cons_subset] at inside
    rw [List.flatMap_cons, List.countP_append, ih inside.2, symbols_of_mem_members inside.1,
      List.countP_append, List.map_cons, List.flatMap_cons, List.countP_append, List.length_cons,
      Nat.succ_mul]
    omega

namespace Factored

variable {name : String} (factored : Factored before after s group name)
  (wellFormed : before.WellFormed)

include factored wellFormed

/-- The entries of two productions change. -/
theorem entries_perm : ∃ alternatives others,
    group.Within alternatives ∧
    before.productions.entries.Perm ((s, alternatives) :: others) ∧
    after.productions.entries.Perm
      ((⟨before.names.size⟩, group.suffixes) ::
        (s, group.replaceBy ⟨before.names.size⟩) :: others) := by
  obtain ⟨alternatives, given, within⟩ := factored.within
  have differs := factored.ne_new wellFormed
  have undefined := wellFormed.bounded ⟨before.names.size⟩ (Nat.le_refl _)
  have nodup : ∀ map : OrderedMap Symbol (List Alternative), map.entries.Nodup :=
    fun map => map.nodup.of_map
  have mem_entries : ∀ {grammar : Grammar} {t found},
      (t, found) ∈ grammar.productions.entries ↔ grammar.alternatives? t = some found :=
    OrderedMap.mem_entries_iff
  let others := before.productions.entries.filter fun entry => decide (entry.1 ≠ s)
  have mem_others : ∀ {t found}, (t, found) ∈ others ↔
      before.alternatives? t = some found ∧ t ≠ s := by
    intro t found
    rw [List.mem_filter, mem_entries, decide_eq_true_eq]
  have nodupOthers : others.Nodup := (nodup _).filter _
  refine ⟨alternatives, others, within, ?_, ?_⟩
  · refine (List.perm_ext_iff_of_nodup (nodup _) (List.nodup_cons.mpr ⟨?_, nodupOthers⟩)).mpr ?_
    · exact fun listed => (mem_others.mp listed).2 rfl
    · rintro ⟨t, found⟩
      rw [List.mem_cons, mem_others, mem_entries, Prod.mk.injEq]
      by_cases same : t = s
      · simp [same, given, eq_comm]
      · simp [same]
  · refine (List.perm_ext_iff_of_nodup (nodup _) (List.nodup_cons.mpr ⟨?_, List.nodup_cons.mpr
      ⟨?_, nodupOthers⟩⟩)).mpr ?_
    · rw [List.mem_cons, Prod.mk.injEq, mem_others, undefined]
      simp [differs.symm]
    · exact fun listed => (mem_others.mp listed).2 rfl
    · rintro ⟨t, found⟩
      rw [List.mem_cons, List.mem_cons, mem_others, mem_entries,
        factored.alternatives?_eq wellFormed, Prod.mk.injEq, Prod.mk.injEq]
      by_cases new : t = ⟨before.names.size⟩
      · simp [new, differs.symm, undefined, eq_comm]
      · by_cases same : t = s
        · simp [same, differs, eq_comm]
        · simp [new, same]

/-- Of the occurrences of symbols, those in the shared beginning of all members but one are gone,
and there is one of the new nonterminal. -/
theorem exists_countP_occurrences (test : Symbol → Bool) : ∃ others,
    before.occurrences.countP test =
        group.members.length * group.shared.countP test + others ∧
      after.occurrences.countP test =
        group.shared.countP test + [⟨before.names.size⟩].countP test + others := by
  obtain ⟨alternatives, others, within, old, new⟩ := factored.entries_perm wellFormed
  have members := Group.countP_members test (List.Subset.refl group.members)
  have parted := (within.perm.flatMap_right Alternative.symbols).countP_eq test
  have replaced := ((group.replaceBy_perm ⟨before.names.size⟩).flatMap_right
    Alternative.symbols).countP_eq test
  rw [List.flatMap_append, List.countP_append] at parted
  rw [List.flatMap_cons, List.countP_append, Group.symbols_stand (ne_epsilon_size _),
    List.countP_append] at replaced
  rw [occurrences, occurrences, (new.flatMap_right _).countP_eq, (old.flatMap_right _).countP_eq]
  simp only [List.flatMap_cons, List.countP_append, Group.suffixes_eq_map]
  exact ⟨_, by rw [parted, members, Nat.add_assoc, Nat.add_assoc], by omega⟩

end Factored

end Grammar

end Predictive
