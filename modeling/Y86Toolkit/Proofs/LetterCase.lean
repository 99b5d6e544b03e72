import Y86Toolkit.Proofs.AlikeReadings
import Y86Toolkit.Proofs.LiteralGrammar
import Y86Toolkit.Proofs.Operands

/-!
Letter case in statements. It does not count in names, and in operands not behind a
percent sign, where nothing but a register can stand. A statement that is written in
another case does the same, and where it fails, it fails for a cause of the same sort.
-/

namespace Y86Toolkit

namespace Assembly

/-- Texts with the same letters, in any case. -/
def SameLetters (cs ds : List Char) : Prop := cs.map Char.toLower = ds.map Char.toLower

/-- Operands that are the same up to a percent sign, and behind it have the same letters. -/
inductive Recased : List Char → List Char → Prop where
  | nil : Recased [] []
  | cons (c : Char) {cs ds : List Char} (rest : Recased cs ds) : Recased (c :: cs) (c :: ds)
  | percent {cs ds : List Char} (letters : SameLetters cs ds) : Recased ('%' :: cs) ('%' :: ds)

/-- The words of two statements: names with the same letters, and operands that differ in
case at most. -/
inductive Reworded : List (List Char) → List (List Char) → Prop where
  | nil : Reworded [] []
  | cons {name other : List Char} {operands others : List (List Char)} (named : SameLetters name other)
      (recased : List.Forall₂ Recased operands others) : Reworded (name :: operands) (other :: others)

end Assembly

namespace LetterCase
open Assembly Literal LiteralGrammar Numerals AlikeReadings

variable {cs ds : List Char} {symbols : SymbolTable}

/-! ## Letters -/

/-- Only letters have another case. -/
theorem eq_of_lower {c d : Char} (same : c.toLower = d.toLower) (other : d.isAlpha = false) : c = d := by
  rw [Char.isAlpha, Bool.or_eq_false_iff] at other
  obtain ⟨noUpper, noLower⟩ := other
  have still : d.toLower = d := dif_neg (by simpa [Char.isUpper] using noUpper)
  rw [still, Char.toLower] at same
  split at same
  · -- What a capital letter is lowered to is a small one.
    rename_i upper
    subst same
    have range : 65 ≤ c.toNat ∧ c.toNat ≤ 90 := by simpa [UInt32.le_iff_toNat_le] using upper
    have beyond : 97 ≤ (c.toNat + 32) % 2 ^ 32 → 122 < (c.toNat + 32) % 2 ^ 32 := by
      simpa [Char.isLower, UInt32.le_iff_toNat_le] using noLower
    omega
  · exact same

theorem mem_of_sameLetters (letters : SameLetters cs ds) {c : Char} (other : c.isAlpha = false)
    (held : c ∈ cs) : c ∈ ds := by
  have lower : c.toLower ∈ ds.map Char.toLower := letters ▸ List.mem_map_of_mem held
  obtain ⟨d, there, same⟩ := List.mem_map.mp lower
  exact eq_of_lower same other ▸ there

/-- Texts with the same letters are split at the same place. -/
theorem sameLetters_append_cons {front back : List Char} {mark : Char} (other : mark.isAlpha = false)
    (letters : SameLetters (front ++ mark :: back) ds) :
    ∃ first second, ds = first ++ mark :: second ∧ SameLetters front first ∧ SameLetters back second := by
  rw [SameLetters, List.map_append, List.map_cons] at letters
  obtain ⟨first, rest, rfl, same, behind⟩ := List.map_eq_append_iff.mp letters.symm
  obtain ⟨c, second, rfl, marked, after⟩ := List.map_eq_cons_iff.mp behind
  cases eq_of_lower marked other
  exact ⟨first, second, rfl, same.symm, after.symm⟩

/-! ## Operands -/

theorem recased_refl (cs : List Char) : Recased cs cs := by
  induction cs with
  | nil => exact .nil
  | cons c cs ih => exact .cons c ih

theorem recased_symm (recased : Recased cs ds) : Recased ds cs := by
  induction recased with
  | nil => exact .nil
  | cons c _ ih => exact .cons c ih
  | percent letters => exact .percent (Eq.symm letters)

theorem recased_append (front : List Char) (recased : Recased cs ds) :
    Recased (front ++ cs) (front ++ ds) := by
  induction front with
  | nil => exact recased
  | cons c front ih => exact .cons c ih

theorem sameLetters_of_recased (recased : Recased cs ds) : SameLetters cs ds := by
  induction recased with
  | nil => rfl
  | cons c _ ih => exact congrArg (c.toLower :: ·) ih
  | percent letters => exact congrArg ('%'.toLower :: ·) letters

/-- An operand that is changed has a percent sign in front of what is. -/
theorem recased_cases (recased : Recased cs ds) :
    cs = ds ∨ ∃ front tail other, cs = front ++ '%' :: tail ∧ ds = front ++ '%' :: other := by
  induction recased with
  | nil => exact .inl rfl
  | cons c _ ih =>
    rcases ih with rfl | ⟨front, tail, other, rfl, rfl⟩
    · exact .inl rfl
    · exact .inr ⟨c :: front, tail, other, rfl, rfl⟩
  | percent => exact .inr ⟨[], _, _, rfl, rfl⟩

/-- What stands in front of a mark is recased as well. -/
theorem recased_append_cons {front back : List Char} {mark : Char} (other : mark.isAlpha = false)
    (recased : Recased (front ++ mark :: back) ds) :
    ∃ first second, ds = first ++ mark :: second ∧ Recased front first ∧ SameLetters back second := by
  induction front generalizing ds with
  | nil =>
    cases recased with
    | cons c rest => exact ⟨[], _, rfl, .nil, sameLetters_of_recased rest⟩
    | percent letters => exact ⟨[], _, rfl, .nil, letters⟩
  | cons c front ih =>
    cases recased with
    | cons c rest =>
      obtain ⟨first, second, rfl, inside, behind⟩ := ih rest
      exact ⟨c :: first, second, rfl, .cons c inside, behind⟩
    | percent letters =>
      obtain ⟨first, second, rfl, inside, behind⟩ := sameLetters_append_cons other letters
      exact ⟨'%' :: first, second, rfl, .percent inside, behind⟩

/-- Whether a text looks like a number is seen in front of a percent sign. -/
theorem looksNumeric_percent (front tail : List Char) :
    LooksNumeric (front ++ '%' :: tail) ↔ LooksNumeric front := by
  constructor
  · rintro ⟨signs, negative, digit, rest, isSigns, same, isDigit⟩
    have free : '%' ∉ signs ++ [digit] := by
      have noDigit : digit ≠ '%' := by
        rintro rfl
        cases isDigit
      cases isSigns <;> simp [noDigit.symm]
    have split : (signs ++ [digit]) ++ rest = front ++ '%' :: tail := by simpa using same.symm
    rcases List.append_eq_append_iff.mp split with ⟨more, rfl, -⟩ | ⟨more, long, behind⟩
    · exact ⟨signs, negative, digit, more, isSigns, by simp, isDigit⟩
    · cases more with
      | nil => exact ⟨signs, negative, digit, [], isSigns, by simpa using long.symm, isDigit⟩
      | cons c more =>
        cases (List.cons.inj behind).1
        exact absurd (long ▸ by simp) free
  · rintro ⟨signs, negative, digit, rest, isSigns, rfl, isDigit⟩
    exact ⟨signs, negative, digit, rest ++ '%' :: tail, isSigns, by simp, isDigit⟩

theorem percent_not_mem_digits {base n : Nat} {digits : List Char} (denotes : Denotes base digits n) :
    '%' ∉ digits := by
  intro held
  obtain ⟨d, digit⟩ := exists_digitValue_of_mem denotes held
  simp [Numeral.digitValue?] at digit

/-- No number holds a percent sign. -/
theorem percent_not_mem {w : Word} (number : Number cs w) : '%' ∉ cs := by
  have size {text : List Char} {n : Nat} (size : Size text n) : '%' ∉ text := by
    cases size with
    | decimal _ denotes => exact percent_not_mem_digits denotes
    | hexadecimal marked sign _ denotes =>
      have free := percent_not_mem_digits denotes
      rcases marked with rfl | rfl <;> rcases sign with rfl | rfl <;> simp [free]
  have signed {text : List Char} (signed : Signed text w) : '%' ∉ text := by
    cases signed with
    | plain isSize => exact size isSize
    | negative isSize => simp [size isSize]
  rcases number with whole | ⟨rest, rfl, behind⟩
  · exact signed whole
  · simp [signed behind]

/-- Operands in another case are read as the same number, or neither is one. -/
theorem read_recased (recased : Recased cs ds) : Literal.read cs = Literal.read ds := by
  rcases recased_cases recased with rfl | ⟨front, tail, other, rfl, rfl⟩
  · rfl
  have noValue (tail : List Char) (w : Word) : Literal.read (front ++ '%' :: tail) ≠ .value w :=
    fun read => percent_not_mem (Literals.read_eq_value_iff.mp read) (by simp)
  by_cases looks : LooksNumeric front
  · have outOfRange (tail : List Char) : Literal.read (front ++ '%' :: tail) = .outOfRange := by
      cases read : Literal.read (front ++ '%' :: tail) with
      | notNumeric =>
        exact absurd ((looksNumeric_percent front tail).mpr looks) (read_eq_notNumeric_iff.mp read)
      | outOfRange => rfl
      | value w => exact absurd read (noValue tail w)
    rw [outOfRange, outOfRange]
  · have notNumeric (tail : List Char) : Literal.read (front ++ '%' :: tail) = .notNumeric :=
      read_eq_notNumeric_iff.mpr fun seems => looks ((looksNumeric_percent front tail).mp seems)
    rw [notNumeric, notNumeric]

/-- Nor does a label, whatever dollar signs are in front of it. -/
theorem percent_not_identifier (front tail : List Char) :
    ¬ isIdentifier ((front ++ '%' :: tail).dropWhile (· == '$')) = true := by
  have free {label : List Char} (identifier : isIdentifier label = true) : '%' ∉ label := by
    cases label with
    | nil => exact List.not_mem_nil
    | cons c rest =>
      simp only [isIdentifier, Bool.and_eq_true, List.all_eq_true] at identifier
      intro held
      rcases List.mem_cons.mp held with rfl | later
      · exact absurd identifier.1 (by decide)
      · exact absurd (identifier.2 '%' later) (by decide)
  intro identifier
  refine free identifier ?_
  rw [List.dropWhile_append]
  split
  · exact List.mem_cons_self
  · exact List.mem_append_right _ List.mem_cons_self

/-- **A number or label has the same value in another case**: with a percent sign it is none. -/
theorem value_recased (recased : Recased cs ds) :
    Fallible.Alike Cause.Alike Eq (Operand.value symbols (String.ofList cs))
      (Operand.value symbols (String.ofList ds)) := by
  have read := read_recased recased
  rcases recased_cases recased with rfl | ⟨front, tail, other, rfl, rfl⟩
  · exact (same_equivalence _).refl _
  simp only [Operand.value, String.toList_ofList, read, if_neg (percent_not_identifier _ _)]
  split
  · exact .ok rfl
  · exact .error rfl
  · exact .error rfl

theorem register_recased (letters : SameLetters cs ds) :
    Fallible.Alike Cause.Alike Eq (Operand.register (String.ofList cs))
      (Operand.register (String.ofList ds)) := by
  have found : Register.ofName? (String.ofList cs) = Register.ofName? (String.ofList ds) := by
    simp only [Register.ofName?, String.toList_ofList,
      show cs.map Char.toLower = ds.map Char.toLower from letters]
  simp only [Operand.register, found]
  split
  · exact .ok rfl
  · exact .error rfl

/-- Texts with the same letters end with the same mark. -/
theorem sameLetters_concat {front : List Char} {mark : Char} (other : mark.isAlpha = false)
    (letters : SameLetters (front ++ [mark]) ds) :
    ∃ first, ds = first ++ [mark] ∧ SameLetters front first := by
  obtain ⟨first, second, rfl, same, behind⟩ := sameLetters_append_cons other letters
  rw [List.map_eq_nil_iff.mp behind.symm]
  exact ⟨first, rfl, same⟩

/-- **A place in memory is the same in another case.** -/
theorem memory_recased (recased : Recased cs ds) :
    Fallible.Alike Cause.Alike Eq (Operand.memory symbols (String.ofList cs))
      (Operand.memory symbols (String.ofList ds)) := by
  have free {front first : List Char} (recased : Recased front first) (unmarked : '(' ∉ front) :
      '(' ∉ first :=
    fun held => unmarked (mem_of_sameLetters (sameLetters_of_recased (recased_symm recased)) rfl held)
  simp only [Operand.memory, String.toList_ofList]
  cases parts : Text.splitAtFirst '(' cs with
  | none =>
    rw [Texts.splitAtFirst_eq_none_iff.mpr (free recased (Texts.splitAtFirst_eq_none_iff.mp parts))]
    exact .error rfl
  | some both =>
    obtain ⟨front, rest⟩ := both
    rw [Texts.splitAtFirst_eq_some parts] at recased
    obtain ⟨first, second, rfl, inside, behind⟩ := recased_append_cons rfl recased
    rw [Texts.splitAtFirst_append (free inside (Texts.mark_not_mem_before parts))]
    dsimp only
    by_cases closed : ∃ base, rest = base ++ [')']
    · obtain ⟨base, rfl⟩ := closed
      obtain ⟨other, rfl, named⟩ := sameLetters_concat rfl behind
      simp only [List.getLast?_concat, if_true, List.dropLast_concat]
      have located (offset : Word) : Fallible.Alike Cause.Alike Eq
          (Operand.register (String.ofList base) >>= fun base => pure (offset, base))
          (Operand.register (String.ofList other) >>= fun base => pure (offset, base)) := by
        refine (register_recased named).bind ?_
        rintro base _ rfl
        exact .ok rfl
      cases inside with
      | nil => exact located 0
      | cons c inside =>
        refine (value_recased (.cons c inside)).bind ?_
        rintro offset _ rfl
        exact located offset
      | percent letters =>
        refine (value_recased (.percent letters)).bind ?_
        rintro offset _ rfl
        exact located offset
    · have alsoOpen : ¬ ∃ base, second = base ++ [')'] := by
        rintro ⟨base, rfl⟩
        obtain ⟨other, same, -⟩ := sameLetters_concat rfl (Eq.symm behind)
        exact closed ⟨other, same⟩
      rw [if_neg (mt List.getLast?_eq_some_iff.mp closed), if_neg (mt List.getLast?_eq_some_iff.mp alsoOpen)]
      exact .error rfl

/-! ## Statements -/

/-- **An instruction is made of operands in any case.** -/
theorem instruction_recased {mnemonic : Mnemonic} {operands others : List (List Char)}
    (recased : List.Forall₂ Recased operands others) (count : operands.length = mnemonic.arity) :
    Fallible.Alike Cause.Alike Eq (instructionOf symbols mnemonic (operands.map String.ofList))
      (instructionOf symbols mnemonic (others.map String.ofList)) := by
  cases mnemonic with
  | halt | nop | ret =>
    obtain rfl := List.length_eq_zero_iff.mp count
    cases recased
    exact .ok rfl
  | jump | call =>
    obtain ⟨only, rfl⟩ := List.length_eq_one_iff.mp count
    obtain _ | ⟨only, ⟨⟩⟩ := recased
    refine (value_recased only).bind ?_
    rintro value _ rfl
    exact .ok rfl
  | push | pop =>
    obtain ⟨only, rfl⟩ := List.length_eq_one_iff.mp count
    obtain _ | ⟨only, ⟨⟩⟩ := recased
    refine (register_recased (sameLetters_of_recased only)).bind ?_
    rintro r _ rfl
    exact .ok rfl
  | move | alu =>
    obtain ⟨first, second, rfl⟩ := List.length_eq_two.mp count
    obtain _ | ⟨source, _ | ⟨target, ⟨⟩⟩⟩ := recased
    refine (register_recased (sameLetters_of_recased source)).bind ?_
    rintro r _ rfl
    refine (register_recased (sameLetters_of_recased target)).bind ?_
    rintro s _ rfl
    exact .ok rfl
  | loadImmediate =>
    obtain ⟨first, second, rfl⟩ := List.length_eq_two.mp count
    obtain _ | ⟨value, _ | ⟨target, ⟨⟩⟩⟩ := recased
    refine (value_recased value).bind ?_
    rintro w _ rfl
    refine (register_recased (sameLetters_of_recased target)).bind ?_
    rintro r _ rfl
    exact .ok rfl
  | store =>
    obtain ⟨first, second, rfl⟩ := List.length_eq_two.mp count
    obtain _ | ⟨source, _ | ⟨place, ⟨⟩⟩⟩ := recased
    refine (memory_recased place).bind ?_
    rintro ⟨offset, base⟩ _ rfl
    refine (register_recased (sameLetters_of_recased source)).bind ?_
    rintro r _ rfl
    exact .ok rfl
  | load =>
    obtain ⟨first, second, rfl⟩ := List.length_eq_two.mp count
    obtain _ | ⟨place, _ | ⟨target, ⟨⟩⟩⟩ := recased
    refine (memory_recased place).bind ?_
    rintro ⟨offset, base⟩ _ rfl
    refine (register_recased (sameLetters_of_recased target)).bind ?_
    rintro r _ rfl
    exact .ok rfl

theorem quad_recased (recased : Recased cs ds) :
    (Statement.quad (String.ofList cs)).Alike (.quad (String.ofList ds)) where
  next _ := rfl
  bytes symbols := by
    refine (value_recased recased).bind ?_
    rintro w _ rfl
    exact .ok rfl

theorem byte_recased (recased : Recased cs ds) :
    (Statement.byte (String.ofList cs)).Alike (.byte (String.ofList ds)) where
  next _ := rfl
  bytes symbols := by
    refine (value_recased recased).bind ?_
    rintro w _ rfl
    split
    · exact .error rfl
    · exact .ok rfl

variable {operands others : List (List Char)} {name other : String}

theorem single_recased (recased : List.Forall₂ Recased operands others) :
    Fallible.Alike Cause.Alike (fun operand alike => Recased operand.toList alike.toList)
      (Statement.single name (operands.map String.ofList))
      (Statement.single name (others.map String.ofList)) := by
  obtain _ | ⟨only, _ | ⟨second, more⟩⟩ := recased
  · exact .error rfl
  · exact .ok (by simpa using only)
  · exact .error rfl

theorem numeric_recased (recased : List.Forall₂ Recased operands others) :
    Fallible.Alike Cause.Alike Eq (Statement.numeric name (operands.map String.ofList))
      (Statement.numeric name (others.map String.ofList)) := by
  refine (single_recased recased).bind fun operand alike recased => ?_
  rw [read_recased recased]
  split
  · exact .error rfl
  · exact .error rfl
  · exact .ok rfl

/-- **A statement is read alike in another case**, from its name and its operands. -/
theorem ofFields_recased (named : SameLetters name.toList other.toList)
    (recased : List.Forall₂ Recased operands others) :
    Fallible.Alike Cause.Alike Statement.Alike (Statement.ofFields name (operands.map String.ofList))
      (Statement.ofFields other (others.map String.ofList)) := by
  simp only [Statement.ofFields]
  rw [show name.toList.map Char.toLower = other.toList.map Char.toLower from named]
  generalize String.ofList (other.toList.map Char.toLower) = lowered
  split
  · refine (numeric_recased recased).bind ?_
    rintro address _ rfl
    exact .ok (statement_equivalence.refl _)
  split
  · refine (numeric_recased recased).bind ?_
    rintro alignment _ rfl
    split
    · exact .error rfl
    · exact .ok (statement_equivalence.refl _)
  split
  · exact (single_recased recased).bind fun operand alike recased => .ok (by simpa using quad_recased recased)
  split
  · exact (single_recased recased).bind fun operand alike recased => .ok (by simpa using byte_recased recased)
  split
  · exact .error rfl
  · rename_i mnemonic _
    have count : (operands.map String.ofList).length = (others.map String.ofList).length := by
      rw [List.length_map, List.length_map, recased.length_eq]
    rw [count]
    split
    · rename_i arity
      refine .ok ⟨fun _ => rfl, fun symbols => ?_⟩
      refine (instruction_recased recased (by rwa [← count, List.length_map] at arity)).bind ?_
      rintro i _ rfl
      exact .ok rfl
    · exact .error rfl

/-- A statement is read alike from words that are the same but for their case. -/
theorem read_reworded {code changed : List Char} {words others : List (List Char)}
    (inside : Words code words) (changedInside : Words changed others) (reworded : Reworded words others) :
    Fallible.Alike Cause.Alike Statement.Alike (Statement.read code) (Statement.read changed) := by
  rw [Words.read_of_words inside, Words.read_of_words changedInside]
  cases reworded with
  | nil => exact .ok (statement_equivalence.refl _)
  | cons named recased => exact ofFields_recased (by simpa using named) recased

end LetterCase

end Y86Toolkit
