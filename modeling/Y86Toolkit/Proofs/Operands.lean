import Y86Toolkit.Assembly.Operand
import Y86Toolkit.Proofs.Literals
import Y86Toolkit.Proofs.Words

/-!
What the operands of an instruction stand for, read off their texts and the
addresses of labels alone. An instruction is made of a name and operands exactly
when these are written for it.
-/

namespace Y86Toolkit.Assembly

/-- A text names a register, in any case. -/
def Names (operand : String) (r : Register) : Prop := lowered operand = r.name

/-- A text stands for a word: it is a number, or a label behind any dollar signs,
which stands for its address. -/
inductive Constant (symbols : SymbolTable) (operand : String) : Word → Prop where
  | number {w : Word} (number : Literal.Number operand.toList w) : Constant symbols operand w
  | label {label : String} {address count : Nat}
      (text : operand.toList = List.replicate count '$' ++ label.toList)
      (identifier : isIdentifier label.toList = true) (defined : symbols[label]? = some address) :
      Constant symbols operand (UInt64.ofNat address)

/-- A text stands for a place in memory: a displacement, if any, in front of a base
register in parentheses. -/
def Place (symbols : SymbolTable) (operand : String) (offset : Word) (base : Register) : Prop :=
  ∃ displacement register : String, operand = displacement ++ "(" ++ register ++ ")" ∧
    '(' ∉ displacement.toList ∧ Names register base ∧
    (displacement = "" ∧ offset = 0 ∨ displacement ≠ "" ∧ Constant symbols displacement offset)

/-- The operands that are written for an instruction. -/
def WrittenFor (symbols : SymbolTable) (operands : List String) : Instruction → Prop
  | .halt | .nop | .ret => operands = []
  | .move _ source target | .alu _ source target =>
    ∃ first second, operands = [first, second] ∧ Names first source ∧ Names second target
  | .loadImmediate value target =>
    ∃ first second, operands = [first, second] ∧ Constant symbols first value ∧ Names second target
  | .store source base displacement =>
    ∃ first second, operands = [first, second] ∧ Names first source ∧
      Place symbols second displacement base
  | .load base target displacement =>
    ∃ first second, operands = [first, second] ∧ Place symbols first displacement base ∧
      Names second target
  | .jump _ destination | .call destination =>
    ∃ only, operands = [only] ∧ Constant symbols only destination
  | .push register | .pop register => ∃ only, operands = [only] ∧ Names only register

end Y86Toolkit.Assembly

namespace Y86Toolkit.Operands
open Assembly Fallible Literals Texts

variable {symbols : SymbolTable} {operand : String} {w : Word} {r : Register}

theorem register_eq_ok_iff : Operand.register operand = .ok r ↔ Names operand r := by
  have same (s : Register) :
      (s.name.toList == operand.toList.map Char.toLower) = true ↔ Names operand s := by
    rw [beq_iff_eq, Names, lowered, ← String.toList_inj, String.toList_ofList, eq_comm]
  rw [Operand.register]
  constructor
  · intro found
    split at found
    · rename_i s isName
      cases found
      unfold Register.ofName? at isName
      have found := List.find?_some isName
      exact (same r).mp found
    · cases found
  · intro names
    -- No two registers have one name.
    have itself : ∀ s : Register, (Register.all.find? fun t => t.name.toList == s.name.toList) = some s := by
      intro s
      cases s <;> decide
    rw [Register.ofName?, ← beq_iff_eq.mp ((same r).mpr names), itself]

/-! ## Constants -/

/-- Letters come behind the digits. -/
theorem not_digit_of_letter {c : Char} (letter : c.isAlpha = true) : c.isDigit = false := by
  have above : 57 < c.toNat := by
    rcases Bool.or_eq_true_iff.mp letter with large | small
    · exact Nat.lt_of_lt_of_le (by decide) (UInt32.le_iff_toNat_le.mp (of_decide_eq_true large).1)
    · have starts := (Bool.and_eq_true_iff.mp small).1
      exact Nat.lt_of_lt_of_le (by decide) (UInt32.le_iff_toNat_le.mp (of_decide_eq_true starts))
  refine Bool.eq_false_iff.mpr fun digit => Nat.not_lt_of_le ?_ above
  exact UInt32.le_iff_toNat_le.mp (of_decide_eq_true (Bool.and_eq_true_iff.mp digit).2)

theorem identifier_starts {label : List Char} (identifier : isIdentifier label = true) :
    ∃ c rest, label = c :: rest ∧ c ≠ '$' ∧ c ≠ '-' ∧ c.isDigit = false := by
  cases label with
  | nil => cases identifier
  | cons c rest =>
    simp only [isIdentifier, Bool.and_eq_true, Bool.or_eq_true, beq_iff_eq] at identifier
    obtain ⟨letter | rfl, -⟩ := identifier
    · refine ⟨c, rest, rfl, ?_, ?_, ?_⟩
      · rintro rfl
        cases letter
      · rintro rfl
        cases letter
      · exact not_digit_of_letter letter
    · exact ⟨'_', rest, rfl, by decide⟩

/-- Dollar signs are dropped up to a label. -/
theorem dropWhile_dollars_append {label : List Char} (identifier : isIdentifier label = true) (count : Nat)
    (behind : List Char) :
    (List.replicate count '$' ++ (label ++ behind)).dropWhile (· == '$') = label ++ behind := by
  obtain ⟨c, rest, rfl, other, -⟩ := identifier_starts identifier
  rw [List.dropWhile_append_of_pos (by simp [List.mem_replicate])]
  exact List.dropWhile_cons_of_neg (by simpa using other)

theorem dropWhile_dollars {label : List Char} (identifier : isIdentifier label = true) (count : Nat) :
    (List.replicate count '$' ++ label).dropWhile (· == '$') = label := by
  simpa using dropWhile_dollars_append identifier count []

/-- What starts with a label is no number, with or without dollar signs. -/
theorem read_label_append {label : List Char} (identifier : isIdentifier label = true) (count : Nat)
    (behind : List Char) : Literal.read (List.replicate count '$' ++ (label ++ behind)) = .notNumeric := by
  obtain ⟨c, rest, rfl, other, unsigned, noDigit⟩ := identifier_starts identifier
  cases count with
  | zero =>
    rw [List.replicate_zero, List.nil_append, List.cons_append,
      read_bare fun _ same => other (List.cons.inj same).1]
    exact read_notNumeric (by simpa using noDigit) fun _ same => unsigned (List.cons.inj same).1
  | succ count =>
    rw [List.replicate_succ, List.cons_append]
    cases count with
    | zero => exact read_notNumeric (by simpa using noDigit) fun _ same => unsigned (List.cons.inj same).1
    | succ count => exact read_notNumeric (by simp [List.replicate_succ]) (by simp [List.replicate_succ])

theorem read_label {label : List Char} (identifier : isIdentifier label = true) (count : Nat) :
    Literal.read (List.replicate count '$' ++ label) = .notNumeric := by
  simpa using read_label_append identifier count []

theorem value_eq_ok_iff : Operand.value symbols operand = .ok w ↔ Constant symbols operand w := by
  rw [Operand.value]
  constructor
  · intro found
    split at found
    · rename_i word read
      cases found
      exact .number (read_eq_value_iff.mp read)
    · cases found
    · dsimp only at found
      split at found
      · rename_i identifier
        split at found
        · rename_i address defined
          cases found
          have dollars : ∀ c ∈ operand.toList.takeWhile (· == '$'), c = '$' := by
            intro c taken
            simpa using List.all_eq_true.mp List.all_takeWhile c taken
          have text : operand.toList =
              List.replicate (operand.toList.takeWhile (· == '$')).length '$' ++
                (String.ofList (operand.toList.dropWhile (· == '$'))).toList := by
            rw [← List.eq_replicate_of_mem dollars, String.toList_ofList, List.takeWhile_append_dropWhile]
          exact .label text (by rwa [String.toList_ofList]) defined
        · cases found
      · cases found
  · intro constant
    cases constant with
    | number number => rw [read_eq_value_iff.mpr number]
    | @label label address count text identifier defined =>
      have other : Literal.read operand.toList = .notNumeric := by
        rw [text]
        exact read_label identifier count
      have stripped : operand.toList.dropWhile (· == '$') = label.toList := by
        rw [text]
        exact dropWhile_dollars identifier count
      rw [other]
      simp only [stripped, identifier, if_true, String.ofList_toList, defined]

theorem memory_eq_ok_iff {offset : Word} {base : Register} :
    Operand.memory symbols operand = .ok (offset, base) ↔ Place symbols operand offset base := by
  rw [Operand.memory]
  constructor
  · intro found
    split at found
    · cases found
    · rename_i front rest parts
      split at found
      · rename_i closed
        have whole : operand = String.ofList front ++ "(" ++ String.ofList rest.dropLast ++ ")" := by
          rw [← String.toList_inj, splitAtFirst_eq_some parts, ← List.dropLast_append_getLast? ')' closed]
          simp
        have unmarked : '(' ∉ (String.ofList front).toList := by
          rw [String.toList_ofList]
          exact mark_not_mem_before parts
        split at found
        · rename_i bare
          simp only [bind_eq_ok, pure_eq_ok, register_eq_ok_iff, Prod.mk.injEq] at found
          obtain ⟨_, rfl, _, names, rfl, rfl⟩ := found
          exact ⟨_, _, whole, unmarked, names,
            .inl ⟨by rw [List.isEmpty_iff.mp bare, String.ofList_nil], rfl⟩⟩
        · rename_i some
          simp only [bind_eq_ok, pure_eq_ok, register_eq_ok_iff, value_eq_ok_iff, Prod.mk.injEq] at found
          obtain ⟨_, constant, _, names, rfl, rfl⟩ := found
          exact ⟨_, _, whole, unmarked, names, .inr ⟨by simpa using some, constant⟩⟩
      · cases found
  · rintro ⟨displacement, register, rfl, unmarked, names, constant⟩
    have parts : Text.splitAtFirst '(' (displacement ++ "(" ++ register ++ ")").toList =
        some (displacement.toList, register.toList ++ [')']) := by
      rw [← splitAtFirst_append unmarked]
      simp
    have named := register_eq_ok_iff.mpr names
    simp only [parts, List.getLast?_concat, List.dropLast_concat, String.ofList_toList, if_true]
    rcases constant with ⟨rfl, rfl⟩ | ⟨some, constant⟩
    · rw [named]
      rfl
    · have found := value_eq_ok_iff.mpr constant
      have bare : ¬ displacement.toList.isEmpty := by simpa using some
      rw [if_neg bare, found, named]
      rfl

/-! ## Instructions -/

/-- **An instruction is made of the operands that are written for it.** -/
theorem instructionOf_eq_ok_iff {mnemonic : Mnemonic} {operands : List String} {i : Instruction} :
    instructionOf symbols mnemonic operands = .ok i ↔
      i.mnemonic = mnemonic ∧ WrittenFor symbols operands i := by
  constructor
  · intro made
    unfold instructionOf at made
    split at made <;>
      simp only [bind_eq_ok, pure_eq_ok, register_eq_ok_iff, value_eq_ok_iff, memory_eq_ok_iff,
        Except.ok.injEq, reduceCtorEq, Prod.exists] at made
    case h_1 | h_2 | h_3 =>
      subst made
      exact ⟨rfl, rfl⟩
    case h_4 | h_5 | h_8 =>
      obtain ⟨_, first, _, second, rfl⟩ := made
      exact ⟨rfl, _, _, rfl, first, second⟩
    case h_6 =>
      obtain ⟨_, _, place, _, names, rfl⟩ := made
      exact ⟨rfl, _, _, rfl, names, place⟩
    case h_7 =>
      obtain ⟨_, _, place, _, names, rfl⟩ := made
      exact ⟨rfl, _, _, rfl, place, names⟩
    case h_9 | h_10 | h_11 | h_12 =>
      obtain ⟨_, only, rfl⟩ := made
      exact ⟨rfl, _, rfl, only⟩
  · rintro ⟨rfl, written⟩
    cases i with
    | halt | nop | ret =>
      cases written
      rfl
    | move | alu | loadImmediate =>
      obtain ⟨_, _, rfl, first, second⟩ := written
      simp only [Instruction.mnemonic, instructionOf, bind_eq_ok, pure_eq_ok, register_eq_ok_iff,
        value_eq_ok_iff]
      exact ⟨_, first, _, second, rfl⟩
    | store =>
      obtain ⟨_, _, rfl, names, place⟩ := written
      simp only [Instruction.mnemonic, instructionOf, bind_eq_ok, pure_eq_ok, register_eq_ok_iff,
        memory_eq_ok_iff, Prod.exists]
      exact ⟨_, _, place, _, names, rfl⟩
    | load =>
      obtain ⟨_, _, rfl, place, names⟩ := written
      simp only [Instruction.mnemonic, instructionOf, bind_eq_ok, pure_eq_ok, register_eq_ok_iff,
        memory_eq_ok_iff, Prod.exists]
      exact ⟨_, _, place, _, names, rfl⟩
    | jump | call | push | pop =>
      obtain ⟨_, rfl, only⟩ := written
      simp only [Instruction.mnemonic, instructionOf, bind_eq_ok, pure_eq_ok, register_eq_ok_iff,
        value_eq_ok_iff]
      exact ⟨_, only, rfl⟩

end Y86Toolkit.Operands
