import Y86Toolkit.Disassembly
import Y86Toolkit.Proofs.Operands
import Y86Toolkit.Proofs.StraightSource

/-!
Lines as they are printed. Each one is a name and its operands, and reads back as
the statement it was printed for: an instruction emits its own encoding, and a raw
byte itself.
-/

namespace Y86Toolkit.Assembly

/-- A character that neither separates words nor takes lines apart. -/
def Plain (c : Char) : Prop := ¬ Separates c ∧ c ∉ ['#', ':', '\n']

instance (c : Char) : Decidable (Plain c) := inferInstanceAs (Decidable (_ ∧ _))

/-- A word that is printed. -/
def PlainWord (word : List Char) : Prop := word ≠ [] ∧ ∀ c ∈ word, Plain c

-- Only the characters of the word are gone through, not all that there are.
instance (word : List Char) : Decidable (PlainWord word) :=
  @instDecidableAnd _ _ inferInstance (List.decidableBAll Plain word)

/-- Words with a blank or a comma and a blank between them. -/
inductive Phrase : List Char → List (List Char) → Prop where
  | last {word : List Char} (plain : PlainWord word) : Phrase word [word]
  | blank {word rest : List Char} {words : List (List Char)} (plain : PlainWord word)
      (behind : Phrase rest words) : Phrase (word ++ ' ' :: rest) (word :: words)
  | comma {word rest : List Char} {words : List (List Char)} (plain : PlainWord word)
      (behind : Phrase rest words) : Phrase (word ++ ',' :: ' ' :: rest) (word :: words)

end Y86Toolkit.Assembly

namespace Y86Toolkit.PrintedLines
open Assembly Numerals Texts

/-! ## Phrases -/

theorem words_phrase {text : List Char} {words : List (List Char)} (phrase : Phrase text words) :
    Assembly.Words text words := by
  have blank : Separates ' ' := by decide
  have comma : Separates ',' := by decide
  induction phrase with
  | @last word plain =>
    have alone : Assembly.Words (word ++ []) [word] :=
      .word plain.1 (fun c held => (plain.2 c held).1) nofun .nil
    rwa [List.append_nil] at alone
  | blank plain behind ih =>
    refine .word plain.1 (fun c held => (plain.2 c held).1) ?_ (.skip blank ih)
    rintro c ⟨⟩
    exact blank
  | comma plain behind ih =>
    refine .word plain.1 (fun c held => (plain.2 c held).1) ?_ (.skip comma (.skip blank ih))
    rintro c ⟨⟩
    exact comma

/-- A printed line is not taken apart. -/
theorem unmarked_phrase {text : List Char} {words : List (List Char)} (phrase : Phrase text words) {c : Char}
    (held : c ∈ text) : c ∉ ['#', ':', '\n'] := by
  induction phrase with
  | last plain => exact (plain.2 c held).2
  | blank plain behind ih =>
    rcases List.mem_append.mp held with word | rest
    · exact (plain.2 c word).2
    rcases List.mem_cons.mp rest with rfl | rest
    · decide
    · exact ih rest
  | comma plain behind ih =>
    rcases List.mem_append.mp held with word | rest
    · exact (plain.2 c word).2
    rcases List.mem_cons.mp rest with rfl | rest
    · decide
    rcases List.mem_cons.mp rest with rfl | rest
    · decide
    · exact ih rest

theorem ne_nil_phrase {text : List Char} {words : List (List Char)} (phrase : Phrase text words) :
    text ≠ [] := by
  cases phrase with
  | last plain => exact plain.1
  | blank plain | comma plain => exact List.append_ne_nil_of_left_ne_nil plain.1 _

theorem solid_of_plain {c : Char} (plain : Plain c) : Text.isBlank c = false :=
  Bool.eq_false_iff.mpr fun blank => plain.1 (.inl blank)

theorem trim_phrase {text : List Char} {words : List (List Char)} (phrase : Phrase text words) :
    Text.trim text = text := by
  apply trim_eq_self
  · intro c first
    cases phrase with
    | last plain => exact solid_of_plain (plain.2 c (List.mem_of_mem_head? first))
    | blank plain | comma plain =>
      rw [List.head?_append_of_ne_nil _ plain.1] at first
      exact solid_of_plain (plain.2 c (List.mem_of_mem_head? first))
  · induction phrase with
    | last plain => exact fun c last => solid_of_plain (plain.2 c (List.mem_of_mem_getLast? last))
    | @blank word rest words plain behind ih =>
      rw [List.append_cons, List.getLast?_append_of_ne_nil _ (ne_nil_phrase behind)]
      exact ih
    | @comma word rest words plain behind ih =>
      rw [List.append_cons, List.append_cons, List.getLast?_append_of_ne_nil _ (ne_nil_phrase behind)]
      exact ih

/-- **A printed line is read as the statement of its words.** -/
theorem read?_phrase {text : List Char} {name : String} {operands : List String}
    (phrase : Phrase text ((name :: operands).map String.toList)) :
    Line.read? text = some ⟨[], Statement.ofFields name operands, String.ofList text⟩ := by
  have noComment : Text.beforeFirst '#' text = text := by
    refine List.takeWhile_eq_self_iff.mpr fun c held => bne_iff_ne.mpr ?_
    rintro rfl
    exact unmarked_phrase phrase held (by decide)
  have noLabel : ':' ∉ text := fun held => unmarked_phrase phrase held (by decide)
  have some : text.isEmpty = false := by simpa using ne_nil_phrase phrase
  rw [Line.read?, trim_phrase phrase, some, noComment, pieces_unmarked noLabel, Line.ofPieces,
    Words.read_words (words_phrase phrase)]
  rfl

/-! ## Words of instructions -/

theorem plain_hexDigit {c : Char} (digit : HexDigit c) : Plain c := by
  obtain ⟨d, rfl⟩ := digit
  revert d
  decide

theorem plain_name (r : Register) : PlainWord r.name.toList := by
  cases r <;> decide

theorem plain_mnemonic (mnemonic : Mnemonic) : PlainWord mnemonic.name.toList := by
  have every : ∀ m ∈ Mnemonic.all, PlainWord m.name.toList := by decide
  exact every mnemonic (Words.mem_all mnemonic)

theorem names_name (r : Register) : Names r.name r := by
  unfold Names
  cases r <;> decide

theorem toList_decimal (n : Nat) : (Numeral.decimal n).toList = Nat.toDigits 10 n := by
  simp [Numeral.decimal, Nat.repr]

theorem mem_signed {i : Int} {c : Char} (held : c ∈ (Numeral.signed i).toList) : c = '-' ∨ HexDigit c := by
  have digits {n : Nat} (held : c ∈ (Numeral.decimal n).toList) : HexDigit c := by
    rw [toList_decimal] at held
    exact hexDigit_of_mem_toDigits (by decide) (by decide) held
  cases i with
  | ofNat n => exact .inr (digits held)
  | negSucc n =>
    rw [Numeral.signed, String.toList_append] at held
    rcases List.mem_append.mp held with sign | digit
    · exact .inl (List.mem_singleton.mp sign)
    · exact .inr (digits digit)

/-- A constant, as it is printed. -/
def constantText (w : Word) : String := Numeral.signed (Word.toSigned Word.width w)

theorem signed_constantText (w : Word) : Literal.Signed (constantText w).toList w := by
  have denotes (n : Nat) : Literal.Size (Numeral.decimal n).toList n := by
    rw [toList_decimal]
    exact .decimal Nat.toDigits_ne_nil (denotes_toDigits (by decide) (by decide) n)
  unfold constantText
  cases value : Word.toSigned Word.width w with
  | ofNat n =>
    have size : w.toNat = n := by
      have bound := w.toNat_lt
      rw [Int.ofNat_eq_natCast] at value
      rcases SignedWords.toSigned_cases w with ⟨low, read⟩ | ⟨high, read⟩ <;> omega
    exact .plain (size ▸ denotes n)
  | negSucc n =>
    rw [Numeral.signed, String.toList_append]
    exact .negative (denotes (n + 1)) value

theorem plain_constantText (w : Word) : PlainWord (constantText w).toList := by
  obtain ⟨c, rest, text, -⟩ := Literals.signed_starts (signed_constantText w)
  refine ⟨by rw [text]; exact List.cons_ne_nil c rest, fun c held => ?_⟩
  rcases mem_signed held with rfl | digit
  · decide
  · exact plain_hexDigit digit

theorem plain_append {first second : List Char} (front : PlainWord first) (back : PlainWord second) :
    PlainWord (first ++ second) := by
  refine ⟨List.append_ne_nil_of_left_ne_nil front.1 second, fun c held => ?_⟩
  exact (List.mem_append.mp held).elim (front.2 c) (back.2 c)

/-- A base register in parentheses with a displacement, as it is printed. -/
def placeText (displacement : Word) (base : Register) : String :=
  constantText displacement ++ "(" ++ base.name ++ ")"

theorem plain_placeText (displacement : Word) (base : Register) :
    PlainWord (placeText displacement base).toList := by
  simp only [placeText, String.toList_append]
  refine plain_append (plain_append (plain_append (plain_constantText displacement) ?_) ?_) ?_
  · decide
  · exact plain_name base
  · decide

theorem place_placeText (symbols : SymbolTable) (displacement : Word) (base : Register) :
    Place symbols (placeText displacement base) displacement base := by
  have some : constantText displacement ≠ "" := by
    intro empty
    exact (plain_constantText displacement).1 (by rw [empty, String.toList_empty])
  refine ⟨constantText displacement, base.name, rfl, fun held => ?_, names_name base,
    .inr ⟨some, .number (.inl (signed_constantText displacement))⟩⟩
  rcases mem_signed held with sign | ⟨d, digit⟩
  · exact absurd sign (by decide)
  · revert d
    decide

theorem toList_hex (places n : Nat) :
    (Numeral.hex places n).toList = '0' :: 'x' :: (Numeral.hexDigits places n).toList := by
  simp [Numeral.hex]

theorem plain_hex (places n : Nat) : PlainWord (Numeral.hex places n).toList := by
  rw [toList_hex]
  refine ⟨List.cons_ne_nil _ _, List.forall_mem_cons.mpr ⟨by decide, ?_⟩⟩
  refine List.forall_mem_cons.mpr ⟨by decide, ?_⟩
  exact fun c held => plain_hexDigit (hexDigit_of_mem held)

theorem signed_hex (places : Nat) (w : Word) : Literal.Signed (Numeral.hex places w.toNat).toList w := by
  rw [toList_hex]
  exact .plain (.hexadecimal (.inl rfl) (.inl rfl) (hexDigits_ne_nil places w.toNat)
    (denotes_hexDigits places w.toNat))

theorem number_hex (places : Nat) (w : Word) : Literal.Number (Numeral.hex places w.toNat).toList w :=
  .inl (signed_hex places w)

/-! ## Instructions -/

/-- The operands of an instruction, as they are printed. -/
def operands : Instruction → List String
  | .halt | .nop | .ret => []
  | .move _ source target | .alu _ source target => [source.name, target.name]
  | .loadImmediate value target => ["$" ++ constantText value, target.name]
  | .store source base displacement => [source.name, placeText displacement base]
  | .load base target displacement => [placeText displacement base, target.name]
  | .jump _ destination | .call destination => [Numeral.hex 0 destination.toNat]
  | .push register | .pop register => [register.name]

/-- **The printed operands of an instruction are written for it.** -/
theorem writtenFor_operands (symbols : SymbolTable) (i : Instruction) :
    WrittenFor symbols (operands i) i := by
  cases i with
  | halt | nop | ret => rfl
  | move _ source target | alu _ source target =>
    exact ⟨source.name, target.name, rfl, names_name source, names_name target⟩
  | loadImmediate value target =>
    have text : ("$" ++ constantText value).toList = '$' :: (constantText value).toList := by simp
    have number : Literal.Number ("$" ++ constantText value).toList value :=
      .inr ⟨_, text, signed_constantText value⟩
    exact ⟨"$" ++ constantText value, target.name, rfl, .number number, names_name target⟩
  | store source base displacement =>
    exact ⟨source.name, placeText displacement base, rfl, names_name source,
      place_placeText symbols displacement base⟩
  | load base target displacement =>
    exact ⟨placeText displacement base, target.name, rfl, place_placeText symbols displacement base,
      names_name target⟩
  | jump _ destination | call destination =>
    exact ⟨Numeral.hex 0 destination.toNat, rfl, .number (number_hex 0 destination)⟩
  | push register | pop register => exact ⟨register.name, rfl, names_name register⟩

theorem length_operands (i : Instruction) : (operands i).length = i.mnemonic.arity := by
  cases i <;> rfl

theorem phrase_one {name operand : String} (first : PlainWord name.toList)
    (second : PlainWord operand.toList) :
    Phrase (name ++ " " ++ operand).toList ([name, operand].map String.toList) := by
  rw [String.toList_append, String.toList_append, List.append_assoc]
  exact .blank first (.last second)

theorem phrase_two {name left right : String} (first : PlainWord name.toList) (second : PlainWord left.toList)
    (third : PlainWord right.toList) :
    Phrase (name ++ " " ++ (left ++ ", " ++ right)).toList ([name, left, right].map String.toList) := by
  simp only [String.toList_append, List.append_assoc]
  exact .blank first (.comma second (.last third))

/-- The text of an instruction is its name and its operands. -/
theorem phrase_text (i : Instruction) :
    Phrase i.text.toList ((i.mnemonic.name :: operands i).map String.toList) := by
  cases i with
  | halt | nop | ret => exact .last (plain_mnemonic _)
  | move _ source target | alu _ source target =>
    exact phrase_two (plain_mnemonic _) (plain_name source) (plain_name target)
  | loadImmediate value target =>
    have constant : PlainWord ("$" ++ constantText value).toList := by
      rw [String.toList_append]
      exact plain_append (by decide) (plain_constantText value)
    exact phrase_two (plain_mnemonic _) constant (plain_name target)
  | store source base displacement =>
    have shown : (Instruction.store source base displacement).operandText =
        source.name ++ ", " ++ constantText displacement ++ "(" ++ base.name ++ ")" := rfl
    have parts : (Instruction.store source base displacement).operandText =
        source.name ++ ", " ++ placeText displacement base := by
      rw [shown, placeText]
      simp only [String.append_assoc]
    have phrase := phrase_two (plain_mnemonic .store) (plain_name source) (plain_placeText displacement base)
    rwa [← parts] at phrase
  | load base target displacement =>
    have shown : (Instruction.load base target displacement).operandText =
        constantText displacement ++ "(" ++ base.name ++ "), " ++ target.name := rfl
    have parts : (Instruction.load base target displacement).operandText =
        placeText displacement base ++ ", " ++ target.name := by
      rw [shown, placeText, ← String.toList_inj]
      simp
    have phrase := phrase_two (plain_mnemonic .load) (plain_placeText displacement base) (plain_name target)
    rwa [← parts] at phrase
  | jump _ destination | call destination =>
    exact phrase_one (plain_mnemonic _) (plain_hex 0 destination.toNat)
  | push register | pop register => exact phrase_one (plain_mnemonic _) (plain_name register)

/-- **A printed instruction emits its encoding.** -/
theorem emits_text (i : Instruction) : Emits i.text.toList i.encode := by
  have name := Words.lowered_name i.mnemonic
  have other : lowered i.mnemonic.name ∉ directives := by
    rw [name]
    exact Words.name_not_mem_directives i.mnemonic
  have read := read?_phrase (phrase_text i)
  rw [(Words.ofFields_eq_ok_iff other).mpr ⟨i.mnemonic, name, length_operands i, rfl⟩] at read
  refine ⟨_, _, read, fun symbols => ?_, fun counter => ?_⟩
  · have made : instructionOf symbols i.mnemonic (operands i) = .ok i :=
      Operands.instructionOf_eq_ok_iff.mpr ⟨rfl, writtenFor_operands symbols i⟩
    rw [Statement.bytes, made]
    rfl
  · rw [Statement.next, Instruction.length_mnemonic, Instruction.length_encode]

/-! ## Raw bytes -/

theorem phrase_rawByte (b : Byte) :
    Phrase (Disassembly.rawByte b).toList ([".byte", Numeral.hex 2 b.toNat].map String.toList) := by
  have name : PlainWord ".byte".toList := by decide
  have spaced : ".byte " = ".byte" ++ " " := by decide
  rw [Disassembly.rawByte, spaced]
  exact phrase_one name (plain_hex 2 b.toNat)

theorem ofFields_byte (operand : String) : Statement.ofFields ".byte" [operand] = .ok (.byte operand) := rfl

/-- **A printed byte emits itself.** -/
theorem emits_rawByte (b : Byte) : Emits (Disassembly.rawByte b).toList [b] := by
  have read := read?_phrase (phrase_rawByte b)
  rw [ofFields_byte] at read
  refine ⟨_, _, read, fun symbols => ?_, fun counter => rfl⟩
  have small : b.toNat < 256 := b.toNat_lt
  have word : (UInt64.ofNat b.toNat).toNat = b.toNat :=
    UInt64.toNat_ofNat_of_lt' (Nat.lt_trans small (by decide))
  have value : Operand.value symbols (Numeral.hex 2 b.toNat) = .ok (UInt64.ofNat b.toNat) := by
    have number := number_hex 2 (UInt64.ofNat b.toNat)
    rw [word] at number
    exact Operands.value_eq_ok_iff.mpr (.number number)
  simp only [Statement.bytes, value, bind, Except.bind, word, if_neg (Nat.not_le_of_lt small),
    UInt8.ofNat_toNat]
  rfl

end Y86Toolkit.PrintedLines
