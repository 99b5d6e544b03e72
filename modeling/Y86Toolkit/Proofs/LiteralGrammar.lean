import Y86Toolkit.Proofs.Literals

/-!
Which texts are number literals, and for which words they stand. Every text is one of
three things: it does not look like a number, it is an integer in range, or it looks
like a number and is none.
-/

namespace Y86Toolkit.Assembly.Literal
open Numerals

/-- The signs of a literal: at most a dollar sign, and behind it at most a minus sign,
which makes the number negative. -/
inductive Signs : List Char → Bool → Prop where
  | none : Signs [] false
  | dollar : Signs ['$'] false
  | minus : Signs ['-'] true
  | both : Signs ['$', '-'] true

/-- How large a number is: decimal digits, or hexadecimal ones behind their mark.
Where `plus` allows it, a plus sign may stand behind the mark. -/
inductive Magnitude (plus : Bool) : List Char → Nat → Prop where
  | decimal {text : List Char} {n : Nat} (digits : Writes false 10 text n) : Magnitude plus text n
  | hexadecimal {mark : Char} {text : List Char} {n : Nat} (marked : mark = 'x' ∨ mark = 'X')
      (digits : Writes plus 16 text n) : Magnitude plus ('0' :: mark :: text) n

/-- The integer of a size with or without a minus sign. -/
def signedSize (negative : Bool) (n : Nat) : Int := if negative then -n else n

/-- A text is written for an integer. -/
def Written (plus : Bool) (text : List Char) (i : Int) : Prop :=
  ∃ signs negative digits n, Signs signs negative ∧ text = signs ++ digits ∧
    Magnitude plus digits n ∧ i = signedSize negative n

/-- An integer that is a word, unsigned or signed. -/
def InRange (i : Int) : Prop := -2 ^ 63 ≤ i ∧ i < 2 ^ 64

/-- A text goes on with a decimal digit behind its signs. -/
def LooksNumeric (text : List Char) : Prop :=
  ∃ signs negative digit rest, Signs signs negative ∧ text = signs ++ digit :: rest ∧ digit.isDigit = true

end Y86Toolkit.Assembly.Literal

namespace Y86Toolkit.LiteralGrammar
open Assembly Literal Literals Numerals SignedWords Word

variable {text digits signs : List Char} {negative : Bool} {n : Nat} {w : Word} {i : Int}

/-! ## Signs -/

/-- Behind signs, reading goes on with the digits. -/
theorem read_signs {digit : Char} {rest : List Char} (isSigns : Signs signs negative)
    (isDigit : digit.isDigit = true) :
    Literal.read (signs ++ digit :: rest) = ofDigits negative (digit :: rest) := by
  have noDollar : digit ≠ '$' := by
    rintro rfl
    cases isDigit
  have noMinus : digit ≠ '-' := by
    rintro rfl
    cases isDigit
  cases isSigns <;> simp [Literal.read, noDollar, noMinus]

/-- Every text has signs, if only none, and is read from what stands behind them. -/
theorem exists_signs (text : List Char) :
    ∃ signs negative rest, Signs signs negative ∧ text = signs ++ rest ∧
      Literal.read text = ofDigits negative rest := by
  cases text with
  | nil => exact ⟨_, _, [], .none, rfl, rfl⟩
  | cons first rest =>
    by_cases dollar : first = '$'
    · subst dollar
      cases rest with
      | nil => exact ⟨_, _, [], .dollar, rfl, rfl⟩
      | cons second rest =>
        by_cases minus : second = '-'
        · subst minus
          exact ⟨_, _, rest, .both, rfl, rfl⟩
        · exact ⟨_, _, second :: rest, .dollar, rfl, by simp [Literal.read, minus]⟩
    · by_cases minus : first = '-'
      · subst minus
        exact ⟨_, _, rest, .minus, rfl, rfl⟩
      · exact ⟨_, _, first :: rest, .none, rfl, by simp [Literal.read, dollar, minus]⟩

/-- **What is no number** does not go on with a digit behind its signs. -/
theorem read_eq_notNumeric_iff : Literal.read text = .notNumeric ↔ ¬ LooksNumeric text := by
  constructor
  · rintro read ⟨signs, negative, digit, rest, isSigns, rfl, isDigit⟩
    rw [read_signs isSigns isDigit, ofDigits] at read
    simp only [isDigit, if_true] at read
    split at read
    · cases read
    · split at read
      · split at read <;> cases read
      · cases read
  · intro other
    obtain ⟨signs, negative, rest, isSigns, rfl, read⟩ := exists_signs text
    rw [read]
    refine ofDigits_notNumeric fun digit first => ?_
    obtain ⟨behind, rfl⟩ := List.head?_eq_some_iff.mp first
    exact Bool.eq_false_iff.mpr fun isDigit => other ⟨_, _, _, _, isSigns, rfl, isDigit⟩

/-! ## Words -/

theorem size_iff : Size text n ↔ Magnitude true text n := by
  constructor
  · rintro (⟨some, denotes⟩ | ⟨marked, sign, some, denotes⟩)
    · exact .decimal ⟨text, .inl rfl, some, denotes⟩
    · exact .hexadecimal marked ⟨_, sign.imp_right fun same => ⟨rfl, same⟩, some, denotes⟩
  · rintro (⟨⟨digits, rfl | ⟨⟨⟩, -⟩, some, denotes⟩⟩ | ⟨marked, digits, sign, some, denotes⟩)
    · exact .decimal some denotes
    · exact .hexadecimal marked (sign.imp_right And.right) some denotes

/-- The word of an integer in range is its residue. -/
theorem stands_iff : Stands negative n w ↔
    InRange (signedSize negative n) ∧ (w.toNat : Int) = signedSize negative n % 2 ^ 64 := by
  have word := w.toNat_lt
  have range := toSigned_range w
  have residue := toNat_eq_emod w
  unfold Stands InRange signedSize
  split <;> omega

theorem read_eq_value_iff_written : Literal.read text = .value w ↔
    ∃ i, Written true text i ∧ InRange i ∧ (w.toNat : Int) = i % 2 ^ 64 := by
  constructor
  · intro read
    obtain ⟨signs, negative, rest, isSigns, rfl, same⟩ := exists_signs text
    obtain ⟨n, size, stands⟩ := ofDigits_eq_value_iff.mp (same ▸ read)
    exact ⟨_, ⟨signs, negative, rest, n, isSigns, rfl, size_iff.mp size, rfl⟩, stands_iff.mp stands⟩
  · rintro ⟨i, ⟨signs, negative, digits, n, isSigns, rfl, magnitude, rfl⟩, inRange⟩
    have size := size_iff.mpr magnitude
    obtain ⟨digit, rest, rfl, isDigit⟩ := size_starts size
    rw [read_signs isSigns isDigit]
    exact ofDigits_eq_value_iff.mpr ⟨n, size, stands_iff.mpr inRange⟩

theorem read_eq_outOfRange_iff : Literal.read text = .outOfRange ↔
    LooksNumeric text ∧ ¬ ∃ i, Written true text i ∧ InRange i := by
  cases outcome : Literal.read text with
  | notNumeric =>
    have other := read_eq_notNumeric_iff.mp outcome
    simp [other]
  | outOfRange =>
    have numeric : LooksNumeric text := by
      by_contra other
      cases outcome.symm.trans (read_eq_notNumeric_iff.mpr other)
    refine ⟨fun _ => ⟨numeric, ?_⟩, fun _ => rfl⟩
    rintro ⟨i, written, inRange⟩
    have residue : (i % 2 ^ 64).toNat < 2 ^ 64 := by omega
    have word : ((UInt64.ofNat (i % 2 ^ 64).toNat).toNat : Int) = i % 2 ^ 64 := by
      rw [UInt64.toNat_ofNat_of_lt' residue]
      omega
    cases outcome.symm.trans (read_eq_value_iff_written.mpr ⟨i, written, inRange, word⟩)
  | value w =>
    obtain ⟨i, written, inRange, -⟩ := read_eq_value_iff_written.mp outcome
    refine ⟨nofun, ?_⟩
    rintro ⟨-, none⟩
    exact absurd ⟨i, written, inRange⟩ none

/-! ## Plus signs -/

theorem magnitude_plain_iff : Magnitude false digits n ↔ Magnitude true digits n ∧ '+' ∉ digits := by
  constructor
  · rintro (decimal | ⟨marked, hexadecimal⟩)
    · exact ⟨.decimal decimal, (writes_plain_iff.mp decimal).2⟩
    · obtain ⟨written, unsigned⟩ := writes_plain_iff.mp hexadecimal
      refine ⟨.hexadecimal marked written, ?_⟩
      rcases marked with rfl | rfl <;> simp [unsigned]
  · rintro ⟨decimal | ⟨marked, hexadecimal⟩, unsigned⟩
    · exact .decimal decimal
    · simp only [List.mem_cons, not_or] at unsigned
      exact .hexadecimal marked (writes_plain_iff.mpr ⟨hexadecimal, unsigned.2.2⟩)

/-- The literals without a plus sign in front of their digits. -/
theorem written_plain_iff : Written false text i ↔ Written true text i ∧ '+' ∉ text := by
  have plain {signs : List Char} {negative : Bool} (isSigns : Signs signs negative) : '+' ∉ signs := by
    cases isSigns <;> decide
  constructor
  · rintro ⟨signs, negative, digits, n, isSigns, rfl, magnitude, same⟩
    obtain ⟨magnitude, unsigned⟩ := magnitude_plain_iff.mp magnitude
    refine ⟨⟨signs, negative, digits, n, isSigns, rfl, magnitude, same⟩, ?_⟩
    exact fun held => (List.mem_append.mp held).elim (plain isSigns) unsigned
  · rintro ⟨⟨signs, negative, digits, n, isSigns, rfl, magnitude, same⟩, unsigned⟩
    have behind : '+' ∉ digits := fun held => unsigned (List.mem_append_right _ held)
    exact ⟨signs, negative, digits, n, isSigns, rfl, magnitude_plain_iff.mpr ⟨magnitude, behind⟩, same⟩

/-- **Every text is classified as a literal.** It has a value exactly if it is written
for an integer in range, and the value is the residue of the integer. It does not look
like a number exactly if no decimal digit stands behind its signs, and everything else
is out of range. A plus sign behind the mark of hexadecimal digits is passed over; the
literals without one are those that hold no plus sign. -/
theorem literal_classified (text : List Char) :
    (∀ w : Word, Literal.read text = .value w ↔
      ∃ i, Written true text i ∧ InRange i ∧ (w.toNat : Int) = i % 2 ^ 64) ∧
    (Literal.read text = .notNumeric ↔ ¬ LooksNumeric text) ∧
    (Literal.read text = .outOfRange ↔ LooksNumeric text ∧ ¬ ∃ i, Written true text i ∧ InRange i) ∧
    ∀ i, Written false text i ↔ Written true text i ∧ '+' ∉ text :=
  ⟨fun _ => read_eq_value_iff_written, read_eq_notNumeric_iff, read_eq_outOfRange_iff,
    fun _ => written_plain_iff⟩

/-- Not only what is written without a plus sign has a value: `0x+5` has one. -/
theorem plus_passed_over :
    ¬ ∀ (text : List Char) (w : Word), Literal.read text = .value w ↔
      ∃ i, Written false text i ∧ InRange i ∧ (w.toNat : Int) = i % 2 ^ 64 := by
  intro plain
  have five : Literal.read "0x+5".toList = .value 5 := by decide
  obtain ⟨i, written, -⟩ := (plain _ _).mp five
  exact (written_plain_iff.mp written).2 (by decide)

end Y86Toolkit.LiteralGrammar
