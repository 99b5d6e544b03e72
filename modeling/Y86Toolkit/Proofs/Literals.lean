import Y86Toolkit.Assembly.Literal
import Y86Toolkit.Proofs.Numerals
import Y86Toolkit.Proofs.SignedWords

/-!
The grammar of number literals. Reading a text as a number succeeds exactly where
the text is written so, and then finds the word that is written there.
-/

namespace Y86Toolkit.Assembly.Literal
open Numerals

/-- How large a number is: decimal digits, or hexadecimal ones behind their mark.
A plus sign may stand behind the mark, and nowhere else. -/
inductive Size : List Char → Nat → Prop where
  | decimal {digits : List Char} {n : Nat} (some : digits ≠ []) (denotes : Denotes 10 digits n) :
      Size digits n
  | hexadecimal {mark : Char} {digits text : List Char} {n : Nat} (marked : mark = 'x' ∨ mark = 'X')
      (sign : text = digits ∨ text = '+' :: digits) (some : digits ≠ []) (denotes : Denotes 16 digits n) :
      Size ('0' :: mark :: text) n

/-- A number with its sign. The word that stands for it is the number itself, or
has the negative number as its signed reading. -/
inductive Signed : List Char → Word → Prop where
  | plain {text : List Char} {w : Word} (size : Size text w.toNat) : Signed text w
  | negative {text : List Char} {w : Word} {n : Nat} (size : Size text n)
      (value : Word.toSigned Word.width w = -n) : Signed ('-' :: text) w

/-- A number as an operand, where one dollar sign may stand in front. -/
def Number (text : List Char) (w : Word) : Prop :=
  Signed text w ∨ ∃ rest, text = '$' :: rest ∧ Signed rest w

end Y86Toolkit.Assembly.Literal

namespace Y86Toolkit.Literals
open Assembly Literal Numerals SignedWords Word

theorem isDigit_of_digitValue? {c : Char} {d : Nat} (digit : Numeral.digitValue? 10 c = some d) :
    c.isDigit = true := by
  simp only [Numeral.digitValue?, Option.ite_none_right_eq_some] at digit
  obtain ⟨small, -⟩ := digit
  split at small
  · rename_i range
    simpa [Char.isDigit, Char.le_def] using range
  · -- Letters and all other characters have values from the base on.
    split at small
    · omega
    · split at small <;> omega

theorem size_starts {text : List Char} {n : Nat} (size : Size text n) :
    ∃ c rest, text = c :: rest ∧ c.isDigit = true := by
  cases size with
  | decimal some denotes =>
    obtain ⟨values, read, -⟩ := denotes
    cases text with
    | nil => exact absurd rfl some
    | cons c rest =>
      cases values with
      | nil => cases read
      | cons d values => exact ⟨c, rest, rfl, isDigit_of_digitValue? (List.cons.inj read).1⟩
  | hexadecimal => exact ⟨_, _, rfl, rfl⟩

theorem magnitude_eq_ok_iff {c : Char} {rest : List Char} {n : Nat} (digit : c.isDigit = true) :
    magnitude (c :: rest) = .ok n ↔ Size (c :: rest) n ∧ n < limit width := by
  have unsigned : c ≠ '+' := by
    rintro rfl
    cases digit
  constructor
  · intro ran
    unfold magnitude at ran
    split at ran
    · rename_i hex same
      obtain ⟨digits, sign, some, denotes, fits⟩ := (read_eq_ok_iff (by decide)).mp ran
      rw [same]
      exact ⟨.hexadecimal (.inl rfl) sign some denotes, fits⟩
    · rename_i hex same
      obtain ⟨digits, sign, some, denotes, fits⟩ := (read_eq_ok_iff (by decide)).mp ran
      rw [same]
      exact ⟨.hexadecimal (.inr rfl) sign some denotes, fits⟩
    · obtain ⟨digits, rfl | sign, some, denotes, fits⟩ := (read_eq_ok_iff (by decide)).mp ran
      · exact ⟨.decimal some denotes, fits⟩
      · exact absurd (List.cons.inj sign).1 unsigned
  · rintro ⟨size, fits⟩
    cases size with
    | decimal some denotes =>
      -- A mark is no decimal digit.
      have unmarked (hex : List Char) (mark : Char) (isMark : mark = 'x' ∨ mark = 'X') :
          c :: rest ≠ '0' :: mark :: hex := by
        intro same
        rw [same] at denotes
        obtain ⟨values, read, -⟩ := denotes
        rcases isMark with rfl | rfl <;> rcases values with _ | ⟨_, _ | _⟩ <;>
          simp [Numeral.digitValue?] at read
      rw [magnitude]
      · exact (read_eq_ok_iff (by decide)).mpr ⟨_, .inl rfl, some, denotes, fits⟩
      · exact fun hex => unmarked hex 'x' (.inl rfl)
      · exact fun hex => unmarked hex 'X' (.inr rfl)
    | hexadecimal marked sign some denotes =>
      rcases marked with rfl | rfl
      · exact (read_eq_ok_iff (by decide)).mpr ⟨_, sign, some, denotes, fits⟩
      · exact (read_eq_ok_iff (by decide)).mpr ⟨_, sign, some, denotes, fits⟩

/-- The word that stands for a size with or without a minus sign. -/
def Stands (negative : Bool) (n : Nat) (w : Word) : Prop :=
  if negative then toSigned width w = -n else w.toNat = n

theorem stands_lt {negative : Bool} {n : Nat} {w : Word} (stands : Stands negative n w) :
    n < limit width := by
  have bound := w.toNat_lt
  have range := toSigned_range w
  rw [limit_width]
  unfold Stands at stands
  split at stands <;> omega

theorem ofDigits_eq_value_iff {negative : Bool} {text : List Char} {w : Word} :
    ofDigits negative text = .value w ↔ ∃ n, Size text n ∧ Stands negative n w := by
  constructor
  · intro read
    cases text with
    | nil => cases read
    | cons c rest =>
      simp only [ofDigits] at read
      split at read
      · rename_i digit
        split at read
        · cases read
        · rename_i n ran
          obtain ⟨size, fits⟩ := (magnitude_eq_ok_iff digit).mp ran
          refine ⟨n, size, ?_⟩
          rw [limit_width] at fits
          cases negative with
          | true =>
            simp only [if_true] at read
            split at read
            · cases read
            · rename_i small
              have half : limit (width - 1) = 2 ^ 63 := by decide
              cases read
              exact toSigned_ofSigned (by omega) (by omega)
          | false =>
            cases read
            exact UInt64.toNat_ofNat_of_lt' fits
      · cases read
  · rintro ⟨n, size, stands⟩
    obtain ⟨c, rest, rfl, digit⟩ := size_starts size
    have ran := (magnitude_eq_ok_iff digit).mpr ⟨size, stands_lt stands⟩
    simp only [ofDigits, if_pos digit, ran]
    cases negative with
    | true =>
      have value : toSigned width w = -n := stands
      have range := toSigned_range w
      have half : limit (width - 1) = 2 ^ 63 := by decide
      rw [if_pos rfl, if_neg (by omega), ← value, ofSigned_toSigned]
    | false =>
      obtain rfl : w.toNat = n := stands
      rw [if_neg Bool.false_ne_true, UInt64.ofNat_toNat]

theorem read_dollar_iff {body : List Char} {w : Word} :
    Literal.read ('$' :: body) = .value w ↔ Signed body w := by
  constructor
  · intro read
    simp only [Literal.read] at read
    split at read
    · obtain ⟨n, size, stands⟩ := ofDigits_eq_value_iff.mp read
      exact .negative size stands
    · obtain ⟨n, size, rfl⟩ := ofDigits_eq_value_iff.mp read
      exact .plain size
  · intro signed
    cases signed with
    | plain size =>
      obtain ⟨c, rest, rfl, digit⟩ := size_starts size
      have unsigned : c ≠ '-' := by
        rintro rfl
        cases digit
      simp only [Literal.read]
      split
      · rename_i same
        exact absurd (List.cons.inj same).1 unsigned
      · exact ofDigits_eq_value_iff.mpr ⟨_, size, rfl⟩
    | negative size value => exact ofDigits_eq_value_iff.mpr ⟨_, size, value⟩

/-- A number starts with a digit or a minus sign. -/
theorem signed_starts {text : List Char} {w : Word} (signed : Signed text w) :
    ∃ c rest, text = c :: rest ∧ (c.isDigit = true ∨ c = '-') := by
  cases signed with
  | plain size =>
    obtain ⟨c, rest, rfl, digit⟩ := size_starts size
    exact ⟨c, rest, rfl, .inl digit⟩
  | negative => exact ⟨'-', _, rfl, .inr rfl⟩

theorem read_bare {text : List Char} (bare : ∀ rest, text ≠ '$' :: rest) :
    Literal.read text = Literal.read ('$' :: text) := by
  unfold Literal.read
  split
  · rename_i rest
    exact absurd rfl (bare rest)
  · rfl

/-- **Reading a text as a number finds the word that is written there.** -/
theorem read_eq_value_iff {text : List Char} {w : Word} :
    Literal.read text = .value w ↔ Number text w := by
  by_cases dollar : ∃ rest, text = '$' :: rest
  · obtain ⟨rest, rfl⟩ := dollar
    rw [read_dollar_iff]
    constructor
    · exact fun signed => .inr ⟨rest, rfl, signed⟩
    · rintro (signed | ⟨_, ⟨⟩, signed⟩)
      · obtain ⟨c, _, ⟨⟩, starts⟩ := signed_starts signed
        exact absurd starts (by decide)
      · exact signed
  · have bare : ∀ rest, text ≠ '$' :: rest := fun rest same => dollar ⟨rest, same⟩
    rw [read_bare bare, read_dollar_iff]
    exact (or_iff_left fun ⟨rest, same, _⟩ => dollar ⟨rest, same⟩).symm

/-! ## What is no number -/

theorem ofDigits_notNumeric {negative : Bool} {text : List Char}
    (other : ∀ c ∈ text.head?, c.isDigit = false) : ofDigits negative text = .notNumeric := by
  cases text with
  | nil => rfl
  | cons c rest => simp only [ofDigits, other c rfl, Bool.false_eq_true, if_false]

theorem read_notNumeric {body : List Char} (other : ∀ c ∈ body.head?, c.isDigit = false)
    (unsigned : ∀ rest, body ≠ '-' :: rest) : Literal.read ('$' :: body) = .notNumeric := by
  simp only [Literal.read]
  exact ofDigits_notNumeric other

end Y86Toolkit.Literals
