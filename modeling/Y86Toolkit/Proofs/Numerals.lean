import Mathlib.Data.Nat.Digits.Defs
import Y86Toolkit.Bytes
import Y86Toolkit.Proofs.Texts

/-!
Numerals written and read back. Digits denote a number by their places, reading
finds the number that is denoted (`read_eq_ok_iff`), and the digits that are
written for a number denote it. Zeros filled in on the left change nothing, and no
hexadecimal digit is a blank or one of the marks that take a line apart.
-/

namespace Y86Toolkit.Numerals
open Numeral

/-- A lower-case hexadecimal digit. -/
def HexDigit (c : Char) : Prop := ∃ d : Fin 16, c = d.val.digitChar

/-- Hexadecimal digits are ASCII characters other than blanks, signs and marks. -/
theorem hexDigit_plain {c : Char} (digit : HexDigit c) :
    Text.isBlank c = false ∧ c.toNat < 128 ∧ c ∉ ['+', ':', '|', '\n'] := by
  obtain ⟨d, rfl⟩ := digit
  revert d
  decide

/-- In no base up to sixteen are there other digits than the hexadecimal ones. -/
theorem hexDigit_of_mem_toDigits {base n : Nat} (two : 1 < base) (small : base ≤ 16) {c : Char}
    (held : c ∈ Nat.toDigits base n) : HexDigit c := by
  rw [Nat.toDigits_eq_if two] at held
  split at held
  · rename_i digit
    exact ⟨⟨n, Nat.lt_of_lt_of_le digit small⟩, List.mem_singleton.mp held⟩
  · rcases List.mem_append.mp held with front | last
    · exact hexDigit_of_mem_toDigits two small front
    · have digit : n % base < base := Nat.mod_lt n (Nat.zero_lt_of_lt two)
      exact ⟨⟨n % base, Nat.lt_of_lt_of_le digit small⟩, List.mem_singleton.mp last⟩
termination_by n
decreasing_by exact Nat.div_lt_self (by omega) two

theorem hexDigit_of_mem {places n : Nat} {c : Char} (held : c ∈ (hexDigits places n).toList) :
    HexDigit c := by
  rw [hexDigits, String.toList_ofList, List.leftpad] at held
  rcases List.mem_append.mp held with filled | digit
  · exact ⟨0, List.eq_of_mem_replicate filled⟩
  · exact hexDigit_of_mem_toDigits (by decide) (Nat.le_refl 16) digit

/-! ## The number that digits denote -/

/-- The digits of a base, the last of which counts once, and each other one base
times as much as the one behind it. -/
def Denotes (base : Nat) (digits : List Char) (n : Nat) : Prop :=
  ∃ values : List Nat, digits.map (digitValue? base) = values.map some ∧
    Nat.ofDigits base values.reverse = n

theorem denotes_nil (base : Nat) : Denotes base [] 0 := ⟨[], rfl, rfl⟩

theorem denotes_snoc {base n d : Nat} {front : List Char} {last : Char} (denotes : Denotes base front n)
    (digit : digitValue? base last = some d) : Denotes base (front ++ [last]) (n * base + d) := by
  obtain ⟨values, read, rfl⟩ := denotes
  refine ⟨values ++ [d], by simp [read, digit], ?_⟩
  rw [List.reverse_append, List.reverse_singleton, List.singleton_append, Nat.ofDigits_cons,
    Nat.add_comm, Nat.mul_comm]

theorem digitValue?_digitChar {base d : Nat} (small : base ≤ 16) (digit : d < base) :
    digitValue? base d.digitChar = some d := by
  have value : ∀ d : Fin 16, digitValue? 16 d.val.digitChar = some d.val := by decide
  have known := value ⟨d, Nat.lt_of_lt_of_le digit small⟩
  -- The base only bounds the value, and does not enter into it.
  simp only [digitValue?, Option.ite_none_right_eq_some, Option.some.injEq] at known ⊢
  grind

/-- The digits that are written for a number denote it. -/
theorem denotes_toDigits {base : Nat} (two : 1 < base) (small : base ≤ 16) (n : Nat) :
    Denotes base (Nat.toDigits base n) n := by
  rw [Nat.toDigits_eq_if two]
  split
  · rename_i digit
    simpa using denotes_snoc (denotes_nil base) (digitValue?_digitChar small digit)
  · -- The digits of the quotient, and then the last digit.
    have last := digitValue?_digitChar small (Nat.mod_lt n (Nat.zero_lt_of_lt two))
    have whole := denotes_snoc (denotes_toDigits two small (n / base)) last
    rwa [Nat.div_add_mod'] at whole
termination_by n
decreasing_by exact Nat.div_lt_self (by omega) two

theorem denotes_zeros {base n : Nat} (positive : 0 < base) {digits : List Char}
    (denotes : Denotes base digits n) (count : Nat) :
    Denotes base (List.replicate count '0' ++ digits) n := by
  obtain ⟨values, read, rfl⟩ := denotes
  have zero : digitValue? base '0' = some 0 := by simp [digitValue?, positive]
  refine ⟨List.replicate count 0 ++ values, by simp [read, zero], ?_⟩
  rw [List.reverse_append, List.reverse_replicate, Nat.ofDigits_append_replicate_zero]

/-! ## Reading digits -/

/-- Puts one more digit behind a numeral. -/
private def behind (base value d : Nat) : Nat := value * base + d

private theorem foldl_behind (base : Nat) (values : List Nat) :
    values.foldl (behind base) 0 = Nat.ofDigits base values.reverse := by
  rw [Nat.ofDigits_eq_foldr, List.foldr_reverse]
  congr 1
  funext value d
  simp only [behind, Nat.cast_id]
  ring

private theorem le_foldl_behind {base : Nat} (positive : 0 < base) (values : List Nat) (value : Nat) :
    value ≤ values.foldl (behind base) value := by
  induction values generalizing value with
  | nil => exact Nat.le_refl value
  | cons d values ih =>
    have grows : value ≤ behind base value d :=
      Nat.le_add_right_of_le (Nat.le_mul_of_pos_right value positive)
    exact Nat.le_trans grows (ih _)

/-- Reading stops at the limit, which a value that reaches it stays above. -/
private theorem readDigits_eq_ok_iff {base limit value n : Nat} (positive : 0 < base)
    {digits : List Char} :
    readDigits base limit value digits = .ok n ↔
      ∃ values : List Nat, digits.map (digitValue? base) = values.map some ∧
        values.foldl (behind base) value = n ∧ (digits ≠ [] → n < limit) := by
  induction digits generalizing value with
  | nil =>
    constructor
    · rintro ⟨⟩
      exact ⟨[], rfl, rfl, fun some => absurd rfl some⟩
    · rintro ⟨values, read, rfl, -⟩
      obtain rfl : values = [] := by simpa using read.symm
      rfl
  | cons c digits ih =>
    rw [readDigits]
    constructor
    · intro ran
      split at ran
      · cases ran
      · rename_i d digit
        dsimp only at ran
        split at ran
        · cases ran
        · rename_i below
          obtain ⟨values, read, rfl, fits⟩ := ih.mp ran
          refine ⟨d :: values, by rw [List.map_cons, List.map_cons, digit, read], rfl, fun _ => ?_⟩
          by_cases last : digits = []
          · subst last
            obtain rfl : values = [] := by simpa using read.symm
            exact Nat.lt_of_not_le below
          · exact fits last
    · rintro ⟨values, read, rfl, fits⟩
      cases values with
      | nil => cases read
      | cons d values =>
        obtain ⟨digit, read⟩ := List.cons.inj read
        have below : ¬ limit ≤ value * base + d :=
          Nat.not_le_of_lt
            (Nat.lt_of_le_of_lt (le_foldl_behind positive values _) (fits (List.cons_ne_nil _ _)))
        simp only [digit, if_neg below]
        exact ih.mpr ⟨values, read, rfl, fun _ => fits (List.cons_ne_nil _ _)⟩

/-- Each character of a number has a value as a digit. -/
theorem exists_digitValue_of_mem {base n : Nat} {digits : List Char} {c : Char}
    (denotes : Denotes base digits n) (held : c ∈ digits) : ∃ d, digitValue? base c = some d := by
  obtain ⟨values, read, -⟩ := denotes
  have isValue := List.mem_map_of_mem held (f := digitValue? base)
  rw [read] at isValue
  obtain ⟨d, -, digit⟩ := List.mem_map.mp isValue
  exact ⟨d, digit.symm⟩

/-- No digit is a plus sign. -/
theorem plus_not_mem {base n : Nat} {digits : List Char} (denotes : Denotes base digits n) :
    '+' ∉ digits := by
  intro held
  obtain ⟨d, digit⟩ := exists_digitValue_of_mem denotes held
  simp [digitValue?] at digit

theorem not_denotes_plus (base n : Nat) (rest : List Char) : ¬ Denotes base ('+' :: rest) n :=
  fun denotes => plus_not_mem denotes List.mem_cons_self

/-- **Reading finds the number that digits denote**, if there are any digits and
the number is below the limit. A plus sign may stand in front. -/
theorem read_eq_ok_iff {base limit n : Nat} (positive : 0 < base) {text : List Char} :
    Numeral.read base limit text = .ok n ↔
      ∃ digits, (text = digits ∨ text = '+' :: digits) ∧ digits ≠ [] ∧ Denotes base digits n ∧ n < limit := by
  have whole {digits : List Char} (some : digits ≠ []) :
      readDigits base limit 0 digits = .ok n ↔ Denotes base digits n ∧ n < limit := by
    simp only [readDigits_eq_ok_iff positive, foldl_behind, Denotes, forall_const, some, ne_eq,
      not_false_eq_true, ← and_assoc, exists_and_right]
  constructor
  · intro ran
    unfold Numeral.read at ran
    split at ran
    · cases ran
    · cases ran
    · rename_i digits some
      exact ⟨digits, .inr rfl, some, (whole some).mp ran⟩
    · rename_i some _ _
      exact ⟨text, .inl rfl, some, (whole some).mp ran⟩
  · rintro ⟨digits, shape, some, denotes⟩
    rcases shape with rfl | rfl
    · have unsigned (rest : List Char) : text ≠ '+' :: rest := by
        rintro rfl
        exact not_denotes_plus base n rest denotes.1
      rw [Numeral.read]
      · exact (whole some).mpr denotes
      · exact some
      · exact unsigned []
      · exact unsigned
    · rw [Numeral.read]
      · exact (whole some).mpr denotes
      · simpa using some

/-- Digits, at least one, and the number that they denote. Where `plus` allows it, one
plus sign may stand in front of them. -/
def Writes (plus : Bool) (base : Nat) (text : List Char) (n : Nat) : Prop :=
  ∃ digits, (text = digits ∨ plus = true ∧ text = '+' :: digits) ∧ digits ≠ [] ∧ Denotes base digits n

theorem read_eq_ok_iff_writes {base limit n : Nat} (positive : 0 < base) {text : List Char} :
    Numeral.read base limit text = .ok n ↔ Writes true base text n ∧ n < limit := by
  simp only [read_eq_ok_iff positive, Writes, true_and, ← and_assoc, exists_and_right]

/-- The numerals of which a plus sign is no part. -/
theorem writes_plain_iff {base n : Nat} {text : List Char} :
    Writes false base text n ↔ Writes true base text n ∧ '+' ∉ text := by
  constructor
  · rintro ⟨digits, rfl | ⟨⟨⟩, -⟩, some, denotes⟩
    exact ⟨⟨text, .inl rfl, some, denotes⟩, plus_not_mem denotes⟩
  · rintro ⟨⟨digits, rfl | ⟨-, rfl⟩, some, denotes⟩, unsigned⟩
    · exact ⟨text, .inl rfl, some, denotes⟩
    · exact absurd List.mem_cons_self unsigned

theorem hexDigits_ne_nil (places n : Nat) : (hexDigits places n).toList ≠ [] := by
  rw [hexDigits, String.toList_ofList, List.leftpad]
  exact List.append_ne_nil_of_right_ne_nil _ Nat.toDigits_ne_nil

theorem denotes_hexDigits (places n : Nat) : Denotes 16 (hexDigits places n).toList n := by
  rw [hexDigits, String.toList_ofList, List.leftpad]
  exact denotes_zeros (by decide) (denotes_toDigits (by decide) (Nat.le_refl 16) n) _

/-- **Hexadecimal numerals read back as the numbers they were written for.** -/
theorem read_hexDigits {places n limit : Nat} (fits : n < limit) :
    Numeral.read 16 limit (hexDigits places n).toList = .ok n :=
  (read_eq_ok_iff (by decide)).mpr
    ⟨_, .inl rfl, hexDigits_ne_nil places n, denotes_hexDigits places n, fits⟩

/-! ## Bytes as pairs of digits -/

/-- Two places are filled exactly by a byte. -/
theorem hexDigits_byte (b : Byte) : ∃ high low, (hexDigits 2 b.toNat).toList = [high, low] := by
  have short : (Nat.toDigits 16 b.toNat).length ≤ 2 :=
    (Nat.length_toDigits_le_iff (by decide) (by decide)).mpr b.toNat_lt
  refine List.length_eq_two.mp ?_
  rw [hexDigits, String.toList_ofList, List.length_leftpad]
  omega

theorem hexText_toList (bytes : List Byte) :
    (Bytes.hexText bytes).toList = bytes.flatMap fun b => (hexDigits 2 b.toNat).toList := by
  rw [Bytes.hexText, Texts.toList_foldl_append, String.toList_empty, List.nil_append]

theorem hexDigit_of_mem_hexText {bytes : List Byte} {c : Char}
    (held : c ∈ (Bytes.hexText bytes).toList) : HexDigit c := by
  rw [hexText_toList] at held
  obtain ⟨b, -, digit⟩ := List.mem_flatMap.mp held
  exact hexDigit_of_mem digit

end Y86Toolkit.Numerals
