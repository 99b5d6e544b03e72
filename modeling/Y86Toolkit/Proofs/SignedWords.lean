import Y86Toolkit.Proofs.WordArithmetic

/-!
Whole words read as signed numbers: what holds at every width, for all sixty-four
bits. The words of the upper half are negative, every signed number in range is read
off exactly one word, and differences wrap around at the two ends of the range.
-/

namespace Y86Toolkit.SignedWords
open Word

theorem limit_width : limit width = 2 ^ 64 := by decide

theorem toSigned_cases (w : Word) :
    (w.toNat < 2 ^ 63 ∧ toSigned width w = w.toNat) ∨
      (2 ^ 63 ≤ w.toNat ∧ toSigned width w = w.toNat - 2 ^ 64) := by
  have bound : w.toNat < 2 ^ 64 := w.toNat_lt
  rw [toSigned, limit_width, Int.bmod_def]
  omega

theorem toSigned_range (w : Word) : -2 ^ 63 ≤ toSigned width w ∧ toSigned width w < 2 ^ 63 :=
  WordArithmetic.toSigned_representable (by decide) w

/-- The number that a word holds is the signed one up to a multiple of the limit. -/
theorem toNat_eq_emod (w : Word) : (w.toNat : Int) = toSigned width w % 2 ^ 64 := by
  have bound : w.toNat < 2 ^ 64 := w.toNat_lt
  rcases toSigned_cases w with ⟨low, value⟩ | ⟨high, value⟩ <;> omega

theorem toSigned_inj {a b : Word} : toSigned width a = toSigned width b ↔ a = b := by
  constructor
  · intro same
    have first := toNat_eq_emod a
    rw [same, ← toNat_eq_emod b] at first
    exact UInt64.toNat_inj.mp (Int.ofNat.inj first)
  · exact congrArg (toSigned width)

theorem toSigned_ofSigned {i : Int} (lower : -2 ^ 63 ≤ i) (upper : i < 2 ^ 63) :
    toSigned width (ofSigned width i) = i := by
  rw [WordArithmetic.toSigned_ofSigned (Nat.le_refl width)]
  exact WordArithmetic.bmod_of_representable (by decide) ⟨lower, upper⟩

theorem ofSigned_toSigned (w : Word) : ofSigned width (toSigned width w) = w :=
  toSigned_inj.mp (toSigned_ofSigned (toSigned_range w).1 (toSigned_range w).2)

theorem isNegative_width (w : Word) : isNegative width w = decide (toSigned width w < 0) :=
  WordArithmetic.isNegative_eq (by decide) w

/-! ## Differences -/

theorem toNat_sub_eq_emod (a b : Word) :
    ((a - b).toNat : Int) = (toSigned width a - toSigned width b) % 2 ^ 64 := by
  have first := toNat_eq_emod a
  have second := toNat_eq_emod b
  have bound : b.toNat < 2 ^ 64 := b.toNat_lt
  rw [UInt64.toNat_sub]
  omega

/-- A difference wraps around at most once, towards the range. -/
theorem toSigned_sub_cases (a b : Word) :
    toSigned width (a - b) = toSigned width a - toSigned width b ∨
      (2 ^ 63 ≤ toSigned width a - toSigned width b ∧
        toSigned width (a - b) = toSigned width a - toSigned width b - 2 ^ 64) ∨
      (toSigned width a - toSigned width b < -2 ^ 63 ∧
        toSigned width (a - b) = toSigned width a - toSigned width b + 2 ^ 64) := by
  have value := toNat_sub_eq_emod a b
  have first := toSigned_range a
  have second := toSigned_range b
  rcases toSigned_cases (a - b) with ⟨low, read⟩ | ⟨high, read⟩ <;> omega

theorem toSigned_zero : toSigned width 0 = 0 := by decide

theorem sub_eq_zero_iff (a b : Word) : a - b = 0 ↔ toSigned width a = toSigned width b := by
  have wraps := toSigned_sub_cases a b
  have first := toSigned_range a
  have second := toSigned_range b
  rw [← toSigned_inj, toSigned_zero]
  omega

/-- The most negative word is its own negation. -/
theorem toSigned_negate (w : Word) :
    toSigned width (0 - w) = if toSigned width w = -2 ^ 63 then -2 ^ 63 else -toSigned width w := by
  have negated := WordArithmetic.toSigned_negate (by decide) (Nat.le_refl width) w
  rw [negate_width] at negated
  exact negated.trans (if_ctx_congr Iff.rfl id fun _ => rfl)

theorem sub_snd (a b : Word) :
    (sub width a b).2 = (isNegative width a == isNegative width (0 - b) &&
      isNegative width a != isNegative width (a - b)) := by
  have difference := sub_fst a b
  rw [sub, negate_width, add_fst] at difference
  rw [sub, negate_width, add]
  simp only [truncate_width, difference]

end Y86Toolkit.SignedWords
