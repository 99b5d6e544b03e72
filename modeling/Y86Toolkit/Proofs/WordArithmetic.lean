import Mathlib.Algebra.Group.Nat.Defs
import Mathlib.Algebra.Ring.Int.Defs
import Y86Toolkit.Word

/-!
Arithmetic on the low bits of words, at every width from one bit to a whole word.
Half of the numbers of a width are negative. Sums and differences are right up to a
multiple of the limit, they wrap around at most once, and the flag of an addition
tells that they did. A subtraction takes its flag from adding the negated operand,
so it tells the opposite for the one number that is its own negation.
-/

namespace Y86Toolkit

namespace Word

/-- A signed number that so many bits can hold. -/
def Representable (bits : Nat) (i : Int) : Prop := -2 ^ (bits - 1) ≤ i ∧ i < 2 ^ (bits - 1)

instance (bits : Nat) (i : Int) : Decidable (Representable bits i) :=
  inferInstanceAs (Decidable (_ ∧ _))

end Word

namespace WordArithmetic
open Word

variable {bits : Nat}

theorem limit_eq_pow (bits : Nat) : limit bits = 2 ^ bits := by
  rw [limit, Nat.shiftLeft_eq, Nat.one_mul]

/-- Half of the numbers of a width are negative. -/
theorem limit_eq_twice (positive : 0 < bits) : (limit bits : Int) = 2 * 2 ^ (bits - 1) := by
  have split : limit bits = 2 * 2 ^ (bits - 1) := by
    rw [limit_eq_pow, ← Nat.pow_succ', Nat.succ_eq_add_one, Nat.sub_add_cancel positive]
  rw [split]
  exact Int.natCast_mul 2 (2 ^ (bits - 1))

theorem half_pos (bits : Nat) : 0 < (2 : Int) ^ (bits - 1) := Int.pow_pos (by decide)

theorem limit_pos (bits : Nat) : 0 < limit bits := by
  rw [limit_eq_pow]
  exact Nat.two_pow_pos bits

theorem limit_dvd (fits : bits ≤ width) : limit bits ∣ 2 ^ 64 := by
  rw [limit_eq_pow]
  exact Nat.pow_dvd_pow 2 fits

/-! ## Wrapping around -/

theorem representable_bmod (positive : 0 < bits) (i : Int) : Representable bits (i.bmod (limit bits)) := by
  have lower := Int.le_bmod (x := i) (limit_pos bits)
  have upper := Int.bmod_lt (x := i) (limit_pos bits)
  have twice := limit_eq_twice positive
  unfold Representable
  omega

theorem bmod_of_representable (positive : 0 < bits) {i : Int} (held : Representable bits i) :
    i.bmod (limit bits) = i := by
  have twice := limit_eq_twice positive
  obtain ⟨lower, upper⟩ := held
  apply Int.bmod_eq_of_le <;> omega

/-- A number not far out of range is brought back by one turn. -/
theorem bmod_cases (positive : 0 < bits) {i : Int} (lower : -(limit bits : Int) ≤ i)
    (upper : i < limit bits) :
    (Representable bits i ∧ i.bmod (limit bits) = i) ∨
      (2 ^ (bits - 1) ≤ i ∧ i.bmod (limit bits) = i - limit bits) ∨
      (i < -2 ^ (bits - 1) ∧ i.bmod (limit bits) = i + limit bits) := by
  have twice := limit_eq_twice positive
  by_cases held : Representable bits i
  · exact .inl ⟨held, bmod_of_representable positive held⟩
  · rw [Representable, not_and_or, Int.not_le, Int.not_lt] at held
    rcases held with below | above
    · have back : Representable bits (i + limit bits) := by unfold Representable; omega
      have turned := bmod_of_representable positive back
      rw [Int.add_bmod_right] at turned
      exact .inr (.inr ⟨below, turned⟩)
    · have back : Representable bits (i - limit bits) := by unfold Representable; omega
      have turned := bmod_of_representable positive back
      rw [Int.sub_bmod_right] at turned
      exact .inr (.inl ⟨above, turned⟩)

/-! ## Signed readings -/

theorem toSigned_representable (positive : 0 < bits) (w : Word) : Representable bits (toSigned bits w) :=
  representable_bmod positive w.toNat

theorem toNat_ofSigned (fits : bits ≤ width) (i : Int) :
    ((ofSigned bits i).toNat : Int) = i % limit bits := by
  have some : (0 : Int) < limit bits := Int.natCast_pos.mpr (limit_pos bits)
  have low := Int.emod_nonneg i (Int.ne_of_gt some)
  have high := Int.emod_lt_of_pos i some
  have small : limit bits ≤ 2 ^ 64 := Nat.le_of_dvd (by decide) (limit_dvd fits)
  rw [ofSigned, UInt64.toNat_ofNat']
  omega

/-- The signed number of a word that holds an integer up to a multiple of the limit. -/
theorem toSigned_of_emod {w : Word} {i : Int} (same : (w.toNat : Int) % limit bits = i % limit bits) :
    toSigned bits w = i.bmod (limit bits) := by
  rw [toSigned, ← Int.emod_bmod, same, Int.emod_bmod]

theorem toSigned_ofSigned (fits : bits ≤ width) (i : Int) :
    toSigned bits (ofSigned bits i) = i.bmod (limit bits) := by
  apply toSigned_of_emod
  rw [toNat_ofSigned fits, Int.emod_emod]

theorem ofSigned_toSigned (fits : bits ≤ width) (w : Word) :
    (ofSigned bits (toSigned bits w)).toNat = w.toNat % limit bits := by
  apply Int.ofNat.inj
  show ((ofSigned bits (toSigned bits w)).toNat : Int) = ((w.toNat % limit bits : Nat) : Int)
  rw [toNat_ofSigned fits, toSigned, Int.bmod_emod, Int.natCast_emod]

/-- A word of a width is read as it is, or as so much less than the limit. -/
theorem toSigned_cases (positive : 0 < bits) (w : Word) :
    ((w.toNat % limit bits : Nat) < (2 : Int) ^ (bits - 1) ∧
        toSigned bits w = (w.toNat % limit bits : Nat)) ∨
      (2 ^ (bits - 1) ≤ ((w.toNat % limit bits : Nat) : Int) ∧
        toSigned bits w = (w.toNat % limit bits : Nat) - limit bits) := by
  have low : w.toNat % limit bits < limit bits := Nat.mod_lt _ (limit_pos bits)
  have read : toSigned bits w = ((w.toNat % limit bits : Nat) : Int).bmod (limit bits) := by
    rw [toSigned, Int.natCast_emod, Int.emod_bmod]
  have half := half_pos bits
  rw [read]
  rcases bmod_cases positive (i := (w.toNat % limit bits : Nat)) (by omega) (by omega) with
    ⟨held, same⟩ | ⟨above, turned⟩ | ⟨below, -⟩
  · exact .inl ⟨held.2, same⟩
  · exact .inr ⟨above, turned⟩
  · omega

/-- The sign bit stands for the negative numbers. -/
theorem isNegative_eq (positive : 0 < bits) (w : Word) :
    isNegative bits w = decide (toSigned bits w < 0) := by
  have twice := limit_eq_twice positive
  have split : w.toNat % limit bits =
      w.toNat % 2 ^ (bits - 1) + 2 ^ (bits - 1) * (w.toNat / 2 ^ (bits - 1) % 2) := by
    rw [← Nat.mod_mul, ← Nat.pow_succ, Nat.succ_eq_add_one, Nat.sub_add_cancel positive, limit_eq_pow]
  have low : ((w.toNat % 2 ^ (bits - 1) : Nat) : Int) < 2 ^ (bits - 1) := by
    exact_mod_cast Nat.mod_lt w.toNat (Nat.two_pow_pos (bits - 1))
  rw [isNegative, Nat.testBit_eq_decide_div_mod_eq, decide_eq_decide]
  rcases Nat.mod_two_eq_zero_or_one (w.toNat / 2 ^ (bits - 1)) with clear | set
  · rw [clear, Nat.mul_zero, Nat.add_zero] at split
    rw [clear]
    rcases toSigned_cases positive w with ⟨-, read⟩ | ⟨above, -⟩ <;> omega
  · rw [set, Nat.mul_one] at split
    rw [set]
    have bound : w.toNat % limit bits < limit bits := Nat.mod_lt _ (limit_pos bits)
    have top : ((w.toNat % limit bits : Nat) : Int) = (w.toNat % 2 ^ (bits - 1) : Nat) + 2 ^ (bits - 1) := by
      rw [split]
      push_cast
      rfl
    rcases toSigned_cases positive w with ⟨below, -⟩ | ⟨-, read⟩ <;> omega

/-! ## Sums -/

theorem toNat_add (fits : bits ≤ width) (a b : Word) :
    (add bits a b).1.toNat = (a.toNat + b.toNat) % limit bits := by
  rw [add, toNat_truncate, UInt64.toNat_add, Nat.mod_mod_of_dvd _ (limit_dvd fits)]

theorem toSigned_add (fits : bits ≤ width) (a b : Word) :
    toSigned bits (add bits a b).1 = (toSigned bits a + toSigned bits b).bmod (limit bits) := by
  rw [toSigned, toNat_add fits, Int.natCast_emod, Int.emod_bmod, Int.natCast_add, Int.add_bmod]
  rfl

/-- A sum wraps around at most once, towards the range. -/
theorem toSigned_add_cases (positive : 0 < bits) (fits : bits ≤ width) (a b : Word) :
    (Representable bits (toSigned bits a + toSigned bits b) ∧
        toSigned bits (add bits a b).1 = toSigned bits a + toSigned bits b) ∨
      (2 ^ (bits - 1) ≤ toSigned bits a + toSigned bits b ∧
        toSigned bits (add bits a b).1 = toSigned bits a + toSigned bits b - limit bits) ∨
      (toSigned bits a + toSigned bits b < -2 ^ (bits - 1) ∧
        toSigned bits (add bits a b).1 = toSigned bits a + toSigned bits b + limit bits) := by
  have first := toSigned_representable positive a
  have second := toSigned_representable positive b
  have twice := limit_eq_twice positive
  unfold Representable at first second
  rw [toSigned_add fits]
  exact bmod_cases positive (by omega) (by omega)

/-- The flag of an addition tells that the sum is out of range. -/
theorem add_snd (positive : 0 < bits) (fits : bits ≤ width) (a b : Word) :
    (add bits a b).2 = !decide (Representable bits (toSigned bits a + toSigned bits b)) := by
  have flag : (add bits a b).2 = (isNegative bits a == isNegative bits b &&
      isNegative bits a != isNegative bits (add bits a b).1) := rfl
  have first := toSigned_representable positive a
  have second := toSigned_representable positive b
  have twice := limit_eq_twice positive
  have wraps := toSigned_add_cases positive fits a b
  rw [flag, isNegative_eq positive, isNegative_eq positive, isNegative_eq positive, Bool.eq_iff_iff]
  simp only [Bool.and_eq_true, beq_iff_eq, bne_iff_ne, ne_eq, decide_eq_decide, Bool.not_eq_true',
    decide_eq_false_iff_not]
  unfold Representable at first second wraps ⊢
  rcases wraps with ⟨inside, same⟩ | ⟨above, turned⟩ | ⟨below, turned⟩ <;> omega

/-! ## Negation -/

theorem toNat_negate (fits : bits ≤ width) (b : Word) :
    ((negate bits b).toNat : Int) = -(b.toNat : Int) % limit bits := by
  have whole : ((0 - b : Word).toNat : Int) = -(b.toNat : Int) % (2 ^ 64 : Nat) := by
    have bound : b.toNat < 2 ^ 64 := b.toNat_lt
    rw [UInt64.toNat_sub, UInt64.toNat_zero]
    omega
  rw [negate, toNat_truncate, Int.natCast_emod, whole,
    Int.emod_emod_of_dvd _ (Int.natCast_dvd_natCast.mpr (limit_dvd fits))]

/-- The most negative number is its own negation. -/
theorem toSigned_negate (positive : 0 < bits) (fits : bits ≤ width) (b : Word) :
    toSigned bits (negate bits b) =
      if toSigned bits b = -2 ^ (bits - 1) then toSigned bits b else -toSigned bits b := by
  have read : toSigned bits (negate bits b) = (-toSigned bits b).bmod (limit bits) := by
    rw [toSigned_of_emod (i := -b.toNat) (by rw [toNat_negate fits, Int.emod_emod]), toSigned,
      ← Int.zero_sub, ← Int.zero_sub, Int.sub_bmod_bmod]
  have held := toSigned_representable positive b
  have half := half_pos bits
  have twice := limit_eq_twice positive
  unfold Representable at held
  rw [read]
  rcases bmod_cases positive (i := -toSigned bits b) (by omega) (by omega) with
    ⟨inside, same⟩ | ⟨above, turned⟩ | ⟨below, turned⟩
  · unfold Representable at inside
    rw [same, if_neg (by omega)]
  · rw [turned, if_pos (by omega)]
    omega
  · omega

theorem toSigned_eq_least_iff (positive : 0 < bits) (b : Word) :
    toSigned bits b = -2 ^ (bits - 1) ↔ b.toNat % 2 ^ bits = 2 ^ (bits - 1) := by
  have twice := limit_eq_twice positive
  have cast : ((2 ^ (bits - 1) : Nat) : Int) = 2 ^ (bits - 1) := Int.natCast_pow 2 (bits - 1)
  have half := half_pos bits
  rw [← limit_eq_pow, ← Int.natCast_inj, cast]
  rcases toSigned_cases positive b with ⟨below, read⟩ | ⟨above, read⟩ <;> omega

/-! ## Differences -/

theorem toNat_sub (fits : bits ≤ width) (a b : Word) :
    ((sub bits a b).1.toNat : Int) = ((a.toNat : Int) - b.toNat) % limit bits := by
  rw [sub, toNat_add fits, Int.natCast_emod, Int.natCast_add, toNat_negate fits, Int.add_emod_emod,
    Int.sub_eq_add_neg]

/-- The flag of a subtraction tells that the difference is out of range, and the
opposite for the most negative operand. -/
theorem sub_snd (positive : 0 < bits) (fits : bits ≤ width) (a b : Word) :
    (sub bits a b).2 = (!decide (Representable bits (toSigned bits a - toSigned bits b)) ^^
      decide (b.toNat % 2 ^ bits = 2 ^ (bits - 1))) := by
  have held := toSigned_representable positive a
  rw [sub, add_snd positive fits, toSigned_negate positive fits]
  by_cases least : toSigned bits b = -2 ^ (bits - 1)
  · rw [if_pos least, least, decide_eq_true ((toSigned_eq_least_iff positive b).mp least), Bool.xor_true,
      Bool.not_not, ← decide_not, decide_eq_decide]
    unfold Representable at held ⊢
    omega
  · rw [if_neg least, decide_eq_false (mt (toSigned_eq_least_iff positive b).mpr least), Bool.xor_false,
      Int.sub_eq_add_neg]

theorem toNat_add_sub (fits : bits ≤ width) (a b : Word) :
    (sub bits (add bits a b).1 b).1.toNat = a.toNat % limit bits := by
  apply Int.ofNat.inj
  show ((sub bits (add bits a b).1 b).1.toNat : Int) = ((a.toNat % limit bits : Nat) : Int)
  rw [toNat_sub fits, toNat_add fits, Int.natCast_emod, Int.emod_sub_emod, Int.natCast_add,
    Int.add_sub_cancel, Int.natCast_emod]

/-- Taking a summand away again is out of range exactly when adding it was. -/
theorem representable_add_sub (positive : 0 < bits) (fits : bits ≤ width) (a b : Word) :
    Representable bits (toSigned bits (add bits a b).1 - toSigned bits b) ↔
      Representable bits (toSigned bits a + toSigned bits b) := by
  have first := toSigned_representable positive a
  have second := toSigned_representable positive b
  have twice := limit_eq_twice positive
  have wraps := toSigned_add_cases positive fits a b
  unfold Representable at first second wraps ⊢
  omega

/-! ## Bits above the width -/

theorem toSigned_truncate (w : Word) : toSigned bits (truncate bits w) = toSigned bits w := by
  apply toSigned_of_emod
  rw [toNat_truncate, Int.natCast_emod, Int.emod_emod]

theorem add_truncate (positive : 0 < bits) (fits : bits ≤ width) (a b : Word) :
    add bits (truncate bits a) (truncate bits b) = add bits a b := by
  refine Prod.ext (UInt64.toNat_inj.mp ?_) ?_
  · rw [toNat_add fits, toNat_add fits, toNat_truncate, toNat_truncate, ← Nat.add_mod]
  · rw [add_snd positive fits, add_snd positive fits, toSigned_truncate, toSigned_truncate]

theorem negate_truncate (fits : bits ≤ width) (b : Word) :
    negate bits (truncate bits b) = negate bits b := by
  apply UInt64.toNat_inj.mp
  apply Int.ofNat.inj
  show ((negate bits (truncate bits b)).toNat : Int) = (negate bits b).toNat
  rw [toNat_negate fits, toNat_negate fits, toNat_truncate, Int.natCast_emod, ← Int.zero_sub,
    Int.sub_emod_emod, Int.zero_sub]

theorem sub_truncate (positive : 0 < bits) (fits : bits ≤ width) (a b : Word) :
    sub bits (truncate bits a) (truncate bits b) = sub bits a b := by
  have within : truncate bits (negate bits b) = negate bits b := by
    apply UInt64.toNat_inj.mp
    rw [negate, toNat_truncate, toNat_truncate, Nat.mod_mod]
  have same := add_truncate positive fits a (negate bits b)
  rw [within] at same
  rw [sub, sub, negate_truncate fits, same]

/-- **Arithmetic is that of signed numbers of the width.** Words stand for the
numbers that so many bits can hold, and the bits above do not count. Sums and
differences are right up to a multiple of the limit. The flag of an addition tells
exactly that the sum is out of range; that of a subtraction tells it of the
difference, or the opposite if the most negative number is subtracted. Taking a
summand away again gives the other one back, with the flag of the addition unless
that summand is the most negative number, which is its own negation. -/
theorem arithmetic_exact (positive : 1 ≤ bits) (fits : bits ≤ 64) :
    (∀ a b : Word, (add bits a b).1.toNat = (a.toNat + b.toNat) % 2 ^ bits ∧
      ((add bits a b).2 = true ↔ ¬ Representable bits (toSigned bits a + toSigned bits b))) ∧
    (∀ a b : Word, ((sub bits a b).1.toNat : Int) = ((a.toNat : Int) - b.toNat) % 2 ^ bits ∧
      (sub bits a b).2 = (!decide (Representable bits (toSigned bits a - toSigned bits b)) ^^
        decide (b.toNat % 2 ^ bits = 2 ^ (bits - 1)))) ∧
    (∀ a b : Word, (sub bits (add bits a b).1 b).1.toNat = a.toNat % 2 ^ bits ∧
      ((sub bits (add bits a b).1 b).2 = (add bits a b).2 ↔ b.toNat % 2 ^ bits ≠ 2 ^ (bits - 1))) ∧
    (∀ i : Int, Representable bits i → toSigned bits (ofSigned bits i) = i) ∧
    (∀ w : Word, Representable bits (toSigned bits w) ∧
      (ofSigned bits (toSigned bits w)).toNat = w.toNat % 2 ^ bits) ∧
    (∀ w : Word, toSigned bits (negate bits w) =
      if toSigned bits w = -2 ^ (bits - 1) then toSigned bits w else -toSigned bits w) ∧
    ∀ a b : Word, toSigned bits (truncate bits a) = toSigned bits a ∧
      negate bits (truncate bits a) = negate bits a ∧
      add bits (truncate bits a) (truncate bits b) = add bits a b ∧
      sub bits (truncate bits a) (truncate bits b) = sub bits a b := by
  have limit_cast : (limit bits : Int) = 2 ^ bits := by
    rw [limit_eq_pow]
    exact Int.natCast_pow 2 bits
  simp only [← limit_eq_pow bits, ← limit_cast]
  refine ⟨fun a b => ⟨toNat_add fits a b, ?_⟩, fun a b => ⟨toNat_sub fits a b, ?_⟩,
    fun a b => ⟨toNat_add_sub fits a b, ?_⟩, ?_,
    fun w => ⟨toSigned_representable positive w, ofSigned_toSigned fits w⟩, toSigned_negate positive fits,
    fun a b => ⟨toSigned_truncate a, negate_truncate fits a, add_truncate positive fits a b,
      sub_truncate positive fits a b⟩⟩
  · rw [add_snd positive fits, Bool.not_eq_true', decide_eq_false_iff_not]
  · rw [sub_snd positive fits, limit_eq_pow]
  · rw [sub_snd positive fits, add_snd positive fits, limit_eq_pow]
    simp only [representable_add_sub positive fits]
    generalize (!decide (Representable bits (toSigned bits a + toSigned bits b))) = flag
    cases flag <;> simp
  · intro i held
    rw [toSigned_ofSigned fits, bmod_of_representable positive held]

/-- Three bits with others above them: three and one are out of range, and so is
zero less the most negative number, which the flag does not tell. -/
theorem arithmetic_exact_threeBits :
    1 ≤ 3 ∧ 3 ≤ 64 ∧ Representable 3 (-4) ∧ (add 3 0x0B 0x11).1.toNat = 4 ∧ (add 3 0x0B 0x11).2 = true ∧
      ¬ Representable 3 (toSigned 3 0 - toSigned 3 4) ∧ (sub 3 0 4).2 = false ∧
      toSigned 3 (ofSigned 3 (-4)) = -4 := by
  obtain ⟨sums, differences, -, signed, -⟩ := @arithmetic_exact 3 (by decide) (by decide)
  obtain ⟨sum, flag⟩ := sums 0x0B 0x11
  exact ⟨by decide, by decide, by decide, sum, flag.mpr (by decide), by decide,
    (differences 0 4).2.trans (by decide), signed (-4) (by decide)⟩

end WordArithmetic

end Y86Toolkit
