import Y86Toolkit.Proofs.SignedWords
import Y86Toolkit.Proofs.StepTable

/-!
Comparing by subtraction. The conditions on the flags of a difference tell how
its operands compare as signed numbers. A difference is made by adding a
negation, and the most negative number has none: where it is subtracted, the
overflow flag is inverted, and the first operand always counts as the smaller.
-/

namespace Y86Toolkit

/-- What a condition says of two numbers of which the second was subtracted from
the first. -/
def Condition.Compares (a b : Int) : Condition → Prop
  | always => True
  | lessEqual => a ≤ b
  | less => a < b
  | equal => a = b
  | notEqual => a ≠ b
  | greaterEqual => b ≤ a
  | greater => b < a

namespace Comparison
open Word SignedWords StepTable

/-- The flags of a difference. -/
def flagsOf (a b : Word) : Flags := Flags.ofResult (sub width a b).1 (sub width a b).2

theorem zero_flagsOf (a b : Word) :
    (flagsOf a b).zero = true ↔ toSigned width a = toSigned width b := by
  rw [← sub_eq_zero_iff, ← sub_fst]
  exact beq_iff_eq

/-- The sign and the overflow of a difference disagree where the first operand is
the smaller, and wherever the second has no negation. -/
theorem less_flagsOf (a b : Word) :
    ((flagsOf a b).sign != (flagsOf a b).overflow) = true ↔
      toSigned width a < toSigned width b ∨ toSigned width b = -2 ^ 63 := by
  have rangeA := toSigned_range a
  have rangeB := toSigned_range b
  have wraps := toSigned_sub_cases a b
  have range := toSigned_range (a - b)
  have sign : (flagsOf a b).sign = decide (toSigned width (a - b) < 0) := by
    rw [flagsOf, Flags.ofResult, sub_fst]
  have overflow : (flagsOf a b).overflow = (sub width a b).2 := rfl
  rw [sign, overflow, sub_snd]
  simp only [isNegative_width, toSigned_negate]
  by_cases least : toSigned width b = -2 ^ 63
  · -- The first operand and the difference have different signs.
    simp only [least]
    by_cases negative : toSigned width a < 0
    · have positive : ¬ toSigned width (a - b) < 0 := by omega
      simp [negative, positive]
    · have wrapped : toSigned width (a - b) < 0 := by omega
      simp [negative, wrapped]
  · simp only [least, if_false, or_false]
    by_cases first : toSigned width a < 0 <;> by_cases second : 0 < toSigned width b <;>
      by_cases difference : toSigned width (a - b) < 0 <;> simp [first, second, difference] <;> omega

/-- The flags of a difference compare its operands, if the second has a negation. -/
theorem holds_flagsOf {a b : Word} (ordinary : toSigned width b ≠ -2 ^ 63) (c : Condition) :
    c.holds (flagsOf a b) = true ↔ c.Compares (toSigned width a) (toSigned width b) := by
  have zero := zero_flagsOf a b
  have less := less_flagsOf a b
  rw [or_iff_left ordinary] at less
  have agree : ((flagsOf a b).sign == (flagsOf a b).overflow) = true ↔
      ¬ toSigned width a < toSigned width b := by
    rw [← less]
    simp
  cases c <;>
    simp only [Condition.holds, Condition.Compares, Bool.or_eq_true, Bool.and_eq_true,
      Bool.not_eq_true', ← Bool.not_eq_true, zero, less, agree] <;>
    omega

theorem holds_flagsOf_least {a b : Word} (least : toSigned width b = -2 ^ 63) :
    Condition.less.holds (flagsOf a b) = true ∧ Condition.lessEqual.holds (flagsOf a b) = true ∧
      Condition.greater.holds (flagsOf a b) = false ∧
      (Condition.greaterEqual.holds (flagsOf a b) = true ↔ toSigned width a = -2 ^ 63) ∧
      (Condition.equal.holds (flagsOf a b) = true ↔ toSigned width a = toSigned width b) ∧
      (Condition.notEqual.holds (flagsOf a b) = true ↔ toSigned width a ≠ toSigned width b) := by
  have zero := zero_flagsOf a b
  have less := (less_flagsOf a b).mpr (.inr least)
  have agree : ((flagsOf a b).sign == (flagsOf a b).overflow) = false := by
    simpa using less
  refine ⟨less, ?_, ?_, ?_, zero, ?_⟩
  · simp only [Condition.holds, less, Bool.or_true]
  · simp only [Condition.holds, agree, Bool.and_false]
  · simp only [Condition.holds, agree, Bool.or_false, zero, least]
  · simp only [Condition.holds, Bool.not_eq_true', ← Bool.not_eq_true, zero, ne_eq]

variable {m : Machine} {source target : Register}

/-- A step over a subtraction makes no access, and so it is taken. -/
theorem step_sub (running : m.status = .running)
    (decoded : m.memory.decodeAt m.pc = .ok (.alu .sub source target)) :
    m.step = (.ok (.alu .sub source target), (counted m).commit (.alu .sub source target)) :=
  step_reaches running decoded nofun

/-- **A subtraction compares its operands as signed numbers.** It leaves their
difference, which wraps around, and flags on which each condition holds exactly
when the target's old value compares so with the source's. Where the source held
the most negative number, equality is still told, but the target always counts as
less. -/
theorem subtraction_compares (m : Machine) (source target : Register) (running : m.status = .running)
    (decoded : m.memory.decodeAt m.pc = .ok (.alu .sub source target)) :
    ∃ after, m.step = (.ok (.alu .sub source target), after) ∧
      let a := toSigned width (m.registers.get target)
      let b := toSigned width (m.registers.get source)
      ((after.registers.get target).toNat : Int) = (a - b) % 2 ^ 64 ∧
      (b ≠ -2 ^ 63 → ∀ c : Condition, c.holds after.flags = true ↔ c.Compares a b) ∧
      (b = -2 ^ 63 →
        Condition.less.holds after.flags = true ∧ Condition.lessEqual.holds after.flags = true ∧
        Condition.greater.holds after.flags = false ∧
        (Condition.greaterEqual.holds after.flags = true ↔ a = -2 ^ 63) ∧
        (Condition.equal.holds after.flags = true ↔ a = b) ∧
        (Condition.notEqual.holds after.flags = true ↔ a ≠ b)) := by
  refine ⟨_, step_sub running decoded, ?_, fun ordinary c => ?_, fun least => ?_⟩
  · have value : ((counted m).commit (.alu .sub source target)).registers.get target =
        (sub width (m.registers.get target) (m.registers.get source)).1 := by
      simp only [Machine.commit, Machine.complete, RegisterFile.get_set, if_true]
      rfl
    rw [value, sub_fst]
    exact toNat_sub_eq_emod _ _
  · exact holds_flagsOf ordinary c
  · exact holds_flagsOf_least least

/-- A machine that subtracts the most negative word from one. -/
def leastSubtracted : Machine :=
  { Machine.fresh {} with
    registers := (RegisterFile.zero.set .rax 1).set .rbx (UInt64.ofNat (2 ^ 63))
    memory := ⟨#[0x61, 0x30]⟩ }

/-- One is greater than the most negative number, and counts as less. -/
theorem subtraction_compares_least :
    leastSubtracted.status = .running ∧
      leastSubtracted.memory.decodeAt leastSubtracted.pc = .ok (.alu .sub .rbx .rax) ∧
      ∃ after, leastSubtracted.step = (.ok (.alu .sub .rbx .rax), after) ∧
        Condition.less.holds after.flags = true ∧ Condition.greater.holds after.flags = false := by
  have decoded : leastSubtracted.memory.decodeAt leastSubtracted.pc = .ok (.alu .sub .rbx .rax) := rfl
  obtain ⟨after, step, _, _, least⟩ := subtraction_compares leastSubtracted .rbx .rax rfl decoded
  obtain ⟨less, _, greater, _⟩ := least (by decide)
  exact ⟨rfl, decoded, after, step, less, greater⟩

end Comparison

end Y86Toolkit
