import Y86Toolkit.Proofs.InstructionTable
import Y86Toolkit.Proofs.Resets

/-!
Opposite conditions on the flags that a run leaves. The flags are those of the last
operation, and a result of zero is not negative. So of two opposite conditions exactly one
holds, but for `less` and `greaterEqual`: a zero that has overflowed meets the first by its
overflow, and the second because it is zero. The most negative number added to itself
leaves such a zero. So does subtracting it from itself, which adds its negation, and
nothing else does (`opposite_conditions`).
-/

namespace Y86Toolkit

/-- Exactly one of two conditions holds on the flags. -/
def Condition.Complementary (c d : Condition) (flags : Flags) : Prop :=
  d.holds flags = !c.holds flags

/-- The flags tell of a result that is zero because it has overflowed. -/
def Flags.WrappedToZero (flags : Flags) : Prop := flags.overflow = true ∧ flags.zero = true

namespace Machine
open Word

/-- The step of a machine carries out an operation on two words. -/
def Operates (m : Machine) (op : AluOp) (a b : Word) : Prop :=
  ∃ source target, m.step.1 = .ok (.alu op source target) ∧
    m.registers.get target = a ∧ m.registers.get source = b

/-- The step of a machine adds the most negative word to itself, or subtracts it. -/
def Cancels (m : Machine) : Prop :=
  ∃ op a b, m.Operates op a b ∧ op ∈ [.add, .sub] ∧
    toSigned width a = -2 ^ 63 ∧ toSigned width b = -2 ^ 63

/-- Of the operations in so many steps, the last one has cancelled. -/
def CancelledLast (m : Machine) (n : Nat) : Prop :=
  ∃ k < n, (m.afterSteps k).Cancels ∧
    ∀ j, k < j → j < n → ∀ op a b, ¬ (m.afterSteps j).Operates op a b

end Machine

namespace OppositeConditions
open Word SignedWords InstructionTable StepTable Runs Resets

variable {m : Machine}

/-! ## The flags of a result -/

theorem zero_ofResult {result : Word} {overflow : Bool} :
    (Flags.ofResult result overflow).zero = true ↔ toSigned width result = 0 := by
  rw [← toSigned_zero, toSigned_inj]
  exact beq_iff_eq

/-- A result of zero is not negative. -/
theorem sign_ofResult {result : Word} {overflow : Bool}
    (zero : (Flags.ofResult result overflow).zero = true) :
    (Flags.ofResult result overflow).sign = false := by
  have result_zero := zero_ofResult.mp zero
  simp [Flags.ofResult, result_zero]

/-- Only the two most negative operands have a sum that overflows to zero. -/
theorem wrapped_add (a b : Word) :
    (Flags.ofResult (add width a b).1 (add width a b).2).WrappedToZero ↔
      toSigned width a = -2 ^ 63 ∧ toSigned width b = -2 ^ 63 := by
  have wraps := toSigned_add_cases a b
  have first := toSigned_range a
  have second := toSigned_range b
  have range := toSigned_range (a + b)
  rw [signed_toNat, signed_toNat] at wraps
  have overflow : (add width a b).2 = true ↔
      toSigned width a + toSigned width b < -2 ^ 63 ∨ 2 ^ 63 ≤ toSigned width a + toSigned width b := by
    simp [add_snd, exceeds, signed_toNat]
  have flagged : (Flags.ofResult (add width a b).1 (add width a b).2).overflow = (add width a b).2 := rfl
  rw [Flags.WrappedToZero, flagged, overflow, zero_ofResult, add_fst]
  omega

theorem sub_as_add (a b : Word) : sub width a b = add width a (0 - b) := by
  rw [sub, negate_width]

theorem wrapped_apply (op : AluOp) (a b : Word) :
    (Flags.ofResult (op.apply a b).1 (op.apply a b).2).WrappedToZero ↔
      op ∈ [.add, .sub] ∧ toSigned width a = -2 ^ 63 ∧ toSigned width b = -2 ^ 63 := by
  cases op with
  | add => simpa [AluOp.apply] using wrapped_add a b
  | sub =>
    have negated : toSigned width (0 - b) = -2 ^ 63 ↔ toSigned width b = -2 ^ 63 := by
      have range := toSigned_range b
      rw [toSigned_negate]
      split <;> omega
    have sum := wrapped_add a (0 - b)
    rw [negated, ← sub_as_add] at sum
    simpa only [AluOp.apply, List.mem_cons, reduceCtorEq, true_or, or_true, true_and] using sum
  | and | xor => simp [AluOp.apply, Flags.ofResult, Flags.WrappedToZero]

/-! ## The flags of a run -/

theorem operates_inj {op other : AluOp} {a b c d : Word} (first : m.Operates op a b)
    (second : m.Operates other c d) : op = other ∧ a = c ∧ b = d := by
  obtain ⟨source, target, step, rfl, rfl⟩ := first
  obtain ⟨_, _, same, rfl, rfl⟩ := second
  cases step.symm.trans same
  exact ⟨rfl, rfl, rfl⟩

/-- A step that carries out an operation leaves the flags of its result, and any other
step leaves the flags alone. -/
theorem flags_next (m : Machine) :
    (∃ op a b, m.Operates op a b ∧
      m.next.flags = Flags.ofResult (op.apply a b).1 (op.apply a b).2) ∨
    ((∀ op a b, ¬ m.Operates op a b) ∧ m.next.flags = m.flags) := by
  rw [Machine.next]
  rcases step_cases m with ⟨_, step⟩ | ⟨_, cause, _, step⟩ | ⟨_, i, address, _, _, _, step⟩ |
    ⟨_, i, _, _, step⟩
  · right
    simp [Machine.Operates, step]
  · right
    simp [Machine.Operates, step, stopped, counted]
  · right
    simp [Machine.Operates, step, stopped, counted]
  · rw [step]
    by_cases operation : i.opcode = .alu
    · left
      cases i with
      | alu op source target => exact ⟨op, _, _, ⟨source, target, by rw [step], rfl, rfl⟩, rfl⟩
      | _ => cases operation
    · right
      refine ⟨?_, flags_kept operation⟩
      rintro op a b ⟨source, target, same, -⟩
      rw [step] at same
      cases same
      exact operation rfl

/-- The last step has cancelled, or one before it has, and the last was no operation. -/
theorem cancelledLast_succ (n : Nat) :
    m.CancelledLast (n + 1) ↔ (m.afterSteps n).Cancels ∨
      m.CancelledLast n ∧ ∀ op a b, ¬ (m.afterSteps n).Operates op a b := by
  constructor
  · rintro ⟨k, early, cancels, quiet⟩
    rcases Nat.lt_succ_iff_lt_or_eq.mp early with before | rfl
    · right
      exact ⟨⟨k, before, cancels, fun j behind within => quiet j behind (Nat.lt_succ_of_lt within)⟩,
        quiet n before (Nat.lt_succ_self n)⟩
    · exact .inl cancels
  · rintro (cancels | ⟨⟨k, before, cancels, quiet⟩, idle⟩)
    · exact ⟨n, Nat.lt_succ_self n, cancels, by omega⟩
    · refine ⟨k, Nat.lt_succ_of_lt before, cancels, ?_⟩
      intro j behind within
      rcases Nat.lt_succ_iff_lt_or_eq.mp within with inner | rfl
      · exact quiet j behind inner
      · exact idle

/-- On a run that starts from other flags, the flags tell of a result that has wrapped to
zero exactly as long as the last operation is one that cancels. -/
theorem cancelledLast_iff (start : ¬ m.flags.WrappedToZero) (n : Nat) :
    m.CancelledLast n ↔ (m.afterSteps n).flags.WrappedToZero := by
  induction n with
  | zero =>
    apply iff_of_false _ start
    rintro ⟨k, early, -⟩
    exact absurd early (Nat.not_lt_zero k)
  | succ n ih =>
    rw [cancelledLast_succ, afterSteps_succ]
    rcases flags_next (m.afterSteps n) with ⟨op, a, b, operates, flags⟩ | ⟨idle, flags⟩
    · rw [flags, wrapped_apply]
      constructor
      · rintro (⟨other, c, d, same, cancels⟩ | ⟨-, idle⟩)
        · obtain ⟨rfl, rfl, rfl⟩ := operates_inj operates same
          exact cancels
        · exact absurd operates (idle op a b)
      · intro cancels
        exact .inl ⟨op, a, b, operates, cancels⟩
    · rw [flags, ← ih]
      constructor
      · rintro (⟨op, a, b, operates, -⟩ | ⟨earlier, -⟩)
        · exact absurd operates (idle op a b)
        · exact earlier
      · intro earlier
        exact .inr ⟨earlier, idle⟩

/-- The flags of a run never tell of a zero that is negative. -/
theorem sign_afterSteps (start : m.flags.zero = true → m.flags.sign = false) (n : Nat)
    (zero : (m.afterSteps n).flags.zero = true) : (m.afterSteps n).flags.sign = false := by
  induction n with
  | zero => exact start zero
  | succ n ih =>
    rw [afterSteps_succ] at zero ⊢
    rcases flags_next (m.afterSteps n) with ⟨op, a, b, -, flags⟩ | ⟨-, flags⟩
    · rw [flags] at zero ⊢
      exact sign_ofResult zero
    · rw [flags] at zero ⊢
      exact ih zero

/-! ## Conditions -/

theorem complementary_lessEqual (flags : Flags) : Condition.lessEqual.Complementary .greater flags := by
  simp [Condition.Complementary, Condition.holds, bne]

theorem complementary_less {flags : Flags} (plain : flags.zero = true → flags.sign = flags.overflow) :
    Condition.less.Complementary .greaterEqual flags := by
  rw [Condition.Complementary, Condition.holds, Condition.holds]
  cases zero : flags.zero with
  | false => simp only [Bool.false_or, bne, Bool.not_not]
  | true => simp only [plain zero, Bool.true_or, bne_self_eq_false, Bool.not_false]

/-- **Opposite conditions on a run.** Whatever program is loaded into a fresh machine, after
any number of steps exactly one of `lessEqual` and `greater` holds on the flags, and
exactly one of `equal` and `notEqual`. So does exactly one of `less` and `greaterEqual`,
unless the last operation added the most negative word to itself, or subtracted it. Then
both hold, and the flags tell so: the result is zero, and it has overflowed. -/
theorem opposite_conditions (c : Configuration) (program : Array Byte)
    (loads : (Machine.fresh c).load program = .ok m) (n : Nat) :
    let flags := (m.afterSteps n).flags
    Condition.lessEqual.Complementary .greater flags ∧ Condition.equal.Complementary .notEqual flags ∧
      (¬ m.CancelledLast n → Condition.less.Complementary .greaterEqual flags) ∧
      (m.CancelledLast n →
        Condition.less.holds flags = true ∧ Condition.greaterEqual.holds flags = true) ∧
      (m.CancelledLast n ↔ flags.overflow = true ∧ flags.zero = true) := by
  have clear : m.flags = .clear := by
    obtain ⟨-, rfl⟩ := load_inv loads
    rfl
  have sign := sign_afterSteps (m := m) (by rw [clear]; decide) n
  have last := cancelledLast_iff (m := m) (by rw [clear, Flags.WrappedToZero]; decide) n
  refine ⟨complementary_lessEqual _, rfl, ?_, ?_, last⟩
  · intro plain
    apply complementary_less
    intro zero
    have fits : (m.afterSteps n).flags.overflow = false := by
      by_contra overflow
      exact plain (last.mpr ⟨by simpa using overflow, zero⟩)
    rw [sign zero, fits]
  · intro cancelled
    obtain ⟨overflow, zero⟩ := last.mp cancelled
    simp [Condition.holds, overflow, zero, sign zero]

/-- A program that adds the most negative word to itself, and then the sum to itself. -/
def doublesLeast : Array Byte := #[0x30, 0xF0, 0, 0, 0, 0, 0, 0, 0, 0x80, 0x60, 0x00, 0x60, 0x00]

/-- The first sum leaves flags on which both conditions hold, and the second does not. -/
theorem opposite_conditions_doublesLeast :
    ∃ m, (Machine.fresh { memorySize := 14 }).load doublesLeast = .ok m ∧
      m.CancelledLast 2 ∧ Condition.greaterEqual.holds (m.afterSteps 2).flags = true ∧
      ¬ m.CancelledLast 3 ∧ Condition.less.Complementary .greaterEqual (m.afterSteps 3).flags := by
  have loads : (Machine.fresh { memorySize := 14 }).load doublesLeast = .ok _ := load_eq (by decide)
  obtain ⟨-, -, -, both, wrapped⟩ := opposite_conditions { memorySize := 14 } doublesLeast loads 2
  obtain ⟨-, -, one, -, plain⟩ := opposite_conditions { memorySize := 14 } doublesLeast loads 3
  have cancelled := wrapped.mpr (by decide)
  have ended := mt plain.mp (by decide)
  exact ⟨_, loads, cancelled, (both cancelled).2, ended, one ended⟩

/-- A program can leave flags on which `less` and `greaterEqual` both hold. -/
theorem less_and_greaterEqual :
    ¬ ∀ (c : Configuration) (program : Array Byte) (m : Machine),
      (Machine.fresh c).load program = .ok m → ∀ n,
        Condition.lessEqual.Complementary .greater (m.afterSteps n).flags ∧
        Condition.less.Complementary .greaterEqual (m.afterSteps n).flags ∧
        Condition.equal.Complementary .notEqual (m.afterSteps n).flags := by
  intro always
  have loads : (Machine.fresh { memorySize := 14 }).load doublesLeast = .ok _ := load_eq (by decide)
  obtain ⟨-, one, -⟩ := always _ _ _ loads 2
  exact absurd one (by rw [Condition.Complementary]; decide)

end OppositeConditions

end Y86Toolkit
