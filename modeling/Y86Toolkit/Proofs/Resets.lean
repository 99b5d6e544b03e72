import Y86Toolkit.Proofs.Runs

/-!
Loading and resetting a machine. A program is loaded exactly where it fits into
memory. Nothing that a machine does changes the size of its memory or its
configuration, and so resetting it gives a fresh machine again.
-/

namespace Y86Toolkit

namespace Machine

/-- Memory has the size that the configuration asks for. -/
def Sized (m : Machine) : Prop := m.memory.size = m.configuration.memorySize.toNat

/-- Two machines have memories of one size, and the same configuration. -/
structure Alike (m after : Machine) : Prop where
  size : after.memory.size = m.memory.size
  configuration : after.configuration = m.configuration

theorem Alike.refl (m : Machine) : m.Alike m := ⟨rfl, rfl⟩

theorem Alike.trans {first second third : Machine} (front : first.Alike second)
    (behind : second.Alike third) :
    first.Alike third :=
  ⟨behind.size.trans front.size, behind.configuration.trans front.configuration⟩

theorem Alike.sized {m after : Machine} (alike : m.Alike after) (sized : m.Sized) : after.Sized := by
  rw [Sized, alike.size, alike.configuration]
  exact sized

end Machine

namespace Resets
open StepTable Runs

variable {m after : Machine} {program : Array Byte}

theorem alike_next : m.Alike m.next := by
  rw [Machine.next]
  rcases step_cases m with ⟨_, step⟩ | ⟨_, cause, _, step⟩ | ⟨_, i, address, _, _, _, step⟩ |
    ⟨_, i, _, _, step⟩
  · rw [step]
    exact ⟨rfl, rfl⟩
  · rw [step]
    exact ⟨rfl, rfl⟩
  · rw [step]
    exact ⟨rfl, rfl⟩
  · rw [step]
    exact ⟨size_after _ _, configuration_commit (m := counted m)⟩

theorem alike_afterSteps (m : Machine) (count : Nat) : m.Alike (m.afterSteps count) := by
  induction count with
  | zero => exact .refl m
  | succ count ih =>
    rw [afterSteps_succ]
    exact ih.trans alike_next

theorem alike_reset (m : Machine) : m.Alike m.reset := ⟨Array.size_replicate, rfl⟩

/-! ## Loading -/

theorem load_eq (fits : program.size ≤ m.memory.size) :
    m.load program = .ok { m with memory := ⟨Bytes.overwrite m.memory.bytes 0 program.toList⟩ } := by
  have room : ¬ m.memory.size - (0 : Word).toNat < program.size := by simpa using fits
  have starts : ¬ m.memory.size < (0 : Word).toNat := by simp
  rw [Machine.load, Memory.loadProgram, if_neg room, if_neg starts]
  rfl

theorem load_tooLarge (large : m.memory.size < program.size) :
    m.load program = .error (.programTooLarge program.size m.memory.size) := by
  have short : m.memory.size - (0 : Word).toNat < program.size := by simpa using large
  rw [Machine.load, Memory.loadProgram, if_pos short]
  rfl

/-- What was loaded fits, and nothing but memory has changed. -/
theorem load_inv (loads : m.load program = .ok after) :
    program.size ≤ m.memory.size ∧
      after = { m with memory := ⟨Bytes.overwrite m.memory.bytes 0 program.toList⟩ } := by
  rcases Nat.lt_or_ge m.memory.size program.size with large | fits
  · rw [load_tooLarge large] at loads
    cases loads
  · rw [load_eq fits] at loads
    exact ⟨fits, (Except.ok.inj loads).symm⟩

theorem alike_load (loads : m.load program = .ok after) : m.Alike after := by
  obtain ⟨-, rfl⟩ := load_inv loads
  refine ⟨?_, rfl⟩
  rw [Memory.size, Bytes.size_overwrite, ← Memory.size]

/-! ## Resetting -/

theorem sized_fresh (c : Configuration) : (Machine.fresh c).Sized := Array.size_replicate

/-- A machine whose memory has the configured size is reset to a fresh one. -/
theorem reset_eq (sized : m.Sized) : m.reset = .fresh m.configuration := by
  rw [Machine.reset, Machine.fresh, Memory.clear, sized]

theorem reset_reset : m.reset.reset = m.reset := by
  have size : m.memory.clear.size = m.memory.size := (alike_reset m).size
  rw [Machine.reset, Machine.reset, Memory.clear, size, ← Memory.clear]

end Resets

end Y86Toolkit
