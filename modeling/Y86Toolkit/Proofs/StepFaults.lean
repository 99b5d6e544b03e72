import Y86Toolkit.Proofs.Fetch
import Y86Toolkit.Proofs.StepTable

/-!
Faults of a step. A step that ends with an error has changed nothing but the
status and the step count, and the status tells which of two kinds of fault it
was. Both kinds are described by the bytes in memory and the registers alone, so
that they say when a step fails and not only what it leaves.
-/

namespace Y86Toolkit.StepFaults
open StepTable Fetch

variable {m : Machine} {i : Instruction}

/-- The instruction at the program counter makes an access to a word that does
not lie in memory. The address is a word too: what wraps around is looked for
where it ends up. -/
def AccessOutside (m : Machine) : Prop :=
  ∃ i address, m.memory.decodeAt m.pc = .ok i ∧ (m.access i).address? = some address ∧
    ¬ m.memory.Inside address Bytes.perWord

theorem status_commit : (m.commit i).status = if i = .halt then .halted else m.status := by
  cases i with
  | halt => rfl
  | move =>
    rw [if_neg (by rintro ⟨⟩), Machine.commit, complete_move]
  | _ => rw [if_neg (by rintro ⟨⟩), Machine.commit, Machine.complete]

/-- What can be decoded is neither malformed nor cut off. -/
theorem decoded_found (decoded : m.memory.decodeAt m.pc = .ok i) :
    ¬ m.memory.Malformed m.pc ∧ ¬ m.memory.CutOff m.pc := by
  rcases decodeAt_cases m.memory m.pc with ⟨_, _, failed, _⟩ | ⟨_, _, failed, _⟩ | ⟨well, whole, _⟩
  · rw [decoded] at failed
    cases failed
  · rw [decoded] at failed
    cases failed
  · exact ⟨well, whole⟩

/-- A fetch fails for one of the two reasons, and the status tells which. -/
theorem fetch_failed {cause : FetchError} (failed : m.memory.decodeAt m.pc = .error cause) :
    (Machine.fetchStatus cause = .invalidInstruction ∧ m.memory.Malformed m.pc) ∨
      (Machine.fetchStatus cause = .invalidAddress ∧ m.memory.CutOff m.pc) := by
  rcases decodeAt_cases m.memory m.pc with
    ⟨malformed, other, same, kind⟩ | ⟨cut, other, same, kind⟩ | ⟨_, _, i, decoded⟩
  · obtain rfl : cause = other := Except.error.inj (failed.symm.trans same)
    exact .inl ⟨by rw [Machine.fetchStatus, kind]; rfl, malformed⟩
  · obtain rfl : cause = other := Except.error.inj (failed.symm.trans same)
    exact .inr ⟨by rw [Machine.fetchStatus, kind]; rfl, cut⟩
  · rw [failed] at decoded
    cases decoded

/-- A step of a running machine fails exactly where its instruction is malformed
or cut off, or reaches outside memory. -/
theorem step_fails_iff (running : m.status = .running) :
    (∃ fault, m.step.1 = .error fault) ↔
      m.memory.Malformed m.pc ∨ m.memory.CutOff m.pc ∨ AccessOutside m := by
  rcases step_cases m with ⟨stopped, _⟩ | ⟨_, cause, failed, step⟩ |
    ⟨_, i, address, decoded, made, outside, step⟩ | ⟨_, i, decoded, reaches, step⟩
  · exact absurd running stopped
  · rw [step]
    refine iff_of_true ⟨_, rfl⟩ ?_
    rcases fetch_failed failed with ⟨_, malformed⟩ | ⟨_, cut⟩
    · exact .inl malformed
    · exact .inr (.inl cut)
  · rw [step]
    exact iff_of_true ⟨_, rfl⟩ (.inr (.inr ⟨i, address, decoded, made, outside⟩))
  · rw [step]
    obtain ⟨well, whole⟩ := decoded_found decoded
    refine iff_of_false (by rintro ⟨fault, ⟨⟩⟩) ?_
    rintro (malformed | cut | ⟨j, address, again, made, outside⟩)
    · exact well malformed
    · exact whole cut
    · obtain rfl : i = j := Except.ok.inj (decoded.symm.trans again)
      exact outside (reaches address made)

/-- **A step is taken as a whole or not at all.** A machine that does not run is
left as it is. A step that fails changes the status and the step count, which
wraps around, and nothing else: the status becomes invalid instruction exactly
where the instruction is malformed and invalid address exactly where it is cut
off or reaches outside memory, and in no other place does a step fail. After a
step that succeeds the machine runs, unless it has halted. -/
theorem step_atomic (m : Machine) :
    (m.status ≠ .running → m.step = (.error (.notRunning m.status), m)) ∧
    (m.status = .running →
      (∀ fault, m.step.1 = .error fault →
        ∃ status, m.step.2 = { m with steps := m.steps + 1, status } ∧
          (status = .invalidInstruction ↔ m.memory.Malformed m.pc) ∧
          (status = .invalidAddress ↔ m.memory.CutOff m.pc ∨ AccessOutside m) ∧
          (status = .invalidInstruction ∨ status = .invalidAddress)) ∧
      ((∃ fault, m.step.1 = .error fault) ↔
        m.memory.Malformed m.pc ∨ m.memory.CutOff m.pc ∨ AccessOutside m) ∧
      ∀ i, m.step.1 = .ok i → m.step.2.status = if i = .halt then .halted else .running) := by
  rcases step_cases m with ⟨stopped, step⟩ | ⟨running, cause, failed, step⟩ |
    ⟨running, i, address, decoded, made, outside, step⟩ | ⟨running, i, decoded, reaches, step⟩
  · exact ⟨fun _ => step, fun running => absurd running stopped⟩
  all_goals
    refine ⟨fun stopped => absurd running stopped, fun _ => ⟨?_, step_fails_iff running, ?_⟩⟩
    rw [step]
  · intro fault _
    refine ⟨_, rfl, ?_⟩
    rcases fetch_failed failed with ⟨status, malformed⟩ | ⟨status, cut⟩
    · rw [status]
      refine ⟨iff_of_true rfl malformed, iff_of_false nofun ?_, .inl rfl⟩
      rintro (cut | ⟨_, _, decoded, _⟩)
      · exact not_malformed_of_cutOff cut malformed
      · rw [failed] at decoded
        cases decoded
    · rw [status]
      exact ⟨iff_of_false nofun (not_malformed_of_cutOff cut), iff_of_true rfl (.inl cut), .inr rfl⟩
  · rw [step]
    rintro _ ⟨⟩
  · intro fault _
    refine ⟨_, rfl, iff_of_false nofun (decoded_found decoded).1, iff_of_true rfl (.inr ?_), .inr rfl⟩
    exact ⟨i, address, decoded, made, outside⟩
  · rw [step]
    rintro _ ⟨⟩
  · rintro _ ⟨⟩
  · rw [step]
    rintro _ ⟨⟩
    rw [status_commit]
    exact congrArg (ite _ _) running

/-- A machine that pops into the stack pointer, which is so large that the word
behind it wraps around. -/
def popWrapping : Machine :=
  { Machine.fresh {} with
    registers := RegisterFile.zero.set .rsp (0 - 4)
    memory := ⟨#[0xB0, 0x4F]⟩ }

/-- Popping at a wrapping address is an invalid address and leaves the register. -/
theorem step_atomic_pop :
    popWrapping.status = .running ∧
      popWrapping.step.1 = .error (.access 0 (.outside (0 - 4) 8 2)) ∧
      popWrapping.step.2 = { popWrapping with steps := 1, status := .invalidAddress } := by
  have failed : popWrapping.step.1 = .error (.access 0 (.outside (0 - 4) 8 2)) := rfl
  obtain ⟨status, after, _, reason, _⟩ := ((step_atomic popWrapping).2 rfl).1 _ failed
  have outside : AccessOutside popWrapping :=
    ⟨.pop .rsp, 0 - 4, rfl, rfl, by decide⟩
  obtain rfl := reason.mpr (.inr outside)
  exact ⟨rfl, failed, after⟩

end Y86Toolkit.StepFaults
