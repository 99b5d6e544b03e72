import Y86Toolkit.Proofs.MemoryFrames
import Y86Toolkit.Proofs.Resets

/-!
Calls and the returns that belong to them. A call leaves the address behind itself on the
stack, and no step disturbs that word but one that stores into it. So whatever is done
in between, a return that finds the stack pointer where the call has left it goes back
behind the call (`call_returns`).
-/

namespace Y86Toolkit

namespace Machine

/-- The step of a machine stores a word at an address. -/
def Stores (m : Machine) (address : Word) : Prop :=
  ∃ i value, m.step.1 = .ok i ∧ m.access i = .store address value

/-- The step of a machine stores into none of the eight bytes at an address. -/
def Spares (m : Machine) (slot : Word) : Prop :=
  ∀ address, m.Stores address → address.toNat + 8 ≤ slot.toNat ∨ slot.toNat + 8 ≤ address.toNat

end Machine

namespace CallReturn
open Memory MemoryFrames StepTable Runs Resets

variable {m called : Machine} {slot destination : Word}

/-! ## Words that are spared -/

/-- A step changes no word that it does not store into. -/
theorem loaded_next (spares : m.Spares slot) :
    m.next.memory.loaded (.load slot) = m.memory.loaded (.load slot) := by
  rw [Machine.next]
  rcases step_cases m with ⟨_, step⟩ | ⟨_, cause, _, step⟩ | ⟨_, i, address, _, _, _, step⟩ |
    ⟨_, i, _, _, step⟩
  · rw [step]
  · rw [step]
    rfl
  · rw [step]
    rfl
  · have memory : m.step.2.memory = m.memory.after (m.access i) := by
      rw [step, Machine.commit, access_counted]
      rfl
    rw [memory]
    cases access : m.access i with
    | none | load => rfl
    | store address value =>
      have apart := spares address ⟨i, value, by rw [step], access⟩
      exact loaded_sameOutside (sameOutside_store m.memory address value) apart.symm

theorem loaded_afterSteps (n : Nat) (spares : ∀ k < n, (m.afterSteps k).Spares slot) :
    (m.afterSteps n).memory.loaded (.load slot) = m.memory.loaded (.load slot) := by
  induction n with
  | zero => rfl
  | succ n ih =>
    rw [afterSteps_succ, loaded_next (spares n (Nat.lt_succ_self n))]
    exact ih fun k early => spares k (Nat.lt_succ_of_lt early)

/-! ## Calls and returns -/

/-- A call that is taken has room on the stack for the address behind it. -/
theorem call_inv (calls : m.step = (.ok (.call destination), called)) :
    m.memory.Inside (m.stackPointer - 8) Bytes.perWord ∧
      called = (counted m).commit (.call destination) := by
  rcases step_cases m with ⟨_, step⟩ | ⟨_, cause, _, step⟩ | ⟨_, i, address, _, _, _, step⟩ |
    ⟨_, i, _, reaches, step⟩
  · cases calls.symm.trans step
  · cases calls.symm.trans step
  · cases calls.symm.trans step
  · cases calls.symm.trans step
    exact ⟨reaches _ rfl, rfl⟩

/-- The address behind a call stands where the stack pointer is then. -/
theorem called_slot (calls : m.step = (.ok (.call destination), called)) :
    called.stackPointer = m.stackPointer - 8 ∧ called.memory.Inside called.stackPointer Bytes.perWord ∧
      called.memory.loaded (.load called.stackPointer) = m.pc + 9 := by
  obtain ⟨inside, rfl⟩ := call_inv calls
  have top : ((counted m).commit (.call destination)).stackPointer = m.stackPointer - 8 :=
    (RegisterFile.get_set ..).trans (if_pos rfl)
  have memory : ((counted m).commit (.call destination)).memory =
      m.memory.store (m.stackPointer - 8) (m.pc + 9) := rfl
  rw [top, memory]
  refine ⟨rfl, ?_, loaded_store inside⟩
  rw [Memory.Inside, (sameOutside_store _ _ _).size]
  exact inside

/-- **A return goes back behind the call.** Let a call be taken, and then any number of
steps, of which none stores into the word where the stack pointer was behind the call.
If the machine still runs, with the stack pointer there again, and a return is next, then
the return is taken. It goes on behind the call with the stack pointer as it was in front
of the call, and leaves memory as it is. -/
theorem call_returns (calls : m.step = (.ok (.call destination), called)) (n : Nat)
    (spares : ∀ k < n, (called.afterSteps k).Spares called.stackPointer)
    (running : (called.afterSteps n).status = .running)
    (level : (called.afterSteps n).stackPointer = called.stackPointer)
    (returns : (called.afterSteps n).memory.decodeAt (called.afterSteps n).pc = .ok .ret) :
    ∃ after, (called.afterSteps n).step = (.ok .ret, after) ∧ after.pc = m.pc + 9 ∧
      after.stackPointer = m.stackPointer ∧ after.memory = (called.afterSteps n).memory ∧
      after.status = .running := by
  obtain ⟨top, inside, slot⟩ := called_slot calls
  have reaches : Reaches (called.afterSteps n) .ret := by
    rintro address ⟨⟩
    rw [level, Memory.Inside, (alike_afterSteps called n).size]
    exact inside
  refine ⟨_, step_reaches running returns reaches, ?_, ?_, rfl, running⟩
  · show (called.afterSteps n).memory.loaded (.load (called.afterSteps n).stackPointer) = m.pc + 9
    rw [level, loaded_afterSteps n spares, slot]
  · have popped : ((counted (called.afterSteps n)).commit .ret).stackPointer =
        (called.afterSteps n).stackPointer + 8 := (RegisterFile.get_set ..).trans (if_pos rfl)
    rw [popped, level, top, UInt64.sub_add_cancel]

/-- A machine that calls a routine which pushes and pops, in a memory where the stack
follows the code at once. -/
def callsRoutine : Machine :=
  { Machine.fresh {} with
    registers := RegisterFile.zero.set .rsp 30
    memory := ⟨#[0x80, 0x09, 0, 0, 0, 0, 0, 0, 0, 0xA0, 0x0F, 0xB0, 0x0F, 0x90] ++ Array.replicate 16 0⟩ }

/-- The routine stores below the address that it returns to, and returns. -/
theorem call_returns_routine :
    ∃ called, callsRoutine.step = (.ok (.call 9), called) ∧
      (∀ k < 2, (called.afterSteps k).Spares called.stackPointer) ∧
      (called.afterSteps 2).status = .running ∧
      (called.afterSteps 2).stackPointer = called.stackPointer ∧
      (called.afterSteps 2).memory.decodeAt (called.afterSteps 2).pc = .ok .ret ∧
      ∃ after, (called.afterSteps 2).step = (.ok .ret, after) ∧ after.pc = 9 ∧
        after.stackPointer = 30 := by
  have calls : callsRoutine.step = (.ok (.call 9), callsRoutine.next) := rfl
  have spares : ∀ k < 2, (callsRoutine.next.afterSteps k).Spares callsRoutine.next.stackPointer := by
    intro k early address stores
    obtain ⟨i, value, step, access⟩ := stores
    match k, early with
    | 0, _ =>
      obtain rfl : Instruction.push .rax = i := Except.ok.inj step
      obtain ⟨rfl, -⟩ := Access.store.inj access
      decide
    | 1, _ =>
      obtain rfl : Instruction.pop .rax = i := Except.ok.inj step
      cases access
  have level : (callsRoutine.next.afterSteps 2).stackPointer = callsRoutine.next.stackPointer := by
    decide
  have returns : (callsRoutine.next.afterSteps 2).memory.decodeAt
      (callsRoutine.next.afterSteps 2).pc = .ok .ret := rfl
  obtain ⟨after, step, pc, top, -⟩ := call_returns calls 2 spares rfl level returns
  exact ⟨_, calls, spares, rfl, level, returns, after, step, pc, top⟩

end CallReturn

end Y86Toolkit
