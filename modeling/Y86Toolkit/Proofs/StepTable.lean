import Y86Toolkit.Machine.Step

/-!
What a step does, as a table. An instruction makes at most one access to memory,
and what it does besides is a function of the machine and of the word that was
loaded. Carrying an instruction out step by step makes all changes of the table
(`perform_reaches`), or finds its access outside memory and makes none of them
(`perform_outside`).
-/

namespace Y86Toolkit

/-- The one word of memory that an instruction reads or writes. -/
inductive Access where
  | none
  | load (address : Word)
  | store (address value : Word)
  deriving DecidableEq, Repr

/-- The address of the word. -/
def Access.address? : Access → Option Word
  | none => .none
  | load address | store address _ => some address

namespace Memory

/-- The word that an access loads, zero if it loads none. -/
def loaded (m : Memory) : Access → Word
  | .load address =>
    Bytes.toWord (Bytes.slice m.bytes address.toNat (address.toNat + Bytes.perWord))
  | _ => 0

/-- Memory after an access. -/
def after (m : Memory) : Access → Memory
  | .store address value => m.store address value
  | _ => m

section
variable {m : Memory} {address : Word}

theorem readWord_inside (inside : m.Inside address Bytes.perWord) :
    m.readWord address = .ok (m.loaded (.load address)) := by
  rw [readWord, fetch, if_pos inside]
  rfl

theorem readWord_outside (outside : ¬ m.Inside address Bytes.perWord) :
    m.readWord address = .error (.outside address Bytes.perWord m.size) := by
  rw [readWord, fetch, if_neg outside]
  rfl

theorem writeWord_inside (inside : m.Inside address Bytes.perWord) (value : Word) :
    m.writeWord address value = .ok (m.store address value) := if_pos inside

theorem writeWord_outside (outside : ¬ m.Inside address Bytes.perWord) (value : Word) :
    m.writeWord address value = .error (.outside address Bytes.perWord m.size) := if_neg outside

end

end Memory

namespace Machine

/-- The access that an instruction makes. -/
def access (m : Machine) (i : Instruction) : Access :=
  match i with
  | .store source base displacement =>
    .store (m.registers.get base + displacement) (m.registers.get source)
  | .load base _ displacement => .load (m.registers.get base + displacement)
  | .call _ => .store (m.stackPointer - 8) (m.nextPc i)
  | .ret | .pop _ => .load m.stackPointer
  | .push source =>
    let top := m.stackPointer - 8
    .store top (if source = .rsp then top else m.registers.get source)
  | .halt | .nop | .move .. | .loadImmediate .. | .alu .. | .jump .. => .none

/-- The machine after an instruction whose access was made and loaded a word. -/
def complete (m : Machine) (i : Instruction) (loaded : Word) : Machine :=
  let next := m.nextPc i
  match i with
  | .halt => { m with status := .halted }
  | .nop | .store .. => { m with pc := next }
  | .move condition source target =>
    if condition.holds m.flags then
      { m with registers := m.registers.set target (m.registers.get source), pc := next }
    else { m with pc := next }
  | .loadImmediate value target => { m with registers := m.registers.set target value, pc := next }
  | .load _ target _ => { m with registers := m.registers.set target loaded, pc := next }
  | .alu op source target =>
    let (result, overflow) := op.apply (m.registers.get target) (m.registers.get source)
    { m with
      registers := m.registers.set target result
      flags := Flags.ofResult result overflow
      pc := next }
  | .jump condition destination =>
    { m with pc := if condition.holds m.flags then destination else next }
  | .call destination =>
    { m with registers := m.registers.set .rsp (m.stackPointer - 8), pc := destination }
  | .ret => { m with registers := m.registers.set .rsp (m.stackPointer + 8), pc := loaded }
  | .push _ => { m with registers := m.registers.set .rsp (m.stackPointer - 8), pc := next }
  | .pop target =>
    let popped := m.registers.set target loaded
    { m with registers := popped.set .rsp (popped.get .rsp + 8), pc := next }

/-- The machine after an instruction whose access lies in memory. -/
def commit (m : Machine) (i : Instruction) : Machine :=
  { m.complete i (m.memory.loaded (m.access i)) with memory := m.memory.after (m.access i) }

end Machine

namespace StepTable
open Execution

variable {m : Machine} {i : Instruction} {address value : Word}

theorem readWord_inside (inside : m.memory.Inside address Bytes.perWord) :
    (readWord address).run m = (.ok (m.memory.loaded (.load address)), m) := by
  simp only [readWord, ExceptT.run_mk, Memory.readWord_inside inside]

theorem readWord_outside (outside : ¬ m.memory.Inside address Bytes.perWord) :
    (readWord address).run m = (.error (.outside address Bytes.perWord m.memory.size), m) := by
  simp only [readWord, ExceptT.run_mk, Memory.readWord_outside outside]

theorem writeWord_inside (inside : m.memory.Inside address Bytes.perWord) :
    (writeWord address value).run m = (.ok (), { m with memory := m.memory.store address value }) := by
  simp only [writeWord, ExceptT.run_mk, Memory.writeWord_inside inside]

theorem writeWord_outside (outside : ¬ m.memory.Inside address Bytes.perWord) :
    (writeWord address value).run m = (.error (.outside address Bytes.perWord m.memory.size), m) := by
  simp only [writeWord, ExceptT.run_mk, Memory.writeWord_outside outside]

/-! ## Running an instruction -/

theorem run_get : (get : Execution Machine).run m = (.ok m, m) := rfl

theorem run_setRegister {r : Register} :
    (setRegister r value).run m = (.ok (), { m with registers := m.registers.set r value }) := rfl

theorem run_goTo : (goTo address).run m = (.ok (), { m with pc := address }) := rfl

/-- The second part starts on the machine that the first leaves, unless the
first ends with a fault. -/
theorem run_bind {α β : Type} (first : Execution α) (next : α → Execution β) :
    (first >>= next).run m =
      match first.run m with
      | (.ok a, after) => (next a).run after
      | (.error fault, after) => (.error fault, after) := by
  have unfolded : (first >>= next).run m = StateT.bind first.run (ExceptT.bindCont next) m := rfl
  rw [unfolded, StateT.bind]
  rcases first.run m with ⟨_ | a, after⟩ <;> rfl

/-- The access of an instruction lies in memory, if it makes one. -/
def Reaches (m : Machine) (i : Instruction) : Prop :=
  ∀ address ∈ (m.access i).address?, m.memory.Inside address Bytes.perWord

/-- An instruction whose access lies in memory makes the changes of the table. -/
theorem perform_reaches (reaches : Reaches m i) : (perform i).run m = (.ok (), m.commit i) := by
  cases i with
  | halt | nop | loadImmediate | alu | jump => rfl
  | move condition =>
    simp only [perform, run_bind, run_get, Machine.commit, Machine.complete]
    by_cases holds : condition.holds m.flags
    · simp only [if_pos holds, Machine.access, Memory.after]
      rfl
    · simp only [if_neg holds, Machine.access, Memory.after]
      rfl
  | store | call | push =>
    simp only [perform, run_bind, run_get, writeWord_inside (reaches _ rfl), run_setRegister, run_goTo]
    simp only [Machine.commit, Machine.complete, Machine.access, Memory.after, Machine.nextPc,
      Machine.stackPointer]
  | load | ret | pop =>
    simp only [perform, run_bind, run_get, readWord_inside (reaches _ rfl), run_setRegister, run_goTo]
    simp only [Machine.commit, Machine.complete, Machine.access, Memory.after, Machine.nextPc,
      Machine.stackPointer]

/-- An instruction whose access does not lie in memory changes nothing. -/
theorem perform_outside (made : (m.access i).address? = some address)
    (outside : ¬ m.memory.Inside address Bytes.perWord) :
    (perform i).run m = (.error (.outside address Bytes.perWord m.memory.size), m) := by
  cases i with
  | halt | nop | loadImmediate | alu | jump | move => cases made
  | store | call | push =>
    obtain rfl := Option.some.inj made
    simp only [perform, run_bind, run_get, writeWord_outside outside]
  | load | ret | pop =>
    obtain rfl := Option.some.inj made
    simp only [perform, run_bind, run_get, readWord_outside outside]

/-! ## Steps -/

/-- The machine with its step counted. -/
def counted (m : Machine) : Machine := { m with steps := m.steps + 1 }

/-- The machine stopped by a fault, which shows in the status and the step count
alone. -/
def stopped (m : Machine) (status : Status) : Machine := { counted m with status }

theorem access_counted : (counted m).access i = m.access i := by
  cases i <;> rfl

/-- A move goes on behind itself whether or not its condition holds. -/
theorem complete_move {condition : Condition} {source target : Register} {loaded : Word} :
    m.complete (.move condition source target) loaded =
      { m with
        registers :=
          if condition.holds m.flags then m.registers.set target (m.registers.get source)
          else m.registers
        pc := m.nextPc (.move condition source target) } := by
  rw [Machine.complete]
  split <;> rfl

theorem steps_commit : (m.commit i).steps = m.steps := by
  cases i with
  | move => rw [Machine.commit, complete_move]
  | _ => rw [Machine.commit, Machine.complete]

theorem configuration_commit : (m.commit i).configuration = m.configuration := by
  cases i with
  | move => rw [Machine.commit, complete_move]
  | _ => rw [Machine.commit, Machine.complete]

theorem size_after (memory : Memory) (access : Access) : (memory.after access).size = memory.size := by
  cases access with
  | none | load => rfl
  | store => rw [Memory.after, Memory.store, Memory.size, Bytes.size_overwrite, ← Memory.size]

/-- **What a step does.** A machine that does not run takes none. Otherwise there
is no instruction to read, or the access of the instruction does not lie in
memory, or all changes of the table are made. -/
theorem step_cases (m : Machine) :
    (m.status ≠ .running ∧ m.step = (.error (.notRunning m.status), m)) ∨
    (m.status = .running ∧ ∃ cause, m.memory.decodeAt m.pc = .error cause ∧
      m.step = (.error (.fetch m.pc cause), stopped m (Machine.fetchStatus cause))) ∨
    (m.status = .running ∧ ∃ i address, m.memory.decodeAt m.pc = .ok i ∧
      (m.access i).address? = some address ∧ ¬ m.memory.Inside address Bytes.perWord ∧
      m.step = (.error (.access m.pc (.outside address Bytes.perWord m.memory.size)),
        stopped m .invalidAddress)) ∨
    (m.status = .running ∧ ∃ i, m.memory.decodeAt m.pc = .ok i ∧ Reaches m i ∧
      m.step = (.ok i, (counted m).commit i)) := by
  by_cases running : m.status = .running
  · right
    simp only [Machine.step, if_pos running]
    cases fetched : m.memory.decodeAt m.pc with
    | error cause => exact .inl ⟨running, cause, rfl, rfl⟩
    | ok i =>
      right
      by_cases reaches : Reaches m i
      · right
        have performed : (perform i).run (counted m) = (.ok (), (counted m).commit i) := by
          apply perform_reaches
          rw [Reaches, access_counted]
          exact reaches
        refine ⟨running, i, rfl, reaches, ?_⟩
        dsimp only
        rw [← counted, performed]
      · left
        obtain ⟨address, made, outside⟩ : ∃ address, (m.access i).address? = some address ∧
            ¬ m.memory.Inside address Bytes.perWord := by
          simpa only [Reaches, Option.mem_def, Classical.not_forall, exists_prop] using reaches
        have performed : (perform i).run (counted m) = _ :=
          perform_outside (access_counted ▸ made) outside
        refine ⟨running, i, address, rfl, made, outside, ?_⟩
        dsimp only
        rw [← counted, performed]
        rfl
  · left
    refine ⟨running, ?_⟩
    rw [Machine.step, if_neg running]

/-- Where no instruction can be read, the step fails. -/
theorem step_unread {cause : FetchError} (running : m.status = .running)
    (failed : m.memory.decodeAt m.pc = .error cause) :
    m.step = (.error (.fetch m.pc cause), stopped m (Machine.fetchStatus cause)) := by
  rcases step_cases m with ⟨stopped, _⟩ | ⟨_, other, same, step⟩ | ⟨_, i, address, decoded, _⟩ |
    ⟨_, i, decoded, _⟩
  · exact absurd running stopped
  · cases failed.symm.trans same
    exact step
  · cases failed.symm.trans decoded
  · cases failed.symm.trans decoded

/-- A step over an instruction whose access lies in memory is taken. -/
theorem step_reaches (running : m.status = .running) (decoded : m.memory.decodeAt m.pc = .ok i)
    (reaches : Reaches m i) : m.step = (.ok i, (counted m).commit i) := by
  rcases step_cases m with ⟨stopped, _⟩ | ⟨_, cause, failed, _⟩ |
    ⟨_, other, address, same, made, outside, _⟩ | ⟨_, other, same, _, step⟩
  · exact absurd running stopped
  · cases decoded.symm.trans failed
  · cases decoded.symm.trans same
    exact absurd (reaches address made) outside
  · cases decoded.symm.trans same
    exact step

end StepTable

end Y86Toolkit
