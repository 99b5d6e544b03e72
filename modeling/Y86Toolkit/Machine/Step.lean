import Y86Toolkit.Machine

/-!
One step of a machine. A step counts itself, reads the instruction at the
program counter and carries it out. Each instruction makes its access to memory
before it changes anything else, so that a fault finds the machine unchanged.
-/

namespace Y86Toolkit

/-- Why a step was not taken. -/
inductive StepFault where
  /-- The machine had stopped before. -/
  | notRunning (status : Status)
  /-- There is no instruction at the program counter. -/
  | fetch (pc : Word) (cause : FetchError)
  /-- The instruction's access does not lie in memory. -/
  | access (pc : Word) (cause : MemoryFault)
  deriving DecidableEq, Repr

/-- The wording of each fault. -/
def StepFault.message : StepFault → String
  | notRunning status => "CPU not running: " ++ status.name
  | fetch pc cause => "decode failed at " ++ Numeral.hex 0 pc.toNat ++ ": " ++ cause.message
  | access pc cause => "invalid address at " ++ Numeral.hex 0 pc.toNat ++ ": " ++ cause.message

namespace Machine

/-- The address behind an instruction that stands at the program counter. -/
def nextPc (m : Machine) (i : Instruction) : Word := m.pc + UInt64.ofNat i.length

end Machine

/-- A part of a step. It may change the machine, and it may end with a memory
fault; what was changed before the fault stays changed. -/
abbrev Execution := ExceptT MemoryFault (StateM Machine)

namespace Execution

/-- The word at an address of memory. -/
def readWord (address : Word) : Execution Word :=
  ExceptT.mk fun m => (m.memory.readWord address, m)

/-- Stores a word in memory. -/
def writeWord (address value : Word) : Execution Unit :=
  ExceptT.mk fun m =>
    match m.memory.writeWord address value with
    | .ok memory => (.ok (), { m with memory })
    | .error fault => (.error fault, m)

/-- Puts a word into a register. -/
def setRegister (r : Register) (value : Word) : Execution Unit :=
  modify fun m => { m with registers := m.registers.set r value }

/-- Sets the flags. -/
def setFlags (flags : Flags) : Execution Unit := modify fun m => { m with flags }

/-- Goes on at an address. -/
def goTo (address : Word) : Execution Unit := modify fun m => { m with pc := address }

/-- Carries an instruction out. The stack grows towards lower addresses;
pushing the stack pointer stores its decremented value, and popping it adds
eight to the word that was popped. -/
def perform (i : Instruction) : Execution Unit := do
  let m ← get
  let next := m.nextPc i
  match i with
  | .halt => modify fun m => { m with status := .halted }
  | .nop => goTo next
  | .move condition source target =>
    if condition.holds m.flags then setRegister target (m.registers.get source)
    goTo next
  | .loadImmediate value target =>
    setRegister target value
    goTo next
  | .store source base displacement =>
    writeWord (m.registers.get base + displacement) (m.registers.get source)
    goTo next
  | .load base target displacement =>
    let value ← readWord (m.registers.get base + displacement)
    setRegister target value
    goTo next
  | .alu op source target =>
    let (result, overflow) := op.apply (m.registers.get target) (m.registers.get source)
    setRegister target result
    setFlags (Flags.ofResult result overflow)
    goTo next
  | .jump condition destination => goTo (if condition.holds m.flags then destination else next)
  | .call destination =>
    let top := m.stackPointer - 8
    writeWord top next
    setRegister .rsp top
    goTo destination
  | .ret =>
    let top := m.stackPointer
    let address ← readWord top
    setRegister .rsp (top + 8)
    goTo address
  | .push source =>
    let top := m.stackPointer - 8
    let value := if source = .rsp then top else m.registers.get source
    writeWord top value
    setRegister .rsp top
    goTo next
  | .pop target =>
    let value ← readWord m.stackPointer
    setRegister target value
    let popped ← get
    setRegister .rsp (popped.stackPointer + 8)
    goTo next

end Execution

namespace Machine

/-- The status in which a failed fetch leaves the machine. -/
def fetchStatus (cause : FetchError) : Status :=
  if cause.isAddressFault then .invalidAddress else .invalidInstruction

/-- Takes one step. -/
def step (m : Machine) : Except StepFault Instruction × Machine :=
  if m.status = .running then
    let pc := m.pc
    let counted := { m with steps := m.steps + 1 }
    match counted.memory.decodeAt pc with
    | .error cause => (.error (.fetch pc cause), { counted with status := fetchStatus cause })
    | .ok i =>
      match (Execution.perform i).run counted with
      | (.ok (), after) => (.ok i, after)
      | (.error fault, after) => (.error (.access pc fault), { after with status := .invalidAddress })
  else (.error (.notRunning m.status), m)

end Machine

end Y86Toolkit
