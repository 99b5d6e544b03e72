import Y86Toolkit.Memory
import Y86Toolkit.Configuration

/-!
The state of a machine, and the operations that set it up: starting fresh,
resetting, and loading a program.
-/

namespace Y86Toolkit

/-- Whether a machine can go on, and why not. -/
inductive Status where
  | running | halted | invalidAddress | invalidInstruction
  deriving DecidableEq, Repr

namespace Status

/-- Every status. -/
def all : List Status := [running, halted, invalidAddress, invalidInstruction]

/-- The full name of a status. -/
def name : Status → String
  | running => "Running"
  | halted => "Halted"
  | invalidAddress => "InvalidAddress"
  | invalidInstruction => "InvalidInstruction"

/-- The status with a full name. -/
def ofName? (text : String) : Option Status := all.find? fun s => s.name == text

/-- The three-letter code of a status. -/
def code : Status → String
  | running => "AOK"
  | halted => "HLT"
  | invalidAddress => "ADR"
  | invalidInstruction => "INS"

end Status

/-- A machine. -/
structure Machine where
  registers : RegisterFile
  memory : Memory
  /-- The address of the next instruction. -/
  pc : Word
  flags : Flags
  status : Status
  /-- How many steps were taken, failed ones included. -/
  steps : Word
  configuration : Configuration
  deriving DecidableEq, Repr

namespace Machine

/-- A machine with everything zero, ready to run. -/
def fresh (c : Configuration) : Machine where
  registers := .zero
  memory := .zeroed c.memorySize.toNat
  pc := 0
  flags := .clear
  status := .running
  steps := 0
  configuration := c

/-- The machine with everything zero again. The size of its memory and its
configuration stay. -/
def reset (m : Machine) : Machine where
  registers := .zero
  memory := m.memory.clear
  pc := 0
  flags := .clear
  status := .running
  steps := 0
  configuration := m.configuration

/-- Copies a program to address zero. Nothing else changes: the machine is not
reset. -/
def load (m : Machine) (program : Array Byte) : Except MemoryFault Machine :=
  (m.memory.loadProgram 0 program).map fun memory => { m with memory }

/-- The stack pointer. -/
def stackPointer (m : Machine) : Word := m.registers.get .rsp

/-- One line with everything but the contents of memory. -/
def summary (m : Machine) : String :=
  "Cpu \x7b status: " ++ m.status.name ++ ", pc: " ++ Numeral.decimal m.pc.toNat ++
    ", flags: Flags \x7b overflow: " ++ toString m.flags.overflow ++
    ", sign: " ++ toString m.flags.sign ++ ", zero: " ++ toString m.flags.zero ++
    " \x7d, steps: " ++ Numeral.decimal m.steps.toNat ++
    ", regs: Registers \x7b values: [" ++
    ", ".intercalate (m.registers.values.toList.map fun w => Numeral.decimal w.toNat) ++
    "] \x7d \x7d"

end Machine

end Y86Toolkit
