import Y86Toolkit.Assembly
import Y86Toolkit.Disassembly
import Y86Toolkit.Machine.Run

/-!
A session: a machine together with the program that was last loaded into it,
for use by another program. Loading resets the machine before it finds out
whether the program fits, so a program that is too large leaves a machine that
was reset and the old program on record.
-/

namespace Y86Toolkit

/-- A machine and its program. -/
structure Session where
  machine : Machine
  image : Image

/-- Why a source text was not loaded. -/
inductive LoadError where
  | assembly (cause : Assembly.Error)
  | memory (fault : MemoryFault)
  deriving DecidableEq, Repr

namespace Session

/-- A session with a fresh machine and no program. -/
def ofConfiguration (c : Configuration) : Session := ⟨.fresh c, .empty⟩

/-- A session with this much memory. -/
def withMemory (size : Word) : Except ConfigurationError Session := do
  let c : Configuration := { memorySize := size }
  c.validate
  return ofConfiguration c

/-- Assembles a source text, resets the machine and loads the program. Gives
the number of its bytes. -/
def loadSource (s : Session) (source : String) : Except LoadError Nat × Session :=
  match Assembly.assemble source with
  | .error cause => (.error (.assembly cause), s)
  | .ok image =>
    let machine := s.machine.reset
    match machine.load image.bytes with
    | .error fault => (.error (.memory fault), { s with machine })
    | .ok machine => (.ok image.size, { machine, image })

/-- Takes one step. Gives the text of the instruction. -/
def step (s : Session) : Except StepFault String × Session :=
  let (result, machine) := s.machine.step
  (result.map Instruction.text, { s with machine })

/-- Runs for at most `budget` steps, and tells whether the machine stopped. -/
def run (s : Session) (budget : Nat) : Bool × Session :=
  let (report, machine) := s.machine.runLimited budget
  (report.outcome ≠ .stepLimitReached, { s with machine })

/-- Resets the machine and loads the program again. -/
def reset (s : Session) : Except MemoryFault Unit × Session :=
  let machine := s.machine.reset
  match machine.load s.image.bytes with
  | .error fault => (.error fault, { s with machine })
  | .ok machine => (.ok (), { s with machine })

/-- The value of the register with a number. -/
def register? (s : Session) (number : Nat) : Option Word :=
  (Register.ofNumber? number).map s.machine.registers.get

/-- The listing of the program's bytes. -/
def disassembly (s : Session) : String := Disassembly.listing s.image.bytes

end Session

end Y86Toolkit
