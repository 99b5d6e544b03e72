import Y86Toolkit.Machine.Step

/-!
What a debugger tells its user. Every message is a cause with the values it is
about; the wording is in one place.
-/

namespace Y86Toolkit

/-- What the debugger last did. -/
inductive DebuggerMessage where
  | ready
  | resetDone
  /-- The program does not fit into memory. -/
  | loadFailed (fault : MemoryFault)
  /-- A step was asked of a machine that had stopped. -/
  | alreadyStopped (status : Status)
  | stepped (pc : Word) (instruction : Instruction)
  | faulted (fault : StepFault)
  | running
  /-- A run ended because the machine had stopped. -/
  | runStopped (status : Status) (steps : Word)
  | stepLimitReached (limit : Word)
  | breakpointReached (pc : Word)
  | breakpointSet (pc : Word)
  | breakpointRemoved (pc : Word)
  deriving DecidableEq, Repr

namespace DebuggerMessage

/-- A program counter, as messages show it. -/
def pcText (pc : Word) : String := "PC=" ++ Numeral.hex 3 pc.toNat

/-- The wording of each message. -/
def text : DebuggerMessage → String
  | ready => "Ready. Press 's' to step, 'r' to run, 'q' to quit."
  | resetDone => "Reset. Ready."
  | loadFailed fault => "Load failed: " ++ fault.message
  | alreadyStopped status => "CPU stopped: " ++ status.code
  | stepped pc instruction => pcText pc ++ ": " ++ instruction.text
  | faulted fault => "Error: " ++ fault.message
  | running => "Running..."
  | runStopped status steps =>
    "Stopped (" ++ status.code ++ ") after " ++ Numeral.decimal steps.toNat ++ " steps"
  | stepLimitReached limit => "Step limit (" ++ Numeral.decimal limit.toNat ++ ") reached"
  | breakpointReached pc => "Breakpoint at " ++ pcText pc
  | breakpointSet pc => "Set breakpoint at " ++ pcText pc
  | breakpointRemoved pc => "Removed breakpoint at " ++ pcText pc

end DebuggerMessage

end Y86Toolkit
