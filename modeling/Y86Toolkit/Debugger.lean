import Std.Data.TreeSet
import Y86Toolkit.Debugger.Message
import Y86Toolkit.Image

/-!
A debugger for one program: a machine that is stepped or run in batches, with
breakpoints on addresses. A run pauses when the machine has stopped, when the
step limit is reached, and behind any step that leads to a breakpoint; the
message tells which it was.
-/

namespace Y86Toolkit

/-- A debugger. -/
structure Debugger where
  machine : Machine
  /-- The program, kept for a reset. -/
  image : Image
  breakpoints : Std.TreeSet Word := {}
  /-- A run is going on. -/
  running : Bool := false
  /-- The user wants to leave. -/
  quitting : Bool := false
  message : DebuggerMessage
  /-- How many words of memory lie above the first one that is shown. -/
  memoryScroll : Nat := 0

namespace Debugger

/-- The machine with a program loaded and a message of success, or the machine
as it was and what is wrong. -/
def loadInto (m : Machine) (image : Image) (success : DebuggerMessage) : Machine × DebuggerMessage :=
  match m.load image.bytes with
  | .ok loaded => (loaded, success)
  | .error fault => (m, .loadFailed fault)

/-- A debugger for a program, with the program loaded into a fresh machine. -/
def ofImage (image : Image) (c : Configuration) : Debugger :=
  let (machine, message) := loadInto (.fresh c) image .ready
  { machine, image, message }

/-- Ends a run with a message. -/
def pause (d : Debugger) (message : DebuggerMessage) : Debugger := { d with running := false, message }

/-- Takes one step. A fault ends a run. -/
def step (d : Debugger) : Debugger :=
  if d.machine.status = .running then
    let pc := d.machine.pc
    let (result, machine) := d.machine.step
    match result with
    | .ok instruction => { d with machine, message := .stepped pc instruction }
    | .error fault => { d with machine }.pause (.faulted fault)
  else d.pause (.alreadyStopped d.machine.status)

/-- Starts a run. -/
def run (d : Debugger) : Debugger := { d with running := true, message := .running }

/-- What keeps a run from taking another step. -/
def obstacle? (d : Debugger) : Option DebuggerMessage :=
  if d.machine.status ≠ .running then some (.runStopped d.machine.status d.machine.steps)
  else if d.machine.configuration.stepLimit ≤ d.machine.steps then
    some (.stepLimitReached d.machine.configuration.stepLimit)
  else none

/-- Takes up to `count` steps of a run. -/
def advance : Nat → Debugger → Debugger
  | 0, d => d
  | count + 1, d =>
    if d.running then
      match d.obstacle? with
      | some message => d.pause message
      | none =>
        let next := d.step
        if next.breakpoints.contains next.machine.pc then
          next.pause (.breakpointReached next.machine.pc)
        else advance count next
    else d

/-- The number of steps in a batch. -/
def batch : Nat := 64

/-- Takes one batch of a run. -/
def tick (d : Debugger) : Debugger := d.advance batch

/-- Sets a breakpoint at the program counter, or removes the one that is there. -/
def toggleBreakpoint (d : Debugger) : Debugger :=
  let pc := d.machine.pc
  if d.breakpoints.contains pc then
    { d with breakpoints := d.breakpoints.erase pc, message := .breakpointRemoved pc }
  else { d with breakpoints := d.breakpoints.insert pc, message := .breakpointSet pc }

/-- Resets the machine and loads the program again. Breakpoints stay. -/
def reset (d : Debugger) : Debugger :=
  let (machine, message) := loadInto d.machine.reset d.image .resetDone
  { d with machine, running := false, message }

/-- Adds a breakpoint at an address. -/
def addBreakpoint (d : Debugger) (address : Word) : Debugger :=
  { d with breakpoints := d.breakpoints.insert address }

end Debugger

end Y86Toolkit
