import Y86Toolkit.Debugger
import Y86Toolkit.Disassembly

/-!
The part of a program's listing that a debugger shows: the lines around the
program counter. The listing is taken from the memory of the machine and not
from the program, so it shows what will be executed. Where the program counter
is in the middle of a line of that listing, the lines from there on are shown
instead, so that it always has a line of its own.
-/

namespace Y86Toolkit.Debugger

/-- A line of the listing. -/
structure ListedLine where
  address : Nat
  text : String
  /-- The program counter is at this line. -/
  current : Bool
  deriving DecidableEq, Repr

/-- The lines of memory to choose from: those from address zero on, or, when
the program counter is in the middle of one, those from there on. -/
def linesNearPc (d : Debugger) (count : Nat) : Array SourceLine :=
  let cells := d.machine.memory.bytes
  let pc := d.machine.pc.toNat
  let lines := Disassembly.lines cells 0 (min (max d.image.size (pc + 1)) cells.size)
  if pc < cells.size ∧ ¬ lines.any (·.address == pc) then
    Disassembly.lines cells pc (min (pc + Instruction.maxLength * count) cells.size)
  else lines

/-- At most `count` lines, half of them in front of the current one where there
are so many. -/
def listing (d : Debugger) (count : Nat) : List ListedLine :=
  let pc := d.machine.pc.toNat
  let lines := d.linesNearPc count
  let current := (lines.findIdx? (·.address == pc)).getD 0
  let first := current - count / 2
  (lines.extract first (first + count)).toList.map fun line =>
    ⟨line.address, line.text, line.address == pc⟩

end Y86Toolkit.Debugger
