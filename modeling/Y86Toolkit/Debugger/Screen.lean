import Y86Toolkit.Debugger.Listing
import Y86Toolkit.Screen

/-!
The screen of a debugger: the listing and the message on the left; registers,
memory and a reminder of the keys on the right. The line at the program counter
is bold and yellow, in the listing and in memory.
-/

namespace Y86Toolkit.Debugger

/-- The style of what the program counter is at. -/
def currentStyle : Style := ⟨.yellow, true⟩

/-- A line of the listing: a dot for a breakpoint, an arrow for the program
counter, and the label of the address behind the instruction. -/
def listedLine (d : Debugger) (line : ListedLine) : TextLine :=
  let stopsHere := d.breakpoints.contains (UInt64.ofNat line.address)
  let style : Style :=
    if line.current then currentStyle else if stopsHere then { colour := .red } else {}
  let label := match d.image.labelAt? line.address with
    | some name => "  <" ++ name ++ ">"
    | none => ""
  .styled style ((if stopsHere then "● " else "  ") ++ (if line.current then "▶ " else "  ") ++
    Numeral.hex 3 line.address ++ ": " ++ line.text ++ label)

/-- The listing around the program counter, with room for `count` lines. -/
def listingPanel (d : Debugger) (count : Nat) : Panel where
  title := " Disassembly "
  frame := { colour := .cyan }
  lines := (d.listing count).map d.listedLine

/-- The message. -/
def statusPanel (d : Debugger) : Panel where
  title := " Status "
  frame := { colour := .white }
  lines := [.styled { colour := .white } d.message.text]

/-- A register with its value, unsigned and signed. -/
def registerLine (m : Machine) (r : Register) : TextLine :=
  let value := m.registers.get r
  ⟨.coloured .plain (Numeral.padded 5 r.name ++ " ") ++
    .coloured (if value = 0 then .darkGray else .white) (Numeral.hex 16 value.toNat) ++
    .coloured .plain (" = " ++ Numeral.signed (Word.toSigned Word.width value)), {}⟩

/-- The program counter and the flags. -/
def pcLine (m : Machine) : TextLine :=
  ⟨.coloured .plain "PC: " ++ .coloured .yellow (Numeral.hex 3 m.pc.toNat) ++
    .coloured .plain "   " ++ .coloured .cyan m.flags.text, {}⟩

/-- The number of steps and the status. -/
def statusLine (m : Machine) : TextLine :=
  ⟨.coloured .plain "Steps: " ++ .coloured .cyan (Numeral.decimal m.steps.toNat) ++
    .coloured .plain "   Status: " ++
    .coloured (if m.status = .running then .green else .red) m.status.code, {}⟩

/-- The registers and the rest of the machine's state. -/
def registersPanel (d : Debugger) : Panel where
  title := " Registers "
  frame := { colour := .green }
  lines := Register.all.map (registerLine d.machine) ++ [pcLine d.machine, statusLine d.machine]

/-- A word of memory, marked where the stack pointer points to it. -/
def memoryLine (m : Machine) (address value : Word) : TextLine :=
  let holdsPc := address.toNat ≤ m.pc.toNat ∧ m.pc.toNat < address.toNat + Bytes.perWord
  let style : Style :=
    if holdsPc then currentStyle else { colour := if value = 0 then .darkGray else .white }
  .styled style ((if address = m.stackPointer then "rsp→" else "    ") ++
    Numeral.hex 4 address.toNat ++ ": " ++ Numeral.hexDigits 16 value.toNat)

/-- Memory from the scroll position on, with room for `count` words. -/
def memoryPanel (d : Debugger) (count : Nat) : Panel where
  title := " Memory "
  frame := { colour := .magenta }
  lines := (d.machine.memory.dump (UInt64.ofNat (d.memoryScroll * Bytes.perWord)) count).map
    fun (address, value) => memoryLine d.machine address value

/-- What the keys do. -/
def helpPanel : Panel where
  title := " Help "
  frame := { colour := .darkGray }
  lines := ["s: Step  r: Run  p: Pause  b: Breakpoint", "x: Reset  ↑↓: Scroll memory  q: Quit"].map
    (.styled { colour := .darkGray })

/-- The whole screen. The left part has eleven twentieths of the width. -/
def screen (d : Debugger) (width height : Nat) : Screen :=
  let left := width * 11 / 20
  let right := width - left
  let listing := height - 3
  let memory := height - 23
  ((d.listingPanel (listing - 2)).draw left listing ++ d.statusPanel.draw left 3).beside
    (d.registersPanel.draw right 19 ++ (d.memoryPanel (memory - 2)).draw right memory ++
      helpPanel.draw right 4)

end Y86Toolkit.Debugger
