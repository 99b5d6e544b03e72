import Y86Toolkit.Instruction.Codec
import Y86Toolkit.Image.Listing

/-!
Taking bytes apart into lines of assembly text. Each line holds one
instruction, or a single byte where no instruction can be read, and the next
line starts where it ends. The listing of bytes is the listing of the image
that has these lines.
-/

namespace Y86Toolkit.Disassembly

/-- The line for a byte that starts no instruction. -/
def rawByte (b : Byte) : String := ".byte " ++ Numeral.hex 2 b.toNat

/-- The line at an address. -/
def lineAt (cells : Array Byte) (address : Nat) : SourceLine :=
  match Instruction.decode (Bytes.slice cells address (address + Instruction.maxLength)) with
  | .ok i => ⟨address, i.length, i.text⟩
  | .error _ => ⟨address, 1, rawByte (cells[address]?.getD 0)⟩

theorem lineAt_length_pos (cells : Array Byte) (address : Nat) :
    0 < (lineAt cells address).length := by
  unfold lineAt
  split
  · exact Instruction.length_pos _
  · exact Nat.one_pos

/-- The lines that start at or behind `start` and in front of `stop`, where
each starts at the end of the one before. -/
def lines (cells : Array Byte) (start stop : Nat) : Array SourceLine :=
  go start #[]
where
  /-- Goes on at an address, behind the lines already found. -/
  go (address : Nat) (found : Array SourceLine) : Array SourceLine :=
    if address < stop then
      let line := lineAt cells address
      go (address + line.length) (found.push line)
    else found
  termination_by stop - address
  decreasing_by
    have := lineAt_length_pos cells address
    omega

/-- The image of bytes, with the lines they are taken apart into. -/
def image (bytes : Array Byte) : Image := { bytes, lines := lines bytes 0 bytes.size }

/-- The listing of bytes. -/
def listing (bytes : Array Byte) : String := (image bytes).listing

end Y86Toolkit.Disassembly
