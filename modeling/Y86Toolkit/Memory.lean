import Y86Toolkit.Instruction.Codec

/-!
Main memory: an array of bytes whose accesses succeed as a whole or not at all.
An access lies inside memory when its end, counted without wrapping, is not
past the last byte. Reading a word gives the little-endian value of its eight
bytes, and no operation changes the size.
-/

namespace Y86Toolkit

/-- Main memory. -/
structure Memory where
  bytes : Array Byte
  deriving DecidableEq, Repr

/-- Why memory refuses a request. -/
inductive MemoryFault where
  /-- The bytes asked for do not all lie in memory. -/
  | outside (address : Word) (length size : Nat)
  /-- The program takes more bytes than there are from its start on. -/
  | programTooLarge (size available : Nat)
  /-- An empty program was to be placed past the end of memory. -/
  | startPastEnd (start size : Nat)
  deriving DecidableEq, Repr

/-- The wording of each refusal. -/
def MemoryFault.message : MemoryFault → String
  | outside address length size =>
    "access of " ++ Numeral.decimal length ++ " bytes at " ++ Numeral.hex 0 address.toNat ++
      " is outside memory (size " ++ Numeral.decimal size ++ ")"
  | programTooLarge size available =>
    "program size " ++ Numeral.decimal size ++ " exceeds available space " ++
      Numeral.decimal available
  | startPastEnd start size =>
    "start " ++ Numeral.hex 0 start ++ " is past the end of memory (size " ++
      Numeral.decimal size ++ ")"

namespace Memory

/-- Memory of `size` zero bytes. -/
def zeroed (size : Nat) : Memory := ⟨Array.replicate size 0⟩

/-- The number of bytes. -/
def size (m : Memory) : Nat := m.bytes.size

/-- The `length` bytes from `address` on all lie in memory. -/
def Inside (m : Memory) (address : Word) (length : Nat) : Prop := address.toNat + length ≤ m.size

instance (m : Memory) (address : Word) (length : Nat) : Decidable (m.Inside address length) :=
  inferInstanceAs (Decidable (_ ≤ _))

/-- The `length` bytes from `address` on. -/
def fetch (m : Memory) (address : Word) (length : Nat) : Except MemoryFault (List Byte) :=
  if m.Inside address length then
    .ok (Bytes.slice m.bytes address.toNat (address.toNat + length))
  else .error (.outside address length m.size)

/-- The byte at `address`. -/
def readByte (m : Memory) (address : Word) : Except MemoryFault Byte :=
  match m.bytes[address.toNat]? with
  | some b => .ok b
  | none => .error (.outside address 1 m.size)

/-- The word at `address`, which need not be a multiple of eight. -/
def readWord (m : Memory) (address : Word) : Except MemoryFault Word :=
  (m.fetch address Bytes.perWord).map Bytes.toWord

/-- Memory with a word stored at `address`, where it lies inside. -/
def store (m : Memory) (address value : Word) : Memory :=
  ⟨Bytes.overwrite m.bytes address.toNat (Bytes.ofWord value)⟩

/-- Stores a word at `address`, or refuses and changes nothing. -/
def writeWord (m : Memory) (address value : Word) : Except MemoryFault Memory :=
  if m.Inside address Bytes.perWord then .ok (m.store address value)
  else .error (.outside address Bytes.perWord m.size)

/-- Memory of the same size with every byte zero. -/
def clear (m : Memory) : Memory := zeroed m.size

/-- Copies a program into memory from `start` on. -/
def loadProgram (m : Memory) (start : Word) (program : Array Byte) : Except MemoryFault Memory :=
  let available := m.size - start.toNat
  if available < program.size then .error (.programTooLarge program.size available)
  else if m.size < start.toNat then .error (.startPastEnd start.toNat m.size)
  else .ok ⟨Bytes.overwrite m.bytes start.toNat program.toList⟩

/-- The words at `start`, `start + 8` and so on with their addresses: `count`
of them, or as many as lie in memory. -/
def dump (m : Memory) (start : Word) (count : Nat) : List (Word × Word) :=
  go start count []
where
  /-- The rows already read are kept in reverse. -/
  go (address : Word) : Nat → List (Word × Word) → List (Word × Word)
    | 0, rows => rows.reverse
    | count + 1, rows =>
      match m.readWord address with
      | .ok value => go (address + 8) count ((address, value) :: rows)
      | .error _ => rows.reverse

/-- How many bytes are not zero, and how many there are. -/
def summary (m : Memory) : String :=
  "Memory \x7b non_zero_bytes: " ++ Numeral.decimal (m.bytes.countP (· != 0)) ++
    ", total_bytes: " ++ Numeral.decimal m.size ++ " \x7d"

/-! ## Instructions in memory -/

end Memory

/-- Why no instruction can be read at an address of memory. -/
inductive FetchError where
  | decode (cause : DecodeError)
  | memory (fault : MemoryFault)
  deriving DecidableEq, Repr

namespace FetchError

/-- The wording of each cause. -/
def message : FetchError → String
  | decode cause => cause.message
  | memory fault => "fetch failed: " ++ fault.message

/-- The instruction's bytes are not all there, as opposed to being no
instruction. -/
def isAddressFault : FetchError → Bool
  | decode (.truncated ..) | memory _ => true
  | decode _ => false

end FetchError

/-- Reads the instruction at an address. Only the bytes that its opcode calls
for are fetched, so that a short one may stand at the very end of memory. -/
def Memory.decodeAt (m : Memory) (address : Word) : Except FetchError Instruction := do
  let first ← (m.readByte address).mapError .memory
  match Opcode.ofCode? (Instruction.highHalf first) with
  | none => throw (.decode (.invalidOpcode (Instruction.highHalf first)))
  | some o =>
    let bytes ← (m.fetch address o.length).mapError .memory
    (Instruction.decode bytes).mapError .decode

end Y86Toolkit
