import Y86Toolkit.Bytes
import Y86Toolkit.Instruction

/-!
The byte form of instructions. The first byte holds the opcode and a function
code; registers follow as halves of one byte, and a constant as a little-endian
word. Of two faults in the same bytes, decoding reports the one that comes
first in this order: no bytes, undefined opcode, too few bytes, and then, for
opcodes that take a function code, the function before the registers, and for
the others the registers before the function.
-/

namespace Y86Toolkit

/-- Why bytes are no instruction. -/
inductive DecodeError where
  /-- The high half of the first byte is no opcode. -/
  | invalidOpcode (code : Nat)
  /-- The opcode has no such function code. -/
  | invalidFunction (code function : Nat)
  /-- A half byte that must name a register names none. -/
  | invalidRegister (number : Nat)
  /-- The bytes end before the instruction does. -/
  | truncated (needed available : Nat)
  deriving DecidableEq, Repr

namespace DecodeError

/-- The wording of each cause. -/
def message : DecodeError → String
  | invalidOpcode code => "invalid opcode: " ++ Numeral.hex 0 code
  | invalidFunction code function =>
    "invalid function code " ++ Numeral.hex 0 function ++ " for opcode " ++ Numeral.hex 0 code
  | invalidRegister number => "invalid register specifier: " ++ Numeral.hex 0 number
  | truncated needed available =>
    "instruction needs " ++ Numeral.decimal needed ++ " bytes, only " ++
      Numeral.decimal available ++ " available"

end DecodeError

namespace Instruction

/-- The byte made of two halves. -/
def pack (high low : Nat) : Byte := UInt8.ofNat (16 * high + low)

/-- The high half of a byte. -/
def highHalf (b : Byte) : Nat := b.toNat / 16

/-- The low half of a byte. -/
def lowHalf (b : Byte) : Nat := b.toNat % 16

/-- Stands in the place of a register that an instruction does not use. -/
def noRegister : Nat := 15

/-- The bytes of an instruction. -/
def encode (i : Instruction) : List Byte :=
  match i with
  | halt | nop | ret => [first 0]
  | move condition source target =>
    [first condition.function, pack source.index target.index]
  | loadImmediate value target => [first 0, pack noRegister target.index] ++ Bytes.ofWord value
  | store source base displacement =>
    [first 0, pack source.index base.index] ++ Bytes.ofWord displacement
  | load base target displacement =>
    [first 0, pack target.index base.index] ++ Bytes.ofWord displacement
  | alu op source target => [first op.function, pack source.index target.index]
  | jump condition destination => first condition.function :: Bytes.ofWord destination
  | call destination => first 0 :: Bytes.ofWord destination
  | push register | pop register => [first 0, pack register.index noRegister]
where
  /-- The first byte, for a function code. -/
  first (function : Nat) : Byte := pack i.opcode.code function

theorem length_encode (i : Instruction) : i.encode.length = i.length := by
  cases i <;> simp [encode, length]

/-- The register that a half byte names. -/
def decodeRegister (number : Nat) : Except DecodeError Register :=
  match Register.ofNumber? number with
  | some r => .ok r
  | none => .error (.invalidRegister number)

/-- Reads an instruction of known opcode and function code from its bytes after
the first, which are all there. -/
def decodeOperands (o : Opcode) (function : Nat) (operands : List Byte) :
    Except DecodeError Instruction :=
  match o with
  | .halt => do plain; return halt
  | .nop => do plain; return nop
  | .move => do
    let condition ← functionCode Condition.ofFunction?
    let source ← high
    let target ← low
    return move condition source target
  | .loadImmediate => do
    let target ← low
    plain
    return loadImmediate constant target
  | .store => do
    let source ← high
    let base ← low
    plain
    return store source base constant
  | .load => do
    let base ← low
    let target ← high
    plain
    return load base target constant
  | .alu => do
    let op ← functionCode AluOp.ofFunction?
    let source ← high
    let target ← low
    return alu op source target
  | .jump => do
    let condition ← functionCode Condition.ofFunction?
    return jump condition (Bytes.toWord (operands.take Bytes.perWord))
  | .call => do plain; return call (Bytes.toWord (operands.take Bytes.perWord))
  | .ret => do plain; return ret
  | .push => do
    let source ← high
    plain
    return push source
  | .pop => do
    let target ← high
    plain
    return pop target
where
  /-- Refuses a function code other than zero. -/
  plain : Except DecodeError Unit :=
    if function = 0 then .ok () else .error (.invalidFunction o.code function)
  /-- Looks the function code up. -/
  functionCode {α : Type} (lookup : Nat → Option α) : Except DecodeError α :=
    match lookup function with
    | some a => .ok a
    | none => .error (.invalidFunction o.code function)
  /-- The register named by the high half of the register byte. -/
  high : Except DecodeError Register := decodeRegister (highHalf (operands.headD 0))
  /-- The register named by the low half of the register byte. -/
  low : Except DecodeError Register := decodeRegister (lowHalf (operands.headD 0))
  /-- The constant behind the register byte. -/
  constant : Word := Bytes.toWord ((operands.drop 1).take Bytes.perWord)

/-- Reads the instruction at the start of `bytes`; more may follow it. -/
def decode (bytes : List Byte) : Except DecodeError Instruction :=
  match bytes with
  | [] => .error (.truncated 1 0)
  | first :: operands =>
    match Opcode.ofCode? (highHalf first) with
    | none => .error (.invalidOpcode (highHalf first))
    | some o =>
      if bytes.length < o.length then .error (.truncated o.length bytes.length)
      else decodeOperands o (lowHalf first) operands

end Instruction

end Y86Toolkit
