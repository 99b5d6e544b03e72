import Y86Toolkit.Assembly.Layout

/-!
What operands mean once every label has an address, and the instruction that a
mnemonic and its operands make.
-/

namespace Y86Toolkit.Assembly

namespace Operand

/-- The register that an operand names. -/
def register (operand : String) : Except Cause Register :=
  match Register.ofName? operand with
  | some r => .ok r
  | none => .error (.unknownRegister operand)

/-- The number that an operand is, or the address of the label it names. Dollar
signs in front of a label do not count. -/
def value (symbols : SymbolTable) (operand : String) : Except Cause Word :=
  match Literal.read operand.toList with
  | .value word => .ok word
  | .outOfRange => .error (.valueOutOfRange operand)
  | .notNumeric =>
    let label := operand.toList.dropWhile (· == '$')
    if isIdentifier label then
      match symbols[String.ofList label]? with
      | some address => .ok (UInt64.ofNat address)
      | none => .error (.undefinedLabel (String.ofList label))
    else .error (.valueExpected operand)

/-- The displacement and the base register of a memory operand `D(%reg)`. No
displacement is zero. -/
def memory (symbols : SymbolTable) (operand : String) : Except Cause (Word × Register) :=
  match Text.splitAtFirst '(' operand.toList with
  | none => .error (.memoryOperandExpected operand)
  | some (displacement, rest) =>
    if rest.getLast? = some ')' then do
      let offset ←
        if displacement.isEmpty then pure 0 else value symbols (String.ofList displacement)
      let base ← register (String.ofList rest.dropLast)
      return (offset, base)
    else .error (.memoryOperandExpected operand)

end Operand

/-- The instruction of a mnemonic with its operands. Of several faulty operands
the leftmost counts, except that a memory operand comes before a register. -/
def instructionOf (symbols : SymbolTable) (mnemonic : Mnemonic) (operands : List String) :
    Except Cause Instruction :=
  match mnemonic, operands with
  | .halt, [] => .ok .halt
  | .nop, [] => .ok .nop
  | .ret, [] => .ok .ret
  | .move condition, [source, target] => do
    let source ← Operand.register source
    return .move condition source (← Operand.register target)
  | .loadImmediate, [value, target] => do
    let value ← Operand.value symbols value
    return .loadImmediate value (← Operand.register target)
  | .store, [source, memory] => do
    let (displacement, base) ← Operand.memory symbols memory
    return .store (← Operand.register source) base displacement
  | .load, [memory, target] => do
    let (displacement, base) ← Operand.memory symbols memory
    return .load base (← Operand.register target) displacement
  | .alu op, [source, target] => do
    let source ← Operand.register source
    return .alu op source (← Operand.register target)
  | .jump condition, [destination] => return .jump condition (← Operand.value symbols destination)
  | .call, [destination] => return .call (← Operand.value symbols destination)
  | .push, [register] => return .push (← Operand.register register)
  | .pop, [register] => return .pop (← Operand.register register)
  | _, _ => .error (.operandCount mnemonic.name mnemonic.arity operands.length)

end Y86Toolkit.Assembly
