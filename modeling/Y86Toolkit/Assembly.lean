import Y86Toolkit.Assembly.Operand
import Y86Toolkit.Instruction.Codec

/-!
Assembling source text to a program image. The source is laid out first, and
then every statement is put into its place as bytes. An error in the layout of
any line is found before one in the operands of any other.
-/

namespace Y86Toolkit.Assembly

/-- The bytes of a statement. -/
def Statement.bytes (symbols : SymbolTable) : Statement → Except Cause (List Byte)
  | empty | origin _ | align _ => .ok []
  | quad operand => do return Bytes.ofWord (← Operand.value symbols operand)
  | byte operand => do
    let word ← Operand.value symbols operand
    if 256 ≤ word.toNat then throw (.valueOutOfRange operand)
    return [UInt8.ofNat word.toNat]
  | instruction mnemonic operands => do return (← instructionOf symbols mnemonic operands).encode

/-- Puts a statement into an image. -/
def Item.emit (symbols : SymbolTable) (image : Image) (item : Item) : Except Cause Image := do
  let data ← item.statement.bytes symbols
  let written ← (image.write item.address data).mapError fun e => .valueOutOfRange e.message
  return written.addLine ⟨item.address, data.length, item.text⟩

/-- Puts statements into an image, one after the other. -/
def emitAll (symbols : SymbolTable) (image : Image) : List Item → Except Error Image
  | [] => .ok image
  | item :: rest =>
    match item.emit symbols image with
    | .ok next => emitAll symbols next rest
    | .error cause => .error ⟨item.line, cause⟩

/-- Assembles a source text. -/
def assemble (source : String) : Except Error Image := do
  let layout ← Layout.ofSource source
  let image ← emitAll layout.symbols .empty layout.items.toList
  return { image with symbols := layout.symbols }

end Y86Toolkit.Assembly
