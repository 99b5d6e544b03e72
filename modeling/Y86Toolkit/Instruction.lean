import Y86Toolkit.Register
import Y86Toolkit.Condition
import Y86Toolkit.Text.Numeral

/-!
Instructions, their opcodes and mnemonics, and their assembly text. The opcode
fixes how many bytes an instruction takes, so its mnemonic alone does.
-/

namespace Y86Toolkit

/-- The twelve kinds of instruction that the high half of the first byte tells
apart. -/
inductive Opcode where
  | halt | nop | move | loadImmediate | store | load | alu | jump | call | ret | push | pop
  deriving DecidableEq, Repr

namespace Opcode

/-- Every opcode, in the order of its code. -/
def all : List Opcode :=
  [halt, nop, move, loadImmediate, store, load, alu, jump, call, ret, push, pop]

/-- The high half of the first byte. -/
def code : Opcode → Nat
  | halt => 0 | nop => 1 | move => 2 | loadImmediate => 3 | store => 4 | load => 5 | alu => 6
  | jump => 7 | call => 8 | ret => 9 | push => 10 | pop => 11

/-- The opcode with a code; twelve and above are undefined. -/
def ofCode? (n : Nat) : Option Opcode := all[n]?

theorem ofCode?_code (o : Opcode) : ofCode? o.code = some o := by
  cases o <;> rfl

theorem ofCode?_eq_some {n : Nat} {o : Opcode} (found : ofCode? n = some o) : n = o.code := by
  rcases Nat.lt_or_ge n 12 with below | above
  · exact (show ∀ k : Fin 12, ∀ p, ofCode? k = some p → k.val = p.code by decide) ⟨n, below⟩ o found
  · rw [ofCode?, List.getElem?_eq_none (by simpa [all] using above)] at found
    contradiction

/-- The number of bytes that an instruction with this opcode takes: the first
byte, one for register operands, eight for a constant. -/
def length : Opcode → Nat
  | halt | nop | ret => 1
  | move | alu | push | pop => 2
  | jump | call => 9
  | loadImmediate | store | load => 10

end Opcode

/-- An instruction's name in assembly text: its opcode, with the condition or
operation that the name also tells. -/
inductive Mnemonic where
  | halt | nop | move (condition : Condition) | loadImmediate | store | load | alu (op : AluOp)
  | jump (condition : Condition) | call | ret | push | pop
  deriving DecidableEq, Repr

namespace Mnemonic

/-- Every mnemonic. -/
def all : List Mnemonic :=
  [halt, nop, loadImmediate, store, load, call, ret, push, pop] ++ Condition.all.map move ++
    AluOp.all.map alu ++ Condition.all.map jump

/-- The written form. The unconditional move and jump have names of their own. -/
def name : Mnemonic → String
  | halt => "halt"
  | nop => "nop"
  | move .always => "rrmovq"
  | move condition => "cmov" ++ condition.suffix
  | loadImmediate => "irmovq"
  | store => "rmmovq"
  | load => "mrmovq"
  | alu op => op.mnemonic
  | jump .always => "jmp"
  | jump condition => "j" ++ condition.suffix
  | call => "call"
  | ret => "ret"
  | push => "pushq"
  | pop => "popq"

/-- The mnemonic with a written form. -/
def ofName? (text : String) : Option Mnemonic := all.find? fun m => m.name == text

/-- The opcode that a mnemonic stands for. -/
def opcode : Mnemonic → Opcode
  | halt => .halt
  | nop => .nop
  | move _ => .move
  | loadImmediate => .loadImmediate
  | store => .store
  | load => .load
  | alu _ => .alu
  | jump _ => .jump
  | call => .call
  | ret => .ret
  | push => .push
  | pop => .pop

/-- The number of bytes that an instruction of this name takes. -/
def length : Mnemonic → Nat
  | halt | nop | ret => 1
  | move _ | alu _ | push | pop => 2
  | jump _ | call => 9
  | loadImmediate | store | load => 10

/-- The number of operands written behind the name. -/
def arity : Mnemonic → Nat
  | halt | nop | ret => 0
  | jump _ | call | push | pop => 1
  | move _ | loadImmediate | store | load | alu _ => 2

end Mnemonic

/-- An instruction. -/
inductive Instruction where
  /-- Stop the machine. -/
  | halt
  /-- Do nothing. -/
  | nop
  /-- If the condition holds, copy `source` to `target`. -/
  | move (condition : Condition) (source target : Register)
  /-- Put a constant into `target`. -/
  | loadImmediate (value : Word) (target : Register)
  /-- Store `source` at `base + displacement`. -/
  | store (source base : Register) (displacement : Word)
  /-- Load `target` from `base + displacement`. -/
  | load (base target : Register) (displacement : Word)
  /-- Combine `source` into `target` and set the flags. -/
  | alu (op : AluOp) (source target : Register)
  /-- If the condition holds, go on at `destination`. -/
  | jump (condition : Condition) (destination : Word)
  /-- Push the return address and go on at `destination`. -/
  | call (destination : Word)
  /-- Pop the return address and go on there. -/
  | ret
  /-- Push a register onto the stack. -/
  | push (source : Register)
  /-- Pop the stack into a register. -/
  | pop (target : Register)
  deriving DecidableEq, Repr

namespace Instruction

/-- The name of an instruction. -/
def mnemonic : Instruction → Mnemonic
  | halt => .halt
  | nop => .nop
  | move condition _ _ => .move condition
  | loadImmediate .. => .loadImmediate
  | store .. => .store
  | load .. => .load
  | alu op _ _ => .alu op
  | jump condition _ => .jump condition
  | call .. => .call
  | ret => .ret
  | push .. => .push
  | pop .. => .pop

/-- The opcode of an instruction. -/
def opcode (i : Instruction) : Opcode := i.mnemonic.opcode

/-- The number of bytes that the instruction takes. -/
def length : Instruction → Nat
  | halt | nop | ret => 1
  | move .. | alu .. | push _ | pop _ => 2
  | jump .. | call _ => 9
  | loadImmediate .. | store .. | load .. => 10

/-- No instruction takes more bytes than this. -/
def maxLength : Nat := 10

/-- Instructions are as long as their opcodes call for. -/
theorem length_opcode (i : Instruction) : i.opcode.length = i.length := by cases i <;> rfl

/-- Instructions are as long as their names call for. -/
theorem length_mnemonic (i : Instruction) : i.mnemonic.length = i.length := by cases i <;> rfl

theorem length_pos (i : Instruction) : 0 < i.length := by cases i <;> simp [length]

theorem length_le_maxLength (i : Instruction) : i.length ≤ maxLength := by
  cases i <;> simp [length, maxLength]

/-- A constant as signed decimal. -/
private def signedText (w : Word) : String := Numeral.signed (Word.toSigned Word.width w)

/-- The operands in assembly text. Constants and displacements are signed
decimal numbers, destinations are hexadecimal. -/
def operandText : Instruction → String
  | halt | nop | ret => ""
  | move _ source target | alu _ source target => source.name ++ ", " ++ target.name
  | loadImmediate value target => "$" ++ signedText value ++ ", " ++ target.name
  | store source base displacement =>
    source.name ++ ", " ++ signedText displacement ++ "(" ++ base.name ++ ")"
  | load base target displacement =>
    signedText displacement ++ "(" ++ base.name ++ "), " ++ target.name
  | jump _ destination | call destination => Numeral.hex 0 destination.toNat
  | push register | pop register => register.name

/-- The instruction in assembly text. -/
def text (i : Instruction) : String :=
  match i with
  | halt | nop | ret => i.mnemonic.name
  | _ => i.mnemonic.name ++ " " ++ i.operandText

end Instruction

end Y86Toolkit
