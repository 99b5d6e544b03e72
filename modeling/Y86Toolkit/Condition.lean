import Y86Toolkit.Word

/-!
The condition flags, the conditions that jumps and moves test on them, and the
arithmetic operations that set them.
-/

namespace Y86Toolkit

/-- The condition flags. -/
structure Flags where
  /-- The last result overflowed as a signed number. -/
  overflow : Bool
  /-- The last result was negative. -/
  sign : Bool
  /-- The last result was zero. -/
  zero : Bool
  deriving DecidableEq, Repr

namespace Flags

/-- All flags down. -/
def clear : Flags := ⟨false, false, false⟩

/-- The flags that describe a result. -/
def ofResult (result : Word) (overflow : Bool) : Flags :=
  ⟨overflow, Word.toSigned Word.width result < 0, result == 0⟩

/-- The three flags as digits, in the order overflow, sign, zero. -/
def text (flags : Flags) : String :=
  "OF=" ++ digit flags.overflow ++ " SF=" ++ digit flags.sign ++ " ZF=" ++ digit flags.zero
where
  digit (flag : Bool) : String := if flag then "1" else "0"

end Flags

/-- When a jump is taken, or a move done. -/
inductive Condition where
  | always | lessEqual | less | equal | notEqual | greaterEqual | greater
  deriving DecidableEq, Repr

namespace Condition

/-- Every condition, in the order of its function code. -/
def all : List Condition := [always, lessEqual, less, equal, notEqual, greaterEqual, greater]

/-- The function code in an encoded instruction. -/
def function : Condition → Nat
  | always => 0 | lessEqual => 1 | less => 2 | equal => 3 | notEqual => 4 | greaterEqual => 5
  | greater => 6

/-- The condition with a function code. -/
def ofFunction? (n : Nat) : Option Condition := all[n]?

theorem ofFunction?_function (c : Condition) : ofFunction? c.function = some c := by
  cases c <;> rfl

theorem ofFunction?_eq_some {n : Nat} {c : Condition} (found : ofFunction? n = some c) :
    n = c.function := by
  rcases Nat.lt_or_ge n 7 with below | above
  · exact (show ∀ k : Fin 7, ∀ d, ofFunction? k = some d → k.val = d.function by decide) ⟨n, below⟩ c found
  · rw [ofFunction?, List.getElem?_eq_none (by simpa [all] using above)] at found
    contradiction

/-- The end of a mnemonic that names the condition; nothing for `always`. -/
def suffix : Condition → String
  | always => "" | lessEqual => "le" | less => "l" | equal => "e" | notEqual => "ne"
  | greaterEqual => "ge" | greater => "g"

/-- The condition that a suffix names. -/
def ofSuffix? (text : String) : Option Condition := all.find? fun c => c.suffix == text

/-- Whether a condition holds on the flags. -/
def holds (c : Condition) (flags : Flags) : Bool :=
  match c with
  | always => true
  | lessEqual => flags.zero || flags.sign != flags.overflow
  | less => flags.sign != flags.overflow
  | equal => flags.zero
  | notEqual => !flags.zero
  | greaterEqual => flags.zero || flags.sign == flags.overflow
  | greater => !flags.zero && flags.sign == flags.overflow

end Condition

/-- An arithmetic or logical operation on two registers. -/
inductive AluOp where
  | add | sub | and | xor
  deriving DecidableEq, Repr

namespace AluOp

/-- Every operation, in the order of its function code. -/
def all : List AluOp := [add, sub, and, xor]

/-- The function code in an encoded instruction. -/
def function : AluOp → Nat
  | add => 0 | sub => 1 | and => 2 | xor => 3

/-- The operation with a function code. -/
def ofFunction? (n : Nat) : Option AluOp := all[n]?

theorem ofFunction?_function (op : AluOp) : ofFunction? op.function = some op := by
  cases op <;> rfl

theorem ofFunction?_eq_some {n : Nat} {op : AluOp} (found : ofFunction? n = some op) :
    n = op.function := by
  rcases Nat.lt_or_ge n 4 with below | above
  · exact (show ∀ k : Fin 4, ∀ o, ofFunction? k = some o → k.val = o.function by decide) ⟨n, below⟩ op found
  · rw [ofFunction?, List.getElem?_eq_none (by simpa [all] using above)] at found
    contradiction

/-- The mnemonic of the instruction that performs the operation. -/
def mnemonic : AluOp → String
  | add => "addq" | sub => "subq" | and => "andq" | xor => "xorq"

/-- The result of `a op b` and whether it overflowed; the logical operations
never do. -/
def apply (op : AluOp) (a b : Word) : Word × Bool :=
  match op with
  | add => Word.add Word.width a b
  | sub => Word.sub Word.width a b
  | and => (a &&& b, false)
  | xor => (a ^^^ b, false)

end AluOp

end Y86Toolkit
