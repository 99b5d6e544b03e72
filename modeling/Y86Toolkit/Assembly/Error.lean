import Y86Toolkit.Text.Numeral

/-!
What can be wrong with assembly source, and on which line.
-/

namespace Y86Toolkit.Assembly

/-- The sort of a cause. -/
inductive ErrorKind where
  | syntaxError | unknownMnemonic | unknownRegister | undefinedLabel | duplicateLabel
  | valueOutOfRange | operandCount
  deriving DecidableEq, Repr

/-- Why a line cannot be assembled. -/
inductive Cause where
  /-- What stands in front of a colon is no identifier. -/
  | invalidLabel (found : String)
  /-- A directive that needs a number has something else. -/
  | numberRequired (directive : String)
  /-- An operand is neither a number nor a label. -/
  | valueExpected (found : String)
  /-- An operand is not a displacement with a base register in parentheses. -/
  | memoryOperandExpected (found : String)
  | unknownMnemonic (found : String)
  | unknownRegister (found : String)
  /-- A label is used and nowhere defined. -/
  | undefinedLabel (label : String)
  /-- A label is defined a second time. -/
  | duplicateLabel (label : String)
  /-- A number is too large for its place, or a location too large for an
  image. -/
  | valueOutOfRange (found : String)
  /-- A statement has too few or too many operands. -/
  | operandCount (name : String) (expected found : Nat)
  deriving DecidableEq, Repr

namespace Cause

/-- The sort of each cause. -/
def kind : Cause → ErrorKind
  | invalidLabel _ | numberRequired _ | valueExpected _ | memoryOperandExpected _ => .syntaxError
  | unknownMnemonic _ => .unknownMnemonic
  | unknownRegister _ => .unknownRegister
  | undefinedLabel _ => .undefinedLabel
  | duplicateLabel _ => .duplicateLabel
  | valueOutOfRange _ => .valueOutOfRange
  | operandCount .. => .operandCount

end Cause

/-- A cause with the number of its line, counted from one. -/
structure Error where
  line : Nat
  cause : Cause
  deriving DecidableEq, Repr

/-- The wording of an error. -/
def Error.message (e : Error) : String :=
  let line := Numeral.decimal e.line
  let syntaxError (what : String) := "syntax error on line " ++ line ++ ": " ++ what
  match e.cause with
  | .invalidLabel found => syntaxError ("invalid label '" ++ found ++ "'")
  | .numberRequired directive => syntaxError (directive ++ " requires a numeric operand")
  | .valueExpected found => syntaxError ("expected a number or label, found '" ++ found ++ "'")
  | .memoryOperandExpected found =>
    syntaxError ("expected memory operand D(%reg), found '" ++ found ++ "'")
  | .unknownMnemonic found => "unknown mnemonic on line " ++ line ++ ": " ++ found
  | .unknownRegister found => "unknown register on line " ++ line ++ ": " ++ found
  | .undefinedLabel label => "undefined label on line " ++ line ++ ": " ++ label
  | .duplicateLabel label => "duplicate label on line " ++ line ++ ": " ++ label
  | .valueOutOfRange found => "value out of range on line " ++ line ++ ": " ++ found
  | .operandCount name expected found =>
    name ++ " on line " ++ line ++ " takes " ++ Numeral.decimal expected ++
      " operand(s), found " ++ Numeral.decimal found

end Y86Toolkit.Assembly
