import Y86Toolkit.Assembly.Error
import Y86Toolkit.Assembly.Literal
import Y86Toolkit.Instruction
import Y86Toolkit.Text.Blank
import Y86Toolkit.Text.Lines

/-!
One line of assembly source: labels, each with a colon behind it, and then at
most one statement, a directive or an instruction. A number sign starts a
comment; commas and blanks separate operands. Reading a line settles its
statement and how many operands there are, but not what the operands mean.
-/

namespace Y86Toolkit.Assembly

/-- A statement. The operands that need the addresses of labels are still
text. -/
inductive Statement where
  /-- Nothing but labels or a comment. -/
  | empty
  /-- Go on at an address. -/
  | origin (address : Nat)
  /-- Go on at the next multiple of a number. -/
  | align (alignment : Nat)
  /-- A word of data. -/
  | quad (operand : String)
  /-- A byte of data. -/
  | byte (operand : String)
  /-- An instruction. -/
  | instruction (mnemonic : Mnemonic) (operands : List String)
  deriving DecidableEq, Repr

namespace Statement

/-- The one operand of a directive. -/
def single (name : String) : List String → Except Cause String
  | [operand] => .ok operand
  | operands => .error (.operandCount name 1 operands.length)

/-- The operand of a directive that takes a number and no label. -/
def numeric (name : String) (operands : List String) : Except Cause Nat := do
  let operand ← single name operands
  match Literal.read operand.toList with
  | .notNumeric => throw (.numberRequired name)
  | .outOfRange => throw (.valueOutOfRange operand)
  | .value word => return word.toNat

/-- Reads a statement from its name, in any case, and its operands. -/
def ofFields (found : String) (operands : List String) : Except Cause Statement :=
  let name := String.ofList (found.toList.map Char.toLower)
  if name = ".pos" then do
    return origin (← numeric name operands)
  else if name = ".align" then do
    let alignment ← numeric name operands
    if alignment = 0 then throw (.valueOutOfRange "0")
    return align alignment
  else if name = ".quad" then do
    return quad (← single name operands)
  else if name = ".byte" then do
    return byte (← single name operands)
  else
    match Mnemonic.ofName? name with
    | none => .error (.unknownMnemonic found)
    | some mnemonic =>
      if operands.length = mnemonic.arity then .ok (instruction mnemonic operands)
      else .error (.operandCount name mnemonic.arity operands.length)

/-- Reads the statement part of a line. -/
def read (code : List Char) : Except Cause Statement :=
  match (Text.fields (code.map fun c => if c = ',' then ' ' else c)).map String.ofList with
  | [] => .ok empty
  | name :: operands => ofFields name operands

end Statement

/-- A letter or an underscore, and then letters, digits and underscores. -/
def isIdentifier : List Char → Bool
  | [] => false
  | c :: rest => (c.isAlpha || c == '_') && rest.all fun d => d.isAlphanum || d == '_'

/-- A line of source. -/
structure Line where
  /-- The labels in front of the statement, as far as they are identifiers. -/
  labels : List String
  /-- The statement, or what is wrong behind the labels. -/
  statement : Except Cause Statement
  /-- The whole line without the blanks around it. -/
  text : String

namespace Line

/-- Reads the pieces of a line between its colons; the last one is the
statement, and reading ends at the first other one that is no label. -/
def ofPieces : List (List Char) → List String × Except Cause Statement
  | [] => ([], .ok .empty)
  | [code] => ([], Statement.read code)
  | piece :: rest =>
    let label := Text.trim piece
    if isIdentifier label then
      let (labels, statement) := ofPieces rest
      (String.ofList label :: labels, statement)
    else ([], .error (.invalidLabel (String.ofList label)))

/-- Reads a line; a blank one counts for nothing. -/
def read? (cs : List Char) : Option Line :=
  let text := Text.trim cs
  if text.isEmpty then none
  else
    let (labels, statement) := ofPieces (Text.pieces ':' (Text.beforeFirst '#' text))
    some { labels, statement, text := String.ofList text }

end Line

end Y86Toolkit.Assembly
