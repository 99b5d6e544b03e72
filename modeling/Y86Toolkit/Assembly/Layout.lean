import Y86Toolkit.Assembly.Statement
import Y86Toolkit.Image

/-!
Layout of assembly source: where each statement goes and what address each
label names. How far a statement moves the location counter does not depend on
its operands' values, so labels may be used before they are defined.
-/

namespace Y86Toolkit.Assembly

/-- The location counter behind a statement. Aligning leaves a counter that is
a multiple already where it is. -/
def Statement.next (counter : Nat) : Statement → Nat
  | empty => counter
  | origin address => address
  | align alignment =>
    if counter % alignment = 0 then counter else counter + (alignment - counter % alignment)
  | quad _ => counter + 8
  | byte _ => counter + 1
  | instruction mnemonic _ => counter + mnemonic.length

/-- A statement in its place. -/
structure Item where
  /-- The number of the source line, counted from one. -/
  line : Nat
  address : Nat
  statement : Statement
  /-- The source line without the blanks around it. -/
  text : String
  deriving DecidableEq, Repr

/-- How the lines so far are laid out. -/
structure Layout where
  /-- The location counter: the address of the next statement. -/
  counter : Nat := 0
  symbols : SymbolTable := {}
  items : Array Item := #[]

namespace Layout

/-- Gives labels an address, unless one of them has one already. -/
def define (symbols : SymbolTable) (address : Nat) : List String → Except Cause SymbolTable
  | [] => .ok symbols
  | label :: rest =>
    if symbols.contains label then .error (.duplicateLabel label)
    else define (symbols.insert label address) address rest

/-- Lays a line out behind the others. Its labels name the counter in front of
its statement; behind the statement the counter must not be past the limit of
images. -/
def place (layout : Layout) (number : Nat) (line : Line) : Except Cause Layout := do
  let symbols ← define layout.symbols layout.counter line.labels
  let statement ← line.statement
  let counter := statement.next layout.counter
  if Image.maxSize < counter then throw (.valueOutOfRange (Numeral.hex 0 counter))
  let item := { line := number, address := layout.counter, statement, text := line.text }
  return { counter, symbols, items := layout.items.push item }

/-- Lays out lines, the first of which has the given number. -/
def placeAll (layout : Layout) (number : Nat) : List (List Char) → Except Error Layout
  | [] => .ok layout
  | cs :: rest =>
    match Line.read? cs with
    | none => placeAll layout (number + 1) rest
    | some line =>
      match layout.place number line with
      | .ok next => placeAll next (number + 1) rest
      | .error cause => .error ⟨number, cause⟩

/-- The layout of a source. -/
def ofSource (source : String) : Except Error Layout := placeAll {} 1 (Text.lines source.toList)

end Layout

end Y86Toolkit.Assembly
