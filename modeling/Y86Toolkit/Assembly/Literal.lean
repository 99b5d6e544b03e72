import Y86Toolkit.Word
import Y86Toolkit.Text.Numeral

/-!
Number literals of assembly source: an optional dollar sign, an optional minus
sign, and decimal digits or `0x` and hexadecimal digits. What does not go on
with a decimal digit behind the signs is no number at all, and may be a label.
-/

namespace Y86Toolkit.Assembly

/-- What a text is as a number. -/
inductive Literal where
  /-- It does not look like a number. -/
  | notNumeric
  /-- It looks like a number and denotes no word. -/
  | outOfRange
  | value (word : Word)
  deriving DecidableEq, Repr

namespace Literal

/-- The size of a number from its digits. -/
def magnitude (digits : List Char) : Except Numeral.ReadError Nat :=
  match digits with
  | '0' :: 'x' :: hex | '0' :: 'X' :: hex => Numeral.read 16 (Word.limit Word.width) hex
  | _ => Numeral.read 10 (Word.limit Word.width) digits

/-- Reads the digits behind the signs. A negative number goes down to the most
negative signed word and is kept as two's complement. -/
def ofDigits (negative : Bool) (digits : List Char) : Literal :=
  match digits with
  | c :: _ =>
    if c.isDigit then
      match magnitude digits with
      | .error _ => .outOfRange
      | .ok size =>
        if negative then
          if Word.limit (Word.width - 1) < size then .outOfRange else .value (Word.ofSigned Word.width (-size))
        else .value (UInt64.ofNat size)
    else .notNumeric
  | [] => .notNumeric

/-- Reads a text as a number. -/
def read (text : List Char) : Literal :=
  let signed := match text with
    | '$' :: rest => rest
    | _ => text
  match signed with
  | '-' :: digits => ofDigits true digits
  | digits => ofDigits false digits

example : read "$-0x10".toList = .value (0 - 16) := by decide
example : read "12a".toList = .outOfRange := by decide
example : read "$label".toList = .notNumeric := by decide

end Literal

end Y86Toolkit.Assembly
