/-!
JSON values. Objects keep the order and the repetitions of their keys, since
whether a repetition matters is for the reader of a record to say.
-/

namespace Y86Toolkit.Json

/-- A number. -/
inductive Number where
  /-- Digits alone. -/
  | natural (n : Nat)
  /-- A number with a sign, a fraction or an exponent, as it is written. -/
  | decimal (written : String)
  deriving DecidableEq, Repr

/-- What a quoted string holds; nothing if an escape in it names one half of a
surrogate pair without the other, so that it is no text. -/
abbrev Quoted := Option String

/-- A value. -/
inductive Value where
  | null
  | bool (b : Bool)
  | number (n : Number)
  | string (text : Quoted)
  | array (items : List Value)
  | object (fields : List (Quoted × Value))
  deriving Repr

namespace Value

/-- A number made of digits alone. -/
def natural (n : Nat) : Value := .number (.natural n)

/-- A string that holds a text. -/
def text (s : String) : Value := .string (some s)

/-- An object with texts as keys. -/
def record (fields : List (String × Value)) : Value :=
  .object (fields.map fun field => (some field.1, field.2))

end Value

end Y86Toolkit.Json
