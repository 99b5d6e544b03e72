import Y86Toolkit.Json.Value
import Y86Toolkit.Text.Numeral

/-!
Writing JSON values: every item and every field on a line of its own, two more
blanks in front of it for every level. Arrays and objects without parts stay on
one line.
-/

namespace Y86Toolkit.Json

/-- The written form of a character inside quotes. -/
def escape (c : Char) : String :=
  if c = '"' then "\\\""
  else if c = '\\' then "\\\\"
  else if c = '\x08' then "\\b"
  else if c = '\x0c' then "\\f"
  else if c = '\n' then "\\n"
  else if c = '\r' then "\\r"
  else if c = '\t' then "\\t"
  else if c.toNat < 0x20 then "\\u" ++ Numeral.hexDigits 4 c.toNat
  else String.singleton c

/-- A string in quotes. One that is no text is written as half a surrogate
pair. -/
def Quoted.render : Quoted → String
  | some s => "\"" ++ String.join (s.toList.map escape) ++ "\""
  | none => "\"\\ud800\""

/-- A number, digit by digit. -/
def Number.render : Number → String
  | .natural n => Numeral.decimal n
  | .decimal written => written

/-- The start of a line at a level. -/
def newline (level : Nat) : String := "\n" ++ String.ofList (List.replicate (2 * level) ' ')

mutual

/-- Writes a value at a level, behind what is written already. -/
def Value.write (level : Nat) (out : String) : Value → String
  | .null => out ++ "null"
  | .bool b => out ++ (if b then "true" else "false")
  | .number n => out ++ n.render
  | .string text => out ++ Quoted.render text
  | .array [] => out ++ "[]"
  | .array (v :: rest) =>
    writeItems (level + 1) (v.write (level + 1) (out ++ "[" ++ newline (level + 1))) rest ++
      newline level ++ "]"
  | .object [] => out ++ "\x7b\x7d"
  | .object ((key, v) :: rest) =>
    let opened := out ++ "\x7b" ++ newline (level + 1) ++ Quoted.render key ++ ": "
    writeFields (level + 1) (v.write (level + 1) opened) rest ++ newline level ++ "\x7d"

/-- Writes the items behind the first. -/
def writeItems (level : Nat) (out : String) : List Value → String
  | [] => out
  | v :: rest => writeItems level (v.write level (out ++ "," ++ newline level)) rest

/-- Writes the fields behind the first. -/
def writeFields (level : Nat) (out : String) : List (Quoted × Value) → String
  | [] => out
  | (key, v) :: rest =>
    writeFields level (v.write level (out ++ "," ++ newline level ++ Quoted.render key ++ ": ")) rest

end

/-- The written form of a value. -/
def Value.render (v : Value) : String := v.write 0 ""

end Y86Toolkit.Json
