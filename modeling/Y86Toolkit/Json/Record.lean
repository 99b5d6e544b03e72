import Y86Toolkit.Json.Value
import Y86Toolkit.Word

/-!
Reading records from JSON values. A record is an object with certain keys, in
any order, or an array of the values of its fields in their order. In an
object, unknown keys do not matter and known ones may not be repeated; in an
array, there may not be more values than fields.
-/

namespace Y86Toolkit.Json

namespace Value

/-- The value of a number made of digits alone that is below a limit. -/
def below? (limit : Nat) : Value → Option Nat
  | .number (.natural n) => if n < limit then some n else none
  | _ => none

/-- A word as a number. -/
def word? (v : Value) : Option Word := (v.below? (Word.limit Word.width)).map UInt64.ofNat

/-- A byte as a number. -/
def byte? (v : Value) : Option Byte := (v.below? 256).map UInt8.ofNat

/-- A truth value. -/
def bool? : Value → Option Bool
  | .bool b => some b
  | _ => none

/-- The items of an array, each read by `item?`. -/
def items? {α : Type} (item? : Value → Option α) : Value → Option (List α)
  | .array items => items.mapM item?
  | _ => none

/-- The one field of an object with this key; nothing if there is none, and
refused if there are several. -/
def field? (fields : List (Quoted × Value)) (key : String) : Option (Option Value) :=
  match fields.filter fun field => field.1 == some key with
  | [] => some none
  | [field] => some (some field.2)
  | _ => none

/-- The values of a record's fields, in the order of `keys`, with nothing for
an absent one. -/
def record? (keys : List String) : Value → Option (List (Option Value))
  | .object fields =>
    if fields.all fun field => field.1.isSome then keys.mapM (field? fields) else none
  | .array items =>
    if items.length ≤ keys.length then
      some (items.map some ++ List.replicate (keys.length - items.length) none)
    else none
  | _ => none

end Value

end Y86Toolkit.Json
