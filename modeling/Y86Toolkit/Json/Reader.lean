import Y86Toolkit.Json.Token

/-!
Reading JSON text. The tokens are taken one by one; arrays and objects that are
not complete yet wait on a list, the innermost first, so that nesting may be of
any depth.
-/

namespace Y86Toolkit.Json

/-- An array or object that is not complete. Its parts are kept in reverse. -/
inductive Frame where
  | array (items : List Value)
  /-- The value of `key` is to come. -/
  | object (fields : List (Quoted × Value)) (key : Quoted)

/-- What may come next. -/
inductive Expected where
  | value
  /-- A value, or the end of an array without items. -/
  | firstItem
  /-- A key of an object with these fields. -/
  | key (fields : List (Quoted × Value))
  /-- A key, or the end of an object without fields. -/
  | firstKey
  /-- The colon behind a key of an object with these fields. -/
  | colon (fields : List (Quoted × Value)) (key : Quoted)
  /-- What follows a complete value. -/
  | behind (value : Value)

/-- Takes the tokens behind what is complete or waits already. -/
def build : Expected → List Frame → List Token → Option Value
  | .behind v, [], [] => some v
  | .behind v, .array items :: frames, .comma :: rest =>
    build .value (.array (v :: items) :: frames) rest
  | .behind v, .array items :: frames, .closeArray :: rest =>
    build (.behind (.array (v :: items).reverse)) frames rest
  | .behind v, .object fields key :: frames, .comma :: rest =>
    build (.key ((key, v) :: fields)) frames rest
  | .behind v, .object fields key :: frames, .closeObject :: rest =>
    build (.behind (.object ((key, v) :: fields).reverse)) frames rest
  | .firstItem, .array _ :: frames, .closeArray :: rest => build (.behind (.array [])) frames rest
  | .firstKey, frames, .closeObject :: rest => build (.behind (.object [])) frames rest
  | .value, frames, .scalar v :: rest | .firstItem, frames, .scalar v :: rest =>
    build (.behind v) frames rest
  | .value, frames, .openArray :: rest | .firstItem, frames, .openArray :: rest =>
    build .firstItem (.array [] :: frames) rest
  | .value, frames, .openObject :: rest | .firstItem, frames, .openObject :: rest =>
    build .firstKey frames rest
  | .firstKey, frames, .scalar (.string key) :: rest => build (.colon [] key) frames rest
  | .key fields, frames, .scalar (.string key) :: rest => build (.colon fields key) frames rest
  | .colon fields key, frames, .colon :: rest => build .value (.object fields key :: frames) rest
  | _, _, _ => none

/-- Reads a text as one value. -/
def Value.read? (text : String) : Option Value := do
  build .value [] (← Token.scan? text.toList)

end Y86Toolkit.Json
