/-!
Numerals: how numbers are written in listings and messages, and how a run of
digits is read. Reading goes from left to right and stops at the first digit
that is none, or at which the value reaches the limit.
-/

namespace Y86Toolkit.Numeral

/-- The decimal digits of a number. -/
def decimal (n : Nat) : String := Nat.repr n

/-- A signed number in decimal, with a minus sign when it is negative. -/
def signed : Int → String
  | .ofNat n => decimal n
  | .negSucc n => "-" ++ decimal (n + 1)

/-- At least `places` lower-case hexadecimal digits, filled up with zeros. -/
def hexDigits (places n : Nat) : String :=
  String.ofList ((Nat.toDigits 16 n).leftpad places '0')

/-- A number in hexadecimal, behind `0x` and filled up to `places` digits. -/
def hex (places n : Nat) : String := "0x" ++ hexDigits places n

/-- Text filled up with blanks on the right to at least `columns` characters. -/
def padded (columns : Nat) (text : String) : String :=
  String.ofList (text.toList.rightpad columns ' ')

/-- Why a text is no numeral. -/
inductive ReadError where
  | empty
  | invalidDigit
  | tooLarge
  deriving DecidableEq, Repr

/-- The wording of each reason. -/
def ReadError.message : ReadError → String
  | .empty => "cannot parse integer from empty string"
  | .invalidDigit => "invalid digit found in string"
  | .tooLarge => "number too large to fit in target type"

/-- The value of a digit, if it is one in this base; letters of either case
follow the digit nine. -/
def digitValue? (base : Nat) (c : Char) : Option Nat :=
  let value :=
    if '0' ≤ c ∧ c ≤ '9' then c.toNat - '0'.toNat
    else if 'a' ≤ c ∧ c ≤ 'z' then c.toNat - 'a'.toNat + 10
    else if 'A' ≤ c ∧ c ≤ 'Z' then c.toNat - 'A'.toNat + 10
    else base
  if value < base then some value else none

/-- Reads the digits `cs` behind a numeral whose value so far is `value`. -/
def readDigits (base limit : Nat) : Nat → List Char → Except ReadError Nat
  | value, [] => .ok value
  | value, c :: rest =>
    match digitValue? base c with
    | none => .error .invalidDigit
    | some digit =>
      let next := value * base + digit
      if limit ≤ next then .error .tooLarge else readDigits base limit next rest

/-- Reads a numeral below `limit`. One plus sign may stand in front of its
digits, and at least one digit is needed. -/
def read (base limit : Nat) : List Char → Except ReadError Nat
  | [] => .error .empty
  | ['+'] => .error .invalidDigit
  | '+' :: digits => readDigits base limit 0 digits
  | digits => readDigits base limit 0 digits

example : read 16 256 "fF".toList = .ok 255 := rfl
example : read 16 256 "+1x".toList = .error .invalidDigit := rfl
example : read 10 256 "256x".toList = .error .tooLarge := rfl

end Y86Toolkit.Numeral
