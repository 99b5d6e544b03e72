import Y86Toolkit.Word
import Y86Toolkit.Text.Numeral

/-!
What can be set about a machine: the size of its memory and how many steps a
run may take.
-/

namespace Y86Toolkit

/-- The settings of a machine. -/
structure Configuration where
  /-- Bytes of main memory. -/
  memorySize : Word := 5000
  /-- The number of steps after which a run stops. -/
  stepLimit : Word := 1000
  deriving DecidableEq, Repr

/-- Why settings cannot be used. -/
inductive ConfigurationError where
  /-- The settings could not be read. -/
  | unreadable (reason : String)
  /-- The text does not hold settings. -/
  | malformed
  | memoryTooSmall (size : Nat)
  | memoryTooLarge (size : Nat)
  deriving DecidableEq, Repr

namespace Configuration

/-- The smallest memory that may be configured. -/
def minMemorySize : Nat := 1000

/-- The largest memory that may be configured, one mebibyte. -/
def maxMemorySize : Nat := 1 <<< 20

/-- Checks that the memory size is within its bounds. -/
def validate (c : Configuration) : Except ConfigurationError Unit :=
  let size := c.memorySize.toNat
  if size < minMemorySize then .error (.memoryTooSmall size)
  else if maxMemorySize < size then .error (.memoryTooLarge size)
  else .ok ()

end Configuration

/-- The wording of each cause. -/
def ConfigurationError.message : ConfigurationError → String
  | unreadable reason => "I/O error: " ++ reason
  | malformed => "invalid configuration: not a record of settings"
  | memoryTooSmall size =>
    "memory size " ++ Numeral.decimal size ++ " is below the minimum of " ++
      Numeral.decimal Configuration.minMemorySize ++ " bytes"
  | memoryTooLarge size =>
    "memory size " ++ Numeral.decimal size ++ " exceeds the maximum of " ++
      Numeral.decimal Configuration.maxMemorySize ++ " bytes"

end Y86Toolkit
