import Std.Data.TreeMap
import Y86Toolkit.Bytes
import Y86Toolkit.Configuration

/-!
Program images: the bytes of a program from address zero on, with a record of
which source line stands where and which label names which address. Bytes are
written in any order; what lies between them is zero.
-/

namespace Y86Toolkit

/-- A line of source and the place of its bytes. -/
structure SourceLine where
  address : Nat
  /-- The number of bytes. -/
  length : Nat
  text : String
  deriving DecidableEq, Repr

/-- Labels and their addresses, in the order of the labels. -/
abbrev SymbolTable := Std.TreeMap String Nat

/-- Bytes by address, in the order of the addresses. -/
abbrev ByteMap := Std.TreeMap Nat Byte

/-- A program image. -/
structure Image where
  bytes : Array Byte := #[]
  lines : Array SourceLine := #[]
  symbols : SymbolTable := {}

/-- Why an image refuses bytes. -/
inductive ImageError where
  /-- The bytes would go past the limit. -/
  | tooLarge (address length : Nat)
  deriving DecidableEq, Repr

namespace Image

/-- No image extends past this address. -/
def maxSize : Nat := Configuration.maxMemorySize

end Image

/-- The wording of each cause. -/
def ImageError.message : ImageError → String
  | tooLarge address length =>
    Numeral.decimal length ++ " bytes at " ++ Numeral.hex 0 address ++
      " extend past the " ++ Numeral.hex 0 Image.maxSize ++ " byte image limit"

namespace Image

/-- An image without bytes, lines or labels. -/
def empty : Image := {}

/-- The number of bytes. -/
def size (image : Image) : Nat := image.bytes.size

/-- Stores bytes at an address; the image grows as far as they reach. Storing
no bytes changes nothing, wherever it is. -/
def write (image : Image) (address : Nat) (data : List Byte) : Except ImageError Image :=
  if data.isEmpty then .ok image
  else
    let stop := address + data.length
    if stop ≤ maxSize then
      .ok { image with bytes := Bytes.overwrite (Bytes.grow image.bytes stop) address data }
    else .error (.tooLarge address data.length)

/-- The image with one more line in its record. -/
def addLine (image : Image) (line : SourceLine) : Image :=
  { image with lines := image.lines.push line }

/-- The bytes of a line, as far as the image reaches. -/
def lineBytes (image : Image) (line : SourceLine) : List Byte :=
  Bytes.slice image.bytes line.address (line.address + line.length)

/-- The first line with bytes that starts at an address. -/
def lineAt? (image : Image) (address : Nat) : Option SourceLine :=
  image.lines.find? fun line => line.address == address && line.length != 0

/-- The first label, in the order of the labels, that names an address. -/
def labelAt? (image : Image) (address : Nat) : Option String :=
  (image.symbols.toList.find? fun (_, place) => place == address).map Prod.fst

/-- The bytes that lines account for, by address. -/
def byteMap (image : Image) : ByteMap :=
  image.lines.foldl (fun map line => insertAll map line.address (image.lineBytes line)) {}
where
  /-- Enters bytes at consecutive addresses. -/
  insertAll (map : ByteMap) (address : Nat) : List Byte → ByteMap
    | [] => map
    | b :: rest => insertAll (map.insert address b) (address + 1) rest

end Image

end Y86Toolkit
