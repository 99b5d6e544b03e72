import Y86Toolkit.Image
import Y86Toolkit.Text.Blank
import Y86Toolkit.Text.Lines

/-!
The listing form of an image: a line of text for each source line, with its
address, its bytes and, behind a bar, its source. Reading takes the lines that
have a colon in front of the first bar and passes over all others.
-/

namespace Y86Toolkit

/-- What is wrong with a line of a listing. Each cause shows the text it is
about. -/
inductive ListingCause where
  /-- The address does not start with `0x`. -/
  | hexAddressExpected (found : String)
  /-- The digits of the address cannot be read. -/
  | invalidAddress (found : String) (reason : Numeral.ReadError)
  /-- The address is past the limit of images. -/
  | addressTooLarge (address : Nat)
  /-- The bytes hold characters outside of ASCII. -/
  | nonHex (found : String)
  /-- The last byte has one digit only. -/
  | oddDigits (found : String)
  /-- Two characters are not a byte. -/
  | invalidByte (found : String)
  /-- The image refuses the bytes. -/
  | refused (cause : ImageError)
  deriving DecidableEq, Repr

/-- The wording of each cause. -/
def ListingCause.message : ListingCause → String
  | hexAddressExpected found => "expected hex address, found '" ++ found ++ "'"
  | invalidAddress found reason => "invalid address '" ++ found ++ "': " ++ reason.message
  | addressTooLarge address =>
    "address " ++ Numeral.hex 0 address ++ " is beyond the " ++ Numeral.hex 0 Image.maxSize ++
      " byte image limit"
  | nonHex found => "non-hex characters in '" ++ found ++ "'"
  | oddDigits found => "odd number of hex digits in '" ++ found ++ "'"
  | invalidByte found => "invalid hex byte '" ++ found ++ "'"
  | refused cause => cause.message

/-- The first line of a listing that cannot be read, counted from one. -/
structure ListingError where
  line : Nat
  cause : ListingCause
  deriving DecidableEq, Repr

/-- The wording, with the line. -/
def ListingError.message (e : ListingError) : String :=
  "parse error on line " ++ Numeral.decimal e.line ++ ": " ++ e.cause.message

namespace Image

/-! ## Writing -/

/-- The number of columns for the bytes of a line. -/
def byteColumns : Nat := 20

/-- The address at the start of a line. -/
def addressText (address : Nat) : String := Numeral.hex 3 address ++ ": "

/-- One line of a listing, with its line feed. -/
def listingLine (image : Image) (line : SourceLine) : String :=
  addressText line.address ++
    Numeral.padded byteColumns (Bytes.hexText (image.lineBytes line)) ++ " | " ++ line.text ++ "\n"

/-- The listing of an image. Without a record of lines, eight bytes make a line
and there is no source. -/
def listing (image : Image) : String :=
  if image.lines.isEmpty then
    (List.range ((image.size + 7) / 8)).foldl (fun text k => text ++ rawLine (8 * k)) ""
  else image.lines.foldl (fun text line => text ++ image.listingLine line) ""
where
  /-- The line of the bytes at `start`. -/
  rawLine (start : Nat) : String :=
    addressText start ++ Bytes.hexText (Bytes.slice image.bytes start (start + 8)) ++ " |\n"

/-! ## Reading -/

/-- Reads an address: `0x` and hexadecimal digits, up to the limit of images. -/
def readAddress (found : List Char) : Except ListingCause Nat :=
  match found with
  | '0' :: 'x' :: digits | '0' :: 'X' :: digits =>
    match Numeral.read 16 (Word.limit Word.width) digits with
    | .error reason => .error (.invalidAddress (String.ofList found) reason)
    | .ok address =>
      if maxSize < address then .error (.addressTooLarge address) else .ok address
  | _ => .error (.hexAddressExpected (String.ofList found))

/-- Reads bytes of two digits each. The bytes already read are kept in reverse. -/
def readPairs (done : List Byte) : List Char → Except ListingCause (List Byte)
  | high :: low :: rest =>
    match Numeral.read 16 256 [high, low] with
    | .ok b => readPairs (UInt8.ofNat b :: done) rest
    | .error _ => .error (.invalidByte (String.ofList [high, low]))
  | _ => .ok done.reverse

/-- Reads the bytes of a line. Blanks between the digits do not matter. -/
def readBytes (found : List Char) : Except ListingCause (List Byte) :=
  let digits := found.filter fun c => !Text.isBlank c
  if digits.any fun c => 128 ≤ c.toNat then .error (.nonHex (String.ofList digits))
  else if digits.length % 2 = 1 then .error (.oddDigits (String.ofList digits))
  else readPairs [] digits

/-- Reads one line into an image. A line without a colon in front of its first
bar is passed over. -/
def readLine (image : Image) (line : List Char) : Except ListingCause Image :=
  let (code, source) := (Text.splitAtFirst '|' line).getD (line, [])
  match Text.splitAtFirst ':' code with
  | none => .ok image
  | some (address, digits) => do
    let address ← readAddress (Text.trim address)
    let data ← readBytes digits
    let written ← (image.write address data).mapError .refused
    return written.addLine ⟨address, data.length, String.ofList (Text.trim source)⟩

/-- Reads a listing. -/
def ofListing (text : String) : Except ListingError Image :=
  go 1 empty (Text.lines text.toList)
where
  /-- Reads lines, the first of which has the given number, into an image. -/
  go (number : Nat) (image : Image) : List (List Char) → Except ListingError Image
    | [] => .ok image
    | line :: rest =>
      match image.readLine line with
      | .ok next => go (number + 1) next rest
      | .error cause => .error ⟨number, cause⟩

end Image

end Y86Toolkit
