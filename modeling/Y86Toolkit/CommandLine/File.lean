/-!
Files as the commands see them: bytes that hold text in UTF-8, and the reasons
for which a file cannot be read or written.
-/

namespace Y86Toolkit.CommandLine

/-- Why a file cannot be read or written. -/
inductive FileError where
  | missing
  | notADirectory
  | isADirectory
  | nameTooLong
  /-- The bytes are not text. -/
  | notText
  /-- Any other reason, in the words of the system. -/
  | other (reason : String)
  deriving DecidableEq, Repr

/-- The wording of each reason, with the system's number for it. -/
def FileError.message : FileError → String
  | missing => "No such file or directory (os error 2)"
  | notADirectory => "Not a directory (os error 20)"
  | isADirectory => "Is a directory (os error 21)"
  | nameTooLong => "File name too long (os error 36)"
  | notText => "stream did not contain valid UTF-8"
  | other reason => reason

/-- The text in a file. -/
def decodeText (bytes : ByteArray) : Except FileError String :=
  match String.fromUTF8? bytes with
  | some text => .ok text
  | none => .error .notText

/-- A text is read from its own bytes. -/
theorem decodeText_toUTF8 (text : String) : decodeText text.toUTF8 = .ok text := by
  have valid : String.fromUTF8? text.toUTF8 = some text := by
    rw [String.fromUTF8?, String.toUTF8_eq_toByteArray, dif_pos text.isValidUTF8]
    rfl
  rw [decodeText, valid]

end Y86Toolkit.CommandLine
