import Y86Toolkit.CommandLine.Outcome

/-!
The program on a real file system. Everything it decides is decided by
`Command.outcome`; here files are read and written, and replies are shown.
-/

namespace Y86Toolkit.CommandLine

/-- The number of an error of the system, which some calls give negated. -/
def errorNumber (code : UInt32) : UInt32 := min code (0 - code)

/-- The reason behind an error of the system. -/
def fileError (e : IO.Error) : FileError :=
  match e with
  | .noFileOrDirectory .. => .missing
  | .inappropriateType _ code _ => if errorNumber code = 20 then .notADirectory else .isADirectory
  | .invalidArgument _ code _ => if errorNumber code = 36 then .nameTooLong else .other (toString e)
  | _ => .other (toString e)

/-- Reads the text of a file. -/
def readText (path : String) : IO (Except FileError String) := do
  match ← (IO.FS.readBinFile path).toBaseIO with
  | .ok bytes => return decodeText bytes
  | .error e => return .error (fileError e)

/-- Writes a text to a file. -/
def writeText (path text : String) : IO (Except FileError Unit) := do
  match ← (IO.FS.writeFile path text).toBaseIO with
  | .ok _ => return .ok ()
  | .error e => return .error (fileError e)

/-- Obeys a command. -/
def obey (command : Command) : IO Reply := do
  let texts ← command.inputs.mapM fun path => return (path, ← readText path)
  let o := command.outcome fun path => (texts.lookup path).getD (.error .missing)
  match o.save with
  | none => return o.reply
  | some (path, text) => return o.replyAfter (← writeText path text)

end Y86Toolkit.CommandLine

open Y86Toolkit.CommandLine in
/-- Obeys the command line. -/
def main (arguments : List String) : IO UInt32 := do
  let reply ← match Command.ofArguments arguments with
    | .ok command => obey command
    | .error e => pure ⟨2, "", "error: " ++ e.message ++ "\n\n" ++ usageText⟩
  (← IO.getStdout).putStr reply.output
  (← IO.getStderr).putStr reply.errors
  return UInt32.ofNat reply.code
