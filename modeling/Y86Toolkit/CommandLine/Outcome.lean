import Y86Toolkit.Assembly
import Y86Toolkit.CommandLine.Command
import Y86Toolkit.CommandLine.Directory
import Y86Toolkit.Disassembly
import Y86Toolkit.Machine.Run
import Y86Toolkit.Machine.Snapshot

/-!
What each command answers. A command reads files and may write one; everything
in between is a function of the texts that were read. The outer layer reads and
writes, for a real directory or for the model of one.
-/

namespace Y86Toolkit.CommandLine

/-- What a command leaves behind when it ends. -/
structure Reply where
  /-- The exit code, zero for success. -/
  code : Nat
  output : String
  errors : String
  deriving DecidableEq, Repr

/-- Why a command fails. -/
inductive Failure where
  /-- The file with the configuration cannot be used. -/
  | configurationFile (cause : ConfigurationError)
  /-- The configuration cannot be used together with the options. -/
  | configuration (cause : ConfigurationError)
  | sourceFile (cause : FileError)
  | assembly (cause : Assembly.Error)
  | imageFile (cause : FileError)
  | listing (cause : ListingError)
  | load (fault : MemoryFault)
  | save (cause : FileError)
  /-- A debugger needs a terminal. -/
  | noTerminal
  deriving DecidableEq, Repr

namespace Failure

/-- The wording of each cause. -/
def message : Failure → String
  | configurationFile cause => "Failed to load config: " ++ cause.message
  | configuration cause => "Invalid configuration: " ++ cause.message
  | sourceFile cause => "Failed to read file: " ++ cause.message
  | assembly cause => "Assembly error: " ++ cause.message
  | imageFile cause => "Failed to load image: I/O error: " ++ cause.message
  | listing cause => "Failed to load image: " ++ cause.message
  | load fault => "Failed to load program: " ++ fault.message
  | save cause => "Failed to save image: I/O error: " ++ cause.message
  | noTerminal => "Debugger error: No such device or address (os error 6)"

/-- The reply of a command that fails. -/
def reply (f : Failure) : Reply := ⟨1, "", "❌ " ++ f.message ++ "\n"⟩

end Failure

/-- The texts of files by their paths. -/
abbrev Texts := String → Except FileError String

/-- The configuration in a file, or the default one, with the options on top. -/
def configuration (texts : Texts) (path : Option String) (memorySize maxSteps : Option Word) :
    Except Failure Configuration := do
  let base ← match path with
    | none => pure {}
    | some path =>
      match texts path with
      | .error e => throw (.configurationFile (.unreadable e.message))
      | .ok text => (Configuration.parse text).mapError .configurationFile
  let c : Configuration :=
    ⟨memorySize.getD base.memorySize, maxSteps.getD base.stepLimit⟩
  c.validate.mapError .configuration
  return c

/-- A path names a source file; any other program is an image. -/
def isSource (path : String) : Bool := path.endsWith ".ys"

/-- Reads and assembles a source file. -/
def sourceImage (texts : Texts) (path : String) : Except Failure Image := do
  let source ← (texts path).mapError .sourceFile
  (Assembly.assemble source).mapError .assembly

/-- Reads the listing of an image. -/
def listedImage (texts : Texts) (path : String) : Except Failure Image := do
  let text ← (texts path).mapError .imageFile
  (Image.ofListing text).mapError .listing

/-- The program in a file. -/
def program (texts : Texts) (path : String) : Except Failure Image :=
  if isSource path then sourceImage texts path else listedImage texts path

/-! ## Running -/

/-- The line that shows a step. -/
def traceLine (o : Observation) : String :=
  Numeral.hex 3 o.pc.toNat ++ ": " ++
    (match o.result with
    | .ok instruction => Numeral.padded 28 instruction.text ++ " " ++ o.machine.flags.text
    | .error fault => fault.message) ++ "\n"

/-- The machine in a readable form. -/
def stateText (m : Machine) : String :=
  "Stopped in " ++ Numeral.decimal m.steps.toNat ++ " steps at PC = " ++ Numeral.hex 0 m.pc.toNat ++
    ".  Status '" ++ m.status.code ++ "', " ++ m.flags.text ++ "\nRegisters:\n" ++
    String.join (Register.all.map registerText)
where
  /-- The line of a register. -/
  registerText (r : Register) : String :=
    let value := m.registers.get r
    "  " ++ Numeral.padded 5 r.name ++ " " ++ Numeral.hex 16 value.toNat ++ "  " ++
      Numeral.signed (Word.toSigned Word.width value) ++ "\n"

/-- The reply of a run that ended like this. -/
def runReply (limit : Word) (outcome : RunOutcome) (output : String) : Reply :=
  match outcome with
  | .stopped .halted => ⟨0, output, ""⟩
  | .stopped _ => ⟨1, output, ""⟩
  | .stepLimitReached =>
    ⟨2, output, "\n⚠️  Reached step limit (" ++ Numeral.decimal limit.toNat ++
      "). Use --max-steps to increase.\n"⟩

/-- Runs a program on a fresh machine. -/
def runImage (c : Configuration) (image : Image) (trace json : Bool) : Except Failure Reply := do
  let m ← ((Machine.fresh c).load image.bytes).mapError .load
  let observe (shown : String) (o : Observation) := if trace then shown ++ traceLine o else shown
  let (report, m, shown) := m.runObserved observe c.stepLimit.toNat ""
  return runReply c.stepLimit report.outcome
    (shown ++ if json then m.snapshot ++ "\n" else stateText m)

/-! ## Commands -/

/-- What a command answers, and the file that it writes first, if there is one.
When the file cannot be written the answer is a failure instead. -/
structure Outcome where
  reply : Reply
  /-- A path and a text. -/
  save : Option (String × String) := none
  deriving DecidableEq, Repr

/-- The reply after the file was written or not. -/
def Outcome.replyAfter {α : Type} (o : Outcome) : Except FileError α → Reply
  | .ok _ => o.reply
  | .error e => (Failure.save e).reply

/-- The path of the image of a source file. -/
def imagePath (source : String) : String :=
  (if isSource source then String.ofList (source.toList.take (source.length - 3)) else source) ++ ".yo"

/-- The line that names the program and its version. -/
def versionText : String := "y86-emu 0.1.0\n"

/-- How the commands are used. -/
def usageText : String :=
  "Usage: y86-emu [-v]... <command>\n\n" ++
    "  run <program> [-m|--max-steps <n>] [--memory-size <n>] [-c|--config <file>] [-t|--trace] [--json]\n" ++
    "  debug <program> [-c|--config <file>]\n" ++
    "  asm <source> [-o|--output <file>]\n" ++
    "  disasm <image>\n" ++
    "  help\n"

namespace Command

/-- The files that a command reads. -/
def inputs : Command → List String
  | version | help => []
  | run program options => options.configuration.toList ++ [program]
  | debug program configuration => configuration.toList ++ [program]
  | assemble source _ => [source]
  | disassemble image => [image]

/-- What a command answers when it succeeds, and why it fails. -/
def attempt (texts : Texts) : Command → Except Failure Outcome
  | version => .ok { reply := ⟨0, versionText, ""⟩ }
  | help => .ok { reply := ⟨0, usageText, ""⟩ }
  | run path options => do
    let c ← configuration texts options.configuration options.memorySize options.maxSteps
    let image ← program texts path
    return { reply := ← runImage c image options.trace options.json }
  | debug path settings => do
    let _ ← configuration texts settings none none
    let _ ← program texts path
    throw .noTerminal
  | assemble source output => do
    let image ← sourceImage texts source
    let path := output.getD (imagePath source)
    return {
      reply := ⟨0, "✓ Assembled " ++ Numeral.decimal image.size ++ " bytes → " ++ path ++ "\n", ""⟩
      save := some (path, image.listing) }
  | disassemble path => do
    let image ← listedImage texts path
    return { reply := ⟨0, Disassembly.listing image.bytes, ""⟩ }

/-- What a command answers. -/
def outcome (texts : Texts) (command : Command) : Outcome :=
  match command.attempt texts with
  | .ok o => o
  | .error f => { reply := f.reply }

end Command

/-- Obeys a command line in a directory. -/
def Directory.execute (d : Directory) (arguments : List String) :
    Except UsageError (Reply × Directory) := do
  let command ← Command.ofArguments arguments
  let o := command.outcome d.read
  match o.save with
  | none => return (o.reply, d)
  | some (path, text) =>
    let written := d.write path text
    return (o.replyAfter written, written.toOption.getD d)

end Y86Toolkit.CommandLine
