import Y86Toolkit.CommandLine.Arguments

/-!
The commands and their options. The option `-v` may be given anywhere and any
number of times; it asks for a log, which is no part of what a command
answers.
-/

namespace Y86Toolkit.CommandLine

/-- How a program is to be run. -/
structure RunOptions where
  maxSteps : Option Word := none
  memorySize : Option Word := none
  /-- The file with the configuration. -/
  configuration : Option String := none
  /-- Show every step. -/
  trace : Bool := false
  /-- Show the machine as a snapshot afterwards. -/
  json : Bool := false
  deriving DecidableEq, Repr

/-- A command with its options. -/
inductive Command where
  | version
  | help
  | run (program : String) (options : RunOptions)
  | debug (program : String) (configuration : Option String)
  | assemble (source : String) (output : Option String)
  | disassemble (image : String)
  deriving DecidableEq, Repr

namespace Command

/-- The option that asks for a log. -/
def verboseForm : OptionForm := ⟨"verbose", some 'v', .counted⟩

/-- The option that asks for help. -/
def helpForm : OptionForm := ⟨"help", some 'h', .request⟩

/-- The option that names a file with a configuration. -/
def configurationForm : OptionForm := ⟨"config", some 'c', .text⟩

/-- The option that asks for the version. -/
def versionForm : OptionForm := ⟨"version", some 'V', .request⟩

/-- The options in front of a command's name. -/
def generalForms : List OptionForm := [verboseForm, helpForm, versionForm]

/-- The names of the commands. -/
def names : List String := ["run", "debug", "asm", "disasm", "help"]

/-- The command that a request stands for. -/
def ofRequest (form : OptionForm) : Command := if form = versionForm then version else help

/-- Reads what stands behind the name of a command that has these options of its
own. -/
def readWith (forms : List OptionForm) (words : List String)
    (command : Arguments → Except UsageError Command) : Except UsageError Command := do
  match ← Arguments.read (verboseForm :: helpForm :: forms) {} none words with
  | .reading a _ => command a
  | .requested form => return ofRequest form

/-- Reads what stands behind the name of a command. -/
def ofName (name : String) (words : List String) : Except UsageError Command :=
  match name with
  | "run" =>
    readWith [⟨"max-steps", some 'm', .number⟩, ⟨"memory-size", none, .number⟩, configurationForm,
        ⟨"trace", some 't', .flag⟩, ⟨"json", none, .flag⟩] words fun a => do
      return run (← a.operand "program") {
        maxSteps := a.number? "max-steps"
        memorySize := a.number? "memory-size"
        configuration := a.text? "config"
        trace := a.has "trace"
        json := a.has "json" }
  | "debug" =>
    readWith [configurationForm] words fun a => do
      return debug (← a.operand "program") (a.text? "config")
  | "asm" =>
    readWith [⟨"output", some 'o', .text⟩] words fun a => do
      return assemble (← a.operand "source") (a.text? "output")
  | "disasm" => readWith [] words fun a => do return disassemble (← a.operand "image")
  | "help" =>
    match words with
    | [] => .ok help
    | [about] => if about ∈ names then .ok help else .error (.unknownCommand about)
    | _ :: extra :: _ => .error (.unknownCommand extra)
  | _ => .error (.unknownCommand name)

/-- Reads a command line. In front of the command's name only options that every
command has may stand, and requests. -/
def ofArguments : List String → Except UsageError Command
  | [] => .error .missingCommand
  | text :: rest =>
    match Argument.ofString text with
    | .operand name => ofName name rest
    | .separator => .error .missingCommand
    | .named name value => do
      match ← Arguments.readNamed generalForms {} name value with
      | .reading _ _ => ofArguments rest
      | .requested form => return ofRequest form
    | .letters letters => do
      match ← Arguments.readLetters generalForms {} letters with
      | .reading _ _ => ofArguments rest
      | .requested form => return ofRequest form

end Command

end Y86Toolkit.CommandLine
