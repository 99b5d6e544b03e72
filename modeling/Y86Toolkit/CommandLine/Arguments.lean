import Y86Toolkit.Text.Lines
import Y86Toolkit.Text.Numeral
import Y86Toolkit.Word

/-!
Command line arguments: options and an operand. An option has a long name behind
two dashes and perhaps a letter behind one. Letters may stand together, and the
value of an option is the next argument or what is attached to its name. Behind
two dashes alone everything is an operand. Arguments are read from left to
right, so of several mistakes the first one counts, and a request is answered
whatever mistakes stand behind it.
-/

namespace Y86Toolkit.CommandLine

/-- Why a command line is rejected. -/
inductive UsageError where
  | missingCommand
  | unknownCommand (name : String)
  | unknownOption (name : String)
  | missingValue (option : String)
  | unexpectedValue (option : String)
  | repeatedOption (option : String)
  | notANumber (option value : String)
  | missingOperand (name : String)
  | unexpectedOperand (text : String)
  deriving DecidableEq, Repr

/-- The wording of each cause. -/
def UsageError.message : UsageError → String
  | missingCommand => "a command is required"
  | unknownCommand name => "there is no command '" ++ name ++ "'"
  | unknownOption name => "unexpected option '" ++ name ++ "'"
  | missingValue option => "the option '--" ++ option ++ "' needs a value"
  | unexpectedValue option => "the option '--" ++ option ++ "' takes no value"
  | repeatedOption option => "the option '--" ++ option ++ "' cannot be used more than once"
  | notANumber option value =>
    "the value '" ++ value ++ "' of the option '--" ++ option ++ "' is no number"
  | missingOperand name => "the operand <" ++ name ++ "> is required"
  | unexpectedOperand text => "unexpected operand '" ++ text ++ "'"

/-- What an option takes, and how often it may be given. -/
inductive OptionKind where
  /-- No value, at most once. -/
  | flag
  /-- No value, any number of times. -/
  | counted
  /-- A text, at most once. -/
  | text
  /-- A number, at most once. -/
  | number
  /-- No value. What it asks for is answered at once, and nothing behind it is
  read. -/
  | request
  deriving DecidableEq, Repr

/-- An option that a command understands. -/
structure OptionForm where
  name : String
  letter : Option Char := none
  kind : OptionKind
  deriving DecidableEq, Repr

/-- One argument, by its dashes. A dash alone is an operand. -/
inductive Argument where
  /-- Two dashes alone. -/
  | separator
  | named (name : String) (value : Option String)
  | letters (letters : List Char)
  | operand (text : String)
  deriving DecidableEq, Repr

/-- Tells an argument's kind. -/
def Argument.ofString (text : String) : Argument :=
  match text.toList with
  | ['-', '-'] => separator
  | '-' :: '-' :: rest =>
    match Text.splitAtFirst '=' rest with
    | some (name, value) => named (String.ofList name) (some (String.ofList value))
    | none => named (String.ofList rest) none
  | '-' :: first :: rest => letters (first :: rest)
  | _ => operand text

/-- The value of an option that was given. -/
inductive OptionValue where
  | absent
  | text (value : String)
  | number (value : Word)
  deriving DecidableEq, Repr

/-- An option that was given. -/
structure GivenOption where
  form : OptionForm
  value : OptionValue
  deriving DecidableEq, Repr

/-- Options in the order in which they were given, and the operand. -/
structure Arguments where
  options : List GivenOption := []
  operand? : Option String := none
  deriving DecidableEq, Repr

/-- How far arguments have been read. -/
inductive Progress where
  /-- Everything was read; the last option may wait for its value. -/
  | reading (a : Arguments) (waiting : Option OptionForm)
  /-- An option asked for an answer. -/
  | requested (form : OptionForm)
  deriving DecidableEq, Repr

namespace Arguments

/-- An option was given. -/
def has (a : Arguments) (name : String) : Bool := a.options.any (·.form.name == name)

/-- The value of an option, if it was given. -/
def value? (a : Arguments) (name : String) : Option OptionValue :=
  (a.options.find? (·.form.name == name)).map (·.value)

/-- The value of an option that takes a text. -/
def text? (a : Arguments) (name : String) : Option String :=
  match a.value? name with
  | some (.text value) => some value
  | _ => none

/-- The value of an option that takes a number. -/
def number? (a : Arguments) (name : String) : Option Word :=
  match a.value? name with
  | some (.number value) => some value
  | _ => none

/-- The operand of a command that needs one. -/
def operand (a : Arguments) (name : String) : Except UsageError String :=
  match a.operand? with
  | some operand => .ok operand
  | none => .error (.missingOperand name)

/-- Adds an option with its value. -/
def give (a : Arguments) (form : OptionForm) (value : OptionValue) : Except UsageError Arguments :=
  if form.kind ≠ .counted ∧ a.has form.name then .error (.repeatedOption form.name)
  else .ok { a with options := a.options ++ [⟨form, value⟩] }

/-- Adds an option whose value is the number or the text that is written. -/
def giveWritten (a : Arguments) (form : OptionForm) (written : String) :
    Except UsageError Arguments :=
  match form.kind with
  | .text => a.give form (.text written)
  | .number =>
    match Numeral.read 10 (Word.limit Word.width) written.toList with
    | .ok n => a.give form (.number (UInt64.ofNat n))
    | .error _ => .error (.notANumber form.name written)
  | _ => .error (.unexpectedValue form.name)

/-- Adds an option to which no value is attached. -/
def giveAlone (a : Arguments) (form : OptionForm) : Except UsageError Progress :=
  match form.kind with
  | .text | .number => .ok (.reading a (some form))
  | .request => .ok (.requested form)
  | .flag | .counted => do return .reading (← a.give form .absent) none

/-- Adds an operand; there is room for one. -/
def giveOperand (a : Arguments) (operand : String) : Except UsageError Arguments :=
  match a.operand? with
  | none => .ok { a with operand? := some operand }
  | some _ => .error (.unexpectedOperand operand)

/-- Reads letters that stand together. Behind the letter of an option that takes
a value stands that value. -/
def readLetters (forms : List OptionForm) (a : Arguments) :
    List Char → Except UsageError Progress
  | [] => .ok (.reading a none)
  | letter :: rest =>
    match forms.find? (·.letter == some letter) with
    | none => .error (.unknownOption (String.ofList ['-', letter]))
    | some form =>
      if form.kind = .text ∨ form.kind = .number then
        match rest with
        | [] => a.giveAlone form
        | '=' :: value => do return .reading (← a.giveWritten form (String.ofList value)) none
        | value => do return .reading (← a.giveWritten form (String.ofList value)) none
      else do
        match ← a.giveAlone form with
        | .reading more _ => readLetters forms more rest
        | requested => return requested

/-- Reads an option that is given by its name. -/
def readNamed (forms : List OptionForm) (a : Arguments) (name : String) (value : Option String) :
    Except UsageError Progress :=
  match forms.find? (·.name == name), value with
  | none, _ => .error (.unknownOption ("--" ++ name))
  | some form, some value => do return .reading (← a.giveWritten form value) none
  | some form, none => a.giveAlone form

/-- Reads arguments, the first of which may be the value that an option waits
for. -/
def read (forms : List OptionForm) (a : Arguments) (waiting : Option OptionForm) :
    List String → Except UsageError Progress
  | [] =>
    match waiting with
    | some form => .error (.missingValue form.name)
    | none => .ok (.reading a none)
  | text :: rest =>
    match waiting, Argument.ofString text with
    | some form, .operand value => do read forms (← a.giveWritten form value) none rest
    | some form, _ => .error (.missingValue form.name)
    | none, .separator => do return .reading (← rest.foldlM giveOperand a) none
    | none, .operand operand => do read forms (← a.giveOperand operand) none rest
    | none, .named name value => do
      match ← a.readNamed forms name value with
      | .reading more waiting => read forms more waiting rest
      | requested => return requested
    | none, .letters letters => do
      match ← a.readLetters forms letters with
      | .reading more waiting => read forms more waiting rest
      | requested => return requested

end Arguments

end Y86Toolkit.CommandLine
