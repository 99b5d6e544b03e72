import Mathlib.Data.List.Nodup
import Y86Toolkit.CommandLine.Command
import Y86Toolkit.Proofs.PrintedLines

/-!
Command lines written out. Each option is a word of its own, with its value attached
to its name, and whoever reads such words finds the options again (`read_words`). So
a program can be run with every choice of options (`ofArguments_line`).
-/

namespace Y86Toolkit.CommandLines
open CommandLine

variable {forms : List OptionForm} {a : Arguments} {option : GivenOption} {name value text : String}

/-! ## Words -/

theorem ofString_operand (plain : text.toList.head? ≠ some '-') : Argument.ofString text = .operand text := by
  unfold Argument.ofString
  split <;> simp_all

/-- What stands behind two dashes names an option, and perhaps its value. -/
theorem ofString_dashes {rest : List Char} (letters : text.toList = '-' :: '-' :: rest) (full : rest ≠ []) :
    Argument.ofString text =
      match Text.splitAtFirst '=' rest with
      | some (name, value) => .named (String.ofList name) (some (String.ofList value))
      | none => .named (String.ofList rest) none := by
  obtain ⟨c, tail, rfl⟩ := List.exists_cons_of_ne_nil full
  rw [Argument.ofString, letters]
  rfl

theorem ofString_alone (plain : '=' ∉ name.toList) (full : name ≠ "") :
    Argument.ofString ("--" ++ name) = .named name none := by
  have unsplit : Text.splitAtFirst '=' name.toList = none := by
    refine Option.eq_none_iff_forall_ne_some.mpr fun parts found => plain ?_
    rw [Texts.splitAtFirst_eq_some found]
    simp
  rw [ofString_dashes (by simp) (mt String.toList_eq_nil_iff.mp full), unsplit, String.ofList_toList]

theorem ofString_valued (plain : '=' ∉ name.toList) :
    Argument.ofString ("--" ++ name ++ "=" ++ value) = .named name (some value) := by
  have letters : ("--" ++ name ++ "=" ++ value).toList =
      '-' :: '-' :: (name.toList ++ '=' :: value.toList) := by simp
  rw [ofString_dashes letters (by simp), Texts.splitAtFirst_append plain]
  simp only [String.ofList_toList]

/-- The word for an option. -/
def word (option : GivenOption) : String :=
  match option.value with
  | .absent => "--" ++ option.form.name
  | .text value => "--" ++ option.form.name ++ "=" ++ value
  | .number value => "--" ++ option.form.name ++ "=" ++ Numeral.decimal value.toNat

/-- The kind of option takes such a value. -/
def Takes : OptionKind → OptionValue → Prop
  | .flag, .absent | .counted, .absent | .text, .text _ | .number, .number _ => True
  | _, _ => False

/-- An option that a command with these forms understands. -/
structure Understood (forms : List OptionForm) (option : GivenOption) : Prop where
  known : forms.find? (·.name == option.form.name) = some option.form
  full : option.form.name ≠ ""
  plain : '=' ∉ option.form.name.toList
  takes : Takes option.form.kind option.value

/-! ## Reading words -/

theorem give_fresh {form : OptionForm} {value : OptionValue} (fresh : a.has form.name = false) :
    a.give form value = .ok { a with options := a.options ++ [⟨form, value⟩] } := by
  simp [Arguments.give, fresh]

theorem read_decimal (w : Word) :
    Numeral.read 10 (Word.limit Word.width) (Numeral.decimal w.toNat).toList = .ok w.toNat := by
  rw [PrintedLines.toList_decimal]
  exact (Numerals.read_eq_ok_iff (by decide)).mpr
    ⟨_, .inl rfl, Nat.toDigits_ne_nil, Numerals.denotes_toDigits (by decide) (by decide) _, w.toNat_lt⟩

theorem read_named {more : Arguments} {value : Option String}
    (named : Argument.ofString text = .named name value)
    (gives : a.readNamed forms name value = .ok (.reading more none)) (rest : List String) :
    Arguments.read forms a none (text :: rest) = Arguments.read forms more none rest := by
  rw [Arguments.read.eq_def]
  simp only [named, gives]
  rfl

/-- A text without a dash in front is the operand, if there was none before. -/
theorem read_operand (plain : text.toList.head? ≠ some '-') (free : a.operand? = none) :
    Arguments.read forms a none [text] = .ok (.reading { a with operand? := some text } none) := by
  rw [Arguments.read.eq_def]
  simp only [ofString_operand plain, Arguments.giveOperand, free]
  rfl

/-- **A word gives its option**, if the option was not given before. -/
theorem read_word (understood : Understood forms option) (fresh : a.has option.form.name = false)
    (rest : List String) :
    Arguments.read forms a none (word option :: rest) =
      Arguments.read forms { a with options := a.options ++ [option] } none rest := by
  obtain ⟨form, value⟩ := option
  obtain ⟨known, full, plain, takes⟩ := understood
  cases value with
  | absent =>
    refine read_named (ofString_alone plain full) ?_ rest
    simp only [Arguments.readNamed, known]
    cases kind : form.kind <;> simp_all [Takes, Arguments.giveAlone, give_fresh fresh]
  | text value =>
    refine read_named (ofString_valued plain) ?_ rest
    simp only [Arguments.readNamed, known]
    cases kind : form.kind <;> simp_all [Takes, Arguments.giveWritten, give_fresh fresh]
  | number value =>
    refine read_named (ofString_valued plain) ?_ rest
    simp only [Arguments.readNamed, known]
    cases kind : form.kind <;> simp_all [Takes, Arguments.giveWritten, read_decimal, give_fresh fresh]

/-- **Words give the options that they are for**, one behind the other, if no two of
them have the same name. -/
theorem read_words {options : List GivenOption} (understood : ∀ option ∈ options, Understood forms option)
    (distinct : ((a.options ++ options).map (·.form.name)).Nodup) (rest : List String) :
    Arguments.read forms a none (options.map word ++ rest) =
      Arguments.read forms { a with options := a.options ++ options } none rest := by
  induction options generalizing a with
  | nil => simp
  | cons option options ih =>
    obtain ⟨first, others⟩ := List.forall_mem_cons.mp understood
    have fresh : a.has option.form.name = false := by
      rw [List.map_append, List.map_cons] at distinct
      have apart := (List.nodup_middle.mp distinct).notMem
      rw [Arguments.has, List.any_eq_false]
      intro other held same
      refine apart (List.mem_append_left _ ?_)
      rw [← beq_iff_eq.mp same]
      exact List.mem_map_of_mem held
    rw [List.map_cons, List.cons_append, read_word first fresh, ih others (by simpa using distinct)]
    simp

/-- A source is assembled when it is named behind the command. -/
theorem ofArguments_assemble (plain : text.toList.head? ≠ some '-') :
    Command.ofArguments ["asm", text] = .ok (.assemble text none) := by
  have ran : Command.ofArguments ["asm", text] =
      Command.readWith [⟨"output", some 'o', .text⟩] [text] fun a => do
        return .assemble (← a.operand "source") (a.text? "output") := rfl
  rw [ran, Command.readWith, read_operand plain rfl]
  rfl

/-! ## Running a program -/

def maxStepsForm : OptionForm := ⟨"max-steps", some 'm', .number⟩

def memorySizeForm : OptionForm := ⟨"memory-size", none, .number⟩

def traceForm : OptionForm := ⟨"trace", some 't', .flag⟩

def jsonForm : OptionForm := ⟨"json", none, .flag⟩

/-- What the command that runs a program understands. -/
def runForms : List OptionForm :=
  [Command.verboseForm, Command.helpForm, maxStepsForm, memorySizeForm, Command.configurationForm, traceForm,
    jsonForm]

/-- What is given for a choice of options. -/
def given (options : RunOptions) : List GivenOption :=
  options.maxSteps.toList.map (⟨maxStepsForm, .number ·⟩) ++
    options.memorySize.toList.map (⟨memorySizeForm, .number ·⟩) ++
    options.configuration.toList.map (⟨Command.configurationForm, .text ·⟩) ++
    (if options.trace then [⟨traceForm, .absent⟩] else []) ++
    (if options.json then [⟨jsonForm, .absent⟩] else [])

/-- The command line that runs a program with these options. -/
def line (options : RunOptions) (program : String) : List String :=
  "run" :: ((given options).map word ++ [program])

theorem named_runForms : ∀ form ∈ runForms,
    runForms.find? (·.name == form.name) = some form ∧ form.name ≠ "" ∧ '=' ∉ form.name.toList := by
  decide

theorem understood_given (options : RunOptions) : ∀ option ∈ given options, Understood runForms option := by
  intro option held
  have shape : option.form ∈ runForms ∧ Takes option.form.kind option.value := by
    simp only [given, List.mem_append, List.mem_map, Option.mem_toList, List.mem_ite_nil_right,
      List.mem_singleton] at held
    rcases held with (((⟨n, -, rfl⟩ | ⟨n, -, rfl⟩) | ⟨file, -, rfl⟩) | ⟨-, rfl⟩) | ⟨-, rfl⟩ <;>
      exact ⟨by simp [runForms], trivial⟩
  obtain ⟨known, full, plain⟩ := named_runForms option.form shape.1
  exact ⟨known, full, plain, shape.2⟩

theorem distinct_given (options : RunOptions) : ((given options).map (·.form.name)).Nodup := by
  obtain ⟨maxSteps, memorySize, configuration, trace, json⟩ := options
  cases maxSteps <;> cases memorySize <;> cases configuration <;> cases trace <;> cases json <;>
    simp [given, maxStepsForm, memorySizeForm, Command.configurationForm, traceForm, jsonForm]

/-- The choice of options that arguments stand for. -/
def chosen (a : Arguments) : RunOptions where
  maxSteps := a.number? "max-steps"
  memorySize := a.number? "memory-size"
  configuration := a.text? "config"
  trace := a.has "trace"
  json := a.has "json"

theorem chosen_given (options : RunOptions) (operand? : Option String) :
    chosen ⟨given options, operand?⟩ = options := by
  obtain ⟨maxSteps, memorySize, configuration, trace, json⟩ := options
  cases maxSteps <;> cases memorySize <;> cases configuration <;> cases trace <;> cases json <;> rfl

/-- **Every program can be run with every choice of options.** -/
theorem ofArguments_line {program : String} (plain : program.toList.head? ≠ some '-') (options : RunOptions) :
    Command.ofArguments (line options program) = .ok (.run program options) := by
  have words := read_words (a := {}) (understood_given options) (distinct_given options) [program]
  have ran : Command.ofArguments (line options program) =
      Command.readWith (runForms.drop 2) ((given options).map word ++ [program]) fun a => do
        return .run (← a.operand "program") (chosen a) := rfl
  rw [ran, Command.readWith]
  have forms : Command.verboseForm :: Command.helpForm :: runForms.drop 2 = runForms := rfl
  rw [forms, words, List.nil_append, read_operand plain rfl]
  exact congrArg (fun options => Except.ok (Command.run program options)) (chosen_given options _)

end Y86Toolkit.CommandLines
