import Y86Toolkit.CommandLine.Outcome
import Y86Toolkit.Proofs.ListingRoundTrip
import Y86Toolkit.Proofs.Paths
import Y86Toolkit.Proofs.CommandLines

/-!
Running a source and running its saved image. What a run answers depends on the
configuration and on the bytes of the program (`outcome_run`), wherever the files are
that hold them. The listing that assembling writes beside the source gives these bytes
again. So the replies are the same, whatever the run comes to. In a directory the
listing can always be written, and no other file changes with it (`assembled_here`).
-/

namespace Y86Toolkit.SavedImages
open CommandLine Assembly Fallible Paths CommandLines

variable {texts other after : Texts} {d : Directory} {path stem source : String} {options : RunOptions}
  {image : Image} {reply : Reply}

/-! ## Names of files -/

theorem isSource_iff : isSource path = true ↔ ".ys".toList <:+ path.toList := by
  rw [isSource, String.endsWith_eq_endsWith_toSlice, String.Slice.endsWith_string_iff, String.copy_toSlice]

theorem isSource_source (stem : String) : isSource (stem ++ ".ys") = true := by
  rw [isSource_iff, String.toList_append]
  exact List.suffix_append _ _

theorem isSource_listing (stem : String) : isSource (stem ++ ".yo") = false := by
  refine Bool.eq_false_iff.mpr fun named => ?_
  rw [isSource_iff, String.toList_append] at named
  have last := List.suffix_of_suffix_length_le named (List.suffix_append stem.toList ".yo".toList) (by decide)
  exact absurd last (by decide)

/-- The image stands beside its source, under the same name with another ending. -/
theorem imagePath_source (stem : String) : imagePath (stem ++ ".ys") = stem ++ ".yo" := by
  have front : stem.toList.length = (stem ++ ".ys").length - 3 := by
    rw [String.length_append, String.length_toList]
    rfl
  have taken : (stem ++ ".ys").toList.take ((stem ++ ".ys").length - 3) = stem.toList := by
    rw [String.toList_append]
    exact List.take_left' front
  rw [imagePath, if_pos (isSource_source stem), taken, String.ofList_toList]

theorem ending_source : Ending ".ys" := ⟨by decide, by decide, 'y', by decide, by decide⟩

theorem ending_listing : Ending ".yo" := ⟨by decide, by decide, 'y', by decide, by decide⟩

theorem plain_append (plain : stem.toList.head? ≠ some '-') {ending : String}
    (dotted : ending.toList.head? = some '.') : (stem ++ ending).toList.head? ≠ some '-' := by
  rw [String.toList_append, List.head?_append]
  cases first : stem.toList.head? <;> simp_all

/-! ## Programs -/

theorem sourceImage_ok (held : texts path = .ok source) (ran : assemble source = .ok image) :
    sourceImage texts path = .ok image := by
  rw [sourceImage, held]
  simp only [mapError_ok, bind, Except.bind, ran]

theorem program_source (held : texts (stem ++ ".ys") = .ok source) (ran : assemble source = .ok image) :
    program texts (stem ++ ".ys") = .ok image := by
  rw [program, if_pos (isSource_source stem), sourceImage_ok held ran]

/-- The listing of an assembled source holds the same program, without the labels. -/
theorem program_listing (held : texts (stem ++ ".yo") = .ok image.listing)
    (ran : assemble source = .ok image) :
    program texts (stem ++ ".yo") = .ok { image with symbols := {} } := by
  have readable : Image.ofListing image.listing = .ok { image with symbols := {} } :=
    ListingRoundTrip.ofListing_listing (ListingRoundTrip.listable_of_assemble ran)
  rw [program, isSource_listing, if_neg Bool.false_ne_true, listedImage, held]
  simp only [mapError_ok, bind, Except.bind, readable]

/-! ## Replies -/

theorem configuration_congr {path : Option String} {memorySize maxSteps : Option Word}
    (alike : ∀ file ∈ path, texts file = other file) :
    configuration texts path memorySize maxSteps = configuration other path memorySize maxSteps := by
  cases path with
  | none => rfl
  | some file => rw [configuration, configuration, alike file rfl]

/-- **The configuration and the bytes of the program decide what a run answers.** -/
theorem outcome_run {path' : String} {image' : Image}
    (alike : ∀ file ∈ options.configuration, texts file = other file)
    (held : program texts path = .ok image) (held' : program other path' = .ok image')
    (bytes : image.bytes = image'.bytes) :
    (Command.run path options).outcome texts = (Command.run path' options).outcome other := by
  have run (c : Configuration) : runImage c image options.trace options.json =
      runImage c image' options.trace options.json := by rw [runImage, runImage, bytes]
  rw [Command.outcome, Command.outcome, Command.attempt, Command.attempt, configuration_congr alike,
    held, held']
  simp only [bind, Except.bind, run]

/-- A run writes no file. -/
theorem save_run (texts : Texts) (path : String) (options : RunOptions) :
    ((Command.run path options).outcome texts).save = none := by
  rw [Command.outcome]
  cases ran : Command.attempt texts (.run path options) with
  | error failure => rfl
  | ok o =>
    obtain ⟨c, -, ran⟩ := bind_eq_ok.mp ran
    obtain ⟨image, -, ran⟩ := bind_eq_ok.mp ran
    obtain ⟨reply, -, ran⟩ := bind_eq_ok.mp ran
    cases pure_eq_ok.mp ran
    rfl

/-- Running a program with these options is answered like this where files hold these
texts, and writes no file. A log, if one is asked for, is no part of the answer. -/
structure Answers (texts : Texts) (path : String) (options : RunOptions) (reply : Reply) : Prop where
  /-- There is a command line that asks for it. -/
  asked : Command.ofArguments (line options path) = .ok (.run path options)
  /-- What comes of every command line that does. -/
  answered : (Command.run path options).outcome texts = { reply := reply }

theorem answers_outcome (plain : path.toList.head? ≠ some '-') (texts : Texts) (options : RunOptions) :
    Answers texts path options ((Command.run path options).outcome texts).reply := by
  refine ⟨ofArguments_line plain options, ?_⟩
  have unsaved := save_run texts path options
  cases ran : (Command.run path options).outcome texts with
  | mk reply save =>
    rw [ran] at unsaved
    exact congrArg (Outcome.mk reply) unsaved

/-- Programs with the same bytes are answered alike. -/
theorem Answers.transfer {path' : String} {image' : Image} (answers : Answers texts path options reply)
    (plain : path'.toList.head? ≠ some '-') (alike : ∀ file ∈ options.configuration, texts file = other file)
    (held : program texts path = .ok image) (held' : program other path' = .ok image')
    (bytes : image.bytes = image'.bytes) : Answers other path' options reply :=
  ⟨ofArguments_line plain options, (outcome_run alike held held' bytes).symm.trans answers.answered⟩

/-! ## Saving an image -/

/-- The reply to a source whose image was written. -/
def assembledReply (image : Image) (path : String) : Reply :=
  ⟨0, "✓ Assembled " ++ Numeral.decimal image.size ++ " bytes → " ++ path ++ "\n", ""⟩

/-- Assembling a source succeeds where files hold these texts, with the listing of its
image to be written beside it. -/
structure Saves (texts : Texts) (stem : String) (image : Image) : Prop where
  asked : Command.ofArguments ["asm", stem ++ ".ys"] = .ok (.assemble (stem ++ ".ys") none)
  saved : (Command.assemble (stem ++ ".ys") none).outcome texts =
    { reply := assembledReply image (stem ++ ".yo"), save := some (stem ++ ".yo", image.listing) }

theorem saves (plain : stem.toList.head? ≠ some '-') (held : texts (stem ++ ".ys") = .ok source)
    (ran : assemble source = .ok image) : Saves texts stem image := by
  refine ⟨ofArguments_assemble (plain_append plain rfl), ?_⟩
  simp only [Command.outcome, Command.attempt, sourceImage_ok held ran, bind, Except.bind, pure, Except.pure,
    Option.getD_none, imagePath_source]
  rfl

/-! ## In a directory -/

theorem execute_assemble {after : Directory} (saves : Saves d.read stem image)
    (written : d.write (stem ++ ".yo") image.listing = .ok after) :
    d.execute ["asm", stem ++ ".ys"] = .ok (assembledReply image (stem ++ ".yo"), after) := by
  rw [Directory.execute, saves.asked]
  simp only [bind, Except.bind, saves.saved, written]
  rfl

theorem execute_run {words : List String} (understood : Command.ofArguments words = .ok (.run path options))
    (answers : Answers d.read path options reply) : d.execute words = .ok (reply, d) := by
  rw [Directory.execute, understood]
  simp only [bind, Except.bind, answers.answered]
  rfl

/-- Assembling a source has led from one directory to the other. -/
structure AssembledHere (d after : Directory) (stem source : String) (image : Image) : Prop where
  answered : d.execute ["asm", stem ++ ".ys"] = .ok (assembledReply image (stem ++ ".yo"), after)
  listing : after.read (stem ++ ".yo") = .ok image.listing
  source : after.read (stem ++ ".ys") = .ok source
  /-- What is read at other paths has not changed. -/
  others : ∀ path, firstName? path ≠ firstName? (stem ++ ".yo") → after.read path = d.read path

/-- **A directory takes the listing**, and every other file in it stays what it was. -/
theorem assembled_here (plain : stem.toList.head? ≠ some '-') (held : d.read (stem ++ ".ys") = .ok source)
    (assembles : assemble source = .ok image) : ∃ after, AssembledHere d after stem source image := by
  obtain ⟨last, sourceAt, listingAt, short⟩ := read_ending held ending_source ending_listing rfl
  have fits : (last ++ ".yo").utf8ByteSize ≤ Directory.maxNameSize := by
    rw [String.utf8ByteSize_append] at short ⊢
    exact short
  obtain ⟨after, written, back, same⟩ := write_here listingAt fits image.listing
  have listed : firstName? (stem ++ ".yo") = some (last ++ ".yo") := (locate_here listingAt).2
  have unchanged (path : String) (apart : firstName? path ≠ firstName? (stem ++ ".yo")) :
      after.read path = d.read path := read_same same (listed ▸ apart)
  have still : after.read (stem ++ ".ys") = .ok source := by
    refine (unchanged _ ?_).trans held
    rw [(locate_here sourceAt).2, listed]
    simp
  exact ⟨after, execute_assemble (saves plain held assembles) written, back, still, unchanged⟩

/-! ## Both ways of running a program -/

/-- **A saved image runs as its source does.** Where a source can be read that has no
error, assembling it succeeds and writes the listing of its image beside it. As soon as
that listing is read there, running it comes to one reply with each choice of options,
whatever that is: a bad configuration, a program that does not fit into memory, a fault
or too many steps. This is the reply to the source as well, if the source is still there;
and it was before, if the configuration is still the same. None of this depends on where
the files are. In a directory the listing can be written, and it changes nothing else. -/
theorem saved_image_runs_alike (plain : stem.toList.head? ≠ some '-')
    (held : texts (stem ++ ".ys") = .ok source) (assembles : assemble source = .ok image) :
    Saves texts stem image ∧
    (∀ after : Texts, after (stem ++ ".yo") = .ok image.listing →
      ∀ options : RunOptions, ∃ reply : Reply,
        Answers after (stem ++ ".yo") options reply ∧
        (after (stem ++ ".ys") = .ok source → Answers after (stem ++ ".ys") options reply) ∧
        ((∀ file ∈ options.configuration, after file = texts file) →
          Answers texts (stem ++ ".ys") options reply)) ∧
    ∀ d : Directory, d.read = texts →
      ∃ after : Directory, AssembledHere d after stem source image ∧
        ∀ words path options reply, Command.ofArguments words = .ok (.run path options) →
          Answers after.read path options reply → after.execute words = .ok (reply, after) := by
  refine ⟨saves plain held assembles, fun after back options => ?_, ?_⟩
  · have listing := program_listing back assembles
    have listed : (stem ++ ".yo").toList.head? ≠ some '-' := plain_append plain rfl
    have named : (stem ++ ".ys").toList.head? ≠ some '-' := plain_append plain rfl
    have ofListing := answers_outcome listed after options
    refine ⟨_, ofListing, fun still => ?_, fun configured => ?_⟩
    · exact ofListing.transfer named (fun _ _ => rfl) listing (program_source still assembles) rfl
    · exact ofListing.transfer named configured listing (program_source held assembles) rfl
  · rintro d rfl
    obtain ⟨after, here⟩ := assembled_here plain held assembles
    exact ⟨after, here, fun _ _ _ _ => execute_run⟩

/-- A program that never ends. -/
def loopSource : String := "loop: jmp loop\n"

def loopImage : Image where
  bytes := #[0x70, 0, 0, 0, 0, 0, 0, 0, 0]
  lines := #[⟨0, 9, "loop: jmp loop"⟩]
  symbols := ({} : SymbolTable).insert "loop" 0

/-- It stands in a directory further in, and a configuration for less memory in another
one. -/
def loopTexts : Texts := fun path =>
  if path = "programs/loop.ys" then .ok loopSource
  else if path = "/etc/small.json" then .ok "\x7b\"memory_size\": 1000\x7d"
  else .error .missing

/-- The same with the listing beside the program. -/
def savedTexts : Texts := fun path =>
  if path = "programs/loop.yo" then .ok loopImage.listing else loopTexts path

/-- A directory that holds the program alone. -/
def loopFiles : Directory where
  files := ({} : Std.TreeMap String ByteArray).insert "loop.ys" loopSource.toUTF8

/-- Two steps in less memory, all of them shown. -/
def twoSteps : RunOptions where
  maxSteps := some 2
  configuration := some "/etc/small.json"
  trace := true

/-- Saved or not, the program reaches the limit of steps. -/
theorem saved_image_runs_alike_loop :
    loopTexts ("programs/loop" ++ ".ys") = .ok loopSource ∧ assemble loopSource = .ok loopImage ∧
      Saves loopTexts "programs/loop" loopImage ∧
      (∃ reply, reply.code = 2 ∧ Answers savedTexts ("programs/loop" ++ ".yo") twoSteps reply ∧
        Answers savedTexts ("programs/loop" ++ ".ys") twoSteps reply ∧
        Answers loopTexts ("programs/loop" ++ ".ys") twoSteps reply) ∧
      ∃ after, loopFiles.execute ["asm", "loop.ys"] =
          .ok (⟨0, "✓ Assembled 9 bytes → loop.yo\n", ""⟩, after) ∧
        after.read "loop.yo" = .ok loopImage.listing := by
  have held : loopTexts ("programs/loop" ++ ".ys") = .ok loopSource := by cbv
  have heldHere : loopFiles.read ("loop" ++ ".ys") = .ok loopSource := by cbv
  have assembles : assemble loopSource = .ok loopImage := by cbv
  obtain ⟨saves, alike, -⟩ := saved_image_runs_alike (by decide) held assembles
  obtain ⟨reply, ofImage, ofSource, before⟩ := alike savedTexts (if_pos rfl) twoSteps
  have configured : ∀ file ∈ twoSteps.configuration, savedTexts file = loopTexts file := by
    intro file named
    cases named
    exact if_neg (by decide)
  have code : ((Command.run ("programs/loop" ++ ".ys") twoSteps).outcome loopTexts).reply.code = 2 := by
    decide +kernel
  rw [(before configured).answered] at code
  obtain ⟨-, -, here⟩ := saved_image_runs_alike (by decide) heldHere assembles
  obtain ⟨after, saved, -⟩ := here loopFiles rfl
  exact ⟨held, assembles, saves, ⟨reply, code, ofImage, ofSource held, before configured⟩, after,
    saved.answered, saved.listing⟩

end Y86Toolkit.SavedImages
