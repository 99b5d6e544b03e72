import Mathlib.Data.List.Basic
import Y86Toolkit.Assembly.Statement
import Y86Toolkit.Proofs.Fallible

/-!
The words of a statement. Blanks and commas stand between them, in any number
and order, and reading a statement depends on its words alone: the first is its
name, in any case, and the others are its operands.
-/

namespace Y86Toolkit.Assembly

/-- What stands between words. -/
def Separates (c : Char) : Prop := Text.isBlank c = true ∨ c = ','

instance (c : Char) : Decidable (Separates c) := inferInstanceAs (Decidable (_ ∨ _))

/-- The words of a text are its longest runs of characters that do not separate. -/
inductive Words : List Char → List (List Char) → Prop where
  | nil : Words [] []
  | skip {c : Char} {rest : List Char} {words : List (List Char)} (separates : Separates c)
      (behind : Words rest words) : Words (c :: rest) words
  | word {word rest : List Char} {words : List (List Char)} (some : word ≠ [])
      (solid : ∀ c ∈ word, ¬ Separates c) (ends : ∀ c ∈ rest.head?, Separates c)
      (behind : Words rest words) : Words (word ++ rest) (word :: words)

/-- A text with small letters. -/
def lowered (text : String) : String := String.ofList (text.toList.map Char.toLower)

/-- The names of statements that are no instructions. -/
def directives : List String := [".pos", ".align", ".quad", ".byte"]

/-- The statement that a name and operands spell. Directives for locations take a number,
those for data one operand, and instructions as many as their name calls for. -/
inductive Statement.Spelled (name : String) : List String → Statement → Prop where
  | origin {operand : String} {w : Word} (named : lowered name = ".pos")
      (number : Literal.read operand.toList = .value w) : Spelled name [operand] (.origin w.toNat)
  | align {operand : String} {w : Word} (named : lowered name = ".align")
      (number : Literal.read operand.toList = .value w) (some : w.toNat ≠ 0) :
      Spelled name [operand] (.align w.toNat)
  | quad {operand : String} (named : lowered name = ".quad") : Spelled name [operand] (.quad operand)
  | byte {operand : String} (named : lowered name = ".byte") : Spelled name [operand] (.byte operand)
  | instruction {mnemonic : Mnemonic} {operands : List String} (named : lowered name = mnemonic.name)
      (count : operands.length = mnemonic.arity) : Spelled name operands (.instruction mnemonic operands)

end Y86Toolkit.Assembly

namespace Y86Toolkit.Words
open Assembly Text

/-! ## Fields -/

private theorem go_done (cs run : List Char) (done : List (List Char)) :
    fields.go run done cs = done.reverse ++ fields.go run [] cs := by
  induction cs generalizing run done with
  | nil =>
    simp only [fields.go, fields.close]
    split <;> simp
  | cons c rest ih =>
    simp only [fields.go]
    split
    · rw [ih, ih [] (fields.close run [])]
      simp only [fields.close]
      split <;> simp
    · exact ih (c :: run) done

private theorem go_solid {word : List Char} (solid : ∀ c ∈ word, isBlank c = false)
    (run rest : List Char) :
    fields.go run [] (word ++ rest) = fields.go (word.reverse ++ run) [] rest := by
  induction word generalizing run with
  | nil => rfl
  | cons c word ih =>
    obtain ⟨first, solid⟩ := List.forall_mem_cons.mp solid
    rw [List.cons_append, fields.go, first]
    simpa using ih solid (c :: run)

theorem fields_blank {c : Char} (blank : isBlank c = true) (rest : List Char) :
    fields (c :: rest) = fields rest := by
  simp [fields, fields.go, fields.close, blank]

theorem fields_word {word rest : List Char} (some : word ≠ []) (solid : ∀ c ∈ word, isBlank c = false)
    (ends : ∀ c ∈ rest.head?, isBlank c = true) : fields (word ++ rest) = word :: fields rest := by
  have reversed : word.reverse.isEmpty = false := by simpa using some
  rw [fields, go_solid solid, List.append_nil]
  cases rest with
  | nil => simp [fields.go, fields.close, fields, reversed]
  | cons c rest =>
    rw [fields.go, ends c rfl, if_pos rfl, go_done, fields_blank (ends c rfl), fields]
    simp [fields.close, reversed]

/-! ## Words -/

/-- Commas count as blanks. -/
def spaced (code : List Char) : List Char := code.map fun c => if c = ',' then ' ' else c

theorem isBlank_spaced (c : Char) : isBlank (if c = ',' then ' ' else c) = true ↔ Separates c := by
  unfold Separates
  split
  · simp_all only [or_true, iff_true]
    decide
  · simp_all

theorem spaced_solid {word : List Char} (solid : ∀ c ∈ word, ¬ Separates c) : spaced word = word := by
  refine (List.map_congr_left fun c held => ?_).trans (List.map_id word)
  rw [if_neg fun comma => solid c held (.inr comma)]
  rfl

theorem fields_of_words {code : List Char} {words : List (List Char)} (inside : Assembly.Words code words) :
    fields (spaced code) = words := by
  induction inside with
  | nil => rfl
  | skip separates behind ih =>
    rw [spaced, List.map_cons, fields_blank ((isBlank_spaced _).mpr separates)]
    exact ih
  | @word word rest words some solid ends behind ih =>
    have whole : spaced (word ++ rest) = word ++ spaced rest := by
      rw [spaced, List.map_append, ← spaced, ← spaced, spaced_solid solid]
    have blankFree : ∀ c ∈ word, isBlank c = false := by
      intro c held
      simpa using fun blank => solid c held (.inl blank)
    rw [whole, fields_word some blankFree, ih]
    intro c first
    rw [spaced, List.head?_map, Option.mem_def, Option.map_eq_some_iff] at first
    obtain ⟨d, front, rfl⟩ := first
    exact (isBlank_spaced d).mpr (ends d front)

/-- A text goes up to the first separator and on behind it. -/
theorem exists_run (code : List Char) :
    ∃ run rest, code = run ++ rest ∧ (∀ c ∈ run, ¬ Separates c) ∧ ∀ c ∈ rest.head?, Separates c := by
  induction code with
  | nil => exact ⟨[], [], rfl, nofun, nofun⟩
  | cons c code ih =>
    by_cases separates : Separates c
    · refine ⟨[], c :: code, rfl, nofun, ?_⟩
      rintro d ⟨⟩
      exact separates
    · obtain ⟨run, rest, rfl, solid, ends⟩ := ih
      exact ⟨c :: run, rest, rfl, List.forall_mem_cons.mpr ⟨separates, solid⟩, ends⟩

/-- Every text has words. -/
theorem exists_words (code : List Char) : ∃ words, Assembly.Words code words := by
  match code with
  | [] => exact ⟨[], .nil⟩
  | c :: rest =>
    by_cases separates : Separates c
    · obtain ⟨words, behind⟩ := exists_words rest
      exact ⟨words, .skip separates behind⟩
    · obtain ⟨run, others, same, solid, ends⟩ := exists_run rest
      obtain ⟨words, behind⟩ := exists_words others
      rw [same, ← List.cons_append]
      exact ⟨_, .word (List.cons_ne_nil c run) (List.forall_mem_cons.mpr ⟨separates, solid⟩) ends behind⟩
termination_by code.length
decreasing_by
  · simp
  · simp only [same, List.length_cons, List.length_append]
    omega

/-- **The fields of a statement are its words.** -/
theorem fields_spaced_iff {code : List Char} {words : List (List Char)} :
    fields (spaced code) = words ↔ Assembly.Words code words := by
  constructor
  · rintro rfl
    obtain ⟨words, inside⟩ := exists_words code
    rw [fields_of_words inside]
    exact inside
  · exact fields_of_words

/-- Separators in front of a text do not count. -/
theorem words_front {code run : List Char} {words : List (List Char)} (separates : ∀ c ∈ run, Separates c)
    (inside : Assembly.Words code words) : Assembly.Words (run ++ code) words := by
  induction run with
  | nil => exact inside
  | cons c run ih =>
    obtain ⟨first, others⟩ := List.forall_mem_cons.mp separates
    exact .skip first (ih others)

/-- Nor do separators behind it. -/
theorem words_behind {code run : List Char} {words : List (List Char)} (separates : ∀ c ∈ run, Separates c)
    (inside : Assembly.Words code words) : Assembly.Words (code ++ run) words := by
  induction inside with
  | nil => simpa using words_front separates .nil
  | skip first _ ih => exact .skip first ih
  | @word word rest _ some solid ends _ ih =>
    rw [List.append_assoc]
    refine .word some solid (fun c first => ?_) ih
    cases rest with
    | nil => exact separates c (List.mem_of_mem_head? first)
    | cons d rest => exact ends c first

/-- Behind a separator the words of another text go on. -/
theorem words_append {front behind : List Char} {words others : List (List Char)}
    (inside : Assembly.Words front words) (ends : ∀ c ∈ front.getLast?, Separates c)
    (rest : Assembly.Words behind others) : Assembly.Words (front ++ behind) (words ++ others) := by
  induction inside with
  | nil => exact rest
  | @skip c cs words separates _ ih =>
    refine .skip separates (ih fun d last => ends d ?_)
    rw [List.getLast?_cons, Option.mem_def.mp last]
    rfl
  | @word word cs words some solid starts _ ih =>
    -- A word does not end with a separator, so there is more behind it.
    have more : cs ≠ [] := by
      rintro rfl
      rw [List.append_nil] at ends
      exact solid _ (List.getLast_mem some) (ends _ (List.getLast?_eq_some_getLast some))
    rw [List.append_assoc, List.cons_append]
    refine .word some solid ?_ (ih ?_)
    · rwa [List.head?_append_of_ne_nil _ more]
    · rwa [List.getLast?_append_of_ne_nil _ more] at ends

/-- A text is taken apart around one of its words. -/
theorem words_split {code word : List Char} {names later : List (List Char)}
    (inside : Assembly.Words code (names ++ word :: later)) :
    ∃ lead rest, code = lead ++ word ++ rest ∧ Assembly.Words lead names ∧
      (∀ c ∈ lead.getLast?, Separates c) ∧ (∀ c ∈ rest.head?, Separates c) ∧
      word ≠ [] ∧ ∀ c ∈ word, ¬ Separates c := by
  generalize all : names ++ word :: later = words at inside
  induction inside generalizing names with
  | nil => simp at all
  | @skip c code words separates behind ih =>
    obtain ⟨lead, rest, rfl, front, ends, starts, solid⟩ := ih all
    refine ⟨c :: lead, rest, rfl, .skip separates front, fun d last => ?_, starts, solid⟩
    cases lead with
    | nil =>
      cases last
      exact separates
    | cons e lead => exact ends d (by simpa using last)
  | @word first code words some solidFirst startsFirst behind ih =>
    cases names with
    | nil =>
      obtain ⟨rfl, rfl⟩ := List.cons.inj all
      exact ⟨[], code, rfl, .nil, nofun, startsFirst, some, solidFirst⟩
    | cons name names =>
      obtain ⟨rfl, rfl⟩ := List.cons.inj all
      obtain ⟨lead, rest, rfl, front, ends, starts, full, solid⟩ := ih rfl
      -- There is something between two words.
      have more : lead ≠ [] := by
        rintro rfl
        obtain ⟨c, others, rfl⟩ := List.exists_cons_of_ne_nil full
        exact solid c List.mem_cons_self (startsFirst c rfl)
      refine ⟨name ++ lead, rest, by simp, .word some solidFirst ?_ front, ?_, starts, full, solid⟩
      · intro c first
        refine startsFirst c ?_
        rwa [List.append_assoc, List.head?_append_of_ne_nil _ more]
      · rwa [List.getLast?_append_of_ne_nil _ more]

/-- Where something does not separate, there is a word. -/
theorem ne_nil_of_solid {code : List Char} {words : List (List Char)} (inside : Assembly.Words code words)
    {c : Char} (held : c ∈ code) (solid : ¬ Separates c) : words ≠ [] := by
  induction inside with
  | nil => cases held
  | skip separates behind ih =>
    rcases List.mem_cons.mp held with rfl | held
    · exact absurd separates solid
    · exact ih held
  | word => exact List.cons_ne_nil _ _

/-! ## Statements -/

/-- A statement without words is none, and otherwise the first one is its name. -/
theorem read_of_words {code : List Char} {words : List (List Char)} (inside : Assembly.Words code words) :
    Statement.read code = match words.map String.ofList with
      | [] => .ok .empty
      | name :: operands => Statement.ofFields name operands := by
  rw [← fields_of_words inside]
  rfl

/-- A statement is read from its words. -/
theorem read_words {code : List Char} {name : String} {operands : List String}
    (inside : Assembly.Words code ((name :: operands).map String.toList)) :
    Statement.read code = Statement.ofFields name operands := by
  have found : fields (code.map fun c => if c = ',' then ' ' else c) =
      (name :: operands).map String.toList := fields_of_words inside
  have back : ((name :: operands).map String.toList).map String.ofList = name :: operands := by simp
  rw [Statement.read, found, back]

/-- No mnemonic is left out. -/
theorem mem_all (mnemonic : Mnemonic) : mnemonic ∈ Mnemonic.all := by
  cases mnemonic with
  | move condition | jump condition => cases condition <;> decide
  | alu op => cases op <;> decide
  | _ => decide

theorem ofName?_name (mnemonic : Mnemonic) : Mnemonic.ofName? mnemonic.name = some mnemonic := by
  have every : ∀ m ∈ Mnemonic.all, Mnemonic.ofName? m.name = some m := by decide
  exact every mnemonic (mem_all mnemonic)

theorem lowered_name (mnemonic : Mnemonic) : lowered mnemonic.name = mnemonic.name := by
  have every : ∀ m ∈ Mnemonic.all, lowered m.name = m.name := by decide
  exact every mnemonic (mem_all mnemonic)

theorem name_not_mem_directives (mnemonic : Mnemonic) : mnemonic.name ∉ directives := by
  have every : ∀ m ∈ Mnemonic.all, m.name ∉ directives := by decide
  exact every mnemonic (mem_all mnemonic)

/-- What is no directive is read as an instruction, or not at all. -/
theorem ofFields_eq_ok_iff {name : String} {operands : List String} {statement : Statement}
    (other : lowered name ∉ directives) :
    Statement.ofFields name operands = .ok statement ↔
      ∃ mnemonic : Mnemonic, lowered name = mnemonic.name ∧ operands.length = mnemonic.arity ∧
        statement = .instruction mnemonic operands := by
  simp only [directives, List.mem_cons, List.not_mem_nil, not_or, not_false_eq_true, and_true] at other
  obtain ⟨first, second, third, fourth⟩ := other
  rw [Statement.ofFields, ← lowered]
  simp only [if_neg first, if_neg second, if_neg third, if_neg fourth]
  constructor
  · intro read
    split at read
    · cases read
    · rename_i mnemonic found
      split at read
      · rename_i count
        cases read
        have same : mnemonic.name = lowered name := by simpa using List.find?_some found
        exact ⟨mnemonic, same.symm, count, rfl⟩
      · cases read
  · rintro ⟨mnemonic, named, count, rfl⟩
    simp only [named, ofName?_name, if_pos count]

theorem single_eq_ok_iff {name : String} {operands : List String} {operand : String} :
    Statement.single name operands = .ok operand ↔ operands = [operand] := by
  unfold Statement.single
  split
  · simp
  · rename_i several
    simpa using several operand

theorem numeric_eq_ok_iff {name : String} {operands : List String} {n : Nat} :
    Statement.numeric name operands = .ok n ↔
      ∃ operand w, operands = [operand] ∧ Literal.read operand.toList = .value w ∧ n = w.toNat := by
  simp only [Statement.numeric, Fallible.bind_eq_ok, single_eq_ok_iff]
  constructor
  · rintro ⟨operand, rfl, number⟩
    split at number
    · cases number
    · cases number
    · rename_i w read
      cases number
      exact ⟨operand, w, rfl, read, rfl⟩
  · rintro ⟨operand, w, rfl, read, rfl⟩
    refine ⟨operand, rfl, ?_⟩
    rw [read]
    rfl

/-- **A statement is read from what spells it.** -/
theorem ofFields_eq_ok_iff_spelled {name : String} {operands : List String} {statement : Statement} :
    Statement.ofFields name operands = .ok statement ↔ statement.Spelled name operands := by
  constructor
  · intro read
    by_cases other : lowered name ∉ directives
    · obtain ⟨mnemonic, named, count, rfl⟩ := (ofFields_eq_ok_iff other).mp read
      exact .instruction named count
    · simp only [Statement.ofFields] at read
      rw [← lowered] at read
      split at read
      · rename_i named
        simp only [Fallible.bind_eq_ok, numeric_eq_ok_iff, Fallible.pure_eq_ok] at read
        obtain ⟨_, ⟨operand, w, rfl, number, rfl⟩, rfl⟩ := read
        exact .origin named number
      split at read
      · rename_i named
        simp only [Fallible.bind_eq_ok, numeric_eq_ok_iff] at read
        obtain ⟨_, ⟨operand, w, rfl, number, rfl⟩, read⟩ := read
        split at read
        · cases read
        · rename_i some
          cases read
          exact .align named number some
      split at read
      · rename_i named
        simp only [Fallible.bind_eq_ok, single_eq_ok_iff, Fallible.pure_eq_ok] at read
        obtain ⟨operand, rfl, rfl⟩ := read
        exact .quad named
      split at read
      · rename_i named
        simp only [Fallible.bind_eq_ok, single_eq_ok_iff, Fallible.pure_eq_ok] at read
        obtain ⟨operand, rfl, rfl⟩ := read
        exact .byte named
      · simp_all [directives]
  · intro spelled
    cases spelled with
    | instruction named count =>
      exact (ofFields_eq_ok_iff (named ▸ name_not_mem_directives _)).mpr ⟨_, named, count, rfl⟩
    | origin named number =>
      simp only [Statement.ofFields]
      rw [← lowered, named, if_pos rfl]
      exact Fallible.bind_eq_ok.mpr ⟨_, numeric_eq_ok_iff.mpr ⟨_, _, rfl, number, rfl⟩, rfl⟩
    | align named number some =>
      simp only [Statement.ofFields]
      rw [← lowered, named, if_neg (by decide), if_pos rfl]
      refine Fallible.bind_eq_ok.mpr ⟨_, numeric_eq_ok_iff.mpr ⟨_, _, rfl, number, rfl⟩, ?_⟩
      rw [if_neg some]
      rfl
    | quad named =>
      simp only [Statement.ofFields]
      rw [← lowered, named]
      rfl
    | byte named =>
      simp only [Statement.ofFields]
      rw [← lowered, named]
      rfl

end Y86Toolkit.Words
