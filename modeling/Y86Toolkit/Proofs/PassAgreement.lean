import Mathlib
import Y86Toolkit.Proofs.Emission

/-!
The two passes of the assembler agree. Line by line, the bytes of a statement
take the room that was left for them, the next line starts where the first pass
put it, and labels are the addresses of their lines. The library is imported whole
for the equations that evaluate the examples.
-/

namespace Y86Toolkit.PassAgreement
open Assembly Fragments Layouts Emission

variable {symbols : SymbolTable} {counter : Nat} {rows : List (List Char)} {fs : List Fragment}

theorem length_emitted (emitted : Emitted symbols counter rows fs) : fs.length = rows.length := by
  induction emitted with
  | nil counter => rfl
  | cons agrees emitted ih => rw [List.length_cons, List.length_cons, ih]

theorem texts_emitted (emitted : Emitted symbols counter rows fs) :
    fs.map Fragment.text = rows.map fun row => String.ofList (Text.trim row) := by
  induction emitted with
  | nil counter => rfl
  | cons agrees emitted ih => rw [List.map_cons, List.map_cons, agrees.text, ih]

theorem first_emitted {f : Fragment} (emitted : Emitted symbols counter rows fs) (first : fs[0]? = some f) :
    f.address = counter := by
  cases emitted with
  | nil => cases first
  | cons agrees emitted =>
    cases Option.some.inj first
    rfl

/-- Every line has its fragment, and the next one starts where its statement leads. -/
theorem emitted_at {k : Nat} {row : List Char} {f : Fragment} (emitted : Emitted symbols counter rows fs)
    (isRow : rows[k]? = some row) (isFragment : fs[k]? = some f) :
    ∃ statement, Agrees symbols row statement f ∧
      ∀ following, fs[k + 1]? = some following → following.address = statement.next f.address := by
  induction emitted generalizing k with
  | nil counter => cases isRow
  | cons agrees emitted ih =>
    cases k with
    | zero =>
      cases Option.some.inj isRow
      cases Option.some.inj isFragment
      exact ⟨_, agrees, fun following isNext => first_emitted emitted isNext⟩
    | succ k => exact ih isRow isFragment

theorem labels_definitions {addresses : List Nat} (paired : rows.length = addresses.length) :
    (definitions rows addresses).map Prod.fst = rows.flatMap labelsOf := by
  have parts : (definitions rows addresses).map Prod.fst =
      (rows.zip addresses).flatMap fun entry => labelsOf entry.1 := by
    simp [definitions, List.map_flatMap, Function.comp_def]
  rw [parts, ← List.flatMap_map, List.map_fst_zip (Nat.le_of_eq paired)]

/-- The labels of an assembled source are looked up line by line. -/
theorem lookup_emitted (labels : Extends {} symbols (definitions rows (fs.map Fragment.address)))
    {label : String} {address : Nat} : symbols[label]? = some address ↔
      ∃ (k : Nat) (row : List Char) (f : Fragment),
        rows[k]? = some row ∧ fs[k]? = some f ∧ label ∈ labelsOf row ∧ f.address = address := by
  have fresh : ({} : SymbolTable)[label]? ≠ some address := by simp
  rw [labels.lookup, or_iff_right fresh, mem_definitions]
  constructor
  · rintro ⟨k, row, isRow, isAddress, defines⟩
    rw [List.getElem?_map, Option.map_eq_some_iff] at isAddress
    obtain ⟨f, isFragment, place⟩ := isAddress
    exact ⟨k, row, f, isRow, isFragment, defines, place⟩
  · rintro ⟨k, row, f, isRow, isFragment, defines, rfl⟩
    exact ⟨k, row, isRow, by rw [List.getElem?_map, isFragment]; rfl, defines⟩

/-- The entries of an image are the lines of its fragments. -/
theorem entry_iff {image : Image} (made : { assembled fs with symbols } = image) {k : Nat}
    {entry : SourceLine} :
    image.lines[k]? = some entry ↔ ∃ f, fs[k]? = some f ∧ f.line = entry := by
  have lines : image.lines = (fs.map Fragment.line).toArray := by rw [← made, assembled_eq]
  rw [lines, List.getElem?_toArray, List.getElem?_map, Option.map_eq_some_iff]

/-- **The two passes agree.** An assembled image has one entry for each line
that is not blank, in order, and the first starts at zero. An entry is as long as
the bytes of its statement, which is how far the first pass moved the counter,
unless the statement goes to another location and emits nothing; the next entry
starts at the counter. The labels of the image are those of the source, each
defined once, and name the entries of their lines. -/
theorem passes_agree {source : String} {image : Image} (ran : assemble source = .ok image) :
    image.lines.toList.map SourceLine.text =
      (Assembly.rows source).map (fun row => String.ofList (Text.trim row)) ∧
    (∀ first, image.lines[0]? = some first → first.address = 0) ∧
    (∀ (k : Nat) (row : List Char) (entry : SourceLine),
      (Assembly.rows source)[k]? = some row → image.lines[k]? = some entry →
      ∃ (statement : Statement) (data : List Byte),
        Statement.read (codeOf row) = .ok statement ∧
        statement.bytes image.symbols = .ok data ∧ entry.length = data.length ∧
        statement.Leads entry.address entry.length (statement.next entry.address) ∧
        ∀ following, image.lines[k + 1]? = some following →
          following.address = statement.next entry.address) ∧
    (∀ (label : String) (address : Nat), image.symbols[label]? = some address ↔
      ∃ (k : Nat) (row : List Char) (entry : SourceLine), (Assembly.rows source)[k]? = some row ∧
        image.lines[k]? = some entry ∧ label ∈ labelsOf row ∧ entry.address = address) ∧
    ((Assembly.rows source).flatMap labelsOf).Nodup := by
  obtain ⟨fs, emitted, made, labels⟩ := assemble_emitted ran
  refine ⟨?_, ?_, ?_, ?_, ?_⟩
  · have lines : image.lines = (fs.map Fragment.line).toArray := by rw [← made, assembled_eq]
    rw [lines, List.map_map]
    exact texts_emitted emitted
  · intro first isFirst
    obtain ⟨f, isFragment, rfl⟩ := (entry_iff made).mp isFirst
    exact first_emitted emitted isFragment
  · intro k row entry isRow isEntry
    obtain ⟨f, isFragment, rfl⟩ := (entry_iff made).mp isEntry
    obtain ⟨statement, agrees, next⟩ := emitted_at emitted isRow isFragment
    refine ⟨statement, f.data, agrees.read, agrees.emitted, rfl, ?_, fun following isNext => ?_⟩
    · exact leads_next agrees.read agrees.emitted f.address
    · obtain ⟨g, isFragment, rfl⟩ := (entry_iff made).mp isNext
      exact next g isFragment
  · intro label address
    rw [lookup_emitted labels]
    constructor
    · rintro ⟨k, row, f, isRow, isFragment, defines, place⟩
      exact ⟨k, row, f.line, isRow, (entry_iff made).mpr ⟨f, isFragment, rfl⟩, defines, place⟩
    · rintro ⟨k, row, entry, isRow, isEntry, defines, place⟩
      obtain ⟨f, isFragment, rfl⟩ := (entry_iff made).mp isEntry
      exact ⟨k, row, f, isRow, isFragment, defines, place⟩
  · have paired : (Assembly.rows source).length = (fs.map Fragment.address).length := by
      rw [List.length_map, length_emitted emitted]
    rw [← labels_definitions paired]
    exact labels.once

/-- The image of a source with two labels in front of a directive. -/
def labelled : Image where
  bytes := #[0x10, 0, 0, 0, 0, 0, 0, 0, 1, 0, 0, 0, 0, 0, 0, 0]
  lines := #[⟨0, 1, "a: nop"⟩, ⟨1, 0, "b: c: .align 8 # up"⟩, ⟨8, 8, ".quad b"⟩]
  symbols := (({} : SymbolTable).insert "a" 0 |>.insert "b" 1).insert "c" 1

/-- Both labels name the place in front of the room that aligning skips. -/
theorem passes_agree_labelled :
    assemble "a: nop\n\n  b: c: .align 8 # up\n.quad b" = .ok labelled ∧
      (∃ (statement : Statement) (data : List Byte),
        Statement.read (codeOf "  b: c: .align 8 # up".toList) = .ok statement ∧
        statement.bytes labelled.symbols = .ok data ∧ 0 = data.length ∧
        statement.Leads 1 0 (statement.next 1) ∧
        ∀ following, labelled.lines[2]? = some following → following.address = statement.next 1) := by
  have made : assemble "a: nop\n\n  b: c: .align 8 # up\n.quad b" = .ok labelled := by cbv
  have second : (Assembly.rows "a: nop\n\n  b: c: .align 8 # up\n.quad b")[1]? =
      some "  b: c: .align 8 # up".toList := by cbv
  exact ⟨made, (passes_agree made).2.2.1 1 _ ⟨1, 0, "b: c: .align 8 # up"⟩ second rfl⟩

/-- Entries are not always as long as the way that the counter moves: aligning
moves it and emits nothing. -/
theorem moved_without_bytes :
    ¬ ∀ (source : String) (image : Image), assemble source = .ok image →
      ∀ (k : Nat) (row : List Char) (entry : SourceLine) (statement : Statement),
        (Assembly.rows source)[k]? = some row → image.lines[k]? = some entry →
        Statement.read (codeOf row) = .ok statement →
        entry.length = statement.next entry.address - entry.address := by
  intro always
  have made : assemble "nop\n.align 8\n.byte 1" = .ok
      { bytes := #[0x10, 0, 0, 0, 0, 0, 0, 0, 1]
        lines := #[⟨0, 1, "nop"⟩, ⟨1, 0, ".align 8"⟩, ⟨8, 1, ".byte 1"⟩] } := by cbv
  have second : (Assembly.rows "nop\n.align 8\n.byte 1")[1]? = some ".align 8".toList := by cbv
  have read : Statement.read (codeOf ".align 8".toList) = .ok (.align 8) := by cbv
  have stays : 0 = Statement.next 1 (.align 8) - 1 :=
    always _ _ made 1 _ ⟨1, 0, ".align 8"⟩ _ second rfl read
  exact absurd stays (by decide)

end Y86Toolkit.PassAgreement
