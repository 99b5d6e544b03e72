import Y86Toolkit.Proofs.LoadedSource
import Y86Toolkit.Proofs.LocationCounter
import Y86Toolkit.Proofs.Senses

/-!
A source with more lines written behind it. Both passes go over the first lines as
before and then go on from what they have made of them: nothing that is there moves, and
only the bytes that the new lines cover can change.
-/

namespace Y86Toolkit.AppendedSources
open Assembly Fragments Layouts Emission Senses Cells

variable {symbols : SymbolTable} {layout final : Layout}

/-! ## Going on -/

/-- The first pass goes on behind the lines that are laid out. -/
theorem placeAll_append (layout : Layout) (number : Nat) (front behind : List (List Char)) :
    layout.placeAll number (front ++ behind) =
      layout.placeAll number front >>= fun next => next.placeAll (number + front.length) behind := by
  induction front generalizing layout number with
  | nil => rfl
  | cons cs rest ih =>
    rw [List.cons_append, Layout.placeAll, Layout.placeAll, List.length_cons, Nat.add_comm rest.length 1,
      ← Nat.add_assoc]
    split
    · exact ih _ _
    · split
      · exact ih _ _
      · rfl

/-- The second pass goes on behind the items that are emitted. -/
theorem emitAll_append (symbols : SymbolTable) (image : Image) (front behind : List Item) :
    emitAll symbols image (front ++ behind) =
      emitAll symbols image front >>= fun next => emitAll symbols next behind := by
  induction front generalizing image with
  | nil => rfl
  | cons item rest ih =>
    rw [List.cons_append, emitAll, emitAll]
    split
    · exact ih _
    · rfl

/-- Labels that are defined stay as they are. -/
theorem laid_includes {rows : List (List Char)} {items : List Item} (laid : Laid layout rows items final) :
    Includes layout.symbols final.symbols :=
  fun label address found => (laid.symbols.lookup label address).mpr (.inl found)

/-- A line behind the last line feed makes no difference if it is empty. -/
theorem placeAll_pieces (source : String) :
    Layout.placeAll {} 1 (Text.pieces '\n' source.toList) = Layout.ofSource source := by
  rw [Layout.ofSource]
  rcases Texts.pieces_eq_lines source.toList with same | more
  · rw [same]
  · have blank : Line.read? [] = none := rfl
    rw [more, placeAll_append]
    cases Layout.placeAll {} 1 (Text.lines source.toList) with
    | error e => rfl
    | ok layout => simp [bind, Except.bind, Layout.placeAll, blank]

/-! ## Both passes -/

/-- **Appended code moves nothing.** The lines of a source stay in front of those that
are written below it, with the same addresses and lengths, and its labels keep their
addresses. A byte that none of the new lines covers is what it was, or zero where it was
behind the end. -/
theorem appended_moves_nothing {first second : String} {image whole : Image}
    (ran : assemble first = .ok image) (both : assemble (first ++ "\n" ++ second) = .ok whole) :
    ∃ others : List SourceLine, whole.lines.toList = image.lines.toList ++ others ∧
      others.map SourceLine.text = (rows second).map (fun row => String.ofList (Text.trim row)) ∧
      (∀ (label : String) (address : Nat), image.symbols[label]? = some address →
        whole.symbols[label]? = some address) ∧
      ∀ i, (∀ line ∈ others, ¬ line.Covers i) → cell whole.bytes i = cell image.bytes i := by
  obtain ⟨layout, done, laidOut, emitted, rfl⟩ := Emission.assemble_eq_ok_iff.mp ran
  obtain ⟨final, all, allLaidOut, allEmitted, rfl⟩ := Emission.assemble_eq_ok_iff.mp both
  -- The first pass over all lines goes on from the layout of the first ones.
  have text : (first ++ "\n" ++ second).toList = first.toList ++ '\n' :: second.toList := by simp
  rw [Layout.ofSource, text, Texts.lines_append, placeAll_append, placeAll_pieces, laidOut] at allLaidOut
  obtain ⟨items, laid⟩ := placeAll_laid allLaidOut
  have includes : Includes layout.symbols final.symbols := laid_includes laid
  have inRange := (LocationCounter.placeAll_settled laidOut).1
  -- So does the second one, from the image of the first lines.
  rw [laid.items, emitAll_append, emitAll_keeps includes emitted] at allEmitted
  obtain ⟨fs, emits, entered, -⟩ := emitAll_emitted laid inRange allEmitted
  rw [foldl_enter] at entered
  subst entered
  refine ⟨fs.map Fragment.line, ?_, ?_, includes, ?_⟩
  · simp
  · rw [List.map_map]
    exact PassAgreement.texts_emitted emits
  · intro i free
    exact cell_storeAll_uncovered fun f held => free f.line (List.mem_map_of_mem held)

/-- The image of a jump to itself. -/
def loops : Image where
  bytes := #[0x70, 0, 0, 0, 0, 0, 0, 0, 0]
  lines := #[⟨0, 9, "here: jmp here"⟩]
  symbols := ({} : SymbolTable).insert "here" 0

/-- The image of that jump, of which one byte is written over from below. -/
def loopsPatched : Image where
  bytes := #[0x70, 9, 0, 0, 0, 0, 0, 0, 0]
  lines := #[⟨0, 9, "here: jmp here"⟩, ⟨9, 0, ".pos 1"⟩, ⟨1, 1, "there: .byte 9"⟩]
  symbols := (({} : SymbolTable).insert "here" 0).insert "there" 1

/-- Going back over a jump changes one byte of it, and its label stays where it is. -/
theorem appended_moves_nothing_patched :
    assemble "here: jmp here" = .ok loops ∧
      assemble ("here: jmp here" ++ "\n" ++ ".pos 1\nthere: .byte 9") = .ok loopsPatched ∧
      loopsPatched.lines.toList = loops.lines.toList ++ [⟨9, 0, ".pos 1"⟩, ⟨1, 1, "there: .byte 9"⟩] ∧
      loopsPatched.symbols["here"]? = some 0 ∧
      cell loopsPatched.bytes 0 = cell loops.bytes 0 ∧ cell loopsPatched.bytes 9 = cell loops.bytes 9 := by
  have ran : assemble "here: jmp here" = .ok loops := by cbv
  have both : assemble ("here: jmp here" ++ "\n" ++ ".pos 1\nthere: .byte 9") = .ok loopsPatched := by cbv
  obtain ⟨others, lines, -, labels, bytes⟩ := appended_moves_nothing ran both
  obtain rfl : [⟨9, 0, ".pos 1"⟩, ⟨1, 1, "there: .byte 9"⟩] = others := (List.cons.inj lines).2
  refine ⟨ran, both, lines, labels "here" 0 (by simp [loops]), bytes 0 ?_, bytes 9 ?_⟩
  · simp [SourceLine.Covers]
  · simp [SourceLine.Covers]

end Y86Toolkit.AppendedSources
