import Y86Toolkit.Proofs.Emission

/-!
Straight sources: no line names or moves the location, so its bytes are known from
the line alone. Such a source assembles to the bytes of its lines, one behind the
other.
-/

namespace Y86Toolkit.Assembly

/-- A line that emits these bytes wherever it stands, and defines no label. -/
def Emits (cs : List Char) (data : List Byte) : Prop :=
  ∃ (statement : Statement) (text : String), Line.read? cs = some ⟨[], .ok statement, text⟩ ∧
    (∀ symbols, statement.bytes symbols = .ok data) ∧
    ∀ counter, statement.next counter = counter + data.length

/-- Items that start where the bytes of the one before end. -/
inductive Chained : Nat → List Item → List (List Byte) → Prop where
  | nil (counter : Nat) : Chained counter [] []
  | cons {item : Item} {data : List Byte} {items : List Item} {parts : List (List Byte)}
      (bytes : ∀ symbols, item.statement.bytes symbols = .ok data)
      (behind : Chained (item.address + data.length) items parts) :
      Chained item.address (item :: items) (data :: parts)

end Y86Toolkit.Assembly

namespace Y86Toolkit.StraightSource
open Assembly Fragments

/-! ## The first pass -/

theorem place_emits {cs : List Char} {data : List Byte} (emits : Emits cs data) (layout : Layout)
    (number : Nat) (fits : layout.counter + data.length ≤ Image.maxSize) :
    ∃ (line : Line) (item : Item) (next : Layout), Line.read? cs = some line ∧
      layout.place number line = .ok next ∧ next.counter = layout.counter + data.length ∧
      next.items = layout.items.push item ∧ item.address = layout.counter ∧
      ∀ symbols, item.statement.bytes symbols = .ok data := by
  obtain ⟨statement, text, read, bytes, moves⟩ := emits
  have inRange : ¬ Image.maxSize < statement.next layout.counter := by
    rw [moves]
    exact Nat.not_lt_of_le fits
  refine ⟨_, ⟨number, layout.counter, statement, text⟩,
    { layout with counter := statement.next layout.counter, items := layout.items.push _ }, read, ?_,
    moves _, rfl, rfl, bytes⟩
  simp only [Layout.place, Layout.define, Fallible.bind_eq_ok, Except.ok.injEq, exists_eq_left',
    if_neg inRange]
  rfl

/-- The first pass chains the lines of a straight source. -/
theorem placeAll_chained {lines : List (List Char)} {parts : List (List Byte)}
    (straight : List.Forall₂ Emits lines parts) (layout : Layout) (number : Nat)
    (fits : layout.counter + parts.flatten.length ≤ Image.maxSize) :
    ∃ (items : List Item) (final : Layout), layout.placeAll number lines = .ok final ∧
      final.items.toList = layout.items.toList ++ items ∧ Chained layout.counter items parts := by
  induction straight generalizing layout number with
  | nil => exact ⟨[], layout, rfl, (List.append_nil _).symm, .nil _⟩
  | @cons cs data lines parts emits straight ih =>
    rw [List.flatten_cons, List.length_append] at fits
    obtain ⟨line, item, next, read, placed, counter, pushed, address, bytes⟩ :=
      place_emits emits layout number (by omega)
    obtain ⟨items, final, ran, listed, chained⟩ := ih next (number + 1) (by omega)
    refine ⟨item :: items, final, ?_, ?_, ?_⟩
    · simp only [Layout.placeAll, read, placed, ran]
    · rw [listed, pushed, Array.toList_push, List.append_assoc, List.singleton_append]
    · rw [← address] at counter ⊢
      exact .cons bytes (counter ▸ chained)

/-! ## The second pass -/

/-- A statement whose bytes an image takes is entered in its place. -/
theorem emit_fits {symbols : SymbolTable} {data : List Byte} (image : Image) (item : Item)
    (bytes : item.statement.bytes symbols = .ok data)
    (fits : (Fragment.mk item.address data item.text).Fits) :
    item.emit symbols image = .ok (image.enter ⟨item.address, data, item.text⟩) := by
  let f : Fragment := ⟨item.address, data, item.text⟩
  have written : image.write f.address f.data = .ok { image with bytes := f.store image.bytes } :=
    (write_eq_ok_iff f).mpr ⟨fits, rfl⟩
  simp only [Item.emit, Fallible.bind_eq_ok, Fallible.mapError_eq_ok, Fallible.pure_eq_ok]
  exact ⟨data, bytes, _, written, rfl⟩

theorem emit_at_end {symbols : SymbolTable} {image : Image} {item : Item} {data : List Byte}
    (bytes : item.statement.bytes symbols = .ok data) (place : item.address = image.size)
    (fits : image.size + data.length ≤ Image.maxSize) :
    ∃ next, item.emit symbols image = .ok next ∧ next.bytes.toList = image.bytes.toList ++ data := by
  let f : Fragment := ⟨item.address, data, item.text⟩
  have within : f.stop ≤ Image.maxSize := by
    show item.address + data.length ≤ Image.maxSize
    rwa [place]
  exact ⟨image.enter f, emit_fits image item bytes (.inr within), store_at_end place⟩

/-- The second pass puts the bytes of chained items behind those of the image. -/
theorem emitAll_chained (symbols : SymbolTable) {counter : Nat} {items : List Item}
    {parts : List (List Byte)} (chained : Chained counter items parts) (image : Image)
    (place : counter = image.size) (fits : counter + parts.flatten.length ≤ Image.maxSize) :
    ∃ done, emitAll symbols image items = .ok done ∧
      done.bytes.toList = image.bytes.toList ++ parts.flatten := by
  induction chained generalizing image with
  | nil counter => exact ⟨image, rfl, (List.append_nil _).symm⟩
  | @cons item data items parts bytes behind ih =>
    rw [List.flatten_cons, List.length_append] at fits
    obtain ⟨next, passed, grown⟩ := emit_at_end (bytes symbols) place (by omega)
    have size : item.address + data.length = next.size := by
      have lengths := congrArg List.length grown
      rw [List.length_append, Array.length_toList, Array.length_toList] at lengths
      rw [place]
      exact lengths.symm
    obtain ⟨done, ran, whole⟩ := ih next size (by omega)
    refine ⟨done, by simp only [emitAll, passed, ran], ?_⟩
    rw [whole, grown, List.append_assoc, List.flatten_cons]

/-- A source assembles where both passes go through. -/
theorem assemble_passes {source : String} {layout : Layout} {image : Image}
    (laid : Layout.ofSource source = .ok layout)
    (emitted : emitAll layout.symbols .empty layout.items.toList = .ok image) :
    assemble source = .ok { image with symbols := layout.symbols } :=
  Emission.assemble_eq_ok_iff.mpr ⟨layout, image, laid, emitted, rfl⟩

/-- **A straight source assembles to the bytes of its lines.** -/
theorem assemble_straight {source : String} {parts : List (List Byte)}
    (straight : List.Forall₂ Emits (Text.lines source.toList) parts)
    (fits : parts.flatten.length ≤ Image.maxSize) :
    ∃ image, assemble source = .ok image ∧ image.bytes.toList = parts.flatten := by
  obtain ⟨items, layout, laidOut, listed, chained⟩ :=
    placeAll_chained straight {} 1 (by rwa [Nat.zero_add])
  obtain ⟨image, ran, bytes⟩ :=
    emitAll_chained layout.symbols chained .empty rfl (by rwa [Nat.zero_add])
  have all : layout.items.toList = items := listed
  exact ⟨_, assemble_passes laidOut (all ▸ ran), bytes⟩

end Y86Toolkit.StraightSource
