import Y86Toolkit.Proofs.Senses

/-!
Sources that are alike line by line. Where lines define the same labels and their
operands keep their senses, both passes do the same: the first one gets to the same
addresses, and the second one to the same bytes.
-/

namespace Y86Toolkit.Assembly

/-- Two lines define the same labels, and if the first one has a statement, the second
one has it too, with operands that keep their senses. -/
inductive LineKeeps (before after : SymbolTable) (cs ds : List Char) : Prop where
  | blank (isBlank : Line.read? cs = none) (other : Line.read? ds = none)
  | row {line other : Line} (isLine : Line.read? cs = some line) (isOther : Line.read? ds = some other)
      (keeps : ∀ statement, line.statement = .ok statement →
        other.labels = line.labels ∧
        ∃ changed, other.statement = .ok changed ∧ statement.Keeps before after changed)

/-- The same statement in the same place, as far as bytes are concerned. -/
structure Item.Keeps (before after : SymbolTable) (item other : Item) : Prop where
  address : other.address = item.address
  statement : item.statement.Keeps before after other.statement

/-- A layout with the same addresses. -/
structure Layout.Keeps (before after : SymbolTable) (layout other : Layout) : Prop where
  counter : other.counter = layout.counter
  symbols : other.symbols = layout.symbols
  items : List.Forall₂ (Item.Keeps before after) layout.items.toList other.items.toList

end Y86Toolkit.Assembly

namespace Y86Toolkit

/-- The same bytes in the same place, for another text maybe. -/
def Fragment.Alike (f g : Fragment) : Prop := g.address = f.address ∧ g.data = f.data

namespace AlikeSources
open Assembly Fragments Senses

variable {symbols before after : SymbolTable} {layout other final : Layout}

theorem place_keeps {number : Nat} {next : Layout} {line changed : Line}
    (alike : layout.Keeps before after other)
    (keeps : ∀ statement, line.statement = .ok statement → changed.labels = line.labels ∧
      ∃ redone, changed.statement = .ok redone ∧ statement.Keeps before after redone)
    (ran : layout.place number line = .ok next) :
    ∃ done, other.place number changed = .ok done ∧ next.Keeps before after done := by
  simp only [Layout.place, Fallible.bind_eq_ok] at ran
  obtain ⟨symbols, defined, statement, readable, placed⟩ := ran
  obtain ⟨labels, redone, read, keeps⟩ := keeps statement readable
  split at placed
  · cases placed
  · rename_i inRange
    cases placed
    rw [← next_keeps keeps, ← alike.counter] at inRange
    refine ⟨⟨redone.next other.counter, symbols, other.items.push ⟨number, other.counter, redone, changed.text⟩⟩,
      ?_, ?_⟩
    · simp only [Layout.place, Fallible.bind_eq_ok]
      refine ⟨symbols, ?_, redone, read, ?_⟩
      · rw [alike.symbols, alike.counter, labels, defined]
      · rw [if_neg inRange]
        rfl
    · refine ⟨?_, rfl, ?_⟩
      · rw [alike.counter, next_keeps keeps]
      · rw [Array.toList_push, Array.toList_push]
        exact List.rel_append alike.items (.cons ⟨alike.counter, keeps⟩ .nil)

/-- **The first pass does not depend on how operands are spelled.** -/
theorem placeAll_keeps {number : Nat} {lines others : List (List Char)}
    (alike : layout.Keeps before after other) (keep : List.Forall₂ (LineKeeps before after) lines others)
    (ran : layout.placeAll number lines = .ok final) :
    ∃ done, other.placeAll number others = .ok done ∧ final.Keeps before after done := by
  induction keep generalizing layout other number with
  | nil =>
    cases ran
    exact ⟨other, rfl, alike⟩
  | cons keeps keep ih =>
    cases keeps with
    | blank blank alsoBlank =>
      simp only [Layout.placeAll, blank, alsoBlank] at ran ⊢
      exact ih alike ran
    | row isLine isOther keeps =>
      simp only [Layout.placeAll, isLine, isOther] at ran ⊢
      split at ran
      · rename_i next placed
        obtain ⟨changed, replaced, alike⟩ := place_keeps alike keeps placed
        rw [replaced]
        exact ih alike ran
      · cases ran

theorem makes_keeps_item {item other : Item} {f : Fragment} (keeps : item.Keeps before after other)
    (makes : item.Makes before f) : other.Makes after { f with text := other.text } where
  address := makes.address.trans keeps.address.symm
  bytes := bytes_keeps keeps.statement makes.bytes
  text := rfl
  fits := makes.fits

theorem makes_keeps_items {items others : List Item} {fs : List Fragment}
    (keep : List.Forall₂ (Item.Keeps before after) items others)
    (made : List.Forall₂ (Item.Makes before) items fs) :
    ∃ gs, List.Forall₂ (Item.Makes after) others gs ∧ List.Forall₂ Fragment.Alike fs gs := by
  induction keep generalizing fs with
  | nil =>
    cases made
    exact ⟨[], .nil, .nil⟩
  | cons keeps keep ih =>
    obtain _ | ⟨makes, made⟩ := made
    obtain ⟨gs, remade, alike⟩ := ih made
    exact ⟨_ :: gs, .cons (makes_keeps_item keeps makes) remade, .cons ⟨rfl, rfl⟩ alike⟩

theorem storeAll_alike {fs gs : List Fragment} (alike : List.Forall₂ Fragment.Alike fs gs)
    (cells : Array Byte) :
    storeAll cells gs = storeAll cells fs := by
  induction alike generalizing cells with
  | nil => rfl
  | @cons f g _ _ same _ ih =>
    have stored : g.store cells = f.store cells := by
      obtain ⟨address, data, text⟩ := g
      obtain ⟨rfl, rfl⟩ := same
      rfl
    simp only [storeAll, List.foldl_cons] at ih ⊢
    rw [stored, ih]

theorem map_alike {fs gs : List Fragment} (alike : List.Forall₂ Fragment.Alike fs gs) :
    gs.map (fun f => (f.address, f.data.length)) = fs.map fun f => (f.address, f.data.length) := by
  induction alike with
  | nil => rfl
  | cons same _ ih => rw [List.map_cons, List.map_cons, ih, same.1, same.2]

/-- **The second pass does not, either**, where operands keep their senses. -/
theorem emitAll_items_keep {items others : List Item} {image done : Image}
    (keep : List.Forall₂ (Item.Keeps before after) items others)
    (ran : emitAll before image items = .ok done) :
    ∃ changed, emitAll after image others = .ok changed ∧ changed.bytes = done.bytes ∧
      changed.lines.toList.map (fun line => (line.address, line.length)) =
        done.lines.toList.map fun line => (line.address, line.length) := by
  obtain ⟨fs, made, rfl⟩ := emitAll_eq_ok_iff.mp ran
  obtain ⟨gs, remade, alike⟩ := makes_keeps_items keep made
  refine ⟨_, emitAll_eq_ok_iff.mpr ⟨gs, remade, rfl⟩, ?_, ?_⟩
  · simp only [foldl_enter, storeAll_alike alike]
  · have same := map_alike alike
    simpa [foldl_enter, Fragment.line, Function.comp_def] using same

/-- **Sources that are alike line by line assemble alike.** -/
theorem assemble_keeps {source changed : String} {image : Image} (ran : assemble source = .ok image)
    (keep : List.Forall₂ (LineKeeps image.symbols image.symbols) (Text.lines source.toList)
      (Text.lines changed.toList)) :
    ∃ redone, assemble changed = .ok redone ∧ redone.bytes = image.bytes ∧ redone.symbols = image.symbols ∧
      redone.lines.toList.map (fun line => (line.address, line.length)) =
        image.lines.toList.map fun line => (line.address, line.length) := by
  obtain ⟨layout, done, laidOut, emitted, rfl⟩ := Emission.assemble_eq_ok_iff.mp ran
  obtain ⟨final, laidOutToo, alike⟩ := placeAll_keeps ⟨rfl, rfl, .nil⟩ keep laidOut
  obtain ⟨redone, emittedToo, bytes, lines⟩ := emitAll_items_keep alike.items emitted
  rw [← alike.symbols] at emittedToo
  exact ⟨_, Emission.assemble_eq_ok_iff.mpr ⟨_, _, laidOutToo, emittedToo, rfl⟩, bytes, alike.symbols, lines⟩

theorem lineKeeps_refl (symbols : SymbolTable) (cs : List Char) : LineKeeps symbols symbols cs cs := by
  cases isLine : Line.read? cs with
  | none => exact .blank isLine isLine
  | some line =>
    refine .row isLine isLine fun statement read => ⟨rfl, statement, read, ?_⟩
    exact statement_keeps_of_includes (fun _ _ found => found) statement

end AlikeSources

end Y86Toolkit
