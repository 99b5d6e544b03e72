import Y86Toolkit.Proofs.AppendedSources

/-!
Sources whose lines are read alike. Where two lines define the same labels and hold
statements that do the same, or fail for causes of the same sort, both passes go on alike,
and so the sources assemble to the same bytes and labels, or fail alike on the same line.
-/

namespace Y86Toolkit

namespace Fallible

/-- Two steps succeed with results that are alike, or fail for causes that are. -/
inductive Alike {ε α : Type} (causes : ε → ε → Prop) (results : α → α → Prop) :
    Except ε α → Except ε α → Prop where
  | ok {a b : α} (alike : results a b) : Alike causes results (.ok a) (.ok b)
  | error {c d : ε} (alike : causes c d) : Alike causes results (.error c) (.error d)

namespace Alike

variable {ε α β : Type} {causes : ε → ε → Prop} {results : α → α → Prop} {ends : β → β → Prop}

theorem symm {first other : Except ε α} (sorts : ∀ {c d}, causes c d → causes d c)
    (same : ∀ {a b}, results a b → results b a) (alike : Alike causes results first other) :
    Alike causes results other first := by
  cases alike with
  | ok alike => exact .ok (same alike)
  | error alike => exact .error (sorts alike)

theorem equivalence (sorts : Equivalence causes) (same : Equivalence results) :
    Equivalence (Alike causes results) where
  refl step := by
    cases step with
    | ok a => exact .ok (same.refl a)
    | error c => exact .error (sorts.refl c)
  symm := symm sorts.symm same.symm
  trans first second := by
    cases first with
    | ok alike =>
      cases second with
      | ok further => exact .ok (same.trans alike further)
    | error alike =>
      cases second with
      | error further => exact .error (sorts.trans alike further)

/-- Steps in sequence are alike if each of them is. -/
theorem bind {first other : Except ε α} {next after : α → Except ε β}
    (alike : Alike causes results first other)
    (behind : ∀ a b, results a b → Alike causes ends (next a) (after b)) :
    Alike causes ends (first >>= next) (other >>= after) := by
  cases alike with
  | ok alike => exact behind _ _ alike
  | error alike => exact .error alike

/-- Steps that are alike stay so if causes that are alike are renamed alike. -/
theorem mapError {ε' : Type} {sorts : ε' → ε' → Prop} {first other : Except ε α} {rename redo : ε → ε'}
    (alike : Alike causes results first other) (renamed : ∀ c d, causes c d → sorts (rename c) (redo d)) :
    Alike sorts results (first.mapError rename) (other.mapError redo) := by
  cases alike with
  | ok alike => exact .ok alike
  | error alike => exact .error (renamed _ _ alike)

end Alike

end Fallible

namespace Assembly

/-- Causes of one sort. -/
def Cause.Alike (c d : Cause) : Prop := c.kind = d.kind

/-- Statements that move the location counter alike and have the same bytes. -/
structure Statement.Alike (s t : Statement) : Prop where
  next : ∀ counter, s.next counter = t.next counter
  bytes : ∀ symbols, Fallible.Alike Cause.Alike Eq (s.bytes symbols) (t.bytes symbols)

/-- What two lines are read as: the same labels, and statements that are alike. -/
structure ReadAlike (first second : List String × Except Cause Statement) : Prop where
  labels : first.1 = second.1
  statement : Fallible.Alike Cause.Alike Statement.Alike first.2 second.2

/-- What a line is read as, blank or not. -/
def Line.reading (cs : List Char) : List String × Except Cause Statement :=
  ofPieces (Text.pieces ':' (Text.beforeFirst '#' cs))

/-- Errors of one sort on one line. -/
structure Error.Alike (e f : Error) : Prop where
  line : e.line = f.line
  cause : e.cause.Alike f.cause

/-- Items that emit the same bytes, or fail alike. -/
def ItemsAlike (items others : List Item) : Prop :=
  ∀ (symbols : SymbolTable) (image other : Image), image.bytes = other.bytes →
    Fallible.Alike Error.Alike (fun done redone => done.bytes = redone.bytes)
      (emitAll symbols image items) (emitAll symbols other others)

/-- Layouts with the same labels, and items that are alike. -/
structure Layout.Alike (layout other : Layout) : Prop where
  counter : layout.counter = other.counter
  inRange : layout.counter ≤ Image.maxSize
  symbols : layout.symbols = other.symbols
  items : ItemsAlike layout.items.toList other.items.toList

end Assembly

/-- The same bytes, and the same labels. -/
structure Image.Alike (image other : Image) : Prop where
  bytes : image.bytes = other.bytes
  symbols : image.symbols = other.symbols

namespace AlikeReadings
open Assembly

variable {symbols : SymbolTable} {layout other : Layout} {cs ds front back : List Char}

theorem cause_equivalence : Equivalence Cause.Alike := ⟨fun _ => rfl, Eq.symm, Eq.trans⟩

/-- What comes out of two readings is the same, or no less. -/
theorem same_equivalence (α : Type) : Equivalence (Fallible.Alike Cause.Alike (Eq (α := α))) :=
  Fallible.Alike.equivalence cause_equivalence ⟨Eq.refl, Eq.symm, Eq.trans⟩

theorem statement_equivalence : Equivalence Statement.Alike where
  refl _ := ⟨fun _ => rfl, fun _ => (same_equivalence _).refl _⟩
  symm alike :=
    ⟨fun counter => (alike.next counter).symm, fun symbols => (same_equivalence _).symm (alike.bytes symbols)⟩
  trans first second := ⟨fun counter => (first.next counter).trans (second.next counter),
    fun symbols => (same_equivalence _).trans (first.bytes symbols) (second.bytes symbols)⟩

theorem readAlike_equivalence : Equivalence ReadAlike where
  refl _ := ⟨rfl, (Fallible.Alike.equivalence cause_equivalence statement_equivalence).refl _⟩
  symm alike := ⟨alike.labels.symm, alike.statement.symm cause_equivalence.symm statement_equivalence.symm⟩
  trans first second := ⟨first.labels.trans second.labels,
    (Fallible.Alike.equivalence cause_equivalence statement_equivalence).trans first.statement
      second.statement⟩

/-! ## Reading a line -/

/-- Blanks around a statement do not count. -/
theorem read_padded (frontBlank : ∀ c ∈ front, Text.isBlank c = true)
    (backBlank : ∀ c ∈ back, Text.isBlank c = true)
    (cs : List Char) : Statement.read (front ++ cs ++ back) = Statement.read cs := by
  obtain ⟨words, inside⟩ := Words.exists_words cs
  have padded := Words.words_behind (fun c held => .inl (backBlank c held))
    (Words.words_front (fun c held => .inl (frontBlank c held)) inside)
  rw [Words.read_of_words inside, Words.read_of_words padded]

/-- Pieces of which the same is read. -/
def PieceAlike (piece other : List Char) : Prop :=
  Text.trim other = Text.trim piece ∧ Statement.read other = Statement.read piece

theorem ofPieces_congr {pieces others : List (List Char)} (alike : List.Forall₂ PieceAlike pieces others) :
    Line.ofPieces others = Line.ofPieces pieces := by
  induction alike with
  | nil => rfl
  | @cons piece other _ _ same behind ih =>
    obtain ⟨trimmed, read⟩ := same
    cases behind with
    | nil => exact Prod.ext rfl read
    | cons second behind =>
      simp only [Line.ofPieces] at ih ⊢
      rw [trimmed, ih]

/-- Blanks around a line are blanks around its pieces. -/
theorem pieces_padded (frontBlank : ∀ c ∈ front, Text.isBlank c = true)
    (backBlank : ∀ c ∈ back, Text.isBlank c = true) (cs : List Char) :
    List.Forall₂ PieceAlike (Text.pieces ':' cs) (Text.pieces ':' (front ++ cs ++ back)) := by
  have noColon {blanks : List Char} (blank : ∀ c ∈ blanks, Text.isBlank c = true) : ':' ∉ blanks :=
    Texts.not_mem_blanks (by decide) blank
  induction cs using Texts.piecewise ':' generalizing front with
  | unmarked cs free =>
    have whole : ':' ∉ front ++ cs ++ back := by simp [free, noColon frontBlank, noColon backBlank]
    rw [Texts.pieces_unmarked free, Texts.pieces_unmarked whole]
    exact .cons ⟨Texts.trim_padded frontBlank backBlank cs, read_padded frontBlank backBlank cs⟩ .nil
  | marked before after free ih =>
    have first : ':' ∉ front ++ before := by simp [free, noColon frontBlank]
    have split : front ++ (before ++ ':' :: after) ++ back =
        (front ++ before) ++ ':' :: ([] ++ after ++ back) := by simp
    have trimmed := Texts.trim_padded frontBlank (List.forall_mem_nil _) before
    have read := read_padded frontBlank (List.forall_mem_nil _) before
    rw [List.append_nil] at trimmed read
    rw [split, Texts.pieces_append free, Texts.pieces_append first]
    exact .cons ⟨trimmed, read⟩ (ih (List.forall_mem_nil _))

/-- Blanks around a line do not count. -/
theorem reading_trim (cs : List Char) : Line.reading (Text.trim cs) = Line.reading cs := by
  obtain ⟨front, back, same, frontBlank, backBlank⟩ := Texts.exists_around_trim cs
  generalize Text.trim cs = text at same
  subst same
  have noComment {blanks : List Char} (blank : ∀ c ∈ blanks, Text.isBlank c = true) : '#' ∉ blanks :=
    Texts.not_mem_blanks (by decide) blank
  -- The blanks behind the line belong to its comment if there is one.
  obtain ⟨behind, blank, uncommented⟩ : ∃ behind, (∀ c ∈ behind, Text.isBlank c = true) ∧
      Text.beforeFirst '#' (front ++ text ++ back) = front ++ Text.beforeFirst '#' text ++ behind := by
    by_cases commented : '#' ∈ text
    · obtain ⟨code, comment, rfl, free⟩ := List.eq_append_cons_of_mem commented
      refine ⟨[], List.forall_mem_nil _, ?_⟩
      have split : front ++ (code ++ '#' :: comment) ++ back = (front ++ code) ++ '#' :: (comment ++ back) := by simp
      rw [split, Texts.beforeFirst_append (by simp [free, noComment frontBlank]), Texts.beforeFirst_append free,
        List.append_nil]
    · refine ⟨back, backBlank, ?_⟩
      rw [Texts.beforeFirst_unmarked commented, Texts.beforeFirst_unmarked]
      simp [commented, noComment frontBlank, noComment backBlank]
  rw [Line.reading, Line.reading, uncommented, ofPieces_congr (pieces_padded frontBlank blank _)]

theorem reading_of_none (blank : Line.read? cs = none) : Line.reading cs = ([], .ok .empty) := by
  have empty : Text.trim cs = [] := by
    rw [Line.read?] at blank
    split at blank
    · rename_i isEmpty
      exact List.isEmpty_iff.mp isEmpty
    · cases blank
  rw [← reading_trim, empty]
  rfl

theorem reading_of_some {line : Line} (isLine : Line.read? cs = some line) :
    (line.labels, line.statement) = Line.reading cs := by
  obtain ⟨-, rfl⟩ := SourceRows.read?_eq_some_iff.mp isLine
  exact reading_trim cs

/-! ## Emission -/

variable {items others : List Item} {item changed : Item}

theorem error_equivalence : Equivalence Error.Alike where
  refl _ := ⟨rfl, rfl⟩
  symm alike := ⟨alike.line.symm, alike.cause.symm⟩
  trans first second := ⟨first.line.trans second.line, Eq.trans first.cause second.cause⟩

theorem itemsAlike_symm (alike : ItemsAlike items others) : ItemsAlike others items :=
  fun symbols image other same =>
    (alike symbols other image same.symm).symm error_equivalence.symm Eq.symm

theorem itemsAlike_append {later more : List Item} (alike : ItemsAlike items others)
    (behind : ItemsAlike later more) :
    ItemsAlike (items ++ later) (others ++ more) := by
  intro symbols image other same
  rw [AppendedSources.emitAll_append, AppendedSources.emitAll_append]
  exact (alike symbols image other same).bind (behind symbols)

/-- Images with the same bytes take the same ones. -/
theorem write_alike {image other : Image} (same : image.bytes = other.bytes) (address : Nat)
    (data : List Byte) :
    Fallible.Alike Cause.Alike (fun done redone => done.bytes = redone.bytes)
      ((image.write address data).mapError fun e => .valueOutOfRange e.message)
      ((other.write address data).mapError fun e => .valueOutOfRange e.message) := by
  simp only [Image.write, same]
  split
  · exact .ok same
  split
  · exact .ok rfl
  · exact .error rfl

theorem emit_alike {image other : Image} (same : image.bytes = other.bytes)
    (address : item.address = changed.address)
    (statement : item.statement.Alike changed.statement) :
    Fallible.Alike Cause.Alike (fun done redone => done.bytes = redone.bytes) (item.emit symbols image)
      (changed.emit symbols other) := by
  refine (statement.bytes symbols).bind ?_
  rintro data _ rfl
  rw [address]
  exact (write_alike same changed.address data).bind fun done redone same => .ok same

theorem emitAll_single (symbols : SymbolTable) (image : Image) (item : Item) :
    emitAll symbols image [item] = (item.emit symbols image).mapError (⟨item.line, ·⟩) := by
  rw [emitAll]
  cases item.emit symbols image <;> rfl

theorem itemsAlike_single (line : item.line = changed.line) (address : item.address = changed.address)
    (statement : item.statement.Alike changed.statement) : ItemsAlike [item] [changed] := by
  intro symbols image other same
  rw [emitAll_single, emitAll_single]
  exact (emit_alike same address statement).mapError fun _ _ sort => ⟨line, sort⟩

/-- An item that does nothing may be left out. -/
theorem itemsAlike_idle (idle : Statement.Alike .empty item.statement) : ItemsAlike [] [item] := by
  intro symbols image other same
  have bytes : item.statement.bytes symbols = .ok [] := by
    have alike : Fallible.Alike Cause.Alike Eq (.ok []) (item.statement.bytes symbols) := idle.bytes symbols
    generalize item.statement.bytes symbols = bytes at alike
    cases alike with
    | ok none => rw [none]
  rw [emitAll_single, Item.emit, bytes]
  exact .ok same

/-! ## Layouts -/

theorem layout_symm (alike : layout.Alike other) : other.Alike layout :=
  ⟨alike.counter.symm, alike.counter ▸ alike.inRange, alike.symbols.symm, itemsAlike_symm alike.items⟩

/-- Lines that are read alike are laid out alike. -/
theorem place_alike {line changed : Line} (alike : layout.Alike other) (number : Nat)
    (labels : line.labels = changed.labels)
    (statement : Fallible.Alike Cause.Alike Statement.Alike line.statement changed.statement) :
    Fallible.Alike Cause.Alike Layout.Alike (layout.place number line) (other.place number changed) := by
  simp only [Layout.place, alike.symbols, alike.counter, labels]
  refine ((same_equivalence _).refl _).bind ?_
  rintro symbols _ rfl
  refine statement.bind fun s t does => ?_
  rw [does.next]
  split
  · exact .error rfl
  · rename_i inRange
    refine .ok ⟨rfl, Nat.le_of_not_lt inRange, rfl, ?_⟩
    simp only [Array.toList_push]
    exact itemsAlike_append alike.items (itemsAlike_single rfl rfl does)

/-- A line that does nothing may be left out. -/
theorem place_idle {line : Line} (alike : layout.Alike other) (number : Nat) (labels : line.labels = [])
    (statement : Fallible.Alike Cause.Alike Statement.Alike (.ok .empty) line.statement) :
    Fallible.Alike Cause.Alike Layout.Alike (.ok layout) (other.place number line) := by
  obtain ⟨_, statement, text⟩ := line
  cases labels
  cases statement with
  | @ok _ s idle =>
    have still : s.next other.counter = other.counter := (idle.next other.counter).symm
    have inRange : ¬ Image.maxSize < s.next other.counter := by
      rw [still, ← alike.counter]
      exact Nat.not_lt_of_le alike.inRange
    have placed : other.place number ⟨[], .ok s, text⟩ =
        .ok ⟨s.next other.counter, other.symbols, other.items.push ⟨number, other.counter, s, text⟩⟩ := by
      simp only [Layout.place, Layout.define, bind, Except.bind, if_neg inRange]
      rfl
    rw [placed]
    refine .ok ⟨?_, alike.inRange, alike.symbols, ?_⟩
    · rw [still, alike.counter]
    · rw [Array.toList_push, ← List.append_nil layout.items.toList]
      exact itemsAlike_append alike.items (itemsAlike_idle idle)

theorem placeAll_blank (layout : Layout) (number : Nat) (blank : Line.read? cs = none) :
    layout.placeAll number [cs] = .ok layout := by
  simp only [Layout.placeAll, blank]

theorem placeAll_row {line : Line} (layout : Layout) (number : Nat) (isLine : Line.read? cs = some line) :
    layout.placeAll number [cs] = (layout.place number line).mapError (⟨number, ·⟩) := by
  simp only [Layout.placeAll, isLine]
  cases layout.place number line <;> rfl

/-- A blank line and one that does nothing. -/
theorem placeAll_idle {line : Line} (alike : layout.Alike other) (number : Nat) (blank : Line.read? cs = none)
    (isLine : Line.read? ds = some line) (reads : ReadAlike (Line.reading cs) (Line.reading ds)) :
    Fallible.Alike Error.Alike Layout.Alike (layout.placeAll number [cs]) (other.placeAll number [ds]) := by
  rw [reading_of_none blank, ← reading_of_some isLine] at reads
  rw [placeAll_blank _ _ blank, placeAll_row _ _ isLine]
  change Fallible.Alike _ _ ((.ok layout : Except Cause Layout).mapError (⟨number, ·⟩)) _
  exact (place_idle alike number reads.labels.symm reads.statement).mapError fun _ _ sort => ⟨rfl, sort⟩

/-- **A line that is read alike is laid out alike.** -/
theorem placeAll_single_alike (alike : layout.Alike other) (number : Nat)
    (reads : ReadAlike (Line.reading cs) (Line.reading ds)) :
    Fallible.Alike Error.Alike Layout.Alike (layout.placeAll number [cs]) (other.placeAll number [ds]) := by
  cases isLine : Line.read? cs with
  | none =>
    cases isOther : Line.read? ds with
    | none =>
      rw [placeAll_blank _ _ isLine, placeAll_blank _ _ isOther]
      exact .ok alike
    | some line => exact placeAll_idle alike number isLine isOther reads
  | some line =>
    cases isOther : Line.read? ds with
    | none =>
      have turned := placeAll_idle (layout_symm alike) number isOther isLine (readAlike_equivalence.symm reads)
      exact turned.symm error_equivalence.symm layout_symm
    | some changed =>
      rw [← reading_of_some isLine, ← reading_of_some isOther] at reads
      rw [placeAll_row _ _ isLine, placeAll_row _ _ isOther]
      exact (place_alike alike number reads.labels reads.statement).mapError fun _ _ sort => ⟨rfl, sort⟩

/-- Lines that are read alike one by one are laid out alike. -/
theorem placeAll_alike {lines others : List (List Char)} (alike : layout.Alike other) (number : Nat)
    (read : List.Forall₂ (fun cs ds => ReadAlike (Line.reading cs) (Line.reading ds)) lines others) :
    Fallible.Alike Error.Alike Layout.Alike (layout.placeAll number lines) (other.placeAll number others) := by
  induction read generalizing layout other number with
  | nil => exact .ok alike
  | @cons cs ds lines others reads _ ih =>
    have first := AppendedSources.placeAll_append layout number [cs] lines
    have second := AppendedSources.placeAll_append other number [ds] others
    rw [List.singleton_append] at first second
    rw [first, second]
    exact (placeAll_single_alike alike number reads).bind fun next after alike => ih alike (number + 1)

/-- **Sources whose lines are read alike assemble alike**, and where they fail, they fail on
the same line for causes of the same sort. -/
theorem assemble_alike {source changed : String}
    (read : List.Forall₂ (fun cs ds => ReadAlike (Line.reading cs) (Line.reading ds))
      (Text.pieces '\n' source.toList) (Text.pieces '\n' changed.toList)) :
    Fallible.Alike Error.Alike Image.Alike (assemble source) (assemble changed) := by
  have start : Layout.Alike {} {} := ⟨rfl, Nat.zero_le _, rfl, fun _ _ _ same => .ok same⟩
  have laidOut := placeAll_alike start 1 read
  rw [AppendedSources.placeAll_pieces, AppendedSources.placeAll_pieces] at laidOut
  refine laidOut.bind fun layout other alike => ?_
  rw [alike.symbols]
  exact (alike.items other.symbols .empty .empty rfl).bind fun done redone same => .ok ⟨same, rfl⟩

end AlikeReadings

end Y86Toolkit
