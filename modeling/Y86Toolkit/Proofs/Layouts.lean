import Y86Toolkit.Assembly.Layout
import Y86Toolkit.Proofs.Fallible
import Y86Toolkit.Proofs.SourceRows
import Y86Toolkit.Proofs.Words

/-!
The first pass over a source. It puts one item at the location counter for every
line that counts, and the labels of the line name that location.
-/

namespace Y86Toolkit

/-- What is checked of a statement when it is read: the numbers of directives are
words, no alignment is zero, and an instruction has as many operands as its name
calls for. -/
def Assembly.Statement.Checked : Assembly.Statement → Prop
  | .origin address => address < Word.limit Word.width
  | .align alignment => 0 < alignment ∧ alignment < Word.limit Word.width
  | .instruction mnemonic operands => operands.length = mnemonic.arity
  | _ => True

namespace Layouts
open Assembly

/-! ## Statements -/

/-- **A statement that can be read is checked.** -/
theorem read_checked {code : List Char} {statement : Statement}
    (read : Statement.read code = .ok statement) : statement.Checked := by
  unfold Statement.read at read
  split at read
  · cases read
    trivial
  · cases Words.ofFields_eq_ok_iff_spelled.mp read with
    | @origin _ w => exact w.toNat_lt
    | @align _ w _ _ some => exact ⟨Nat.pos_of_ne_zero some, w.toNat_lt⟩
    | quad | byte => trivial
    | instruction _ count => exact count

/-! ## Symbol tables -/

/-- A symbol table with new labels, none of which was there before. -/
structure Extends (before after : SymbolTable) (new : List (String × Nat)) : Prop where
  fresh : ∀ label ∈ new.map Prod.fst, before[label]? = none
  once : (new.map Prod.fst).Nodup
  lookup : ∀ label address, after[label]? = some address ↔
    before[label]? = some address ∨ (label, address) ∈ new

namespace Extends

theorem refl (symbols : SymbolTable) : Extends symbols symbols [] where
  fresh := fun _ held => absurd held List.not_mem_nil
  once := List.nodup_nil
  lookup := by simp

theorem trans {before middle after : SymbolTable} {first second : List (String × Nat)}
    (front : Extends before middle first) (back : Extends middle after second) :
    Extends before after (first ++ second) := by
  -- A label that the first step has defined is not fresh in the second.
  have absent : ∀ label ∈ second.map Prod.fst, before[label]? = none ∧ label ∉ first.map Prod.fst := by
    intro label held
    have unseen := back.fresh label held
    constructor
    · cases found : before[label]? with
      | none => rfl
      | some address =>
        rw [(front.lookup label address).mpr (.inl found)] at unseen
        cases unseen
    · intro defined
      obtain ⟨⟨_, address⟩, entry, rfl⟩ := List.mem_map.mp defined
      rw [(front.lookup _ address).mpr (.inr entry)] at unseen
      cases unseen
  refine ⟨fun label held => ?_, ?_, fun label address => ?_⟩
  · rw [List.map_append] at held
    rcases List.mem_append.mp held with early | late
    · exact front.fresh label early
    · exact (absent label late).1
  · rw [List.map_append]
    refine List.nodup_append.mpr ⟨front.once, back.once, fun label early other late => ?_⟩
    rintro rfl
    exact (absent label late).2 early
  · rw [back.lookup, front.lookup, List.mem_append]
    exact or_assoc

theorem insert {symbols : SymbolTable} {label : String} (fresh : symbols[label]? = none) (address : Nat) :
    Extends symbols (symbols.insert label address) [(label, address)] where
  fresh := by simpa using fresh
  once := by simp
  lookup := by
    intro other place
    simp only [Std.TreeMap.getElem?_insert, Std.LawfulEqCmp.compare_eq_iff_eq, List.mem_singleton]
    by_cases same : label = other
    · subst same
      simp [fresh, eq_comm]
    · simp [same, Ne.symm same]

end Extends

/-- Defining labels succeeds when all are new, and gives them the address. -/
theorem define_extends {symbols next : SymbolTable} {address : Nat} {labels : List String}
    (defined : Layout.define symbols address labels = .ok next) :
    Extends symbols next (labels.map fun label => (label, address)) := by
  induction labels generalizing symbols with
  | nil =>
    cases defined
    exact Extends.refl _
  | cons label rest ih =>
    rw [Layout.define] at defined
    split at defined
    · cases defined
    · rename_i unused
      have fresh : symbols[label]? = none := by
        rw [Std.TreeMap.contains_eq_isSome_getElem?] at unused
        exact Option.not_isSome_iff_eq_none.mp unused
      exact (Extends.insert fresh address).trans (ih defined)

/-! ## Lines -/

/-- A line that counts is laid out: its statement starts at the counter, which
moves behind it, and its labels are defined. -/
structure Placed (layout next : Layout) (row : List Char) (item : Item) : Prop where
  address : item.address = layout.counter
  text : item.text = String.ofList (Text.trim row)
  read : Statement.read (codeOf row) = .ok item.statement
  counter : next.counter = item.statement.next layout.counter
  inRange : next.counter ≤ Image.maxSize
  symbols : Extends layout.symbols next.symbols ((labelsOf row).map fun label => (label, layout.counter))
  items : next.items = layout.items.push item

theorem place_placed {layout next : Layout} {number : Nat} {row : List Char} {line : Line}
    (counts : (Text.trim row).isEmpty = false) (isLine : Line.read? row = some line)
    (ran : layout.place number line = .ok next) : ∃ item, Placed layout next row item := by
  obtain ⟨_, again, text, read⟩ := SourceRows.read?_row counts
  cases isLine.symm.trans again
  simp only [Layout.place, Fallible.bind_eq_ok] at ran
  obtain ⟨symbols, defined, statement, readable, placed⟩ := ran
  obtain ⟨labels, code⟩ := read statement readable
  split at placed
  · cases placed
  · rename_i inRange
    cases placed
    rw [labels] at defined
    exact ⟨_, rfl, text, code, rfl, Nat.le_of_not_lt inRange, define_extends defined, rfl⟩

/-- Lines that count are laid out one behind the other, and make these items. -/
inductive Laid : Layout → List (List Char) → List Item → Layout → Prop where
  | nil (layout : Layout) : Laid layout [] [] layout
  | cons {layout next final : Layout} {row : List Char} {item : Item} {rows : List (List Char)}
      {items : List Item} (placed : Placed layout next row item) (laid : Laid next rows items final) :
      Laid layout (row :: rows) (item :: items) final

/-- **The first pass lays out the lines that count, and passes over the others.** -/
theorem placeAll_laid {layout final : Layout} {number : Nat} {lines : List (List Char)}
    (ran : layout.placeAll number lines = .ok final) :
    ∃ items, Laid layout (lines.filter fun cs => !(Text.trim cs).isEmpty) items final := by
  induction lines generalizing layout number with
  | nil =>
    cases ran
    exact ⟨[], .nil _⟩
  | cons cs rest ih =>
    cases blank : (Text.trim cs).isEmpty with
    | true =>
      rw [Layout.placeAll, SourceRows.read?_blank blank] at ran
      rw [List.filter_cons_of_neg (by simp [blank])]
      exact ih ran
    | false =>
      obtain ⟨line, isLine, -⟩ := SourceRows.read?_row blank
      simp only [Layout.placeAll, isLine] at ran
      rw [List.filter_cons_of_pos (by simp [blank])]
      split at ran
      · rename_i next passed
        obtain ⟨item, placed⟩ := place_placed blank isLine passed
        obtain ⟨items, laid⟩ := ih ran
        exact ⟨item :: items, .cons placed laid⟩
      · cases ran

theorem Laid.items {layout final : Layout} {rows : List (List Char)} {items : List Item}
    (laid : Laid layout rows items final) : final.items.toList = layout.items.toList ++ items := by
  induction laid with
  | nil layout => simp
  | cons placed laid ih => rw [ih, placed.items, Array.toList_push, List.append_assoc, List.singleton_append]

/-- The labels of lines with their addresses. -/
def definitions (rows : List (List Char)) (addresses : List Nat) : List (String × Nat) :=
  (rows.zip addresses).flatMap fun (row, address) => (labelsOf row).map fun label => (label, address)

theorem mem_definitions {rows : List (List Char)} {addresses : List Nat} {label : String} {address : Nat} :
    (label, address) ∈ definitions rows addresses ↔
      ∃ (k : Nat) (row : List Char), rows[k]? = some row ∧ addresses[k]? = some address ∧ label ∈ labelsOf row := by
  simp only [definitions, List.mem_flatMap, List.mem_map, Prod.exists, Prod.mk.injEq]
  constructor
  · rintro ⟨row, place, paired, _, defines, rfl, rfl⟩
    obtain ⟨k, both⟩ := List.mem_iff_getElem?.mp paired
    obtain ⟨isRow, isPlace⟩ := List.getElem?_zip_eq_some.mp both
    exact ⟨k, row, isRow, isPlace, defines⟩
  · rintro ⟨k, row, isRow, isPlace, defines⟩
    refine ⟨row, address, List.mem_iff_getElem?.mpr ⟨k, ?_⟩, label, defines, rfl, rfl⟩
    exact List.getElem?_zip_eq_some.mpr ⟨isRow, isPlace⟩

/-- **All labels together are new, differ from each other, and name the items of
their lines.** -/
theorem Laid.symbols {layout final : Layout} {rows : List (List Char)} {items : List Item}
    (laid : Laid layout rows items final) :
    Extends layout.symbols final.symbols (definitions rows (items.map Item.address)) := by
  induction laid with
  | nil layout => exact Extends.refl layout.symbols
  | cons placed laid ih =>
    have first := placed.symbols
    rw [← placed.address] at first
    exact first.trans ih

end Layouts

end Y86Toolkit
