import Mathlib.Order.Bounds.Defs
import Y86Toolkit.Assembly
import Y86Toolkit.Proofs.Fragments
import Y86Toolkit.Proofs.Layouts

/-!
The second pass over a source. It emits a fragment for every item, and the bytes
of a statement take the room that the first pass has left for them without
knowing its operands.
-/

namespace Y86Toolkit

/-- Where the next statement starts behind one at an address that emits
`length` bytes: behind these bytes, except that the directives for locations emit
nothing and go to an address of their own. -/
def Assembly.Statement.Leads (address length next : Nat) : Assembly.Statement → Prop
  | .origin target => length = 0 ∧ next = target
  | .align alignment => length = 0 ∧ IsLeast {a | alignment ∣ a ∧ address ≤ a} next
  | _ => next = address + length

namespace Emission
open Assembly Fragments Layouts

variable {symbols : SymbolTable}

/-! ## The length of a statement -/

/-- Operands do not change the name of an instruction. -/
theorem instructionOf_mnemonic {mnemonic : Mnemonic} {operands : List String} {i : Instruction}
    (made : instructionOf symbols mnemonic operands = .ok i) : i.mnemonic = mnemonic := by
  unfold instructionOf at made
  split at made <;>
    simp only [Fallible.bind_eq_ok, Fallible.pure_eq_ok, Except.ok.injEq, reduceCtorEq] at made
  case h_1 | h_2 | h_3 =>
    subst made
    rfl
  case h_9 | h_10 | h_11 | h_12 =>
    obtain ⟨_, -, rfl⟩ := made
    rfl
  case h_4 | h_5 | h_6 | h_7 | h_8 =>
    obtain ⟨_, -, _, -, rfl⟩ := made
    rfl

/-- Aligning goes to the least multiple that is not in front of the counter. -/
theorem isLeast_align {alignment : Nat} (positive : 0 < alignment) (counter : Nat) :
    IsLeast {a | alignment ∣ a ∧ counter ≤ a} (Statement.next counter (.align alignment)) := by
  have whole : alignment * (counter / alignment) + counter % alignment = counter :=
    Nat.div_add_mod counter alignment
  have small : counter % alignment < alignment := Nat.mod_lt counter positive
  rw [Statement.next]
  split
  · rename_i aligned
    exact ⟨⟨Nat.dvd_of_mod_eq_zero aligned, Nat.le_refl _⟩, fun a above => above.2⟩
  · rename_i between
    have stop : counter + (alignment - counter % alignment) = alignment * (counter / alignment + 1) := by
      rw [Nat.mul_succ]
      omega
    refine ⟨⟨⟨_, stop⟩, by omega⟩, ?_⟩
    rintro a ⟨⟨count, rfl⟩, above⟩
    -- A multiple that is not past the counter's own would be in front of the counter.
    have later : counter / alignment < count := by
      refine Nat.lt_of_not_le fun early => ?_
      have := Nat.mul_le_mul_left alignment early
      omega
    rw [stop]
    exact Nat.mul_le_mul_left alignment later

/-- **The bytes of a statement take the room that was left for them.** -/
theorem leads_next {statement : Statement} {code : List Char} {data : List Byte}
    (read : Statement.read code = .ok statement) (emitted : statement.bytes symbols = .ok data)
    (address : Nat) : statement.Leads address data.length (statement.next address) := by
  cases statement with
  | empty =>
    cases emitted
    rfl
  | origin target =>
    cases emitted
    exact ⟨rfl, rfl⟩
  | align alignment =>
    cases emitted
    exact ⟨rfl, isLeast_align (read_checked read).1 address⟩
  | quad operand =>
    obtain ⟨word, -, emitted⟩ := Fallible.bind_eq_ok.mp emitted
    cases emitted
    exact congrArg (address + ·) (Bytes.length_ofWord word).symm
  | byte operand =>
    obtain ⟨word, -, emitted⟩ := Fallible.bind_eq_ok.mp emitted
    split at emitted
    · cases emitted
    · cases emitted
      rfl
  | instruction mnemonic operands =>
    obtain ⟨i, made, emitted⟩ := Fallible.bind_eq_ok.mp emitted
    cases emitted
    rw [← instructionOf_mnemonic made]
    exact congrArg (address + ·)
      ((Instruction.length_encode i).trans (Instruction.length_mnemonic i).symm).symm

/-! ## The fragments of a source -/

/-- A line that counts, and the fragment that both passes make of it. -/
structure Agrees (symbols : SymbolTable) (row : List Char) (statement : Statement) (f : Fragment) : Prop where
  read : Statement.read (codeOf row) = .ok statement
  emitted : statement.bytes symbols = .ok f.data
  text : f.text = String.ofList (Text.trim row)
  inRange : f.address ≤ Image.maxSize
  fits : f.Fits

/-- Lines that count from an address on, and the fragments made of them. -/
inductive Emitted (symbols : SymbolTable) : Nat → List (List Char) → List Fragment → Prop where
  | nil (counter : Nat) : Emitted symbols counter [] []
  | cons {row : List Char} {statement : Statement} {f : Fragment} {rows : List (List Char)}
      {fs : List Fragment} (agrees : Agrees symbols row statement f)
      (emitted : Emitted symbols (statement.next f.address) rows fs) :
      Emitted symbols f.address (row :: rows) (f :: fs)

theorem emit_enter {image next : Image} {item : Item} (ran : item.emit symbols image = .ok next) :
    ∃ f : Fragment, f.address = item.address ∧ f.text = item.text ∧
      item.statement.bytes symbols = .ok f.data ∧ f.Fits ∧ image.enter f = next := by
  simp only [Item.emit, Fallible.bind_eq_ok, Fallible.mapError_eq_ok, Fallible.pure_eq_ok] at ran
  obtain ⟨data, bytes, written, stored, rfl⟩ := ran
  let f : Fragment := ⟨item.address, data, item.text⟩
  obtain ⟨fits, rfl⟩ := (write_eq_ok_iff f).mp stored
  exact ⟨f, rfl, rfl, bytes, fits, rfl⟩

/-- **What the first pass has laid out, the second pass emits in the same places.** -/
theorem emitAll_emitted {layout final : Layout} {rows : List (List Char)} {items : List Item}
    {image done : Image} (laid : Laid layout rows items final) (inRange : layout.counter ≤ Image.maxSize)
    (ran : emitAll symbols image items = .ok done) :
    ∃ fs, Emitted symbols layout.counter rows fs ∧ fs.foldl Image.enter image = done ∧
      fs.map Fragment.address = items.map Item.address := by
  induction laid generalizing image with
  | nil layout =>
    cases ran
    exact ⟨[], .nil _, rfl, rfl⟩
  | cons placed laid ih =>
    rw [emitAll] at ran
    split at ran
    · rename_i next passed
      obtain ⟨f, address, text, bytes, fits, rfl⟩ := emit_enter passed
      obtain ⟨fs, emitted, rfl, addresses⟩ := ih placed.inRange ran
      have place := address.trans placed.address
      refine ⟨f :: fs, ?_, rfl, by rw [List.map_cons, List.map_cons, address, addresses]⟩
      rw [placed.counter, ← place] at emitted
      rw [← place] at inRange ⊢
      exact .cons ⟨placed.read, bytes, text.trans placed.text, inRange, fits⟩ emitted
    · cases ran

/-- A source assembles exactly if it can be laid out and all items be emitted. -/
theorem assemble_eq_ok_iff {source : String} {image : Image} : assemble source = .ok image ↔
    ∃ layout done, Layout.ofSource source = .ok layout ∧
      emitAll layout.symbols .empty layout.items.toList = .ok done ∧
      { done with symbols := layout.symbols } = image := by
  simp only [assemble, Fallible.bind_eq_ok, Fallible.pure_eq_ok, exists_and_left]

/-- **An assembled image is made of the fragments of its source**, and its labels
name the addresses of these fragments. -/
theorem assemble_emitted {source : String} {image : Image} (ran : assemble source = .ok image) :
    ∃ fs, Emitted image.symbols 0 (rows source) fs ∧
      { assembled fs with symbols := image.symbols } = image ∧
      Extends {} image.symbols (definitions (rows source) (fs.map Fragment.address)) := by
  obtain ⟨layout, done, laidOut, emitted, rfl⟩ := assemble_eq_ok_iff.mp ran
  obtain ⟨items, laid⟩ := placeAll_laid laidOut
  have listed : layout.items.toList = items := laid.items
  rw [listed] at emitted
  obtain ⟨fs, emits, rfl, addresses⟩ := emitAll_emitted laid (Nat.zero_le _) emitted
  refine ⟨fs, emits, rfl, ?_⟩
  rw [addresses]
  exact laid.symbols

end Emission

end Y86Toolkit
