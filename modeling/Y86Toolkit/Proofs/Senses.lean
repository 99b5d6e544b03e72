import Mathlib.Data.List.Forall2
import Y86Toolkit.Proofs.Emission
import Y86Toolkit.Proofs.Operands
import Y86Toolkit.Proofs.StraightSource

/-!
What a statement emits in two sources. Operands may be spelled in another way, and other
labels may be defined beside those that they name; as long as each operand keeps its
sense, the statement keeps its bytes.
-/

namespace Y86Toolkit.Assembly

/-- What an operand stands for under some labels, another one stands for under others. -/
structure Keeps (before after : SymbolTable) (operand other : String) : Prop where
  register : ∀ r, Names operand r → Names other r
  constant : ∀ w, Constant before operand w → Constant after other w
  place : ∀ offset base, Place before operand offset base → Place after other offset base

/-- A statement in which every operand keeps its sense. -/
inductive Statement.Keeps (before after : SymbolTable) : Statement → Statement → Prop where
  | empty : Keeps before after .empty .empty
  | origin (address : Nat) : Keeps before after (.origin address) (.origin address)
  | align (alignment : Nat) : Keeps before after (.align alignment) (.align alignment)
  | quad {operand other : String} (keeps : Assembly.Keeps before after operand other) :
      Keeps before after (.quad operand) (.quad other)
  | byte {operand other : String} (keeps : Assembly.Keeps before after operand other) :
      Keeps before after (.byte operand) (.byte other)
  | instruction (mnemonic : Mnemonic) {operands others : List String}
      (keep : List.Forall₂ (Assembly.Keeps before after) operands others) :
      Keeps before after (.instruction mnemonic operands) (.instruction mnemonic others)

/-- An operand stands for something. -/
inductive HasSense (symbols : SymbolTable) (operand : String) : Prop where
  | register {r : Register} (names : Names operand r)
  | constant {w : Word} (constant : Constant symbols operand w)
  | place {offset : Word} {base : Register} (place : Place symbols operand offset base)

/-- The operands that are looked at when all labels have addresses. -/
def Statement.operands : Statement → List String
  | .quad operand | .byte operand => [operand]
  | .instruction _ operands => operands
  | .empty | .origin _ | .align _ => []

/-- No label is lost or gets another address. -/
def Includes (before after : SymbolTable) : Prop :=
  ∀ (label : String) (address : Nat), before[label]? = some address → after[label]? = some address

/-- The fragment that an item makes. -/
structure Item.Makes (symbols : SymbolTable) (item : Item) (f : Fragment) : Prop where
  address : f.address = item.address
  bytes : item.statement.bytes symbols = .ok f.data
  text : f.text = item.text
  fits : f.Fits

end Y86Toolkit.Assembly

namespace Y86Toolkit.Senses
open Assembly Fragments Operands Fallible

variable {before after symbols : SymbolTable} {operand other : String} {statement changed : Statement}

/-! ## Operands -/

/-- With more labels an operand keeps its sense. -/
theorem keeps_of_includes (includes : Includes before after) (operand : String) :
    Keeps before after operand operand := by
  have constant {operand : String} {w : Word} (constant : Constant before operand w) :
      Constant after operand w := by
    cases constant with
    | number number => exact .number number
    | label text identifier defined => exact .label text identifier (includes _ _ defined)
  refine ⟨fun _ names => names, fun _ => constant, ?_⟩
  rintro offset base ⟨displacement, register, whole, unmarked, names, none | ⟨some, offset⟩⟩
  · exact ⟨displacement, register, whole, unmarked, names, .inl none⟩
  · exact ⟨displacement, register, whole, unmarked, names, .inr ⟨some, constant offset⟩⟩

theorem writtenFor_keeps {operands others : List String} {i : Instruction}
    (keep : List.Forall₂ (Keeps before after) operands others) (written : WrittenFor before operands i) :
    WrittenFor after others i := by
  cases i with
  | halt | nop | ret =>
    cases written
    cases keep
    rfl
  | move | alu =>
    obtain ⟨_, _, rfl, source, target⟩ := written
    obtain _ | ⟨first, _ | ⟨second, ⟨⟩⟩⟩ := keep
    exact ⟨_, _, rfl, first.register _ source, second.register _ target⟩
  | loadImmediate =>
    obtain ⟨_, _, rfl, value, target⟩ := written
    obtain _ | ⟨first, _ | ⟨second, ⟨⟩⟩⟩ := keep
    exact ⟨_, _, rfl, first.constant _ value, second.register _ target⟩
  | store =>
    obtain ⟨_, _, rfl, source, place⟩ := written
    obtain _ | ⟨first, _ | ⟨second, ⟨⟩⟩⟩ := keep
    exact ⟨_, _, rfl, first.register _ source, second.place _ _ place⟩
  | load =>
    obtain ⟨_, _, rfl, place, target⟩ := written
    obtain _ | ⟨first, _ | ⟨second, ⟨⟩⟩⟩ := keep
    exact ⟨_, _, rfl, first.place _ _ place, second.register _ target⟩
  | jump | call =>
    obtain ⟨_, rfl, destination⟩ := written
    obtain _ | ⟨only, ⟨⟩⟩ := keep
    exact ⟨_, rfl, only.constant _ destination⟩
  | push | pop =>
    obtain ⟨_, rfl, register⟩ := written
    obtain _ | ⟨only, ⟨⟩⟩ := keep
    exact ⟨_, rfl, only.register _ register⟩

/-! ## Statements -/

theorem statement_keeps_of_includes (includes : Includes before after) (statement : Statement) :
    statement.Keeps before after statement := by
  cases statement with
  | empty => exact .empty
  | origin address => exact .origin address
  | align alignment => exact .align alignment
  | quad operand => exact .quad (keeps_of_includes includes operand)
  | byte operand => exact .byte (keeps_of_includes includes operand)
  | instruction mnemonic operands =>
    exact .instruction mnemonic (List.forall₂_same.mpr fun operand _ => keeps_of_includes includes operand)

/-- How far a statement moves the counter does not depend on its operands. -/
theorem next_keeps (keeps : statement.Keeps before after changed) (counter : Nat) :
    changed.next counter = statement.next counter := by
  cases keeps <;> rfl

theorem value_keeps (keeps : Keeps before after operand other) {w : Word}
    (value : Operand.value before operand = .ok w) : Operand.value after other = .ok w :=
  value_eq_ok_iff.mpr (keeps.constant w (value_eq_ok_iff.mp value))

/-- **A statement keeps its bytes** where its operands keep their sense. -/
theorem bytes_keeps (keeps : statement.Keeps before after changed) {data : List Byte}
    (emitted : statement.bytes before = .ok data) : changed.bytes after = .ok data := by
  cases keeps with
  | empty | origin | align => exact emitted
  | quad keeps =>
    obtain ⟨w, value, rest⟩ := bind_eq_ok.mp emitted
    exact bind_eq_ok.mpr ⟨w, value_keeps keeps value, rest⟩
  | byte keeps =>
    obtain ⟨w, value, rest⟩ := bind_eq_ok.mp emitted
    refine bind_eq_ok.mpr ⟨w, value_keeps keeps value, ?_⟩
    split at rest
    · cases rest
    · rename_i small
      rw [if_neg small]
      exact rest
  | instruction mnemonic keep =>
    obtain ⟨i, made, rest⟩ := bind_eq_ok.mp emitted
    obtain ⟨named, written⟩ := instructionOf_eq_ok_iff.mp made
    exact bind_eq_ok.mpr ⟨i, instructionOf_eq_ok_iff.mpr ⟨named, writtenFor_keeps keep written⟩, rest⟩

/-- What has a label for an operand is no directive for locations. -/
theorem operands_spelled {name operand : String} {operands : List String} {statement : Statement}
    (spelled : statement.Spelled name operands) (held : operand ∈ operands)
    (other : Literal.read operand.toList = .notNumeric) : statement.operands = operands := by
  cases spelled with
  | origin _ number | align _ number =>
    cases List.mem_singleton.mp held
    cases number.symm.trans other
  | quad | byte | instruction => rfl

theorem keeps_spelled {before after : SymbolTable} {name : String} {operands others : List String}
    {statement : Statement} (spelled : statement.Spelled name operands) (same : statement.operands = operands)
    (keep : List.Forall₂ (Keeps before after) operands others) :
    ∃ changed : Statement, changed.Spelled name others ∧ statement.Keeps before after changed := by
  cases spelled with
  | origin | align => cases same
  | quad named =>
    obtain _ | ⟨keeps, ⟨⟩⟩ := keep
    exact ⟨_, .quad named, .quad keeps⟩
  | byte named =>
    obtain _ | ⟨keeps, ⟨⟩⟩ := keep
    exact ⟨_, .byte named, .byte keeps⟩
  | instruction named count =>
    exact ⟨_, .instruction named (keep.length_eq ▸ count), .instruction _ keep⟩

/-- What is written for an instruction has a sense. -/
theorem sense_writtenFor {operands : List String} {i : Instruction} (written : WrittenFor symbols operands i)
    {operand : String} (held : operand ∈ operands) :
    HasSense symbols operand := by
  cases i with
  | halt | nop | ret =>
    cases written
    cases held
  | move | alu =>
    obtain ⟨_, _, rfl, source, target⟩ := written
    obtain rfl | rfl := List.mem_pair.mp held
    · exact .register source
    · exact .register target
  | loadImmediate =>
    obtain ⟨_, _, rfl, value, target⟩ := written
    obtain rfl | rfl := List.mem_pair.mp held
    · exact .constant value
    · exact .register target
  | store =>
    obtain ⟨_, _, rfl, source, place⟩ := written
    obtain rfl | rfl := List.mem_pair.mp held
    · exact .register source
    · exact .place place
  | load =>
    obtain ⟨_, _, rfl, place, target⟩ := written
    obtain rfl | rfl := List.mem_pair.mp held
    · exact .place place
    · exact .register target
  | jump | call =>
    obtain ⟨_, rfl, destination⟩ := written
    cases List.mem_singleton.mp held
    exact .constant destination
  | push | pop =>
    obtain ⟨_, rfl, register⟩ := written
    cases List.mem_singleton.mp held
    exact .register register

/-- An operand of a statement with bytes has a sense. -/
theorem sense_bytes {statement : Statement} {data : List Byte} (emitted : statement.bytes symbols = .ok data)
    {operand : String} (held : operand ∈ statement.operands) :
    HasSense symbols operand := by
  cases statement with
  | empty | origin | align => cases held
  | quad | byte =>
    obtain ⟨w, value, -⟩ := Fallible.bind_eq_ok.mp emitted
    cases List.mem_singleton.mp held
    exact .constant (value_eq_ok_iff.mp value)
  | instruction =>
    obtain ⟨i, made, -⟩ := Fallible.bind_eq_ok.mp emitted
    exact sense_writtenFor (instructionOf_eq_ok_iff.mp made).2 held

/-! ## Emission -/

theorem emit_eq_ok_iff {item : Item} {image next : Image} :
    item.emit symbols image = .ok next ↔ ∃ f, item.Makes symbols f ∧ image.enter f = next := by
  constructor
  · intro ran
    obtain ⟨f, address, text, bytes, fits, entered⟩ := Emission.emit_enter ran
    exact ⟨f, ⟨address, bytes, text, fits⟩, entered⟩
  · rintro ⟨f, ⟨address, bytes, text, fits⟩, rfl⟩
    obtain ⟨place, data, words⟩ := f
    cases address
    cases text
    exact StraightSource.emit_fits image item bytes fits

/-- **Emission enters the fragments that items make**, one after the other. -/
theorem emitAll_eq_ok_iff {items : List Item} {image done : Image} :
    emitAll symbols image items = .ok done ↔
      ∃ fs, List.Forall₂ (Item.Makes symbols) items fs ∧ fs.foldl Image.enter image = done := by
  induction items generalizing image with
  | nil =>
    constructor
    · rintro ⟨⟩
      exact ⟨[], .nil, rfl⟩
    · rintro ⟨_, ⟨⟩, rfl⟩
      rfl
  | cons item rest ih =>
    rw [emitAll]
    constructor
    · intro ran
      split at ran
      · rename_i next passed
        obtain ⟨f, makes, rfl⟩ := emit_eq_ok_iff.mp passed
        obtain ⟨fs, others, entered⟩ := ih.mp ran
        exact ⟨f :: fs, .cons makes others, entered⟩
      · cases ran
    · rintro ⟨_, _ | ⟨makes, others⟩, entered⟩
      rw [emit_eq_ok_iff.mpr ⟨_, makes, rfl⟩]
      exact ih.mpr ⟨_, others, entered⟩

theorem makes_keeps (includes : Includes before after) {item : Item} {f : Fragment}
    (makes : item.Makes before f) : item.Makes after f :=
  { makes with bytes := bytes_keeps (statement_keeps_of_includes includes item.statement) makes.bytes }

/-- What is emitted is emitted with more labels, too. -/
theorem emitAll_keeps (includes : Includes before after) {items : List Item} {image done : Image}
    (ran : emitAll before image items = .ok done) : emitAll after image items = .ok done := by
  obtain ⟨fs, made, entered⟩ := emitAll_eq_ok_iff.mp ran
  exact emitAll_eq_ok_iff.mpr ⟨fs, made.imp fun _ _ => makes_keeps includes, entered⟩

end Y86Toolkit.Senses
