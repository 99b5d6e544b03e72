import Y86Toolkit.Memory
import Y86Toolkit.Proofs.Cells
import Y86Toolkit.Proofs.Encoding

/-!
Reading an instruction out of memory. At every address one of three things is
found, told apart by the bytes alone: the instruction's bytes do not all lie in
memory (`CutOff`), they all do and show no instruction (`Malformed`), or an
instruction is read. The first is an address fault and the second is none.
-/

namespace Y86Toolkit

namespace Memory
open Instruction

/-- The byte at an address cannot be read, or the instruction that it starts
does not lie in memory as a whole. -/
def CutOff (m : Memory) (address : Word) : Prop :=
  m.bytes[address.toNat]? = none ∨
    ∃ (first : Byte) (o : Opcode), m.bytes[address.toNat]? = some first ∧ highHalf first = o.code ∧
      ¬ m.Inside address o.length

/-- The byte at an address has no opcode, or the instruction that it starts lies
in memory as a whole and has an undefined function code or fifteen in a half
byte that must name a register. -/
def Malformed (m : Memory) (address : Word) : Prop :=
  ∃ first, m.bytes[address.toNat]? = some first ∧
    (11 < highHalf first ∨
      ∃ o : Opcode, highHalf first = o.code ∧ m.Inside address o.length ∧
        (o.functions ≤ lowHalf first ∨
          ∃ registers, m.bytes[address.toNat + 1]? = some registers ∧
            (o.namesHigh ∧ highHalf registers = noRegister ∨
              o.namesLow ∧ lowHalf registers = noRegister)))

end Memory

namespace Fetch
open Instruction Encoding Fallible Cells

/-! ## Why decoding fails -/

theorem plain_eq_error {o : Opcode} {function : Nat} {cause : DecodeError} :
    decodeOperands.plain o function = .error cause ↔
      function ≠ 0 ∧ .invalidFunction o.code function = cause := by
  rw [decodeOperands.plain]
  split <;> simp [*]

theorem functionCode_eq_error {α : Type} {o : Opcode} {function : Nat} {lookup : Nat → Option α}
    {cause : DecodeError} :
    decodeOperands.functionCode o function lookup = .error cause ↔
      lookup function = none ∧ .invalidFunction o.code function = cause := by
  rw [decodeOperands.functionCode]
  cases lookup function <;> simp

theorem decodeRegister_eq_error {number : Nat} {cause : DecodeError} :
    decodeRegister number = .error cause ↔
      Register.ofNumber? number = none ∧ .invalidRegister number = cause := by
  rw [decodeRegister]
  cases Register.ofNumber? number <;> simp

/-- Bytes of which there are enough never fail for want of bytes. -/
theorem decodeOperands_error {o : Opcode} {function : Nat} {operands : List Byte}
    {cause : DecodeError} (failed : decodeOperands o function operands = .error cause) :
    (FetchError.decode cause).isAddressFault = false := by
  cases o <;>
    simp only [decodeOperands, bind_eq_error, pure_eq_error, plain_eq_error, functionCode_eq_error,
      decodeOperands.high, decodeOperands.low, decodeRegister_eq_error] at failed <;>
    grind [FetchError.isAddressFault]

theorem exists_register {number : Nat} (half : number < 16) (named : number ≠ noRegister) :
    ∃ r : Register, number = r.index.val := by
  have below : number < 15 := Nat.lt_of_le_of_ne (Nat.le_of_lt_succ half) named
  cases found : Register.ofNumber? number with
  | some r => exact ⟨r, Register.ofNumber?_eq_some found⟩
  | none =>
    have above : 15 ≤ number := List.getElem?_eq_none_iff.mp found
    omega

theorem exists_condition {function : Nat} (defined : function < 7) :
    ∃ c : Condition, function = c.function := by
  cases found : Condition.ofFunction? function with
  | some c => exact ⟨c, Condition.ofFunction?_eq_some found⟩
  | none =>
    have above : 7 ≤ function := List.getElem?_eq_none_iff.mp found
    omega

theorem exists_operation {function : Nat} (defined : function < 4) :
    ∃ op : AluOp, function = op.function := by
  cases found : AluOp.ofFunction? function with
  | some op => exact ⟨op, AluOp.ofFunction?_eq_some found⟩
  | none =>
    have above : 4 ≤ function := List.getElem?_eq_none_iff.mp found
    omega

/-- Every function code of an opcode, with any registers and constant, belongs to
an instruction. -/
theorem exists_instruction {o : Opcode} {function : Nat} (defined : function < o.functions)
    (r s : Register) (w : Word) :
    ∃ i : Instruction, o = i.opcode ∧ function = i.function ∧ (∀ named ∈ i.high?, named = r) ∧
      (∀ named ∈ i.low?, named = s) ∧ ∀ constant ∈ i.constant?, constant = w := by
  cases o with
  | halt => exact ⟨.halt, rfl, Nat.lt_one_iff.mp defined, nofun, nofun, nofun⟩
  | nop => exact ⟨.nop, rfl, Nat.lt_one_iff.mp defined, nofun, nofun, nofun⟩
  | ret => exact ⟨.ret, rfl, Nat.lt_one_iff.mp defined, nofun, nofun, nofun⟩
  | push =>
    exact ⟨.push r, rfl, Nat.lt_one_iff.mp defined, by rintro _ ⟨⟩; rfl, nofun, nofun⟩
  | pop => exact ⟨.pop r, rfl, Nat.lt_one_iff.mp defined, by rintro _ ⟨⟩; rfl, nofun, nofun⟩
  | call => exact ⟨.call w, rfl, Nat.lt_one_iff.mp defined, nofun, nofun, by rintro _ ⟨⟩; rfl⟩
  | loadImmediate =>
    exact ⟨.loadImmediate w s, rfl, Nat.lt_one_iff.mp defined, nofun, by rintro _ ⟨⟩; rfl,
      by rintro _ ⟨⟩; rfl⟩
  | store =>
    exact ⟨.store r s w, rfl, Nat.lt_one_iff.mp defined, by rintro _ ⟨⟩; rfl, by rintro _ ⟨⟩; rfl,
      by rintro _ ⟨⟩; rfl⟩
  | load =>
    exact ⟨.load s r w, rfl, Nat.lt_one_iff.mp defined, by rintro _ ⟨⟩; rfl, by rintro _ ⟨⟩; rfl,
      by rintro _ ⟨⟩; rfl⟩
  | move =>
    obtain ⟨c, code⟩ := exists_condition defined
    exact ⟨.move c r s, rfl, code, by rintro _ ⟨⟩; rfl, by rintro _ ⟨⟩; rfl, nofun⟩
  | jump =>
    obtain ⟨c, code⟩ := exists_condition defined
    exact ⟨.jump c w, rfl, code, nofun, nofun, by rintro _ ⟨⟩; rfl⟩
  | alu =>
    obtain ⟨op, code⟩ := exists_operation defined
    exact ⟨.alu op r s, rfl, code, by rintro _ ⟨⟩; rfl, by rintro _ ⟨⟩; rfl, nofun⟩

/-- The function code is defined, and each half byte that must name a register
names one. -/
def Legible (o : Opcode) (function : Nat) (registers : Byte) : Prop :=
  function < o.functions ∧ (o.namesHigh = true → highHalf registers ≠ noRegister) ∧
    (o.namesLow = true → lowHalf registers ≠ noRegister)

/-- Operands show an instruction exactly when its function code and its
registers exist; a constant may be anything. -/
theorem decodeOperands_succeeds_iff {o : Opcode} {function : Nat} {operands : List Byte} :
    (∃ i, decodeOperands o function operands = .ok i) ↔ Legible o function (operands.headD 0) := by
  constructor
  · rintro ⟨i, decoded⟩
    obtain ⟨rfl, rfl, high, low, -⟩ := decodeOperands_eq_ok_iff.mp decoded
    refine ⟨function_lt_functions i, ?_, ?_⟩
    · intro names
      rw [namesHigh_opcode, Option.isSome_iff_exists] at names
      obtain ⟨r, named⟩ := names
      rw [high r named]
      exact Nat.ne_of_lt r.index.isLt
    · intro names
      rw [namesLow_opcode, Option.isSome_iff_exists] at names
      obtain ⟨r, named⟩ := names
      rw [low r named]
      exact Nat.ne_of_lt r.index.isLt
  · rintro ⟨defined, high, low⟩
    have registerOf {names : Bool} {half : Nat} (small : half < 16)
        (named : names = true → half ≠ noRegister) :
        ∃ r : Register, names = true → half = r.index.val := by
      cases names with
      | false => exact ⟨.rax, nofun⟩
      | true => exact (exists_register small (named rfl)).imp fun r is _ => is
    obtain ⟨r, isHigh⟩ := registerOf (highHalf_lt _) high
    obtain ⟨s, isLow⟩ := registerOf (lowHalf_lt _) low
    obtain ⟨i, rfl, rfl, high, low, constant⟩ := exists_instruction defined r s
      (Bytes.toWord ((operands.drop (o.length - 9)).take 8))
    refine ⟨i, decodeOperands_eq_ok_iff.mpr ⟨rfl, rfl, ?_, ?_, ?_⟩⟩
    · intro named has
      rw [high named has]
      exact isHigh (by rw [namesHigh_opcode, has]; rfl)
    · intro named has
      rw [low named has]
      exact isLow (by rw [namesLow_opcode, has]; rfl)
    · intro w has
      rw [← length_opcode]
      exact (constant w has).symm

/-! ## Reading at an address -/

variable {m : Memory} {address : Word}

theorem decodeAt_unreadable (unreadable : m.bytes[address.toNat]? = none) :
    m.decodeAt address = .error (.memory (.outside address 1 m.size)) := by
  simp only [Memory.decodeAt, Memory.readByte, unreadable]
  rfl

theorem decodeAt_undefined {first : Byte} (here : m.bytes[address.toNat]? = some first)
    (undefined : Opcode.ofCode? (highHalf first) = none) :
    m.decodeAt address = .error (.decode (.invalidOpcode (highHalf first))) := by
  simp only [Memory.decodeAt, Memory.readByte, here, Fallible.mapError_ok, bind, Except.bind]
  rw [undefined]
  rfl

theorem decodeAt_outside {first : Byte} {o : Opcode} (here : m.bytes[address.toNat]? = some first)
    (defined : highHalf first = o.code) (outside : ¬ m.Inside address o.length) :
    m.decodeAt address = .error (.memory (.outside address o.length m.size)) := by
  simp only [Memory.decodeAt, Memory.readByte, here, Fallible.mapError_ok, bind, Except.bind, defined]
  rw [Opcode.ofCode?_code]
  simp only [Memory.fetch, if_neg outside, Fallible.mapError_error]

/-- Where the whole instruction lies in memory, the bytes behind the first are
decoded. -/
theorem decodeAt_inside {first : Byte} {o : Opcode} (here : m.bytes[address.toNat]? = some first)
    (defined : highHalf first = o.code) (inside : m.Inside address o.length) :
    m.decodeAt address = (decodeOperands o (lowHalf first)
      (Bytes.slice m.bytes (address.toNat + 1) (address.toNat + o.length))).mapError .decode := by
  have before : address.toNat < address.toNat + o.length := Nat.lt_add_of_pos_right o.length_pos
  have enough : ¬ (first :: Bytes.slice m.bytes (address.toNat + 1) (address.toNat + o.length)).length
      < o.length := by
    rw [← slice_cons before here, length_slice]
    have bound : address.toNat + o.length ≤ m.bytes.size := inside
    omega
  simp only [Memory.decodeAt, Memory.readByte, here, Fallible.mapError_ok, bind, Except.bind, defined]
  rw [Opcode.ofCode?_code]
  simp only [Memory.fetch, if_pos inside, Fallible.mapError_ok, slice_cons before here, decode, defined]
  rw [Opcode.ofCode?_code]
  simp only [if_neg enough]

/-- An instruction is read where memory shows all of it. -/
theorem decodeAt_of_shows {i : Instruction} (inside : m.Inside address i.length)
    (shows : Shows (Bytes.slice m.bytes address.toNat (address.toNat + i.length)) i) :
    m.decodeAt address = .ok i := by
  have before : address.toNat < address.toNat + i.length := Nat.lt_add_of_pos_right i.length_pos
  have here : m.bytes[address.toNat]? = some (pack i.opcode.code i.function) := by
    rw [← shows.first, List.head?_eq_getElem?, getElem?_slice, Nat.add_zero, if_pos before]
  have holds := shows.holds
  rw [slice_cons before here, List.tail_cons] at holds
  rw [← length_opcode] at inside holds
  rw [decodeAt_inside here (highHalf_pack (code_lt _) (function_lt _)) inside,
    lowHalf_pack (code_lt _) (function_lt _), decodeOperands_eq_ok_iff.mpr ⟨rfl, rfl, holds⟩]
  rfl

theorem code_le (o : Opcode) : o.code ≤ 11 := by
  cases o <;> decide

/-- Where the whole instruction lies in memory, it is malformed exactly when its
function code or one of its registers does not exist. -/
theorem malformed_iff {first : Byte} {o : Opcode} (here : m.bytes[address.toNat]? = some first)
    (defined : highHalf first = o.code) (inside : m.Inside address o.length) :
    m.Malformed address ↔ ¬ Legible o (lowHalf first)
      ((Bytes.slice m.bytes (address.toNat + 1) (address.toNat + o.length)).headD 0) := by
  have second (names : o.namesHigh = true ∨ o.namesLow = true) :
      ∃ registers, m.bytes[address.toNat + 1]? = some registers ∧
        (Bytes.slice m.bytes (address.toNat + 1) (address.toNat + o.length)).headD 0 = registers := by
    have two := Opcode.two_le_length names
    have bound : address.toNat + o.length ≤ m.bytes.size := inside
    refine ⟨m.bytes[address.toNat + 1], Array.getElem?_eq_getElem (by omega), ?_⟩
    rw [headD_slice (by omega), Array.getElem?_eq_getElem (by omega)]
    rfl
  constructor
  · rintro ⟨found, there, undefined⟩ ⟨function, high, low⟩
    obtain rfl : first = found := Option.some.inj (here.symm.trans there)
    rcases undefined with above | ⟨p, code, -, wrong⟩
    · have bound := code_le o
      omega
    · obtain rfl : o = p := Opcode.code_inj (defined.symm.trans code)
      rcases wrong with above | ⟨registers, behind, half⟩
      · omega
      · rcases half with ⟨names, missing⟩ | ⟨names, missing⟩
        · obtain ⟨found, there, head⟩ := second (.inl names)
          obtain rfl : registers = found := Option.some.inj (behind.symm.trans there)
          exact high names (head ▸ missing)
        · obtain ⟨found, there, head⟩ := second (.inr names)
          obtain rfl : registers = found := Option.some.inj (behind.symm.trans there)
          exact low names (head ▸ missing)
  · intro illegible
    refine ⟨first, here, .inr ⟨o, defined, inside, ?_⟩⟩
    apply Classical.byContradiction
    intro well
    obtain ⟨function, registers⟩ := not_or.mp well
    refine illegible ⟨Nat.lt_of_not_le function, ?_, ?_⟩
    · intro names missing
      obtain ⟨found, there, head⟩ := second (.inl names)
      exact registers ⟨found, there, .inl ⟨names, head ▸ missing⟩⟩
    · intro names missing
      obtain ⟨found, there, head⟩ := second (.inr names)
      exact registers ⟨found, there, .inr ⟨names, head ▸ missing⟩⟩

/-- An instruction that is cut off is not malformed: too little of it is there. -/
theorem not_malformed_of_cutOff (cut : m.CutOff address) : ¬ m.Malformed address := by
  rintro ⟨first, here, undefined⟩
  rcases cut with unreadable | ⟨found, o, there, code, outside⟩
  · rw [unreadable] at here
    cases here
  · obtain rfl : first = found := Option.some.inj (here.symm.trans there)
    rcases undefined with above | ⟨p, same, inside, -⟩
    · have bound := code_le o
      omega
    · obtain rfl : o = p := Opcode.code_inj (code.symm.trans same)
      exact outside inside

/-- **What is found at an address**: a malformed instruction, which is no address
fault, or one that is cut off, which is one, or an instruction. -/
theorem decodeAt_cases (m : Memory) (address : Word) :
    (m.Malformed address ∧
      ∃ cause, m.decodeAt address = .error cause ∧ cause.isAddressFault = false) ∨
    (m.CutOff address ∧
      ∃ cause, m.decodeAt address = .error cause ∧ cause.isAddressFault = true) ∨
    (¬ m.Malformed address ∧ ¬ m.CutOff address ∧ ∃ i, m.decodeAt address = .ok i) := by
  cases here : m.bytes[address.toNat]? with
  | none => exact .inr (.inl ⟨.inl here, _, decodeAt_unreadable here, rfl⟩)
  | some first =>
    cases opcode : Opcode.ofCode? (highHalf first) with
    | none =>
      have above : 12 ≤ highHalf first := List.getElem?_eq_none_iff.mp opcode
      exact .inl ⟨⟨first, here, .inl above⟩, _, decodeAt_undefined here opcode, rfl⟩
    | some o =>
      have defined := Opcode.ofCode?_eq_some opcode
      by_cases inside : m.Inside address o.length
      · have read := decodeAt_inside here defined inside
        have wrong := malformed_iff here defined inside
        rw [← decodeOperands_succeeds_iff] at wrong
        cases decoded : decodeOperands o (lowHalf first)
            (Bytes.slice m.bytes (address.toNat + 1) (address.toNat + o.length)) with
        | error cause =>
          rw [decoded] at read wrong
          exact .inl ⟨wrong.mpr (by rintro ⟨i, ⟨⟩⟩), _, read, decodeOperands_error decoded⟩
        | ok i =>
          rw [decoded] at read wrong
          refine .inr (.inr ⟨fun malformed => wrong.mp malformed ⟨i, rfl⟩, ?_, i, read⟩)
          rintro (unreadable | ⟨found, p, there, code, outside⟩)
          · rw [here] at unreadable
            cases unreadable
          · obtain rfl : first = found := Option.some.inj (here.symm.trans there)
            obtain rfl : o = p := Opcode.code_inj (defined.symm.trans code)
            exact outside inside
      · exact .inr (.inl ⟨.inr ⟨first, o, here, defined, inside⟩, _,
          decodeAt_outside here defined inside, rfl⟩)

end Fetch

end Y86Toolkit
