import Y86Toolkit.Proofs.MemoryWords
import Y86Toolkit.Proofs.SignedWords
import Y86Toolkit.Proofs.StepFaults

/-!
The instruction table, on numbers. A row says for one instruction which word of
memory it reads or writes, which registers and flags get new values, and where the
machine goes on; all that a row does not mention stays. Sums and differences are
those of integers, of which what is left modulo 2 ^ 64 is kept. A step makes exactly
the changes of its row (`step_tabulated`).
-/

namespace Y86Toolkit

namespace InstructionTable

/-- What is left of an integer modulo 2 ^ 64. -/
def wrapped (i : Int) : Nat := (i % 2 ^ 64).toNat

/-- A number below 2 ^ 64 in two's complement. -/
def signed (n : Nat) : Int := if n < 2 ^ 63 then n else n - 2 ^ 64

/-- An integer is no signed number of 64 bits. -/
def exceeds (i : Int) : Bool := i < -2 ^ 63 || 2 ^ 63 ≤ i

/-- What a condition asks of the flags. -/
def Met (flags : Flags) : Condition → Prop
  | .always => True
  | .lessEqual => flags.zero ∨ flags.sign ≠ flags.overflow
  | .less => flags.sign ≠ flags.overflow
  | .equal => flags.zero
  | .notEqual => ¬ flags.zero
  | .greaterEqual => flags.zero ∨ flags.sign = flags.overflow
  | .greater => ¬ flags.zero ∧ flags.sign = flags.overflow

instance (flags : Flags) (c : Condition) : Decidable (Met flags c) :=
  match c with
  | .always => inferInstanceAs (Decidable True)
  | .lessEqual => inferInstanceAs (Decidable (_ ∨ _))
  | .less => inferInstanceAs (Decidable (_ ≠ _))
  | .equal => inferInstanceAs (Decidable (_ = true))
  | .notEqual => inferInstanceAs (Decidable (¬ _))
  | .greaterEqual => inferInstanceAs (Decidable (_ ∨ _))
  | .greater => inferInstanceAs (Decidable (_ ∧ _))

/-- The result of an operation on two registers. -/
def result (op : AluOp) (target source : Nat) : Nat :=
  match op with
  | .add => wrapped (target + source)
  | .sub => wrapped (target - source)
  | .and => target &&& source
  | .xor => target ^^^ source

/-- Whether the operation overflows as one on signed numbers. Subtracting is adding
the negation, and the least number is its own. -/
def overflows (op : AluOp) (target source : Nat) : Bool :=
  match op with
  | .add => exceeds (signed target + signed source)
  | .sub => exceeds (signed target + signed (wrapped (-source)))
  | .and | .xor => false

/-- The state of a machine, in numbers. -/
@[ext] structure State where
  register : Register → Nat
  /-- The bytes of memory; zero where there is none. -/
  byte : Nat → Nat
  size : Nat
  pc : Nat
  flags : Flags
  status : Status
  steps : Nat

/-- What the table says of an instruction. -/
structure Row where
  /-- The address of the word that is read or written. -/
  access : Option Nat := none
  /-- The value that is written there. -/
  stored : Option Nat := none
  /-- The registers that get a value, with it. -/
  registers : List (Register × Nat) := []
  flags : Option Flags := none
  status : Option Status := none
  /-- Where the machine goes on. -/
  next : Nat

namespace State

/-- The word at an address. -/
def word (s : State) (address : Nat) : Nat := ∑ j ∈ Finset.range 8, s.byte (address + j) * 256 ^ j

/-- The row of an instruction, for the state that it finds. -/
def row (s : State) (i : Instruction) : Row :=
  let next := wrapped (s.pc + i.length)
  match i with
  | .halt => { status := some .halted, next := s.pc }
  | .nop => { next }
  | .move condition source target =>
    { registers := if Met s.flags condition then [(target, s.register source)] else [], next }
  | .loadImmediate value target => { registers := [(target, value.toNat)], next }
  | .store source base displacement =>
    { access := some (wrapped (s.register base + displacement.toNat))
      stored := some (s.register source)
      next }
  | .load base target displacement =>
    let address := wrapped (s.register base + displacement.toNat)
    { access := some address, registers := [(target, s.word address)], next }
  | .alu op source target =>
    let value := result op (s.register target) (s.register source)
    { registers := [(target, value)]
      flags := some
        { overflow := overflows op (s.register target) (s.register source)
          sign := signed value < 0
          zero := value = 0 }
      next }
  | .jump condition destination =>
    { next := if Met s.flags condition then destination.toNat else next }
  | .call destination =>
    let top := wrapped (s.register .rsp - 8)
    { access := some top, stored := some next, registers := [(.rsp, top)], next := destination.toNat }
  | .ret =>
    let top := s.register .rsp
    { access := some top, registers := [(.rsp, wrapped (top + 8))], next := s.word top }
  | .push source =>
    let top := wrapped (s.register .rsp - 8)
    { access := some top
      stored := some (if source = .rsp then top else s.register source)
      registers := [(.rsp, top)]
      next }
  | .pop target =>
    let top := s.register .rsp
    let value := s.word top
    { access := some top
      registers :=
        if target = .rsp then [(.rsp, wrapped (value + 8))]
        else [(.rsp, wrapped (top + 8)), (target, value)]
      next }

/-- The state with the changes of a row. -/
def change (s : State) (r : Row) : State where
  register := fun register => (r.registers.lookup register).getD (s.register register)
  byte := fun i =>
    match r.access, r.stored with
    | some address, some value =>
      if address ≤ i ∧ i < address + 8 then value / 256 ^ (i - address) % 256 else s.byte i
    | _, _ => s.byte i
  size := s.size
  pc := r.next
  flags := r.flags.getD s.flags
  status := r.status.getD s.status
  steps := wrapped (s.steps + 1)

end State

end InstructionTable

open InstructionTable in
/-- The state of a machine. -/
def Machine.state (m : Machine) : State where
  register := fun r => (m.registers.get r).toNat
  byte := fun i => (Cells.cell m.memory.bytes i).toNat
  size := m.memory.size
  pc := m.pc.toNat
  flags := m.flags
  status := m.status
  steps := m.steps.toNat

namespace InstructionTable
open StepTable StepFaults SignedWords MemoryWords Cells

/-! ## Numbers -/

theorem toNat_add_eq_wrapped (a b : Word) : (a + b).toNat = wrapped (a.toNat + b.toNat) := by
  rw [UInt64.toNat_add, wrapped]
  omega

theorem toNat_sub_eq_wrapped (a b : Word) : (a - b).toNat = wrapped (a.toNat - b.toNat) := by
  have bound : b.toNat < 2 ^ 64 := b.toNat_lt
  rw [UInt64.toNat_sub, wrapped]
  omega

theorem signed_toNat (w : Word) : signed w.toNat = Word.toSigned Word.width w := by
  rw [signed]
  rcases toSigned_cases w with ⟨low, value⟩ | ⟨high, value⟩
  · rw [if_pos low, value]
  · rw [if_neg (Nat.not_lt_of_le high), value]

theorem holds_iff (flags : Flags) (c : Condition) : c.holds flags = true ↔ Met flags c := by
  cases c <;> simp [Condition.holds, Met]

/-- A sum of signed numbers wraps around at most once, towards the range. -/
theorem toSigned_add_cases (a b : Word) :
    Word.toSigned Word.width (a + b) = signed a.toNat + signed b.toNat ∨
      (2 ^ 63 ≤ signed a.toNat + signed b.toNat ∧
        Word.toSigned Word.width (a + b) = signed a.toNat + signed b.toNat - 2 ^ 64) ∨
      (signed a.toNat + signed b.toNat < -2 ^ 63 ∧
        Word.toSigned Word.width (a + b) = signed a.toNat + signed b.toNat + 2 ^ 64) := by
  have wraps := WordArithmetic.toSigned_add_cases (by decide) (Nat.le_refl Word.width) a b
  rw [Word.add_fst, limit_width] at wraps
  rw [signed_toNat, signed_toNat]
  exact wraps.imp_left And.right

/-- An addition overflows where the sum of the signed operands is out of range. -/
theorem add_snd (a b : Word) :
    (Word.add Word.width a b).2 = exceeds (signed a.toNat + signed b.toNat) := by
  have outside (i : Int) : (!decide (Word.Representable Word.width i)) = exceeds i := by
    rw [exceeds, ← decide_not, ← Bool.decide_or, decide_eq_decide]
    unfold Word.Representable Word.width
    omega
  rw [WordArithmetic.add_snd (by decide) (Nat.le_refl Word.width), outside, signed_toNat, signed_toNat]

theorem toNat_apply (op : AluOp) (a b : Word) :
    (op.apply a b).1.toNat = result op a.toNat b.toNat := by
  cases op with
  | add => rw [AluOp.apply, Word.add_fst, toNat_add_eq_wrapped, result]
  | sub => rw [AluOp.apply, Word.sub_fst, toNat_sub_eq_wrapped, result]
  | and => exact UInt64.toNat_and a b
  | xor => exact UInt64.toNat_xor a b

theorem apply_snd (op : AluOp) (a b : Word) :
    (op.apply a b).2 = overflows op a.toNat b.toNat := by
  cases op with
  | add => exact add_snd a b
  | sub =>
    have negated : (0 - b).toNat = wrapped (-b.toNat) := by
      rw [toNat_sub_eq_wrapped, UInt64.toNat_zero, Nat.cast_zero, Int.zero_sub]
    rw [AluOp.apply, Word.sub, Word.negate_width, add_snd, negated, overflows]
  | and | xor => rfl

/-! ## Rows -/

variable {m : Machine} {i : Instruction}

theorem toNat_nextPc : (m.nextPc i).toNat = wrapped (m.state.pc + i.length) := by
  have short : i.length < 2 ^ 64 := Nat.lt_of_le_of_lt i.length_le_maxLength (by decide)
  rw [Machine.nextPc, toNat_add_eq_wrapped, UInt64.toNat_ofNat', Nat.mod_eq_of_lt short]
  rfl

theorem toNat_pushed : (m.stackPointer - 8).toNat = wrapped (m.state.register .rsp - 8) :=
  toNat_sub_eq_wrapped m.stackPointer 8

theorem toNat_popped (top : Word) : (top + 8).toNat = wrapped (top.toNat + 8) :=
  toNat_add_eq_wrapped top 8

theorem toNat_displaced (base : Register) (displacement : Word) :
    (m.registers.get base + displacement).toNat =
      wrapped (m.state.register base + displacement.toNat) :=
  toNat_add_eq_wrapped (m.registers.get base) displacement

/-- A row accesses the word that the instruction does. -/
theorem access_row : (m.state.row i).access = (m.access i).address?.map UInt64.toNat := by
  cases i with
  | store source base displacement => exact congrArg some (toNat_displaced base displacement).symm
  | load base target displacement => exact congrArg some (toNat_displaced base displacement).symm
  | call | push => exact congrArg some toNat_pushed.symm
  | halt | nop | move | loadImmediate | alu | jump | ret | pop => rfl

/-- The word that an access stores. -/
def stored? : Access → Option Word
  | .store _ value => some value
  | _ => none

theorem stored_row : (m.state.row i).stored = (stored? (m.access i)).map UInt64.toNat := by
  cases i with
  | push source =>
    simp only [State.row, Machine.access, stored?, Option.map_some]
    by_cases top : source = .rsp
    · rw [if_pos top, if_pos top, toNat_pushed]
    · rw [if_neg top, if_neg top]
      rfl
  | call => exact congrArg some toNat_nextPc.symm
  | halt | nop | move | loadImmediate | alu | jump | store | load | ret | pop => rfl

/-- The bounds of the table are those of memory. -/
theorem reaches_iff :
    Reaches m i ↔ ∀ address ∈ (m.state.row i).access, address + 8 ≤ m.memory.size := by
  rw [access_row]
  cases made : (m.access i).address? with
  | none => simp [Reaches, made]
  | some address => simp [Reaches, made, Memory.Inside, Bytes.perWord]

/-- The word that is loaded is the one at the address of the row. -/
theorem toNat_loaded_row {address : Word} {n : Nat} (reaches : Reaches m i)
    (loads : m.access i = .load address) (same : address.toNat = n) :
    (m.memory.loaded (m.access i)).toNat = m.state.word n := by
  have inside : m.memory.Inside address Bytes.perWord := reaches address (by rw [loads]; rfl)
  rw [loads, ← same]
  exact toNat_loaded inside

/-! ## Registers -/

/-- The registers that a row mentions get its values, and the others stay. -/
def RegistersAgree (m : Machine) (i : Instruction) : Prop :=
  ∀ r, ((m.commit i).registers.get r).toNat =
    ((m.state.row i).registers.lookup r).getD (m.state.register r)

theorem registersAgree_none (kept : (m.commit i).registers = m.registers)
    (entries : (m.state.row i).registers = []) : RegistersAgree m i := by
  intro r
  rw [kept, entries]
  rfl

/-- Putting a word into a register is what the first entry of a row does. -/
theorem toNat_get_set {file : RegisterFile} {target r : Register} {value : Word} {n old : Nat}
    {rest : List (Register × Nat)} (same : value.toNat = n)
    (others : target ≠ r → (file.get r).toNat = (rest.lookup r).getD old) :
    ((file.set target value).get r).toNat = (((target, n) :: rest).lookup r).getD old := by
  rw [RegisterFile.get_set, List.lookup_cons, ← same]
  by_cases here : target = r
  · simp [here]
  · have other : (r == target) = false := by simpa using Ne.symm here
    rw [if_neg here, other]
    exact others here

theorem registersAgree_one {target : Register} {value : Word} {n : Nat}
    (set : (m.commit i).registers = m.registers.set target value)
    (entries : (m.state.row i).registers = [(target, n)]) (same : value.toNat = n) :
    RegistersAgree m i := by
  intro r
  rw [set, entries]
  exact toNat_get_set same fun _ => rfl

theorem registersAgree (reaches : Reaches m i) : RegistersAgree m i := by
  cases i with
  | halt | nop | store | jump =>
    exact registersAgree_none (by simp only [Machine.commit, Machine.complete]) rfl
  | move condition source target =>
    by_cases holds : condition.holds m.flags
    · have met : Met m.state.flags condition := (holds_iff _ _).mp holds
      have set : (m.commit (.move condition source target)).registers =
          m.registers.set target (m.registers.get source) := by
        rw [Machine.commit, complete_move, if_pos holds]
      exact registersAgree_one set (if_pos met) rfl
    · have unmet : ¬ Met m.state.flags condition := fun met => holds ((holds_iff _ _).mpr met)
      have kept : (m.commit (.move condition source target)).registers = m.registers := by
        rw [Machine.commit, complete_move, if_neg holds]
      exact registersAgree_none kept (if_neg unmet)
  | loadImmediate => exact registersAgree_one rfl rfl rfl
  | load base target displacement =>
    exact registersAgree_one rfl rfl (toNat_loaded_row reaches rfl (toNat_displaced base displacement))
  | alu op => exact registersAgree_one rfl rfl (toNat_apply op _ _)
  | call | push => exact registersAgree_one rfl rfl toNat_pushed
  | ret => exact registersAgree_one rfl rfl (toNat_popped _)
  | pop target =>
    have loaded : (m.memory.loaded (m.access (.pop target))).toNat = m.state.word (m.state.register .rsp) :=
      toNat_loaded_row reaches rfl rfl
    intro r
    simp only [Machine.commit, Machine.complete, State.row]
    by_cases top : target = .rsp
    · subst top
      rw [if_pos rfl]
      refine toNat_get_set ?_ fun other => ?_
      · rw [RegisterFile.get_set, if_pos rfl, toNat_popped, loaded]
      · rw [RegisterFile.get_set, if_neg other]
        rfl
    · rw [if_neg top]
      refine toNat_get_set ?_ fun _ => toNat_get_set loaded fun _ => rfl
      rw [RegisterFile.get_set, if_neg top, toNat_popped]
      rfl

/-! ## Memory -/

theorem toNat_cell_after {memory : Memory} {access : Access}
    (reaches : ∀ address ∈ access.address?, memory.Inside address Bytes.perWord) (a : Nat) :
    (cell (memory.after access).bytes a).toNat =
      match access.address?.map UInt64.toNat, (stored? access).map UInt64.toNat with
      | some address, some value =>
        if address ≤ a ∧ a < address + 8 then value / 256 ^ (a - address) % 256
        else (cell memory.bytes a).toNat
      | _, _ => (cell memory.bytes a).toNat := by
  cases access with
  | none | load => rfl
  | store address value => exact toNat_cell_store (reaches address rfl) a

theorem byte_commit (reaches : Reaches m i) (a : Nat) :
    (m.commit i).state.byte a = (m.state.change (m.state.row i)).byte a := by
  simp only [State.change, access_row, stored_row]
  exact toNat_cell_after reaches a

/-! ## Control -/

theorem toNat_pc_commit (reaches : Reaches m i) : (m.commit i).pc.toNat = (m.state.row i).next := by
  cases i with
  | halt | call => rfl
  | nop | store | loadImmediate | load | alu | push | pop => exact toNat_nextPc
  | move =>
    rw [Machine.commit, complete_move]
    exact toNat_nextPc
  | jump condition destination =>
    simp only [Machine.commit, Machine.complete, State.row]
    by_cases holds : condition.holds m.flags
    · have met : Met m.state.flags condition := (holds_iff _ _).mp holds
      rw [if_pos holds, if_pos met]
    · have unmet : ¬ Met m.state.flags condition := fun met => holds ((holds_iff _ _).mpr met)
      rw [if_neg holds, if_neg unmet, toNat_nextPc]
  | ret => exact toNat_loaded_row reaches rfl rfl

theorem ofResult_apply (op : AluOp) (a b : Word) :
    Flags.ofResult (op.apply a b).1 (op.apply a b).2 =
      { overflow := overflows op a.toNat b.toNat
        sign := signed (result op a.toNat b.toNat) < 0
        zero := result op a.toNat b.toNat = 0 } := by
  have zero : ((op.apply a b).1 == 0) = decide ((op.apply a b).1.toNat = 0) := by
    rw [Bool.beq_eq_decide_eq, decide_eq_decide]
    exact UInt64.toNat_inj.symm
  rw [Flags.ofResult, zero, ← signed_toNat, toNat_apply, apply_snd]

theorem flags_commit : (m.commit i).flags = (m.state.row i).flags.getD m.flags := by
  cases i with
  | alu op source target => exact ofResult_apply op _ _
  | move =>
    rw [Machine.commit, complete_move]
    rfl
  | _ => simp only [Machine.commit, Machine.complete, State.row, Option.getD_none]

theorem status_row : (m.commit i).status = (m.state.row i).status.getD m.status := by
  rw [status_commit]
  cases i <;> rfl

/-! ## Steps -/

theorem row_counted : (counted m).state.row i = m.state.row i := rfl

theorem state_commit (reaches : Reaches m i) :
    ((counted m).commit i).state = m.state.change (m.state.row i) := by
  have counts : Reaches (counted m) i := by
    rw [Reaches, access_counted]
    exact reaches
  rw [← row_counted]
  apply State.ext
  · exact funext (registersAgree counts)
  · exact funext (byte_commit counts)
  · exact size_after _ _
  · exact toNat_pc_commit counts
  · exact flags_commit
  · exact status_row
  · show ((counted m).commit i).steps.toNat = _
    rw [steps_commit]
    exact toNat_add_eq_wrapped m.steps 1

/-- A machine is its state and its configuration. -/
theorem ext_state {a b : Machine} (states : a.state = b.state)
    (configurations : a.configuration = b.configuration) : a = b := by
  have registers : a.registers = b.registers := RegisterFile.ext_get fun r =>
    UInt64.toNat_inj.mp (congrFun (congrArg State.register states) r)
  have bytes : a.memory.bytes = b.memory.bytes := ext_cell (congrArg State.size states) fun i =>
    UInt8.toNat_inj.mp (congrFun (congrArg State.byte states) i)
  have pc : a.pc = b.pc := UInt64.toNat_inj.mp (congrArg State.pc states)
  have flags : a.flags = b.flags := congrArg State.flags states
  have status : a.status = b.status := congrArg State.status states
  have steps : a.steps = b.steps := UInt64.toNat_inj.mp (congrArg State.steps states)
  cases a
  cases b
  cases registers
  cases pc
  cases flags
  cases status
  cases steps
  cases configurations
  exact congrArg (Machine.mk _ · _ _ _ _ _) (congrArg Memory.mk bytes)

/-! ## What an instruction leaves alone -/

theorem flags_kept (other : i.opcode ≠ .alu) : (m.commit i).flags = m.flags := by
  rw [flags_commit]
  cases i with
  | alu => exact absurd rfl other
  | _ => simp only [State.row, Option.getD_none]

theorem memory_kept (other : i.opcode ∉ [.store, .call, .push]) : (m.commit i).memory = m.memory := by
  rw [Machine.commit]
  cases i with
  | store | call | push => exact absurd (List.mem_of_elem_eq_true rfl) other
  | _ => rfl

theorem toNat_pc_advances (other : i.opcode ∉ [.halt, .jump, .call, .ret]) :
    (m.commit i).pc.toNat = wrapped (m.pc.toNat + i.length) := by
  cases i with
  | halt | jump | call | ret => exact absurd (List.mem_of_elem_eq_true rfl) other
  | move =>
    rw [Machine.commit, complete_move]
    exact toNat_nextPc
  | _ => exact toNat_nextPc

/-- **A step makes the changes of its row.** Where the machine runs, an instruction
stands at the program counter and its access lies in memory, the step is taken, and
in the machine after it every register, byte, flag and counter is the one that the
table says, computed on numbers; this fixes the machine. So only operations change
flags, only stores, calls and pushes change memory, and all but halts, jumps, calls
and returns go on behind the instruction. -/
theorem step_tabulated {m : Machine} {i : Instruction} (running : m.status = .running)
    (decoded : m.memory.decodeAt m.pc = .ok i)
    (inside : ∀ address ∈ (m.state.row i).access, address + 8 ≤ m.memory.size) :
    ∃ after, m.step = (.ok i, after) ∧
      after.state = m.state.change (m.state.row i) ∧ after.configuration = m.configuration ∧
      (∀ other : Machine, other.state = m.state.change (m.state.row i) →
        other.configuration = m.configuration → other = after) ∧
      (i.opcode ≠ .alu → after.flags = m.flags) ∧
      (i.opcode ∉ [.store, .call, .push] → after.memory = m.memory) ∧
      (i.opcode ∉ [.halt, .jump, .call, .ret] → after.pc.toNat = wrapped (m.pc.toNat + i.length)) := by
  have reaches : Reaches m i := reaches_iff.mpr inside
  have state := state_commit reaches
  have configuration : ((counted m).commit i).configuration = m.configuration :=
    configuration_commit (m := counted m)
  refine ⟨_, step_reaches running decoded reaches, state, configuration, ?_, flags_kept, memory_kept,
    toNat_pc_advances⟩
  intro other same configured
  exact ext_state (same.trans state.symm) (configured.trans configuration.symm)

/-- A machine that pops a word into the stack pointer. -/
def popsTop : Machine :=
  { Machine.fresh {} with
    registers := RegisterFile.zero.set .rsp 2
    memory := ⟨#[0xB0, 0x4F, 0x05, 0x01, 0, 0, 0, 0, 0, 0]⟩ }

/-- The stack pointer ends eight above the word that was popped. -/
theorem step_tabulated_popsTop :
    popsTop.status = .running ∧ popsTop.memory.decodeAt popsTop.pc = .ok (.pop .rsp) ∧
      (∀ address ∈ (popsTop.state.row (.pop .rsp)).access, address + 8 ≤ popsTop.memory.size) ∧
      ∃ after, popsTop.step = (.ok (.pop .rsp), after) ∧ after.state.register .rsp = 0x105 + 8 ∧
        after.state.pc = 2 ∧ after.memory = popsTop.memory := by
  have decoded : popsTop.memory.decodeAt popsTop.pc = .ok (.pop .rsp) := rfl
  have inside : ∀ address ∈ (popsTop.state.row (.pop .rsp)).access, address + 8 ≤ popsTop.memory.size := by
    decide
  obtain ⟨after, step, state, -, -, -, memory, -⟩ := step_tabulated rfl decoded inside
  refine ⟨rfl, decoded, inside, after, step, ?_, ?_, memory (by decide)⟩
  · rw [state]
    decide
  · rw [state]
    decide

end InstructionTable

end Y86Toolkit
