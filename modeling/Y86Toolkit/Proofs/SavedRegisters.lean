import Y86Toolkit.Proofs.MemoryFrames
import Y86Toolkit.Proofs.Runs

/-!
Registers saved on the stack. Pushes followed by pops in the opposite order bring every
register back, the stack pointer included, and leave no trace but in the part of the
stack that they used (`saved_registers_return`). Nested pairs use disjoint words, so what
stands between a push and its pop never writes over the word that is to be popped.
-/

namespace Y86Toolkit

/-- Instructions stand one behind the other, where the program counter finds them, with
none of their bytes between `low` and `high`. -/
def Memory.HoldsOutside (m : Memory) (low high : Nat) : Word → List Instruction → Prop
  | _, [] => True
  | address, i :: rest =>
    (m.fetch address i.length = .ok i.encode ∧ (address.toNat + i.length ≤ low ∨ high ≤ address.toNat)) ∧
      m.HoldsOutside low high (address + UInt64.ofNat i.length) rest

namespace SavedRegisters
open Memory MemoryFrames StepTable Runs

/-! ## Code in memory -/

section
variable {m before after : Memory} {low high : Nat} {address : Word}

/-- How many bytes instructions take. -/
def extent : List Instruction → Nat
  | [] => 0
  | i :: code => i.length + extent code

theorem extent_append (first second : List Instruction) :
    extent (first ++ second) = extent first + extent second := by
  induction first with
  | nil => exact (Nat.zero_add _).symm
  | cons i first ih => simp [extent, ih, Nat.add_assoc]

theorem holdsOutside_append (first second : List Instruction) :
    m.HoldsOutside low high address (first ++ second) ↔
      m.HoldsOutside low high address first ∧
        m.HoldsOutside low high (address + UInt64.ofNat (extent first)) second := by
  induction first generalizing address with
  | nil => simp [HoldsOutside, extent]
  | cons i first ih =>
    have behind : address + UInt64.ofNat i.length + UInt64.ofNat (extent first) =
        address + UInt64.ofNat (extent (i :: first)) := by
      rw [UInt64.add_assoc, ← UInt64.ofNat_add]
      rfl
    simp only [List.cons_append, HoldsOutside, ih, behind, and_assoc]

/-- Code is not disturbed by changes that it stays clear of. -/
theorem HoldsOutside.kept {code : List Instruction} (same : SameOutside low high before after)
    (holds : before.HoldsOutside low high address code) : after.HoldsOutside low high address code := by
  induction code generalizing address with
  | nil => trivial
  | cons i code ih =>
    obtain ⟨⟨found, apart⟩, rest⟩ := holds
    exact ⟨⟨(fetch_sameOutside same apart).trans found, apart⟩, ih rest⟩

theorem HoldsOutside.narrow {code : List Instruction} {low' high' : Nat} (lower : low ≤ low')
    (upper : high' ≤ high) (holds : m.HoldsOutside low high address code) :
    m.HoldsOutside low' high' address code := by
  induction code generalizing address with
  | nil => trivial
  | cons i code ih =>
    obtain ⟨⟨found, apart⟩, rest⟩ := holds
    exact ⟨⟨found, by omega⟩, ih rest⟩

end

/-! ## One push and one pop -/

variable {m : Machine} {r : Register}

/-- What a push stores: the stack pointer is decremented first. -/
def pushed (m : Machine) (r : Register) : Word :=
  if r = .rsp then m.stackPointer - 8 else m.registers.get r

/-- A stack pointer of eight or more inside memory leaves room for one push. -/
theorem room_push (low : 8 ≤ m.stackPointer.toNat) (high : m.stackPointer.toNat ≤ m.memory.size) :
    (m.stackPointer - 8).toNat = m.stackPointer.toNat - 8 ∧
      m.memory.Inside (m.stackPointer - 8) Bytes.perWord := by
  have top : (m.stackPointer - 8).toNat = m.stackPointer.toNat - 8 :=
    UInt64.toNat_sub_of_le _ _ (UInt64.le_iff_toNat_le.mpr low)
  refine ⟨top, ?_⟩
  rw [Memory.Inside, top, Bytes.perWord]
  omega

theorem next_push (running : m.status = .running)
    (decoded : m.memory.decodeAt m.pc = .ok (.push r))
    (inside : m.memory.Inside (m.stackPointer - 8) Bytes.perWord) :
    m.next = { m with
      registers := m.registers.set .rsp (m.stackPointer - 8)
      memory := m.memory.store (m.stackPointer - 8) (pushed m r)
      pc := m.pc + 2
      steps := m.steps + 1 } := by
  have reaches : Reaches m (.push r) := by
    rintro address ⟨⟩
    exact inside
  rw [Machine.next, step_reaches running decoded reaches]
  rfl

theorem stackPointer_push (running : m.status = .running)
    (decoded : m.memory.decodeAt m.pc = .ok (.push r))
    (inside : m.memory.Inside (m.stackPointer - 8) Bytes.perWord) :
    m.next.stackPointer = m.stackPointer - 8 := by
  rw [next_push running decoded inside, Machine.stackPointer, RegisterFile.get_set, if_pos rfl]

theorem sameOutside_push (running : m.status = .running)
    (decoded : m.memory.decodeAt m.pc = .ok (.push r))
    (inside : m.memory.Inside (m.stackPointer - 8) Bytes.perWord) :
    SameOutside (m.stackPointer - 8).toNat ((m.stackPointer - 8).toNat + 8) m.memory m.next.memory := by
  rw [next_push running decoded inside]
  exact sameOutside_store _ _ _

theorem next_pop (running : m.status = .running)
    (decoded : m.memory.decodeAt m.pc = .ok (.pop r))
    (inside : m.memory.Inside m.stackPointer Bytes.perWord) :
    m.next =
      let popped := m.registers.set r (m.memory.loaded (.load m.stackPointer))
      { m with
        registers := popped.set .rsp (popped.get .rsp + 8)
        pc := m.pc + 2
        steps := m.steps + 1 } := by
  have reaches : Reaches m (.pop r) := by
    rintro address ⟨⟩
    exact inside
  rw [Machine.next, step_reaches running decoded reaches]
  rfl

/-- Popping what was pushed gives the registers as they were in front of the push. -/
theorem set_pushed (m : Machine) (r : Register) :
    let popped := (m.registers.set .rsp (m.stackPointer - 8)).set r (pushed m r)
    popped.set .rsp (popped.get .rsp + 8) = m.registers := by
  intro popped
  have top : m.stackPointer - 8 + 8 = m.registers.get .rsp := UInt64.sub_add_cancel _ _
  apply RegisterFile.ext_get
  intro s
  by_cases stack : r = .rsp
  · subst stack
    by_cases same : Register.rsp = s
    · subst same
      simp [popped, RegisterFile.get_set, pushed, top]
    · simp [popped, RegisterFile.get_set, same]
  · by_cases same : Register.rsp = s
    · subst same
      simp [popped, RegisterFile.get_set, stack, top]
    · by_cases target : r = s
      · subst target
        simp [popped, RegisterFile.get_set, same, pushed, stack]
      · simp [popped, RegisterFile.get_set, same, target]

/-- A pop brings back what the matching push has saved, if what is done in between ends
with the stack pointer where it was and writes only below the saved word. -/
theorem afterSteps_pair {k low : Nat} {memory : Memory} {pc steps : Word} (running : m.status = .running)
    (pushes : m.memory.decodeAt m.pc = .ok (.push r))
    (inside : m.memory.Inside (m.stackPointer - 8) Bytes.perWord)
    (between : m.next.afterSteps k = { m.next with memory, pc, steps })
    (kept : SameOutside low (m.stackPointer - 8).toNat m.next.memory memory)
    (pops : memory.decodeAt pc = .ok (.pop r)) :
    m.afterSteps (k + 2) = { m with memory, pc := pc + 2, steps := steps + 1 } := by
  have push := next_push running pushes inside
  have top := stackPointer_push running pushes inside
  have saved : memory.loaded (.load (m.stackPointer - 8)) = pushed m r := by
    rw [loaded_sameOutside kept (.inr (Nat.le_refl _)), push]
    exact loaded_store inside
  have room : memory.Inside (m.stackPointer - 8) Bytes.perWord := by
    have size : memory.size = m.memory.size := by
      rw [kept.size, push]
      exact size_after m.memory (.store _ _)
    rw [Memory.Inside, size]
    exact inside
  have pop := next_pop (m := { m.next with memory, pc, steps }) (r := r) (by rw [push]; exact running) pops
    (top ▸ room)
  have all : m.afterSteps (k + 2) = (m.next.afterSteps k).next := afterSteps_succ (m := m.next) k
  have loaded : memory.loaded (.load m.next.stackPointer) = pushed m r := by rw [top, saved]
  have registers := set_pushed m r
  rw [all, between, pop]
  simp only [Machine.stackPointer] at loaded ⊢
  rw [loaded, push]
  simp only [registers]

/-! ## Pushes and pops -/

/-- The code that saves registers and restores them. -/
def code (rs : List Register) : List Instruction := rs.map .push ++ rs.reverse.map .pop

theorem code_cons (r : Register) (rs : List Register) :
    code (r :: rs) = .push r :: (code rs ++ [.pop r]) := by
  simp [code]

theorem extent_code (rs : List Register) : extent (code rs) = 4 * rs.length := by
  induction rs with
  | nil => rfl
  | cons r rs ih =>
    simp only [code_cons, extent, extent_append, ih, Instruction.length, List.length_cons]
    omega

theorem add_around (w : Word) (a n b : Nat) :
    w + UInt64.ofNat a + UInt64.ofNat n + UInt64.ofNat b = w + UInt64.ofNat (n + (a + b)) := by
  rw [UInt64.ofNat_add, UInt64.ofNat_add]
  ac_rfl

/-- The machine behind the code: nothing has changed but the program counter, the step
count and bytes in the part of the stack that was used. -/
theorem afterSteps_code (rs : List Register) {m : Machine} (running : m.status = .running)
    (low : 8 * rs.length ≤ m.stackPointer.toNat) (high : m.stackPointer.toNat ≤ m.memory.size)
    (holds : m.memory.HoldsOutside (m.stackPointer.toNat - 8 * rs.length) m.stackPointer.toNat m.pc (code rs)) :
    ∃ memory, SameOutside (m.stackPointer.toNat - 8 * rs.length) m.stackPointer.toNat m.memory memory ∧
      m.afterSteps (2 * rs.length) = { m with
        memory
        pc := m.pc + UInt64.ofNat (4 * rs.length)
        steps := m.steps + UInt64.ofNat (2 * rs.length) } := by
  induction rs generalizing m with
  | nil =>
    refine ⟨m.memory, .refl .., ?_⟩
    simp [Machine.afterSteps]
  | cons r rs ih =>
    rw [List.length_cons] at low holds ⊢
    rw [code_cons] at holds
    obtain ⟨⟨found, -⟩, behind⟩ := holds
    obtain ⟨top, inside⟩ := room_push (m := m) (by omega) high
    -- The push, which leaves the rest of the code as it is.
    have push := next_push running (decodeAt_of_fetch found) inside
    have lowered := stackPointer_push running (decodeAt_of_fetch found) inside
    have stored : SameOutside (m.stackPointer.toNat - 8) m.stackPointer.toNat m.memory m.next.memory :=
      (sameOutside_push running (decodeAt_of_fetch found) inside).widen (by omega) (by omega)
    have next : m.next.pc = m.pc + UInt64.ofNat (Instruction.push r).length := by
      rw [push]
      rfl
    rw [← next] at behind
    have rest := HoldsOutside.kept (stored.widen (by omega) (Nat.le_refl _)) behind
    obtain ⟨inner, last⟩ := (holdsOutside_append _ _).mp rest
    -- The pairs in between, which stay below the word that was pushed.
    have below : m.next.stackPointer.toNat - 8 * rs.length = m.stackPointer.toNat - 8 * (rs.length + 1) := by
      rw [lowered, top]
      omega
    obtain ⟨memory, kept, back⟩ := ih (m := m.next) (by rw [push]; exact running)
      (by rw [lowered, top]; omega) (by rw [lowered, top, stored.size]; omega)
      (HoldsOutside.narrow (by omega) (by rw [lowered, top]; omega) inner)
    rw [below, lowered] at kept
    -- The pop, whose code no push has written over.
    have pop := (HoldsOutside.kept (kept.widen (Nat.le_refl _) (by omega)) last).1.1
    rw [extent_code] at pop
    have whole := afterSteps_pair running (decodeAt_of_fetch found) inside back kept (decodeAt_of_fetch pop)
    refine ⟨memory,
      (stored.widen (by omega) (Nat.le_refl _)).trans (kept.widen (Nat.le_refl _) (by omega)), ?_⟩
    have pc : m.next.pc + UInt64.ofNat (4 * rs.length) + 2 = m.pc + UInt64.ofNat (4 * rs.length + 4) := by
      rw [push]
      exact add_around m.pc 2 (4 * rs.length) 2
    have steps : m.next.steps + UInt64.ofNat (2 * rs.length) + 1 =
        m.steps + UInt64.ofNat (2 * rs.length + 2) := by
      rw [push]
      exact add_around m.steps 1 (2 * rs.length) 1
    rw [Nat.mul_succ, Nat.mul_succ, whole, pc, steps]

/-- **Saved registers come back.** Registers are pushed one by one, any of them as often as
one likes and the stack pointer among them, and popped in the opposite order. If the
stack has room for them inside memory and the code stays clear of it, the machine goes on
behind the code with every register and flag as it was, and memory has changed in the
words that were used of the stack at most. -/
theorem saved_registers_return (m : Machine) (rs : List Register) (running : m.status = .running)
    (low : 8 * rs.length ≤ m.stackPointer.toNat) (high : m.stackPointer.toNat ≤ m.memory.size)
    (holds : m.memory.HoldsOutside (m.stackPointer.toNat - 8 * rs.length) m.stackPointer.toNat m.pc
      (rs.map .push ++ rs.reverse.map .pop)) :
    let after := m.afterSteps (2 * rs.length)
    after.status = .running ∧ after.registers = m.registers ∧ after.flags = m.flags ∧
      after.pc = m.pc + UInt64.ofNat (4 * rs.length) ∧
      m.memory.SameOutside (m.stackPointer.toNat - 8 * rs.length) m.stackPointer.toNat after.memory := by
  obtain ⟨memory, same, back⟩ := afterSteps_code rs running low high holds
  intro after
  have state : after = _ := back
  rw [state]
  exact ⟨running, rfl, rfl, rfl, same⟩

/-- A machine that saves a register twice, with the stack pointer in between, in a memory
that the code and the stack fill up. -/
def savesTwice : Machine :=
  { Machine.fresh {} with
    registers := (RegisterFile.zero.set .rax 7).set .rsp 36
    memory := ⟨#[0xA0, 0x0F, 0xA0, 0x4F, 0xA0, 0x0F, 0xB0, 0x0F, 0xB0, 0x4F, 0xB0, 0x0F] ++
      Array.replicate 24 0xFF⟩ }

/-- Both registers come back after six steps, though the stack now holds the pointer too. -/
theorem saved_registers_return_twice :
    savesTwice.status = .running ∧ savesTwice.stackPointer.toNat = 36 ∧ savesTwice.memory.size = 36 ∧
      savesTwice.memory.HoldsOutside 12 36 savesTwice.pc
        [.push .rax, .push .rsp, .push .rax, .pop .rax, .pop .rsp, .pop .rax] ∧
      (savesTwice.afterSteps 6).status = .running ∧
      (savesTwice.afterSteps 6).registers = savesTwice.registers ∧
      (savesTwice.afterSteps 6).pc = 12 ∧
      (savesTwice.afterSteps 6).memory.readWord 20 = .ok 20 := by
  have holds : savesTwice.memory.HoldsOutside 12 36 savesTwice.pc
      [.push .rax, .push .rsp, .push .rax, .pop .rax, .pop .rsp, .pop .rax] :=
    ⟨⟨rfl, by decide⟩, ⟨rfl, by decide⟩, ⟨rfl, by decide⟩, ⟨rfl, by decide⟩, ⟨rfl, by decide⟩,
      ⟨rfl, by decide⟩, trivial⟩
  obtain ⟨runs, registers, -, pc, -⟩ :=
    saved_registers_return savesTwice [.rax, .rsp, .rax] rfl (by decide) (by decide) holds
  exact ⟨rfl, rfl, rfl, holds, runs, registers, pc, rfl⟩

end SavedRegisters

end Y86Toolkit
