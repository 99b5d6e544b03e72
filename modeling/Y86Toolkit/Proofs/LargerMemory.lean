import Y86Toolkit.Proofs.Runs

/-!
Machines that differ in the size of their memory. What an instruction is, what it
reads and what it writes depend only on bytes in front of the end of memory, unless
they reach past it. So a run that meets no invalid address goes the same way in a
larger memory, and leaves the bytes behind the smaller one alone. Nothing is assumed
of the program; it may rewrite itself.
-/

namespace Y86Toolkit

/-- Memory with further bytes behind it. -/
def Memory.padded (m : Memory) (extra : Array Byte) : Memory := ⟨m.bytes ++ extra⟩

namespace Machine

/-- The machine with further bytes behind its memory, configured in some way. -/
def padded (m : Machine) (extra : Array Byte) (configuration : Configuration) : Machine :=
  { m with memory := m.memory.padded extra, configuration }

/-- Two machines agree, but for their configuration and for further bytes behind the
memory of the second. -/
structure Enlarged (small : Machine) (extra : Array Byte) (large : Machine) : Prop where
  registers : large.registers = small.registers
  memory : large.memory.bytes = small.memory.bytes ++ extra
  pc : large.pc = small.pc
  flags : large.flags = small.flags
  status : large.status = small.status
  steps : large.steps = small.steps

end Machine

namespace LargerMemory
open Instruction StepTable Fetch Cells Runs

/-! ## Memory -/

section
variable {m : Memory} {extra : Array Byte} {address : Word}

theorem inside_padded {length : Nat} (inside : m.Inside address length) :
    (m.padded extra).Inside address length := by
  have within : address.toNat + length ≤ m.bytes.size := inside
  show address.toNat + length ≤ (m.bytes ++ extra).size
  rw [Array.size_append]
  exact Nat.le_add_right_of_le within

theorem getElem?_padded (extra : Array Byte) {i : Nat} {b : Byte} (held : m.bytes[i]? = some b) :
    (m.padded extra).bytes[i]? = some b := by
  obtain ⟨below, -⟩ := Array.getElem?_eq_some_iff.mp held
  rw [Memory.padded, Array.getElem?_append_left below, held]

theorem slice_padded {start stop : Nat} (within : stop ≤ m.bytes.size) :
    Bytes.slice (m.padded extra).bytes start stop = Bytes.slice m.bytes start stop := by
  apply List.ext_getElem?
  intro i
  rw [getElem?_slice, getElem?_slice]
  by_cases before : start + i < stop
  · rw [if_pos before, if_pos before, Memory.padded,
      Array.getElem?_append_left (Nat.lt_of_lt_of_le before within)]
  · rw [if_neg before, if_neg before]

/-- An instruction that can be read, or shows that it is none, is the same in larger
memory. -/
theorem decodeAt_padded
    (fits : ∀ cause, m.decodeAt address = .error cause → cause.isAddressFault = false) :
    (m.padded extra).decodeAt address = m.decodeAt address := by
  cases here : m.bytes[address.toNat]? with
  | none => cases fits _ (decodeAt_unreadable here)
  | some first =>
    have there := getElem?_padded extra here
    cases opcode : Opcode.ofCode? (highHalf first) with
    | none => rw [decodeAt_undefined here opcode, decodeAt_undefined there opcode]
    | some o =>
      have defined := Opcode.ofCode?_eq_some opcode
      by_cases inside : m.Inside address o.length
      · rw [decodeAt_inside here defined inside, decodeAt_inside there defined (inside_padded inside),
          slice_padded inside]
      · cases fits _ (decodeAt_outside here defined inside)

theorem loaded_padded {access : Access}
    (reaches : ∀ address ∈ access.address?, m.Inside address Bytes.perWord) :
    (m.padded extra).loaded access = m.loaded access := by
  cases access with
  | load address => rw [Memory.loaded, Memory.loaded, slice_padded (reaches address rfl)]
  | none | store => rfl

theorem after_padded {access : Access}
    (reaches : ∀ address ∈ access.address?, m.Inside address Bytes.perWord) :
    (m.padded extra).after access = (m.after access).padded extra := by
  cases access with
  | none | load => rfl
  | store address value =>
    have within : address.toNat + 8 ≤ m.bytes.size := reaches address rfl
    refine congrArg Memory.mk (Array.ext_getElem? fun i => ?_)
    simp only [Memory.after, Memory.store, Memory.padded, Array.getElem?_append,
      Bytes.getElem?_overwrite, Bytes.size_overwrite, Bytes.length_ofWord, Array.size_append]
    by_cases covered : address.toNat ≤ i ∧ i < address.toNat + 8
    · rw [if_pos (by omega), if_pos (by omega), if_pos (by omega)]
    · rw [if_neg (by omega)]
      by_cases held : i < m.bytes.size
      · rw [if_pos held, if_pos held, if_neg (by omega)]
      · rw [if_neg held, if_neg held]

end

/-! ## Steps -/

variable {m : Machine} {extra : Array Byte} {configuration : Configuration}

theorem access_padded {i : Instruction} : (m.padded extra configuration).access i = m.access i := by
  cases i <;> rfl

theorem complete_padded {i : Instruction} (loaded : Word) :
    (m.padded extra configuration).complete i loaded = (m.complete i loaded).padded extra configuration := by
  cases i with
  | move =>
    rw [complete_move, complete_move]
    rfl
  | _ => rfl

theorem commit_padded {i : Instruction} (reaches : Reaches m i) :
    (m.padded extra configuration).commit i = (m.commit i).padded extra configuration := by
  have memory : (m.padded extra configuration).memory = m.memory.padded extra := rfl
  rw [Machine.commit, access_padded, complete_padded, memory, loaded_padded reaches, after_padded reaches]
  rfl

theorem counted_padded :
    counted (m.padded extra configuration) = (counted m).padded extra configuration := rfl

/-- A step that meets no invalid address is the same step in larger memory. -/
theorem step_padded (fits : m.next.status ≠ .invalidAddress) :
    (m.padded extra configuration).step = (m.step.1, m.next.padded extra configuration) := by
  rw [Machine.next] at fits ⊢
  have status : (m.padded extra configuration).status = m.status := rfl
  have read : (m.padded extra configuration).memory.decodeAt (m.padded extra configuration).pc =
      (m.memory.padded extra).decodeAt m.pc := rfl
  rcases step_cases m with ⟨stopped, step⟩ | ⟨running, cause, failed, step⟩ |
    ⟨_, i, address, _, _, _, step⟩ | ⟨running, i, decoded, reaches, step⟩
  · rw [step, Machine.step, if_neg (status ▸ stopped), status]
  · have same : (m.memory.padded extra).decodeAt m.pc = .error cause := by
      rw [← failed]
      apply decodeAt_padded
      intro other again
      cases failed.symm.trans again
      cases kind : cause.isAddressFault with
      | false => rfl
      | true =>
        rw [step] at fits
        exact absurd (if_pos kind) fits
    rw [step, step_unread (status.trans running) (read.trans same)]
    rfl
  · rw [step] at fits
    exact absurd rfl fits
  · have same : (m.memory.padded extra).decodeAt m.pc = .ok i := by
      rw [← decoded]
      apply decodeAt_padded
      intro other failed
      cases decoded.symm.trans failed
    have inside : Reaches (m.padded extra configuration) i := by
      intro address made
      rw [access_padded] at made
      exact inside_padded (reaches address made)
    have counts : Reaches (counted m) i := by
      rw [Reaches, access_counted]
      exact reaches
    rw [step, step_reaches (status.trans running) (read.trans same) inside, counted_padded,
      commit_padded counts]

/-! ## Runs -/

/-- A run that does not end at an invalid address takes as many steps in larger
memory, to the same machine but for its memory. -/
theorem afterSteps_padded (extra : Array Byte) (configuration : Configuration) {budget : Nat}
    (fits : (m.afterSteps (m.stepsWithin budget)).status ≠ .invalidAddress) :
    (m.padded extra configuration).stepsWithin budget = m.stepsWithin budget ∧
      (m.padded extra configuration).afterSteps (m.stepsWithin budget) =
        (m.afterSteps (m.stepsWithin budget)).padded extra configuration := by
  induction budget generalizing m with
  | zero => exact ⟨rfl, rfl⟩
  | succ budget ih =>
    have status : (m.padded extra configuration).status = m.status := rfl
    by_cases running : m.status = .running
    · rw [stepsWithin_running running] at fits ⊢
      rw [stepsWithin_running (status.trans running)]
      -- A step to an invalid address would have been the last one.
      have goes : m.next.status ≠ .invalidAddress := by
        intro invalid
        have stopped : m.next.status ≠ .running := by rw [invalid]; exact nofun
        rw [stepsWithin_stopped stopped] at fits
        exact fits invalid
      have next : (m.padded extra configuration).next = m.next.padded extra configuration :=
        congrArg Prod.snd (step_padded goes)
      obtain ⟨taken, after⟩ := ih fits
      rw [← next] at taken after
      exact ⟨congrArg (· + 1) taken, after⟩
    · rw [stepsWithin_stopped running, stepsWithin_stopped (fun runs => running (status ▸ runs))]
      exact ⟨rfl, rfl⟩

theorem enlarged_iff {small large : Machine} :
    small.Enlarged extra large ↔ large = small.padded extra large.configuration := by
  constructor
  · rintro ⟨registers, memory, pc, flags, status, steps⟩
    cases large
    cases registers
    cases pc
    cases flags
    cases status
    cases steps
    exact congrArg (Machine.mk small.registers · _ _ _ _ _) (congrArg Memory.mk memory)
  · intro same
    rw [same]
    exact ⟨rfl, rfl, rfl, rfl, rfl, rfl⟩

/-- **More memory never changes a run that fits.** Where a run does not end at an
invalid address, the same run of a machine with further bytes behind its memory gives
the same report, and leaves a machine that agrees with the first but for the same
bytes behind its memory. -/
theorem run_enlarged {small large : Machine} {extra : Array Byte} (budget : Nat)
    (agree : small.Enlarged extra large) (fits : (small.runLimited budget).2.status ≠ .invalidAddress) :
    (large.runLimited budget).1 = (small.runLimited budget).1 ∧
      (small.runLimited budget).2.Enlarged extra (large.runLimited budget).2 := by
  have same := enlarged_iff.mp agree
  generalize large.configuration = configuration at same
  subst same
  rw [runLimited_eq] at fits
  obtain ⟨taken, after⟩ := afterSteps_padded extra configuration fits
  rw [runLimited_eq, runLimited_eq, taken, after]
  exact ⟨rfl, enlarged_iff.mpr rfl⟩

/-- A machine that pushes a zero over the rest of its memory, the next instruction
included, which becomes a halt. -/
def pushesOver : Machine :=
  { Machine.fresh {} with
    registers := RegisterFile.zero.set .rsp 10
    memory := ⟨#[0xA0, 0x0F, 0x10, 0x10, 0x10, 0x10, 0x10, 0x10, 0x10, 0x10]⟩ }

/-- The push reaches up to the end of memory; a byte behind it is not touched. -/
theorem run_enlarged_pushesOver :
    pushesOver.Enlarged #[0xFF] (pushesOver.padded #[0xFF] {}) ∧
      (pushesOver.runLimited 5).2.status ≠ .invalidAddress ∧
      ((pushesOver.padded #[0xFF] {}).runLimited 5).1 = ⟨2, .stopped .halted⟩ ∧
      ((pushesOver.padded #[0xFF] {}).runLimited 5).2.memory.bytes =
        #[0xA0, 0x0F, 0, 0, 0, 0, 0, 0, 0, 0, 0xFF] := by
  have agree : pushesOver.Enlarged #[0xFF] (pushesOver.padded #[0xFF] {}) := enlarged_iff.mpr rfl
  have report : (pushesOver.runLimited 5).1 = ⟨2, .stopped .halted⟩ := rfl
  have fits : (pushesOver.runLimited 5).2.status ≠ .invalidAddress := by decide
  have bytes : (pushesOver.runLimited 5).2.memory.bytes = #[0xA0, 0x0F, 0, 0, 0, 0, 0, 0, 0, 0] := rfl
  obtain ⟨same, after⟩ := run_enlarged 5 agree fits
  exact ⟨agree, fits, same.trans report, after.memory.trans (congrArg (· ++ #[0xFF]) bytes)⟩

end LargerMemory

end Y86Toolkit
