import Y86Toolkit.Machine.Snapshot
import Y86Toolkit.Proofs.JsonRoundTrip
import Y86Toolkit.Proofs.Runs

/-!
Snapshots read back. Each part of a machine is read back from the record that was made
of it, and the record from its text, so that a snapshot gives the machine that it was
taken of. A run may therefore be interrupted anywhere and resumed from a snapshot.
-/

namespace Y86Toolkit.Snapshots
open Json JsonRoundTrip Runs

/-! ## Records are written without fractions -/

theorem whole_record {fields : List (String × Value)} (each : ∀ field ∈ fields, field.2.Whole) :
    (Value.record fields).Whole := by
  refine .object fun field held => ?_
  obtain ⟨named, source, rfl⟩ := List.mem_map.mp held
  exact each named source

theorem whole_naturals {α : Type} (number : α → Nat) (items : List α) :
    (Value.array (items.map fun a => .natural (number a))).Whole := by
  refine .array fun v held => ?_
  obtain ⟨a, -, rfl⟩ := List.mem_map.mp held
  exact .natural (number a)

theorem whole_toJson (m : Machine) : m.toJson.Whole := by
  have registers : m.registers.toJson.Whole :=
    whole_record (by simpa using whole_naturals UInt64.toNat m.registers.values.toList)
  have memory : m.memory.toJson.Whole :=
    whole_record (by simpa using whole_naturals UInt8.toNat m.memory.bytes.toList)
  have flags : m.flags.toJson.Whole := whole_record (by simp [Value.Whole.bool])
  have configuration : m.configuration.toJson.Whole := whole_record (by simp [Value.Whole.natural])
  have status : (Value.text m.status.name).Whole := .string _
  exact whole_record (by simp [registers, memory, flags, configuration, status, Value.Whole.natural])

/-! ## Records are read back -/

theorem ofJson?_registers (file : RegisterFile) : RegisterFile.ofJson? file.toJson = some file := by
  have read : file.toJson.record? ["values"] =
      some [some (.array (file.values.toList.map fun w => .natural w.toNat))] :=
    record?_record (by simp)
  have values : (⟨⟨file.values.toList.toArray, by simp⟩⟩ : RegisterFile) = file := by
    obtain ⟨⟨cells, size⟩⟩ := file
    rfl
  simp [RegisterFile.ofJson?, read, items?_map word?_natural, values]

theorem ofJson?_memory (m : Memory) : Memory.ofJson? m.toJson = some m := by
  have read : m.toJson.record? ["bytes"] =
      some [some (.array (m.bytes.toList.map fun b => .natural b.toNat))] :=
    record?_record (by simp)
  simp [Memory.ofJson?, read, items?_map byte?_natural]

theorem ofJson?_flags (flags : Flags) : Flags.ofJson? flags.toJson = some flags := by
  have read : flags.toJson.record? Flags.keys =
      some [some (.bool flags.overflow), some (.bool flags.sign), some (.bool flags.zero)] :=
    record?_record (by simp)
  simp [Flags.ofJson?, read, Value.bool?]

theorem ofJson?_status (status : Status) : Status.ofJson? (.text status.name) = some status := by
  cases status <;> rfl

/-- Both fields are written, and so neither default is needed. -/
theorem ofJson?_configuration (c : Configuration) : Configuration.ofJson? c.toJson = some c := by
  have read : c.toJson.record? Configuration.keys =
      some [some (.natural c.memorySize.toNat), some (.natural c.stepLimit.toNat)] :=
    record?_record (by simp)
  simp [Configuration.ofJson?, read, word?_natural]

theorem ofJson?_machine (m : Machine) : Machine.ofJson? m.toJson = some m := by
  have read : m.toJson.record? Machine.keys =
      some [some m.registers.toJson, some m.memory.toJson, some (.natural m.pc.toNat),
        some m.flags.toJson, some (.text m.status.name), some (.natural m.steps.toNat),
        some m.configuration.toJson] :=
    record?_record (by simp)
  simp [Machine.ofJson?, read, ofJson?_registers, ofJson?_memory, ofJson?_flags, ofJson?_status,
    ofJson?_configuration, word?_natural]

/-! ## Machines -/

theorem restore?_snapshot (m : Machine) : Machine.restore? m.snapshot = some m := by
  rw [Machine.restore?, Machine.snapshot, read?_render (whole_toJson m)]
  exact ofJson?_machine m

/-- **Snapshots are lossless.** A snapshot is read back as the machine that it was taken
of, in every part and whatever the size of its memory. So a run that is interrupted by a
snapshot and resumed on the machine read back ends as it would have ended without: with
the same machine and outcome, after as many steps in all. -/
theorem snapshots_lossless (m : Machine) :
    Machine.restore? m.snapshot = some m ∧
    ∀ first second, ∃ resumed,
      Machine.restore? (m.runLimited first).2.snapshot = some resumed ∧
      (resumed.runLimited second).2 = (m.runLimited (first + second)).2 ∧
      (resumed.runLimited second).1.outcome = (m.runLimited (first + second)).1.outcome ∧
      (m.runLimited first).1.steps + (resumed.runLimited second).1.steps =
        (m.runLimited (first + second)).1.steps := by
  refine ⟨restore?_snapshot m, fun first second => ⟨_, restore?_snapshot _, ?_⟩⟩
  have rest : m.afterSteps (m.stepsWithin (first + second)) =
      (m.afterSteps (m.stepsWithin first)).afterSteps
        ((m.afterSteps (m.stepsWithin first)).stepsWithin second) := by
    rw [stepsWithin_add, afterSteps_add]
  simp only [runLimited_eq]
  exact ⟨rest.symm, congrArg Machine.outcome rest.symm, (stepsWithin_add first second).symm⟩

end Y86Toolkit.Snapshots
