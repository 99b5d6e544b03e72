import Y86Toolkit.Proofs.DebuggerRuns

/-!
Starting over. Whatever a machine has been through, its memory keeps its size, and so
resetting it gives the fresh machine of its configuration. A debugger that is reset has
the machine of a new debugger for its program; what the user has set stays.
-/

namespace Y86Toolkit

namespace Machine

/-- What can be done to a machine: programs are loaded at address zero or placed
anywhere, steps and runs are taken, and its parts are written. -/
inductive Operation where
  | load (program : Array Byte)
  | place (start : Word) (program : Array Byte)
  | step
  | run (budget : Nat)
  | reset
  | setRegister (r : Register) (value : Word)
  | setPc (address : Word)
  | setFlags (flags : Flags)
  | writeWord (address value : Word)
  deriving DecidableEq, Repr

/-- The machine after an operation, whatever came of it. -/
def after (m : Machine) : Operation → Machine
  | .load program =>
    match m.load program with
    | .ok loaded => loaded
    | .error _ => m
  | .place start program =>
    match m.memory.loadProgram start program with
    | .ok memory => { m with memory }
    | .error _ => m
  | .step => m.step.2
  | .run budget => (m.runLimited budget).2
  | .reset => m.reset
  | .setRegister r value => { m with registers := m.registers.set r value }
  | .setPc address => { m with pc := address }
  | .setFlags flags => { m with flags }
  | .writeWord address value =>
    match m.memory.writeWord address value with
    | .ok memory => { m with memory }
    | .error _ => m

end Machine

namespace Debugger

/-- What can be done to a debugger. Its machine may also be changed directly. -/
inductive Operation where
  | step
  | run
  | tick
  | toggleBreakpoint
  | reset
  | operate (operation : Machine.Operation)
  | addBreakpoint (address : Word)
  | scroll (words : Nat)
  | quit
  deriving DecidableEq, Repr

/-- The debugger after an operation. -/
def after (d : Debugger) : Operation → Debugger
  | .step => d.step
  | .run => d.run
  | .tick => d.tick
  | .toggleBreakpoint => d.toggleBreakpoint
  | .reset => d.reset
  | .operate operation => { d with machine := d.machine.after operation }
  | .addBreakpoint address => d.addBreakpoint address
  | .scroll words => { d with memoryScroll := words }
  | .quit => { d with quitting := true }

end Debugger

namespace FreshStart
open Debugger Runs Resets DebuggerRuns

/-! ## Machines -/

variable {m : Machine}

theorem size_loadProgram {memory loaded : Memory} {start : Word} {program : Array Byte}
    (loads : memory.loadProgram start program = .ok loaded) : loaded.size = memory.size := by
  simp only [Memory.loadProgram] at loads
  split at loads
  · cases loads
  · split at loads
    · cases loads
    · cases loads
      exact Bytes.size_overwrite _ _ _

theorem size_writeWord {memory written : Memory} {address value : Word}
    (writes : memory.writeWord address value = .ok written) : written.size = memory.size := by
  rw [Memory.writeWord] at writes
  split at writes
  · rw [← Except.ok.inj writes]
    exact StepTable.size_after memory (.store address value)
  · cases writes

/-- No operation changes the size of memory or the configuration. -/
theorem alike_operation (m : Machine) (operation : Machine.Operation) : m.Alike (m.after operation) := by
  cases operation with
  | load program =>
    rw [Machine.after]
    cases loads : m.load program with
    | ok loaded => exact alike_load loads
    | error fault => exact .refl m
  | place start program =>
    rw [Machine.after]
    cases loads : m.memory.loadProgram start program with
    | ok memory => exact ⟨size_loadProgram loads, rfl⟩
    | error fault => exact .refl m
  | step => exact alike_next
  | run budget =>
    rw [Machine.after, runLimited_eq]
    exact alike_afterSteps m _
  | reset => exact alike_reset m
  | setRegister | setPc | setFlags => exact ⟨rfl, rfl⟩
  | writeWord address value =>
    rw [Machine.after]
    cases writes : m.memory.writeWord address value with
    | ok memory => exact ⟨size_writeWord writes, rfl⟩
    | error fault => exact .refl m

theorem alike_operations (m : Machine) (operations : List Machine.Operation) :
    m.Alike (operations.foldl Machine.after m) :=
  List.foldlRecOn operations Machine.after (.refl m) fun middle front operation _ =>
    front.trans (alike_operation middle operation)

/-! ## Debuggers -/

/-- A debugger has the program of another, in a machine of the same size and
configuration. -/
structure Kept (d after : Debugger) : Prop where
  machine : d.machine.Alike after.machine
  image : after.image = d.image

variable {d : Debugger}

theorem Kept.trans {first second third : Debugger} (front : Kept first second) (behind : Kept second third) :
    Kept first third :=
  ⟨front.machine.trans behind.machine, behind.image.trans front.image⟩

theorem kept_of_took {taken : Nat} {after : Debugger} (took : d.Took taken after) : Kept d after :=
  ⟨took.machine ▸ alike_afterSteps d.machine taken, took.image⟩

theorem alike_loadInto (m : Machine) (image : Image) (success : DebuggerMessage) :
    m.Alike (loadInto m image success).1 := by
  rw [loadInto]
  cases loads : m.load image.bytes with
  | ok loaded => exact alike_load loads
  | error fault => exact .refl m

/-- Whether a program is loaded does not depend on what is said about it. -/
theorem loadInto_machine (m : Machine) (image : Image) (success other : DebuggerMessage) :
    (loadInto m image success).1 = (loadInto m image other).1 := by
  rw [loadInto, loadInto]
  cases m.load image.bytes <;> rfl

theorem kept_operation (d : Debugger) (operation : Debugger.Operation) : Kept d (d.after operation) := by
  cases operation with
  | step =>
    by_cases running : d.machine.status = .running
    · exact kept_of_took (took_step running)
    · rw [Debugger.after, Debugger.step, if_neg running]
      exact ⟨.refl d.machine, rfl⟩
  | tick =>
    obtain ⟨taken, took⟩ := exists_took_advance batch d
    exact kept_of_took took
  | toggleBreakpoint =>
    rw [Debugger.after, toggleBreakpoint]
    split <;> exact ⟨.refl d.machine, rfl⟩
  | reset => exact ⟨(alike_reset d.machine).trans (alike_loadInto _ _ _), rfl⟩
  | operate operation => exact ⟨alike_operation d.machine operation, rfl⟩
  | run | addBreakpoint | scroll | quit => exact ⟨.refl d.machine, rfl⟩

theorem kept_operations (d : Debugger) (operations : List Debugger.Operation) :
    Kept d (operations.foldl Debugger.after d) :=
  List.foldlRecOn operations Debugger.after ⟨.refl d.machine, rfl⟩ fun middle front operation _ =>
    front.trans (kept_operation middle operation)

/-- **A reset is a fresh start.** Whatever was done to a fresh machine, its memory has
the configured size, and a reset makes it fresh again. Whatever was done to a new
debugger, a reset gives it the machine of a new debugger with the same program and
configuration, whether or not the program fits, and ends a run; its breakpoints, what
it shows of memory and whether it is to be left stay as they were. -/
theorem reset_starts_over :
    (∀ (c : Configuration) (operations : List Machine.Operation),
      let m := operations.foldl Machine.after (.fresh c)
      m.memory.size = c.memorySize.toNat ∧ m.reset = .fresh c) ∧
    ∀ (image : Image) (c : Configuration) (operations : List Debugger.Operation),
      let d := operations.foldl Debugger.after (.ofImage image c)
      d.image = image ∧ d.reset.machine = (Debugger.ofImage image c).machine ∧
        d.reset.running = false ∧ d.reset.image = d.image ∧ d.reset.breakpoints = d.breakpoints ∧
        d.reset.memoryScroll = d.memoryScroll ∧ d.reset.quitting = d.quitting := by
  refine ⟨fun c operations => ?_, fun image c operations => ?_⟩
  · have alike := alike_operations (.fresh c) operations
    have sized := alike.sized (sized_fresh c)
    refine ⟨sized.trans (congrArg (·.memorySize.toNat) alike.configuration), ?_⟩
    rw [reset_eq sized, alike.configuration]
    rfl
  · have kept := kept_operations (.ofImage image c) operations
    have alike := (alike_loadInto (.fresh c) image .ready).trans kept.machine
    refine ⟨kept.image, ?_, rfl, rfl, rfl, rfl, rfl⟩
    have fresh := (reset_eq (alike.sized (sized_fresh c))).trans (congrArg Machine.fresh alike.configuration)
    have machine : ∀ d : Debugger, d.reset.machine = (loadInto d.machine.reset d.image .resetDone).1 :=
      fun d => rfl
    rw [machine, fresh, kept.image]
    exact loadInto_machine _ _ _ _

end FreshStart

end Y86Toolkit
