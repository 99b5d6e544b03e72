import Mathlib
import Y86Toolkit.Session
import Y86Toolkit.Proofs.Resets
import Y86Toolkit.Proofs.StraightSource

/-!
Loading a source into a session. The machine is reset before it is known whether
the program fits. So a source that does not assemble leaves the session as it was,
but one whose image is too large leaves a fresh machine beside the program that was
loaded before. The library is imported whole for the equations that evaluate the
examples.
-/

namespace Y86Toolkit

namespace Session

/-- What a session can be asked to do that may change it. -/
inductive Operation where
  | load (source : String)
  | step
  | run (budget : Nat)
  | reset
  deriving DecidableEq, Repr

/-- The session after an operation, whatever came of it. -/
def after (s : Session) : Operation → Session
  | .load source => (s.loadSource source).2
  | .step => s.step.2
  | .run budget => (s.run budget).2
  | .reset => s.reset.2

/-- The sessions that operations lead to, from a session with the standard settings
or with memory of any size that can be configured. -/
inductive Reachable : Session → Prop where
  | standard : Reachable (ofConfiguration {})
  | sized {size : Word} {s : Session} (made : withMemory size = .ok s) : Reachable s
  | operated {s : Session} (before : Reachable s) (operation : Operation) : Reachable (s.after operation)

end Session

namespace SessionLoading
open Assembly Runs Resets StraightSource Fragments Session

variable {s : Session} {source : String}

theorem loadSource_loads {image : Image} {machine : Machine} (made : assemble source = .ok image)
    (loads : s.machine.reset.load image.bytes = .ok machine) :
    s.loadSource source = (.ok image.size, ⟨machine, image⟩) := by
  simp only [loadSource, made, loads]

theorem loadSource_refused {image : Image} {fault : MemoryFault} (made : assemble source = .ok image)
    (refused : s.machine.reset.load image.bytes = .error fault) :
    s.loadSource source = (.error (.memory fault), { s with machine := s.machine.reset }) := by
  simp only [loadSource, made, refused]

/-- A source does not assemble, or its image is too large, or it is loaded. -/
theorem loadSource_cases (s : Session) (source : String) :
    (∃ cause, assemble source = .error cause ∧
      s.loadSource source = (.error (.assembly cause), s)) ∨
    (∃ image, assemble source = .ok image ∧ s.machine.memory.size < image.size ∧
      s.loadSource source =
        (.error (.memory (.programTooLarge image.size s.machine.memory.size)),
          { s with machine := s.machine.reset })) ∨
    (∃ image machine, assemble source = .ok image ∧ image.size ≤ s.machine.memory.size ∧
      s.machine.reset.load image.bytes = .ok machine ∧
      s.loadSource source = (.ok image.size, ⟨machine, image⟩)) := by
  cases made : assemble source with
  | error cause => exact .inl ⟨cause, rfl, by simp only [loadSource, made]⟩
  | ok image =>
    right
    have size := (alike_reset s.machine).size
    rcases Nat.lt_or_ge s.machine.memory.size image.size with large | fits
    · have refused := load_tooLarge (m := s.machine.reset) (size ▸ large)
      rw [size] at refused
      exact .inl ⟨image, rfl, large, loadSource_refused made refused⟩
    · have loads := load_eq (m := s.machine.reset) (size ▸ fits)
      exact .inr ⟨image, _, rfl, fits, loads, loadSource_loads made loads⟩

/-- No operation changes the size of memory or the configuration. -/
theorem alike_after (s : Session) (operation : Operation) :
    s.machine.Alike (s.after operation).machine := by
  cases operation with
  | load source =>
    rw [Session.after]
    rcases loadSource_cases s source with ⟨cause, _, outcome⟩ | ⟨image, _, _, outcome⟩ |
      ⟨image, machine, _, _, loads, outcome⟩
    · rw [outcome]
      exact ⟨rfl, rfl⟩
    · rw [outcome]
      exact alike_reset s.machine
    · rw [outcome]
      exact (alike_reset s.machine).trans (alike_load loads)
  | step => exact alike_next
  | run budget =>
    rw [Session.after, Session.run, runLimited_eq]
    exact alike_afterSteps s.machine _
  | reset =>
    rw [Session.after, Session.reset]
    cases loads : s.machine.reset.load s.image.bytes with
    | error fault => exact alike_reset s.machine
    | ok machine => exact (alike_reset s.machine).trans (alike_load loads)

theorem withMemory_eq {size : Word} (made : withMemory size = .ok s) :
    s = ofConfiguration { memorySize := size } := by
  obtain ⟨_, _, rest⟩ := Fallible.bind_eq_ok.mp made
  cases rest
  rfl

theorem sized_reachable (reachable : s.Reachable) : s.machine.Sized := by
  induction reachable with
  | standard => exact sized_fresh {}
  | sized made =>
    rw [withMemory_eq made]
    exact sized_fresh _
  | operated _ operation ih => exact (alike_after _ operation).sized ih

/-- **What loading a source leaves.** In a session that can be reached, a source that
does not assemble changes nothing, and an image that fits is loaded into a fresh
machine. An image that is larger than memory is refused, but the machine is a fresh
one by then; the program on record is still the old one, and a reset loads it again.
So a session survives a refused load exactly where its machine was fresh already. -/
theorem loadSource_outcome {s : Session} (reachable : s.Reachable) (source : String) :
    (∀ cause, assemble source = .error cause →
      s.loadSource source = (.error (.assembly cause), s)) ∧
    (∀ image, assemble source = .ok image → image.size ≤ s.machine.configuration.memorySize.toNat →
      ∃ machine, (Machine.fresh s.machine.configuration).load image.bytes = .ok machine ∧
        s.loadSource source = (.ok image.size, ⟨machine, image⟩)) ∧
    (∀ image, assemble source = .ok image → s.machine.configuration.memorySize.toNat < image.size →
      s.loadSource source =
        (.error (.memory (.programTooLarge image.size s.machine.configuration.memorySize.toNat)),
          ⟨Machine.fresh s.machine.configuration, s.image⟩)) ∧
    ∀ fault, (s.loadSource source).1 = .error fault →
      ((s.loadSource source).2 = s ↔
        (∃ cause, fault = .assembly cause) ∨ s.machine = .fresh s.machine.configuration) ∧
      (s.loadSource source).2.reset = s.reset := by
  have sized := sized_reachable reachable
  have fresh := reset_eq sized
  rw [← fresh, ← sized]
  rcases loadSource_cases s source with ⟨cause, failed, outcome⟩ | ⟨image, made, large, outcome⟩ |
    ⟨image, machine, made, fits, loads, outcome⟩
  · rw [failed, outcome]
    refine ⟨?_, nofun, nofun, ?_⟩
    · rintro _ ⟨⟩
      rfl
    · rintro _ ⟨⟩
      exact ⟨iff_of_true rfl (.inl ⟨cause, rfl⟩), rfl⟩
  · rw [made, outcome]
    refine ⟨nofun, ?_, ?_, ?_⟩
    · rintro _ ⟨⟩ fits
      exact absurd fits (Nat.not_le_of_lt large)
    · rintro _ ⟨⟩ _
      rfl
    · rintro _ ⟨⟩
      refine ⟨⟨fun same => .inr (congrArg Session.machine same).symm, ?_⟩, ?_⟩
      · rintro (⟨cause, ⟨⟩⟩ | already)
        exact congrArg (Session.mk · s.image) already.symm
      · rw [Session.reset, Session.reset, reset_reset]
  · rw [made, outcome]
    refine ⟨nofun, ?_, ?_, nofun⟩
    · rintro _ ⟨⟩ _
      exact ⟨machine, loads, rfl⟩
    · rintro _ ⟨⟩ large
      exact absurd fits (Nat.not_le_of_lt large)

/-- A session with the smallest memory that has loaded an instruction which does
nothing, and taken a step. -/
def steppedOnce : Session :=
  ((ofConfiguration { memorySize := 1000 }).after (.load "nop\n")).after .step

theorem reachable_steppedOnce : steppedOnce.Reachable := by
  have made : withMemory 1000 = .ok (ofConfiguration { memorySize := 1000 }) := rfl
  exact .operated (.operated (.sized made) (.load "nop\n")) .step

/-- The image of one instruction that does nothing. -/
def nopImage : Image := { bytes := #[0x10], lines := #[⟨0, 1, "nop"⟩] }

theorem assemble_nop : assemble "nop\n" = .ok nopImage := by cbv

theorem steps_steppedOnce : steppedOnce.machine.steps = 1 := by
  have sized := sized_fresh { memorySize := 1000 }
  have fits : nopImage.size ≤ (Machine.fresh { memorySize := 1000 }).reset.memory.size := by
    rw [reset_eq sized, sized_fresh]
    decide
  obtain ⟨machine, loads, running, steps⟩ : ∃ machine : Machine,
      (Machine.fresh { memorySize := 1000 }).reset.load nopImage.bytes = .ok machine ∧
        machine.status = .running ∧ machine.steps = 0 := ⟨_, load_eq fits, rfl, rfl⟩
  have loaded := loadSource_loads (s := ofConfiguration { memorySize := 1000 }) assemble_nop loads
  rw [steppedOnce, Session.after, Session.after, loaded]
  exact (steps_next running).trans (congrArg (· + 1) steps)

/-- One byte more than the smallest memory takes. -/
theorem assemble_behind :
    ∃ image, assemble ".pos 1000\nhalt\n" = .ok image ∧ image.size = 1001 := by
  let start : Item := ⟨1, 0, .origin 1000, ".pos 1000"⟩
  let halt : Item := ⟨2, 1000, .instruction .halt [], "halt"⟩
  have laid : Layout.ofSource ".pos 1000\nhalt\n" = .ok { counter := 1001, items := #[start, halt] } := by
    cbv
  have nothing : start.statement.bytes {} = .ok [] := rfl
  have byte : halt.statement.bytes {} = .ok [0x00] := rfl
  have within : (Fragment.mk 1000 [0x00] "halt").Fits := .inr (by decide)
  obtain ⟨image, emitted, size⟩ :
      ∃ image, emitAll {} .empty [start, halt] = .ok image ∧ image.bytes.size = 1001 := by
    rw [emitAll, emit_fits .empty start nothing (.inl rfl)]
    dsimp only
    rw [emitAll, emit_fits _ halt byte within]
    refine ⟨_, rfl, ?_⟩
    simp only [Image.enter, size_store]
    decide
  exact ⟨_, assemble_passes laid emitted, size⟩

theorem alike_steppedOnce : (Machine.fresh { memorySize := 1000 }).Alike steppedOnce.machine :=
  (alike_after (ofConfiguration { memorySize := 1000 }) (.load "nop\n")).trans (alike_after _ .step)

/-- An instruction more than memory takes is refused, and the machine starts over. -/
theorem loadSource_outcome_tooLarge :
    steppedOnce.Reachable ∧ steppedOnce.machine.steps = 1 ∧
      (steppedOnce.loadSource ".pos 1000\nhalt\n").1 =
        .error (.memory (.programTooLarge 1001 1000)) ∧
      (steppedOnce.loadSource ".pos 1000\nhalt\n").2 =
        ⟨Machine.fresh { memorySize := 1000 }, steppedOnce.image⟩ := by
  obtain ⟨image, made, size⟩ := assemble_behind
  obtain ⟨-, -, refused, -⟩ := loadSource_outcome reachable_steppedOnce ".pos 1000\nhalt\n"
  have large : steppedOnce.machine.configuration.memorySize.toNat < image.size := by
    rw [alike_steppedOnce.configuration, size]
    decide
  have outcome := refused image made large
  rw [alike_steppedOnce.configuration, size] at outcome
  exact ⟨reachable_steppedOnce, steps_steppedOnce, congrArg Prod.fst outcome, congrArg Prod.snd outcome⟩

/-- A refused load is not without effect: the step is no longer counted. -/
theorem loadSource_not_atomic :
    ¬ ∀ s : Session, s.Reachable → ∀ (source : String) (fault : LoadError),
      (s.loadSource source).1 = .error fault → (s.loadSource source).2 = s := by
  intro always
  obtain ⟨image, made, size⟩ := assemble_behind
  rcases loadSource_cases steppedOnce ".pos 1000\nhalt\n" with
    ⟨cause, failed, _⟩ | ⟨image, _, _, outcome⟩ | ⟨other, machine, same, fits, _⟩
  · cases made.symm.trans failed
  · have same := always steppedOnce reachable_steppedOnce ".pos 1000\nhalt\n" _ (congrArg Prod.fst outcome)
    rw [outcome] at same
    have steps : (0 : Word) = steppedOnce.machine.steps := congrArg (fun s => s.machine.steps) same
    rw [steps_steppedOnce] at steps
    exact absurd steps (by decide)
  · cases made.symm.trans same
    rw [size, alike_steppedOnce.size, sized_fresh] at fits
    exact absurd fits (by decide)

end SessionLoading

end Y86Toolkit
