import Mathlib.Order.Nat
import Y86Toolkit.Debugger
import Y86Toolkit.Proofs.Resets

/-!
Runs of the debugger. A run is taken turn by turn, and batches of turns join, so
that how many turns make a batch does not matter. A run stops behind the fewest
steps after which the machine has stopped, the step limit is reached, or a step has
led to a breakpoint; the step counter makes sure that there are such. Without
breakpoints, a run of a new debugger is a run of its machine.
-/

namespace Y86Toolkit

namespace Debugger

/-- A debugger whose machine has taken so many steps. What the user has set is as
it was; the message may be another, and the run may have ended. -/
structure Took (d : Debugger) (taken : Nat) (after : Debugger) : Prop where
  machine : after.machine = d.machine.afterSteps taken
  image : after.image = d.image
  breakpoints : after.breakpoints = d.breakpoints
  memoryScroll : after.memoryScroll = d.memoryScroll
  quitting : after.quitting = d.quitting

theorem Took.refl (d : Debugger) : d.Took 0 d := ⟨rfl, rfl, rfl, rfl, rfl⟩

theorem Took.paused {d after : Debugger} {taken : Nat} (took : d.Took taken after)
    (message : DebuggerMessage) :
    d.Took taken (after.pause message) :=
  ⟨took.machine, took.image, took.breakpoints, took.memoryScroll, took.quitting⟩

theorem Took.trans {d middle after : Debugger} {first second : Nat} (front : d.Took first middle)
    (behind : middle.Took second after) : d.Took (first + second) after where
  machine := by rw [behind.machine, front.machine, Runs.afterSteps_add]
  image := behind.image.trans front.image
  breakpoints := behind.breakpoints.trans front.breakpoints
  memoryScroll := behind.memoryScroll.trans front.memoryScroll
  quitting := behind.quitting.trans front.quitting

/-- A debugger whose machine takes another step has taken one more, whatever else it says
of itself. -/
theorem Took.next {d after : Debugger} {taken : Nat} (took : d.Took taken after) (running : Bool)
    (message : DebuggerMessage) :
    d.Took (taken + 1) { after with machine := after.machine.next, running, message } :=
  took.trans ⟨rfl, rfl, rfl, rfl, rfl⟩

/-- The last of so many steps leads to a breakpoint. One where the run starts does
not count. -/
def PausesAfter (d : Debugger) (taken : Nat) : Prop :=
  1 ≤ taken ∧ d.breakpoints.contains (d.machine.afterSteps taken).pc = true

/-- A run has to stop behind so many steps. -/
def StopsAfter (d : Debugger) (taken : Nat) : Prop :=
  (d.machine.afterSteps taken).status ≠ .running ∨
    d.machine.configuration.stepLimit ≤ (d.machine.afterSteps taken).steps ∨ d.PausesAfter taken

/-- Why a run ends behind so many steps, and the message that tells: a breakpoint
comes first, then a step that failed, and only then what keeps it from another step. -/
inductive Ending (d : Debugger) : Nat → DebuggerMessage → Prop where
  | breakpoint {taken : Nat} (pauses : d.PausesAfter taken) :
      Ending d taken (.breakpointReached (d.machine.afterSteps taken).pc)
  | fault {earlier : Nat} {fault : StepFault} (clear : ¬ d.PausesAfter (earlier + 1))
      (failed : (d.machine.observation earlier).result = .error fault) :
      Ending d (earlier + 1) (.faulted fault)
  | obstacle {taken : Nat} {message : DebuggerMessage} (clear : ¬ d.PausesAfter taken)
      (sound : ∀ earlier fault, taken = earlier + 1 → (d.machine.observation earlier).result ≠ .error fault)
      (found : { d with machine := d.machine.afterSteps taken }.obstacle? = some message) :
      Ending d taken message

/-- The number of steps that the limit leaves to the machine. -/
def allowance (d : Debugger) : Nat := d.machine.configuration.stepLimit.toNat - d.machine.steps.toNat

/-- Taking batch after batch until the run has ended leads to a debugger. -/
def RunsTo (d final : Debugger) : Prop :=
  ∃ ticks, IsLeast {n | (tick^[n] d).running = false} ticks ∧ tick^[ticks] d = final

end Debugger

namespace DebuggerRuns
open Debugger Runs Resets

variable {d after : Debugger} {count taken : Nat}

/-! ## Steps and turns -/

theorem step_taken {i : Instruction} (running : d.machine.status = .running)
    (result : d.machine.step.1 = .ok i) :
    d.step = { d with machine := d.machine.next, message := .stepped d.machine.pc i } := by
  have whole : d.machine.step = (.ok i, d.machine.next) := Prod.ext result rfl
  rw [step, if_pos running, whole]

theorem step_failed {fault : StepFault} (running : d.machine.status = .running)
    (result : d.machine.step.1 = .error fault) :
    d.step = { d with machine := d.machine.next, running := false, message := .faulted fault } := by
  have whole : d.machine.step = (.error fault, d.machine.next) := Prod.ext result rfl
  rw [step, if_pos running, whole]
  rfl

theorem obstacle?_eq_none_iff :
    d.obstacle? = none ↔
      d.machine.status = .running ∧ d.machine.steps < d.machine.configuration.stepLimit := by
  by_cases running : d.machine.status = .running
  · by_cases reached : d.machine.configuration.stepLimit ≤ d.machine.steps
    · simp [obstacle?, running, reached]
    · simp [obstacle?, running, UInt64.not_le.mp reached]
  · simp [obstacle?, running]

/-- Whatever came of a step, pausing behind it leaves the same debugger. -/
theorem pause_step (running : d.machine.status = .running) (message : DebuggerMessage) :
    d.step.pause message = { d with machine := d.machine.next }.pause message := by
  cases result : d.machine.step.1 with
  | ok i =>
    rw [step_taken running result]
    rfl
  | error fault =>
    rw [step_failed running result]
    rfl

theorem took_step (running : d.machine.status = .running) : d.Took 1 d.step := by
  cases result : d.machine.step.1 with
  | ok i =>
    rw [step_taken running result]
    exact (Took.refl d).next _ _
  | error fault =>
    rw [step_failed running result]
    exact (Took.refl d).next _ _

/-- **What a turn does.** A run that has ended takes none. Otherwise something keeps
the run from taking a step, or the step leads to a breakpoint, whatever came of it, or
it is taken, or it fails. -/
theorem turn_cases (d : Debugger) :
    (d.running = false ∧ d.advance 1 = d) ∨
    (d.running = true ∧ ∃ message, d.obstacle? = some message ∧ d.advance 1 = d.pause message) ∨
    (d.running = true ∧ d.obstacle? = none ∧ d.breakpoints.contains d.machine.next.pc = true ∧
      d.advance 1 =
        { d with machine := d.machine.next }.pause (.breakpointReached d.machine.next.pc)) ∨
    (d.running = true ∧ d.obstacle? = none ∧ ¬ d.breakpoints.contains d.machine.next.pc = true ∧
      ∃ i, d.machine.step.1 = .ok i ∧
        d.advance 1 = { d with machine := d.machine.next, message := .stepped d.machine.pc i }) ∨
    (d.running = true ∧ d.obstacle? = none ∧ ¬ d.breakpoints.contains d.machine.next.pc = true ∧
      ∃ fault, d.machine.step.1 = .error fault ∧
        d.advance 1 = { d with machine := d.machine.next }.pause (.faulted fault)) := by
  rcases Bool.eq_false_or_eq_true d.running with ends | ended
  · right
    cases free : d.obstacle? with
    | some message => exact .inl ⟨ends, message, rfl, by simp only [advance, ends, free, if_true]⟩
    | none =>
      right
      obtain ⟨running, -⟩ := obstacle?_eq_none_iff.mp free
      have took := took_step running
      have machine : d.step.machine = d.machine.next := took.machine
      have turn : d.advance 1 = if d.breakpoints.contains d.machine.next.pc then
          d.step.pause (.breakpointReached d.machine.next.pc) else d.step := by
        simp only [advance, ends, free, if_true, took.breakpoints, machine]
      by_cases set : d.breakpoints.contains d.machine.next.pc = true
      · exact .inl ⟨ends, rfl, set, turn.trans ((if_pos set).trans (pause_step running _))⟩
      · rw [if_neg set] at turn
        right
        cases result : d.machine.step.1 with
        | ok i => exact .inl ⟨ends, rfl, set, i, rfl, turn.trans (step_taken running result)⟩
        | error fault => exact .inr ⟨ends, rfl, set, fault, rfl, turn.trans (step_failed running result)⟩
  · left
    refine ⟨ended, ?_⟩
    rw [advance, ended]
    rfl

/-! ## Batches -/

theorem advance_ended (ended : d.running = false) (count : Nat) : d.advance count = d := by
  cases count with
  | zero => rfl
  | succ count =>
    rw [advance, ended]
    rfl

/-- Turns can be taken in two parts. -/
theorem advance_add (first second : Nat) (d : Debugger) :
    d.advance (first + second) = (d.advance first).advance second := by
  induction first generalizing d with
  | zero =>
    rw [Nat.zero_add]
    rfl
  | succ first ih =>
    rw [Nat.succ_add, advance, advance]
    cases ends : d.running with
    | false => exact (advance_ended ends second).symm
    | true =>
      simp only [if_true]
      cases d.obstacle? with
      | some message => exact (advance_ended rfl second).symm
      | none =>
        dsimp only
        split
        · exact (advance_ended rfl second).symm
        · exact ih d.step

theorem advance_of_le {first second : Nat} (ended : (d.advance first).running = false)
    (le : first ≤ second) : d.advance second = d.advance first := by
  obtain ⟨rest, rfl⟩ := Nat.exists_eq_add_of_le le
  rw [advance_add, advance_ended ended]

/-- A run ends in one way, however long one goes on with it. -/
theorem advance_settled {first second : Nat} (ended : (d.advance first).running = false)
    (settled : (d.advance second).running = false) : d.advance first = d.advance second := by
  rcases Nat.le_total first second with le | le
  · exact (advance_of_le ended le).symm
  · exact advance_of_le settled le

theorem iterate_advance (size batches : Nat) (d : Debugger) :
    (advance size)^[batches] d = d.advance (batches * size) := by
  induction batches generalizing d with
  | zero =>
    rw [Nat.zero_mul]
    rfl
  | succ batches ih => rw [Function.iterate_succ_apply, ih, Nat.succ_mul, Nat.add_comm, advance_add]

/-- As many batches as turns are enough, whatever their size. -/
theorem batches_settled {size : Nat} (positive : 0 < size) (ended : (d.advance count).running = false) :
    (advance size)^[count] d = d.advance count := by
  rw [iterate_advance]
  exact advance_of_le ended (Nat.le_mul_of_pos_right count positive)

theorem runsTo_advance (ended : (d.advance count).running = false) : d.RunsTo (d.advance count) := by
  have ends : ∃ n, (tick^[n] d).running = false := by
    refine ⟨count, ?_⟩
    have settled : tick^[count] d = d.advance count := batches_settled (by decide) ended
    rw [settled, ended]
  have least := Nat.isLeast_find ends
  refine ⟨_, least, ?_⟩
  have whole : tick^[Nat.find ends] d = d.advance (Nat.find ends * batch) := iterate_advance batch _ d
  have stopped : (tick^[Nat.find ends] d).running = false := least.1
  rw [whole] at stopped ⊢
  exact advance_settled stopped ended

/-- However many turns are taken, all that they do is take steps. -/
theorem exists_took_advance (count : Nat) (d : Debugger) : ∃ taken, d.Took taken (d.advance count) := by
  induction count with
  | zero => exact ⟨0, .refl d⟩
  | succ count ih =>
    obtain ⟨taken, took⟩ := ih
    rw [advance_add]
    rcases turn_cases (d.advance count) with ⟨_, turn⟩ | ⟨_, message, _, turn⟩ | ⟨_, _, _, turn⟩ |
      ⟨_, _, _, i, _, turn⟩ | ⟨_, _, _, fault, _, turn⟩
    · rw [turn]
      exact ⟨taken, took⟩
    · rw [turn]
      exact ⟨taken, took.paused message⟩
    all_goals
      rw [turn]
      exact ⟨taken + 1, took.next _ _⟩

/-! ## The end of a run -/

/-- What keeps a debugger that has taken so many steps from another one. -/
theorem obstacle?_took (took : d.Took taken after) :
    after.obstacle? = { d with machine := d.machine.afterSteps taken }.obstacle? := by
  rw [obstacle?, obstacle?, took.machine]

theorem obstacle?_of_goes (goes : ¬ d.StopsAfter taken) :
    { d with machine := d.machine.afterSteps taken }.obstacle? = none := by
  rw [StopsAfter, not_or, not_or, not_not, UInt64.not_le] at goes
  rw [obstacle?_eq_none_iff, (alike_afterSteps d.machine taken).configuration]
  exact ⟨goes.1, goes.2.1⟩

theorem obstacle?_of_stops (stops : d.StopsAfter taken) (clear : ¬ d.PausesAfter taken) :
    ∃ message, { d with machine := d.machine.afterSteps taken }.obstacle? = some message := by
  apply Option.ne_none_iff_exists'.mp
  rw [Ne, obstacle?_eq_none_iff, (alike_afterSteps d.machine taken).configuration, not_and, UInt64.not_lt]
  intro running
  exact (stops.resolve_left (not_not_intro running)).resolve_right clear

/-- Behind a step that failed, a run has to stop. -/
theorem stopsAfter_failed {earlier : Nat} {fault : StepFault}
    (failed : (d.machine.observation earlier).result = .error fault) : d.StopsAfter (earlier + 1) := by
  left
  intro running
  rw [afterSteps_succ] at running
  obtain ⟨i, result, -⟩ := result_of_running running
  have seen : (d.machine.observation earlier).result = .ok i := result
  rw [failed] at seen
  cases seen

/-- A turn of a debugger that has taken so many steps and need not stop takes another
step. -/
theorem turn_goes (took : d.Took taken after) (runs : after.running = true) (goes : ¬ d.StopsAfter taken) :
    d.Took (taken + 1) (after.advance 1) ∧
      ((d.PausesAfter (taken + 1) ∧ (after.advance 1).running = false ∧
        (after.advance 1).message = .breakpointReached (d.machine.afterSteps (taken + 1)).pc) ∨
      (¬ d.PausesAfter (taken + 1) ∧ (after.advance 1).running = true ∧
        ∃ i, (d.machine.observation taken).result = .ok i) ∨
      (¬ d.PausesAfter (taken + 1) ∧ (after.advance 1).running = false ∧
        ∃ fault, (d.machine.observation taken).result = .error fault ∧
          (after.advance 1).message = .faulted fault)) := by
  have free := (obstacle?_took took).trans (obstacle?_of_goes goes)
  have machine : after.machine.next = d.machine.afterSteps (taken + 1) := by
    rw [took.machine, afterSteps_succ]
  have pauses : d.PausesAfter (taken + 1) ↔ after.breakpoints.contains after.machine.next.pc = true := by
    rw [PausesAfter, took.breakpoints, machine]
    exact and_iff_right (Nat.succ_pos taken)
  have result : after.machine.step.1 = (d.machine.observation taken).result := by
    rw [took.machine]
    rfl
  rw [← machine, ← result, pauses]
  rcases turn_cases after with ⟨ended, _⟩ | ⟨_, message, stuck, _⟩ | ⟨_, _, set, turn⟩ |
    ⟨_, _, clear, i, stepped, turn⟩ | ⟨_, _, clear, fault, failed, turn⟩
  · rw [runs] at ended
    cases ended
  · rw [free] at stuck
    cases stuck
  · rw [turn]
    exact ⟨took.next _ _, .inl ⟨set, rfl, rfl⟩⟩
  · rw [turn]
    exact ⟨took.next _ _, .inr (.inl ⟨clear, runs, i, stepped⟩)⟩
  · rw [turn]
    exact ⟨took.next _ _, .inr (.inr ⟨clear, rfl, fault, failed, rfl⟩)⟩

/-- Up to the point where it has to stop, a run takes one step in each turn. -/
theorem advance_goes (running : d.running = true) (goes : ∀ earlier < count, ¬ d.StopsAfter earlier) :
    d.Took count (d.advance count) ∧ (¬ d.StopsAfter count → (d.advance count).running = true) := by
  -- That the run still goes on is carried along: without it the next turn need not take a step.
  induction count with
  | zero => exact ⟨Took.refl d, fun _ => running⟩
  | succ count ih =>
    obtain ⟨took, runs⟩ := ih fun earlier early => goes earlier (Nat.lt_succ_of_lt early)
    have going := goes count (Nat.lt_succ_self count)
    rw [advance_add]
    obtain ⟨further, ⟨pauses, _⟩ | ⟨_, still, _⟩ | ⟨_, _, fault, failed, _⟩⟩ :=
      turn_goes took (runs going) going
    · exact ⟨further, fun next => absurd (.inr (.inr pauses)) next⟩
    · exact ⟨further, fun _ => still⟩
    · exact ⟨further, fun next => absurd (stopsAfter_failed failed) next⟩

/-- A turn of a debugger that has to stop, though no breakpoint was met, says what keeps
it from another step. -/
theorem turn_stops (took : d.Took taken after) (runs : after.running = true) (stops : d.StopsAfter taken)
    (clear : ¬ d.PausesAfter taken) :
    ∃ message, { d with machine := d.machine.afterSteps taken }.obstacle? = some message ∧
      after.advance 1 = after.pause message := by
  obtain ⟨barrier, found⟩ := obstacle?_of_stops stops clear
  have stuck := (obstacle?_took took).trans found
  rcases turn_cases after with ⟨ended, _⟩ | ⟨_, message, same, turn⟩ | ⟨_, free, _⟩ | ⟨_, free, _⟩ |
    ⟨_, free, _⟩
  · rw [runs] at ended
    cases ended
  · exact ⟨message, (obstacle?_took took).symm.trans same, turn⟩
  all_goals
    rw [stuck] at free
    cases free

/-- **How a run ends.** One turn behind the last step that it takes it has ended, and
its message says why. -/
theorem ending (running : d.running = true) (least : IsLeast {k | d.StopsAfter k} taken) :
    (d.advance (taken + 1)).running = false ∧ d.Took taken (d.advance (taken + 1)) ∧
      d.Ending taken (d.advance (taken + 1)).message := by
  have stops : d.StopsAfter taken := least.1
  have goes : ∀ earlier < taken, ¬ d.StopsAfter earlier := fun earlier early stopped =>
    Nat.not_le_of_lt early (least.2 stopped)
  rw [advance_add]
  -- A run that takes no step has no last step to blame.
  cases taken with
  | zero =>
    have clear : ¬ d.PausesAfter 0 := fun pauses => Nat.not_succ_le_zero 0 pauses.1
    obtain ⟨message, found, turn⟩ := turn_stops (Took.refl d) running stops clear
    have start : d.advance 0 = d := rfl
    rw [start, turn]
    exact ⟨rfl, (Took.refl d).paused message, .obstacle clear nofun found⟩
  | succ earlier =>
    obtain ⟨took, runs⟩ := advance_goes running fun k early => goes k (Nat.lt_succ_of_lt early)
    have going := goes earlier (Nat.lt_succ_self earlier)
    have turn := turn_goes took (runs going) going
    rw [← advance_add] at turn
    obtain ⟨further, ⟨pauses, ended, message⟩ | ⟨clear, still, i, stepped⟩ |
      ⟨clear, ended, fault, failed, message⟩⟩ := turn
    · rw [advance_ended ended, message]
      exact ⟨ended, further, .breakpoint pauses⟩
    · obtain ⟨message, found, last⟩ := turn_stops further still stops clear
      rw [last]
      refine ⟨rfl, further.paused message, .obstacle clear ?_ found⟩
      rintro _ fault ⟨⟩ failed
      rw [stepped] at failed
      cases failed
    · rw [advance_ended ended, message]
      exact ⟨ended, further, .fault clear failed⟩

/-! ## That a run ends -/

/-- Up to the limit the steps are counted without wrapping. -/
theorem toNat_steps (few : taken ≤ d.machine.stepsWithin d.allowance) :
    (d.machine.afterSteps taken).steps.toNat = d.machine.steps.toNat + taken := by
  have within : taken ≤ d.allowance := Nat.le_trans few stepsWithin_le
  have limit := d.machine.configuration.stepLimit.toNat_lt
  have start := d.machine.steps.toNat_lt
  rw [steps_afterSteps few, UInt64.toNat_add, UInt64.toNat_ofNat', Nat.add_mod_mod]
  rw [allowance] at within
  exact Nat.mod_eq_of_lt (by omega)

theorem stopsAfter_allowance (d : Debugger) : d.StopsAfter (d.machine.stepsWithin d.allowance) := by
  by_cases runs : (d.machine.afterSteps (d.machine.stepsWithin d.allowance)).status = .running
  · have all := stepsWithin_eq_budget runs
    have counted := toNat_steps (d := d) (Nat.le_refl _)
    right
    left
    rw [UInt64.le_iff_toNat_le, counted, all, allowance]
    omega
  · exact .inl runs

theorem exists_least_stop (d : Debugger) : ∃ taken, IsLeast {k | d.StopsAfter k} taken := by
  classical
  exact ⟨_, Nat.isLeast_find ⟨_, stopsAfter_allowance d⟩⟩

/-- Without breakpoints the debugger stops where a run of its machine does that has as
many steps as the limit leaves. -/
theorem isLeast_allowance (unset : d.breakpoints = {}) :
    IsLeast {k | d.StopsAfter k} (d.machine.stepsWithin d.allowance) := by
  refine ⟨stopsAfter_allowance d, fun k stops => Nat.le_of_not_lt fun early => ?_⟩
  rcases stops with stopped | reached | ⟨_, set⟩
  · exact stopped (running_of_lt early)
  · have within : k < d.allowance := Nat.lt_of_lt_of_le early stepsWithin_le
    rw [UInt64.le_iff_toNat_le, toNat_steps (Nat.le_of_lt early)] at reached
    rw [allowance] at within
    omega
  · rw [unset] at set
    simp at set

/-! ## New debuggers -/

section
variable {image : Image} {c : Configuration}

theorem machine_ofImage_loaded {loaded : Machine} (loads : (Machine.fresh c).load image.bytes = .ok loaded) :
    (ofImage image c).machine = loaded := by
  simp only [ofImage, loadInto, loads]

theorem machine_ofImage_refused {fault : MemoryFault}
    (refused : (Machine.fresh c).load image.bytes = .error fault) : (ofImage image c).machine = .fresh c := by
  simp only [ofImage, loadInto, refused]

theorem steps_ofImage : (ofImage image c).machine.steps = 0 := by
  cases loads : (Machine.fresh c).load image.bytes with
  | ok loaded =>
    rw [machine_ofImage_loaded loads, (load_inv loads).2]
    rfl
  | error fault =>
    rw [machine_ofImage_refused loads]
    rfl

end

/-- A debugger without breakpoints whose machine has counted no steps runs to where its
machine does. -/
theorem runsTo_run (running : d.running = true) (unset : d.breakpoints = {})
    (uncounted : d.machine.steps = 0) :
    ∃ final, d.RunsTo final ∧ final.machine = d.machine.run.2 := by
  have budget : d.allowance = d.machine.configuration.stepLimit.toNat := by
    rw [allowance, uncounted]
    rfl
  obtain ⟨ended, took, -⟩ := ending running (isLeast_allowance unset)
  refine ⟨_, runsTo_advance ended, ?_⟩
  rw [took.machine, budget, Machine.run, runLimited_eq]

/-! ## Whole runs -/

/-- **A run of the debugger stops where it should, whatever the size of a batch.**
After finitely many batches it has ended, at the machine that the fewest steps lead to
after which it has stopped, has reached the step limit, or was led to a breakpoint.
The program and what the user has set stay as they were, and batches of any other size
end at the same debugger. The run of a new debugger leaves the machine that a run of
the fresh machine with the program leaves. -/
theorem run_stops :
    (∀ d : Debugger, d.running = true → ∃ final taken,
      d.RunsTo final ∧ IsLeast {k | d.StopsAfter k} taken ∧ d.Took taken final ∧
      ∀ size, 0 < size → ∃ batches, (advance size)^[batches] d = final) ∧
    ∀ (image : Image) (c : Configuration), ∃ final,
      (ofImage image c).run.RunsTo final ∧
      (∀ loaded, (Machine.fresh c).load image.bytes = .ok loaded → final.machine = loaded.run.2) ∧
      ∀ fault, (Machine.fresh c).load image.bytes = .error fault →
        final.machine = (Machine.fresh c).run.2 := by
  refine ⟨fun d running => ?_, fun image c => ?_⟩
  · obtain ⟨taken, least⟩ := exists_least_stop d
    obtain ⟨ended, took, -⟩ := ending running least
    exact ⟨_, taken, runsTo_advance ended, least, took,
      fun size positive => ⟨_, batches_settled positive ended⟩⟩
  · obtain ⟨final, leads, machine⟩ :=
      runsTo_run (d := (ofImage image c).run) rfl rfl steps_ofImage
    have same : final.machine = (ofImage image c).machine.run.2 := machine
    refine ⟨final, leads, fun loaded loads => ?_, fun fault refused => ?_⟩
    · rw [same, machine_ofImage_loaded loads]
    · rw [same, machine_ofImage_refused refused]

/-- A debugger that runs a jump to itself, where a breakpoint stands. -/
def jumpMarked : Debugger where
  machine := { Machine.fresh {} with memory := ⟨#[0x70, 0, 0, 0, 0, 0, 0, 0, 0]⟩ }
  image := .empty
  breakpoints := Std.TreeSet.insert {} 0
  running := true
  message := .running

/-- A program that does nothing once and then halts. -/
def nopHalt : Image := { bytes := #[0x10, 0x00] }

/-- The jump is taken once, since the run starts at the breakpoint. A program that fills
memory runs to its end; in a memory too small for it there is only a zero, a halt. -/
theorem run_stops_jumpMarked :
    jumpMarked.running = true ∧
      (∃ final, jumpMarked.RunsTo final ∧ final.machine = jumpMarked.machine.next ∧
        ∃ batches, (advance 1)^[batches] jumpMarked = final) ∧
      (∃ final, (ofImage nopHalt { memorySize := 2 }).run.RunsTo final ∧
        final.machine.status = .halted ∧ final.machine.pc = 1) ∧
      ∃ final, (ofImage nopHalt { memorySize := 1 }).run.RunsTo final ∧
        final.machine.status = .halted ∧ final.machine.pc = 0 := by
  have once : IsLeast {k | jumpMarked.StopsAfter k} 1 := by
    refine ⟨.inr (.inr ⟨Nat.le_refl 1, rfl⟩), fun k stops => Nat.pos_of_ne_zero ?_⟩
    rintro rfl
    rcases stops with stopped | reached | ⟨early, _⟩
    · exact stopped rfl
    · exact absurd reached (by decide)
    · exact absurd early (by decide)
  obtain ⟨final, taken, leads, least, took, batches⟩ := run_stops.1 jumpMarked rfl
  obtain rfl := least.unique once
  refine ⟨rfl, ⟨final, leads, took.machine, batches 1 Nat.one_pos⟩, ?_, ?_⟩
  · obtain ⟨final, leads, fits, -⟩ := run_stops.2 nopHalt { memorySize := 2 }
    refine ⟨final, leads, ?_⟩
    rw [fits _ rfl]
    exact ⟨rfl, rfl⟩
  · obtain ⟨final, leads, -, tooLarge⟩ := run_stops.2 nopHalt { memorySize := 1 }
    refine ⟨final, leads, ?_⟩
    rw [tooLarge _ rfl]
    exact ⟨rfl, rfl⟩

end DebuggerRuns

end Y86Toolkit
