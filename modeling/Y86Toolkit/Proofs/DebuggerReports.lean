import Y86Toolkit.Proofs.DebuggerRuns

/-!
What the debugger says at the end of a run. The message is the fault of the last step
or tells that the machine had stopped or the limit was reached, unless that step led to
a breakpoint. Then the message is about the breakpoint, whatever came of the step; a
halt or a fault stays where it is, and so a breakpoint there hides it.
-/

namespace Y86Toolkit.DebuggerReports
open Debugger Runs Resets StepTable StepFaults DebuggerRuns

variable {d : Debugger} {m : Machine} {taken : Nat} {message : DebuggerMessage}

/-- A step that fails neither leaves the machine running nor halts it. -/
theorem status_of_failed {fault : StepFault} (running : m.status = .running)
    (failed : m.step.1 = .error fault) : m.next.status ≠ .running ∧ m.next.status ≠ .halted := by
  rw [Machine.next]
  rcases step_cases m with ⟨stopped, _⟩ | ⟨_, cause, unread, step⟩ | ⟨_, i, address, _, _, _, step⟩ |
    ⟨_, i, _, _, step⟩
  · exact absurd running stopped
  · rw [step]
    have shows : (stopped m (Machine.fetchStatus cause)).status = Machine.fetchStatus cause := rfl
    rw [shows]
    rcases fetch_failed unread with ⟨status, _⟩ | ⟨status, _⟩
    · rw [status]
      decide
    · rw [status]
      decide
  · rw [step]
    have shows : (stopped m .invalidAddress).status = .invalidAddress := rfl
    rw [shows]
    decide
  · rw [step] at failed
    cases failed

/-- What keeps a machine from another step is that it has stopped, or else the limit. -/
theorem obstacle?_eq_some (found : d.obstacle? = some message) :
    (d.machine.status ≠ .running ∧ message = .runStopped d.machine.status d.machine.steps) ∨
      (d.machine.status = .running ∧ message = .stepLimitReached d.machine.configuration.stepLimit) := by
  rw [obstacle?] at found
  split at found
  · exact .inl ⟨‹_›, (Option.some.inj found).symm⟩
  · split at found
    · exact .inr ⟨not_not.mp ‹_›, (Option.some.inj found).symm⟩
    · cases found

/-- Each step of a run is taken by a running machine. -/
theorem running_before (least : IsLeast {k | d.StopsAfter k} taken) {earlier : Nat}
    (early : earlier < taken) :
    (d.machine.afterSteps earlier).status = .running := by
  by_contra stopped
  exact Nat.not_le_of_lt early (least.2 (.inl stopped))

/-- A step that fails is the last one of its run. -/
theorem eq_of_failed (least : IsLeast {k | d.StopsAfter k} taken) {earlier : Nat} {fault : StepFault}
    (early : earlier < taken) (failed : (d.machine.observation earlier).result = .error fault) :
    taken = earlier + 1 :=
  Nat.le_antisymm (least.2 (stopsAfter_failed failed)) early

/-- **What a run says when it ends.** Where its last step led to a breakpoint, that is
the message, whatever came of the step. Anywhere else no breakpoint is spoken of: a run
whose step failed gives that step's fault, one whose machine has halted or had stopped
before says so, and only a machine that still runs has reached the limit. -/
theorem message_of_ended (running : d.running = true) (ended : d.tick.running = false) :
    ∃ taken, IsLeast {k | d.StopsAfter k} taken ∧ d.Took taken d.tick ∧
      (d.PausesAfter taken → d.tick.message = .breakpointReached d.tick.machine.pc) ∧
      (¬ d.PausesAfter taken →
        (∀ pc, d.tick.message ≠ .breakpointReached pc) ∧
        (∀ earlier < taken, ∀ fault, (d.machine.observation earlier).result = .error fault →
          d.tick.message = .faulted fault) ∧
        (d.tick.machine.status = .halted →
          d.tick.message = .runStopped .halted d.tick.machine.steps) ∧
        (d.machine.status ≠ .running →
          d.tick.message = .runStopped d.machine.status d.machine.steps) ∧
        (d.tick.machine.status = .running →
          d.tick.message = .stepLimitReached d.machine.configuration.stepLimit)) := by
  obtain ⟨taken, least⟩ := exists_least_stop d
  obtain ⟨settled, took, why⟩ := ending running least
  have last : d.tick = d.advance (taken + 1) := advance_settled ended settled
  rw [← last] at took why
  refine ⟨taken, least, took, ?_⟩
  rw [took.machine]
  generalize d.tick.message = message at why
  -- Each reason comes with its message; it rules out what the other parts speak of.
  cases why with
  | breakpoint pauses => exact ⟨fun _ => rfl, fun clear => absurd pauses clear⟩
  | @fault earlier fault clear failed =>
    have stops := status_of_failed (running_before least (Nat.lt_succ_self earlier)) failed
    rw [← afterSteps_succ] at stops
    refine ⟨fun pauses => absurd pauses clear, fun _ => ⟨nofun, ?_, ?_, ?_, ?_⟩⟩
    · intro k early other again
      obtain rfl : earlier = k := Nat.succ.inj (eq_of_failed least early again)
      cases failed.symm.trans again
      rfl
    · exact fun halted => absurd halted stops.2
    · exact fun stopped => absurd (running_before least (Nat.succ_pos earlier)) stopped
    · exact fun runs => absurd runs stops.1
  | obstacle clear sound found =>
    have unfailed : ∀ earlier < taken, ∀ fault, (d.machine.observation earlier).result = .error fault →
        message = .faulted fault := fun earlier early fault failed =>
      absurd failed (sound earlier fault (eq_of_failed least early failed))
    have unmoved : d.machine.status ≠ .running → taken = 0 := fun stopped =>
      Nat.le_zero.mp (least.2 (.inl stopped))
    have reason := obstacle?_eq_some found
    rw [(alike_afterSteps d.machine taken).configuration] at reason
    refine ⟨fun pauses => absurd pauses clear, fun _ => ?_⟩
    rcases reason with ⟨stopped, rfl⟩ | ⟨runs, rfl⟩
    · refine ⟨nofun, unfailed, fun halted => ?_, fun before => ?_, fun runs => absurd runs stopped⟩
      · exact congrArg (DebuggerMessage.runStopped · _) halted
      · rw [unmoved before]
        rfl
    · refine ⟨nofun, unfailed, fun halted => ?_, fun before => ?_, fun _ => rfl⟩
      · cases halted.symm.trans runs
      · rw [unmoved before] at runs
        exact absurd runs before

/-- A debugger that runs a machine with a single byte of memory. -/
def oneByte (byte : Byte) (breakpoints : Std.TreeSet Word) : Debugger where
  machine := { Machine.fresh {} with memory := ⟨#[byte]⟩ }
  image := .empty
  breakpoints
  running := true
  message := .running

/-- The fault of an unknown opcode is told where no breakpoint stands. -/
theorem message_of_ended_unknownOpcode :
    (oneByte 0xFF {}).running = true ∧ (oneByte 0xFF {}).tick.running = false ∧
      (oneByte 0xFF {}).tick.message = .faulted (.fetch 0 (.decode (.invalidOpcode 15))) := by
  have running : (oneByte 0xFF {}).running = true := rfl
  have ended : (oneByte 0xFF {}).tick.running = false := rfl
  obtain ⟨taken, least, -, -, tells⟩ := message_of_ended running ended
  have some : 0 < taken := by
    refine Nat.pos_of_ne_zero fun none => ?_
    subst none
    rcases least.1 with stopped | reached | ⟨early, _⟩
    · exact stopped rfl
    · exact absurd reached (by decide)
    · exact absurd early (by decide)
  have clear : ¬ (oneByte 0xFF {}).PausesAfter taken := by
    rintro ⟨_, set⟩
    simp [oneByte] at set
  exact ⟨running, ended, (tells clear).2.1 0 some _ rfl⟩

/-- A debugger that runs a halt, where a breakpoint stands. -/
def haltMarked : Debugger := oneByte 0x00 (Std.TreeSet.insert {} 0)

/-- A debugger that runs an unknown opcode, where a breakpoint stands. -/
def faultMarked : Debugger := oneByte 0xFF (Std.TreeSet.insert {} 0)

/-- A breakpoint where the machine halts or faults hides it: it is spoken of though the
machine has stopped, and neither the fault nor the halt is told. -/
theorem breakpoint_hides_end :
    (¬ ∀ d : Debugger, d.running = true → d.tick.running = false →
      (∃ pc, d.tick.message = .breakpointReached pc) → d.tick.machine.status = .running) ∧
    (¬ ∀ d : Debugger, d.running = true → d.tick.running = false →
      ∀ earlier fault, d.Took (earlier + 1) d.tick → (d.machine.afterSteps earlier).status = .running →
        (d.machine.observation earlier).result = .error fault → d.tick.message = .faulted fault) ∧
    (¬ ∀ d : Debugger, d.running = true → d.tick.running = false →
      d.tick.machine.status = .halted →
        d.tick.message = .runStopped .halted d.tick.machine.steps) := by
  have halted : haltMarked.tick.machine.status = .halted := rfl
  have hidden : haltMarked.tick.message = .breakpointReached 0 := rfl
  refine ⟨fun always => ?_, fun always => ?_, fun always => ?_⟩
  · cases halted.symm.trans (always haltMarked rfl rfl ⟨0, hidden⟩)
  · have failed : (faultMarked.machine.observation 0).result =
        .error (.fetch 0 (.decode (.invalidOpcode 15))) := rfl
    have silent : faultMarked.tick.message = .breakpointReached 0 := rfl
    have took : faultMarked.Took 1 faultMarked.tick := ⟨rfl, rfl, rfl, rfl, rfl⟩
    cases silent.symm.trans (always faultMarked rfl rfl 0 _ took rfl failed)
  · cases hidden.symm.trans (always haltMarked rfl rfl halted)

end Y86Toolkit.DebuggerReports
