import Y86Toolkit.Machine.Step

/-!
Bounded runs: step after step until the machine stops or the budget is used up.
A run can be watched by folding over what each step did.
-/

namespace Y86Toolkit

/-- How a run ended. -/
inductive RunOutcome where
  | stopped (status : Status)
  | stepLimitReached
  deriving DecidableEq, Repr

/-- What a run did. -/
structure RunReport where
  /-- The number of steps taken. -/
  steps : Nat
  outcome : RunOutcome
  deriving DecidableEq, Repr

/-- One step of a run: where it started, what it gave, and the machine after
it. -/
structure Observation where
  pc : Word
  result : Except StepFault Instruction
  machine : Machine

namespace Machine

/-- How a run that leaves this machine has ended. -/
def outcome (m : Machine) : RunOutcome :=
  if m.status = .running then .stepLimitReached else .stopped m.status

/-- Runs for at most `budget` steps and folds `observe` over them. -/
def runObserved {σ : Type} (observe : σ → Observation → σ) (budget : Nat) (m : Machine) (seen : σ) :
    RunReport × Machine × σ :=
  go budget 0 m seen
where
  /-- The number of steps taken so far is counted along. -/
  go : Nat → Nat → Machine → σ → RunReport × Machine × σ
    | 0, taken, m, seen => (⟨taken, m.outcome⟩, m, seen)
    | budget + 1, taken, m, seen =>
      if m.status = .running then
        let pc := m.pc
        let (result, next) := m.step
        go budget (taken + 1) next (observe seen ⟨pc, result, next⟩)
      else (⟨taken, m.outcome⟩, m, seen)

/-- Runs for at most `budget` steps. -/
def runLimited (budget : Nat) (m : Machine) : RunReport × Machine :=
  let (report, after, _) := m.runObserved (fun nothing _ => nothing) budget ()
  (report, after)

/-- Runs for at most as many steps as the configuration allows. -/
def run (m : Machine) : RunReport × Machine := m.runLimited m.configuration.stepLimit.toNat

end Machine

end Y86Toolkit
