import Mathlib.Algebra.Group.Nat.Defs
import Mathlib.Logic.Function.Iterate
import Mathlib.Order.Bounds.Basic
import Y86Toolkit.Machine.Run
import Y86Toolkit.Proofs.StepFaults

/-!
Bounded runs as repeated steps. A run takes the fewest steps after which the
machine has stopped or the budget is used up. Where it ends, what it reports and
what is seen of it are functions of the machine after so many steps, and so a run
can be cut in two anywhere.
-/

namespace Y86Toolkit

namespace Machine

/-- The machine after a step, whatever came of it. -/
def next (m : Machine) : Machine := m.step.2

/-- The machine after so many steps. -/
def afterSteps (m : Machine) (count : Nat) : Machine := next^[count] m

/-- What is seen of the step behind so many others: where it started, what it gave,
and the machine after it. -/
def observation (m : Machine) (earlier : Nat) : Observation where
  pc := (m.afterSteps earlier).pc
  result := (m.afterSteps earlier).step.1
  machine := m.afterSteps (earlier + 1)

/-- The number of steps that a run takes. -/
def stepsWithin : Nat → Machine → Nat
  | 0, _ => 0
  | budget + 1, m => if m.status = .running then stepsWithin budget m.next + 1 else 0

end Machine

namespace Runs
open StepTable StepFaults

variable {m : Machine} {budget : Nat}

/-! ## One step -/

/-- Each step of a running machine is counted, failed ones included. -/
theorem steps_next (running : m.status = .running) : m.next.steps = m.steps + 1 := by
  rw [Machine.next]
  rcases step_cases m with ⟨stopped, _⟩ | ⟨_, cause, _, step⟩ | ⟨_, i, address, _, _, _, step⟩ |
    ⟨_, i, _, _, step⟩
  · exact absurd running stopped
  · rw [step]
    rfl
  · rw [step]
    rfl
  · rw [step, steps_commit]
    rfl

/-- Behind a step that failed or carried out a halt, the machine does not run. -/
theorem result_of_running (runs : m.next.status = .running) :
    ∃ i, m.step.1 = .ok i ∧ i ≠ .halt := by
  rw [Machine.next] at runs
  rcases step_cases m with ⟨stopped, step⟩ | ⟨_, cause, failed, step⟩ |
    ⟨_, i, address, _, _, _, step⟩ | ⟨_, i, _, _, step⟩
  · rw [step] at runs
    exact absurd runs stopped
  · rw [step] at runs
    rcases fetch_failed failed with ⟨status, _⟩ | ⟨status, _⟩ <;>
      · rw [status] at runs
        cases runs
  · rw [step] at runs
    cases runs
  · refine ⟨i, by rw [step], ?_⟩
    rintro rfl
    rw [step, status_commit] at runs
    cases runs

/-! ## The length of a run -/

theorem afterSteps_add (first second : Nat) :
    m.afterSteps (first + second) = (m.afterSteps first).afterSteps second := by
  rw [Nat.add_comm]
  exact Function.iterate_add_apply Machine.next second first m

theorem afterSteps_succ (k : Nat) : m.afterSteps (k + 1) = (m.afterSteps k).next :=
  Function.iterate_succ_apply' Machine.next k m

theorem stepsWithin_running (running : m.status = .running) :
    m.stepsWithin (budget + 1) = m.next.stepsWithin budget + 1 :=
  if_pos running

theorem stepsWithin_stopped (stopped : m.status ≠ .running) : m.stepsWithin budget = 0 := by
  cases budget with
  | zero => rfl
  | succ budget => exact if_neg stopped

theorem stepsWithin_le : m.stepsWithin budget ≤ budget := by
  induction budget generalizing m with
  | zero => exact Nat.le_refl 0
  | succ budget ih =>
    by_cases running : m.status = .running
    · rw [stepsWithin_running running]
      exact Nat.succ_le_succ ih
    · rw [stepsWithin_stopped running]
      exact Nat.zero_le _

/-- Each step of a run is taken by a running machine. -/
theorem running_of_lt {k : Nat} (early : k < m.stepsWithin budget) :
    (m.afterSteps k).status = .running := by
  induction budget generalizing m k with
  | zero => exact absurd early (Nat.not_lt_zero k)
  | succ budget ih =>
    by_cases running : m.status = .running
    · rw [stepsWithin_running running] at early
      cases k with
      | zero => exact running
      | succ k => exact ih (m := m.next) (Nat.lt_of_succ_lt_succ early)
    · rw [stepsWithin_stopped running] at early
      exact absurd early (Nat.not_lt_zero k)

/-- A run that ends with a running machine has used its budget up. -/
theorem stepsWithin_eq_budget (runs : (m.afterSteps (m.stepsWithin budget)).status = .running) :
    m.stepsWithin budget = budget := by
  induction budget generalizing m with
  | zero => rfl
  | succ budget ih =>
    by_cases running : m.status = .running
    · rw [stepsWithin_running running] at runs ⊢
      rw [ih runs]
    · rw [stepsWithin_stopped running] at runs
      exact absurd runs running

/-- A run goes on until the machine has stopped or the budget is used up, and no
further. -/
theorem isLeast_stepsWithin :
    IsLeast {k | k = budget ∨ (m.afterSteps k).status ≠ .running} (m.stepsWithin budget) := by
  constructor
  · by_cases runs : (m.afterSteps (m.stepsWithin budget)).status = .running
    · exact .inl (stepsWithin_eq_budget runs)
    · exact .inr runs
  · rintro k (rfl | stopped)
    · exact stepsWithin_le
    · exact Nat.le_of_not_lt fun early => stopped (running_of_lt early)

/-- What is left of a budget is spent on the machine that the first part leaves. -/
theorem stepsWithin_add (first second : Nat) :
    m.stepsWithin (first + second) =
      m.stepsWithin first + (m.afterSteps (m.stepsWithin first)).stepsWithin second := by
  induction first generalizing m with
  | zero =>
    rw [Nat.zero_add]
    exact (Nat.zero_add _).symm
  | succ first ih =>
    by_cases running : m.status = .running
    · rw [Nat.succ_add, stepsWithin_running running, stepsWithin_running running, ih, Nat.succ_add]
      rfl
    · have stays : m.afterSteps 0 = m := rfl
      rw [stepsWithin_stopped running, stepsWithin_stopped running, stays, stepsWithin_stopped running]

theorem steps_afterSteps {k : Nat} (taken : k ≤ m.stepsWithin budget) :
    (m.afterSteps k).steps = m.steps + UInt64.ofNat k := by
  induction k with
  | zero => exact (UInt64.add_zero m.steps).symm
  | succ k ih =>
    have here := ih (Nat.le_of_lt taken)
    rw [afterSteps_succ, steps_next (running_of_lt taken), here, UInt64.ofNat_add, UInt64.add_assoc]
    rfl

/-! ## Runs -/

/-- A run leaves the machine after as many steps as it takes, and shows each of
them once, in order. -/
theorem go_eq {σ : Type} (observe : σ → Observation → σ) (taken : Nat) (seen : σ) :
    Machine.runObserved.go observe budget taken m seen =
      (⟨taken + m.stepsWithin budget, (m.afterSteps (m.stepsWithin budget)).outcome⟩,
        m.afterSteps (m.stepsWithin budget),
        ((List.range (m.stepsWithin budget)).map m.observation).foldl observe seen) := by
  induction budget generalizing m taken seen with
  | zero => rfl
  | succ budget ih =>
    rw [Machine.runObserved.go]
    by_cases running : m.status = .running
    · rw [if_pos running, stepsWithin_running running, List.range_succ_eq_map, List.map_cons,
        List.foldl_cons, List.map_map]
      simp only [ih]
      rw [Nat.add_right_comm, ← Nat.add_assoc]
      rfl
    · rw [if_neg running, stepsWithin_stopped running]
      rfl

theorem runObserved_eq {σ : Type} (observe : σ → Observation → σ) (seen : σ) :
    m.runObserved observe budget seen =
      (⟨m.stepsWithin budget, (m.afterSteps (m.stepsWithin budget)).outcome⟩,
        m.afterSteps (m.stepsWithin budget),
        ((List.range (m.stepsWithin budget)).map m.observation).foldl observe seen) := by
  rw [Machine.runObserved, go_eq, Nat.zero_add]

theorem runLimited_eq :
    m.runLimited budget =
      (⟨m.stepsWithin budget, (m.afterSteps (m.stepsWithin budget)).outcome⟩,
        m.afterSteps (m.stepsWithin budget)) := by
  rw [Machine.runLimited, runObserved_eq]

/-- **Bounded runs compose.** A run followed by another leaves the machine of a
single run with both budgets; their steps add up to its steps, and the second
outcome is its outcome. Each run repeats the step the fewest times after which the
machine has stopped or the budget is used up. It reports that many steps, the
machine counts as many, and the limit was reached exactly where the machine still
runs. Watching a run does not change it and shows each of its steps once, in order;
only the last can be a fault or a halt. -/
theorem runs_compose (m : Machine) :
    (∀ first second,
      let opening := m.runLimited first
      let rest := opening.2.runLimited second
      let whole := m.runLimited (first + second)
      rest.2 = whole.2 ∧ opening.1.steps + rest.1.steps = whole.1.steps ∧
        rest.1.outcome = whole.1.outcome) ∧
    ∀ budget, ∃ taken,
      IsLeast {k | k = budget ∨ (m.afterSteps k).status ≠ .running} taken ∧
      (m.runLimited budget).2 = m.afterSteps taken ∧ (m.runLimited budget).1.steps = taken ∧
      (m.afterSteps taken).steps.toNat = (m.steps.toNat + taken) % 2 ^ 64 ∧
      ((m.runLimited budget).1.outcome = .stepLimitReached ↔ (m.afterSteps taken).status = .running) ∧
      ((m.afterSteps taken).status = .running → taken = budget) ∧
      ((m.afterSteps taken).status ≠ .running →
        (m.runLimited budget).1.outcome = .stopped (m.afterSteps taken).status) ∧
      (∀ (σ : Type) (observe : σ → Observation → σ) (seen : σ),
        m.runObserved observe budget seen = ((m.runLimited budget).1, (m.runLimited budget).2,
          ((List.range taken).map m.observation).foldl observe seen)) ∧
      ∀ earlier < taken,
        ((∃ fault, (m.observation earlier).result = .error fault) ∨
          (m.observation earlier).result = .ok .halt) → earlier + 1 = taken := by
  refine ⟨fun first second => ?_, fun budget => ?_⟩
  · have whole : m.afterSteps (m.stepsWithin (first + second)) =
        (m.afterSteps (m.stepsWithin first)).afterSteps
          ((m.afterSteps (m.stepsWithin first)).stepsWithin second) := by
      rw [stepsWithin_add, afterSteps_add]
    simp only [runLimited_eq]
    exact ⟨whole.symm, (stepsWithin_add first second).symm, congrArg Machine.outcome whole.symm⟩
  · simp only [runLimited_eq, runObserved_eq]
    refine ⟨m.stepsWithin budget, isLeast_stepsWithin, rfl, rfl, ?_, ?_, stepsWithin_eq_budget,
      fun stopped => if_neg stopped, fun σ observe seen => rfl, fun earlier early last => ?_⟩
    · rw [steps_afterSteps (Nat.le_refl _), UInt64.toNat_add, UInt64.toNat_ofNat', Nat.add_mod_mod]
    · rw [Machine.outcome]
      split <;> simp [*]
    · apply Nat.le_antisymm early
      apply Nat.le_of_not_lt
      intro further
      have runs := running_of_lt further
      rw [afterSteps_succ] at runs
      obtain ⟨i, result, others⟩ := result_of_running runs
      have seen : (m.observation earlier).result = .ok i := result
      rw [seen] at last
      rcases last with ⟨fault, failed⟩ | halted
      · cases failed
      · exact others (Except.ok.inj halted)

/-- A machine that does nothing once and then halts. -/
def idleOnce : Machine := { Machine.fresh {} with memory := ⟨#[0x10, 0x00]⟩ }

/-- With a budget of two the machine halts on the last step that it may take; cut in
the middle, the first run reaches its limit and the second halts. -/
theorem runs_compose_last :
    (idleOnce.runLimited 1).1 = ⟨1, .stepLimitReached⟩ ∧
      ((idleOnce.runLimited 1).2.runLimited 1).1 = ⟨1, .stopped .halted⟩ ∧
      (idleOnce.runLimited 2).1 = ⟨2, .stopped .halted⟩ ∧
      ((idleOnce.runLimited 1).2.runLimited 1).2 = (idleOnce.runLimited 2).2 := by
  obtain ⟨same, -, -⟩ := (runs_compose idleOnce).1 1 1
  exact ⟨rfl, rfl, rfl, same⟩

end Runs

end Y86Toolkit
