/-!
Fallible steps taken one after the other. A sequence succeeds exactly when each
of its steps does, which takes a run of such steps apart one at a time.
-/

namespace Y86Toolkit.Fallible

variable {ε ε' α β : Type}

/-- Two steps in sequence succeed exactly when both do. -/
theorem bind_eq_ok {first : Except ε α} {next : α → Except ε β} {result : β} :
    (first >>= next) = .ok result ↔ ∃ a, first = .ok a ∧ next a = .ok result := by
  cases first with
  | error cause => simp [bind, Except.bind]
  | ok a => simp [bind, Except.bind]

/-- Two steps in sequence fail when the first does, or the second behind it. -/
theorem bind_eq_error {first : Except ε α} {next : α → Except ε β} {cause : ε} :
    (first >>= next) = .error cause ↔
      first = .error cause ∨ ∃ a, first = .ok a ∧ next a = .error cause := by
  cases first with
  | error other => simp [bind, Except.bind]
  | ok a => simp [bind, Except.bind]

theorem mapError_ok {rename : ε → ε'} {a : α} : (.ok a : Except ε α).mapError rename = .ok a := rfl

theorem mapError_error {rename : ε → ε'} {cause : ε} :
    (.error cause : Except ε α).mapError rename = .error (rename cause) := rfl

/-- Renaming the causes of failure does not change what succeeds. -/
theorem mapError_eq_ok {rename : ε → ε'} {step : Except ε α} {result : α} :
    step.mapError rename = .ok result ↔ step = .ok result := by
  cases step with
  | error cause => simp [mapError_error]
  | ok a => simp [mapError_ok]

/-- Going on without another step succeeds. -/
theorem pure_eq_ok {a result : α} : (pure a : Except ε α) = .ok result ↔ a = result := by
  simp [pure, Except.pure]

theorem pure_eq_error {a : α} {cause : ε} : (pure a : Except ε α) = .error cause ↔ False := by
  simp [pure, Except.pure]

/-- What is made of a result at the end is no reason to fail. -/
theorem bind_pure_eq_error {step : Except ε α} {use : α → β} {cause : ε} :
    (step >>= fun a => pure (use a)) = .error cause ↔ step = .error cause := by
  simp only [bind_eq_error, pure_eq_error, and_false, exists_false, or_false]

end Y86Toolkit.Fallible
