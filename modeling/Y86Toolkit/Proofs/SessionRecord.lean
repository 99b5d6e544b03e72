import Y86Toolkit.Proofs.SessionLoading

/-!
The program on record in a session. It is the one that was loaded last, and it fits
into memory whatever has been asked of the session since, a load that was refused
included. So a reset always succeeds.
-/

namespace Y86Toolkit

namespace Session

/-- A session that nothing has been asked of yet. -/
inductive Begun : Session → Prop where
  | standard : Begun (ofConfiguration {})
  | sized {size : Word} {s : Session} (made : withMemory size = .ok s) : Begun s

/-- The image that an operation puts on record, if it loads a source. -/
def recorded? (s : Session) : Operation → Option Image
  | .load source =>
    match (s.loadSource source).1 with
    | .ok _ => (Assembly.assemble source).toOption
    | .error _ => none
  | .step | .run _ | .reset => none

/-- The images that operations put on record, in order. -/
def recorded (s : Session) : List Operation → List Image
  | [] => []
  | operation :: rest => (s.recorded? operation).toList ++ (s.after operation).recorded rest

/-- The program on record fits into memory. -/
def Fits (s : Session) : Prop := s.image.size ≤ s.machine.memory.size

end Session

namespace SessionRecord
open Assembly Resets Session SessionLoading

variable {s : Session} {operation : Operation}

/-! ## What is on record -/

theorem image_reset (s : Session) : s.reset.2.image = s.image := by
  rw [Session.reset]
  cases s.machine.reset.load s.image.bytes <;> rfl

/-- A source is loaded exactly where it assembles to an image that fits. -/
theorem recorded?_load_eq_some_iff {source : String} {image : Image} :
    s.recorded? (.load source) = some image ↔
      assemble source = .ok image ∧ image.size ≤ s.machine.memory.size := by
  rw [recorded?]
  rcases loadSource_cases s source with ⟨cause, failed, outcome⟩ | ⟨other, made, large, outcome⟩ |
    ⟨other, machine, made, within, _, outcome⟩
  · rw [outcome, failed]
    exact iff_of_false nofun fun made => nomatch made.1
  · rw [outcome, made]
    refine iff_of_false nofun ?_
    rintro ⟨⟨⟩, within⟩
    exact Nat.not_le_of_lt large within
  · rw [outcome, made]
    constructor
    · rintro ⟨⟩
      exact ⟨rfl, within⟩
    · rintro ⟨⟨⟩, _⟩
      rfl

theorem image_after (s : Session) (operation : Operation) :
    (s.after operation).image = (s.recorded? operation).getD s.image := by
  cases operation with
  | load source =>
    rw [Session.after, recorded?]
    rcases loadSource_cases s source with ⟨cause, _, outcome⟩ | ⟨image, _, _, outcome⟩ |
      ⟨image, machine, made, _, _, outcome⟩
    · rw [outcome]
      rfl
    · rw [outcome]
      rfl
    · rw [outcome, made]
      rfl
  | step | run => rfl
  | reset => exact image_reset s

theorem image_operations (s : Session) (operations : List Operation) :
    (operations.foldl after s).image = (s.recorded operations).getLastD s.image := by
  induction operations generalizing s with
  | nil => rfl
  | cons operation rest ih =>
    rw [List.foldl_cons, ih, image_after, recorded]
    cases s.recorded? operation with
    | none => rfl
    | some image => exact (List.getLastD_cons ..).symm

/-! ## That it fits -/

theorem fits_after (fits : s.Fits) (operation : Operation) : (s.after operation).Fits := by
  rw [Fits, (alike_after s operation).size, image_after]
  cases loads : s.recorded? operation with
  | none => exact fits
  | some image =>
    cases operation with
    | load source => exact (recorded?_load_eq_some_iff.mp loads).2
    | step | run | reset => cases loads

theorem fits_operations (fits : s.Fits) (operations : List Operation) : (operations.foldl after s).Fits :=
  List.foldlRecOn operations after fits fun _ front operation _ => fits_after front operation

theorem alike_operations (s : Session) (operations : List Operation) :
    s.machine.Alike (operations.foldl after s).machine :=
  List.foldlRecOn (motive := fun later => s.machine.Alike later.machine) operations after
    (.refl s.machine) fun middle front operation _ => front.trans (alike_after middle operation)

/-- A program that fits is loaded into the machine that a reset leaves. -/
theorem reset_loads (fits : s.Fits) :
    ∃ loaded, s.machine.reset.load s.image.bytes = .ok loaded ∧
      s.reset = (.ok (), { s with machine := loaded }) := by
  have within : s.image.size ≤ s.machine.reset.memory.size := by
    rw [(alike_reset s.machine).size]
    exact fits
  exact ⟨_, load_eq within, by simp only [Session.reset, load_eq within]⟩

/-- A session begins without a program, in a machine of the size it asks for. -/
theorem begun_cases (begun : s.Begun) : s.image = .empty ∧ s.Fits ∧ s.machine.Sized := by
  cases begun with
  | standard => exact ⟨rfl, Nat.zero_le _, sized_fresh {}⟩
  | sized made =>
    rw [withMemory_eq made]
    exact ⟨rfl, Nat.zero_le _, sized_fresh _⟩

/-- **A reset never fails.** Whatever has been asked of a session since it began, the
program on record is the one that was loaded last, if any was, and it fits into memory.
So a reset succeeds, and leaves the machine that comes of loading that program into a
fresh one. -/
theorem reset_succeeds (begun : s.Begun) (operations : List Operation) :
    let final := operations.foldl after s
    final.image = (s.recorded operations).getLastD .empty ∧
      final.image.size ≤ final.machine.memory.size ∧ final.reset.1 = .ok () ∧
      final.reset.2.image = final.image ∧
      (Machine.fresh s.machine.configuration).load final.image.bytes = .ok final.reset.2.machine := by
  intro final
  obtain ⟨none, fits, sized⟩ := begun_cases begun
  have within : final.Fits := fits_operations fits operations
  have alike : s.machine.Alike final.machine := alike_operations s operations
  obtain ⟨loaded, loads, outcome⟩ := reset_loads within
  rw [reset_eq (alike.sized sized), alike.configuration] at loads
  rw [outcome]
  exact ⟨none ▸ image_operations s operations, within, rfl, rfl, loads⟩

/-- A program of one instruction, a step, and a program that is larger than memory. -/
def nopThenTooLarge : List Operation := [.load "nop\n", .step, .load ".pos 1000\nhalt\n"]

/-- A load that was refused leaves the first program on record, and the reset succeeds. -/
theorem reset_succeeds_refused :
    (ofConfiguration { memorySize := 1000 }).Begun ∧
      (nopThenTooLarge.foldl after (ofConfiguration { memorySize := 1000 })).image = nopImage ∧
      (nopThenTooLarge.foldl after (ofConfiguration { memorySize := 1000 })).reset.1 = .ok () := by
  have made : withMemory 1000 = .ok (ofConfiguration { memorySize := 1000 }) := rfl
  have begun : (ofConfiguration { memorySize := 1000 }).Begun := .sized made
  obtain ⟨record, -, done, -⟩ := reset_succeeds begun nopThenTooLarge
  refine ⟨begun, record.trans ?_, done⟩
  have loads : (ofConfiguration { memorySize := 1000 }).recorded? (.load "nop\n") = some nopImage := by
    refine recorded?_load_eq_some_iff.mpr ⟨assemble_nop, ?_⟩
    have size : (ofConfiguration { memorySize := 1000 }).machine.memory.size = 1000 := sized_fresh _
    rw [size]
    decide
  have refused : steppedOnce.recorded? (.load ".pos 1000\nhalt\n") = none := by
    obtain ⟨image, made, size⟩ := assemble_behind
    refine Option.eq_none_iff_forall_ne_some.mpr fun other loads => ?_
    obtain ⟨same, within⟩ := recorded?_load_eq_some_iff.mp loads
    cases made.symm.trans same
    rw [size, alike_steppedOnce.size, sized_fresh] at within
    exact absurd within (by decide)
  have stepped : ((ofConfiguration { memorySize := 1000 }).after (.load "nop\n")).after .step = steppedOnce := rfl
  simp only [nopThenTooLarge, recorded, loads, stepped, refused]
  rfl

end SessionRecord

end Y86Toolkit
