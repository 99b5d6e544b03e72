import Y86Toolkit.Image
import Y86Toolkit.Proofs.Cells
import Y86Toolkit.Proofs.Fallible

/-!
An image as the run of writes that made it. Later writes may cover earlier ones,
so a fragment need not show the bytes that were written for it; writing every
fragment once more with the bytes that it shows in the end makes the same image.
-/

namespace Y86Toolkit

/-- Bytes, their place, and the source line they stand for. -/
structure Fragment where
  address : Nat
  data : List Byte
  text : String

namespace Fragment

/-- The address behind the last byte. -/
def stop (f : Fragment) : Nat := f.address + f.data.length

theorem address_le_stop (f : Fragment) : f.address ≤ f.stop := Nat.le_add_right _ _

/-- The bytes, if there are any, end in front of a limit. -/
def EndsBy (f : Fragment) (limit : Nat) : Prop := f.data = [] ∨ f.stop ≤ limit

/-- An image takes the bytes. -/
def Fits (f : Fragment) : Prop := f.EndsBy Image.maxSize

/-- The last byte is in front of a limit, and the address too if there are no bytes. -/
theorem stop_le_iff {f : Fragment} {limit : Nat} : f.stop ≤ limit ↔ f.address ≤ limit ∧ f.EndsBy limit := by
  constructor
  · exact fun within => ⟨Nat.le_trans f.address_le_stop within, .inr within⟩
  · rintro ⟨inRange, none | within⟩
    · rwa [stop, none, List.length_nil, Nat.add_zero]
    · exact within

/-- One of the bytes goes to an address. -/
def Covers (f : Fragment) (i : Nat) : Prop := f.address ≤ i ∧ i < f.stop

instance (f : Fragment) (i : Nat) : Decidable (f.Covers i) := inferInstanceAs (Decidable (_ ∧ _))

instance (f : Fragment) : Decidable f.Fits := inferInstanceAs (Decidable (_ ∨ _))

/-- The byte that goes to an address. -/
def byteAt (f : Fragment) (i : Nat) : Byte := f.data[i - f.address]?.getD 0

/-- The entry in the record of lines. -/
def line (f : Fragment) : SourceLine := ⟨f.address, f.data.length, f.text⟩

/-- Cells with the bytes stored, which reach as far as needed. -/
def store (f : Fragment) (cells : Array Byte) : Array Byte :=
  if f.data.isEmpty then cells else Bytes.overwrite (Bytes.grow cells f.stop) f.address f.data

/-- The fragment as it shows in cells that may have been written again. -/
def shownIn (cells : Array Byte) (f : Fragment) : Fragment :=
  { f with data := Bytes.slice cells f.address f.stop }

end Fragment

/-- The image with one more fragment. -/
def Image.enter (image : Image) (f : Fragment) : Image :=
  { image with bytes := f.store image.bytes, lines := image.lines.push f.line }

namespace Fragments
open Cells

variable {fs : List Fragment} {f : Fragment} {cells : Array Byte}

/-- An image takes what fits, and nothing else. -/
theorem write_eq (image : Image) (f : Fragment) : image.write f.address f.data =
    if f.Fits then .ok { image with bytes := f.store image.bytes }
    else .error (.tooLarge f.address f.data.length) := by
  unfold Image.write Fragment.store
  by_cases none : f.data.isEmpty
  · have fits : f.Fits := .inl (List.isEmpty_iff.mp none)
    rw [if_pos none, if_pos none, if_pos fits]
  · rw [if_neg none, if_neg none]
    by_cases within : f.stop ≤ Image.maxSize
    · have fits : f.Fits := .inr within
      rw [if_pos fits]
      exact if_pos within
    · have refused : ¬ f.Fits := fun fits => fits.elim (fun empty => none (by simp [empty])) within
      rw [if_neg refused]
      exact if_neg within

theorem write_eq_ok_iff (f : Fragment) {image written : Image} :
    image.write f.address f.data = .ok written ↔
      f.Fits ∧ { image with bytes := f.store image.bytes } = written := by
  rw [write_eq]
  split <;> simp [*]

theorem write_eq_error_iff (f : Fragment) {image : Image} {cause : ImageError} :
    image.write f.address f.data = .error cause ↔
      ¬ f.Fits ∧ cause = .tooLarge f.address f.data.length := by
  rw [write_eq]
  split <;> simp [*, eq_comm]

/-! ## One fragment -/

theorem size_store : (f.store cells).size = if f.data = [] then cells.size else max cells.size f.stop := by
  unfold Fragment.store
  by_cases none : f.data = []
  · rw [if_pos none, if_pos (List.isEmpty_iff.mpr none)]
  · rw [if_neg none, if_neg (by simpa using none), Bytes.size_overwrite, Bytes.size_grow]

/-- A fragment changes the cells it covers, and no others. -/
theorem cell_store (i : Nat) :
    cell (f.store cells) i = if f.Covers i then f.byteAt i else cell cells i := by
  unfold Fragment.store
  by_cases none : f.data.isEmpty
  · have outside : ¬ f.Covers i := by
      simp only [Fragment.Covers, Fragment.stop, List.isEmpty_iff.mp none, List.length_nil]
      omega
    rw [if_pos none, if_neg outside]
  · rw [if_neg none, cell, Bytes.getElem?_overwrite, Bytes.size_grow]
    by_cases covered : f.Covers i
    · obtain ⟨lower, upper⟩ := covered
      rw [if_pos ⟨lower, upper, by omega⟩, if_pos ⟨lower, upper⟩, Fragment.byteAt]
    · have outside : ¬ (f.address ≤ i ∧ i < f.address + f.data.length ∧ i < max cells.size f.stop) :=
        fun inside => covered ⟨inside.1, inside.2.1⟩
      rw [if_neg outside, if_neg covered, ← cell, cell_grow]

/-- Bytes stored at the end come behind the others. -/
theorem store_at_end (place : f.address = cells.size) :
    (f.store cells).toList = cells.toList ++ f.data := by
  have stop : f.stop = cells.size + f.data.length := by rw [Fragment.stop, place]
  have whole : f.store cells = cells ++ f.data.toArray := by
    apply ext_cell
    · simp only [size_store, Array.size_append, List.size_toArray, stop]
      split
      · simp [*]
      · exact Nat.max_eq_right (Nat.le_add_right _ _)
    · intro i
      have covers : f.Covers i ↔ cells.size ≤ i ∧ i < cells.size + f.data.length := by
        rw [Fragment.Covers, place, stop]
      rw [cell_store]
      by_cases before : i < cells.size
      · have uncovered : ¬ f.Covers i := fun covered => absurd before (Nat.not_lt_of_le (covers.mp covered).1)
        rw [if_neg uncovered, cell, cell, Array.getElem?_append_left before]
      · have later : cells.size ≤ i := Nat.le_of_not_lt before
        rw [cell, cell, Array.getElem?_append_right later, Array.getElem?_eq_none later,
          List.getElem?_toArray]
        split
        · rw [Fragment.byteAt, place]
        · rename_i uncovered
          have outside : f.data.length ≤ i - cells.size :=
            Nat.le_of_not_lt fun below => uncovered (covers.mpr ⟨later, by omega⟩)
          rw [List.getElem?_eq_none outside]
  rw [whole, Array.toList_append]

/-! ## Fragment after fragment -/

/-- Cells with fragments stored one after the other. -/
def storeAll (cells : Array Byte) (fs : List Fragment) : Array Byte :=
  fs.foldl (fun cells f => f.store cells) cells

theorem cell_storeAll_uncovered {i : Nat} (free : ∀ f ∈ fs, ¬ f.Covers i) :
    cell (storeAll cells fs) i = cell cells i := by
  induction fs generalizing cells with
  | nil => rfl
  | cons f rest ih =>
    obtain ⟨uncovered, others⟩ := List.forall_mem_cons.mp free
    exact (ih others).trans ((cell_store i).trans (if_neg uncovered))

/-- Fragments that all agree with some final bytes leave these bytes behind,
in whatever order they cover each other, if the rest was there before. -/
theorem cell_storeAll_agreeing {final : Nat → Byte}
    (agree : ∀ f ∈ fs, ∀ i, f.Covers i → f.byteAt i = final i)
    (rest : ∀ i, (∀ f ∈ fs, ¬ f.Covers i) → cell cells i = final i) (i : Nat) :
    cell (storeAll cells fs) i = final i := by
  induction fs generalizing cells with
  | nil => exact rest i (fun f held => absurd held List.not_mem_nil)
  | cons f later ih =>
    obtain ⟨here, agree⟩ := List.forall_mem_cons.mp agree
    refine ih agree fun j free => ?_
    rw [cell_store]
    split
    · rename_i covered
      exact here j covered
    · rename_i uncovered
      exact rest j (List.forall_mem_cons.mpr ⟨uncovered, free⟩)

theorem size_le_size_storeAll (cells : Array Byte) (fs : List Fragment) :
    cells.size ≤ (storeAll cells fs).size := by
  induction fs generalizing cells with
  | nil => exact Nat.le_refl _
  | cons f rest ih =>
    refine Nat.le_trans ?_ (ih (f.store cells))
    rw [size_store]
    split <;> omega

/-- Cells reach as far as every fragment with bytes that is stored in them. -/
theorem endsBy_storeAll (held : f ∈ fs) : f.EndsBy (storeAll cells fs).size := by
  by_cases none : f.data = []
  · exact .inl none
  refine .inr ?_
  induction fs generalizing cells with
  | nil => cases held
  | cons g rest ih =>
    rcases List.mem_cons.mp held with rfl | later
    · refine Nat.le_trans ?_ (size_le_size_storeAll (f.store cells) rest)
      rw [size_store, if_neg none]
      omega
    · exact ih later

theorem size_storeAll_map {redo : Fragment → Fragment} (ends : ∀ f ∈ fs, (redo f).stop = f.stop)
    (bare : ∀ f ∈ fs, (redo f).data = [] ↔ f.data = []) {other : Array Byte}
    (sizes : other.size = cells.size) :
    (storeAll other (fs.map redo)).size = (storeAll cells fs).size := by
  induction fs generalizing cells other with
  | nil => exact sizes
  | cons f rest ih =>
    obtain ⟨endHere, ends⟩ := List.forall_mem_cons.mp ends
    obtain ⟨bareHere, bare⟩ := List.forall_mem_cons.mp bare
    refine ih ends bare ?_
    simp only [size_store, endHere, bareHere, sizes]

/-! ## Fragments as they show in the end -/

variable {final : Array Byte}

theorem length_shownIn (reach : f.EndsBy final.size) :
    (f.shownIn final).data.length = f.data.length := by
  have stop : f.stop = f.address + f.data.length := rfl
  simp only [Fragment.shownIn, length_slice]
  rcases reach with none | inside
  · rw [none, List.length_nil] at stop ⊢
    omega
  · omega

theorem covers_shownIn (reach : f.EndsBy final.size) (i : Nat) :
    (f.shownIn final).Covers i ↔ f.Covers i := by
  simp only [Fragment.Covers, Fragment.stop, length_shownIn reach]
  rfl

theorem byteAt_shownIn {i : Nat} (covered : f.Covers i) : (f.shownIn final).byteAt i = cell final i := by
  obtain ⟨lower, upper⟩ := covered
  have place : f.address + (i - f.address) = i := by omega
  rw [Fragment.byteAt, Fragment.shownIn, getD_slice (by rw [place]; exact upper), place]

/-- **Writing every fragment as it shows in the end makes the same cells.** -/
theorem storeAll_shown (fs : List Fragment) :
    storeAll #[] (fs.map (Fragment.shownIn (storeAll #[] fs))) = storeAll #[] fs := by
  have reach : ∀ f ∈ fs, f.EndsBy (storeAll #[] fs).size := fun _ held => endsBy_storeAll held
  generalize shown : storeAll #[] fs = final at reach ⊢
  apply ext_cell
  · rw [← shown]
    refine size_storeAll_map (fun f held => ?_) (fun f held => ?_) rfl
    · simp only [Fragment.stop, shown, length_shownIn (reach f held)]
      rfl
    · rw [shown, ← List.length_eq_zero_iff, length_shownIn (reach f held), List.length_eq_zero_iff]
  · refine cell_storeAll_agreeing (fun g again i covered => ?_) (fun i free => ?_)
    · obtain ⟨f, held, rfl⟩ := List.mem_map.mp again
      exact byteAt_shownIn ((covers_shownIn (reach f held) i).mp covered)
    · -- What no fragment covers was never written, and is zero both times.
      have untouched : ∀ f ∈ fs, ¬ f.Covers i := fun f held covered =>
        free _ (List.mem_map_of_mem held) ((covers_shownIn (reach f held) i).mpr covered)
      rw [← shown, cell_storeAll_uncovered untouched]

/-! ## Images -/

/-- The image that fragments make. -/
def assembled (fs : List Fragment) : Image := fs.foldl Image.enter .empty

theorem foldl_enter (image : Image) (fs : List Fragment) :
    fs.foldl Image.enter image =
      { image with bytes := storeAll image.bytes fs, lines := image.lines ++ (fs.map Fragment.line).toArray } := by
  induction fs generalizing image with
  | nil => simp [storeAll]
  | cons f rest ih =>
    rw [List.foldl_cons, ih]
    simp [Image.enter, storeAll]

theorem assembled_eq (fs : List Fragment) :
    assembled fs = { bytes := storeAll #[] fs, lines := (fs.map Fragment.line).toArray } := by
  rw [assembled, foldl_enter]
  simp [Image.empty]

/-- The image made again from what its fragments show. -/
theorem assembled_shown (fs : List Fragment) :
    assembled (fs.map (Fragment.shownIn (assembled fs).bytes)) = assembled fs := by
  have bytes : (assembled fs).bytes = storeAll #[] fs := by rw [assembled_eq]
  have lines : (fs.map (Fragment.shownIn (storeAll #[] fs))).map Fragment.line = fs.map Fragment.line := by
    rw [List.map_map]
    refine List.map_congr_left fun f held => ?_
    simp only [Function.comp_apply, Fragment.line, length_shownIn (endsBy_storeAll held)]
    rfl
  rw [bytes, assembled_eq, storeAll_shown, lines, ← assembled_eq]

end Fragments

end Y86Toolkit
