import Y86Toolkit.Bytes

/-!
Parts of an array of bytes, cell by cell.
-/

namespace Y86Toolkit.Cells
open Bytes

variable {cells : Array Byte} {start stop : Nat}

/-- A part holds the cells between its ends, as far as there are any. -/
theorem getElem?_slice (i : Nat) :
    (slice cells start stop)[i]? = if start + i < stop then cells[start + i]? else none := by
  rw [slice, Array.getElem?_toList, Array.getElem?_extract]
  by_cases inside : i < min stop cells.size - start
  · rw [if_pos inside, if_pos (by omega)]
  · rw [if_neg inside]
    by_cases before : start + i < stop
    · rw [if_pos before, Array.getElem?_eq_none (by omega)]
    · rw [if_neg before]

@[simp] theorem length_slice : (slice cells start stop).length = min stop cells.size - start := by
  simp only [slice, Array.length_toList, Array.size_extract]

theorem slice_cons {b : Byte} (before : start < stop) (here : cells[start]? = some b) :
    slice cells start stop = b :: slice cells (start + 1) stop := by
  apply List.ext_getElem?
  intro i
  cases i with
  | zero => rw [getElem?_slice, Nat.add_zero, if_pos before, here, List.getElem?_cons_zero]
  | succ i => rw [List.getElem?_cons_succ, getElem?_slice, getElem?_slice, Nat.add_right_comm, Nat.add_assoc]

theorem headD_slice (before : start < stop) :
    (slice cells start stop).headD 0 = cells[start]?.getD 0 := by
  rw [List.headD_eq_head?_getD, List.head?_eq_getElem?, getElem?_slice, Nat.add_zero, if_pos before]

/-! ## Cells behind the end -/

/-- The byte at an address, which is zero where there is no cell. -/
def cell (cells : Array Byte) (i : Nat) : Byte := cells[i]?.getD 0

/-- Arrays of one size are the same when their cells are. -/
theorem ext_cell {other : Array Byte} (sizes : cells.size = other.size)
    (same : ∀ i, cell cells i = cell other i) : cells = other := by
  refine Array.ext sizes fun i held inOther => ?_
  have here := same i
  rwa [cell, cell, Array.getElem?_eq_getElem held, Array.getElem?_eq_getElem inOther] at here

@[simp] theorem cell_grow (size i : Nat) : cell (grow cells size) i = cell cells i := by
  unfold grow
  split
  · by_cases held : i < cells.size
    · rw [cell, cell, Array.getElem?_append_left held]
    · rw [cell, cell, Array.getElem?_append_right (by omega), Array.getElem?_replicate,
        Array.getElem?_eq_none (Nat.le_of_not_lt held)]
      split <;> rfl
  · rfl

theorem getD_slice {i : Nat} (before : start + i < stop) :
    (slice cells start stop)[i]?.getD 0 = cell cells (start + i) := by
  rw [getElem?_slice, if_pos before, cell]

end Y86Toolkit.Cells
