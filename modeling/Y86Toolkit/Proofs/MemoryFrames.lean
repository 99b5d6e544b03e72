import Y86Toolkit.Proofs.Fetch
import Y86Toolkit.Proofs.StepTable

/-!
What a change to memory leaves alone. Two memories that agree outside a range of
addresses show the same words and bytes wherever an access does not touch the range,
and storing a word changes its eight bytes alone.
-/

namespace Y86Toolkit

namespace Memory

/-- Two memories of one size agree outside the addresses from `low` to before `high`. -/
structure SameOutside (low high : Nat) (before after : Memory) : Prop where
  size : after.size = before.size
  cells : ∀ i, ¬ (low ≤ i ∧ i < high) → after.bytes[i]? = before.bytes[i]?

namespace SameOutside
variable {low high : Nat} {before middle after : Memory}

theorem refl (low high : Nat) (m : Memory) : SameOutside low high m m :=
  ⟨rfl, fun _ _ => rfl⟩

theorem trans (first : SameOutside low high before middle) (second : SameOutside low high middle after) :
    SameOutside low high before after :=
  ⟨second.size.trans first.size, fun i outside => (second.cells i outside).trans (first.cells i outside)⟩

/-- Memories that agree outside a range agree outside every larger one. -/
theorem widen {low' high' : Nat} (same : SameOutside low high before after) (lower : low' ≤ low)
    (upper : high ≤ high') : SameOutside low' high' before after := by
  refine ⟨same.size, fun i outside => same.cells i ?_⟩
  omega

end SameOutside

end Memory

namespace MemoryFrames
open Memory Cells StepTable

variable {low high : Nat} {m before after : Memory} {address value : Word}

/-! ## Stored words -/

theorem sameOutside_store (m : Memory) (address value : Word) :
    SameOutside address.toNat (address.toNat + 8) m (m.store address value) := by
  refine ⟨size_after m (.store address value), fun i outside => ?_⟩
  rw [Memory.store, Bytes.getElem?_overwrite, Bytes.length_ofWord, if_neg (by omega)]

/-- A stored word is read back. -/
theorem loaded_store (inside : m.Inside address Bytes.perWord) :
    (m.store address value).loaded (.load address) = value := by
  have within : address.toNat + 8 ≤ m.bytes.size := inside
  have slice : Bytes.slice (m.store address value).bytes address.toNat (address.toNat + 8) =
      Bytes.ofWord value := by
    apply List.ext_getElem?
    intro i
    rw [getElem?_slice, Memory.store, Bytes.getElem?_overwrite, Bytes.length_ofWord]
    by_cases early : i < 8
    · rw [if_pos (by omega), if_pos (by omega), Nat.add_sub_cancel_left]
    · rw [if_neg (by omega), List.getElem?_eq_none (by simpa using early)]
  rw [Memory.loaded, Bytes.perWord, slice, Bytes.toWord_ofWord]

/-! ## Outside the range -/

theorem slice_sameOutside (same : SameOutside low high before after) {start stop : Nat}
    (apart : stop ≤ low ∨ high ≤ start) :
    Bytes.slice after.bytes start stop = Bytes.slice before.bytes start stop := by
  apply List.ext_getElem?
  intro i
  rw [getElem?_slice, getElem?_slice]
  split
  · exact same.cells _ (by omega)
  · rfl

theorem loaded_sameOutside (same : SameOutside low high before after)
    (apart : address.toNat + 8 ≤ low ∨ high ≤ address.toNat) :
    after.loaded (.load address) = before.loaded (.load address) := by
  rw [Memory.loaded, Memory.loaded, Bytes.perWord, slice_sameOutside same apart]

theorem fetch_sameOutside (same : SameOutside low high before after) {length : Nat}
    (apart : address.toNat + length ≤ low ∨ high ≤ address.toNat) :
    after.fetch address length = before.fetch address length := by
  have inside : after.Inside address length ↔ before.Inside address length := by
    rw [Memory.Inside, Memory.Inside, same.size]
  simp only [Memory.fetch, inside, slice_sameOutside same apart, same.size]

/-- Where the bytes of an instruction are found, the instruction is. -/
theorem decodeAt_of_fetch {i : Instruction} (found : m.fetch address i.length = .ok i.encode) :
    m.decodeAt address = .ok i := by
  rw [Memory.fetch] at found
  split at found
  · rename_i inside
    have bytes := Except.ok.inj found
    apply Fetch.decodeAt_of_shows inside
    rw [bytes, ← List.append_nil i.encode]
    exact Encoding.encode_append_shows i []
  · cases found

end MemoryFrames

end Y86Toolkit
