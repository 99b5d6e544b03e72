import Mathlib.Algebra.BigOperators.Group.Finset.Basic
import Mathlib.Algebra.BigOperators.Ring.Finset
import Mathlib.Tactic.Ring
import Y86Toolkit.Proofs.StepTable
import Y86Toolkit.Proofs.Cells

/-!
Words in memory, byte by byte. The lowest byte of a word stands at its address and
each byte behind it counts 256 times as much as the one before.
-/

namespace Y86Toolkit.MemoryWords
open Cells

/-! ## The bytes of a number -/

theorem toNat_eq_sum (bytes : List Byte) :
    Bytes.toNat bytes = ∑ j ∈ Finset.range bytes.length, (bytes[j]?.getD 0).toNat * 256 ^ j := by
  induction bytes with
  | nil => rfl
  | cons b rest ih =>
    rw [Bytes.toNat, ih, List.length_cons, Finset.sum_range_succ', Finset.mul_sum, Nat.add_comm]
    congr 1
    · refine Finset.sum_congr rfl fun j _ => ?_
      rw [List.getElem?_cons_succ]
      ring
    · simp

theorem toNat_lt (bytes : List Byte) : Bytes.toNat bytes < 256 ^ bytes.length := by
  induction bytes with
  | nil => exact Nat.one_pos
  | cons b rest ih =>
    have low : b.toNat < 256 := b.toNat_lt
    rw [Bytes.toNat, List.length_cons, Nat.pow_succ]
    omega

/-- Bytes that fit in a word are its value. -/
theorem toNat_toWord {bytes : List Byte} (fits : bytes.length = 8) :
    (Bytes.toWord bytes).toNat = Bytes.toNat bytes := by
  have bound := toNat_lt bytes
  rw [fits] at bound
  rw [Bytes.toWord, UInt64.toNat_ofNat']
  exact Nat.mod_eq_of_lt (Nat.lt_of_lt_of_eq bound (by decide))

theorem getElem?_ofNat {count j : Nat} (n : Nat) (below : j < count) :
    (Bytes.ofNat count n)[j]? = some (UInt8.ofNat (n / 256 ^ j % 256)) := by
  induction count generalizing n j with
  | zero => exact absurd below (Nat.not_lt_zero j)
  | succ count ih =>
    rw [Bytes.ofNat]
    cases j with
    | zero => rw [List.getElem?_cons_zero, Nat.pow_zero, Nat.div_one]
    | succ j =>
      rw [List.getElem?_cons_succ, ih (n / 256) (Nat.lt_of_succ_lt_succ below), Nat.div_div_eq_div_mul,
        Nat.pow_succ, Nat.mul_comm]

/-! ## Reading and storing -/

variable {m : Memory} {address value : Word}

/-- The word at an address is the sum of its eight bytes, each by its place. -/
theorem toNat_loaded (inside : m.Inside address Bytes.perWord) :
    (m.loaded (.load address)).toNat =
      ∑ j ∈ Finset.range 8, (cell m.bytes (address.toNat + j)).toNat * 256 ^ j := by
  have within : address.toNat + 8 ≤ m.bytes.size := inside
  have length : (Bytes.slice m.bytes address.toNat (address.toNat + 8)).length = 8 := by
    rw [length_slice]
    omega
  rw [Memory.loaded, Bytes.perWord, toNat_toWord length, toNat_eq_sum, length]
  refine Finset.sum_congr rfl fun j counts => ?_
  rw [getD_slice (Nat.add_lt_add_left (Finset.mem_range.mp counts) _)]

/-- Storing a word changes its eight bytes, and no others. -/
theorem toNat_cell_store (inside : m.Inside address Bytes.perWord) (i : Nat) :
    (cell (m.store address value).bytes i).toNat =
      if address.toNat ≤ i ∧ i < address.toNat + 8 then value.toNat / 256 ^ (i - address.toNat) % 256
      else (cell m.bytes i).toNat := by
  have within : address.toNat + 8 ≤ m.bytes.size := inside
  rw [cell, Memory.store, Bytes.getElem?_overwrite, Bytes.length_ofWord]
  by_cases covered : address.toNat ≤ i ∧ i < address.toNat + 8
  · have place : i - address.toNat < Bytes.perWord := by
      rw [Bytes.perWord]
      omega
    rw [if_pos (by omega), if_pos covered, Bytes.ofWord, getElem?_ofNat _ place, Option.getD_some,
      UInt8.toNat_ofNat', Nat.mod_mod]
  · rw [if_neg (by omega), if_neg covered, cell]

end Y86Toolkit.MemoryWords
