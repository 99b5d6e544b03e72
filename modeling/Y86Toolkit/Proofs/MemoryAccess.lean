import Y86Toolkit.Proofs.FreshStart
import Y86Toolkit.Proofs.MemoryFrames
import Y86Toolkit.Proofs.MemoryWords

/-!
Memory as an array of bytes. A word or a program is stored as a whole where it fits, and
otherwise nothing is changed; a word that is read is the value of the bytes that stand
there, however they came there. A dump shows all words that are asked for and can be
read, and gets to no address that is not a word.
-/

namespace Y86Toolkit

namespace Memory

/-- What changes memory. -/
inductive Operation where
  | writeWord (address value : Word)
  | loadProgram (start : Word) (program : Array Byte)
  | clear
  deriving DecidableEq, Repr

/-- What comes of an operation. -/
def attempt (m : Memory) : Operation → Except MemoryFault Memory
  | .writeWord address value => m.writeWord address value
  | .loadProgram start program => m.loadProgram start program
  | .clear => .ok m.clear

/-- Memory behind an operation, which is as it was if the operation is refused. -/
def operated (m : Memory) (operation : Operation) : Memory :=
  match m.attempt operation with
  | .ok next => next
  | .error _ => m

/-- Bytes stand from an address on, and nothing else has changed. -/
structure Stored (m : Memory) (start : Nat) (data : List Byte) (next : Memory) : Prop where
  holds : Bytes.slice next.bytes start (start + data.length) = data
  frame : SameOutside start (start + data.length) m next

/-- At every address with eight bytes of memory the little-endian value of these is read,
and at no other one anything. -/
def ReadsWords (m : Memory) : Prop :=
  ∀ address : Word,
    if address.toNat + 8 ≤ m.size then
      ∃ value, m.readWord address = .ok value ∧
        value.toNat = ∑ j ∈ Finset.range 8, (Cells.cell m.bytes (address.toNat + j)).toNat * 256 ^ j
    else m.readWord address = .error (.outside address 8 m.size)

/-- A dump whose addresses are counted without a limit, so that nothing comes of it when
one that it gets to is not a word. -/
def dumpCounted (m : Memory) (address : Nat) : Nat → Option (List (Word × Word))
  | 0 => some []
  | count + 1 =>
    if Word.limit Word.width ≤ address then none
    else
      match m.readWord (UInt64.ofNat address) with
      | .ok value => (m.dumpCounted (address + 8) count).map ((UInt64.ofNat address, value) :: ·)
      | .error _ => some []

end Memory

namespace MemoryAccess
open Memory Cells

variable {m : Memory} {address start : Word} {count : Nat}

/-! ## Storing -/

theorem stored_overwrite {start : Nat} {data : List Byte} (within : start + data.length ≤ m.size) :
    m.Stored start data ⟨Bytes.overwrite m.bytes start data⟩ := by
  have bound : start + data.length ≤ m.bytes.size := within
  refine ⟨List.ext_getElem? fun i => ?_, Bytes.size_overwrite _ _ _, fun i outside => ?_⟩
  · rw [getElem?_slice, Bytes.getElem?_overwrite]
    by_cases covered : i < data.length
    · rw [if_pos (by omega), if_pos (by omega), Nat.add_sub_cancel_left]
    · rw [if_neg (by omega), List.getElem?_eq_none (Nat.le_of_not_lt covered)]
  · rw [Bytes.getElem?_overwrite, if_neg (by omega)]

theorem readsWords (m : Memory) : m.ReadsWords := by
  intro address
  split
  · rename_i inside
    exact ⟨_, readWord_inside inside, MemoryWords.toNat_loaded inside⟩
  · rename_i outside
    exact readWord_outside outside

theorem stored_writeWord (inside : m.Inside address Bytes.perWord) (value : Word) :
    ∃ next, m.writeWord address value = .ok next ∧ m.Stored address.toNat (Bytes.ofWord value) next ∧
      next.readWord address = .ok value := by
  have writes := writeWord_inside inside value
  have within : address.toNat + (Bytes.ofWord value).length ≤ m.size := by
    rwa [Bytes.length_ofWord]
  have still : (m.store address value).Inside address Bytes.perWord := by
    rwa [Inside, FreshStart.size_writeWord writes]
  refine ⟨_, writes, stored_overwrite within, ?_⟩
  rw [readWord_inside still, MemoryFrames.loaded_store inside]

theorem loadProgram_inside {program : Array Byte} (inside : start.toNat + program.size ≤ m.size) :
    m.loadProgram start program = .ok ⟨Bytes.overwrite m.bytes start.toNat program.toList⟩ := by
  have room : ¬ m.size - start.toNat < program.size := by omega
  have starts : ¬ m.size < start.toNat := by omega
  simp only [loadProgram, if_neg room, if_neg starts]

theorem loadProgram_outside {program : Array Byte} (some : program ≠ #[])
    (outside : ¬ start.toNat + program.size ≤ m.size) :
    m.loadProgram start program = .error (.programTooLarge program.size (m.size - start.toNat)) := by
  have positive : 0 < program.size := Array.size_pos_iff.mpr some
  have short : m.size - start.toNat < program.size := by omega
  simp only [loadProgram, if_pos short]

/-- An empty program has its place up to the end of memory, and changes nothing there. -/
theorem loadProgram_empty (m : Memory) (start : Word) :
    m.loadProgram start #[] =
      if start.toNat ≤ m.size then .ok m else .error (.startPastEnd start.toNat m.size) := by
  split
  · rename_i starts
    exact loadProgram_inside starts
  · rename_i past
    simp only [loadProgram, Array.size_empty, Nat.not_lt_zero, if_false, if_pos (Nat.lt_of_not_le past)]

theorem size_operated (m : Memory) (operation : Operation) : (m.operated operation).size = m.size := by
  rw [operated]
  cases operation with
  | writeWord address value =>
    cases writes : m.attempt (.writeWord address value) with
    | ok next => exact FreshStart.size_writeWord writes
    | error fault => rfl
  | loadProgram start program =>
    cases loads : m.attempt (.loadProgram start program) with
    | ok next => exact FreshStart.size_loadProgram loads
    | error fault => rfl
  | clear => exact Array.size_replicate

/-- No operation changes the size, however many there are. -/
theorem size_operations (m : Memory) (operations : List Operation) :
    (operations.foldl operated m).size = m.size := by
  induction operations generalizing m with
  | nil => rfl
  | cons operation rest ih => rw [List.foldl_cons, ih, size_operated]

/-- **Memory is accessed as a whole or not at all.** A word is written exactly where its
eight bytes lie in memory, counted without wrapping, and is read back then; a program is
placed exactly where it fits. Nothing but the bytes in question changes, and nothing at
all where an access is refused. An empty program changes nothing, and is refused past the
end of memory alone. Every word that is read is the little-endian value of the bytes that
are there, and the size stays what it is. -/
theorem accessed_as_a_whole (m : Memory) (address value start : Word) (program : Array Byte) :
    (if address.toNat + 8 ≤ m.size then
      ∃ next, m.writeWord address value = .ok next ∧
        m.Stored address.toNat (Bytes.ofWord value) next ∧ next.readWord address = .ok value ∧
        next.ReadsWords
    else
      m.writeWord address value = .error (.outside address 8 m.size) ∧
        m.operated (.writeWord address value) = m) ∧
    (program ≠ #[] →
      if start.toNat + program.size ≤ m.size then
        ∃ next, m.loadProgram start program = .ok next ∧ m.Stored start.toNat program.toList next
      else
        m.loadProgram start program = .error (.programTooLarge program.size (m.size - start.toNat)) ∧
          m.operated (.loadProgram start program) = m) ∧
    (m.loadProgram start #[] =
        if start.toNat ≤ m.size then .ok m else .error (.startPastEnd start.toNat m.size)) ∧
    m.operated (.loadProgram start #[]) = m ∧
    m.ReadsWords ∧ ∀ operations : List Operation, (operations.foldl operated m).size = m.size := by
  refine ⟨?_, fun some => ?_, loadProgram_empty m start, ?_, readsWords m, size_operations m⟩
  · split
    · rename_i inside
      obtain ⟨next, writes, stored, back⟩ := stored_writeWord inside value
      exact ⟨next, writes, stored, back, readsWords next⟩
    · rename_i outside
      have refused := writeWord_outside outside value
      refine ⟨refused, ?_⟩
      rw [operated, attempt, refused]
  · split
    · rename_i inside
      exact ⟨_, loadProgram_inside inside, stored_overwrite inside⟩
    · rename_i outside
      have refused := loadProgram_outside some outside
      refine ⟨refused, ?_⟩
      rw [operated, attempt, refused]
  · rw [operated, attempt, loadProgram_empty]
    by_cases starts : start.toNat ≤ m.size
    · rw [if_pos starts]
    · rw [if_neg starts]

/-- A program of two bytes does not fit at the last byte of memory. -/
theorem accessed_as_a_whole_lastByte :
    (#[1, 2] : Array Byte) ≠ #[] ∧
      (zeroed 4).loadProgram 3 #[1, 2] = .error (.programTooLarge 2 1) ∧
      (zeroed 4).operated (.loadProgram 3 #[1, 2]) = zeroed 4 := by
  have some : (#[1, 2] : Array Byte) ≠ #[] := by decide
  obtain ⟨-, loads, -⟩ := accessed_as_a_whole (zeroed 4) 0 0 3 #[1, 2]
  have refused := loads some
  rw [if_neg (by decide)] at refused
  exact ⟨some, refused⟩

/-! ## Dumps -/

theorem go_eq (m : Memory) (address : Word) (count : Nat) (rows : List (Word × Word)) :
    dump.go m address count rows = rows.reverse ++ m.dump address count := by
  rw [dump]
  induction count generalizing address rows with
  | zero => exact (List.append_nil _).symm
  | succ count ih =>
    rw [dump.go, dump.go]
    split
    · rw [ih, ih (address + 8) [_]]
      simp
    · simp

/-- A dump goes on behind each word that can be read. -/
theorem dump_succ (m : Memory) (address : Word) (count : Nat) :
    m.dump address (count + 1) =
      match m.readWord address with
      | .ok value => (address, value) :: m.dump (address + 8) count
      | .error _ => [] := by
  rw [dump, dump.go]
  cases m.readWord address with
  | ok value => exact go_eq m (address + 8) count [(address, value)]
  | error fault => rfl

/-- The addresses up to the end of memory, or those that are asked for, are all words. -/
def Counts (m : Memory) (start count : Nat) : Prop :=
  min m.size (start + 8 * count) < Word.limit Word.width

theorem counts_next (counts : Counts m address.toNat (count + 1)) (inside : address.toNat + 8 ≤ m.size) :
    (address + 8).toNat = address.toNat + 8 ∧ Counts m (address.toNat + 8) count := by
  have limit : Word.limit Word.width = 2 ^ 64 := by decide
  unfold Counts at *
  rw [limit] at counts ⊢
  refine ⟨?_, by omega⟩
  have word : address.toNat + (8 : Word).toNat < 2 ^ 64 := by
    change address.toNat + 8 < 2 ^ 64
    omega
  rw [UInt64.toNat_add, Nat.mod_eq_of_lt word]
  rfl

/-- **The rows of a dump.** -/
theorem getElem?_dump (counts : Counts m start.toNat count) (i : Nat) (row : Word × Word) :
    (m.dump start count)[i]? = some row ↔
      i < count ∧ start.toNat + 8 * i + 8 ≤ m.size ∧ row.1.toNat = start.toNat + 8 * i ∧
        m.readWord row.1 = .ok row.2 := by
  induction count generalizing start i with
  | zero =>
    rw [dump, dump.go]
    simp
  | succ count ih =>
    rw [dump_succ]
    by_cases inside : start.toNat + 8 ≤ m.size
    · obtain ⟨address, counts⟩ := counts_next counts inside
      rw [readWord_inside inside]
      cases i with
      | zero =>
        rw [List.getElem?_cons_zero, Option.some.injEq]
        constructor
        · rintro rfl
          exact ⟨Nat.succ_pos _, inside, rfl, readWord_inside inside⟩
        · rintro ⟨-, -, same, read⟩
          obtain rfl : start = row.1 := UInt64.toNat_inj.mp same.symm
          rw [readWord_inside inside] at read
          exact Prod.ext rfl (Except.ok.inj read)
      | succ i =>
        have place : start.toNat + 8 + 8 * i = start.toNat + 8 * (i + 1) := by omega
        rw [List.getElem?_cons_succ, ih (address ▸ counts), address, place, Nat.add_lt_add_iff_right]
    · rw [readWord_outside inside, List.getElem?_nil]
      constructor
      · nofun
      · rintro ⟨-, fits, -⟩
        omega

theorem length_dump (counts : Counts m start.toNat count) :
    (m.dump start count).length = min count ((m.size - start.toNat) / 8) := by
  induction count generalizing start with
  | zero => simp [dump, dump.go]
  | succ count ih =>
    rw [dump_succ]
    by_cases inside : start.toNat + 8 ≤ m.size
    · obtain ⟨address, counts⟩ := counts_next counts inside
      rw [readWord_inside inside, List.length_cons, ih (address ▸ counts), address]
      omega
    · rw [readWord_outside inside, List.length_nil]
      omega

/-- Every address that a dump gets to is a word. -/
theorem dumpCounted_eq (counts : Counts m start.toNat count) :
    m.dumpCounted start.toNat count = some (m.dump start count) := by
  induction count generalizing start with
  | zero => rfl
  | succ count ih =>
    have word : ¬ Word.limit Word.width ≤ start.toNat := Nat.not_le_of_lt start.toNat_lt
    rw [dumpCounted, if_neg word, UInt64.ofNat_toNat, dump_succ]
    by_cases inside : start.toNat + 8 ≤ m.size
    · obtain ⟨address, counts⟩ := counts_next counts inside
      rw [readWord_inside inside]
      dsimp only
      rw [← address, ih (address ▸ counts), Option.map_some]
    · rw [readWord_outside inside]

/-- **Dumps are exact.** The rows of a dump are the words eight bytes apart that are asked
for and lie in memory, each behind its address, and no address on the way to them or at
the word where the dump stops is out of the range of words. -/
theorem dump_exact (small : m.size < 2 ^ 63) (start : Word) (count : Nat) :
    (∀ i row, (m.dump start count)[i]? = some row ↔
      i < count ∧ start.toNat + 8 * i + 8 ≤ m.size ∧ row.1.toNat = start.toNat + 8 * i ∧
        m.readWord row.1 = .ok row.2) ∧
    (m.dump start count).length = min count ((m.size - start.toNat) / 8) ∧
    (m.size < start.toNat → m.dump start count = []) ∧
    m.dumpCounted start.toNat count = some (m.dump start count) := by
  have counts : Counts m start.toNat count :=
    Nat.lt_of_le_of_lt (Nat.min_le_left _ _) (Nat.lt_trans small (by decide))
  refine ⟨getElem?_dump counts, length_dump counts, fun past => ?_, dumpCounted_eq counts⟩
  rw [← List.length_eq_zero_iff, length_dump counts]
  omega

/-- At the last address that is a word nothing can be read, and nothing behind it is looked
at; eleven bytes hold one word from their third one on. -/
theorem dump_exact_lastAddress :
    (zeroed 11).size < 2 ^ 63 ∧ (zeroed 11).dumpCounted (2 ^ 64 - 1) 10 = some [] ∧
      (zeroed 11).dump 2 10 = [(2, 0)] ∧ (zeroed 11).dumpCounted 2 10 = some [(2, 0)] := by
  have small : (zeroed 11).size < 2 ^ 63 := by decide
  obtain ⟨-, -, past, last⟩ := dump_exact small (0 - 1) 10
  obtain ⟨rows, length, -, counted⟩ := dump_exact small 2 10
  have listed : (zeroed 11).dump 2 10 = [(2, 0)] := by
    have first := (rows 0 (2, 0)).mpr ⟨by decide, by decide, rfl, by decide⟩
    have one : ((zeroed 11).dump 2 10).length = 1 := length
    obtain ⟨row, same⟩ := List.length_eq_one_iff.mp one
    rw [same] at first ⊢
    exact congrArg ([·]) (Option.some.inj first)
  rw [past (by decide)] at last
  rw [listed] at counted
  exact ⟨small, last, listed, counted⟩

end MemoryAccess

end Y86Toolkit
