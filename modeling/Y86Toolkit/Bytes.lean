import Y86Toolkit.Word
import Y86Toolkit.Text.Numeral

/-!
Bytes in order: the little-endian form of a word, bytes stored over a part of
an array, and their text as pairs of hexadecimal digits. Reading the bytes of a
word gives the word back (`toWord_ofWord`), and storing changes exactly the
cells it covers (`getElem?_overwrite`).
-/

namespace Y86Toolkit.Bytes

/-- The number of bytes in a word. -/
def perWord : Nat := 8

/-- The `count` lowest bytes of a number, the lowest first. -/
def ofNat : Nat → Nat → List Byte
  | 0, _ => []
  | count + 1, n => UInt8.ofNat (n % 256) :: ofNat count (n / 256)

/-- The number whose lowest byte comes first. -/
def toNat : List Byte → Nat
  | [] => 0
  | b :: rest => b.toNat + 256 * toNat rest

/-- The eight bytes of a word, the lowest first. -/
def ofWord (w : Word) : List Byte := ofNat perWord w.toNat

/-- The word whose lowest byte comes first. -/
def toWord (bytes : List Byte) : Word := UInt64.ofNat (toNat bytes)

@[simp] theorem length_ofNat (count n : Nat) : (ofNat count n).length = count := by
  induction count generalizing n with
  | zero => rfl
  | succ count ih => simp [ofNat, ih]

@[simp] theorem length_ofWord (w : Word) : (ofWord w).length = 8 := length_ofNat perWord w.toNat

theorem toNat_ofNat (count n : Nat) : toNat (ofNat count n) = n % Nat.pow 256 count := by
  rw [Nat.pow_eq]
  induction count generalizing n with
  | zero => simp [ofNat, toNat, Nat.mod_one]
  | succ count ih =>
    have low : n % 256 % 2 ^ 8 = n % 256 := Nat.mod_eq_of_lt (Nat.mod_lt n (by decide))
    rw [ofNat, toNat, ih, UInt8.toNat_ofNat', low, Nat.pow_succ', Nat.mod_mul]

theorem ofNat_toNat (bytes : List Byte) : ofNat bytes.length (toNat bytes) = bytes := by
  induction bytes with
  | nil => rfl
  | cons b rest ih =>
    have bound : b.toNat < 256 := b.toNat_lt
    have low : (b.toNat + 256 * toNat rest) % 256 = b.toNat := by omega
    have high : (b.toNat + 256 * toNat rest) / 256 = toNat rest := by omega
    simp [ofNat, toNat, low, high, ih]

/-- A word is determined by its bytes. -/
@[simp] theorem toWord_ofWord (w : Word) : toWord (ofWord w) = w := by
  apply UInt64.toNat_inj.mp
  rw [toWord, ofWord, toNat_ofNat, UInt64.toNat_ofNat']
  exact (congrArg (· % 2 ^ 64) (Nat.mod_eq_of_lt w.toNat_lt)).trans (Nat.mod_eq_of_lt w.toNat_lt)

/-- Stores `data` in the cells from `start` on. Cells past the end of the array
do not exist, and what would go there is dropped. -/
def overwrite (cells : Array Byte) (start : Nat) : List Byte → Array Byte
  | [] => cells
  | b :: rest => overwrite (cells.setIfInBounds start b) (start + 1) rest

@[simp] theorem size_overwrite (cells : Array Byte) (start : Nat) (data : List Byte) :
    (overwrite cells start data).size = cells.size := by
  induction data generalizing cells start with
  | nil => rfl
  | cons b rest ih => simp [overwrite, ih]

/-- A cell that the data covers holds its byte of the data; every other cell is
as it was. -/
theorem getElem?_overwrite (cells : Array Byte) (start : Nat) (data : List Byte) (i : Nat) :
    (overwrite cells start data)[i]? =
      if start ≤ i ∧ i < start + data.length ∧ i < cells.size then data[i - start]? else cells[i]? := by
  induction data generalizing cells start with
  | nil => simp [overwrite]; omega
  | cons b rest ih =>
    rw [overwrite, ih, Array.size_setIfInBounds, Array.getElem?_setIfInBounds]
    by_cases here : start = i
    · subst here
      rw [if_neg (by omega), if_pos rfl, List.length_cons, Nat.sub_self]
      by_cases inside : start < cells.size
      · rw [if_pos inside, if_pos ⟨Nat.le_refl _, by omega, inside⟩, List.getElem?_cons_zero]
      · rw [if_neg inside, if_neg (by omega), Array.getElem?_eq_none (by omega)]
    · by_cases after : start + 1 ≤ i ∧ i < start + 1 + rest.length ∧ i < cells.size
      · have shift : i - start = (i - (start + 1)) + 1 := by omega
        rw [if_pos after, if_pos (by simp only [List.length_cons]; omega), shift, List.getElem?_cons_succ]
      · rw [if_neg after, if_neg here, if_neg (by simp only [List.length_cons]; omega)]

/-- The array with zeros behind it up to at least `size` cells. -/
def grow (cells : Array Byte) (size : Nat) : Array Byte :=
  if cells.size < size then cells ++ Array.replicate (size - cells.size) 0 else cells

theorem size_grow (cells : Array Byte) (size : Nat) :
    (grow cells size).size = max cells.size size := by
  unfold grow
  split
  · simp; omega
  · omega

/-- The bytes of `cells` from `start` to before `stop`. -/
def slice (cells : Array Byte) (start stop : Nat) : List Byte := (cells.extract start stop).toList

/-- Two lower-case hexadecimal digits for each byte. -/
def hexText (bytes : List Byte) : String :=
  bytes.foldl (fun text b => text ++ Numeral.hexDigits 2 b.toNat) ""

end Y86Toolkit.Bytes
