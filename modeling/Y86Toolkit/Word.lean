/-!
Machine words and two's-complement arithmetic on their low bits. A word holds
64 bits; every function here that takes a width reads only that many of them
and returns a word whose higher bits are clear. The lemmas say what each
operation does in `Nat` or `Int`, so that later proofs need not open it.
-/

namespace Y86Toolkit

/-- A machine word: 64 bits, unsigned where nothing else is said. -/
abbrev Word := UInt64

/-- One cell of memory. -/
abbrev Byte := UInt8

namespace Word

/-- The number of bits in a machine word. -/
def width : Nat := 64

/-- The first number that does not fit in so many bits. -/
def limit (bits : Nat) : Nat := 1 <<< bits

/-- The low `bits` bits of a word. -/
def truncate (bits : Nat) (w : Word) : Word := UInt64.ofNat (w.toNat % limit bits)

/-- The sign bit of a word read at the width `bits`. -/
def isNegative (bits : Nat) (w : Word) : Bool := w.toNat.testBit (bits - 1)

/-- The low `bits` bits of a word as a signed number. -/
def toSigned (bits : Nat) (w : Word) : Int := (w.toNat : Int).bmod (limit bits)

/-- The word whose low `bits` bits stand for the integer `i`. -/
def ofSigned (bits : Nat) (i : Int) : Word := UInt64.ofNat (i % (limit bits : Int)).toNat

/-- Two's-complement negation at the width `bits`. -/
def negate (bits : Nat) (w : Word) : Word := truncate bits (0 - w)

/-- Adds at the width `bits`. The flag tells of signed overflow: the operands
agree in sign and the sum does not. -/
def add (bits : Nat) (a b : Word) : Word × Bool :=
  let sum := truncate bits (a + b)
  let sign := isNegative bits a
  (sum, sign == isNegative bits b && sign != isNegative bits sum)

/-- Subtracts by adding the negated operand, and takes the flag from that
addition. The most negative `b` is its own negation, so there the flag is the
opposite of a true signed overflow. -/
def sub (bits : Nat) (a b : Word) : Word × Bool := add bits a (negate bits b)

theorem toNat_truncate (bits : Nat) (w : Word) : (truncate bits w).toNat = w.toNat % limit bits := by
  have bound : w.toNat % limit bits < 2 ^ 64 := Nat.lt_of_le_of_lt (Nat.mod_le _ _) w.toNat_lt
  rw [truncate, UInt64.toNat_ofNat', Nat.mod_eq_of_lt bound]

/-- At full width truncation changes nothing. -/
@[simp] theorem truncate_width (w : Word) : truncate width w = w := by
  apply UInt64.toNat_inj.mp
  rw [toNat_truncate]
  exact Nat.mod_eq_of_lt w.toNat_lt

theorem add_fst (a b : Word) : (add width a b).1 = a + b := by
  simp [add]

theorem negate_width (w : Word) : negate width w = 0 - w := by
  simp [negate]

theorem sub_fst (a b : Word) : (sub width a b).1 = a - b := by
  rw [sub, add_fst, negate_width]
  simp [UInt64.sub_eq_add_neg]

end Word

end Y86Toolkit
