import Y86Toolkit.Instruction.Codec
import Y86Toolkit.Proofs.Fallible

/-!
What bytes show an instruction. The parts that an encoding holds, an opcode, a
function code, up to two registers and a constant, are read off an instruction
here, and decoding finds exactly the instruction whose parts the bytes show
(`decode_eq_ok_iff`). Both directions of the codec follow from that: decoding
gives back what was encoded, whatever stands behind it, and an encoding differs
from the bytes it was read from in the half byte that nothing reads.
-/

namespace Y86Toolkit

namespace Opcode

/-- The function codes of an opcode are the numbers below this one. -/
def functions : Opcode → Nat
  | move | jump => 7
  | alu => 4
  | _ => 1

/-- The high half of the register byte must name a register. -/
def namesHigh : Opcode → Bool
  | move | store | load | alu | push | pop => true
  | _ => false

/-- The low half of the register byte must name a register. -/
def namesLow : Opcode → Bool
  | move | loadImmediate | store | load | alu => true
  | _ => false

theorem length_pos (o : Opcode) : 0 < o.length := by
  cases o <;> decide

theorem length_le_maxLength (o : Opcode) : o.length ≤ Instruction.maxLength := by
  cases o <;> decide

/-- Two opcodes with one code are the same opcode. -/
theorem code_inj {o p : Opcode} (same : o.code = p.code) : o = p := by
  apply Option.some.inj
  rw [← ofCode?_code o, ← ofCode?_code p, same]

/-- An opcode that names a register takes a second byte. -/
theorem two_le_length {o : Opcode} (names : o.namesHigh = true ∨ o.namesLow = true) :
    2 ≤ o.length := by
  cases o <;> revert names <;> decide

end Opcode

namespace Instruction

/-- The function code in the encoding. -/
def function : Instruction → Nat
  | move condition _ _ | jump condition _ => condition.function
  | alu op _ _ => op.function
  | _ => 0

/-- The register in the high half of the register byte. -/
def high? : Instruction → Option Register
  | move _ source _ | store source _ _ | alu _ source _ | push source => some source
  | load _ target _ | pop target => some target
  | _ => none

/-- The register in the low half of the register byte. -/
def low? : Instruction → Option Register
  | move _ _ target | loadImmediate _ target | alu _ _ target => some target
  | store _ base _ | load base _ _ => some base
  | _ => none

/-- The constant, which the encoding ends with. -/
def constant? : Instruction → Option Word
  | loadImmediate value _ => some value
  | store _ _ displacement | load _ _ displacement => some displacement
  | jump _ destination | call destination => some destination
  | _ => none

/-- The bytes behind the first hold the registers and the constant of an
instruction. Nothing is said of a half byte that no register stands in. -/
def Holds (operands : List Byte) (i : Instruction) : Prop :=
  (∀ r ∈ i.high?, highHalf (operands.headD 0) = r.index.val) ∧
    (∀ r ∈ i.low?, lowHalf (operands.headD 0) = r.index.val) ∧
    ∀ w ∈ i.constant?, Bytes.toWord ((operands.drop (i.length - 9)).take 8) = w

/-- The bytes start with all parts of an instruction. -/
structure Shows (bytes : List Byte) (i : Instruction) : Prop where
  whole : i.length ≤ bytes.length
  first : bytes.head? = some (pack i.opcode.code i.function)
  holds : Holds bytes.tail i

/-- The bytes of one instruction with fifteen in the half byte that nothing
reads: the high half in front of a loaded constant's register, the low half
behind a pushed or popped one. -/
def canonical (bytes : List Byte) : List Byte :=
  match bytes with
  | first :: registers :: rest =>
    if highHalf first = Opcode.loadImmediate.code then
      first :: pack noRegister (lowHalf registers) :: rest
    else if highHalf first = Opcode.push.code ∨ highHalf first = Opcode.pop.code then
      first :: pack (highHalf registers) noRegister :: rest
    else bytes
  | _ => bytes

end Instruction

namespace Encoding
open Instruction Fallible

/-! ## Halves of bytes -/

theorem highHalf_lt (b : Byte) : highHalf b < 16 := by
  have bound : b.toNat < 256 := b.toNat_lt
  unfold highHalf
  omega

theorem lowHalf_lt (b : Byte) : lowHalf b < 16 := Nat.mod_lt _ (by decide)

@[simp] theorem highHalf_pack {high low : Nat} (highBound : high < 16) (lowBound : low < 16) :
    highHalf (pack high low) = high := by
  have small : 16 * high + low < 2 ^ 8 := by omega
  rw [highHalf, pack, UInt8.toNat_ofNat', Nat.mod_eq_of_lt small]
  omega

@[simp] theorem lowHalf_pack {high low : Nat} (highBound : high < 16) (lowBound : low < 16) :
    lowHalf (pack high low) = low := by
  have small : 16 * high + low < 2 ^ 8 := by omega
  rw [lowHalf, pack, UInt8.toNat_ofNat', Nat.mod_eq_of_lt small]
  omega

/-- A byte is made of its two halves. -/
theorem pack_halves (b : Byte) : pack (highHalf b) (lowHalf b) = b := by
  rw [pack, highHalf, lowHalf, Nat.div_add_mod, UInt8.ofNat_toNat]

theorem pack_of_halves {b : Byte} {high low : Nat} (isHigh : highHalf b = high)
    (isLow : lowHalf b = low) : pack high low = b := by
  rw [← isHigh, ← isLow, pack_halves]

theorem code_lt (o : Opcode) : o.code < 16 := by
  cases o <;> decide

/-- An instruction's function code is one of its opcode's. -/
theorem function_lt_functions (i : Instruction) : i.function < i.opcode.functions := by
  cases i with
  | move condition _ _ =>
    show condition.function < 7
    cases condition <;> decide
  | jump condition _ =>
    show condition.function < 7
    cases condition <;> decide
  | alu op _ _ =>
    show op.function < 4
    cases op <;> decide
  | _ => exact Nat.one_pos

theorem function_lt (i : Instruction) : i.function < 16 := by
  have few : i.opcode.functions ≤ 7 := by
    cases i.opcode <;> decide
  exact Nat.lt_of_lt_of_le (function_lt_functions i) (Nat.le_trans few (by decide))

theorem index_lt (r : Register) : r.index.val < 16 := Nat.lt_trans r.index.isLt (by decide)

/-- Eight bytes are those of a word exactly when the word is read off them. -/
theorem toWord_eq_iff {bytes : List Byte} {w : Word} (eight : bytes.length = 8) :
    Bytes.toWord bytes = w ↔ bytes = Bytes.ofWord w := by
  constructor
  · rintro rfl
    have bound : Bytes.toNat bytes < 2 ^ 64 := by
      have read := Bytes.toNat_ofNat bytes.length (Bytes.toNat bytes)
      rw [Bytes.ofNat_toNat, eight] at read
      rw [read]
      exact Nat.mod_lt _ (by decide)
    rw [Bytes.ofWord, Bytes.toWord, UInt64.toNat_ofNat', Nat.mod_eq_of_lt bound]
    exact (eight ▸ Bytes.ofNat_toNat bytes).symm
  · rintro rfl
    exact Bytes.toWord_ofWord w

/-! ## Decoding -/

theorem plain_eq_ok {o : Opcode} {function : Nat} {done : Unit} :
    decodeOperands.plain o function = .ok done ↔ function = 0 := by
  unfold decodeOperands.plain
  split <;> simp_all

theorem functionCode_eq_ok {α : Type} {o : Opcode} {function : Nat} {lookup : Nat → Option α} {a : α} :
    decodeOperands.functionCode o function lookup = .ok a ↔ lookup function = some a := by
  unfold decodeOperands.functionCode
  split <;> simp_all

theorem decodeRegister_eq_ok {number : Nat} {r : Register} :
    decodeRegister number = .ok r ↔ number = r.index.val := by
  unfold decodeRegister
  constructor
  · intro decoded
    split at decoded
    · rename_i s found
      cases decoded
      exact Register.ofNumber?_eq_some found
    · cases decoded
  · rintro rfl
    rw [Register.ofNumber?_index]

theorem condition_found {n : Nat} {c : Condition} :
    Condition.ofFunction? n = some c ↔ n = c.function :=
  ⟨Condition.ofFunction?_eq_some, fun same => same ▸ Condition.ofFunction?_function c⟩

theorem operation_found {n : Nat} {op : AluOp} : AluOp.ofFunction? n = some op ↔ n = op.function :=
  ⟨AluOp.ofFunction?_eq_some, fun same => same ▸ AluOp.ofFunction?_function op⟩

/-- Operands are decoded to exactly the instruction that they hold. -/
theorem decodeOperands_eq_ok_iff {o : Opcode} {function : Nat} {operands : List Byte} {i : Instruction} :
    decodeOperands o function operands = .ok i ↔
      o = i.opcode ∧ function = i.function ∧ Holds operands i := by
  constructor
  · intro decoded
    cases o <;>
      simp only [decodeOperands, bind_eq_ok, pure_eq_ok, plain_eq_ok, functionCode_eq_ok,
        decodeOperands.high, decodeOperands.low, decodeRegister_eq_ok, condition_found,
        operation_found] at decoded
    case halt | nop | ret =>
      obtain ⟨_, plain, rfl⟩ := decoded
      exact ⟨rfl, plain, by rintro _ ⟨⟩, by rintro _ ⟨⟩, by rintro _ ⟨⟩⟩
    case move | alu =>
      obtain ⟨_, code, _, high, _, low, rfl⟩ := decoded
      exact ⟨rfl, code, by rintro _ ⟨⟩; exact high, by rintro _ ⟨⟩; exact low, by rintro _ ⟨⟩⟩
    case loadImmediate =>
      obtain ⟨_, low, _, plain, rfl⟩ := decoded
      exact ⟨rfl, plain, by rintro _ ⟨⟩, by rintro _ ⟨⟩; exact low, by rintro _ ⟨⟩; rfl⟩
    case store =>
      obtain ⟨_, high, _, low, _, plain, rfl⟩ := decoded
      exact ⟨rfl, plain, by rintro _ ⟨⟩; exact high, by rintro _ ⟨⟩; exact low, by rintro _ ⟨⟩; rfl⟩
    case load =>
      obtain ⟨_, low, _, high, _, plain, rfl⟩ := decoded
      exact ⟨rfl, plain, by rintro _ ⟨⟩; exact high, by rintro _ ⟨⟩; exact low, by rintro _ ⟨⟩; rfl⟩
    case jump =>
      obtain ⟨_, code, rfl⟩ := decoded
      exact ⟨rfl, code, by rintro _ ⟨⟩, by rintro _ ⟨⟩, by rintro _ ⟨⟩; rfl⟩
    case call =>
      obtain ⟨_, plain, rfl⟩ := decoded
      exact ⟨rfl, plain, by rintro _ ⟨⟩, by rintro _ ⟨⟩, by rintro _ ⟨⟩; rfl⟩
    case push | pop =>
      obtain ⟨_, high, _, plain, rfl⟩ := decoded
      exact ⟨rfl, plain, by rintro _ ⟨⟩; exact high, by rintro _ ⟨⟩, by rintro _ ⟨⟩⟩
  · rintro ⟨rfl, rfl, high, low, constant⟩
    cases i <;>
      simp only [decodeOperands, opcode, mnemonic, Mnemonic.opcode, bind_eq_ok, pure_eq_ok,
        plain_eq_ok, functionCode_eq_ok, decodeOperands.high, decodeOperands.low,
        decodeRegister_eq_ok, condition_found, operation_found]
    case halt | nop | ret => exact ⟨(), rfl, trivial⟩
    case move | alu => exact ⟨_, rfl, _, high _ rfl, _, low _ rfl, rfl⟩
    case loadImmediate value _ =>
      exact ⟨_, low _ rfl, (), rfl, congrArg (loadImmediate · _) (constant value rfl)⟩
    case store displacement =>
      exact ⟨_, high _ rfl, _, low _ rfl, (), rfl, congrArg (store _ _) (constant displacement rfl)⟩
    case load displacement =>
      exact ⟨_, low _ rfl, _, high _ rfl, (), rfl, congrArg (load _ _) (constant displacement rfl)⟩
    case jump destination => exact ⟨_, rfl, congrArg (jump _) (constant destination rfl)⟩
    case call destination => exact ⟨(), rfl, congrArg call (constant destination rfl)⟩
    case push | pop => exact ⟨_, high _ rfl, (), rfl, rfl⟩

/-- Decoding finds an instruction exactly where the bytes show it. -/
theorem decode_eq_ok_iff {bytes : List Byte} {i : Instruction} :
    decode bytes = .ok i ↔ Shows bytes i := by
  cases bytes with
  | nil =>
    constructor
    · intro decoded
      cases decoded
    · intro shows
      cases shows.first
  | cons first operands =>
    rw [decode]
    constructor
    · intro decoded
      split at decoded
      · cases decoded
      · rename_i o found
        split at decoded
        · cases decoded
        · rename_i enough
          obtain ⟨rfl, code, holds⟩ := decodeOperands_eq_ok_iff.mp decoded
          have start : pack i.opcode.code i.function = first :=
            pack_of_halves (Opcode.ofCode?_eq_some found) code
          rw [length_opcode] at enough
          exact ⟨Nat.le_of_not_lt enough, congrArg some start.symm, holds⟩
    · rintro ⟨whole, start, holds⟩
      obtain rfl := Option.some.inj start
      have enough : ¬ (pack i.opcode.code i.function :: operands).length < i.opcode.length := by
        rw [length_opcode]
        exact Nat.not_lt.mpr whole
      simp only [highHalf_pack (code_lt _) (function_lt _), lowHalf_pack (code_lt _) (function_lt _),
        Opcode.ofCode?_code, if_neg enough]
      exact decodeOperands_eq_ok_iff.mpr ⟨rfl, rfl, holds⟩

/-! ## Encoding -/

/-- An encoding starts with the opcode and the function code. -/
theorem head?_encode (i : Instruction) : (encode i).head? = some (pack i.opcode.code i.function) := by
  cases i <;> rfl

/-- The bytes that stand behind an encoding do not matter. -/
theorem encode_append_shows (i : Instruction) (rest : List Byte) : Shows (encode i ++ rest) i := by
  refine ⟨?_, ?_, ?_⟩
  · rw [List.length_append, length_encode]
    exact Nat.le_add_right _ _
  · rw [List.head?_append, head?_encode]
    rfl
  · have constant (w : Word) : Bytes.toWord ((Bytes.ofWord w ++ rest).take 8) = w := by
      rw [List.take_left' (Bytes.length_ofWord w), Bytes.toWord_ofWord]
    cases i <;> refine ⟨?_, ?_, ?_⟩ <;> rintro _ ⟨⟩
    all_goals first
      | exact highHalf_pack (index_lt _) (by first | exact index_lt _ | decide)
      | exact lowHalf_pack (by first | exact index_lt _ | decide) (index_lt _)
      | exact constant _

theorem namesHigh_opcode (i : Instruction) : i.opcode.namesHigh = i.high?.isSome := by
  cases i <;> rfl

theorem namesLow_opcode (i : Instruction) : i.opcode.namesLow = i.low?.isSome := by
  cases i <;> rfl

/-- An instruction with a constant has room for it behind its first byte. -/
theorem nine_le_length {i : Instruction} {w : Word} (has : w ∈ i.constant?) : 9 ≤ i.length := by
  cases i with
  | loadImmediate | store | load => exact Nat.le_succ 9
  | jump | call => exact Nat.le_refl 9
  | _ => cases has

private theorem headD_take {bytes : List Byte} {count : Nat} (positive : 0 < count) :
    (bytes.take count).headD 0 = bytes.headD 0 := by
  cases count with
  | zero => cases positive
  | succ count => cases bytes <;> rfl

/-- Only the bytes that the opcode calls for are read. -/
theorem shows_take {bytes : List Byte} {i : Instruction} (shows : Shows bytes i) :
    Shows (bytes.take i.length) i := by
  obtain ⟨whole, first, high, low, constant⟩ := shows
  cases bytes with
  | nil => cases first
  | cons start operands =>
    obtain ⟨count, counted⟩ := Nat.exists_eq_succ_of_ne_zero (Nat.pos_iff_ne_zero.mp (length_pos i))
    have register (names : i.opcode.namesHigh = true ∨ i.opcode.namesLow = true) : 0 < count := by
      have two := Opcode.two_le_length names
      rw [length_opcode] at two
      omega
    rw [counted, List.take_succ_cons]
    refine ⟨?_, first, ?_, ?_, ?_⟩
    · simp only [List.length_cons, List.length_take] at whole ⊢
      omega
    · intro r named
      rw [List.tail_cons, headD_take (register (.inl (by rw [namesHigh_opcode, named]; rfl)))]
      exact high r named
    · intro r named
      rw [List.tail_cons, headD_take (register (.inr (by rw [namesLow_opcode, named]; rfl)))]
      exact low r named
    · intro w has
      have nine := nine_le_length has
      rw [← constant w has, List.tail_cons, List.tail_cons, List.drop_take, List.take_take,
        Nat.min_eq_left (by omega)]

/-- Operands behind those that the opcode calls for are not read. -/
theorem decodeOperands_take {o : Opcode} {function count : Nat} {operands : List Byte}
    (enough : o.length ≤ count + 1) :
    decodeOperands o function (operands.take count) = decodeOperands o function operands := by
  have register (two : 2 ≤ o.length) : (operands.take count).headD 0 = operands.headD 0 :=
    headD_take (by omega)
  have constant (ten : 10 ≤ o.length) :
      ((operands.take count).drop 1).take Bytes.perWord = (operands.drop 1).take Bytes.perWord := by
    rw [List.drop_take, List.take_take, Nat.min_eq_left (show Bytes.perWord ≤ count - 1 by
      unfold Bytes.perWord; omega)]
  have destination (nine : 9 ≤ o.length) :
      (operands.take count).take Bytes.perWord = operands.take Bytes.perWord := by
    rw [List.take_take, Nat.min_eq_left (show Bytes.perWord ≤ count by unfold Bytes.perWord; omega)]
  cases o with
  | halt | nop | ret => rfl
  | move | alu | push | pop =>
    simp only [decodeOperands, decodeOperands.high, decodeOperands.low, register (Nat.le_refl 2)]
  | loadImmediate | store | load =>
    simp only [decodeOperands, decodeOperands.high, decodeOperands.low, decodeOperands.constant,
      register (show 2 ≤ 10 by decide), constant (Nat.le_refl 10)]
  | jump | call => simp only [decodeOperands, destination (Nat.le_refl 9)]

/-- No more bytes are read than the longest instruction takes. -/
theorem decode_take {bytes : List Byte} {count : Nat} (enough : maxLength ≤ count) :
    decode (bytes.take count) = decode bytes := by
  cases count with
  | zero => exact absurd enough (by decide)
  | succ count =>
    cases bytes with
    | nil => rfl
    | cons first operands =>
      rw [List.take_succ_cons, decode, decode]
      split
      · rfl
      · rename_i o found
        have fits : o.length ≤ count + 1 := Nat.le_trans o.length_le_maxLength enough
        rw [decodeOperands_take fits]
        -- What is cut off is only missed by an instruction that takes more.
        by_cases short : (first :: operands).length < o.length
        · rw [List.length_cons] at short
          rw [List.take_of_length_le (by omega)]
        · rw [if_neg short, if_neg (by rw [List.length_cons, List.length_take] at *; omega)]

/-- The bytes of an instruction without an ignored half byte are canonical. -/
theorem canonical_eq_self {i : Instruction}
    (used : i.opcode ≠ .loadImmediate ∧ i.opcode ≠ .push ∧ i.opcode ≠ .pop) (operands : List Byte) :
    canonical (pack i.opcode.code i.function :: operands) = pack i.opcode.code i.function :: operands := by
  cases operands with
  | nil => rfl
  | cons registers rest =>
    have apart {o : Opcode} (different : i.opcode ≠ o) : i.opcode.code ≠ o.code :=
      fun same => different (Opcode.code_inj same)
    rw [canonical, highHalf_pack (code_lt _) (function_lt i), if_neg (apart used.1),
      if_neg (not_or.mpr ⟨apart used.2.1, apart used.2.2⟩)]

/-- What is encoded again are the bytes that were read, with fifteen in the
half byte that was not. -/
theorem encode_eq_canonical {bytes : List Byte} {i : Instruction} (shows : Shows bytes i)
    (only : bytes.length = i.length) : encode i = canonical bytes := by
  obtain ⟨whole, first, high, low, constant⟩ := shows
  cases bytes with
  | nil => cases first
  | cons start operands =>
    obtain rfl := Option.some.inj first
    have wordAt {w : Word} {rest : List Byte} (eight : rest.length = 8)
        (holds : Bytes.toWord (rest.take 8) = w) : rest = Bytes.ofWord w := by
      rw [List.take_of_length_le (Nat.le_of_eq eight)] at holds
      exact (toWord_eq_iff eight).mp holds
    cases i with
    | halt | nop | ret =>
      obtain rfl : operands = [] := List.eq_nil_of_length_eq_zero (Nat.succ.inj only)
      rfl
    | move | alu =>
      obtain ⟨registers, rfl⟩ := List.length_eq_one_iff.mp (Nat.succ.inj only)
      have named := pack_of_halves (high _ rfl) (low _ rfl)
      refine (congrArg (fun b => [_, b]) named).trans (canonical_eq_self ⟨?_, ?_, ?_⟩ _).symm <;> nofun
    | jump | call =>
      have word := wordAt (Nat.succ.inj only) (constant _ rfl)
      refine (congrArg (_ :: ·) word.symm).trans (canonical_eq_self ⟨?_, ?_, ?_⟩ _).symm <;> nofun
    | store | load =>
      cases operands with
      | nil => cases only
      | cons registers rest =>
        have named := pack_of_halves (high _ rfl) (low _ rfl)
        obtain rfl := wordAt (Nat.succ.inj (Nat.succ.inj only)) (constant _ rfl)
        refine (congrArg (fun b => _ :: b :: _) named).trans (canonical_eq_self ⟨?_, ?_, ?_⟩ _).symm <;> nofun
    | loadImmediate =>
      cases operands with
      | nil => cases only
      | cons registers rest =>
        have half : lowHalf registers = _ := low _ rfl
        obtain rfl := wordAt (Nat.succ.inj (Nat.succ.inj only)) (constant _ rfl)
        rw [canonical, half, highHalf_pack (code_lt _) (function_lt _)]
        rfl
    | push | pop =>
      obtain ⟨registers, rfl⟩ := List.length_eq_one_iff.mp (Nat.succ.inj only)
      have half : highHalf registers = _ := high _ rfl
      rw [canonical, half, highHalf_pack (code_lt _) (function_lt _)]
      rfl

/-! ## The codec -/

/-- **Encoding and decoding are inverse.** Decoding finds every encoded
instruction, whatever stands behind it, and an encoding has the length that its
opcode tells. What was decoded takes the first bytes alone, and encoding it
gives them back but for the half byte that nothing reads. -/
theorem codec_inverse :
    (∀ (i : Instruction) (rest : List Byte), decode (encode i ++ rest) = .ok i) ∧
    (∀ i : Instruction, (encode i).length = i.length ∧
      ∃ first o, (encode i).head? = some first ∧ Opcode.ofCode? (highHalf first) = some o ∧
        o.length = i.length) ∧
    ∀ (bytes : List Byte) (i : Instruction), decode bytes = .ok i →
      i.length ≤ bytes.length ∧ decode (bytes.take i.length) = .ok i ∧
        encode i = canonical (bytes.take i.length) := by
  refine ⟨?_, ?_, ?_⟩
  · intro i rest
    exact decode_eq_ok_iff.mpr (encode_append_shows i rest)
  · intro i
    refine ⟨length_encode i, _, i.opcode, head?_encode i, ?_, length_opcode i⟩
    rw [highHalf_pack (code_lt _) (function_lt _), Opcode.ofCode?_code]
  · intro bytes i decoded
    have shows := decode_eq_ok_iff.mp decoded
    have taken := shows_take shows
    refine ⟨shows.whole, decode_eq_ok_iff.mpr taken, encode_eq_canonical taken ?_⟩
    rw [List.length_take, Nat.min_eq_left shows.whole]

/-- A pushed register behind which something else stands than fifteen. -/
theorem codec_inverse_push :
    decode [0xA0, 0x53, 0x90] = .ok (.push .rbp) ∧
      decode [0xA0, 0x53] = .ok (.push .rbp) ∧ encode (.push .rbp) = [0xA0, 0x5F] := by
  have decoded : decode [0xA0, 0x53, 0x90] = .ok (.push .rbp) := rfl
  obtain ⟨_, alone, again⟩ := codec_inverse.2.2 _ _ decoded
  exact ⟨decoded, alone, again⟩

end Encoding

end Y86Toolkit
