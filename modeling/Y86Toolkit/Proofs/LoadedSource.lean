import Y86Toolkit.Proofs.Operands
import Y86Toolkit.Proofs.PassAgreement
import Y86Toolkit.Proofs.Resets

/-!
A source in the memory of a machine. An assembled image is loaded as it is, and
where no later line has written over an instruction, the machine reads there what
the source says, with labels replaced by their addresses.
-/

namespace Y86Toolkit

/-- One of the bytes of a line stands at an address. -/
def SourceLine.Covers (line : SourceLine) (address : Nat) : Prop :=
  line.address ≤ address ∧ address < line.address + line.length

namespace LoadedSource
open Assembly Fragments Cells Emission PassAgreement Resets

/-! ## Loading -/

/-- A loaded program stands in front of what memory held before. -/
theorem getElem?_loaded {cells program : Array Byte} (fits : program.size ≤ cells.size) (i : Nat) :
    (Bytes.overwrite cells 0 program.toList)[i]? = if i < program.size then program[i]? else cells[i]? := by
  rw [Bytes.getElem?_overwrite, Array.length_toList, Nat.zero_add, Nat.sub_zero, Array.getElem?_toList]
  by_cases inside : i < program.size
  · rw [if_pos inside, if_pos ⟨Nat.zero_le i, inside, by omega⟩]
  · rw [if_neg inside, if_neg (by omega)]

theorem slice_loaded {cells program : Array Byte} (fits : program.size ≤ cells.size) {start stop : Nat}
    (inside : stop ≤ program.size) :
    Bytes.slice (Bytes.overwrite cells 0 program.toList) start stop = Bytes.slice program start stop := by
  refine List.ext_getElem? fun i => ?_
  rw [getElem?_slice, getElem?_slice, getElem?_loaded fits]
  split
  · rw [if_pos (by omega)]
  · rfl

/-! ## What is not written over -/

theorem cell_storeAll_last {cells : Array Byte} {front behind : List Fragment} {f : Fragment} {i : Nat}
    (covered : f.Covers i) (free : ∀ g ∈ behind, ¬ g.Covers i) :
    cell (storeAll cells (front ++ f :: behind)) i = f.byteAt i := by
  have parts : storeAll cells (front ++ f :: behind) = storeAll (f.store (storeAll cells front)) behind :=
    List.foldl_append
  rw [parts, cell_storeAll_uncovered free, cell_store, if_pos covered]

/-- A fragment that no later one covers shows the bytes that were written for it. -/
theorem slice_storeAll {fs : List Fragment} {k : Nat} {f : Fragment} (isFragment : fs[k]? = some f)
    (free : ∀ (j : Nat) (g : Fragment), k < j → fs[j]? = some g → ∀ i, f.Covers i → ¬ g.Covers i) :
    Bytes.slice (storeAll #[] fs) f.address f.stop = f.data := by
  have shown : ∀ i, f.Covers i → cell (storeAll #[] fs) i = f.byteAt i := by
    intro i covered
    obtain ⟨inside, here⟩ := List.getElem?_eq_some_iff.mp isFragment
    have parts : fs = fs.take k ++ f :: fs.drop (k + 1) := by
      rw [← here, ← List.drop_eq_getElem_cons inside, List.take_append_drop]
    rw [parts]
    refine cell_storeAll_last covered fun g later => ?_
    obtain ⟨n, isLater⟩ := List.mem_iff_getElem?.mp later
    rw [List.getElem?_drop] at isLater
    exact free _ g (by omega) isLater i covered
  have reach : f.EndsBy (storeAll #[] fs).size := endsBy_storeAll (List.mem_of_getElem? isFragment)
  refine List.ext_getElem (length_shownIn reach) fun n inSlice inData => ?_
  have covered : f.Covers (f.address + n) := ⟨Nat.le_add_right _ _, Nat.add_lt_add_left inData _⟩
  have here := (getD_slice covered.2).trans (shown _ covered)
  rwa [Fragment.byteAt, Nat.add_sub_cancel_left, List.getElem?_eq_getElem inSlice,
    List.getElem?_eq_getElem inData] at here

/-- An instruction that was emitted and not written over is read in memory. -/
theorem decodeAt_emitted {fs : List Fragment} {k : Nat} {f : Fragment} {i : Instruction} {cells : Array Byte}
    {address : Word} (isFragment : fs[k]? = some f) (encoded : f.data = i.encode)
    (place : address.toNat = f.address)
    (free : ∀ (j : Nat) (g : Fragment), k < j → fs[j]? = some g → ∀ a, f.Covers a → ¬ g.Covers a)
    (fits : (storeAll #[] fs).size ≤ cells.size) :
    (Memory.mk (Bytes.overwrite cells 0 (storeAll #[] fs).toList)).decodeAt address = .ok i := by
  have length : f.data.length = i.length := by rw [encoded, Instruction.length_encode]
  have stop : address.toNat + i.length = f.stop := by rw [place, Fragment.stop, length]
  have reach : f.stop ≤ (storeAll #[] fs).size := by
    have some : f.data ≠ [] := List.ne_nil_of_length_pos (length ▸ i.length_pos)
    exact (endsBy_storeAll (List.mem_of_getElem? isFragment)).resolve_left some
  apply Fetch.decodeAt_of_shows
  · rw [Memory.Inside, Memory.size, stop, Bytes.size_overwrite]
    exact Nat.le_trans reach fits
  · rw [stop, place, slice_loaded fits reach, slice_storeAll isFragment free, encoded,
      ← List.append_nil i.encode]
    exact Encoding.encode_append_shows i []

/-! ## The instruction of a line -/

/-- What is emitted for a statement that is no directive. -/
theorem read_instruction {code : List Char} {name : String} {operands : List String}
    {statement : Statement} {symbols : SymbolTable} {data : List Byte}
    (inside : Assembly.Words code ((name :: operands).map String.toList))
    (other : lowered name ∉ directives) (read : Statement.read code = .ok statement)
    (emitted : statement.bytes symbols = .ok data) :
    ∃ i : Instruction, data = i.encode ∧ i.mnemonic.name = lowered name ∧ WrittenFor symbols operands i := by
  rw [Words.read_words inside] at read
  obtain ⟨mnemonic, named, -, rfl⟩ := (Words.ofFields_eq_ok_iff other).mp read
  obtain ⟨i, made, encoded⟩ := Fallible.bind_eq_ok.mp emitted
  obtain ⟨rfl, written⟩ := Operands.instructionOf_eq_ok_iff.mp made
  cases encoded
  exact ⟨i, rfl, named.symm, written⟩

/-- **A source reaches the machine.** An assembled image that fits is loaded, and
where no later line has written over the bytes of an instruction, the machine
reads the instruction of this name that the operands are written for; its labels
stand for their addresses. Where no line has bytes, memory is zero up to the end
of the image, and behind it as it was. -/
theorem source_reaches_machine {source : String} {image : Image} (ran : assemble source = .ok image)
    {m : Machine} (fits : image.size ≤ m.memory.size) :
    ∃ memory : Memory, m.load image.bytes = .ok { m with memory } ∧ memory.size = m.memory.size ∧
      (∀ (k : Nat) (row : List Char) (name : String) (operands : List String),
        (Assembly.rows source)[k]? = some row →
        Assembly.Words (codeOf row) ((name :: operands).map String.toList) → lowered name ∉ directives →
        ∃ (entry : SourceLine) (address : Word), image.lines[k]? = some entry ∧
          entry.text = String.ofList (Text.trim row) ∧ entry.address = address.toNat ∧
          ((∀ (j : Nat) (later : SourceLine), k < j → image.lines[j]? = some later →
              ∀ a, entry.Covers a → ¬ later.Covers a) →
            ∃ i, memory.decodeAt address = .ok i ∧ i.length = entry.length ∧
              i.mnemonic.name = lowered name ∧ WrittenFor image.symbols operands i)) ∧
      ∀ a, (∀ entry ∈ image.lines, ¬ entry.Covers a) →
        memory.bytes[a]? = if a < image.size then some 0 else m.memory.bytes[a]? := by
  obtain ⟨fs, emits, made, -⟩ := assemble_emitted ran
  have bytes : image.bytes = storeAll #[] fs := by rw [← made, assembled_eq]
  refine ⟨_, load_eq fits, Bytes.size_overwrite _ _ _, ?_, ?_⟩
  · intro k row name operands isRow inside other
    obtain ⟨f, isFragment⟩ : ∃ f, fs[k]? = some f := by
      have within := (List.getElem?_eq_some_iff.mp isRow).1
      rw [← length_emitted emits] at within
      exact ⟨fs[k], List.getElem?_eq_getElem within⟩
    obtain ⟨statement, agrees, -⟩ := emitted_at emits isRow isFragment
    obtain ⟨i, encoded, named, written⟩ := read_instruction inside other agrees.read agrees.emitted
    have place : (UInt64.ofNat f.address).toNat = f.address :=
      UInt64.toNat_ofNat_of_lt' (Nat.lt_of_le_of_lt agrees.inRange (by decide))
    refine ⟨f.line, UInt64.ofNat f.address, (entry_iff made).mpr ⟨f, isFragment, rfl⟩, agrees.text,
      place.symm, fun free => ⟨i, ?_, ?_, named, written⟩⟩
    · have untouched : ∀ (j : Nat) (g : Fragment), k < j → fs[j]? = some g →
          ∀ a, f.Covers a → ¬ g.Covers a :=
        fun j g later isLater => free j g.line later ((entry_iff made).mpr ⟨g, isLater, rfl⟩)
      rw [bytes]
      exact decodeAt_emitted isFragment encoded place untouched (bytes ▸ fits)
    · show i.length = f.data.length
      rw [encoded, Instruction.length_encode]
  · intro a uncovered
    have free : ∀ f ∈ fs, ¬ f.Covers a := by
      intro f held
      obtain ⟨k, isFragment⟩ := List.mem_iff_getElem?.mp held
      exact uncovered f.line (Array.mem_of_getElem? ((entry_iff made).mpr ⟨f, isFragment, rfl⟩))
    have zero : cell image.bytes a = 0 := by
      rw [bytes, cell_storeAll_uncovered free]
      rfl
    rw [getElem?_loaded fits]
    by_cases inside : a < image.bytes.size
    · rw [cell, Array.getElem?_eq_getElem inside] at zero
      rw [if_pos inside, if_pos (show a < image.size from inside), Array.getElem?_eq_getElem inside]
      exact congrArg some zero
    · rw [if_neg inside, if_neg (show ¬ a < image.size from inside)]

/-- The image of a source whose first line names a label behind it. -/
def forward : Image where
  bytes := #[0x50, 0x04, 0x0C, 0, 0, 0, 0, 0, 0, 0, 0, 0, 0xFE]
  lines := #[⟨0, 10, "mrmovq Far(%RSP), %rax"⟩, ⟨10, 0, ".pos 0xc"⟩, ⟨12, 1, "Far: .byte 0xfe"⟩]
  symbols := ({} : SymbolTable).insert "Far" 12

/-- A machine with sixteen bytes of memory, all of them set. -/
def filled : Machine := { Machine.fresh {} with memory := ⟨Array.replicate 16 0xFF⟩ }

/-- A displacement is the address of a label that is defined later, a register is
named in large letters, and the byte behind the image stays as it was. -/
theorem source_reaches_machine_forward :
    assemble "mrmovq Far(%RSP), %rax\n.pos 0xc\nFar: .byte 0xfe" = .ok forward ∧
      forward.size ≤ filled.memory.size ∧
      ∃ (memory : Memory) (i : Instruction), filled.load forward.bytes = .ok { filled with memory } ∧
        memory.decodeAt 0 = .ok i ∧ i.length = 10 ∧ i.mnemonic.name = "mrmovq" ∧
        WrittenFor forward.symbols ["Far(%RSP)", "%rax"] i ∧
        memory.bytes[11]? = some 0 ∧ memory.bytes[13]? = some 0xFF := by
  have made : assemble "mrmovq Far(%RSP), %rax\n.pos 0xc\nFar: .byte 0xfe" = .ok forward := by cbv
  have fits : forward.size ≤ filled.memory.size := by decide
  obtain ⟨memory, loaded, -, lines, others⟩ := source_reaches_machine made fits
  have first : (Assembly.rows "mrmovq Far(%RSP), %rax\n.pos 0xc\nFar: .byte 0xfe")[0]? =
      some "mrmovq Far(%RSP), %rax".toList := by cbv
  have inside : Assembly.Words (codeOf "mrmovq Far(%RSP), %rax".toList)
      (["mrmovq", "Far(%RSP)", "%rax"].map String.toList) := Words.fields_spaced_iff.mp (by cbv)
  obtain ⟨entry, address, isEntry, -, place, reads⟩ := lines 0 _ "mrmovq" _ first inside (by decide)
  obtain rfl : ⟨0, 10, "mrmovq Far(%RSP), %rax"⟩ = entry := Option.some.inj isEntry
  obtain rfl : 0 = address := UInt64.toNat_inj.mp place
  have free : ∀ (j : Nat) (later : SourceLine), 0 < j → forward.lines[j]? = some later →
      ∀ a, SourceLine.Covers ⟨0, 10, "mrmovq Far(%RSP), %rax"⟩ a → ¬ later.Covers a := by
    intro j later behind isLater a covered again
    have starts : 10 ≤ later.address := by
      rcases j with _ | _ | _ | j <;> cases isLater
      · exact absurd behind (by decide)
      · exact Nat.le_refl 10
      · exact Nat.le_add_right 10 2
    exact absurd (Nat.lt_of_lt_of_le covered.2 starts) (Nat.not_lt_of_le again.1)
  obtain ⟨i, decoded, length, named, written⟩ := reads free
  refine ⟨made, fits, memory, i, loaded, decoded, length, named, written, ?_, ?_⟩
  · exact others 11 (by simp [forward, SourceLine.Covers])
  · exact others 13 (by simp [forward, SourceLine.Covers])

end LoadedSource

end Y86Toolkit
