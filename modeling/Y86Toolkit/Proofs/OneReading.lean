import Y86Toolkit.Debugger.Listing
import Y86Toolkit.Proofs.DisassemblyTiles
import Y86Toolkit.Proofs.Fetch
import Y86Toolkit.Proofs.StepTable

/-!
What an address holds is read in two ways: out of memory, where only the bytes that
the opcode calls for are fetched, and out of the bytes themselves. Both find the same
instruction or the same fault in it, and both find that bytes are missing, each in its
own words. So what is listed for an address is what a step finds there.
-/

namespace Y86Toolkit

namespace Memory
open Instruction

/-- Decoding the bytes from an address on and reading at that address agree. -/
inductive Agrees (m : Memory) (address : Word) :
    Except DecodeError Instruction → Except FetchError Instruction → Prop where
  | instruction (i : Instruction) : Agrees m address (.ok i) (.ok i)
  /-- The bytes are there, and are no instruction. -/
  | malformed {cause : DecodeError} (present : ∀ needed available, cause ≠ .truncated needed available) :
      Agrees m address (.error cause) (.error (.decode cause))
  /-- So many bytes from the address on are not all in memory. -/
  | missing {needed : Nat} (outside : m.size < address.toNat + needed) :
      Agrees m address (.error (.truncated needed (m.size - address.toNat)))
        (.error (.memory (.outside address needed m.size)))

/-- The text for what is read at an address: an instruction, or a byte that starts
none. -/
def textAt (m : Memory) (address : Word) : String :=
  match m.decodeAt address with
  | .ok i => i.text
  | .error _ => Disassembly.rawByte (m.bytes[address.toNat]?.getD 0)

end Memory

namespace OneReading
open Instruction Encoding Fetch Cells Disassembly DisassemblyTiles

variable {m : Memory} {address : Word}

/-- A fault that is none of the address is not one of missing bytes. -/
theorem present_of_malformed {cause : DecodeError}
    (malformed : (FetchError.decode cause).isAddressFault = false)
    (needed available : Nat) : cause ≠ .truncated needed available := by
  rintro rfl
  cases malformed

theorem drop_eq_cons {cells : Array Byte} {start : Nat} {b : Byte} (here : cells[start]? = some b) :
    cells.toList.drop start = b :: cells.toList.drop (start + 1) := by
  obtain ⟨before, value⟩ := Array.getElem?_eq_some_iff.mp here
  rw [List.drop_eq_getElem_cons (by simpa using before), Array.getElem_toList, value]

/-- **Memory is read as its bytes are.** -/
theorem decodeAt_agrees (m : Memory) (address : Word) :
    m.Agrees address (decode (m.bytes.toList.drop address.toNat)) (m.decodeAt address) := by
  cases here : m.bytes[address.toNat]? with
  | none =>
    have past : m.bytes.size ≤ address.toNat := Array.getElem?_eq_none_iff.mp here
    have absent : m.Agrees address (.error (.truncated 1 (m.size - address.toNat)))
        (.error (.memory (.outside address 1 m.size))) := .missing (Nat.lt_succ_of_le past)
    rw [Memory.size, Nat.sub_eq_zero_of_le past] at absent
    rw [decodeAt_unreadable here, List.drop_eq_nil_of_le (by simpa using past)]
    exact absent
  | some first =>
    have available : (first :: m.bytes.toList.drop (address.toNat + 1)).length = m.size - address.toNat := by
      rw [← drop_eq_cons here, List.length_drop, Array.length_toList, Memory.size]
    rw [drop_eq_cons here, decode, available]
    cases opcode : Opcode.ofCode? (highHalf first) with
    | none =>
      rw [decodeAt_undefined here opcode]
      refine .malformed fun needed available same => ?_
      cases same
    | some o =>
      have defined := Opcode.ofCode?_eq_some opcode
      dsimp only
      by_cases inside : m.Inside address o.length
      · have enough : ¬ m.size - address.toNat < o.length := by
          unfold Memory.Inside at inside
          omega
        -- Only what the opcode calls for is fetched, and no more than that is read.
        have fetched : Bytes.slice m.bytes (address.toNat + 1) (address.toNat + o.length) =
            (m.bytes.toList.drop (address.toNat + 1)).take (o.length - 1) := by
          rw [slice_eq_take_drop, Nat.add_sub_add_left]
        rw [decodeAt_inside here defined inside, if_neg enough, fetched, decodeOperands_take (by omega)]
        cases decoded : decodeOperands o (lowHalf first) (m.bytes.toList.drop (address.toNat + 1)) with
        | ok i => exact .instruction i
        | error cause => exact .malformed (present_of_malformed (decodeOperands_error decoded))
      · have cut : m.size < address.toNat + o.length := Nat.lt_of_not_le inside
        have few : m.size - address.toNat < o.length := by
          have before : address.toNat < m.size := (Array.getElem?_eq_some_iff.mp here).1
          omega
        rw [decodeAt_outside here defined inside, if_pos few]
        exact .missing cut

/-! ## Listings and steps -/

/-- The line of a disassembly at an address shows what is read there. -/
theorem text_lineAt (m : Memory) (address : Word) :
    (lineAt m.bytes address.toNat).text = m.textAt address := by
  have agrees := decodeAt_agrees m address
  rw [lineAt, Memory.textAt, decode_window]
  generalize decode (m.bytes.toList.drop address.toNat) = decoded at agrees
  generalize m.decodeAt address = read at agrees
  cases agrees <;> rfl

/-- Every line is the one at its address. -/
theorem mem_lines {cells : Array Byte} {start stop : Nat} {line : SourceLine}
    (listed : line ∈ lines cells start stop) : line = lineAt cells line.address :=
  (mem_follow (follow_lines cells start stop) (Array.mem_toList_iff.mpr listed)).1

/-- A debugger lists lines of the disassembly of memory. -/
theorem mem_listing {d : Debugger} {count : Nat} {line : Debugger.ListedLine}
    (listed : line ∈ d.listing count) :
    ∃ start stop, ∃ source ∈ lines d.machine.memory.bytes start stop,
      source.address = line.address ∧ source.text = line.text := by
  obtain ⟨source, held, rfl⟩ := List.mem_map.mp listed
  have chosen : source ∈ d.linesNearPc count := by
    rw [Array.toList_extract, List.extract_eq_take_drop] at held
    exact Array.mem_toList_iff.mp (List.mem_of_mem_drop (List.mem_of_mem_take held))
  unfold Debugger.linesNearPc at chosen
  dsimp only at chosen
  split at chosen <;> exact ⟨_, _, source, chosen, rfl, rfl⟩

/-- What a running machine does about what it reads at its program counter. -/
theorem step_reads {machine : Machine} (running : machine.status = .running) :
    match machine.memory.decodeAt machine.pc with
    | .ok i => machine.step.1 = .ok i ∨ ∃ fault, machine.step.1 = .error (.access machine.pc fault)
    | .error cause => machine.step.1 = .error (.fetch machine.pc cause) := by
  rcases StepTable.step_cases machine with ⟨stopped, -⟩ | ⟨-, cause, failed, step⟩ |
    ⟨-, i, place, decoded, -, -, step⟩ | ⟨-, i, decoded, -, step⟩
  · exact absurd running stopped
  · rw [failed, step]
  · rw [decoded, step]
    exact .inr ⟨_, rfl⟩
  · rw [decoded, step]
    exact .inl rfl

/-- **An address is read in one way.** Decoding the bytes from an address on and
reading memory there give the same instruction, or the same opcode, function code or
register that does not exist, or both miss bytes: the one says how many there are, and
the other what does not lie in memory. So a listing of the bytes, a debugger's listing
and a step never disagree about an address. -/
theorem address_read_alike (m : Memory) (address : Word) :
    m.Agrees address (decode (m.bytes.toList.drop address.toNat)) (m.decodeAt address) ∧
    (∀ line ∈ (Disassembly.image m.bytes).lines, line.address = address.toNat →
      line.text = m.textAt address) ∧
    (∀ (d : Debugger) (count : Nat), d.machine.memory = m → ∀ line ∈ d.listing count,
      line.address = address.toNat → line.text = m.textAt address) ∧
    ∀ machine : Machine, machine.status = .running → machine.memory = m → machine.pc = address →
      match m.decodeAt address with
      | .ok i => machine.step.1 = .ok i ∨ ∃ fault, machine.step.1 = .error (.access address fault)
      | .error cause => machine.step.1 = .error (.fetch address cause) := by
  have shown {start stop : Nat} {line : SourceLine} (listed : line ∈ lines m.bytes start stop)
      (place : line.address = address.toNat) : line.text = m.textAt address := by
    rw [mem_lines listed, place, text_lineAt]
  refine ⟨decodeAt_agrees m address, ?_, ?_, ?_⟩
  · intro line listed place
    exact shown listed place
  · rintro d count rfl line listed place
    obtain ⟨start, stop, source, held, same, text⟩ := mem_listing listed
    rw [← text]
    exact shown held (same.trans place)
  · rintro machine running rfl rfl
    exact step_reads running

/-- Memory that ends with the first byte of a push. -/
def cutPush : Memory := ⟨#[0x10, 0xA0]⟩

/-- A machine that has come to that byte. -/
def beforePush : Machine where
  registers := .zero
  memory := cutPush
  pc := 1
  flags := .clear
  status := .running
  steps := 0
  configuration := {}

/-- The debugger of that machine. -/
def debugsPush : Debugger := { machine := beforePush, image := {}, message := .ready }

/-- A push of which only the first byte is there: two bytes are needed, one is there,
the listings show the byte, and the step fails. -/
theorem address_read_alike_cutPush :
    cutPush.Agrees 1 (.error (.truncated 2 1)) (.error (.memory (.outside 1 2 2))) ∧
      cutPush.textAt 1 = ".byte 0xa0" ∧
      (∃ line ∈ (Disassembly.image cutPush.bytes).lines, line.address = 1 ∧ line.text = cutPush.textAt 1) ∧
      (∃ line ∈ debugsPush.listing 1, line.address = 1 ∧ line.text = cutPush.textAt 1) ∧
      beforePush.status = .running ∧ beforePush.pc = 1 ∧
      beforePush.step.1 = .error (.fetch 1 (.memory (.outside 1 2 2))) := by
  have lines : (Disassembly.image cutPush.bytes).lines = #[⟨0, 1, "nop"⟩, ⟨1, 1, ".byte 0xa0"⟩] := by cbv
  have line : (⟨1, 1, ".byte 0xa0"⟩ : SourceLine) ∈ (Disassembly.image cutPush.bytes).lines := by
    rw [lines]
    simp
  have shown : debugsPush.listing 1 = [⟨1, ".byte 0xa0", true⟩] := by cbv
  have listed : (⟨1, ".byte 0xa0", true⟩ : Debugger.ListedLine) ∈ debugsPush.listing 1 := by
    rw [shown]
    exact List.mem_singleton_self _
  obtain ⟨agrees, image, debugger, engine⟩ := address_read_alike cutPush 1
  exact ⟨agrees, (image _ line rfl).symm, ⟨_, line, rfl, image _ line rfl⟩,
    ⟨_, listed, rfl, debugger debugsPush 1 rfl _ listed rfl⟩, rfl, rfl, engine beforePush rfl rfl rfl⟩

end OneReading

end Y86Toolkit
