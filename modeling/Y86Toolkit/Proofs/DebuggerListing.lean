import Mathlib.Data.List.Chain
import Y86Toolkit.Proofs.DebuggerRuns
import Y86Toolkit.Proofs.OneReading

/-!
What a debugger lists around the program counter. The lines come one behind the other
out of the machine's memory, the program counter has one of them as long as it is in
memory, and what a step then carries out is what stood on that line.
-/

namespace Y86Toolkit

/-- How many bytes the line for an address takes: those of the instruction that is read
there, or one byte. -/
def Memory.lengthAt (m : Memory) (address : Word) : Nat :=
  match m.decodeAt address with
  | .ok i => i.length
  | .error _ => 1

namespace DebuggerListing
open Debugger Disassembly DisassemblyTiles DebuggerRuns OneReading

variable {d : Debugger} {count : Nat}

theorem length_lineAt (m : Memory) (address : Word) :
    (lineAt m.bytes address.toNat).length = m.lengthAt address := by
  have agrees := decodeAt_agrees m address
  rw [lineAt, Memory.lengthAt, decode_window]
  generalize Instruction.decode (m.bytes.toList.drop address.toNat) = decoded at agrees
  generalize m.decodeAt address = read at agrees
  cases agrees <;> rfl

/-- Each line starts where the one in front of it ends. -/
theorem chain_follow {cells : Array Byte} {start stop : Nat} {ls : List SourceLine}
    (follow : Follow cells stop start ls) :
    ls.IsChain fun line next => next.address = line.address + line.length := by
  induction follow with
  | done => exact .nil
  | @line address behind before rest ih =>
    cases rest with
    | done => exact .singleton _
    | line => exact .cons_cons (by rw [lineAt_address, lineAt_address]) ih

/-! ## The lines to choose from -/

/-- The lines to choose from follow each other within memory. -/
theorem follow_linesNearPc (d : Debugger) (count : Nat) : ∃ start stop,
    Follow d.machine.memory.bytes stop start (d.linesNearPc count).toList ∧
      stop ≤ d.machine.memory.size := by
  unfold linesNearPc
  dsimp only
  split <;> exact ⟨_, _, follow_lines _ _ _, Nat.min_le_right _ _⟩

/-- The program counter has a line of its own wherever it is in memory. -/
theorem pc_listed (some : 0 < count) (inside : d.machine.pc.toNat < d.machine.memory.size) :
    ∃ line ∈ (d.linesNearPc count).toList, line.address = d.machine.pc.toNat := by
  unfold linesNearPc
  dsimp only
  split
  · -- The lines that start at the program counter have room for one at least.
    have room : 0 < Instruction.maxLength * count := Nat.mul_pos (by decide) some
    refine ⟨_, start_mem_follow (follow_lines _ _ _) ?_, lineAt_address _ _⟩
    exact Nat.lt_min.mpr ⟨Nat.lt_add_of_pos_right room, inside⟩
  · rename_i listed
    have any := Decidable.of_not_not fun none => listed ⟨inside, none⟩
    obtain ⟨line, held, same⟩ := Array.any_eq_true'.mp any
    exact ⟨line, Array.mem_toList_iff.mpr held, beq_iff_eq.mp same⟩

/-! ## The lines that are shown -/

/-- What is shown for a line. -/
def entry (d : Debugger) (line : SourceLine) : ListedLine :=
  ⟨line.address, line.text, line.address == d.machine.pc.toNat⟩

/-- As many lines as there is room for are shown, and the current one is among them. -/
theorem listing_window (d : Debugger) (count : Nat) : ∃ first,
    d.listing count = (((d.linesNearPc count).toList.drop first).take count).map (entry d) ∧
      (0 < count → d.machine.pc.toNat < d.machine.memory.size →
        ∃ line ∈ ((d.linesNearPc count).toList.drop first).take count,
          line.address = d.machine.pc.toNat) := by
  refine ⟨((d.linesNearPc count).findIdx? (·.address == d.machine.pc.toNat)).getD 0 - count / 2, ?_, ?_⟩
  · rw [Debugger.listing, Array.toList_extract, List.extract_eq_take_drop, Nat.add_sub_cancel_left]
    rfl
  · intro some inside
    cases place : (d.linesNearPc count).findIdx? (·.address == d.machine.pc.toNat) with
    | none =>
      obtain ⟨line, held, same⟩ := pc_listed some inside
      have other := Array.findIdx?_eq_none_iff.mp place line (Array.mem_toList_iff.mp held)
      simp [same] at other
    | some current =>
      obtain ⟨before, same, -⟩ := Array.findIdx?_eq_some_iff_getElem.mp place
      -- Half of the room lies in front of the current line, so that it is not filled up there.
      have half : current - (current - count / 2) < count := by omega
      have whole : current - count / 2 + (current - (current - count / 2)) = current := by omega
      refine ⟨(d.linesNearPc count)[current], List.mem_iff_getElem?.mpr ⟨current - (current - count / 2), ?_⟩,
        beq_iff_eq.mp same⟩
      rw [Option.getD_some, List.getElem?_take_of_lt half, List.getElem?_drop, whole,
        Array.getElem?_toList, Array.getElem?_eq_getElem before]

/-- Of lines at ascending addresses one at most is current, and that one is at the
program counter. -/
theorem current_entries {ls : List SourceLine}
    (ascending : ls.Pairwise fun line later => line.address < later.address) :
    ((ls.map (entry d)).filter (·.current)).map (·.address) =
      if ∃ line ∈ ls, line.address = d.machine.pc.toNat then [d.machine.pc.toNat] else [] := by
  have addresses : ((ls.map (entry d)).filter (·.current)).map (·.address) =
      (ls.map SourceLine.address).filter (· == d.machine.pc.toNat) := by
    rw [List.filter_map, List.filter_map, List.map_map]
    rfl
  have once : (ls.map SourceLine.address).Nodup :=
    List.pairwise_map.mpr (ascending.imp fun before => Nat.ne_of_lt before)
  rw [addresses, List.filter_beq]
  split
  · rename_i listed
    rw [once.count, if_pos (List.mem_map.mpr listed), List.replicate_one]
  · rename_i unlisted
    rw [List.count_eq_zero_of_not_mem fun held => unlisted (List.mem_map.mp held), List.replicate_zero]

/-- What a step has carried out is what is listed for the program counter. -/
theorem textAt_of_stepped {machine : Machine} {i : Instruction} (running : machine.status = .running)
    (ran : machine.step.1 = .ok i) : machine.memory.textAt machine.pc = i.text := by
  have reads := step_reads running
  rw [ran] at reads
  unfold Memory.textAt
  split at reads
  · rcases reads with same | ⟨fault, failed⟩
    · cases same
      rfl
    · cases failed
  · cases reads

/-- **A debugger's listing shows what will be executed.** It has no more lines than
there is room for, at ascending addresses of memory, each where the one in front of it
ends, and each with the instruction that is read at its address, or with the byte there
if none can be read. One line is current, the one at the program counter, as long as
that is in memory, and otherwise none. If a step from there carries an instruction out,
it is the one of the current line, whose text the debugger then reports. -/
theorem listing_shows (d : Debugger) (count : Nat) :
    (d.listing count).length ≤ count ∧
    (d.listing count).Pairwise (fun line later => line.address < later.address) ∧
    (d.listing count).IsChain (fun line next => ∀ address : Word, address.toNat = line.address →
      next.address = line.address + d.machine.memory.lengthAt address) ∧
    (∀ line ∈ d.listing count, line.address < d.machine.memory.size ∧
      ∀ address : Word, address.toNat = line.address → line.text = d.machine.memory.textAt address) ∧
    (0 < count → ((d.listing count).filter (·.current)).map (·.address) =
      if d.machine.pc.toNat < d.machine.memory.size then [d.machine.pc.toNat] else []) ∧
    ∀ i, d.machine.status = .running → d.machine.step.1 = .ok i →
      ∀ line ∈ d.listing count, line.current = true → line.text = i.text ∧
        d.step.message.text = DebuggerMessage.pcText d.machine.pc ++ ": " ++ line.text := by
  obtain ⟨first, shown, current⟩ := listing_window d count
  obtain ⟨start, stop, follow, within⟩ := follow_linesNearPc d count
  rw [shown]
  generalize (d.linesNearPc count).toList = ls at *
  have listed : ∀ line ∈ (ls.drop first).take count, line ∈ ls :=
    fun line held => List.mem_of_mem_drop (List.mem_of_mem_take held)
  have ascending := ((ascending_follow follow).drop (i := first)).take (i := count)
  have text : ∀ line ∈ (ls.drop first).take count, ∀ address : Word, address.toNat = line.address →
      line.text = d.machine.memory.textAt address := by
    intro line held address place
    rw [(mem_follow follow (listed line held)).1, ← place, text_lineAt]
  refine ⟨?_, List.pairwise_map.mpr ascending, ?_, ?_, ?_, ?_⟩
  · rw [List.length_map]
    exact List.length_take_le _ _
  · rw [List.isChain_map]
    refine (((chain_follow follow).drop first).take count).imp_of_mem_imp ?_
    intro line next held _ behind address place
    have length : d.machine.memory.lengthAt address = line.length := by
      rw [← length_lineAt, place]
      exact congrArg SourceLine.length (mem_follow follow (listed line held)).1.symm
    rw [length]
    exact behind
  · refine List.forall_mem_map.mpr fun line held => ⟨?_, text line held⟩
    exact Nat.lt_of_lt_of_le (mem_follow follow (listed line held)).2.2 within
  · intro some
    rw [current_entries ascending]
    refine if_congr ⟨?_, current some⟩ rfl rfl
    rintro ⟨line, held, place⟩
    rw [← place]
    exact Nat.lt_of_lt_of_le (mem_follow follow (listed line held)).2.2 within
  · intro i running ran
    refine List.forall_mem_map.mpr fun line held isCurrent => ?_
    have same : (entry d line).text = i.text :=
      (text line held _ (beq_iff_eq.mp isCurrent).symm).trans (textAt_of_stepped running ran)
    refine ⟨same, ?_⟩
    rw [step_taken running ran, same]
    rfl

/-- A debugger whose machine has come to the second byte of an instruction. -/
def inMiddle : Debugger where
  machine := { beforePush with memory := ⟨#[0x20, 0x10, 0x10]⟩ }
  image := {}
  message := .ready

/-- The second byte of a move is listed on a line of its own, as the instruction that
the next step carries out. -/
theorem listing_shows_inMiddle :
    inMiddle.listing 3 = [⟨1, "nop", true⟩, ⟨2, "nop", false⟩] ∧
      (0 < 3 ∧ ((inMiddle.listing 3).filter (·.current)).map (·.address) = [1]) ∧
      inMiddle.machine.status = .running ∧ inMiddle.machine.step.1 = .ok .nop ∧
      "nop" = Instruction.nop.text ∧
      inMiddle.step.message.text = DebuggerMessage.pcText 1 ++ ": " ++ "nop" := by
  have shown : inMiddle.listing 3 = [⟨1, "nop", true⟩, ⟨2, "nop", false⟩] := by cbv
  have ran : inMiddle.machine.step.1 = .ok .nop := rfl
  obtain ⟨-, -, -, -, current, reported⟩ := listing_shows inMiddle 3
  have line : (⟨1, "nop", true⟩ : ListedLine) ∈ inMiddle.listing 3 := by
    rw [shown]
    exact List.mem_cons_self
  have running : inMiddle.machine.status = .running := rfl
  obtain ⟨text, message⟩ := reported .nop running ran _ line rfl
  exact ⟨shown, ⟨by decide, current (by decide)⟩, running, ran, text, message⟩

end DebuggerListing

end Y86Toolkit
