import Y86Toolkit.Disassembly
import Y86Toolkit.Proofs.Encoding
import Y86Toolkit.Proofs.Fragments

/-!
Taking bytes apart. The lines of a disassembly lie one behind the other and leave
nothing out, so that their fragments make the bytes they were taken from.
-/

namespace Y86Toolkit.Disassembly

/-- Fragments that lie one behind the other from an address up to the end, each with
the line that stands there. -/
inductive Tiled (cells : Array Byte) : Nat → List Fragment → Prop where
  | done : Tiled cells cells.size []
  | line {f : Fragment} {fs : List Fragment} (before : f.address < cells.size)
      (within : f.stop ≤ cells.size) (line : f.line = lineAt cells f.address)
      (data : f.data = Bytes.slice cells f.address f.stop) (behind : Tiled cells f.stop fs) :
      Tiled cells f.address (f :: fs)

/-- Lines one behind the other from an address on, each the one that stands there, as
far as they start in front of a limit. -/
inductive Follow (cells : Array Byte) (stop : Nat) : Nat → List SourceLine → Prop where
  | done {address : Nat} (reached : stop ≤ address) : Follow cells stop address []
  | line {address : Nat} {behind : List SourceLine} (before : address < stop)
      (rest : Follow cells stop (address + (lineAt cells address).length) behind) :
      Follow cells stop address (lineAt cells address :: behind)

end Y86Toolkit.Disassembly

namespace Y86Toolkit.DisassemblyTiles
open Instruction Disassembly Encoding Fragments Cells

variable {cells : Array Byte} {address : Nat}

theorem slice_eq_take_drop (start stop : Nat) :
    Bytes.slice cells start stop = (cells.toList.drop start).take (stop - start) := by
  rw [Bytes.slice, Array.toList_extract, List.extract_eq_take_drop]

theorem slice_append_drop {start stop : Nat} (order : start ≤ stop) :
    Bytes.slice cells start stop ++ cells.toList.drop stop = cells.toList.drop start := by
  have rest : cells.toList.drop stop = (cells.toList.drop start).drop (stop - start) := by
    rw [List.drop_drop, Nat.add_sub_of_le order]
  rw [slice_eq_take_drop, rest, List.take_append_drop]

theorem take_append_slice {start stop : Nat} (order : start ≤ stop) :
    cells.toList.take start ++ Bytes.slice cells start stop = cells.toList.take stop := by
  rw [slice_eq_take_drop, ← List.take_add, Nat.add_sub_of_le order]

/-- A line needs no more of the bytes than the longest instruction. -/
theorem decode_window (cells : Array Byte) (address : Nat) :
    decode (Bytes.slice cells address (address + maxLength)) = decode (cells.toList.drop address) := by
  rw [slice_eq_take_drop, Nat.add_sub_cancel_left, decode_take (Nat.le_refl maxLength)]

/-- A line is an instruction that its bytes show, or a byte at which none can be
read. -/
theorem lineAt_cases (before : address < cells.size) :
    (∃ i : Instruction, lineAt cells address = ⟨address, i.length, i.text⟩ ∧
      address + i.length ≤ cells.size ∧ Shows (Bytes.slice cells address (address + i.length)) i) ∨
    ∃ cause, decode (Bytes.slice cells address (address + maxLength)) = .error cause ∧
      lineAt cells address = ⟨address, 1, rawByte cells[address]⟩ := by
  cases decoded : decode (Bytes.slice cells address (address + maxLength)) with
  | ok i =>
    have shows := decode_eq_ok_iff.mp decoded
    have whole := shows.whole
    rw [length_slice] at whole
    have short : (Bytes.slice cells address (address + maxLength)).take i.length =
        Bytes.slice cells address (address + i.length) := by
      have bound := i.length_le_maxLength
      rw [slice_eq_take_drop, slice_eq_take_drop, List.take_take, Nat.add_sub_cancel_left,
        Nat.add_sub_cancel_left, Nat.min_eq_left bound]
    refine .inl ⟨i, by rw [lineAt, decoded], ?_, short ▸ shows_take shows⟩
    have positive := i.length_pos
    omega
  | error cause =>
    refine .inr ⟨cause, rfl, ?_⟩
    rw [lineAt, decoded, Array.getElem?_eq_getElem before]
    rfl

theorem lineAt_stop (before : address < cells.size) :
    (lineAt cells address).address = address ∧ address + (lineAt cells address).length ≤ cells.size := by
  rcases lineAt_cases before with ⟨i, line, within, -⟩ | ⟨_, -, line⟩
  · rw [line]
    exact ⟨rfl, within⟩
  · rw [line]
    exact ⟨rfl, before⟩

/-- The lines from an address on are those of fragments that lie there. -/
theorem exists_tiled {start : Nat} (within : start ≤ cells.size) (found : Array SourceLine) :
    ∃ fs, Tiled cells start fs ∧
      (lines.go cells cells.size start found).toList = found.toList ++ fs.map Fragment.line := by
  rw [lines.go]
  split
  · rename_i before
    obtain ⟨place, stop⟩ := lineAt_stop before
    have positive := lineAt_length_pos cells start
    obtain ⟨fs, tiled, listed⟩ := exists_tiled stop (found.push (lineAt cells start))
    let f : Fragment :=
      ⟨start, Bytes.slice cells start (start + (lineAt cells start).length), (lineAt cells start).text⟩
    have length : f.data.length = (lineAt cells start).length := by
      rw [length_slice, Nat.min_eq_left stop, Nat.add_sub_cancel_left]
    have line : f.line = lineAt cells start := by
      rw [Fragment.line, length]
      exact congrArg (SourceLine.mk · _ _) place.symm
    have ends : f.stop = start + (lineAt cells start).length := congrArg (start + ·) length
    refine ⟨f :: fs, .line before (ends ▸ stop) line ?_ (ends ▸ tiled), ?_⟩
    · rw [ends]
    · rw [listed, List.map_cons, line, Array.toList_push, List.append_assoc, List.singleton_append]
  · rename_i after
    obtain rfl : start = cells.size := Nat.le_antisymm within (Nat.le_of_not_lt after)
    exact ⟨[], .done, (List.append_nil _).symm⟩
termination_by cells.size - start
decreasing_by omega

/-- The bytes of the fragments make the bytes they were taken from. -/
theorem flatMap_tiled {start : Nat} {fs : List Fragment} (tiled : Tiled cells start fs) :
    fs.flatMap Fragment.data = cells.toList.drop start := by
  induction tiled with
  | done => simp
  | @line f fs before within line data behind ih =>
    rw [List.flatMap_cons, ih, data, slice_append_drop f.address_le_stop]

theorem storeAll_tiled {start : Nat} {fs : List Fragment} (tiled : Tiled cells start fs)
    {front : Array Byte} (stored : front.toList = cells.toList.take start) : storeAll front fs = cells := by
  induction tiled generalizing front with
  | done =>
    rw [List.take_of_length_le (Nat.le_of_eq Array.length_toList)] at stored
    exact Array.toList_inj.mp stored
  | @line f fs before within line data behind ih =>
    have place : f.address = front.size := by
      rw [← Array.length_toList, stored, List.length_take, Array.length_toList, Nat.min_eq_left (by omega)]
    refine ih ?_
    rw [store_at_end place, stored, data, take_append_slice f.address_le_stop]

theorem mem_tiled {start : Nat} {fs : List Fragment} (tiled : Tiled cells start fs) {f : Fragment}
    (held : f ∈ fs) : f.address < cells.size ∧ f.stop ≤ cells.size ∧ f.line = lineAt cells f.address ∧
      f.data = Bytes.slice cells f.address f.stop := by
  induction tiled with
  | done => cases held
  | line before within line data behind ih =>
    rcases List.mem_cons.mp held with rfl | later
    · exact ⟨before, within, line, data⟩
    · exact ih later

/-! ## Lines up to a limit -/

section
variable {start stop : Nat} {ls : List SourceLine} {line : SourceLine}

theorem lineAt_address (cells : Array Byte) (address : Nat) : (lineAt cells address).address = address := by
  unfold lineAt
  split <;> rfl

/-- The lines that are listed from an address on follow each other. -/
theorem follow_lines (cells : Array Byte) (start stop : Nat) :
    Follow cells stop start (lines cells start stop).toList := by
  have each (address : Nat) (found : Array SourceLine) :
      ∃ ls, Follow cells stop address ls ∧
        (lines.go cells stop address found).toList = found.toList ++ ls := by
    fun_induction lines.go cells stop address found with
    | case1 address found before line ih =>
      obtain ⟨ls, follow, listed⟩ := ih
      exact ⟨line :: ls, .line before follow, by rw [listed, Array.toList_push, List.append_assoc]; rfl⟩
    | case2 address found after =>
      exact ⟨[], .done (Nat.le_of_not_lt after), (List.append_nil _).symm⟩
  obtain ⟨ls, follow, listed⟩ := each start #[]
  have all : (lines cells start stop).toList = ls := listed
  rwa [all]

theorem start_mem_follow (follow : Follow cells stop start ls) (before : start < stop) :
    lineAt cells start ∈ ls := by
  cases follow with
  | done reached => exact absurd before (Nat.not_lt_of_le reached)
  | line => exact List.mem_cons_self

/-- Every line is the one at its address, which lies in between. -/
theorem mem_follow (follow : Follow cells stop start ls) (held : line ∈ ls) :
    line = lineAt cells line.address ∧ start ≤ line.address ∧ line.address < stop := by
  induction follow with
  | done => cases held
  | @line address behind before rest ih =>
    rcases List.mem_cons.mp held with rfl | later
    · rw [lineAt_address]
      exact ⟨rfl, Nat.le_refl _, before⟩
    · obtain ⟨same, above, below⟩ := ih later
      exact ⟨same, Nat.le_trans (Nat.le_add_right _ _) above, below⟩

/-- No two lines start at one address. -/
theorem ascending_follow (follow : Follow cells stop start ls) :
    ls.Pairwise fun line later => line.address < later.address := by
  induction follow with
  | done => exact .nil
  | @line address behind before rest ih =>
    refine .cons (fun later held => ?_) ih
    rw [lineAt_address]
    exact Nat.lt_of_lt_of_le (Nat.lt_add_of_pos_right (lineAt_length_pos cells address))
      (mem_follow rest held).2.1

end

/-! ## All lines -/

/-- **The image of bytes is made of fragments that lie one behind the other.** -/
theorem image_tiled (cells : Array Byte) :
    ∃ fs, Tiled cells 0 fs ∧ Disassembly.image cells = assembled fs := by
  obtain ⟨fs, tiled, listed⟩ := exists_tiled (Nat.zero_le cells.size) #[]
  refine ⟨fs, tiled, ?_⟩
  have same : lines cells 0 cells.size = (fs.map Fragment.line).toArray := Array.toList_inj.mp listed
  rw [assembled_eq, storeAll_tiled tiled rfl, Disassembly.image, same]

end Y86Toolkit.DisassemblyTiles
