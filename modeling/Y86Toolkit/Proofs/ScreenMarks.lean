import Y86Toolkit.Debugger.Screen
import Y86Toolkit.Proofs.DebuggerListing
import Y86Toolkit.Proofs.MemoryAccess

/-!
What a debugger's screen marks. Inside the frames of the listing and of memory every row
is all in one style, so that a row is bold and yellow as a whole or nowhere. The row of
the program counter is, and it is the only one.
-/

namespace Y86Toolkit

/-- A frame on a screen. -/
structure Frame where
  top : Nat
  left : Nat
  width : Nat
  height : Nat

/-- The rows inside of a frame. -/
def Screen.inside (s : Screen) (f : Frame) : Screen :=
  ((s.drop (f.top + 1)).take (f.height - 2)).map fun row => (row.drop (f.left + 1)).take (f.width - 2)

/-- The rows that a panel shows: its lines as far as there is room, and empty ones. -/
def Panel.rows (p : Panel) (width height : Nat) : Screen :=
  ((p.lines.take height).rightpad height (.styled {} "")).map (·.draw width)

namespace Row

/-- What stands in a row. -/
def chars (row : Row) : List Char := row.map Cell.char

/-- A row of so many places shows a text, cut off at the end or followed by blanks. -/
def Reads (row : Row) (room : Nat) (text : String) : Prop :=
  row.chars = (text.toList.take room).rightpad room ' '

/-- A row is bold and yellow all over. -/
def Lit (row : Row) : Prop := ∀ cell ∈ row, cell.style = Debugger.currentStyle

/-- No place of a row is bold and yellow. -/
def Unlit (row : Row) : Prop := ∀ cell ∈ row, cell.style ≠ Debugger.currentStyle

/-- A row of the listing is bold and yellow and carries the arrow. -/
def Marked (row : Row) : Prop := row.Lit ∧ row.chars[2]? = some '▶'

/-- A row of the listing is neither bold and yellow nor carries the arrow. -/
def Unmarked (row : Row) : Prop := row.Unlit ∧ row.chars[2]? ≠ some '▶'

instance (row : Row) : Decidable row.Lit :=
  inferInstanceAs (Decidable (∀ cell ∈ row, _ = _))

instance (row : Row) : Decidable row.Marked :=
  inferInstanceAs (Decidable (_ ∧ _))

end Row

namespace Debugger

/-- Where the listing is on a screen. -/
def listingFrame (width height : Nat) : Frame := ⟨0, 0, width * 11 / 20, height - 3⟩

/-- Where memory is on a screen. -/
def memoryFrame (width height : Nat) : Frame :=
  ⟨19, width * 11 / 20, width - width * 11 / 20, height - 23⟩

/-- What a screen shows of the listing. -/
def shownListing (d : Debugger) (width height : Nat) : Screen :=
  (d.screen width height).inside (listingFrame width height)

/-- What a screen shows of memory. -/
def shownMemory (d : Debugger) (width height : Nat) : Screen :=
  (d.screen width height).inside (memoryFrame width height)

/-- A row of the listing tells what is read at the program counter, behind its address. -/
def TellsCurrent (d : Debugger) (room : Nat) (row : Row) : Prop :=
  ∃ label, row.Reads room ((if d.breakpoints.contains d.machine.pc then "● " else "  ") ++ "▶ " ++
    Numeral.hex 3 d.machine.pc.toNat ++ ": " ++ d.machine.memory.textAt d.machine.pc ++ label)

/-- A row shows the word at an address, bold and yellow if the program counter is in it,
or nothing if there is no whole word of memory. -/
def ShowsWord (d : Debugger) (address room : Nat) (row : Row) : Prop :=
  if address + 8 ≤ d.machine.memory.size then
    (∃ value, d.machine.memory.readWord (UInt64.ofNat address) = .ok value ∧
      row.Reads room ((if address = d.machine.stackPointer.toNat then "rsp→" else "    ") ++
        Numeral.hex 4 address ++ ": " ++ Numeral.hexDigits 16 value.toNat)) ∧
      if address ≤ d.machine.pc.toNat ∧ d.machine.pc.toNat < address + 8 then row.Lit else row.Unlit
  else row.Reads room "" ∧ row.Unlit

end Debugger

namespace ScreenMarks
open Debugger DisassemblyTiles DebuggerListing MemoryAccess

variable {above below left right : Screen} {f : Frame} {p : Panel} {width height room : Nat} {row : Row}
  {d : Debugger}

/-! ## Frames -/

theorem window_append {α : Type} {front : List α} {start count : Nat} (fits : start + count ≤ front.length)
    (behind : List α) : ((front ++ behind).drop start).take count = (front.drop start).take count := by
  have full : count ≤ (front.drop start).length := by
    rw [List.length_drop]
    omega
  rw [List.drop_append, List.take_append_of_le_length full]

theorem inside_append_above (fits : f.top + f.height ≤ above.length) (tall : 2 ≤ f.height) :
    Screen.inside (above ++ below) f = above.inside f := by
  rw [Screen.inside, Screen.inside, window_append (by omega)]

theorem inside_append_below {start : Nat} (high : above.length = start) (below : Screen) (f : Frame) :
    Screen.inside (above ++ below) { f with top := start + f.top } = below.inside f := by
  simp only [Screen.inside, ← high, Nat.add_assoc, List.drop_length_add_append]

/-- A frame on the left of two parts. -/
theorem inside_beside_left (high : left.length ≤ right.length)
    (fits : ∀ row ∈ left, f.left + f.width ≤ row.length) (wide : 2 ≤ f.width) :
    (left.beside right).inside f = left.inside f := by
  refine List.ext_getElem? fun i => ?_
  simp only [Screen.inside, Screen.beside, List.getElem?_map, List.getElem?_take, List.getElem?_drop,
    List.getElem?_zipWith]
  split
  · cases here : left[f.top + 1 + i]? with
    | none => rfl
    | some row =>
      have present : f.top + 1 + i < right.length :=
        (List.getElem?_eq_some_iff.mp here).1.trans_le high
      have room := fits row (List.mem_of_getElem? here)
      rw [List.getElem?_eq_getElem present]
      exact congrArg some (window_append (by omega) _)
  · rfl

/-- A frame on the right of two parts. -/
theorem inside_beside_right {column : Nat} (high : right.length ≤ left.length)
    (exact : ∀ row ∈ left, row.length = column) (f : Frame) :
    (left.beside right).inside { f with left := column + f.left } = right.inside f := by
  refine List.ext_getElem? fun i => ?_
  simp only [Screen.inside, Screen.beside, List.getElem?_map, List.getElem?_take, List.getElem?_drop,
    List.getElem?_zipWith]
  split
  · cases here : right[f.top + 1 + i]? with
    | none =>
      cases left[f.top + 1 + i]? <;> rfl
    | some row =>
      have present : f.top + 1 + i < left.length :=
        (List.getElem?_eq_some_iff.mp here).1.trans_le high
      have start := exact _ (List.getElem_mem present)
      rw [List.getElem?_eq_getElem present]
      simp only [Option.map_some, ← start, Nat.add_assoc, List.drop_length_add_append]
  · rfl

theorem length_edged (p : Panel) (l r : Char) (inside : Row) :
    (p.edged l r inside).length = inside.length + 2 := by
  simp [Panel.edged]

theorem length_draw_row (wide : 2 ≤ width) : ∀ row ∈ p.draw width height, row.length = width := by
  intro row held
  simp only [Panel.draw, List.cons_append, List.mem_cons, List.mem_append, List.mem_map, List.not_mem_nil,
    or_false] at held
  rcases held with rfl | ⟨_, ⟨line, -, rfl⟩, rfl⟩ | rfl
  · rw [length_edged, Row.length_fit]
    omega
  · rw [length_edged, TextLine.draw, Row.length_fit]
    omega
  · rw [length_edged, Row.length_fit]
    omega

/-- **Inside of its frame a panel shows its lines.** -/
theorem inside_draw (p : Panel) (width height : Nat) :
    (p.draw width height).inside ⟨0, 0, width, height⟩ = p.rows (width - 2) (height - 2) := by
  have length : (p.rows (width - 2) (height - 2)).length = height - 2 := by
    simp [Panel.rows, List.rightpad]
  have stripped (l r : Char) (inside : Row) (fits : inside.length = width - 2) :
      ((p.edged l r inside).drop 1).take (width - 2) = inside := by
    rw [Panel.edged, List.cons_append, List.drop_succ_cons, List.drop_zero, ← fits, List.take_left]
  have unframed : (p.rows (width - 2) (height - 2)).map
      (fun row => ((p.edged '│' '│' row).drop 1).take (width - 2)) = p.rows (width - 2) (height - 2) := by
    refine (List.map_congr_left fun row held => ?_).trans (List.map_id _)
    obtain ⟨line, -, rfl⟩ := List.mem_map.mp held
    exact stripped _ _ _ (Row.length_fit _ _ _)
  have body : p.draw width height = p.edged '┌' '┐' ((Row.styled p.frame p.title).fit (width - 2) ⟨'─', p.frame⟩) ::
      (p.rows (width - 2) (height - 2)).map (p.edged '│' '│') ++
        [p.edged '└' '┘' (Row.fit (width - 2) ⟨'─', p.frame⟩ [])] := rfl
  have fits : height - 2 = ((p.rows (width - 2) (height - 2)).map (p.edged '│' '│')).length := by
    rw [List.length_map, length]
  rw [Screen.inside, body, List.cons_append, List.drop_succ_cons, List.drop_zero]
  dsimp only
  rw [Nat.zero_add, List.take_append_of_le_length fits.le, List.take_of_length_le fits.ge, List.map_map]
  exact unframed

/-- The lines of a panel with room for all of them, and empty ones below. -/
theorem rows_of_fits (fits : p.lines.length ≤ height) :
    p.rows width height = p.lines.map (·.draw width) ++
      List.replicate (height - p.lines.length) ((TextLine.styled {} "").draw width) := by
  rw [Panel.rows, List.take_of_length_le fits, List.rightpad, List.map_append, List.map_replicate]

theorem getElem?_rows (fits : p.lines.length ≤ height) (shown : (p.rows width height)[i]? = some row) :
    i < height ∧ row = (p.lines[i]?.getD (.styled {} "")).draw width := by
  rw [rows_of_fits fits, List.getElem?_append, List.length_map, List.getElem?_map,
    List.getElem?_replicate] at shown
  split at shown
  · rename_i listed
    rw [List.getElem?_eq_getElem listed] at shown ⊢
    exact ⟨by omega, (Option.some.inj shown).symm⟩
  · rename_i below
    rw [List.getElem?_eq_none (Nat.le_of_not_lt below)]
    split at shown
    · exact ⟨by omega, (Option.some.inj shown).symm⟩
    · cases shown

/-! ## Lines in one style -/

theorem draw_styled (style : Style) (text : String) (width : Nat) :
    (TextLine.styled style text).draw width =
      ((text.toList.take width).rightpad width ' ').map (⟨·, style⟩) := by
  simp [TextLine.draw, TextLine.styled, Row.styled, Row.fit, List.rightpad, List.map_take]

theorem reads_styled (style : Style) (text : String) (width : Nat) :
    ((TextLine.styled style text).draw width).Reads width text := by
  rw [Row.Reads, Row.chars, draw_styled, List.map_map]
  exact List.map_id _

theorem style_styled (style : Style) (text : String) (width : Nat) :
    ∀ cell ∈ (TextLine.styled style text).draw width, cell.style = style := by
  rw [draw_styled]
  exact List.forall_mem_map.mpr fun _ _ => rfl

theorem unlit_styled {style : Style} (other : style ≠ currentStyle) (text : String) (width : Nat) :
    ((TextLine.styled style text).draw width).Unlit :=
  fun cell held => style_styled style text width cell held ▸ other

/-- The third place of a line. -/
theorem third_styled (style : Style) {text : String} {a b c : Char} {rest : List Char}
    (starts : text.toList = a :: b :: c :: rest) (wide : 2 < width) :
    ((TextLine.styled style text).draw width).chars[2]? = some c := by
  obtain ⟨more, rfl⟩ : ∃ more, width = more + 3 := ⟨width - 3, by omega⟩
  rw [reads_styled style text, starts]
  rfl

theorem not_lit_of_unlit {text : String} (reads : row.Reads room text) (some : 0 < room) (unlit : row.Unlit) :
    ¬ row.Lit := by
  intro lit
  have length : row.length = room := by
    have same := congrArg List.length reads
    rw [Row.chars, List.length_map] at same
    rw [same]
    simp [List.rightpad]
  obtain ⟨cell, held⟩ := List.exists_mem_of_length_pos (length ▸ some)
  exact unlit cell held (lit cell held)

/-! ## The two frames of a screen -/

/-- Both parts of a screen are as high as it is. -/
theorem length_parts (d : Debugger) (left right : Nat) (tall : 30 ≤ height) :
    ((d.listingPanel (height - 3 - 2)).draw left (height - 3) ++ d.statusPanel.draw left 3).length = height ∧
      (d.registersPanel.draw right 19 ++ (d.memoryPanel (height - 23 - 2)).draw right (height - 23) ++
        helpPanel.draw right 4).length = height := by
  simp only [List.length_append, Panel.length_draw _ (show 2 ≤ height - 3 by omega),
    Panel.length_draw _ (show 2 ≤ height - 23 by omega), Panel.length_draw _ (show 2 ≤ 3 by decide),
    Panel.length_draw _ (show 2 ≤ 19 by decide), Panel.length_draw _ (show 2 ≤ 4 by decide)]
  omega

theorem shownListing_eq (wide : 0 < width) (even : 20 ∣ width) (tall : 30 ≤ height) :
    d.shownListing width height = (d.listingPanel (height - 5)).rows (width * 11 / 20 - 2) (height - 5) := by
  have column : 2 ≤ width * 11 / 20 := by omega
  have rows : 2 ≤ height - 3 := by omega
  obtain ⟨left, right⟩ := length_parts d (width * 11 / 20) (width - width * 11 / 20) tall
  rw [shownListing, screen, listingFrame, inside_beside_left (left.trans right.symm).le _ column,
    inside_append_above _ rows, inside_draw]
  · rfl
  · exact (Nat.zero_add _).trans_le (Panel.length_draw _ rows).ge
  · intro row held
    rw [Nat.zero_add]
    rcases List.mem_append.mp held with held | held <;> exact (length_draw_row column row held).ge

theorem shownMemory_eq (wide : 0 < width) (even : 20 ∣ width) (tall : 30 ≤ height) :
    d.shownMemory width height =
      (d.memoryPanel (height - 25)).rows (width - width * 11 / 20 - 2) (height - 25) := by
  have column : 2 ≤ width * 11 / 20 := by omega
  have rows : 2 ≤ height - 23 := by omega
  have above : (d.registersPanel.draw (width - width * 11 / 20) 19).length = 19 :=
    Panel.length_draw _ (by decide)
  obtain ⟨left, right⟩ := length_parts d (width * 11 / 20) (width - width * 11 / 20) tall
  refine (inside_beside_right (right.trans left.symm).le ?_ ⟨19, 0, _, _⟩).trans ?_
  · intro row held
    rcases List.mem_append.mp held with held | held <;> exact length_draw_row column row held
  · rw [inside_append_above _ rows]
    · exact (inside_append_below above _ ⟨0, 0, _, _⟩).trans (inside_draw _ _ _)
    · rw [List.length_append, above, Panel.length_draw _ rows]

/-! ## The listing -/

/-- One line is current, the one at the program counter as long as that is in memory. -/
theorem current_listed (d : Debugger) {count : Nat} (some : 0 < count) :
    ((d.listing count).filter (·.current)).map (·.address) =
      if d.machine.pc.toNat < d.machine.memory.size then [d.machine.pc.toNat] else [] := by
  obtain ⟨first, shown, current⟩ := listing_window d count
  obtain ⟨start, stop, follow, within⟩ := follow_linesNearPc d count
  rw [shown, current_entries (((ascending_follow follow).drop (i := first)).take (i := count))]
  refine if_congr ⟨?_, current some⟩ rfl rfl
  rintro ⟨line, held, place⟩
  have listed := mem_follow follow (List.mem_of_mem_drop (List.mem_of_mem_take held))
  exact place ▸ Nat.lt_of_lt_of_le listed.2.2 within

/-- The current line tells what is read at the program counter. -/
theorem reads_current {count : Nat} {line : ListedLine} (listed : line ∈ d.listing count)
    (current : line.current = true) :
    line.address = d.machine.pc.toNat ∧ line.text = d.machine.memory.textAt d.machine.pc := by
  obtain ⟨first, shown, -⟩ := listing_window d count
  obtain ⟨start, stop, follow, -⟩ := follow_linesNearPc d count
  rw [shown] at listed
  obtain ⟨source, held, rfl⟩ := List.mem_map.mp listed
  have place : source.address = d.machine.pc.toNat := beq_iff_eq.mp current
  refine ⟨place, ?_⟩
  rw [← OneReading.text_lineAt, ← place]
  exact congrArg SourceLine.text (mem_follow follow (List.mem_of_mem_drop (List.mem_of_mem_take held))).1

/-- What stands in a line of the listing, whose style tells whether it is current. -/
theorem listedLine_eq (d : Debugger) (line : ListedLine) : ∃ style label,
    d.listedLine line = .styled style ((if d.breakpoints.contains (UInt64.ofNat line.address) then "● " else "  ") ++
      (if line.current then "▶ " else "  ") ++ Numeral.hex 3 line.address ++ ": " ++ line.text ++ label) ∧
      (style = currentStyle ↔ line.current = true) := by
  refine ⟨_, _, rfl, ?_⟩
  cases line.current with
  | true => exact iff_of_true rfl rfl
  | false => cases d.breakpoints.contains (UInt64.ofNat line.address) <;> decide

/-- A line of the listing is marked if it is current, and otherwise not in any way. -/
theorem marks_listed (d : Debugger) (line : ListedLine) (wide : 2 < room) :
    if line.current then ((d.listedLine line).draw room).Marked else ((d.listedLine line).draw room).Unmarked := by
  obtain ⟨style, label, same, current⟩ := listedLine_eq d line
  have third : ((d.listedLine line).draw room).chars[2]? = some (if line.current then '▶' else ' ') := by
    rw [same]
    simp only [String.append_assoc]
    cases d.breakpoints.contains (UInt64.ofNat line.address) <;> cases line.current <;>
      exact third_styled _ (by simp only [String.toList_append]; rfl) wide
  split
  · rename_i isCurrent
    rw [if_pos isCurrent] at third
    refine ⟨?_, third⟩
    rw [same, current.mpr isCurrent]
    exact style_styled _ _ _
  · rename_i other
    rw [if_neg other] at third
    refine ⟨?_, by rw [third]; decide⟩
    rw [same]
    exact unlit_styled (mt current.mp other) _ _

theorem not_marked (unmarked : row.Unmarked) : ¬ row.Marked := fun marked => unmarked.2 marked.2

theorem marked_iff (d : Debugger) (line : ListedLine) (wide : 2 < room) :
    ((d.listedLine line).draw room).Marked ↔ line.current = true := by
  have marks := marks_listed d line wide
  split at marks
  · rename_i current
    exact iff_of_true marks current
  · rename_i other
    exact iff_of_false (not_marked marks) other

theorem unmarked_blank (room : Nat) : ((TextLine.styled {} "").draw room).Unmarked := by
  refine ⟨unlit_styled (by decide) _ _, fun arrow => ?_⟩
  rw [reads_styled] at arrow
  have blank : (List.replicate room ' ')[2]? = some '▶' := by simpa [List.rightpad] using arrow
  exact absurd (List.eq_of_mem_replicate (List.mem_of_getElem? blank)) (by decide)

/-- The rows of the listing stand for its lines, and blank ones follow. -/
theorem rows_listing (d : Debugger) (room count : Nat) : ∃ blanks,
    (d.listingPanel count).rows room count = (d.listing count).map (fun line => (d.listedLine line).draw room) ++
      List.replicate blanks ((TextLine.styled {} "").draw room) := by
  obtain ⟨first, shown, -⟩ := listing_window d count
  have fits : (d.listingPanel count).lines.length ≤ count := by
    rw [listingPanel, List.length_map, shown, List.length_map]
    exact List.length_take_le _ _
  refine ⟨count - (d.listingPanel count).lines.length, ?_⟩
  rw [rows_of_fits fits, listingPanel, List.map_map]
  rfl

/-- As many rows are marked as there are current lines. -/
theorem countP_marked (d : Debugger) {count : Nat} (wide : 2 < room) (some : 0 < count) :
    ((d.listingPanel count).rows room count).countP (·.Marked) =
      if d.machine.pc.toNat < d.machine.memory.size then 1 else 0 := by
  obtain ⟨blanks, rows⟩ := rows_listing d room count
  have blank : (List.replicate blanks ((TextLine.styled {} "").draw room)).countP (·.Marked) = 0 := by
    refine List.countP_eq_zero.mpr fun row held => ?_
    rw [List.eq_of_mem_replicate held, decide_eq_true_iff]
    exact not_marked (unmarked_blank room)
  have each (line : ListedLine) : decide ((d.listedLine line).draw room).Marked = line.current :=
    Bool.eq_iff_iff.mpr (decide_eq_true_iff.trans (marked_iff d line wide))
  have current := congrArg List.length (current_listed d some)
  rw [List.length_map, ← List.countP_eq_length_filter] at current
  rw [rows, List.countP_append, blank, List.countP_map, Nat.add_zero]
  simp only [Function.comp_def, each, current]
  split <;> rfl

/-- Every row of the listing is marked or not, and the marked one tells what is read at the
program counter. -/
theorem listing_row (d : Debugger) {count : Nat} (wide : 2 < room)
    (held : row ∈ (d.listingPanel count).rows room count) :
    row.Unmarked ∨ row.Marked ∧ d.TellsCurrent room row := by
  obtain ⟨blanks, rows⟩ := rows_listing d room count
  rw [rows] at held
  rcases List.mem_append.mp held with listed | blank
  · obtain ⟨line, chosen, rfl⟩ := List.mem_map.mp listed
    have marks := marks_listed d line wide
    split at marks
    · rename_i current
      obtain ⟨style, label, same, -⟩ := listedLine_eq d line
      obtain ⟨place, text⟩ := reads_current chosen current
      refine .inr ⟨marks, label, ?_⟩
      rw [same, current, place, text, UInt64.ofNat_toNat]
      exact reads_styled _ _ _
    · exact .inl marks
  · exact .inl (List.eq_of_mem_replicate blank ▸ unmarked_blank room)

/-! ## Memory -/

/-- What stands in the line of a word, whose style tells whether the program counter is
in it. -/
theorem memoryLine_eq (m : Machine) (address value : Word) : ∃ style,
    memoryLine m address value = .styled style
      ((if address.toNat = m.stackPointer.toNat then "rsp→" else "    ") ++ Numeral.hex 4 address.toNat ++ ": " ++
        Numeral.hexDigits 16 value.toNat) ∧
      (style = currentStyle ↔ address.toNat ≤ m.pc.toNat ∧ m.pc.toNat < address.toNat + 8) := by
  have same : (address.toNat = m.stackPointer.toNat) = (address = m.stackPointer) := propext UInt64.toNat_inj
  simp only [same]
  refine ⟨_, rfl, ?_⟩
  by_cases holds : address.toNat ≤ m.pc.toNat ∧ m.pc.toNat < address.toNat + 8
  · exact iff_of_true (if_pos holds) holds
  · refine iff_of_false (fun marked => ?_) holds
    have plain := (if_neg holds).symm.trans marked
    split at plain <;> cases plain

theorem shows_read {address value : Word} (inside : address.toNat + 8 ≤ d.machine.memory.size)
    (read : d.machine.memory.readWord address = .ok value) :
    d.ShowsWord address.toNat room ((memoryLine d.machine address value).draw room) := by
  obtain ⟨style, same, current⟩ := memoryLine_eq d.machine address value
  rw [ShowsWord, if_pos inside, UInt64.ofNat_toNat, same]
  refine ⟨⟨value, read, reads_styled _ _ _⟩, ?_⟩
  split
  · rename_i holds
    exact current.mpr holds ▸ style_styled _ _ _
  · rename_i elsewhere
    exact unlit_styled (mt current.mp elsewhere) _ _

theorem shows_nothing {address : Nat} (cut : ¬ address + 8 ≤ d.machine.memory.size) :
    d.ShowsWord address room ((TextLine.styled {} "").draw room) := by
  rw [ShowsWord, if_neg cut]
  exact ⟨reads_styled _ _ _, unlit_styled (by decide) _ _⟩

/-- **A row of memory shows the word at its address.** -/
theorem shows_word (d : Debugger) {count i : Nat} (scrolled : d.memoryScroll < 2 ^ 60) (few : count ≤ 2 ^ 60)
    (shown : ((d.memoryPanel count).rows room count)[i]? = some row) :
    d.ShowsWord (8 * (d.memoryScroll + i)) room row := by
  have start : (UInt64.ofNat (d.memoryScroll * 8)).toNat = 8 * d.memoryScroll := by
    rw [UInt64.toNat_ofNat_of_lt' (by change _ < 2 ^ 64; omega), Nat.mul_comm]
  have counts : Counts d.machine.memory (UInt64.ofNat (d.memoryScroll * 8)).toNat count := by
    rw [Counts, start, show Word.limit Word.width = 2 ^ 64 from rfl]
    omega
  have lines : (d.memoryPanel count).lines =
      (d.machine.memory.dump (UInt64.ofNat (d.memoryScroll * 8)) count).map
        (fun row => memoryLine d.machine row.1 row.2) := rfl
  have fits : (d.memoryPanel count).lines.length ≤ count := by
    rw [lines, List.length_map, length_dump counts]
    exact Nat.min_le_left _ _
  obtain ⟨asked, rfl⟩ := getElem?_rows fits shown
  have dumped := getElem?_dump counts i
  rw [start, ← Nat.mul_add] at dumped
  rw [lines, List.getElem?_map]
  cases listed : (d.machine.memory.dump (UInt64.ofNat (d.memoryScroll * 8)) count)[i]? with
  | some word =>
    obtain ⟨-, inside, place, read⟩ := (dumped word).mp listed
    rw [← place] at inside ⊢
    exact shows_read inside read
  | none =>
    refine shows_nothing fun inside => ?_
    have address : (UInt64.ofNat (8 * (d.memoryScroll + i))).toNat = 8 * (d.memoryScroll + i) :=
      UInt64.toNat_ofNat_of_lt' (by change _ < 2 ^ 64; omega)
    have there :=
      (dumped (_, _)).mpr ⟨asked, inside, address, Memory.readWord_inside (address.symm ▸ inside)⟩
    rw [listed] at there
    cases there

/-- A row is lit only where the program counter is in its word. -/
theorem holds_of_lit {address : Nat} (shows : d.ShowsWord address room row) (some : 0 < room)
    (lit : row.Lit) :
    address ≤ d.machine.pc.toNat ∧ d.machine.pc.toNat < address + 8 := by
  rw [ShowsWord] at shows
  split at shows
  · obtain ⟨⟨value, -, reads⟩, style⟩ := shows
    split at style
    · assumption
    · exact absurd lit (not_lit_of_unlit reads some style)
  · exact absurd lit (not_lit_of_unlit shows.1 some shows.2)

theorem countP_le_one {α : Type} {p : α → Bool} {xs : List α}
    (once : ∀ (i j : Nat) (x y : α), xs[i]? = some x → xs[j]? = some y → p x = true → p y = true → i = j) :
    xs.countP p ≤ 1 := by
  induction xs with
  | nil => exact Nat.zero_le _
  | cons x xs ih =>
    rw [List.countP_cons]
    split
    · rename_i here
      have none : xs.countP p = 0 := by
        refine List.countP_eq_zero.mpr fun y held there => ?_
        obtain ⟨j, place⟩ := List.mem_iff_getElem?.mp held
        exact Nat.zero_ne_add_one j (once 0 (j + 1) x y rfl place here there)
      rw [none]
    · exact ih fun i j x y first second here there =>
        Nat.succ.inj (once (i + 1) (j + 1) x y first second here there)

/-- **The screen marks the program counter.** Inside of the frame of the listing one row is
bold and yellow and carries the arrow if the program counter is in memory, and otherwise
none; it tells what is read there. Inside of the frame of memory each row shows the word
at its address if the whole of it is in memory, and otherwise nothing, and is bold and
yellow exactly if the program counter is in that word. No screen comes near the bound on
its height, which keeps the addresses of the rows below `2 ^ 64`. -/
theorem program_counter_marked (d : Debugger) {width height : Nat} (scrolled : d.memoryScroll < 2 ^ 60)
    (wide : 0 < width) (even : 20 ∣ width) (tall : 30 ≤ height) (bounded : height ≤ 2 ^ 60) :
    ((d.shownListing width height).countP (·.Marked) =
      if d.machine.pc.toNat < d.machine.memory.size then 1 else 0) ∧
    (∀ row ∈ d.shownListing width height,
      row.Unmarked ∨ row.Marked ∧ d.TellsCurrent ((listingFrame width height).width - 2) row) ∧
    (d.shownMemory width height).length = height - 25 ∧
    (∀ i row, (d.shownMemory width height)[i]? = some row →
      d.ShowsWord (8 * (d.memoryScroll + i)) ((memoryFrame width height).width - 2) row) ∧
    (d.shownMemory width height).countP (·.Lit) ≤ 1 := by
  have listing : 2 < width * 11 / 20 - 2 := by omega
  have memory : 0 < width - width * 11 / 20 - 2 := by omega
  have lines : 0 < height - 5 := by omega
  have few : height - 25 ≤ 2 ^ 60 := by omega
  rw [shownListing_eq wide even tall, shownMemory_eq wide even tall]
  refine ⟨countP_marked d listing lines, fun row held => listing_row d listing held, ?_,
    fun i row shown => shows_word d scrolled few shown, ?_⟩
  · simp [Panel.rows, List.rightpad]
  · refine countP_le_one fun i j row other first second lit alsoLit => ?_
    have here := holds_of_lit (shows_word d scrolled few first) memory (of_decide_eq_true lit)
    have there := holds_of_lit (shows_word d scrolled few second) memory (of_decide_eq_true alsoLit)
    omega

/-- A debugger scrolled to the last whole word of memory, with the program counter in it. -/
def atLastWord : Debugger where
  machine := { OneReading.beforePush with memory := .zeroed 20, pc := 9 }
  image := {}
  message := .ready
  memoryScroll := 1

/-- On the smallest screen one row of the listing is marked, and the first of five rows of
memory is lit. -/
theorem program_counter_marked_atLastWord :
    (atLastWord.memoryScroll < 2 ^ 60 ∧ 0 < 20 ∧ 20 ∣ 20 ∧ 30 ≤ 30 ∧ 30 ≤ 2 ^ 60) ∧
      (atLastWord.shownListing 20 30).countP (·.Marked) = 1 ∧
      ∃ row, (atLastWord.shownMemory 20 30)[0]? = some row ∧ row.Lit := by
  have fits : atLastWord.memoryScroll < 2 ^ 60 ∧ 0 < 20 ∧ 20 ∣ 20 ∧ 30 ≤ 30 ∧ 30 ≤ 2 ^ 60 := by decide
  obtain ⟨scrolled, wide, even, tall, bounded⟩ := fits
  obtain ⟨listed, -, length, words, -⟩ := program_counter_marked atLastWord scrolled wide even tall bounded
  have present : 0 < (atLastWord.shownMemory 20 30).length := by
    rw [length]
    decide
  have first := List.getElem?_eq_getElem present
  have shows := words 0 _ first
  rw [ShowsWord, if_pos (by decide)] at shows
  obtain ⟨-, lit⟩ := shows
  rw [if_pos (by decide)] at lit
  exact ⟨⟨scrolled, wide, even, tall, bounded⟩, listed, _, first, lit⟩

end ScreenMarks

end Y86Toolkit
