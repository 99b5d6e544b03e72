import Mathlib.Data.List.DropRight
import Mathlib.Data.List.TakeDrop
import Y86Toolkit.Text.Blank
import Y86Toolkit.Text.Lines

/-!
Taking texts apart. Splitting at a mark undoes putting pieces together with it,
lines survive being written one below the other, and trimming twice is trimming
once.
-/

namespace Y86Toolkit.Texts
open Text

variable {mark : Char}

/-- Texts written one behind the other. -/
theorem toList_foldl_append {α : Type} (write : α → String) (text : String) (items : List α) :
    (items.foldl (fun text item => text ++ write item) text).toList =
      text.toList ++ items.flatMap fun item => (write item).toList := by
  induction items generalizing text with
  | nil => simp
  | cons item rest ih =>
    rw [List.foldl_cons, ih, String.toList_append, List.flatMap_cons, List.append_assoc]

/-! ## Pieces -/

private theorem go_eq_splitOnPPrepend (piece : List Char) (done : List (List Char)) (cs : List Char) :
    pieces.go mark piece done cs = done.reverse ++ cs.splitOnPPrepend (· == mark) piece := by
  induction cs generalizing piece done with
  | nil => simp [pieces.go]
  | cons c rest ih =>
    by_cases marked : c = mark
    · rw [pieces.go, if_pos marked, ih, List.splitOnPPrepend_cons_pos (by simpa using marked)]
      simp
    · rw [pieces.go, if_neg marked, ih, List.splitOnPPrepend_cons_neg (by simpa using marked)]

theorem pieces_eq_splitOn (cs : List Char) : pieces mark cs = cs.splitOn mark := by
  rw [pieces, go_eq_splitOnPPrepend, List.splitOn_eq_splitOnP, List.splitOnP_eq_splitOnPPrepend]
  rfl

theorem pieces_ne_nil (mark : Char) (cs : List Char) : pieces mark cs ≠ [] := by
  rw [pieces_eq_splitOn]
  exact List.splitOn_ne_nil mark cs

/-- A text without marks is one piece. -/
theorem pieces_unmarked {cs : List Char} (unmarked : mark ∉ cs) : pieces mark cs = [cs] := by
  rw [pieces_eq_splitOn, List.splitOn_eq_singleton unmarked]

/-- The first piece ends at the first mark, and the others come from behind it. -/
theorem pieces_append {before : List Char} (unmarked : mark ∉ before) (after : List Char) :
    pieces mark (before ++ mark :: after) = before :: pieces mark after := by
  rw [pieces_eq_splitOn, pieces_eq_splitOn, List.splitOn_append_cons_self_of_not_mem unmarked]

/-- A text is without marks, or goes on behind the first one. -/
theorem piecewise (mark : Char) {motive : List Char → Prop} (unmarked : ∀ cs, mark ∉ cs → motive cs)
    (marked : ∀ before after, mark ∉ before → motive after → motive (before ++ mark :: after))
    (cs : List Char) : motive cs := by
  by_cases held : mark ∈ cs
  · obtain ⟨before, after, rfl, free⟩ := List.eq_append_cons_of_mem held
    exact marked before after free (piecewise mark unmarked marked after)
  · exact unmarked cs held
termination_by cs.length
decreasing_by
  subst cs
  simp only [List.length_append, List.length_cons]
  omega

/-- The pieces in front of a mark, and then those behind it. -/
theorem pieces_between (cs after : List Char) :
    pieces mark (cs ++ mark :: after) = pieces mark cs ++ pieces mark after := by
  induction cs using piecewise mark with
  | unmarked cs free => rw [pieces_append free, pieces_unmarked free, List.singleton_append]
  | marked before behind free ih =>
    rw [List.append_assoc, List.cons_append, pieces_append free, pieces_append free, ih, List.cons_append]

/-- What is written behind a text and has no mark of its own belongs to the last
piece, whatever it is. -/
theorem exists_pieces_append (cs : List Char) :
    ∃ front last, ∀ ending : List Char, mark ∉ ending →
      pieces mark (cs ++ ending) = front ++ [last ++ ending] := by
  induction cs using piecewise mark with
  | unmarked cs free =>
    refine ⟨[], cs, fun ending more => ?_⟩
    exact pieces_unmarked fun held => (List.mem_append.mp held).elim free more
  | marked before after free ih =>
    obtain ⟨front, last, split⟩ := ih
    refine ⟨before :: front, last, fun ending more => ?_⟩
    rw [List.append_assoc, List.cons_append, pieces_append free, split ending more, List.cons_append]

/-- No piece holds a mark. -/
theorem mark_not_mem {piece cs : List Char} (isPiece : piece ∈ pieces mark cs) : mark ∉ piece := by
  induction cs using piecewise mark with
  | unmarked cs free =>
    rw [pieces_unmarked free] at isPiece
    cases List.mem_singleton.mp isPiece
    exact free
  | marked before after free ih =>
    rw [pieces_append free] at isPiece
    rcases List.mem_cons.mp isPiece with rfl | later
    · exact free
    · exact ih later

/-- The last piece comes behind the last mark. -/
theorem exists_last_piece (mark : Char) (cs : List Char) :
    ∃ front last, cs = front ++ last ∧ (∀ c ∈ front.getLast?, c = mark) ∧ mark ∉ last ∧
      (pieces mark cs).getLastD [] = last := by
  induction cs using piecewise mark with
  | unmarked cs free => exact ⟨[], cs, rfl, nofun, free, by rw [pieces_unmarked free]; rfl⟩
  | marked before after free ih =>
    obtain ⟨front, last, rfl, ends, unmarked, same⟩ := ih
    refine ⟨before ++ mark :: front, last, by simp, fun c isLast => ?_, unmarked, ?_⟩
    · cases front with
      | nil => simpa [eq_comm] using isLast
      | cons d front => exact ends c (by simpa using isLast)
    · obtain ⟨piece, pieces, split⟩ := List.exists_cons_of_ne_nil (pieces_ne_nil mark (front ++ last))
      rw [pieces_append free, split, List.getLastD_cons, ← same, split, List.getLastD_cons, List.getLastD_cons]

/-! ## Lines -/

private theorem pieces_flatMap {ls : List (List Char)} (whole : ∀ l ∈ ls, mark ∉ l) :
    pieces mark (ls.flatMap (· ++ [mark])) = ls ++ [[]] := by
  induction ls with
  | nil => exact pieces_unmarked List.not_mem_nil
  | cons l rest ih =>
    have unmarked : mark ∉ l := whole l List.mem_cons_self
    have others : ∀ k ∈ rest, mark ∉ k := fun k held => whole k (List.mem_cons_of_mem l held)
    rw [List.flatMap_cons, List.append_assoc, List.singleton_append, pieces_append unmarked, ih others]
    rfl

/-- Lines written one below the other are the lines of the text they make. -/
theorem lines_flatMap {ls : List (List Char)} (whole : ∀ l ∈ ls, '\n' ∉ l) :
    lines (ls.flatMap (· ++ ['\n'])) = ls := by
  simp only [lines, pieces_flatMap whole, List.reverse_append, List.reverse_singleton,
    List.singleton_append, List.reverse_reverse]

/-- Lines between which line feeds are put are the lines of the text they make,
unless there are empty ones. -/
theorem lines_intercalate {ls : List (List Char)} (whole : ∀ l ∈ ls, '\n' ∉ l) (full : ∀ l ∈ ls, l ≠ []) :
    lines (['\n'].intercalate ls) = ls := by
  by_cases none : ls = []
  · rw [none]
    rfl
  · rw [lines, pieces_eq_splitOn, List.splitOn_intercalate '\n' whole none]
    split
    · rename_i complete ends
      have empty : [] ∈ ls := List.mem_reverse.mp (ends ▸ List.mem_cons_self)
      exact absurd rfl (full [] empty)
    · rw [List.reverse_reverse]

theorem mem_pieces_of_mem_lines {line cs : List Char} (isLine : line ∈ lines cs) :
    line ∈ pieces '\n' cs := by
  unfold lines at isLine
  split at isLine
  · rename_i complete ends
    have held : line ∈ (pieces '\n' cs).reverse := by
      rw [ends]
      exact List.mem_cons_of_mem _ (List.mem_reverse.mp isLine)
    exact List.mem_reverse.mp held
  · simpa using isLine

/-- No line holds a line feed. -/
theorem lineFeed_not_mem {line cs : List Char} (isLine : line ∈ lines cs) : '\n' ∉ line :=
  mark_not_mem (mem_pieces_of_mem_lines isLine)

/-- The last piece counts as a line unless it is empty. -/
theorem pieces_eq_lines (cs : List Char) :
    pieces '\n' cs = lines cs ∨ pieces '\n' cs = lines cs ++ [[]] := by
  unfold lines
  split
  · rename_i complete ends
    refine .inr ?_
    rw [← List.reverse_cons, ← ends, List.reverse_reverse]
  · exact .inl (List.reverse_reverse _).symm

/-- Behind a line feed the lines of another text go on. -/
theorem lines_append (cs ds : List Char) : lines (cs ++ '\n' :: ds) = pieces '\n' cs ++ lines ds := by
  have some := pieces_ne_nil '\n' ds
  rw [lines, pieces_between, List.reverse_append]
  obtain ⟨last, front, ends⟩ := List.exists_cons_of_ne_nil (List.reverse_ne_nil_iff.mpr some)
  unfold lines
  rw [ends]
  cases last <;> simp

/-- Of a text around a line without line feeds, the line is one, whatever it holds. -/
theorem exists_lines_around {above below : List Char} (starts : ∀ c ∈ above.getLast?, c = '\n')
    (ends : ∀ c ∈ below.head?, c = '\n') :
    ∃ before after, ∀ line, line ≠ [] → '\n' ∉ line →
      lines (above ++ line ++ below) = before ++ line :: after := by
  have behind : ∃ after, ∀ line, line ≠ [] → '\n' ∉ line → lines (line ++ below) = line :: after := by
    cases below with
    | nil =>
      refine ⟨[], fun line some whole => ?_⟩
      rw [List.append_nil, lines, pieces_unmarked whole]
      simp [some]
    | cons c below =>
      cases ends c rfl
      exact ⟨lines below,
        fun line _ whole => by rw [lines_append, pieces_unmarked whole, List.singleton_append]⟩
  obtain ⟨after, behind⟩ := behind
  rcases List.eq_nil_or_concat' above with rfl | ⟨above, c, rfl⟩
  · exact ⟨[], after, behind⟩
  · cases starts c (by simp)
    refine ⟨pieces '\n' above, after, fun line some whole => ?_⟩
    rw [List.append_assoc, ← List.append_cons, lines_append, behind line some whole]

/-- Where a line stands in a text. -/
theorem exists_around_line {cs line : List Char} {k : Nat} (isLine : (lines cs)[k]? = some line) :
    ∃ above below, cs = above ++ line ++ below ∧ (∀ c ∈ above.getLast?, c = '\n') ∧
      (∀ c ∈ below.head?, c = '\n') ∧ lines above = (lines cs).take k := by
  induction cs using piecewise '\n' generalizing k with
  | unmarked cs free =>
    obtain rfl : line = cs := by
      have isPiece := mem_pieces_of_mem_lines (List.mem_of_getElem? isLine)
      rw [pieces_unmarked free] at isPiece
      exact List.mem_singleton.mp isPiece
    obtain rfl : k = 0 := by
      have short : (lines line).length ≤ 1 := by
        have all := congrArg List.length (pieces_unmarked free)
        rcases pieces_eq_lines line with same | more
        · rw [← same, all, List.length_singleton]
        · rw [more, List.length_append] at all
          exact (Nat.le_add_right _ _).trans all.le
      exact Nat.lt_one_iff.mp ((List.getElem?_eq_some_iff.mp isLine).1.trans_le short)
    exact ⟨[], [], by simp, nofun, nofun, rfl⟩
  | marked before after free ih =>
    rw [lines_append, pieces_unmarked free, List.singleton_append] at isLine ⊢
    cases k with
    | zero =>
      cases isLine
      exact ⟨[], '\n' :: after, rfl, nofun, fun c first => (Option.some.inj first).symm, rfl⟩
    | succ k =>
      obtain ⟨above, below, rfl, ends, starts, same⟩ := ih isLine
      refine ⟨before ++ '\n' :: above, below, by simp, fun c last => ?_, starts, ?_⟩
      · cases above with
        | nil => simpa [eq_comm] using last
        | cons d above => exact ends c (by simpa using last)
      · rw [lines_append, pieces_unmarked free, same, List.singleton_append, List.take_succ_cons]

/-! ## The first mark -/

/-- What stands before and after the first mark. -/
theorem splitAtFirst_append {before : List Char} (unmarked : mark ∉ before) (after : List Char) :
    splitAtFirst mark (before ++ mark :: after) = some (before, after) := by
  have other : ∀ c ∈ before, (c != mark) = true := by
    intro c held
    exact bne_iff_ne.mpr (ne_of_mem_of_not_mem held unmarked)
  simp [splitAtFirst, List.span_eq_takeWhile_dropWhile, List.takeWhile_append_of_pos other,
    List.dropWhile_append_of_pos other]

theorem splitAtFirst_eq_some {cs before after : List Char}
    (found : splitAtFirst mark cs = some (before, after)) : cs = before ++ mark :: after := by
  unfold splitAtFirst at found
  rw [List.span_eq_takeWhile_dropWhile] at found
  split at found
  · cases found
  · rename_i start c rest parts
    cases found
    obtain ⟨rfl, tail⟩ := Prod.mk.inj parts
    have stops : c = mark := by
      have first := List.head?_dropWhile_not (· != mark) cs
      simpa [tail] using first
    subst stops
    rw [← tail, List.takeWhile_append_dropWhile]

/-- What stands before the first mark holds none. -/
theorem mark_not_mem_before {cs before after : List Char}
    (found : splitAtFirst mark cs = some (before, after)) : mark ∉ before := by
  have taken : before = cs.takeWhile (· != mark) := by
    unfold splitAtFirst at found
    rw [List.span_eq_takeWhile_dropWhile] at found
    split at found
    · cases found
    · rename_i start c rest parts
      cases found
      exact (Prod.mk.inj parts).1.symm
  intro held
  rw [taken] at held
  simpa using List.all_eq_true.mp List.all_takeWhile mark held

theorem splitAtFirst_eq_none_iff {cs : List Char} : splitAtFirst mark cs = none ↔ mark ∉ cs := by
  constructor
  · intro none marked
    obtain ⟨before, after, rfl, unmarked⟩ := List.eq_append_cons_of_mem marked
    rw [splitAtFirst_append unmarked] at none
    cases none
  · intro unmarked
    cases found : splitAtFirst mark cs with
    | none => rfl
    | some parts =>
      refine absurd ?_ unmarked
      rw [splitAtFirst_eq_some found]
      exact List.mem_append_right _ List.mem_cons_self

theorem beforeFirst_behind {front : List Char} (unmarked : mark ∉ front) (back : List Char) :
    beforeFirst mark (front ++ back) = front ++ beforeFirst mark back :=
  List.takeWhile_append_of_pos fun _ held => bne_iff_ne.mpr (ne_of_mem_of_not_mem held unmarked)

theorem beforeFirst_append {before : List Char} (unmarked : mark ∉ before) (after : List Char) :
    beforeFirst mark (before ++ mark :: after) = before := by
  rw [beforeFirst_behind unmarked]
  simp [beforeFirst]

theorem beforeFirst_unmarked {cs : List Char} (unmarked : mark ∉ cs) : beforeFirst mark cs = cs :=
  List.takeWhile_eq_self_iff.mpr fun _ held => bne_iff_ne.mpr (ne_of_mem_of_not_mem held unmarked)

theorem mark_not_mem_beforeFirst (cs : List Char) : mark ∉ beforeFirst mark cs :=
  fun held => by simpa using List.mem_takeWhile_imp held

/-- Behind what stands before the first mark, there is the mark or nothing. -/
theorem exists_behind_first (mark : Char) (cs : List Char) :
    ∃ behind, cs = beforeFirst mark cs ++ behind ∧ ∀ c ∈ behind.head?, c = mark := by
  refine ⟨cs.dropWhile (· != mark), List.takeWhile_append_dropWhile.symm, fun c first => ?_⟩
  have stops := List.head?_dropWhile_not (· != mark) cs
  rw [first] at stops
  simpa using stops

/-! ## Trimming -/

theorem trimEnd_cons {c : Char} (solid : isBlank c = false) (rest : List Char) :
    trimEnd (c :: rest) = c :: trimEnd rest := by
  rw [trimEnd, List.reverse_cons, List.dropWhile_append]
  split
  · rename_i blank
    simp [trimEnd, solid, List.isEmpty_iff.mp blank]
  · simp [trimEnd]

theorem trimEnd_trimEnd (cs : List Char) : trimEnd (trimEnd cs) = trimEnd cs :=
  List.rdropWhile_idempotent isBlank cs

/-- Trimming twice is trimming once. -/
theorem trim_trim (cs : List Char) : trim (trim cs) = trim cs := by
  cases start : trimStart cs with
  | nil =>
    have trimmed : trim cs = [] := by rw [trim, start]; rfl
    rw [trimmed]
    rfl
  | cons c rest =>
    have solid : isBlank c = false := trimStart_head cs c rest start
    have trimmed : trim cs = c :: trimEnd rest := by rw [trim, start, trimEnd_cons solid]
    rw [trimmed, trim, trimStart, List.dropWhile_cons_of_neg (by simp [solid]), trimEnd_cons solid,
      trimEnd_trimEnd]

/-- A blank in front does not count. -/
theorem trim_cons {c : Char} (blank : isBlank c = true) (rest : List Char) :
    trim (c :: rest) = trim rest := by
  rw [trim, trimStart, List.dropWhile_cons_of_pos blank]
  rfl

/-- A text without blanks at its two ends stays as it is. -/
theorem trim_eq_self {cs : List Char} (first : ∀ c ∈ cs.head?, isBlank c = false)
    (last : ∀ c ∈ cs.getLast?, isBlank c = false) : trim cs = cs := by
  have front : trimStart cs = cs := by
    refine List.dropWhile_eq_self_iff.mpr fun long => ?_
    simp [first cs[0] (by rw [List.head?_eq_getElem?, List.getElem?_eq_getElem long]; rfl)]
  have back : trimEnd cs = cs := by
    refine List.rdropWhile_eq_self_iff.mpr fun some => ?_
    simp [last _ (List.getLast?_eq_some_getLast some)]
  rw [trim, front, back]

theorem trim_solid {cs : List Char} (solid : ∀ c ∈ cs, isBlank c = false) : trim cs = cs :=
  trim_eq_self (fun c first => solid c (List.mem_of_mem_head? first))
    fun c last => solid c (List.mem_of_mem_getLast? last)

theorem trim_subset (cs : List Char) : trim cs ⊆ cs := by
  intro c held
  have inner : c ∈ trimStart cs := by
    have reversed := (List.dropWhile_sublist isBlank).subset (List.mem_reverse.mp held)
    exact List.mem_reverse.mp reversed
  exact (List.dropWhile_sublist isBlank).subset inner

/-- Only blanks are trimmed. -/
theorem mem_trim {c : Char} {cs : List Char} (solid : isBlank c = false) : c ∈ trim cs ↔ c ∈ cs := by
  have dropped (cs : List Char) : c ∈ cs.dropWhile isBlank ↔ c ∈ cs := by
    induction cs with
    | nil => rfl
    | cons d rest ih =>
      by_cases blank : isBlank d = true
      · have other : c ≠ d := by
          rintro rfl
          simp [solid] at blank
        rw [List.dropWhile_cons_of_pos blank, ih, List.mem_cons, or_iff_right other]
      · rw [List.dropWhile_cons_of_neg blank]
  rw [trim, trimEnd, List.mem_reverse, dropped, List.mem_reverse, trimStart, dropped]

theorem trimStart_around {word : List Char} (some : word ≠ []) (solid : ∀ c ∈ word, isBlank c = false)
    (front back : List Char) : trimStart (front ++ (word ++ back)) = trimStart front ++ (word ++ back) := by
  have stops : trimStart (word ++ back) = word ++ back := by
    cases word with
    | nil => exact absurd rfl some
    | cons c rest => exact List.dropWhile_cons_of_neg (by simp [solid c List.mem_cons_self])
  rw [trimStart, List.dropWhile_append, ← trimStart, ← trimStart, stops]
  split
  · rename_i blank
    rw [List.isEmpty_iff.mp blank, List.nil_append]
  · rfl

/-- What stands around a word is trimmed on the outside. -/
theorem trim_around {word : List Char} (some : word ≠ []) (solid : ∀ c ∈ word, isBlank c = false)
    (front back : List Char) : trim (front ++ word ++ back) = trimStart front ++ word ++ trimEnd back := by
  have backwards : (trimStart front ++ (word ++ back)).reverse =
      back.reverse ++ (word.reverse ++ (trimStart front).reverse) := by simp
  have turnedSome : word.reverse ≠ [] := by simpa using some
  have turnedSolid : ∀ c ∈ word.reverse, isBlank c = false := by simpa using solid
  rw [trim, List.append_assoc, trimStart_around some solid, trimEnd, backwards, ← trimStart,
    trimStart_around turnedSome turnedSolid, trimEnd, ← trimStart]
  simp

theorem not_mem_blanks {c : Char} {blanks : List Char} (solid : isBlank c = false)
    (blank : ∀ d ∈ blanks, isBlank d = true) : c ∉ blanks := by
  intro held
  rw [blank c held] at solid
  cases solid

theorem trimEnd_append {back : List Char} (blank : ∀ c ∈ back, isBlank c = true) (cs : List Char) :
    trimEnd (cs ++ back) = trimEnd cs := by
  rw [trimEnd, List.reverse_append, List.dropWhile_append_of_pos (by simpa using blank), trimEnd]

/-- Blanks around a text are trimmed away. -/
theorem trim_padded {front back : List Char} (frontBlank : ∀ c ∈ front, isBlank c = true)
    (backBlank : ∀ c ∈ back, isBlank c = true) (cs : List Char) : trim (front ++ cs ++ back) = trim cs := by
  rw [trim, trimStart, List.append_assoc, List.dropWhile_append_of_pos frontBlank, List.dropWhile_append,
    trim, trimStart]
  split
  · rename_i empty
    rw [List.isEmpty_iff.mp empty, List.dropWhile_eq_nil_iff.mpr backBlank]
  · exact trimEnd_append backBlank _

/-- Blanks are trimmed. -/
theorem exists_around_trim (cs : List Char) :
    ∃ front back, cs = front ++ trim cs ++ back ∧ (∀ c ∈ front, isBlank c = true) ∧
      ∀ c ∈ back, isBlank c = true := by
  refine ⟨cs.takeWhile isBlank, (trimStart cs).rtakeWhile isBlank, ?_, fun c => List.mem_takeWhile_imp,
    fun c => List.mem_rtakeWhile_imp⟩
  have inner : trim cs ++ (trimStart cs).rtakeWhile isBlank = trimStart cs :=
    List.rdropWhile_append_rtakeWhile
  rw [List.append_assoc, inner, trimStart, List.takeWhile_append_dropWhile]

end Y86Toolkit.Texts
