import Y86Toolkit.Assembly.Statement
import Y86Toolkit.Proofs.Texts

/-!
Lines of source that count. What such a line defines and what it holds is read
off its colons in front of a comment: a label ends at each of them, and the
statement comes behind the last one.
-/

namespace Y86Toolkit.Assembly

/-- The lines of a source that are not blank. -/
def rows (source : String) : List (List Char) :=
  (Text.lines source.toList).filter fun cs => !(Text.trim cs).isEmpty

/-- The parts of a line between its colons, without the comment. -/
def partsOf (row : List Char) : List (List Char) :=
  Text.pieces ':' (Text.beforeFirst '#' (Text.trim row))

/-- The labels that a line defines. -/
def labelsOf (row : List Char) : List String :=
  (partsOf row).dropLast.map fun part => String.ofList (Text.trim part)

/-- The text of the statement on a line. -/
def codeOf (row : List Char) : List Char := (partsOf row).getLastD []

example : labelsOf "a: b : nop # c: d".toList = ["a", "b"] := by decide

end Y86Toolkit.Assembly

namespace Y86Toolkit.SourceRows
open Assembly

theorem ofPieces_ok {parts : List (List Char)} {labels : List String} {statement : Statement}
    (readable : Line.ofPieces parts = (labels, .ok statement)) :
    labels = parts.dropLast.map (fun part => String.ofList (Text.trim part)) ∧
      Statement.read (parts.getLastD []) = .ok statement := by
  induction parts generalizing labels with
  | nil =>
    cases readable
    exact ⟨rfl, rfl⟩
  | cons part rest ih =>
    cases rest with
    | nil =>
      obtain ⟨rfl, read⟩ := Prod.mk.inj readable
      exact ⟨rfl, read⟩
    | cons second rest =>
      rw [Line.ofPieces] at readable
      · split at readable
        · cases behind : Line.ofPieces (second :: rest) with
          | mk others code =>
            rw [behind] at readable
            obtain ⟨rfl, rfl⟩ := Prod.mk.inj readable
            obtain ⟨rfl, read⟩ := ih behind
            refine ⟨?_, by simpa using read⟩
            rw [List.dropLast_cons_cons, List.map_cons]
        · cases (Prod.mk.inj readable).2
      · exact List.cons_ne_nil second rest

/-- Behind its labels a line may hold any statement. -/
theorem ofPieces_concat {front : List (List Char)} {code other : List Char} {labels : List String}
    {statement changed : Statement} (readable : Line.ofPieces (front ++ [code]) = (labels, .ok statement))
    (read : Statement.read other = .ok changed) :
    Line.ofPieces (front ++ [other]) = (labels, .ok changed) := by
  induction front generalizing labels with
  | nil =>
    exact Prod.ext (Prod.mk.inj readable).1 read
  | cons piece rest ih =>
    have more (code : List Char) : rest ++ [code] ≠ [] :=
      List.append_ne_nil_of_right_ne_nil rest (List.cons_ne_nil _ _)
    rw [List.cons_append, Line.ofPieces] at readable ⊢
    · split at readable
      · rename_i identifier
        rw [if_pos identifier]
        cases behind : Line.ofPieces (rest ++ [code]) with
        | mk others found =>
          rw [behind] at readable
          obtain ⟨rfl, rfl⟩ := Prod.mk.inj readable
          rw [ih behind]
      · cases (Prod.mk.inj readable).2
    · exact more other
    · exact more code

/-- A blank line is no line. -/
theorem read?_blank {cs : List Char} (blank : (Text.trim cs).isEmpty = true) : Line.read? cs = none := by
  rw [Line.read?, if_pos blank]

/-- A line that counts is read from its parts. -/
theorem read?_eq_some_iff {cs : List Char} {line : Line} : Line.read? cs = some line ↔
    (Text.trim cs).isEmpty = false ∧
      line = ⟨(Line.ofPieces (partsOf cs)).1, (Line.ofPieces (partsOf cs)).2, String.ofList (Text.trim cs)⟩ := by
  simp only [Line.read?]
  split
  · simp [*]
  · rename_i counts
    simp [counts, partsOf, eq_comm]

/-- What a line that counts is read as. -/
theorem read?_row {cs : List Char} (counts : (Text.trim cs).isEmpty = false) :
    ∃ line, Line.read? cs = some line ∧ line.text = String.ofList (Text.trim cs) ∧
      ∀ statement, line.statement = .ok statement →
        line.labels = labelsOf cs ∧ Statement.read (codeOf cs) = .ok statement := by
  refine ⟨_, by rw [Line.read?, if_neg (by simp [counts])], rfl, fun statement read => ?_⟩
  exact ofPieces_ok (Prod.ext rfl read)

/-- Rows come from the lines of the source. -/
theorem lineFeed_not_mem_row {source : String} {row : List Char} (isRow : row ∈ rows source) :
    '\n' ∉ row :=
  Texts.lineFeed_not_mem (List.mem_of_mem_filter isRow)

end Y86Toolkit.SourceRows
