/-!
Text screens: rows of cells, each a character with a style. A panel is a frame
with a title around lines of text; drawing it gives exactly the rows and
columns that were asked for, whatever the length of the text.
-/

namespace Y86Toolkit

/-- The colour of a character; `plain` is the one that the terminal uses by
itself. -/
inductive Colour where
  | plain | yellow | red | cyan | green | magenta | white | darkGray
  deriving DecidableEq, Repr

/-- How a character is shown. -/
structure Style where
  colour : Colour := .plain
  bold : Bool := false
  deriving DecidableEq, Repr

/-- One place of a screen. -/
structure Cell where
  char : Char
  style : Style
  deriving DecidableEq, Repr

/-- Cells from left to right. -/
abbrev Row := List Cell

/-- Rows from top to bottom. -/
abbrev Screen := List Row

namespace Row

/-- Text in one style. -/
def styled (style : Style) (text : String) : Row := text.toList.map fun c => ⟨c, style⟩

/-- Text in one colour. -/
def coloured (colour : Colour) (text : String) : Row := styled { colour } text

/-- The row cut off, or filled up with a cell, to a width. -/
def fit (width : Nat) (filler : Cell) (row : Row) : Row :=
  (row.take width).rightpad width filler

@[simp] theorem length_fit (width : Nat) (filler : Cell) (row : Row) :
    (row.fit width filler).length = width := by
  rw [fit, List.rightpad, List.length_append, List.length_replicate, List.length_take]
  omega

end Row

/-- A line of text inside a panel. -/
structure TextLine where
  content : Row
  /-- The style of the blanks behind the text. -/
  rest : Style := {}
  deriving DecidableEq, Repr

namespace TextLine

/-- A line all in one style, the blanks behind its text included. -/
def styled (style : Style) (text : String) : TextLine := ⟨.styled style text, style⟩

/-- The cells of a line. -/
def draw (line : TextLine) (width : Nat) : Row := line.content.fit width ⟨' ', line.rest⟩

end TextLine

/-- A framed part of a screen. -/
structure Panel where
  title : String
  /-- The style of the frame and the title. -/
  frame : Style := {}
  lines : List TextLine
  deriving DecidableEq, Repr

namespace Panel

/-- A line from one edge of the panel to the other. -/
def edged (p : Panel) (left right : Char) (inside : Row) : Row :=
  ⟨left, p.frame⟩ :: inside ++ [⟨right, p.frame⟩]

/-- The cells of a panel; there is room for text inside of its frame only. -/
def draw (p : Panel) (width height : Nat) : Screen :=
  let inside := width - 2
  let line : Cell := ⟨'─', p.frame⟩
  let top := (Row.styled p.frame p.title).fit inside line
  let body := ((p.lines.take (height - 2)).rightpad (height - 2) ⟨[], {}⟩).map (·.draw inside)
  p.edged '┌' '┐' top :: body.map (p.edged '│' '│') ++ [p.edged '└' '┘' (Row.fit inside line [])]

theorem length_draw (p : Panel) {width height : Nat} (tall : 2 ≤ height) :
    (p.draw width height).length = height := by
  simp [draw, List.rightpad]
  omega

end Panel

namespace Screen

/-- Two parts of a screen side by side. -/
def beside (left right : Screen) : Screen := left.zipWith (· ++ ·) right

end Screen

end Y86Toolkit
