/-!
Blank characters: the code points with the Unicode property `White_Space`.
Trimming removes them from the two ends of a text, and `fields` takes a text
apart at them.
-/

namespace Y86Toolkit.Text

/-- The code points with the property `White_Space`, as inclusive ranges. -/
def blankRanges : List (Nat × Nat) :=
  [(0x09, 0x0D), (0x20, 0x20), (0x85, 0x85), (0xA0, 0xA0), (0x1680, 0x1680), (0x2000, 0x200A),
    (0x2028, 0x2029), (0x202F, 0x202F), (0x205F, 0x205F), (0x3000, 0x3000)]

/-- Membership in the table. -/
def isBlank (c : Char) : Bool :=
  blankRanges.any fun range => range.1 ≤ c.toNat && c.toNat ≤ range.2

/-- The table holds 25 code points. -/
example : (blankRanges.map fun range => range.2 - range.1 + 1).sum = 25 := by decide

/-- A text without the blanks at its start. -/
def trimStart (cs : List Char) : List Char := cs.dropWhile isBlank

/-- A text without the blanks at its end. -/
def trimEnd (cs : List Char) : List Char := (cs.reverse.dropWhile isBlank).reverse

/-- A text without the blanks at its two ends. -/
def trim (cs : List Char) : List Char := trimEnd (trimStart cs)

/-- Trimmed text does not start with a blank. -/
theorem trimStart_head (cs : List Char) (c : Char) (rest : List Char)
    (starts : trimStart cs = c :: rest) : isBlank c = false := by
  induction cs with
  | nil => simp [trimStart] at starts
  | cons d tail ih =>
    by_cases blank : isBlank d = true
    · exact ih (by simpa [trimStart, blank] using starts)
    · simp only [trimStart, List.dropWhile_cons, blank] at starts
      cases starts
      simpa using blank

/-- The maximal runs of characters that are not blank, in order. -/
def fields (cs : List Char) : List (List Char) :=
  go [] [] cs
where
  /-- Both arguments in front of the text are kept in reverse: the run being
  read, and the runs already complete. -/
  go (run : List Char) (done : List (List Char)) : List Char → List (List Char)
    | [] => (close run done).reverse
    | c :: rest => if isBlank c then go [] (close run done) rest else go (c :: run) done rest
  /-- An empty run is no field. -/
  close (run : List Char) (done : List (List Char)) : List (List Char) :=
    if run.isEmpty then done else run.reverse :: done

example : fields " addq\t%rax  %rbx".toList = ["addq".toList, "%rax".toList, "%rbx".toList] := by
  decide

end Y86Toolkit.Text
