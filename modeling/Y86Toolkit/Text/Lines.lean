/-!
Splitting a text at a character: at every occurrence, into lines, or into what
stands before and after the first occurrence.
-/

namespace Y86Toolkit.Text

/-- The pieces of a text between the occurrences of `mark`; there is one more
piece than there are marks. -/
def pieces (mark : Char) (cs : List Char) : List (List Char) :=
  go [] [] cs
where
  /-- Both arguments in front of the text are kept in reverse: the piece being
  read, and the pieces already complete. -/
  go (piece : List Char) (done : List (List Char)) : List Char → List (List Char)
    | [] => (piece.reverse :: done).reverse
    | c :: rest => if c = mark then go [] (piece.reverse :: done) rest else go (c :: piece) done rest

/-- The lines of a text. Each ends at a line feed; text after the last line
feed is a line too, unless it is empty. A carriage return stays with its line. -/
def lines (cs : List Char) : List (List Char) :=
  match (pieces '\n' cs).reverse with
  | [] :: complete => complete.reverse
  | all => all.reverse

example : lines "a\n\nb".toList = [['a'], [], ['b']] := by decide
example : lines "a\n".toList = [['a']] := by decide

/-- What stands before and after the first `mark`, if there is one. -/
def splitAtFirst (mark : Char) (cs : List Char) : Option (List Char × List Char) :=
  match cs.span (· != mark) with
  | (_, []) => none
  | (before, _ :: after) => some (before, after)

/-- What stands before the first `mark`, or the whole text. -/
def beforeFirst (mark : Char) (cs : List Char) : List Char := cs.takeWhile (· != mark)

end Y86Toolkit.Text
