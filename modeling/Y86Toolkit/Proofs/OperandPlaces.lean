import Y86Toolkit.Proofs.PrintedLines

/-!
Where operands stand in a source. The statement of a line is what is left without its
labels and the comment, and an operand is a word of it behind the name. Another word may
be written there, and the line is taken apart as before.
-/

namespace Y86Toolkit.Assembly

/-- Where an operand stands on a line. -/
structure OperandOnLine where
  /-- The labels that the line defines. -/
  labels : List Char
  /-- The name of the statement, and the operands in front. -/
  lead : List Char
  /-- What comes behind: a base register, more operands, a comment. -/
  rest : List Char
  noComment : '#' ∉ labels ++ lead
  labels_end : ∀ c ∈ labels.getLast?, c = ':'
  noLabel : ':' ∉ lead ++ Text.beforeFirst '#' rest
  named : ∃ c ∈ lead, ¬ Separates c
  lead_ends : ∀ c ∈ lead.getLast?, Separates c
  rest_starts : ∀ c ∈ rest.head?, Separates c ∨ c = '(' ∨ c = '#'

namespace OperandOnLine

/-- The line with an operand there. -/
def row (place : OperandOnLine) (operand : List Char) : List Char :=
  place.labels ++ place.lead ++ operand ++ place.rest

/-- What comes behind the operand, without the comment. -/
def behind (place : OperandOnLine) : List Char := Text.beforeFirst '#' (Text.trimEnd place.rest)

end OperandOnLine

/-- Where an operand stands in a source. -/
structure OperandPlace extends OperandOnLine where
  /-- The lines above. -/
  above : List Char
  /-- The lines below. -/
  below : List Char
  oneLine : '\n' ∉ labels ++ lead ++ rest
  above_ends : ∀ c ∈ above.getLast?, c = '\n'
  below_starts : ∀ c ∈ below.head?, c = '\n'

/-- The source with an operand there. -/
def OperandPlace.filled (place : OperandPlace) (operand : String) : String :=
  String.ofList (place.above ++ place.row operand.toList ++ place.below)

/-- A line that counts, with the parts in front of its colons and the words behind them. -/
structure TakenApart (row : List Char) (labels : List (List Char)) (words : List String) : Prop where
  counts : (Text.trim row).isEmpty = false
  words : ∃ code, partsOf row = labels ++ [code] ∧ Words code (words.map String.toList)

end Y86Toolkit.Assembly

namespace Y86Toolkit.OperandPlaces
open Assembly PrintedLines Texts

/-! ## Taking a line apart -/

theorem behind_prefix (place : OperandOnLine) : place.behind <+: place.rest :=
  (List.takeWhile_prefix _).trans (List.rdropWhile_prefix Text.isBlank place.rest)

theorem noComment_behind (place : OperandOnLine) : '#' ∉ place.behind :=
  mark_not_mem_beforeFirst _

theorem behind_starts (place : OperandOnLine) : ∀ c ∈ place.behind.head?, Separates c ∨ c = '(' := by
  intro c first
  obtain ⟨_, same⟩ := behind_prefix place
  have starts : c ∈ place.rest.head? := by
    rw [← same, List.head?_append, first]
    rfl
  rcases place.rest_starts c starts with separates | paren | rfl
  · exact .inl separates
  · exact .inr paren
  · exact absurd (List.mem_of_mem_head? first) (noComment_behind place)

theorem noLabel_behind (place : OperandOnLine) : ':' ∉ place.behind := by
  obtain ⟨_, same⟩ := behind_prefix place
  intro held
  apply place.noLabel
  rw [← same, beforeFirst_behind (noComment_behind place)]
  exact List.mem_append_right _ (List.mem_append_left _ held)

/-- Trimming and leaving the comment out do not reach the operand. -/
theorem partsOf_row (place : OperandOnLine) {word : List Char} (plain : PlainWord word) :
    partsOf (place.row word) =
      Text.pieces ':' (Text.trimStart (place.labels ++ place.lead) ++ (word ++ place.behind)) := by
  have free : '#' ∉ Text.trimStart (place.labels ++ place.lead) ++ word := by
    intro held
    rcases List.mem_append.mp held with before | inside
    · exact place.noComment ((List.dropWhile_sublist _).subset before)
    · exact (plain.2 '#' inside).2 (by decide)
  rw [partsOf, OperandOnLine.row, trim_around plain.1 fun c held => solid_of_plain (plain.2 c held),
    beforeFirst_behind free, List.append_assoc, OperandOnLine.behind]

/-- Behind the labels there are no more colons. -/
theorem pieces_statement (place : OperandOnLine) {lead word : List Char} (inside : lead <:+ place.lead)
    (plain : PlainWord word) :
    Text.pieces ':' (lead ++ (word ++ place.behind)) = [lead ++ (word ++ place.behind)] := by
  refine pieces_unmarked fun held => ?_
  simp only [List.mem_append] at held
  rcases held with before | held | after
  · exact place.noLabel (List.mem_append_left _ (inside.subset before))
  · exact (plain.2 ':' held).2 (by decide)
  · exact noLabel_behind place after

/-- A line is taken apart in front of the operand and behind it. -/
theorem exists_parts (place : OperandOnLine) :
    ∃ front lead,
      (∀ word, PlainWord word → partsOf (place.row word) = front ++ [lead ++ (word ++ place.behind)]) ∧
      (∃ c ∈ lead, ¬ Separates c) ∧ ∀ c ∈ lead.getLast?, Separates c := by
  rcases List.eq_nil_or_concat' place.labels with none | ⟨labels, c, some⟩
  · -- Without labels, the blanks in front of the name are trimmed.
    have suffix : Text.trimStart place.lead <:+ place.lead := List.dropWhile_suffix _
    refine ⟨[], Text.trimStart place.lead, fun word plain => ?_, ?_, ?_⟩
    · rw [partsOf_row place plain, none, List.nil_append, pieces_statement place suffix plain,
        List.nil_append]
    · obtain ⟨c, held, solid⟩ := place.named
      rw [← List.takeWhile_append_dropWhile (p := Text.isBlank) (l := place.lead)] at held
      refine ⟨c, (List.mem_append.mp held).resolve_left fun blank => solid (.inl ?_), solid⟩
      exact List.mem_takeWhile_imp blank
    · obtain ⟨blanks, same⟩ := suffix
      intro c last
      refine place.lead_ends c ?_
      rw [← same, List.getLast?_append, last]
      rfl
  · cases place.labels_end c (by rw [some]; simp)
    have solid : ∀ c ∈ [':'], Text.isBlank c = false := List.forall_mem_singleton.mpr (by decide)
    have colon : Text.trimStart (place.labels ++ place.lead) =
        Text.trimStart labels ++ (':' :: place.lead) := by
      rw [some, List.append_assoc]
      exact trimStart_around (List.cons_ne_nil ':' []) solid labels place.lead
    refine ⟨Text.pieces ':' (Text.trimStart labels), place.lead, fun word plain => ?_, place.named,
      place.lead_ends⟩
    rw [partsOf_row place plain, colon, List.append_assoc, List.cons_append, pieces_between,
      pieces_statement place (List.suffix_refl _) plain]

/-- **The words of the statement are those around the operand**, which is a word together
with a base register that comes right behind it. -/
theorem exists_words (place : OperandOnLine) :
    ∃ front suffix, ∃ (name : String) (earlier later : List String), (∀ c ∈ suffix.head?, c = '(') ∧
      ∀ word, PlainWord word →
        TakenApart (place.row word) front (name :: (earlier ++ String.ofList (word ++ suffix) :: later)) := by
  obtain ⟨front, lead, parts, named, ends⟩ := exists_parts place
  obtain ⟨words, inside⟩ := Words.exists_words lead
  obtain ⟨c, held, solid⟩ := named
  obtain ⟨name, earlier, rfl⟩ := List.exists_cons_of_ne_nil (Words.ne_nil_of_solid inside held solid)
  obtain ⟨suffix, others, run, solidSuffix, stops⟩ := Words.exists_run place.behind
  obtain ⟨later, further⟩ := Words.exists_words others
  refine ⟨front, suffix, String.ofList name, earlier.map String.ofList, later.map String.ofList, ?_,
    fun word plain => ⟨?_, _, parts word plain, ?_⟩⟩
  · intro c first
    have starts : c ∈ place.behind.head? := by
      rw [run, List.head?_append, first]
      rfl
    exact (behind_starts place c starts).resolve_left (solidSuffix c (List.mem_of_mem_head? first))
  · rw [OperandOnLine.row, trim_around plain.1 fun c held => solid_of_plain (plain.2 c held)]
    simp [plain.1]
  · have whole : Assembly.Words (word ++ suffix ++ others) ((word ++ suffix) :: later) := by
      refine .word (List.append_ne_nil_of_left_ne_nil plain.1 suffix) (fun c held => ?_) stops further
      exact (List.mem_append.mp held).elim (fun held => (plain.2 c held).1) (solidSuffix c)
    rw [run, ← List.append_assoc word]
    have texts := Words.words_append inside ends whole
    simpa [Function.comp_def] using texts

/-- The line of the operand stands among the same others. -/
theorem lines_filled (place : OperandPlace) :
    ∃ before after, ∀ operand : String, PlainWord operand.toList →
      Text.lines (place.filled operand).toList = before ++ place.row operand.toList :: after := by
  obtain ⟨before, after, lines⟩ := exists_lines_around place.above_ends place.below_starts
  refine ⟨before, after, fun operand plain => ?_⟩
  rw [OperandPlace.filled, String.toList_ofList]
  refine lines _ ?_ ?_
  · simp [OperandOnLine.row, plain.1]
  · intro held
    have whole := place.oneLine
    simp only [OperandOnLine.row, List.mem_append] at held whole
    rcases held with (front | inside) | behind
    · exact whole (.inl front)
    · exact (plain.2 _ inside).2 (by decide)
    · exact whole (.inr behind)

/-! ## Finding the place -/

theorem words_blank {blanks : List Char} (blank : ∀ c ∈ blanks, Text.isBlank c = true) :
    Assembly.Words blanks [] := by
  induction blanks with
  | nil => exact .nil
  | cons c blanks ih =>
    obtain ⟨first, others⟩ := List.forall_mem_cons.mp blank
    exact .skip (.inl first) (ih others)

/-- Blanks in front of a line belong to its labels, or without labels to the statement. -/
theorem exists_behind_blanks {blanks labels lead : List Char} {words : List (List Char)}
    (blank : ∀ c ∈ blanks, Text.isBlank c = true) (labelsEnd : ∀ c ∈ labels.getLast?, c = ':')
    (noColon : ':' ∉ lead) (leadEnds : ∀ c ∈ lead.getLast?, Separates c)
    (inside : Assembly.Words lead words) :
    ∃ first second, first ++ second = blanks ++ (labels ++ lead) ∧ (∀ c ∈ first.getLast?, c = ':') ∧
      ':' ∉ second ∧ (∀ c ∈ second.getLast?, Separates c) ∧ Assembly.Words second words := by
  cases labels with
  | cons c labels =>
    refine ⟨blanks ++ c :: labels, lead, List.append_assoc _ _ _, ?_, noColon, leadEnds, inside⟩
    rwa [List.getLast?_append_of_ne_nil _ (List.cons_ne_nil c labels)]
  | nil =>
    refine ⟨[], blanks ++ lead, rfl, nofun, fun held => ?_, fun c last => ?_, ?_⟩
    · rcases List.mem_append.mp held with front | held
      · cases blank ':' front
      · exact noColon held
    · rw [List.getLast?_append] at last
      cases isLast : lead.getLast? with
      | none =>
        rw [isLast] at last
        exact .inl (blank c (List.mem_of_mem_getLast? last))
      | some d =>
        rw [isLast] at last
        cases last
        exact leadEnds c isLast
    · exact Words.words_append (words_blank blank)
        (fun c last => .inl (blank c (List.mem_of_mem_getLast? last))) inside

/-- Neither the statement nor what is behind it has a colon in front of the comment. -/
theorem noColon_behind {rest comment blanks : List Char} (noComment : '#' ∉ rest) (noColon : ':' ∉ rest)
    (starts : ∀ c ∈ comment.head?, c = '#') (blank : ∀ c ∈ blanks, Text.isBlank c = true) :
    ':' ∉ Text.beforeFirst '#' (rest ++ (comment ++ blanks)) := by
  rw [beforeFirst_behind noComment]
  intro held
  rcases List.mem_append.mp held with inside | behind
  · exact noColon inside
  · cases comment with
    | nil => cases blank ':' ((List.takeWhile_sublist _).subset behind)
    | cons c comment =>
      cases starts c rfl
      simp [Text.beforeFirst] at behind

/-- A word of a statement behind its name has a place on the line. -/
theorem exists_on_line {row name operand suffix : List Char} {earlier later : List (List Char)}
    (inside : Assembly.Words (codeOf row) (name :: earlier ++ (operand ++ suffix) :: later))
    (ends : ∀ c ∈ suffix.head?, c = '(') :
    ∃ place : OperandOnLine, place.row operand = row ∧ Assembly.Words place.lead (name :: earlier) := by
  obtain ⟨front, back, around, frontBlank, backBlank⟩ := exists_around_trim row
  obtain ⟨comment, uncommented, commentStarts⟩ := exists_behind_first '#' (Text.trim row)
  obtain ⟨labels, code, text, labelsEnd, noColon, isCode⟩ :=
    exists_last_piece ':' (Text.beforeFirst '#' (Text.trim row))
  rw [codeOf, partsOf, isCode] at inside
  obtain ⟨lead, rest, rfl, words, leadEnds, restStarts, -⟩ := Words.words_split inside
  have noComment : '#' ∉ labels ++ (lead ++ (operand ++ suffix) ++ rest) :=
    text ▸ mark_not_mem_beforeFirst (Text.trim row)
  simp only [List.mem_append, not_or] at noComment noColon
  obtain ⟨freeLabels, ⟨freeLead, -, freeSuffix⟩, freeRest⟩ := noComment
  obtain ⟨⟨plainLead, -, plainSuffix⟩, plainRest⟩ := noColon
  obtain ⟨first, second, same, firstEnds, plainSecond, secondEnds, words⟩ :=
    exists_behind_blanks frontBlank labelsEnd plainLead leadEnds words
  have named : Assembly.Words second ([] ++ name :: earlier) := words
  obtain ⟨_, _, isSecond, -, -, -, some, solid⟩ := Words.words_split named
  obtain ⟨c, others, rfl⟩ := List.exists_cons_of_ne_nil some
  refine ⟨⟨first, second, suffix ++ rest ++ (comment ++ back), ?_, firstEnds, ?_, ⟨c, ?_, ?_⟩, secondEnds,
    ?_⟩, ?_, words⟩
  · rw [same]
    simp only [List.mem_append, not_or]
    refine ⟨fun held => ?_, freeLabels, freeLead⟩
    cases frontBlank '#' held
  · have free : '#' ∉ suffix ++ rest := by simp [freeSuffix, freeRest]
    have plain : ':' ∉ suffix ++ rest := by simp [plainSuffix, plainRest]
    have unlabelled := noColon_behind free plain commentStarts backBlank
    simp only [List.mem_append, not_or]
    exact ⟨plainSecond, unlabelled⟩
  · simp [isSecond]
  · exact solid c List.mem_cons_self
  · intro d starts
    cases suffix with
    | cons e suffix => exact .inr (.inl (ends d starts))
    | nil =>
      cases rest with
      | cons e rest => exact .inl (restStarts d starts)
      | nil =>
        cases comment with
        | cons e comment => exact .inr (.inr (commentStarts d starts))
        | nil => exact .inl (.inl (backBlank d (List.mem_of_mem_head? starts)))
  · rw [uncommented, text] at around
    refine Eq.trans ?_ around.symm
    simp only [OperandOnLine.row, same, List.append_assoc]

/-- **Every operand has its place.** What is a word of a statement behind its name, up to
a base register in parentheses maybe, stands there in the source. -/
theorem exists_place {source : String} {k : Nat} {row name operand suffix : List Char}
    {earlier later : List (List Char)} (isRow : (Text.lines source.toList)[k]? = some row)
    (inside : Assembly.Words (codeOf row) (name :: earlier ++ (operand ++ suffix) :: later))
    (ends : ∀ c ∈ suffix.head?, c = '(') :
    ∃ place : OperandPlace, place.filled (String.ofList operand) = source ∧
      Text.lines place.above = (Text.lines source.toList).take k ∧ place.row operand = row ∧
      Assembly.Words place.lead (name :: earlier) := by
  obtain ⟨above, below, whole, aboveEnds, belowStarts, sameAbove⟩ := exists_around_line isRow
  obtain ⟨place, rfl, words⟩ := exists_on_line inside ends
  have oneLine := lineFeed_not_mem (List.mem_of_getElem? isRow)
  simp only [OperandOnLine.row, List.mem_append, not_or] at oneLine
  obtain ⟨⟨front, -⟩, rest⟩ := oneLine
  refine ⟨⟨place, above, below, by simp [front, rest], aboveEnds, belowStarts⟩, ?_, sameAbove, rfl, words⟩
  rw [← String.toList_inj, OperandPlace.filled, String.toList_ofList, String.toList_ofList, whole]

end Y86Toolkit.OperandPlaces
