import Y86Toolkit.Proofs.LetterCase
import Y86Toolkit.Proofs.PrintedLines

/-!
Edits of lines that do not matter: a comment is left out, commas and blanks between words
become one blank, names of statements and registers are written in another case. A source
that is edited so, on any of its lines and any number of times, assembles as before.
-/

namespace Y86Toolkit.Assembly

/-- A line around its statement. -/
structure StatementOnLine where
  /-- The labels that the line defines. -/
  labels : List Char
  /-- What comes behind the statement. -/
  comment : List Char
  noComment : '#' ∉ labels
  labels_end : ∀ c ∈ labels.getLast?, c = ':'
  comment_starts : ∀ c ∈ comment.head?, c = '#'

/-- The line with a statement there. -/
def StatementOnLine.row (place : StatementOnLine) (code : List Char) : List Char :=
  place.labels ++ code ++ place.comment

/-- A statement that is written with one blank for others, or with a name in another case. -/
inductive Respelled : List Char → List Char → Prop where
  | spacing {run : List Char} (lead rest : List Char) (some : run ≠ []) (separates : ∀ c ∈ run, Separates c) :
      Respelled (lead ++ run ++ rest) (lead ++ [' '] ++ rest)
  | name {lead name other rest : List Char} (separates : ∀ c ∈ lead, Separates c) (some : name ≠ [])
      (solid : ∀ c ∈ name, ¬ Separates c) (ends : ∀ c ∈ rest.head?, Separates c)
      (letters : SameLetters name other) : Respelled (lead ++ (name ++ rest)) (lead ++ (other ++ rest))
  | register {name other : String} {r : Register} (lead rest : List Char) (names : Names name r)
      (otherNames : Names other r) : Respelled (lead ++ name.toList ++ rest) (lead ++ other.toList ++ rest)

/-- An edit of a line: the comment is left out, or the statement is spelled in another way. -/
inductive LineEdit : List Char → List Char → Prop where
  | comment {text : List Char} (noComment : '#' ∉ text) (comment : List Char) :
    LineEdit (text ++ '#' :: comment) text
  | statement (place : StatementOnLine) {code changed : List Char} (noComment : '#' ∉ code) (noLabel : ':' ∉ code)
      (respelled : Respelled code changed) : LineEdit (place.row code) (place.row changed)

/-- Sources of which one comes from the other by edits of lines, there and back. What stands
behind the last line feed is a line here, if only an empty one. -/
def Edited (source changed : String) : Prop :=
  List.Forall₂ (Relation.EqvGen LineEdit) (Text.pieces '\n' source.toList) (Text.pieces '\n' changed.toList)

end Y86Toolkit.Assembly

namespace Y86Toolkit.LineEdits
open Assembly AlikeReadings LetterCase

variable {code changed cs ds : List Char} {name other : String} {r : Register}

/-! ## Letters -/

theorem not_alpha_of_separates {c : Char} (separates : Separates c) : c.isAlpha = false := by
  rcases separates with blank | rfl
  · refine Bool.eq_false_iff.mpr fun letter => ?_
    have range : 65 ≤ c.toNat ∧ c.toNat ≤ 90 ∨ 97 ≤ c.toNat ∧ c.toNat ≤ 122 := by
      simpa [Char.isAlpha, Char.isUpper, Char.isLower, UInt32.le_iff_toNat_le] using letter
    simp only [Text.isBlank, Text.blankRanges, List.any_cons, List.any_nil, Bool.or_false, Bool.or_eq_true,
      Bool.and_eq_true, decide_eq_true_eq] at blank
    omega
  · rfl

theorem solid_sameLetters (letters : SameLetters cs ds) (solid : ∀ c ∈ cs, ¬ Separates c) :
    ∀ c ∈ ds, ¬ Separates c := fun c held separates =>
  solid c (mem_of_sameLetters (Eq.symm letters) (not_alpha_of_separates separates) held) separates

theorem sameLetters_name (names : Names name r) : SameLetters r.name.toList name.toList := by
  have small : r.name.toList.map Char.toLower = r.name.toList := by
    cases r <;> decide
  rw [SameLetters, small, ← names, lowered, String.toList_ofList]

/-- A name of a register starts with a percent sign. -/
theorem percent_name (names : Names name r) : ∃ rest, name.toList = '%' :: rest := by
  have percent : ∃ rest, r.name.toList = [] ++ '%' :: rest := by
    cases r <;> exact ⟨_, rfl⟩
  obtain ⟨rest, same⟩ := percent
  have letters := sameLetters_name names
  rw [same] at letters
  obtain ⟨first, second, text, none, -⟩ := sameLetters_append_cons rfl letters
  rw [List.map_eq_nil_iff.mp (Eq.symm none)] at text
  exact ⟨second, text⟩

theorem recased_names (names : Names name r) (otherNames : Names other r) (rest : List Char) :
    Recased (name.toList ++ rest) (other.toList ++ rest) := by
  have letters : SameLetters name.toList other.toList :=
    (sameLetters_name names).symm.trans (sameLetters_name otherNames)
  obtain ⟨cs, first⟩ := percent_name names
  obtain ⟨ds, second⟩ := percent_name otherNames
  rw [first, second] at letters ⊢
  refine .percent ?_
  have tails : cs.map Char.toLower = ds.map Char.toLower := (List.cons.inj letters).2
  change (cs ++ rest).map Char.toLower = (ds ++ rest).map Char.toLower
  rw [List.map_append, List.map_append, tails]

theorem solid_name (names : Names name r) : name.toList ≠ [] ∧ ∀ c ∈ name.toList, ¬ Separates c := by
  obtain ⟨rest, text⟩ := percent_name names
  refine ⟨text ▸ List.cons_ne_nil _ _, solid_sameLetters (sameLetters_name names) fun c held => ?_⟩
  exact ((PrintedLines.plain_name r).2 c held).1

/-! ## Words -/

/-- A text ends with what does not separate, back to the last separator. -/
theorem exists_run_back (code : List Char) :
    ∃ lead run, code = lead ++ run ∧ (∀ c ∈ run, ¬ Separates c) ∧ ∀ c ∈ lead.getLast?, Separates c := by
  obtain ⟨run, rest, same, solid, ends⟩ := Words.exists_run code.reverse
  refine ⟨rest.reverse, run.reverse, ?_, by simpa using solid, by simpa using ends⟩
  rw [← List.reverse_append, ← same, List.reverse_reverse]

/-- A word of a statement, or a part of one, stands among the same others, whatever it is. -/
theorem exists_words_around (lead rest : List Char) :
    ∃ names before behind later, ∀ word : List Char, word ≠ [] → (∀ c ∈ word, ¬ Separates c) →
      Words (lead ++ word ++ rest) (names ++ (before ++ (word ++ behind)) :: later) := by
  obtain ⟨front, before, rfl, solidBefore, frontEnds⟩ := exists_run_back lead
  obtain ⟨behind, back, rfl, solidBehind, backStarts⟩ := Words.exists_run rest
  obtain ⟨names, inside⟩ := Words.exists_words front
  obtain ⟨later, further⟩ := Words.exists_words back
  refine ⟨names, before, behind, later, fun word some solid => ?_⟩
  have whole : Words (before ++ (word ++ behind) ++ back) ((before ++ (word ++ behind)) :: later) := by
    refine .word (by simp [some]) (fun c held => ?_) backStarts further
    simp only [List.mem_append] at held
    rcases held with held | held | held
    · exact solidBefore c held
    · exact solid c held
    · exact solidBehind c held
  simpa using Words.words_append inside frontEnds whole

theorem forall₂_recased_refl (operands : List (List Char)) : List.Forall₂ Recased operands operands :=
  List.forall₂_same.mpr fun operand _ => recased_refl operand

theorem reworded_refl (words : List (List Char)) : Reworded words words := by
  cases words with
  | nil => exact .nil
  | cons name operands => exact .cons rfl (forall₂_recased_refl operands)

theorem reworded_at (recased : Recased cs ds) (names later : List (List Char)) :
    Reworded (names ++ cs :: later) (names ++ ds :: later) := by
  cases names with
  | nil => exact .cons (sameLetters_of_recased recased) (forall₂_recased_refl later)
  | cons name operands =>
    exact .cons rfl
      (List.rel_append (forall₂_recased_refl operands) (.cons recased (forall₂_recased_refl later)))

/-- **A statement is read alike in another spelling.** -/
theorem read_respelled (respelled : Respelled code changed) :
    Fallible.Alike Cause.Alike Statement.Alike (Statement.read code) (Statement.read changed) := by
  cases respelled with
  | spacing lead rest some separates =>
    obtain ⟨names, inside⟩ := Words.exists_words lead
    obtain ⟨later, further⟩ := Words.exists_words rest
    have spaced {run : List Char} (some : run ≠ []) (separates : ∀ c ∈ run, Separates c) :
        Words (lead ++ run ++ rest) (names ++ later) := by
      refine Words.words_append (Words.words_behind separates inside) (fun c last => ?_) further
      rw [List.getLast?_append_of_ne_nil _ some] at last
      exact separates c (List.mem_of_mem_getLast? last)
    exact read_reworded (spaced some separates)
      (spaced (List.cons_ne_nil _ _) (List.forall_mem_singleton.mpr (by decide)))
      (reworded_refl _)
  | @name lead name other rest separates some solid ends letters =>
    obtain ⟨later, further⟩ := Words.exists_words rest
    have otherSome : other ≠ [] := by
      rintro rfl
      exact some (List.map_eq_nil_iff.mp letters)
    have inside := Words.words_front separates (.word some solid ends further)
    have otherInside :=
      Words.words_front separates (.word otherSome (solid_sameLetters letters solid) ends further)
    exact read_reworded inside otherInside (.cons letters (forall₂_recased_refl later))
  | register lead rest names otherNames =>
    obtain ⟨words, before, behind, later, inside⟩ := exists_words_around lead rest
    obtain ⟨some, solid⟩ := solid_name names
    obtain ⟨otherSome, otherSolid⟩ := solid_name otherNames
    refine read_reworded (inside _ some solid) (inside _ otherSome otherSolid) (reworded_at ?_ words later)
    exact recased_append before (recased_names names otherNames behind)

/-! ## Lines -/

/-- Every line is one around its statement, if only an empty one. -/
theorem exists_row (cs : List Char) :
    ∃ (place : StatementOnLine) (code : List Char), '#' ∉ code ∧ ':' ∉ code ∧ cs = place.row code := by
  obtain ⟨comment, same, starts⟩ := Texts.exists_behind_first '#' cs
  obtain ⟨labels, code, split, ends, noLabel, -⟩ := Texts.exists_last_piece ':' (Text.beforeFirst '#' cs)
  have free : '#' ∉ labels ++ code := split ▸ Texts.mark_not_mem_beforeFirst cs
  rw [List.mem_append, not_or] at free
  refine ⟨⟨labels, comment, free.1, ends, starts⟩, code, free.2, noLabel, ?_⟩
  rw [StatementOnLine.row, ← split, ← same]

/-- The statement is the last piece of its line, whatever it is. -/
theorem pieces_row (place : StatementOnLine) : ∃ front, ∀ code, '#' ∉ code → ':' ∉ code →
    Text.pieces ':' (Text.beforeFirst '#' (place.row code)) = front ++ [code] := by
  have uncommented {code : List Char} (noComment : '#' ∉ code) :
      Text.beforeFirst '#' (place.row code) = place.labels ++ code := by
    have free : '#' ∉ place.labels ++ code := by simp [place.noComment, noComment]
    have nothing : Text.beforeFirst '#' place.comment = [] := by
      cases same : place.comment with
      | nil => rfl
      | cons c comment =>
        cases place.comment_starts c (by rw [same]; rfl)
        rfl
    rw [StatementOnLine.row, Texts.beforeFirst_behind free, nothing, List.append_nil]
  rcases List.eq_nil_or_concat' place.labels with none | ⟨labels, c, some⟩
  · refine ⟨[], fun code noComment noLabel => ?_⟩
    rw [uncommented noComment, none, List.nil_append, Texts.pieces_unmarked noLabel, List.nil_append]
  · cases place.labels_end c (by rw [some]; simp)
    refine ⟨Text.pieces ':' labels, fun code noComment noLabel => ?_⟩
    rw [uncommented noComment, some, ← List.append_cons, Texts.pieces_between, Texts.pieces_unmarked noLabel]

/-- Behind its labels a line is read alike if its statement is. -/
theorem ofPieces_alike (front : List (List Char))
    (alike : Fallible.Alike Cause.Alike Statement.Alike (Statement.read code) (Statement.read changed)) :
    ReadAlike (Line.ofPieces (front ++ [code])) (Line.ofPieces (front ++ [changed])) := by
  induction front with
  | nil => exact ⟨rfl, alike⟩
  | cons piece rest ih =>
    have more (code : List Char) : rest ++ [code] ≠ [] :=
      List.append_ne_nil_of_right_ne_nil rest (List.cons_ne_nil _ _)
    rw [List.cons_append, List.cons_append, Line.ofPieces, Line.ofPieces]
    · split
      · exact ⟨congrArg (_ :: ·) ih.labels, ih.statement⟩
      · exact readAlike_equivalence.refl _
    · exact more changed
    · exact more code

/-- The letters of the names keep comments and labels what they are. -/
theorem mark_not_mem_respelled {mark : Char} (other : mark.isAlpha = false) (solid : ¬ Separates mark)
    (respelled : Respelled code changed) (free : mark ∉ code) : mark ∉ changed := by
  have absent {cs ds : List Char} (letters : SameLetters cs ds) (free : mark ∉ cs) : mark ∉ ds :=
    fun held => free (mem_of_sameLetters (Eq.symm letters) other held)
  cases respelled with
  | spacing lead rest some separates =>
    have noBlank : mark ≠ ' ' := by
      rintro rfl
      exact solid (by decide)
    simp_all
  | name separates some solid ends letters =>
    simp only [List.mem_append, not_or] at free ⊢
    exact ⟨free.1, absent letters free.2.1, free.2.2⟩
  | register lead rest names otherNames =>
    simp only [List.mem_append, not_or] at free ⊢
    have letters : SameLetters _ _ := (sameLetters_name names).symm.trans (sameLetters_name otherNames)
    exact ⟨⟨free.1.1, absent letters free.1.2⟩, free.2⟩

/-- **A line is read alike when it is edited.** -/
theorem read_edit (edit : LineEdit cs ds) : ReadAlike (Line.reading cs) (Line.reading ds) := by
  cases edit with
  | comment noComment comment =>
    rw [Line.reading, Line.reading, Texts.beforeFirst_append noComment, Texts.beforeFirst_unmarked noComment]
    exact readAlike_equivalence.refl _
  | statement place noComment noLabel respelled =>
    obtain ⟨front, pieces⟩ := pieces_row place
    have stillNoComment := mark_not_mem_respelled (by decide) (by decide) respelled noComment
    have stillNoLabel := mark_not_mem_respelled (by decide) (by decide) respelled noLabel
    rw [Line.reading, Line.reading, pieces _ noComment noLabel, pieces _ stillNoComment stillNoLabel]
    exact ofPieces_alike front (read_respelled respelled)

theorem read_edits (edits : Relation.EqvGen LineEdit cs ds) : ReadAlike (Line.reading cs) (Line.reading ds) :=
  (readAlike_equivalence.comap Line.reading).eqvGen_iff.mp
    (Relation.EqvGen.mono (fun _ _ => read_edit) _ _ edits)

/-- **Comments, spacing and letter case do not matter.** A source that is edited assembles to
the same bytes and labels, or fails for a cause of the same sort on the same line. Every
line has a statement that can be edited, since it is one around it (`exists_row`). -/
theorem edited_assembles_alike {source changed : String} (edited : Edited source changed) :
    Fallible.Alike Error.Alike Image.Alike (assemble source) (assemble changed) :=
  assemble_alike (edited.imp fun _ _ => read_edits)

/-- What stands around a statement behind a label. -/
def behindLabel : StatementOnLine where
  labels := ['a', ':']
  comment := []
  noComment := by decide
  labels_end _ last := (Option.some.inj last).symm
  comment_starts := nofun

/-- What stands around a statement on a line of its own. -/
def onItsOwn : StatementOnLine := ⟨[], [], List.not_mem_nil, nofun, nofun⟩

/-- A comment, a comma behind a blank, and names of an instruction and a register. -/
theorem edited_assembles_alike_return :
    Edited "a: Ret ,# b\npopq %R8" "a: ret \npopq %r8" ∧
      Fallible.Alike Error.Alike Image.Alike (assemble "a: Ret ,# b\npopq %R8")
        (assemble "a: ret \npopq %r8") := by
  have free : '#' ∉ "a: Ret ,".toList := by decide
  have named : Respelled ([' '] ++ ("Ret".toList ++ " ,".toList))
      ([' '] ++ ("ret".toList ++ " ,".toList)) := by
    refine .name (List.forall_mem_singleton.mpr (by decide)) (by decide) ?_ ?_ rfl
    · simp
      decide
    · simp
      decide
  have spaced : Respelled (" ret".toList ++ " ,".toList ++ []) (" ret".toList ++ [' '] ++ []) := by
    refine .spacing _ _ (by decide) ?_
    simp
    decide
  have large : Names "%R8" .r8 := by
    unfold Names
    decide
  have renamed : Respelled ("popq ".toList ++ "%R8".toList ++ []) ("popq ".toList ++ "%r8".toList ++ []) :=
    .register _ _ large (PrintedLines.names_name .r8)
  have first := LineEdit.comment free " b".toList
  have second := LineEdit.statement behindLabel (by decide) (by decide) named
  have third := LineEdit.statement behindLabel (by decide) (by decide) spaced
  have other := LineEdit.statement onItsOwn (by decide) (by decide) renamed
  have edited : Edited "a: Ret ,# b\npopq %R8" "a: ret \npopq %r8" :=
    .cons (.trans _ _ _ (.rel _ _ first) (.trans _ _ _ (.rel _ _ second) (.rel _ _ third)))
      (.cons (.rel _ _ other) .nil)
  exact ⟨edited, edited_assembles_alike edited⟩

end Y86Toolkit.LineEdits
