import Y86Toolkit.Proofs.AppendedSources

/-!
Errors point at a culprit. The line of an error is one of the source, and nothing behind
it is to blame: the lines up to there fail by themselves. An error of the first pass is
found again as it is; one of the second pass may give way to an earlier one, since labels
that are defined further down are missing then.
-/

namespace Y86Toolkit.Assembly

/-- What is found while lines are laid out: too few or too many operands, a mnemonic
that does not exist, a label that is taken or none at all, anything about a directive for
locations, and a location past the limit of images. -/
inductive FoundInLayout (source : String) (e : Error) : Prop where
  | operandCount (kind : e.cause.kind = .operandCount)
  | unknownMnemonic (kind : e.cause.kind = .unknownMnemonic)
  | duplicateLabel (kind : e.cause.kind = .duplicateLabel)
  | invalidLabel {found : String} (cause : e.cause = .invalidLabel found)
  | directive {row : List Char} {name : String} {operands : List String}
      (isRow : (Text.lines source.toList)[e.line - 1]? = some row)
      (inside : Words (codeOf row) ((name :: operands).map String.toList))
      (locates : lowered name = ".pos" ∨ lowered name = ".align")
  | location {row : List Char} {layout : Layout} {statement : Statement}
      (isRow : (Text.lines source.toList)[e.line - 1]? = some row)
      (laidOut : Layout.placeAll {} 1 ((Text.lines source.toList).take (e.line - 1)) = .ok layout)
      (read : Statement.read (codeOf row) = .ok statement)
      (past : Image.maxSize < statement.next layout.counter)

end Y86Toolkit.Assembly

namespace Y86Toolkit.Culprits
open Assembly Layouts LocationCounter Senses AppendedSources Fallible

variable {symbols : SymbolTable} {layout final : Layout} {number : Nat} {lines : List (List Char)}
  {source : String} {e : Error}

/-! ## Statements -/

theorem ofFields_locates {name : String} {operands : List String} {statement : Statement}
    (locates : lowered name = ".pos" ∨ lowered name = ".align")
    (read : Statement.ofFields name operands = .ok statement) : statement.bytes symbols = .ok [] := by
  cases Words.ofFields_eq_ok_iff_spelled.mp read with
  | origin | align => rfl
  | quad named | byte named =>
    rw [named] at locates
    exact absurd locates (by decide)
  | @instruction mnemonic _ named =>
    rw [named] at locates
    refine absurd ?_ (Words.name_not_mem_directives mnemonic)
    rcases locates with same | same <;> rw [same] <;> decide

theorem single_error {name : String} {operands : List String} {cause : Cause}
    (failed : Statement.single name operands = .error cause) : cause.kind = .operandCount := by
  unfold Statement.single at failed
  split at failed
  · cases failed
  · cases failed
    rfl

/-- Why a statement cannot be read. -/
theorem ofFields_error {name : String} {operands : List String} {cause : Cause}
    (failed : Statement.ofFields name operands = .error cause) :
    (lowered name = ".pos" ∨ lowered name = ".align") ∨
      cause.kind = .operandCount ∨ cause.kind = .unknownMnemonic := by
  simp only [Statement.ofFields] at failed
  rw [← lowered] at failed
  split at failed
  · exact .inl (.inl ‹_›)
  split at failed
  · exact .inl (.inr ‹_›)
  split at failed
  · exact .inr (.inl (single_error (bind_pure_eq_error.mp failed)))
  split at failed
  · exact .inr (.inl (single_error (bind_pure_eq_error.mp failed)))
  split at failed
  · cases failed
    exact .inr (.inr rfl)
  · split at failed
    · cases failed
    · cases failed
      exact .inr (.inl rfl)

theorem read_error {code : List Char} {cause : Cause} (failed : Statement.read code = .error cause) :
    ∃ name operands, Words code ((name :: operands).map String.toList) ∧
      Statement.ofFields name operands = .error cause := by
  obtain ⟨words, inside⟩ := Words.exists_words code
  cases words with
  | nil =>
    have none : Text.fields (code.map fun c => if c = ',' then ' ' else c) = [] :=
      Words.fields_of_words inside
    rw [Statement.read, none] at failed
    cases failed
  | cons word others =>
    have texts : word :: others = ((String.ofList word :: others.map String.ofList).map String.toList) := by
      simp
    rw [texts] at inside
    rw [Words.read_words inside] at failed
    exact ⟨_, _, inside, failed⟩

theorem ofPieces_error {parts : List (List Char)} {labels : List String} {cause : Cause}
    (unreadable : Line.ofPieces parts = (labels, .error cause)) :
    (∃ found, cause = .invalidLabel found) ∨ Statement.read (parts.getLastD []) = .error cause := by
  induction parts generalizing labels with
  | nil => cases unreadable
  | cons part rest ih =>
    cases rest with
    | nil => exact .inr (Prod.mk.inj unreadable).2
    | cons second rest =>
      rw [Line.ofPieces] at unreadable
      · split at unreadable
        · cases behind : Line.ofPieces (second :: rest) with
          | mk others code =>
            rw [behind] at unreadable
            obtain ⟨rfl, rfl⟩ := Prod.mk.inj unreadable
            simpa using ih behind
        · cases (Prod.mk.inj unreadable).2
          exact .inl ⟨_, rfl⟩
      · exact List.cons_ne_nil second rest

/-! ## Lines -/

theorem define_error {address : Nat} {labels : List String} {cause : Cause}
    (failed : Layout.define symbols address labels = .error cause) : cause.kind = .duplicateLabel := by
  induction labels generalizing symbols with
  | nil => cases failed
  | cons label rest ih =>
    rw [Layout.define] at failed
    split at failed
    · cases failed
      rfl
    · exact ih failed

/-- Why a line cannot be laid out. -/
theorem place_error {row : List Char} {line : Line} {cause : Cause} (isLine : Line.read? row = some line)
    (failed : layout.place number line = .error cause) :
    cause.kind = .duplicateLabel ∨ (∃ found, cause = .invalidLabel found) ∨
      Statement.read (codeOf row) = .error cause ∨
      ∃ statement, Statement.read (codeOf row) = .ok statement ∧
        Image.maxSize < statement.next layout.counter := by
  obtain ⟨counts, rfl⟩ := SourceRows.read?_eq_some_iff.mp isLine
  obtain ⟨_, again, -, read⟩ := SourceRows.read?_row counts
  cases isLine.symm.trans again
  rcases bind_eq_error.mp failed with taken | ⟨defined, -, rest⟩
  · exact .inl (define_error taken)
  rcases bind_eq_error.mp rest with unreadable | ⟨statement, readable, rest⟩
  · exact .inr ((ofPieces_error (Prod.ext rfl unreadable)).imp_right .inl)
  · dsimp only at rest
    split at rest
    · rename_i past
      exact .inr (.inr (.inr ⟨statement, (read statement readable).2, past⟩))
    · cases rest

/-! ## The first pass -/

theorem placeAll_cons (layout : Layout) (number : Nat) (cs : List Char) (rest : List (List Char)) :
    layout.placeAll number (cs :: rest) =
      layout.placeAll number [cs] >>= fun next => next.placeAll (number + 1) rest :=
  placeAll_append layout number [cs] rest

/-- One line fails the first pass if it cannot be placed. -/
theorem placeAll_single_error {cs : List Char} (failed : layout.placeAll number [cs] = .error e) :
    e.line = number ∧ ∃ line, Line.read? cs = some line ∧ layout.place number line = .error e.cause := by
  rw [Layout.placeAll] at failed
  split at failed
  · cases failed
  · rename_i line isLine
    split at failed
    · cases failed
    · rename_i cause stopped
      cases failed
      exact ⟨rfl, line, isLine, stopped⟩

theorem place_line {line : Line} {next : Layout} {item : Item} (passed : layout.place number line = .ok next)
    (pushed : next.items = layout.items.push item) : item.line = number := by
  simp only [Layout.place, bind_eq_ok] at passed
  obtain ⟨_, -, _, -, placed⟩ := passed
  split at placed
  · cases placed
  · cases placed
    rw [← (Array.push_eq_push.mp pushed).1]

/-- One line makes at most one item. -/
theorem placeAll_single {cs : List Char} {next : Layout} (ran : layout.placeAll number [cs] = .ok next) :
    ∃ items, next.items.toList = layout.items.toList ++ items ∧ ∀ item ∈ items,
      item.line = number ∧ Statement.read (codeOf cs) = .ok item.statement ∧
        item.statement.next layout.counter ≤ Image.maxSize := by
  cases isLine : Line.read? cs with
  | none =>
    simp only [Layout.placeAll, isLine] at ran
    cases ran
    exact ⟨[], (List.append_nil _).symm, fun _ held => absurd held List.not_mem_nil⟩
  | some line =>
    simp only [Layout.placeAll, isLine] at ran
    cases passed : layout.place number line with
    | error cause =>
      rw [passed] at ran
      cases ran
    | ok placed =>
      rw [passed] at ran
      cases ran
      obtain ⟨counts, -⟩ := SourceRows.read?_eq_some_iff.mp isLine
      obtain ⟨item, placement⟩ := place_placed counts isLine passed
      refine ⟨[item], by rw [placement.items, Array.toList_push], fun only held => ?_⟩
      obtain rfl := List.mem_singleton.mp held
      exact ⟨place_line passed placement.items, placement.read, placement.counter ▸ placement.inRange⟩

/-- The lines in front of the first one that cannot be placed. -/
theorem placeAll_error (failed : layout.placeAll number lines = .error e) :
    ∃ k row before line, lines[k]? = some row ∧ e.line = number + k ∧
      layout.placeAll number (lines.take k) = .ok before ∧ Line.read? row = some line ∧
      before.place e.line line = .error e.cause := by
  induction lines generalizing layout number with
  | nil => cases failed
  | cons cs rest ih =>
    rw [placeAll_cons] at failed
    rcases bind_eq_error.mp failed with here | ⟨next, passed, later⟩
    · obtain ⟨rfl, line, isLine, stopped⟩ := placeAll_single_error here
      exact ⟨0, cs, layout, line, rfl, rfl, rfl, isLine, stopped⟩
    · obtain ⟨k, row, before, line, isRow, place, laidOut, isLine, stopped⟩ := ih later
      refine ⟨k + 1, row, before, line, isRow, by omega, ?_, isLine, stopped⟩
      rw [List.take_succ_cons, placeAll_cons]
      exact bind_eq_ok.mpr ⟨next, passed, laidOut⟩

/-- Every item stands for one of the lines, which leads on within the limit of images. -/
theorem placeAll_items (ran : layout.placeAll number lines = .ok final) :
    ∃ items, final.items.toList = layout.items.toList ++ items ∧ ∀ item ∈ items,
      ∃ k row before, lines[k]? = some row ∧ item.line = number + k ∧
        layout.placeAll number (lines.take k) = .ok before ∧
        Statement.read (codeOf row) = .ok item.statement ∧
        item.statement.next before.counter ≤ Image.maxSize := by
  induction lines generalizing layout number with
  | nil =>
    cases ran
    exact ⟨[], (List.append_nil _).symm, fun _ held => absurd held List.not_mem_nil⟩
  | cons cs rest ih =>
    rw [placeAll_cons] at ran
    obtain ⟨next, passed, later⟩ := bind_eq_ok.mp ran
    obtain ⟨first, listed, here⟩ := placeAll_single passed
    obtain ⟨others, behind, stand⟩ := ih later
    refine ⟨first ++ others, by rw [behind, listed, List.append_assoc], fun item held => ?_⟩
    rcases List.mem_append.mp held with early | late
    · obtain ⟨place, read, inRange⟩ := here item early
      exact ⟨0, cs, layout, rfl, place, rfl, read, inRange⟩
    · obtain ⟨k, row, before, isRow, place, laidOut, read, inRange⟩ := stand item late
      refine ⟨k + 1, row, before, isRow, by omega, ?_, read, inRange⟩
      rw [List.take_succ_cons, placeAll_cons]
      exact bind_eq_ok.mpr ⟨next, passed, laidOut⟩

/-! ## Which pass -/

/-- What fails the first pass is found there. -/
theorem found_of_ofSource_error (failed : Layout.ofSource source = .error e) : FoundInLayout source e := by
  obtain ⟨k, row, before, line, isRow, place, laidOut, isLine, stopped⟩ := placeAll_error failed
  obtain rfl : k = e.line - 1 := by omega
  rcases place_error isLine stopped with taken | ⟨_, unnamed⟩ | unreadable | ⟨statement, read, past⟩
  · exact .duplicateLabel taken
  · exact .invalidLabel unnamed
  · obtain ⟨name, operands, inside, unreadable⟩ := read_error unreadable
    rcases ofFields_error unreadable with locates | counted | unknown
    · exact .directive isRow inside locates
    · exact .operandCount counted
    · exact .unknownMnemonic unknown
  · exact .location isRow laidOut read past

/-- The item at which the second pass fails. -/
theorem emitAll_culprit (laidOut : Layout.placeAll {} 1 lines = .ok layout)
    (failed : emitAll symbols .empty layout.items.toList = .error e) :
    ∃ k row before statement, lines[k]? = some row ∧ e.line = 1 + k ∧
      Layout.placeAll {} 1 (lines.take k) = .ok before ∧ Statement.read (codeOf row) = .ok statement ∧
      statement.next before.counter ≤ Image.maxSize ∧ statement.bytes symbols = .error e.cause := by
  obtain ⟨items, made, stand⟩ := placeAll_items laidOut
  have listed : layout.items.toList = items := made
  have settled := (placeAll_settled laidOut).2.1
  obtain ⟨item, held, here, stopped⟩ :=
    emitAll_error (fun item held => settled item (Array.mem_toList_iff.mp held)) failed
  obtain ⟨k, row, before, isRow, place, front, read, inRange⟩ := stand item (listed ▸ held)
  exact ⟨k, row, before, item.statement, isRow, here.symm.trans place, front, read, inRange, stopped⟩

/-- What fails the second pass is nothing that is found in the first one. -/
theorem not_found_of_emitAll_error (laidOut : Layout.ofSource source = .ok layout)
    (failed : emitAll layout.symbols .empty layout.items.toList = .error e) : ¬ FoundInLayout source e := by
  obtain ⟨k, row, before, statement, isRow, place, front, read, inRange, stopped⟩ :=
    emitAll_culprit laidOut failed
  obtain rfl : k = e.line - 1 := by omega
  have ofOperand := ofOperand_bytes read stopped
  intro found
  cases found with
  | operandCount kind | unknownMnemonic kind | duplicateLabel kind =>
    cases cause : e.cause <;> rw [cause] at kind ofOperand <;> cases kind
    exact ofOperand
  | invalidLabel cause =>
    rw [cause] at ofOperand
    exact ofOperand
  | directive sameRow inside locates =>
    cases isRow.symm.trans sameRow
    rw [Words.read_words inside] at read
    cases (ofFields_locates locates read).symm.trans stopped
  | location sameRow sameFront sameRead past =>
    cases isRow.symm.trans sameRow
    cases front.symm.trans sameFront
    cases read.symm.trans sameRead
    exact Nat.not_lt_of_le inRange past

/-! ## The lines up to the error -/

/-- The first pass fails on the lines up to its error as it does on all. -/
theorem placeAll_take (failed : Layout.placeAll {} 1 lines = .error e) :
    Layout.placeAll {} 1 (lines.take e.line) = .error e := by
  obtain ⟨k, row, before, line, isRow, place, front, isLine, stopped⟩ := placeAll_error failed
  have long : (lines.take k).length = k :=
    List.length_take_of_le (List.getElem?_eq_some_iff.mp isRow).1.le
  have here : before.placeAll e.line [row] = .error e := by
    simp only [Layout.placeAll, isLine, stopped]
  rw [place] at here
  rw [place, Nat.add_comm, List.take_add_one, isRow, placeAll_append, front, long]
  exact here

/-- **The second pass fails on the lines up to its error**, for a reason there or one
further up. -/
theorem emitAll_front {n : Nat} {part : Layout} (laidOut : Layout.placeAll {} 1 lines = .ok layout)
    (failed : emitAll layout.symbols .empty layout.items.toList = .error e) (within : e.line ≤ n)
    (front : Layout.placeAll {} 1 (lines.take n) = .ok part) :
    ∃ culprit, emitAll part.symbols .empty part.items.toList = .error culprit ∧
      1 ≤ culprit.line ∧ culprit.line ≤ n := by
  cases ran : emitAll part.symbols .empty part.items.toList with
  | error culprit =>
    obtain ⟨k, row, -, -, isRow, place, -⟩ := emitAll_culprit front ran
    have inFront : k < n := (List.getElem?_eq_some_iff.mp isRow).1.trans_le (List.length_take_le n lines)
    exact ⟨culprit, rfl, by omega, by omega⟩
  | ok done =>
    -- Then nothing is wrong with these lines when all labels are known, and the error is further down.
    exfalso
    have settled := (placeAll_settled laidOut).2.1
    rw [← List.take_append_drop n lines, placeAll_append, front] at laidOut
    obtain ⟨items, made, stand⟩ := placeAll_items laidOut
    obtain ⟨_, laid⟩ := placeAll_laid laidOut
    rw [made, emitAll_append, emitAll_keeps (laid_includes laid) ran] at failed
    obtain ⟨item, held, here, -⟩ := emitAll_error (fun item held =>
      settled item (Array.mem_toList_iff.mp (made ▸ List.mem_append_right _ held))) failed
    obtain ⟨k, row, -, isRow, place, -⟩ := stand item held
    have behind : n + k < lines.length := by
      rw [List.getElem?_drop] at isRow
      exact (List.getElem?_eq_some_iff.mp isRow).1
    rw [List.length_take_of_le (by omega)] at place
    omega

theorem assemble_of_ofSource_error (failed : Layout.ofSource source = .error e) :
    assemble source = .error e := by
  rw [assemble, failed]
  rfl

theorem assemble_of_emitAll_error (laidOut : Layout.ofSource source = .ok layout)
    (failed : emitAll layout.symbols .empty layout.items.toList = .error e) : assemble source = .error e := by
  rw [assemble, laidOut]
  exact bind_eq_error.mpr (.inr ⟨layout, rfl, bind_pure_eq_error.mpr failed⟩)

/-- **An error points at a culprit.** Its line is one of the source, and the lines up to
there fail by themselves, on that line or one further up. The error is one of the first
pass if it is found in the layout, and then it is the same for these lines. -/
theorem error_at_culprit {source : String} {e : Error} (failed : assemble source = .error e) :
    1 ≤ e.line ∧ e.line ≤ (Text.lines source.toList).length ∧
      (Layout.ofSource source = .error e ↔ FoundInLayout source e) ∧
      (∃ part : String, Text.lines part.toList = (Text.lines source.toList).take e.line) ∧
      ∀ part : String, Text.lines part.toList = (Text.lines source.toList).take e.line →
        ∃ culprit, assemble part = .error culprit ∧ 1 ≤ culprit.line ∧ culprit.line ≤ e.line ∧
          (FoundInLayout source e → culprit = e) := by
  have bounds : ∃ k row, (Text.lines source.toList)[k]? = some row ∧ e.line = 1 + k := by
    rcases assemble_error failed with stopped | ⟨layout, laidOut, stopped⟩
    · obtain ⟨k, row, -, -, isRow, place, -⟩ := placeAll_error stopped
      exact ⟨k, row, isRow, place⟩
    · obtain ⟨k, row, -, -, isRow, place, -⟩ := emitAll_culprit laidOut stopped
      exact ⟨k, row, isRow, place⟩
  obtain ⟨k, row, isRow, place⟩ := bounds
  have inside := (List.getElem?_eq_some_iff.mp isRow).1
  refine ⟨by omega, by omega, ⟨found_of_ofSource_error, fun found => ?_⟩, ?_, fun part lines => ?_⟩
  · refine (assemble_error failed).resolve_right ?_
    rintro ⟨layout, laidOut, stopped⟩
    exact not_found_of_emitAll_error laidOut stopped found
  · refine ⟨String.ofList (((Text.lines source.toList).take e.line).flatMap (· ++ ['\n'])), ?_⟩
    rw [String.toList_ofList]
    exact Texts.lines_flatMap fun l held => Texts.lineFeed_not_mem (List.mem_of_mem_take held)
  rcases assemble_error failed with stopped | ⟨layout, laidOut, stopped⟩
  · have again : Layout.ofSource part = .error e := by
      rw [Layout.ofSource, lines]
      exact placeAll_take stopped
    exact ⟨e, assemble_of_ofSource_error again, by omega, le_rfl, fun _ => rfl⟩
  · have whole := laidOut
    rw [Layout.ofSource, ← List.take_append_drop e.line (Text.lines source.toList), placeAll_append] at whole
    obtain ⟨next, front, -⟩ := bind_eq_ok.mp whole
    obtain ⟨culprit, fails, first, upTo⟩ := emitAll_front laidOut stopped le_rfl front
    rw [← lines] at front
    exact ⟨culprit, assemble_of_emitAll_error front fails, first, upTo,
      fun found => absurd found (not_found_of_emitAll_error laidOut stopped)⟩

/-- Without the last line a label is missing, so that the jump to it is the culprit; a
label that is taken is the same error without what comes behind it. -/
theorem error_at_culprit_earlier :
    (assemble "jmp end\npushq %r15\nend: halt" = .error ⟨2, .unknownRegister "%r15"⟩ ∧
      assemble "jmp end\npushq %r15" = .error ⟨1, .undefinedLabel "end"⟩ ∧
      ∃ culprit, assemble "jmp end\npushq %r15" = .error culprit ∧ 1 ≤ culprit.line ∧ culprit.line ≤ 2) ∧
    assemble "end: nop\nend: nop\njmp away" = .error ⟨2, .duplicateLabel "end"⟩ ∧
      assemble "end: nop\nend: nop" = .error ⟨2, .duplicateLabel "end"⟩ := by
  have register : assemble "jmp end\npushq %r15\nend: halt" = .error ⟨2, .unknownRegister "%r15"⟩ := by cbv
  have missing : assemble "jmp end\npushq %r15" = .error ⟨1, .undefinedLabel "end"⟩ := by cbv
  have taken : assemble "end: nop\nend: nop\njmp away" = .error ⟨2, .duplicateLabel "end"⟩ := by cbv
  have upToRegister : Text.lines "jmp end\npushq %r15".toList =
      (Text.lines "jmp end\npushq %r15\nend: halt".toList).take 2 := by cbv
  have upToLabel : Text.lines "end: nop\nend: nop".toList =
      (Text.lines "end: nop\nend: nop\njmp away".toList).take 2 := by cbv
  obtain ⟨-, -, -, -, behindRegister⟩ := error_at_culprit register
  obtain ⟨culprit, fails, first, upTo, -⟩ := behindRegister _ upToRegister
  obtain ⟨-, -, -, -, behindLabel⟩ := error_at_culprit taken
  obtain ⟨_, again, -, -, same⟩ := behindLabel _ upToLabel
  obtain rfl := same (.duplicateLabel rfl)
  exact ⟨⟨register, missing, culprit, fails, first, upTo⟩, taken, again⟩

end Y86Toolkit.Culprits
