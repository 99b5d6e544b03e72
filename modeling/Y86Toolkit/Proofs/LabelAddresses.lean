import Y86Toolkit.Proofs.AlikeSources
import Y86Toolkit.Proofs.LocationCounter
import Y86Toolkit.Proofs.OperandPlaces

/-!
Labels mean their addresses. An operand that is a label, or a displacement that is one,
may be spelled as the literal of the address: the first pass moves on over a statement
without a look at its operands, and the second one finds the same word in its place.
-/

namespace Y86Toolkit.LabelAddresses
open Assembly Operands OperandPlaces PrintedLines Numerals Texts Senses AlikeSources

variable {symbols : SymbolTable} {label suffix : List Char} {count address : Nat}

/-! ## Labels as operands -/

theorem identifier_chars {c : Char} (identifier : isIdentifier label = true) (held : c ∈ label) :
    (c.isAlphanum || c == '_') = true := by
  cases label with
  | nil => cases held
  | cons first rest =>
    obtain ⟨starts, others⟩ := Bool.and_eq_true_iff.mp identifier
    rcases List.mem_cons.mp held with rfl | held
    · simp only [Char.isAlphanum, Bool.or_eq_true] at starts ⊢
      exact starts.imp_left .inl
    · exact List.all_eq_true.mp others c held

/-- A character that may stand in a label, or in front of one. -/
def InLabel (c : Char) : Prop := Plain c ∧ c ≠ '(' ∧ c.toLower ≠ '%'

instance (c : Char) : Decidable (InLabel c) := inferInstanceAs (Decidable (_ ∧ _))

/-- Letters, digits and underscores are ASCII characters that have no other meaning. -/
theorem inLabel_of_identifier {c : Char} (inside : (c.isAlphanum || c == '_') = true) : InLabel c := by
  have ascii : c.toNat < 128 := by
    simp only [Char.isAlphanum, Char.isAlpha, Char.isUpper, Char.isLower, Char.isDigit, Bool.or_eq_true,
      Bool.and_eq_true, decide_eq_true_eq, beq_iff_eq, UInt32.le_iff_toNat_le, ge_iff_le] at inside
    rcases inside with ((⟨-, upTo⟩ | ⟨-, upTo⟩) | ⟨-, upTo⟩) | rfl
    · exact upTo.trans_lt (by decide)
    · exact upTo.trans_lt (by decide)
    · exact upTo.trans_lt (by decide)
    · decide
  have every : ∀ n : Fin 128, ((Char.ofNat n).isAlphanum || Char.ofNat n == '_') = true →
      InLabel (Char.ofNat n) := by decide
  have here := every ⟨c.toNat, ascii⟩
  rw [Char.ofNat_toNat] at here
  exact here inside

theorem inLabel_of_mem {c : Char} (identifier : isIdentifier label = true)
    (held : c ∈ List.replicate count '$' ++ label) : InLabel c := by
  rcases List.mem_append.mp held with dollar | inside
  · rw [List.eq_of_mem_replicate dollar]
    decide
  · exact inLabel_of_identifier (identifier_chars identifier inside)

theorem ne_nil_label (identifier : isIdentifier label = true) (count : Nat) :
    List.replicate count '$' ++ label ≠ [] := by
  obtain ⟨c, rest, rfl, -⟩ := identifier_starts identifier
  exact List.append_ne_nil_of_right_ne_nil _ (List.cons_ne_nil c rest)

theorem plainWord_label (identifier : isIdentifier label = true) (count : Nat) :
    PlainWord (List.replicate count '$' ++ label) :=
  ⟨ne_nil_label identifier count, fun _ held => (inLabel_of_mem identifier held).1⟩

/-- A label names no register. -/
theorem not_names_label (identifier : isIdentifier label = true) (r : Register) :
    ¬ Names (String.ofList (List.replicate count '$' ++ (label ++ suffix))) r := by
  intro names
  have percent : ∃ rest, r.name.toList = '%' :: rest := by
    cases r <;> exact ⟨_, rfl⟩
  obtain ⟨rest, name⟩ := percent
  obtain ⟨c, others, starts⟩ := List.exists_cons_of_ne_nil (ne_nil_label identifier count)
  rw [Names, lowered, String.toList_ofList, ← List.append_assoc, starts] at names
  have same : (c :: others ++ suffix).map Char.toLower = '%' :: rest := by
    rw [← name, ← names, String.toList_ofList]
  have first : c ∈ List.replicate count '$' ++ label := starts ▸ List.mem_cons_self
  exact (inLabel_of_mem identifier first).2.2 (List.cons.inj same).1

/-- **A label stands for its address**, and for nothing with more behind it. -/
theorem constant_label (identifier : isIdentifier label = true) (ends : ∀ c ∈ suffix.head?, c = '(')
    {w : Word}
    (constant : Constant symbols (String.ofList (List.replicate count '$' ++ (label ++ suffix))) w) :
    suffix = [] ∧ ∃ address, symbols[String.ofList label]? = some address ∧ w = UInt64.ofNat address := by
  cases constant with
  | number number =>
    rw [String.toList_ofList] at number
    cases (read_label_append identifier count suffix).symm.trans (Literals.read_eq_value_iff.mpr number)
  | @label other address more text isLabel defined =>
    have same : label ++ suffix = other.toList := by
      rw [← dropWhile_dollars_append identifier count suffix, ← dropWhile_dollars isLabel more, ← text,
        String.toList_ofList]
    cases suffix with
    | nil =>
      rw [List.append_nil] at same
      exact ⟨rfl, address, by rw [same, String.ofList_toList, defined], rfl⟩
    | cons c rest =>
      cases ends c rfl
      have held : '(' ∈ other.toList := same ▸ List.mem_append_right label List.mem_cons_self
      exact absurd rfl (inLabel_of_identifier (identifier_chars isLabel held)).2.1

/-- **A label in front of a base register is the displacement.** -/
theorem place_label (identifier : isIdentifier label = true) (ends : ∀ c ∈ suffix.head?, c = '(')
    {offset : Word} {base : Register}
    (place : Place symbols (String.ofList (List.replicate count '$' ++ (label ++ suffix))) offset base) :
    ∃ register : String, suffix = '(' :: (register.toList ++ [')']) ∧ Names register base ∧
      ∃ address, symbols[String.ofList label]? = some address ∧ offset = UInt64.ofNat address := by
  obtain ⟨displacement, register, whole, unmarked, names, stands⟩ := place
  have free : '(' ∉ List.replicate count '$' ++ label :=
    fun held => (inLabel_of_mem identifier held).2.1 rfl
  have text : List.replicate count '$' ++ label ++ suffix =
      displacement.toList ++ '(' :: (register.toList ++ [')']) := by
    rw [List.append_assoc, ← String.toList_ofList (l := _ ++ (label ++ suffix)), whole]
    simp
  have parts := splitAtFirst_append unmarked (register.toList ++ [')'])
  rw [← text] at parts
  cases suffix with
  | nil =>
    rw [List.append_nil, splitAtFirst_eq_none_iff.mpr free] at parts
    cases parts
  | cons c rest =>
    cases ends c rfl
    rw [splitAtFirst_append free] at parts
    obtain ⟨front, rfl⟩ := Prod.mk.inj (Option.some.inj parts)
    refine ⟨register, rfl, names, ?_⟩
    rcases stands with ⟨rfl, -⟩ | ⟨-, constant⟩
    · exact absurd front (ne_nil_label identifier count)
    · rw [← String.ofList_toList (s := displacement), ← front, ← List.append_nil label] at constant
      have bare : ∀ c ∈ ([] : List Char).head?, c = '(' := nofun
      exact (constant_label identifier bare constant).2

/-- **A literal of the address keeps the sense of a label.** -/
theorem keeps_literal {literal : List Char} (identifier : isIdentifier label = true)
    (ends : ∀ c ∈ suffix.head?, c = '(') (found : symbols[String.ofList label]? = some address)
    (number : Literal.Number literal (UInt64.ofNat address)) (some : literal ≠ []) (free : '(' ∉ literal) :
    Keeps symbols symbols (String.ofList (List.replicate count '$' ++ (label ++ suffix)))
      (String.ofList (literal ++ suffix)) := by
  refine ⟨fun r names => absurd names (not_names_label identifier r), fun w constant => ?_, ?_⟩
  · obtain ⟨rfl, other, defined, rfl⟩ := constant_label identifier ends constant
    cases found.symm.trans defined
    refine .number ?_
    rwa [List.append_nil, String.toList_ofList]
  · intro offset base place
    obtain ⟨register, rfl, names, other, defined, rfl⟩ := place_label identifier ends place
    cases found.symm.trans defined
    refine ⟨String.ofList literal, register, ?_, by rwa [String.toList_ofList], names, .inr ⟨?_, ?_⟩⟩
    · rw [← String.toList_inj]
      simp
    · simpa using some
    · refine .number ?_
      rwa [String.toList_ofList]

/-- **A label that is an operand is defined.** -/
theorem label_defined (identifier : isIdentifier label = true) (ends : ∀ c ∈ suffix.head?, c = '(')
    {statement : Statement} {data : List Byte} (emitted : statement.bytes symbols = .ok data)
    (held : String.ofList (List.replicate count '$' ++ (label ++ suffix)) ∈ statement.operands) :
    ∃ address, symbols[String.ofList label]? = some address := by
  cases sense_bytes emitted held with
  | register names => exact absurd names (not_names_label identifier _)
  | constant constant =>
    obtain ⟨-, address, defined, -⟩ := constant_label identifier ends constant
    exact ⟨address, defined⟩
  | place place =>
    obtain ⟨_, -, -, address, defined, -⟩ := place_label identifier ends place
    exact ⟨address, defined⟩

/-! ## Literals -/

theorem literal_of_hex {places : Nat} {literal : String} (inRange : address ≤ Image.maxSize)
    (isLiteral : literal = Numeral.hex places address ∨ literal = "$" ++ Numeral.hex places address) :
    Literal.Number literal.toList (UInt64.ofNat address) ∧ PlainWord literal.toList ∧ '(' ∉ literal.toList := by
  have word : (UInt64.ofNat address).toNat = address :=
    UInt64.toNat_ofNat_of_lt (inRange.trans_lt (by decide))
  have signed := signed_hex places (UInt64.ofNat address)
  rw [word] at signed
  have plain := plain_hex places address
  have free : '(' ∉ (Numeral.hex places address).toList := by
    simp only [toList_hex, List.mem_cons, not_or]
    refine ⟨by decide, by decide, fun held => ?_⟩
    obtain ⟨d, digit⟩ := hexDigit_of_mem held
    revert d
    decide
  rcases isLiteral with rfl | rfl
  · exact ⟨.inl signed, plain, free⟩
  · have text : ("$" ++ Numeral.hex places address).toList =
        '$' :: (Numeral.hex places address).toList := by simp
    have dollar : PlainWord ['$'] := by decide
    rw [text]
    refine ⟨.inr ⟨_, rfl, signed⟩, plain_append dollar plain, fun held => ?_⟩
    rcases List.mem_cons.mp held with same | held
    · exact absurd same (by decide)
    · exact free held

/-! ## The line of an operand -/

/-- Every line that counts has a statement with bytes. -/
theorem row_emitted {counter : Nat} {rows : List (List Char)} {fs : List Fragment} {row : List Char}
    (emitted : Emission.Emitted symbols counter rows fs) (isRow : row ∈ rows) :
    ∃ statement data, Statement.read (codeOf row) = .ok statement ∧ statement.bytes symbols = .ok data := by
  induction emitted with
  | nil => cases isRow
  | cons agrees _ ih =>
    rcases List.mem_cons.mp isRow with rfl | later
    · exact ⟨_, _, agrees.read, agrees.emitted⟩
    · exact ih later

/-- One operand of a line is spelled in another way. -/
theorem lineKeeps_replaced {cs ds : List Char} {front : List (List Char)} {name operand literal : String}
    {earlier later : List String} (apart : TakenApart cs front (name :: (earlier ++ operand :: later)))
    (replaced : TakenApart ds front (name :: (earlier ++ literal :: later)))
    (other : Literal.read operand.toList = .notNumeric) (keeps : Keeps symbols symbols operand literal) :
    LineKeeps symbols symbols cs ds := by
  obtain ⟨counts, code, parts, inside⟩ := apart
  obtain ⟨countsToo, changed, partsToo, insideToo⟩ := replaced
  refine .row (SourceRows.read?_eq_some_iff.mpr ⟨counts, rfl⟩)
    (SourceRows.read?_eq_some_iff.mpr ⟨countsToo, rfl⟩)
    fun statement readable => ?_
  rw [parts] at readable
  obtain ⟨-, read⟩ := SourceRows.ofPieces_ok (Prod.ext rfl readable)
  rw [List.getLastD_concat, Words.read_words inside] at read
  have spelled := Words.ofFields_eq_ok_iff_spelled.mp read
  have same := operands_spelled spelled (List.mem_append_right earlier List.mem_cons_self) other
  have themselves (operands : List String) : List.Forall₂ (Keeps symbols symbols) operands operands :=
    List.forall₂_same.mpr fun operand _ => keeps_of_includes (fun _ _ found => found) operand
  obtain ⟨rewritten, spelledToo, keep⟩ :=
    keeps_spelled spelled same (List.rel_append (themselves earlier) (.cons keeps (themselves later)))
  have readToo := (Words.read_words insideToo).trans (Words.ofFields_eq_ok_iff_spelled.mpr spelledToo)
  have whole := SourceRows.ofPieces_concat (Prod.ext rfl readable) readToo
  rw [parts, partsToo, whole]
  exact ⟨rfl, rewritten, rfl, keep⟩

/-- A label that is an operand in a source is defined there. -/
theorem exists_address {source name : String} {image : Image} {row : List Char} {front : List (List Char)}
    {earlier later : List String} (ran : assemble source = .ok image) (isRow : row ∈ rows source)
    (identifier : isIdentifier label = true) (ends : ∀ c ∈ suffix.head?, c = '(')
    (apart : TakenApart row front
      (name :: (earlier ++ String.ofList (List.replicate count '$' ++ (label ++ suffix)) :: later))) :
    ∃ address, image.symbols[String.ofList label]? = some address := by
  obtain ⟨-, code, parts, inside⟩ := apart
  obtain ⟨fs, emitted, -⟩ := Emission.assemble_emitted ran
  obtain ⟨statement, data, read, bytes⟩ := row_emitted emitted isRow
  rw [codeOf, parts, List.getLastD_concat, Words.read_words inside] at read
  have held : String.ofList (List.replicate count '$' ++ (label ++ suffix)) ∈
      earlier ++ String.ofList (List.replicate count '$' ++ (label ++ suffix)) :: later :=
    List.mem_append_right earlier List.mem_cons_self
  have other := read_label_append identifier count suffix
  rw [← String.toList_ofList (l := _ ++ (label ++ suffix))] at other
  rw [← operands_spelled (Words.ofFields_eq_ok_iff_spelled.mp read) held other] at held
  exact label_defined identifier ends bytes held

/-- **Labels mean their addresses.** A label that is an operand is defined, and when the
literal of its address is written for it, with or without a dollar sign, the source has
the same bytes and the same labels, and every line its address and length. Any operand
of any statement may be the one, since each has its place (`exists_place`). -/
theorem label_means_address (place : OperandPlace) {label : String} {count : Nat} {image : Image}
    (identifier : isIdentifier label.toList = true)
    (ran : assemble (place.filled (String.ofList (List.replicate count '$') ++ label)) = .ok image) :
    ∃ address, image.symbols[label]? = some address ∧ ∀ (places : Nat) (literal : String),
      literal = Numeral.hex places address ∨ literal = "$" ++ Numeral.hex places address →
      ∃ changed, assemble (place.filled literal) = .ok changed ∧ changed.bytes = image.bytes ∧
        changed.symbols = image.symbols ∧
        changed.lines.toList.map (fun line => (line.address, line.length)) =
          image.lines.toList.map fun line => (line.address, line.length) := by
  have text : (String.ofList (List.replicate count '$') ++ label).toList =
      List.replicate count '$' ++ label.toList := by simp
  have plain : PlainWord (String.ofList (List.replicate count '$') ++ label).toList :=
    text ▸ plainWord_label identifier count
  obtain ⟨above, below, lines⟩ := lines_filled place
  obtain ⟨front, suffix, name, earlier, later, ends, words⟩ := exists_words place.toOperandOnLine
  have apart := words _ plain
  have isRow : place.row (String.ofList (List.replicate count '$') ++ label).toList ∈
      rows (place.filled (String.ofList (List.replicate count '$') ++ label)) := by
    rw [rows, lines _ plain]
    exact List.mem_filter.mpr ⟨List.mem_append_right above List.mem_cons_self, by rw [apart.counts]; rfl⟩
  rw [text, List.append_assoc, ← text] at apart
  obtain ⟨address, found⟩ := exists_address ran isRow identifier ends apart
  have defined := found
  rw [String.ofList_toList] at defined
  refine ⟨address, defined, fun places literal isLiteral => assemble_keeps ran ?_⟩
  -- The other lines are what they were.
  obtain ⟨number, plainLiteral, free⟩ :=
    literal_of_hex (LocationCounter.labels_within ran label address defined) isLiteral
  have same (cs : List (List Char)) : List.Forall₂ (LineKeeps image.symbols image.symbols) cs cs :=
    List.forall₂_same.mpr fun cs _ => lineKeeps_refl image.symbols cs
  rw [lines _ plain, lines _ plainLiteral]
  refine List.rel_append (same above) (.cons ?_ (same below))
  refine lineKeeps_replaced apart (words _ plainLiteral) ?_
    (keeps_literal identifier ends found number plainLiteral.1 free)
  rw [String.toList_ofList]
  exact read_label_append identifier count suffix

/-- The displacement on the first of two lines. -/
def displacement : OperandPlace where
  above := []
  labels := "go:".toList
  lead := " mrmovq ".toList
  rest := "(%rdi), %rax # forward: data".toList
  below := "\ndata: .quad go".toList
  noComment := by decide
  labels_end := by simp
  noLabel := by decide
  named := ⟨'m', by decide, by decide⟩
  lead_ends := by simp; decide
  rest_starts := by simp
  oneLine := by decide
  above_ends := nofun
  below_starts := by simp

/-- The image of these lines with a label there. -/
def loadsForward : Image where
  bytes := #[0x50, 0x07, 10, 0, 0, 0, 0, 0, 0, 0, 0, 0, 0, 0, 0, 0, 0, 0]
  lines := #[⟨0, 10, "go: mrmovq $data(%rdi), %rax # forward: data"⟩, ⟨10, 8, "data: .quad go"⟩]
  symbols := (({} : SymbolTable).insert "go" 0).insert "data" 10

/-- A displacement that is defined further down may be spelled in hexadecimal. -/
theorem label_means_address_forward :
    displacement.filled "$data" = "go: mrmovq $data(%rdi), %rax # forward: data\ndata: .quad go" ∧
      displacement.filled "0x00a" = "go: mrmovq 0x00a(%rdi), %rax # forward: data\ndata: .quad go" ∧
      assemble (displacement.filled "$data") = .ok loadsForward ∧ loadsForward.symbols["data"]? = some 10 ∧
      ∃ changed, assemble (displacement.filled "0x00a") = .ok changed ∧ changed.bytes = loadsForward.bytes ∧
        changed.symbols = loadsForward.symbols ∧
        changed.lines.toList.map (fun line => (line.address, line.length)) = [(0, 10), (10, 8)] := by
  have identifier : isIdentifier "data".toList = true := by decide
  have ran : assemble (displacement.filled (String.ofList (List.replicate 1 '$') ++ "data")) =
      .ok loadsForward := by cbv
  obtain ⟨address, found, replaced⟩ := label_means_address displacement identifier ran
  have defined : loadsForward.symbols["data"]? = some 10 := by cbv
  obtain rfl : 10 = address := Option.some.inj (defined.symm.trans found)
  exact ⟨by cbv, by cbv, ran, defined, replaced 3 "0x00a" (.inl (by cbv))⟩

end Y86Toolkit.LabelAddresses
