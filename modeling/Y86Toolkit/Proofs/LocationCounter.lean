import Y86Toolkit.Proofs.ListingRoundTrip
import Y86Toolkit.Proofs.SignedWords

/-!
The location counter. It stands within the limit of images in front of every line,
so that no step of it leaves the range of words, and what the first pass has let
through always finds its place in an image: behind the first pass only operands are
a reason to fail.
-/

namespace Y86Toolkit

/-- The causes that are found in an operand. -/
def Assembly.Cause.OfOperand : Assembly.Cause → Prop
  | .valueExpected _ | .memoryOperandExpected _ | .unknownRegister _ | .undefinedLabel _
  | .valueOutOfRange _ => True
  | _ => False

namespace LocationCounter
open Assembly Fragments Layouts Emission

variable {symbols : SymbolTable} {statement : Statement} {code : List Char}

/-- From within the limit of images, the counter stays among the words. The farthest
step is to align to a large number: from in front of its first multiple the counter
goes to the number itself. -/
theorem next_lt {counter : Nat} (read : Statement.read code = .ok statement)
    (inRange : counter ≤ Image.maxSize) : statement.next counter < 2 ^ 64 := by
  have limit : Image.maxSize = 2 ^ 20 := rfl
  have words : Word.limit Word.width = 2 ^ 64 := SignedWords.limit_width
  have checked := read_checked read
  cases statement with
  | empty | quad operand | byte operand =>
    simp only [Statement.next]
    omega
  | origin address => exact words ▸ checked
  | align alignment =>
    obtain ⟨positive, word⟩ := checked
    by_cases small : alignment ≤ counter
    · have rest : counter % alignment < alignment := Nat.mod_lt counter positive
      simp only [Statement.next]
      split <;> omega
    · have rest : counter % alignment = counter := Nat.mod_eq_of_lt (Nat.lt_of_not_le small)
      simp only [Statement.next, rest]
      split <;> omega
  | instruction mnemonic operands =>
    have short : mnemonic.length ≤ 10 := by cases mnemonic <;> simp [Mnemonic.length]
    simp only [Statement.next]
    omega

/-! ## Items -/

/-- What the first pass has made sure of when it lets an item through. -/
structure Settled (item : Item) : Prop where
  read : ∃ code, Statement.read code = .ok item.statement
  inRange : item.address ≤ Image.maxSize
  nextInRange : item.statement.next item.address ≤ Image.maxSize

theorem laid_settled {layout final : Layout} {rows : List (List Char)} {items : List Item}
    (laid : Laid layout rows items final) (inRange : layout.counter ≤ Image.maxSize) :
    final.counter ≤ Image.maxSize ∧ ∀ item ∈ items, Settled item := by
  induction laid with
  | nil layout => exact ⟨inRange, fun item held => absurd held List.not_mem_nil⟩
  | cons placed laid ih =>
    obtain ⟨final, others⟩ := ih placed.inRange
    refine ⟨final, List.forall_mem_cons.mpr ⟨?_, others⟩⟩
    have next := placed.inRange
    rw [placed.counter, ← placed.address] at next
    exact ⟨⟨_, placed.read⟩, placed.address ▸ inRange, next⟩

/-- Where bytes are emitted, the counter goes behind them. -/
theorem stop_of_leads {address length next : Nat} (leads : statement.Leads address length next) :
    address + length = address ∨ address + length = next := by
  cases statement with
  | origin | align => exact .inl (congrArg (address + ·) leads.1)
  | _ => exact .inr leads.symm

/-- The bytes of an item end within the limit of images. -/
theorem stop_le {item : Item} {data : List Byte} (settled : Settled item)
    (emitted : item.statement.bytes symbols = .ok data) :
    item.address + data.length ≤ Image.maxSize := by
  obtain ⟨code, read⟩ := settled.read
  rcases stop_of_leads (leads_next read emitted item.address) with same | next
  · exact same.trans_le settled.inRange
  · exact next.trans_le settled.nextInRange

theorem write_within {address : Nat} {data : List Byte} (image : Image)
    (within : address + data.length ≤ Image.maxSize) : ∃ written, image.write address data = .ok written :=
  ⟨_, (write_eq_ok_iff ⟨address, data, ""⟩).mpr ⟨.inr within, rfl⟩⟩

/-! ## Operands -/

theorem ofOperand_register {operand : String} {cause : Cause}
    (failed : Operand.register operand = .error cause) : cause.OfOperand := by
  unfold Operand.register at failed
  split at failed <;> cases failed
  trivial

theorem ofOperand_value {operand : String} {cause : Cause}
    (failed : Operand.value symbols operand = .error cause) : cause.OfOperand := by
  unfold Operand.value at failed
  split at failed
  · cases failed
  · cases failed
    trivial
  · dsimp only at failed
    split at failed
    · split at failed <;> cases failed
      trivial
    · cases failed
      trivial

theorem ofOperand_memory {operand : String} {cause : Cause}
    (failed : Operand.memory symbols operand = .error cause) : cause.OfOperand := by
  unfold Operand.memory at failed
  split at failed
  · cases failed
    trivial
  · split at failed
    · split at failed
      · exact ofOperand_register (Fallible.bind_pure_eq_error.mp failed)
      · rcases Fallible.bind_eq_error.mp failed with offset | ⟨_, -, base⟩
        · exact ofOperand_value offset
        · exact ofOperand_register (Fallible.bind_pure_eq_error.mp base)
    · cases failed
      trivial

/-- The operands of an instruction are as many as are looked at. -/
theorem ofOperand_instructionOf {mnemonic : Mnemonic} {operands : List String} {cause : Cause}
    (counted : operands.length = mnemonic.arity)
    (failed : instructionOf symbols mnemonic operands = .error cause) : cause.OfOperand := by
  cases mnemonic with
  | halt | nop | ret =>
    obtain rfl := List.length_eq_zero_iff.mp counted
    cases failed
  | jump condition | call =>
    obtain ⟨destination, rfl⟩ := List.length_eq_one_iff.mp counted
    exact ofOperand_value (Fallible.bind_pure_eq_error.mp failed)
  | push | pop =>
    obtain ⟨register, rfl⟩ := List.length_eq_one_iff.mp counted
    exact ofOperand_register (Fallible.bind_pure_eq_error.mp failed)
  | move condition | alu op =>
    obtain ⟨source, target, rfl⟩ := List.length_eq_two.mp counted
    rcases Fallible.bind_eq_error.mp failed with first | ⟨_, -, second⟩
    · exact ofOperand_register first
    · exact ofOperand_register (Fallible.bind_pure_eq_error.mp second)
  | loadImmediate =>
    obtain ⟨value, target, rfl⟩ := List.length_eq_two.mp counted
    rcases Fallible.bind_eq_error.mp failed with first | ⟨_, -, second⟩
    · exact ofOperand_value first
    · exact ofOperand_register (Fallible.bind_pure_eq_error.mp second)
  | store | load =>
    obtain ⟨source, target, rfl⟩ := List.length_eq_two.mp counted
    rcases Fallible.bind_eq_error.mp failed with place | ⟨_, -, register⟩
    · exact ofOperand_memory place
    · exact ofOperand_register (Fallible.bind_pure_eq_error.mp register)

/-- **Only operands keep a statement that can be read from having bytes.** -/
theorem ofOperand_bytes {cause : Cause} (read : Statement.read code = .ok statement)
    (failed : statement.bytes symbols = .error cause) : cause.OfOperand := by
  have checked := read_checked read
  cases statement with
  | empty | origin | align => cases failed
  | quad operand =>
    exact ofOperand_value (Fallible.bind_pure_eq_error.mp failed)
  | byte operand =>
    rcases Fallible.bind_eq_error.mp failed with value | ⟨word, -, large⟩
    · exact ofOperand_value value
    · split at large <;> cases large
      trivial
  | instruction mnemonic operands =>
    exact ofOperand_instructionOf checked (Fallible.bind_pure_eq_error.mp failed)

theorem kind_bytes {cause : Cause} (read : Statement.read code = .ok statement)
    (failed : statement.bytes symbols = .error cause) : cause.kind ≠ .operandCount := by
  have operand := ofOperand_bytes read failed
  intro kind
  cases cause <;> cases kind
  exact operand

/-! ## Failing -/

/-- The image takes the bytes of an item, so that only its operands fail it. -/
theorem emit_error {image : Image} {item : Item} {cause : Cause} (settled : Settled item)
    (failed : item.emit symbols image = .error cause) : item.statement.bytes symbols = .error cause := by
  rcases Fallible.bind_eq_error.mp failed with bytes | ⟨data, emitted, behind⟩
  · exact bytes
  · obtain ⟨written, stored⟩ := write_within image (stop_le settled emitted)
    rw [stored] at behind
    cases behind

/-- **Emission fails at an item whose operands have no bytes.** -/
theorem emitAll_error {image : Image} {items : List Item} {e : Error}
    (settled : ∀ item ∈ items, Settled item) (failed : emitAll symbols image items = .error e) :
    ∃ item ∈ items, item.line = e.line ∧ item.statement.bytes symbols = .error e.cause := by
  induction items generalizing image with
  | nil => cases failed
  | cons item rest ih =>
    obtain ⟨first, others⟩ := List.forall_mem_cons.mp settled
    rw [emitAll] at failed
    split at failed
    · obtain ⟨found, held, fails⟩ := ih others failed
      exact ⟨found, List.mem_cons_of_mem item held, fails⟩
    · rename_i cause stopped
      cases failed
      exact ⟨item, List.mem_cons_self, rfl, emit_error first stopped⟩

theorem assemble_error {source : String} {e : Error} (failed : assemble source = .error e) :
    Layout.ofSource source = .error e ∨
      ∃ layout, Layout.ofSource source = .ok layout ∧
        emitAll layout.symbols .empty layout.items.toList = .error e := by
  refine (Fallible.bind_eq_error.mp failed).imp_right ?_
  rintro ⟨layout, laidOut, stopped⟩
  exact ⟨layout, laidOut, Fallible.bind_pure_eq_error.mp stopped⟩

/-! ## Layouts -/

/-- What the first pass has made of any lines. -/
theorem placeAll_settled {number : Nat} {lines : List (List Char)} {layout : Layout}
    (ran : Layout.placeAll {} number lines = .ok layout) :
    layout.counter ≤ Image.maxSize ∧ (∀ item ∈ layout.items, Settled item) ∧
      ∀ (label : String) (address : Nat), layout.symbols[label]? = some address → address ≤ Image.maxSize := by
  obtain ⟨items, laid⟩ := placeAll_laid ran
  obtain ⟨inRange, settled⟩ := laid_settled laid (Nat.zero_le _)
  have listed : layout.items.toList = items := laid.items
  refine ⟨inRange, fun item held => settled item (listed ▸ Array.mem_toList_iff.mpr held), ?_⟩
  intro label address found
  rcases (laid.symbols.lookup label address).mp found with before | new
  · simp at before
  · -- A label has the address of the item of its line.
    obtain ⟨k, row, -, place, -⟩ := mem_definitions.mp new
    obtain ⟨item, held, rfl⟩ := List.mem_map.mp (List.mem_of_getElem? place)
    exact (settled item held).inRange

theorem entries_within {source : String} {image : Image} (ran : assemble source = .ok image) :
    ∀ entry ∈ image.lines, entry.address + entry.length ≤ Image.maxSize := by
  intro entry held
  obtain ⟨fs, emitted, made, -⟩ := assemble_emitted ran
  have lines : image.lines = (fs.map Fragment.line).toArray := by rw [← made, assembled_eq]
  rw [lines, List.mem_toArray] at held
  obtain ⟨f, isFragment, rfl⟩ := List.mem_map.mp held
  exact (ListingRoundTrip.emitted_listable emitted (fun row => SourceRows.lineFeed_not_mem_row) f
    isFragment).stop_le

theorem labels_within {source : String} {image : Image} (ran : assemble source = .ok image)
    (label : String) (address : Nat) (found : image.symbols[label]? = some address) :
    address ≤ Image.maxSize := by
  obtain ⟨layout, done, laidOut, -, rfl⟩ := assemble_eq_ok_iff.mp ran
  exact (placeAll_settled laidOut).2.2 label address found

/-- **The location counter is safe.** In front of every line the counter stands within
the limit of images, and so do all labels so far. A statement that can be read leads
it to a word, and an alignment to the least multiple that is not in front of it. When
all lines are laid out, every instruction has as many operands as are looked at, and
an image takes the bytes of every statement, so that nothing but operands is a reason
to fail there. The lines and labels of an assembled image lie within the limit. -/
theorem counter_safe (source : String) :
    (∀ (before after : List (List Char)) (cs : List Char) (layout : Layout),
      Text.lines source.toList = before ++ cs :: after → Layout.placeAll {} 1 before = .ok layout →
      layout.counter ≤ Image.maxSize ∧
      (∀ (label : String) (address : Nat), layout.symbols[label]? = some address →
        address ≤ Image.maxSize) ∧
      ∀ (line : Line) (statement : Statement), Line.read? cs = some line → line.statement = .ok statement →
        statement.next layout.counter < 2 ^ 64 ∧
        ∀ alignment, statement = .align alignment → 0 < alignment ∧
          IsLeast {a | alignment ∣ a ∧ layout.counter ≤ a} (statement.next layout.counter)) ∧
    (∀ layout, Layout.ofSource source = .ok layout → ∀ item ∈ layout.items,
      (∀ mnemonic operands, item.statement = .instruction mnemonic operands →
        operands.length = mnemonic.arity) ∧
      (∀ cause, item.statement.bytes layout.symbols = .error cause → cause.kind ≠ .operandCount) ∧
      ∀ data, item.statement.bytes layout.symbols = .ok data →
        item.address + data.length ≤ Image.maxSize ∧
        ∀ image : Image, ∃ written, image.write item.address data = .ok written) ∧
    (∀ e, assemble source = .error e → Layout.ofSource source = .error e ∨
      ∃ layout, Layout.ofSource source = .ok layout ∧ ∃ item ∈ layout.items,
        item.line = e.line ∧ item.statement.bytes layout.symbols = .error e.cause) ∧
    ∀ image, assemble source = .ok image →
      (∀ entry ∈ image.lines, entry.address + entry.length ≤ Image.maxSize) ∧
      ∀ (label : String) (address : Nat), image.symbols[label]? = some address →
        address ≤ Image.maxSize := by
  refine ⟨?_, ?_, ?_, ?_⟩
  · intro before after cs layout _ ran
    obtain ⟨inRange, -, labels⟩ := placeAll_settled ran
    refine ⟨inRange, labels, fun line statement isLine readable => ?_⟩
    have counts : (Text.trim cs).isEmpty = false := by
      cases blank : (Text.trim cs).isEmpty with
      | false => rfl
      | true => cases isLine.symm.trans (SourceRows.read?_blank blank)
    obtain ⟨_, again, -, read⟩ := SourceRows.read?_row counts
    cases isLine.symm.trans again
    have code := (read statement readable).2
    refine ⟨next_lt code inRange, ?_⟩
    rintro alignment rfl
    have positive := (read_checked code).1
    exact ⟨positive, isLeast_align positive layout.counter⟩
  · intro layout ran item held
    have settled := (placeAll_settled ran).2.1 item held
    obtain ⟨code, read⟩ := settled.read
    refine ⟨?_, fun cause failed => kind_bytes read failed, fun data emitted => ?_⟩
    · intro mnemonic operands same
      have checked := read_checked read
      rwa [same] at checked
    · have within := stop_le settled emitted
      exact ⟨within, fun image => write_within image within⟩
  · intro e failed
    refine (assemble_error failed).imp_right ?_
    rintro ⟨layout, ran, stopped⟩
    have settled := (placeAll_settled ran).2.1
    obtain ⟨item, held, fails⟩ :=
      emitAll_error (fun item held => settled item (Array.mem_toList_iff.mp held)) stopped
    exact ⟨layout, ran, item, Array.mem_toList_iff.mp held, fails⟩
  · intro image ran
    exact ⟨entries_within ran, labels_within ran⟩

/-- The layout of a line with a label. -/
def behindNop : Layout where
  counter := 1
  symbols := ({} : SymbolTable).insert "here" 0
  items := #[⟨1, 0, .instruction .nop [], "here: nop"⟩]

/-- The image of that line and a jump to it, eight bytes further on. -/
def jumpsBack : Image where
  bytes := #[0x10, 0, 0, 0, 0, 0, 0, 0, 0x70, 0, 0, 0, 0, 0, 0, 0, 0]
  lines := #[⟨0, 1, "here: nop"⟩, ⟨1, 0, ".align 8"⟩, ⟨8, 9, "jmp here"⟩]
  symbols := ({} : SymbolTable).insert "here" 0

/-- The layout of a call to a label that does not exist. -/
def callsNowhere : Layout where
  counter := 9
  items := #[⟨1, 0, .instruction .call ["nowhere"], "call nowhere"⟩]

/-- Aligning to the largest word is as far as the counter gets, and fails; a jump back
over aligned bytes is assembled; and a call to nowhere fails for its operand. -/
theorem counter_safe_farthest :
    (Text.lines "here: nop\n.align 0xffffffffffffffff".toList =
        ["here: nop".toList] ++ [".align 0xffffffffffffffff".toList] ∧
      Layout.placeAll {} 1 ["here: nop".toList] = .ok behindNop ∧
      Line.read? ".align 0xffffffffffffffff".toList =
        some ⟨[], .ok (.align 0xffffffffffffffff), ".align 0xffffffffffffffff"⟩ ∧
      Statement.next 1 (.align 0xffffffffffffffff) = 0xffffffffffffffff ∧
      IsLeast {a | 0xffffffffffffffff ∣ a ∧ 1 ≤ a} (Statement.next 1 (.align 0xffffffffffffffff))) ∧
    (assemble "here: nop\n.align 8\njmp here" = .ok jumpsBack ∧
      ∀ entry ∈ jumpsBack.lines, entry.address + entry.length ≤ Image.maxSize) ∧
    Layout.ofSource "call nowhere" = .ok callsNowhere ∧
    assemble "call nowhere" = .error ⟨1, .undefinedLabel "nowhere"⟩ ∧
    (∀ cause, Statement.bytes {} (.instruction .call ["nowhere"]) = .error cause →
      cause.kind ≠ .operandCount) ∧
    ∃ layout, Layout.ofSource "call nowhere" = .ok layout ∧ ∃ item ∈ layout.items,
      item.line = 1 ∧ item.statement.bytes layout.symbols = .error (.undefinedLabel "nowhere") := by
  have lines : Text.lines "here: nop\n.align 0xffffffffffffffff".toList =
      ["here: nop".toList] ++ [".align 0xffffffffffffffff".toList] := by cbv
  have ran : Layout.placeAll {} 1 ["here: nop".toList] = .ok behindNop := by cbv
  have isLine : Line.read? ".align 0xffffffffffffffff".toList =
      some ⟨[], .ok (.align 0xffffffffffffffff), ".align 0xffffffffffffffff"⟩ := by cbv
  have made : assemble "here: nop\n.align 8\njmp here" = .ok jumpsBack := by cbv
  have laidOut : Layout.ofSource "call nowhere" = .ok callsNowhere := by cbv
  have failed : assemble "call nowhere" = .error ⟨1, .undefinedLabel "nowhere"⟩ := by cbv
  obtain ⟨-, -, next⟩ := (counter_safe _).1 _ [] _ _ lines ran
  obtain ⟨-, least⟩ := (next _ _ isLine rfl).2 _ rfl
  refine ⟨⟨lines, ran, isLine, rfl, least⟩, ⟨made, ((counter_safe _).2.2.2 _ made).1⟩, laidOut, failed,
    ?_, ?_⟩
  · exact ((counter_safe _).2.1 _ laidOut _ (Array.mem_singleton_self _)).2.1
  · exact ((counter_safe _).2.2.1 _ failed).resolve_left (by rw [laidOut]; rintro ⟨⟩)

end LocationCounter

end Y86Toolkit
