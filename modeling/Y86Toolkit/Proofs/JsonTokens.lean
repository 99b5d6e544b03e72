import Y86Toolkit.Json.Printer
import Y86Toolkit.Json.Token
import Y86Toolkit.Proofs.Numerals

/-!
Printed JSON values, cut into tokens. A value has its tokens whatever it is printed
behind, and the layout adds none: scanning a printed value finds exactly the tokens
of the value (`scan_render`). A word ends only where something follows that ends it,
which is why a text that ends with a word is told apart from one that does not.
-/

namespace Y86Toolkit.Json

mutual

/-- The tokens of a value, in order. -/
def Value.tokens : Value → List Token
  | .array [] => [.openArray, .closeArray]
  | .array (v :: rest) => .openArray :: v.tokens ++ itemTokens rest ++ [.closeArray]
  | .object [] => [.openObject, .closeObject]
  | .object ((key, v) :: rest) =>
    .openObject :: .scalar (.string key) :: .colon :: v.tokens ++ fieldTokens rest ++ [.closeObject]
  | v => [.scalar v]

/-- The tokens of the items behind the first. -/
def itemTokens : List Value → List Token
  | [] => []
  | v :: rest => .comma :: v.tokens ++ itemTokens rest

/-- The tokens of the fields behind the first. -/
def fieldTokens : List (Quoted × Value) → List Token
  | [] => []
  | (key, v) :: rest => .comma :: .scalar (.string key) :: .colon :: v.tokens ++ fieldTokens rest

end

/-- All numbers in a value are made of digits alone. -/
inductive Value.Whole : Value → Prop where
  | null : Whole .null
  | bool (b : Bool) : Whole (.bool b)
  | natural (n : Nat) : Whole (.natural n)
  | string (text : Quoted) : Whole (.string text)
  | array {items : List Value} (each : ∀ v ∈ items, Whole v) : Whole (.array items)
  | object {fields : List (Quoted × Value)} (each : ∀ field ∈ fields, Whole field.2) :
      Whole (.object fields)

namespace JsonTokens
open Token Scan Numerals

/-- What the scanner makes of the rest of a text. -/
def resume (scan : Scan) (rest : List Char) : Option (List Token) := do
  let last ← rest.foldlM Scan.step scan
  last.finish

theorem resume_cons {scan next : Scan} {c : Char} {rest : List Char} (step : scan.step c = some next) :
    resume scan (c :: rest) = resume next rest := by
  simp [resume, step]

/-! ## Words -/

theorem resume_word_append {found : List Token} {word rest : List Char} (read : List Char)
    (solid : ∀ c ∈ word, endsWord c = false) :
    resume ⟨found, .word read⟩ (word ++ rest) = resume ⟨found, .word (word.reverse ++ read)⟩ rest := by
  induction word generalizing read with
  | nil => rfl
  | cons c word ih =>
    obtain ⟨here, others⟩ := List.forall_mem_cons.mp solid
    have step : Scan.step ⟨found, .word read⟩ c = some ⟨found, .word (c :: read)⟩ := by
      simp [Scan.step, here]
    rw [List.cons_append, resume_cons step, ih _ others]
    simp

/-- A word is complete at the end of the text or in front of what ends it. -/
theorem resume_word_end {found : List Token} {read rest : List Char} {v : Value}
    (value : word? read.reverse = some v) (ends : ∀ c ∈ rest.head?, endsWord c = true) :
    resume ⟨found, .word read⟩ rest = resume ⟨.scalar v :: found, .between⟩ rest := by
  cases rest with
  | nil => simp [resume, Scan.finish, value]
  | cons c rest =>
    have step : Scan.step ⟨found, .word read⟩ c = some (between (.scalar v :: found) c) := by
      simp [Scan.step, ends c rfl, value]
    rw [resume_cons step]
    exact (resume_cons rfl).symm

theorem resume_word {found : List Token} {word rest : List Char} {v : Value} (some : word ≠ [])
    (solid : ∀ c ∈ word, endsWord c = false) (value : word? word = .some v)
    (ends : ∀ c ∈ rest.head?, endsWord c = true) :
    resume ⟨found, .between⟩ (word ++ rest) = resume ⟨.scalar v :: found, .between⟩ rest := by
  cases word with
  | nil => exact absurd rfl some
  | cons c word =>
    obtain ⟨here, others⟩ := List.forall_mem_cons.mp solid
    have step : Scan.step ⟨found, .between⟩ c = .some ⟨found, .word [c]⟩ := by
      simp only [endsWord, Bool.or_eq_false_iff, Option.isSome_eq_false_iff, Option.isNone_iff_eq_none,
        beq_eq_false_iff_ne] at here
      obtain ⟨⟨mark, space⟩, quote⟩ := here
      simp [Scan.step, between, mark, space, quote]
    rw [List.cons_append, resume_cons step, resume_word_append _ others]
    exact resume_word_end (by simpa using value) ends

/-! ## Numbers -/

theorem head?_toDigits {n : Nat} (positive : 0 < n) : (Nat.toDigits 10 n).head? ≠ some '0' := by
  rw [Nat.toDigits_eq_if (by decide)]
  split
  · simpa using Nat.ne_of_gt positive
  · have shorter : 0 < n / 10 := by omega
    rw [List.head?_append_of_ne_nil _ Nat.toDigits_ne_nil]
    exact head?_toDigits shorter
termination_by n

theorem endsWord_of_hexDigit {c : Char} (digit : HexDigit c) : endsWord c = false := by
  obtain ⟨d, rfl⟩ := digit
  revert d
  decide

theorem isDigit_toDigits (n : Nat) : ∀ c ∈ Nat.toDigits 10 n, c.isDigit = true :=
  fun _ held => Nat.isDigit_of_mem_toDigits (by decide) (by decide) held

/-- The digits of a number are all read, and nothing is left behind them. -/
theorem unsigned?_toDigits (n : Nat) :
    unsigned? (Nat.toDigits 10 n) = some (some (Nat.toDigits 10 n)) := by
  have digits := isDigit_toDigits n
  have whole : ¬ ((Nat.toDigits 10 n).length ≠ 1 ∧ (Nat.toDigits 10 n).head? = some '0') := by
    rintro ⟨long, zero⟩
    rcases Nat.eq_zero_or_pos n with rfl | positive
    · exact long rfl
    · exact head?_toDigits positive zero
  have span : digits? (Nat.toDigits 10 n) = some (Nat.toDigits 10 n, []) := by
    rw [digits?, List.span_eq_takeWhile_dropWhile, List.takeWhile_eq_self_iff.mpr digits,
      List.dropWhile_eq_nil_iff.mpr digits]
    cases shape : Nat.toDigits 10 n with
    | nil => exact absurd shape Nat.toDigits_ne_nil
    | cons => rfl
  simp [unsigned?, span, whole, skipFraction?, skipExponent?]

/-- The digits of a number are a word that stands for it. -/
theorem word?_toDigits (n : Nat) : word? (Nat.toDigits 10 n) = some (.natural n) := by
  have digits := isDigit_toDigits n
  -- No digit is a letter or a sign.
  have named (name : String) (letters : ∃ c ∈ name.toList, c.isDigit = false) :
      String.ofList (Nat.toDigits 10 n) ≠ name := by
    rintro rfl
    obtain ⟨c, held, letter⟩ := letters
    rw [String.toList_ofList] at held
    simp [digits c held] at letter
  have signless (rest : List Char) : Nat.toDigits 10 n ≠ '-' :: rest := by
    intro same
    have sign := digits '-' (by simp [same])
    cases sign
  unfold word?
  split
  · rename_i same
    exact absurd same (named "null" ⟨'n', by simp, rfl⟩)
  · rename_i same
    exact absurd same (named "true" ⟨'t', by simp, rfl⟩)
  · rename_i same
    exact absurd same (named "false" ⟨'f', by simp, rfl⟩)
  · unfold number?
    split
    · rename_i rest same
      exact absurd same (signless rest)
    · simp [unsigned?_toDigits, Value.natural, Nat.ofDigitChars_ten_toDigits]

/-! ## Strings -/

theorem isSurrogate_toNat (c : Char) : textOfUnits.isSurrogate c.toNat = false := by
  have valid := c.valid
  simp only [UInt32.isValidChar, Nat.isValidChar] at valid
  simp only [textOfUnits.isSurrogate, textOfUnits.isHigh, textOfUnits.isLow, Char.toNat]
  grind

theorem go_toNat (done cs : List Char) :
    textOfUnits.go done (cs.map Char.toNat) = some (String.ofList (done.reverse ++ cs)) := by
  induction cs generalizing done with
  | nil => simp [textOfUnits.go]
  | cons c rest ih =>
    have plain := isSurrogate_toNat c
    have both : textOfUnits.isHigh c.toNat = false ∧ textOfUnits.isLow c.toNat = false := by
      simpa [textOfUnits.isSurrogate] using plain
    have next := ih (c :: done)
    cases rest with
    | nil => simp [textOfUnits.go, plain]
    | cons d rest =>
      rw [List.map_cons] at next
      simp [textOfUnits.go, both.1, both.2, next]

/-- The numbers of a text's characters join to the text. -/
theorem textOfUnits_toNat (cs : List Char) :
    textOfUnits (cs.map Char.toNat) = some (String.ofList cs) :=
  go_toNat [] cs

/-- Four hexadecimal digits behind a mark stand for a number. -/
theorem resume_unicode {found : List Token} {units : List Nat} {n : Nat} (small : n < 0x10000)
    (rest : List Char) :
    resume ⟨found, .escape units⟩ ('u' :: (Numeral.hexDigits 4 n).toList ++ rest) =
      resume ⟨found, .quoted (n :: units)⟩ rest := by
  have value {c : Char} (held : c ∈ (Numeral.hexDigits 4 n).toList) :
      ∃ d, Numeral.digitValue? 16 c = some d := by
    obtain ⟨d, rfl⟩ := hexDigit_of_mem held
    exact ⟨_, digitValue?_digitChar (Nat.le_refl 16) d.isLt⟩
  have unsigned : '+' ∉ (Numeral.hexDigits 4 n).toList := by
    intro held
    have plain := (hexDigit_plain (hexDigit_of_mem held)).2.2
    simp at plain
  have length : (Numeral.hexDigits 4 n).toList.length = 4 := by
    have short : (Nat.toDigits 16 n).length ≤ 4 :=
      (Nat.length_toDigits_le_iff (by decide) (by decide)).mpr small
    rw [Numeral.hexDigits, String.toList_ofList, List.length_leftpad]
    omega
  have read : Numeral.read 16 0x10000 (Numeral.hexDigits 4 n).toList = .ok n := read_hexDigits small
  obtain ⟨a, b, c, d, shape⟩ := List.length_eq_four.mp length
  rw [shape] at value unsigned read ⊢
  obtain ⟨x, isA⟩ := value (c := a) (by simp)
  obtain ⟨y, isB⟩ := value (c := b) (by simp)
  obtain ⟨z, isC⟩ := value (c := c) (by simp)
  obtain ⟨w, isD⟩ := value (c := d) (by simp)
  have digits : Numeral.readDigits 16 0x10000 0 [a, b, c, d] = .ok n := by
    rw [← read, Numeral.read]
    · rintro ⟨⟩
    · rintro ⟨⟩
    · rintro rest ⟨⟩
      exact unsigned (List.mem_cons_self ..)
  simp [resume, Scan.step, isA, isB, isC, isD, digits]

/-- How a character is written: behind a backslash as a letter that stands for it or by
its number, or as itself. -/
theorem escape_cases (c : Char) :
    (∃ letter, letter ≠ 'u' ∧ escaped? letter = some c ∧ (escape c).toList = ['\\', letter]) ∨
    (c.toNat < 0x20 ∧ (escape c).toList = '\\' :: 'u' :: (Numeral.hexDigits 4 c.toNat).toList) ∨
    (c ≠ '"' ∧ c ≠ '\\' ∧ ¬ c.toNat < 0x20 ∧ (escape c).toList = [c]) := by
  unfold escape
  split
  · subst c
    exact .inl ⟨'"', by decide, rfl, rfl⟩
  split
  · subst c
    exact .inl ⟨'\\', by decide, rfl, rfl⟩
  split
  · subst c
    exact .inl ⟨'b', by decide, rfl, rfl⟩
  split
  · subst c
    exact .inl ⟨'f', by decide, rfl, rfl⟩
  split
  · subst c
    exact .inl ⟨'n', by decide, rfl, rfl⟩
  split
  · subst c
    exact .inl ⟨'r', by decide, rfl, rfl⟩
  split
  · subst c
    exact .inl ⟨'t', by decide, rfl, rfl⟩
  split
  · rename_i control
    exact .inr (.inl ⟨control, by simp⟩)
  · rename_i quote backslash _ _ _ _ _ printable
    exact .inr (.inr ⟨quote, backslash, printable, String.toList_singleton c⟩)

/-- An escaped character is read back as it was. -/
theorem resume_escape {found : List Token} {units : List Nat} (c : Char) (rest : List Char) :
    resume ⟨found, .quoted units⟩ ((escape c).toList ++ rest) =
      resume ⟨found, .quoted (c.toNat :: units)⟩ rest := by
  have backslash (tail : List Char) :
      resume ⟨found, .quoted units⟩ ('\\' :: tail) = resume ⟨found, .escape units⟩ tail :=
    resume_cons rfl
  rcases escape_cases c with ⟨letter, other, stands, written⟩ | ⟨control, written⟩ |
    ⟨quote, slash, printable, written⟩
  · have step : Scan.step ⟨found, .escape units⟩ letter = some ⟨found, .quoted (c.toNat :: units)⟩ := by
      simp [Scan.step, other, stands]
    rw [written]
    exact (backslash _).trans (resume_cons step)
  · rw [written]
    exact (backslash _).trans (resume_unicode (by omega) rest)
  · have step : Scan.step ⟨found, .quoted units⟩ c = some ⟨found, .quoted (c.toNat :: units)⟩ := by
      simp [Scan.step, quote, slash, printable]
    rw [written]
    exact resume_cons step

theorem resume_escapes {found : List Token} (units : List Nat) (cs rest : List Char) :
    resume ⟨found, .quoted units⟩ ((cs.flatMap fun c => (escape c).toList) ++ rest) =
      resume ⟨found, .quoted ((cs.map Char.toNat).reverse ++ units)⟩ rest := by
  induction cs generalizing units with
  | nil => rfl
  | cons c cs ih =>
    rw [List.flatMap_cons, List.append_assoc, resume_escape, ih]
    simp

/-- A string in quotes is one token. -/
theorem resume_quoted {found : List Token} (text : Quoted) (rest : List Char) :
    resume ⟨found, .between⟩ ((Quoted.render text).toList ++ rest) =
      resume ⟨.scalar (.string text) :: found, .between⟩ rest := by
  cases text with
  | none => rfl
  | some s =>
    have joined : (String.join (s.toList.map escape)).toList =
        s.toList.flatMap fun c => (escape c).toList := by
      simp [String.toList_join, List.flatMap_map]
    have closed : Scan.step ⟨found, .quoted (s.toList.map Char.toNat).reverse⟩ '"' =
        some ⟨.scalar (.string (some s)) :: found, .between⟩ := by
      simp [Scan.step, Scan.push, textOfUnits_toNat]
    have shape : (Quoted.render (some s)).toList ++ rest =
        '"' :: ((s.toList.flatMap fun c => (escape c).toList) ++ '"' :: rest) := by
      simp [Quoted.render, joined]
    have opened : Scan.step ⟨found, .between⟩ '"' = some ⟨found, .quoted []⟩ := rfl
    rw [shape, resume_cons opened, resume_escapes, List.append_nil, resume_cons closed]

/-! ## Layout -/

/-- What a text gives, whatever follows it. -/
def Settled (text : String) (tokens : List Token) : Prop :=
  ∀ rest, scan? (text.toList ++ rest) = resume ⟨tokens.reverse, .between⟩ rest

/-- What a text gives if something follows it that ends a word, or nothing. -/
def Scanned (text : String) (tokens : List Token) : Prop :=
  ∀ rest, (∀ c ∈ rest.head?, endsWord c = true) →
    scan? (text.toList ++ rest) = resume ⟨tokens.reverse, .between⟩ rest

variable {text : String} {tokens : List Token}

theorem append_parted (text front behind whole : String) (joined : front ++ behind = whole) :
    text ++ whole = text ++ front ++ behind := by
  rw [String.append_assoc, joined]

theorem Settled.scanned (settled : Settled text tokens) : Scanned text tokens :=
  fun rest _ => settled rest

theorem settled_empty : Settled "" [] := fun _ => rfl

theorem scan_of_scanned (scanned : Scanned text tokens) : scan? text.toList = some tokens := by
  have whole := scanned [] nofun
  simpa [resume, Scan.finish] using whole

/-- A mark is one token, and ends the word in front of it. -/
theorem Scanned.mark {token : Token} {c : Char} (scanned : Scanned text tokens) (mark : String)
    (one : mark.toList = [c]) (found : punctuation? c = some token) :
    Settled (text ++ mark) (tokens ++ [token]) := by
  intro rest
  have ends : endsWord c = true := by simp [endsWord, found]
  have step : Scan.step ⟨tokens.reverse, .between⟩ c = some ⟨token :: tokens.reverse, .between⟩ := by
    simp [Scan.step, between, found]
  rw [String.toList_append, one, List.append_assoc, List.singleton_append,
    scanned (c :: rest) (by simpa using ends), resume_cons step]
  simp

theorem Settled.blank (settled : Settled text tokens) : Settled (text ++ " ") tokens := by
  intro rest
  rw [String.toList_append, List.append_assoc, settled]
  exact resume_cons rfl

/-- Going to the next line ends a word and adds no token. -/
theorem Scanned.newline (scanned : Scanned text tokens) (level : Nat) :
    Settled (text ++ newline level) tokens := by
  intro rest
  have lineFeed (tail : List Char) : resume ⟨tokens.reverse, .between⟩ ('\n' :: tail) =
      resume ⟨tokens.reverse, .between⟩ tail := resume_cons rfl
  have blanks (count : Nat) : resume ⟨tokens.reverse, .between⟩ (List.replicate count ' ' ++ rest) =
      resume ⟨tokens.reverse, .between⟩ rest := by
    induction count with
    | zero => rfl
    | succ count ih => exact (resume_cons rfl).trans ih
  have shape : (Json.newline level).toList ++ rest =
      '\n' :: (List.replicate (2 * level) ' ' ++ rest) := by
    simp [Json.newline]
  rw [String.toList_append, List.append_assoc, shape, scanned _ (by simp; decide), lineFeed, blanks]

theorem Settled.quoted (settled : Settled text tokens) (q : Quoted) :
    Settled (text ++ Quoted.render q) (tokens ++ [.scalar (.string q)]) := by
  intro rest
  rw [String.toList_append, List.append_assoc, settled, resume_quoted]
  simp

theorem Settled.word {word : String} {v : Value} (settled : Settled text tokens)
    (some : word.toList ≠ []) (solid : ∀ c ∈ word.toList, endsWord c = false)
    (value : word? word.toList = .some v) : Scanned (text ++ word) (tokens ++ [.scalar v]) := by
  intro rest ends
  rw [String.toList_append, List.append_assoc, settled, resume_word some solid value ends]
  simp

/-- The name of a field and what stands in front of its value. -/
theorem Settled.key (settled : Settled text tokens) (key : Quoted) :
    Settled (text ++ Quoted.render key ++ ": ") (tokens ++ [.scalar (.string key), .colon]) := by
  have marked := (settled.quoted key).scanned.mark ":" rfl rfl
  rw [append_parted (text ++ Quoted.render key) ":" " " ": " rfl]
  simpa using marked.blank

/-! ## Values -/

/-- What a value adds to the text in front of it. -/
def Adds (v : Value) : Prop :=
  ∀ level text tokens, Settled text tokens → Scanned (v.write level text) (tokens ++ v.tokens)

/-- The items behind the first, each behind a comma. -/
theorem scanned_writeItems {items : List Value} (adds : ∀ v ∈ items, Adds v) (level : Nat)
    (scanned : Scanned text tokens) :
    Scanned (writeItems level text items) (tokens ++ itemTokens items) := by
  induction items generalizing text tokens with
  | nil => simpa [writeItems, itemTokens] using scanned
  | cons v rest ih =>
    obtain ⟨first, others⟩ := List.forall_mem_cons.mp adds
    have comma := (scanned.mark "," rfl rfl).scanned.newline level
    have written := ih others (first level _ _ comma)
    simpa [writeItems, itemTokens, append_parted text "," (newline level) _ rfl] using written

/-- The fields behind the first, each behind a comma. -/
theorem scanned_writeFields {fields : List (Quoted × Value)} (adds : ∀ field ∈ fields, Adds field.2)
    (level : Nat) (scanned : Scanned text tokens) :
    Scanned (writeFields level text fields) (tokens ++ fieldTokens fields) := by
  induction fields generalizing text tokens with
  | nil => simpa [writeFields, fieldTokens] using scanned
  | cons field rest ih =>
    obtain ⟨key, v⟩ := field
    obtain ⟨first, others⟩ := List.forall_mem_cons.mp adds
    have comma := (scanned.mark "," rfl rfl).scanned.newline level
    have written := ih others (first level _ _ (comma.key key))
    simpa [writeFields, fieldTokens, append_parted text "," (newline level) _ rfl] using written

theorem adds_word {v : Value} (word : String) (some : word.toList ≠ [])
    (solid : ∀ c ∈ word.toList, endsWord c = false) (value : word? word.toList = .some v)
    (written : ∀ level text, v.write level text = text ++ word) (one : v.tokens = [.scalar v]) :
    Adds v := by
  intro level text tokens settled
  rw [written, one]
  exact settled.word some solid value

/-- **A printed value has the tokens of the value**, whatever it is printed behind. -/
theorem adds_whole {v : Value} (whole : v.Whole) : Adds v := by
  induction whole with
  | null =>
    have solid : ∀ c ∈ "null".toList, endsWord c = false := by simp [endsWord, punctuation?, isSpace]
    exact adds_word "null" (by decide) solid rfl (fun _ _ => rfl) rfl
  | bool b =>
    cases b with
    | false =>
      have solid : ∀ c ∈ "false".toList, endsWord c = false := by simp [endsWord, punctuation?, isSpace]
      exact adds_word "false" (by decide) solid rfl (fun _ _ => rfl) rfl
    | true =>
      have solid : ∀ c ∈ "true".toList, endsWord c = false := by simp [endsWord, punctuation?, isSpace]
      exact adds_word "true" (by decide) solid rfl (fun _ _ => rfl) rfl
  | natural n =>
    have digits : (Numeral.decimal n).toList = Nat.toDigits 10 n := Nat.toList_repr
    refine adds_word (Numeral.decimal n) ?_ ?_ ?_ (fun _ _ => rfl) rfl
    · rw [digits]
      exact Nat.toDigits_ne_nil
    · intro c held
      rw [digits] at held
      exact endsWord_of_hexDigit (hexDigit_of_mem_toDigits (by decide) (by decide) held)
    · rw [digits]
      exact word?_toDigits n
  | string q =>
    intro level text tokens settled
    exact (settled.quoted q).scanned
  | @array items _ adds =>
    intro level text tokens settled
    have opened := settled.scanned.mark "[" rfl rfl
    cases items with
    | nil =>
      have closed := opened.scanned.mark "]" rfl rfl
      rw [Value.write, append_parted text "[" "]" "[]" rfl]
      simpa [Value.tokens] using closed.scanned
    | cons v rest =>
      obtain ⟨first, others⟩ := List.forall_mem_cons.mp adds
      have item := first (level + 1) _ _ (opened.scanned.newline (level + 1))
      have items := (scanned_writeItems others (level + 1) item).newline level
      have closed := items.scanned.mark "]" rfl rfl
      simpa [Value.write, Value.tokens] using closed.scanned
  | @object fields _ adds =>
    intro level text tokens settled
    have opened := settled.scanned.mark "\x7b" rfl rfl
    cases fields with
    | nil =>
      have closed := opened.scanned.mark "\x7d" rfl rfl
      rw [Value.write, append_parted text "\x7b" "\x7d" "\x7b\x7d" rfl]
      simpa [Value.tokens] using closed.scanned
    | cons field rest =>
      obtain ⟨key, v⟩ := field
      obtain ⟨first, others⟩ := List.forall_mem_cons.mp adds
      have value := first (level + 1) _ _ ((opened.scanned.newline (level + 1)).key key)
      have fields := (scanned_writeFields others (level + 1) value).newline level
      have closed := fields.scanned.mark "\x7d" rfl rfl
      simpa [Value.write, Value.tokens] using closed.scanned

/-- Scanning a printed value finds its tokens. -/
theorem scan_render {v : Value} (whole : v.Whole) : scan? v.render.toList = some v.tokens :=
  scan_of_scanned (adds_whole whole 0 "" [] settled_empty)

end JsonTokens

end Y86Toolkit.Json
