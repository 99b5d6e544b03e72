import Mathlib
import Y86Toolkit.Image.Listing
import Y86Toolkit.Proofs.Fragments
import Y86Toolkit.Proofs.Numerals

/-!
Which texts are listings. A line that has a colon in front of its first bar must show
a fragment, other lines are passed over, and reading stops at the first line that
breaks this rule. The examples here and in the modules that build on this one are
evaluated with equations from all over the library, which is why it is imported whole.
-/

namespace Y86Toolkit.ListingGrammar
open Numerals

/-- A line with a colon in front of its first bar, taken apart at these two. Without a
bar, there is no source. -/
inductive Parted : List Char → List Char → List Char → List Char → Prop where
  | barred {address digits source : List Char} (noColon : ':' ∉ address)
      (noBar : '|' ∉ address ++ ':' :: digits) :
      Parted (address ++ ':' :: digits ++ '|' :: source) address digits source
  | bare {address digits : List Char} (noColon : ':' ∉ address)
      (noBar : '|' ∉ address ++ ':' :: digits) : Parted (address ++ ':' :: digits) address digits []

/-- A line that is not passed over. -/
def Counts (line : List Char) : Prop := ∃ address digits source, Parted line address digits source

/-- Hexadecimal digits behind their mark, for an address up to the limit of images. Where
`plus` allows it, a plus sign may stand in front of the digits. -/
inductive Address (plus : Bool) : List Char → Nat → Prop where
  | marked {mark : Char} {text : List Char} {address : Nat} (isMark : mark = 'x' ∨ mark = 'X')
      (digits : Writes plus 16 text address) (inRange : address ≤ Image.maxSize) :
      Address plus ('0' :: mark :: text) address

/-- Two hexadecimal digits for each byte. Where `plus` allows it, the first of them may be
a plus sign. -/
inductive Pairs (plus : Bool) : List Char → List Byte → Prop where
  | nil : Pairs plus [] []
  | cons {high low : Char} {b : Byte} {rest : List Char} {data : List Byte}
      (digits : Writes plus 16 [high, low] b.toNat) (pairs : Pairs plus rest data) :
      Pairs plus (high :: low :: rest) (b :: data)

/-- A line shows a fragment: its address in front of the colon, its bytes between the
colon and the bar, and its text behind the bar. -/
def Shows (plus : Bool) (line : List Char) (f : Fragment) : Prop :=
  ∃ address digits source, Parted line address digits source ∧
    Address plus (Text.trim address) f.address ∧
    Pairs plus (digits.filter fun c => !Text.isBlank c) f.data ∧
    f.stop ≤ Image.maxSize ∧ f.text = String.ofList (Text.trim source)

/-- A line that counts must show a fragment. -/
def Regular (plus : Bool) (line : List Char) : Prop := Counts line → ∃ f, Shows plus line f

/-- The fragments that lines show, in order. -/
inductive Shown (plus : Bool) : List (List Char) → List Fragment → Prop where
  | nil : Shown plus [] []
  | skip {line : List Char} {lines : List (List Char)} {fs : List Fragment} (passed : ¬ Counts line)
      (shown : Shown plus lines fs) : Shown plus (line :: lines) fs
  | line {line : List Char} {lines : List (List Char)} {f : Fragment} {fs : List Fragment}
      (shows : Shows plus line f) (shown : Shown plus lines fs) : Shown plus (line :: lines) (f :: fs)

open Image Text Texts Fragments

variable {line address digits source : List Char} {data : List Byte} {f : Fragment} {n : Nat}

/-! ## Taking a line apart -/

theorem parted_iff : Parted line address digits source ↔
    ∃ code, (splitAtFirst '|' line).getD (line, []) = (code, source) ∧
      splitAtFirst ':' code = some (address, digits) := by
  constructor
  · rintro (⟨noColon, noBar⟩ | ⟨noColon, noBar⟩)
    · exact ⟨_, by rw [splitAtFirst_append noBar]; rfl, splitAtFirst_append noColon digits⟩
    · exact ⟨_, by rw [splitAtFirst_eq_none_iff.mpr noBar]; rfl, splitAtFirst_append noColon digits⟩
  · rintro ⟨code, parts, colon⟩
    have noColon := mark_not_mem_before colon
    obtain rfl := splitAtFirst_eq_some colon
    cases bar : splitAtFirst '|' line with
    | none =>
      rw [bar] at parts
      cases parts
      exact .bare noColon (splitAtFirst_eq_none_iff.mp bar)
    | some found =>
      rw [bar] at parts
      cases parts
      rw [splitAtFirst_eq_some bar]
      exact .barred noColon (mark_not_mem_before bar)

/-! ## Addresses and bytes -/

theorem Address.le_maxSize {plus : Bool} (isAddress : Address plus address n) : n ≤ maxSize := by
  cases isAddress with
  | marked isMark digits inRange => exact inRange

theorem readAddress_marked {mark : Char} {text : List Char} (isMark : mark = 'x' ∨ mark = 'X') :
    readAddress ('0' :: mark :: text) = .ok n ↔ Writes true 16 text n ∧ n ≤ maxSize := by
  have whole : readAddress ('0' :: mark :: text) =
      (Numeral.read 16 (Word.limit Word.width) text).mapError
          (.invalidAddress (String.ofList ('0' :: mark :: text))) >>= fun address =>
        if maxSize < address then .error (.addressTooLarge address) else .ok address := by
    rcases isMark with rfl | rfl <;> rw [readAddress] <;>
      cases Numeral.read 16 (Word.limit Word.width) text <;> rfl
  have base : 0 < 16 := by decide
  rw [whole, Fallible.bind_eq_ok]
  simp only [Fallible.mapError_eq_ok, read_eq_ok_iff_writes base]
  constructor
  · rintro ⟨address, ⟨written, -⟩, checked⟩
    split at checked
    · cases checked
    · rename_i inRange
      cases checked
      exact ⟨written, Nat.le_of_not_lt inRange⟩
  · rintro ⟨written, inRange⟩
    have small : n < Word.limit Word.width := Nat.lt_of_le_of_lt inRange (by decide)
    exact ⟨n, ⟨written, small⟩, if_neg (Nat.not_lt_of_le inRange)⟩

/-- **An address is read from digits behind their mark**, up to the limit of images. -/
theorem readAddress_eq_ok_iff : readAddress address = .ok n ↔ Address true address n := by
  constructor
  · intro readable
    by_cases marked : ∃ mark text, (mark = 'x' ∨ mark = 'X') ∧ address = '0' :: mark :: text
    · obtain ⟨mark, text, isMark, rfl⟩ := marked
      obtain ⟨written, inRange⟩ := (readAddress_marked isMark).mp readable
      exact .marked isMark written inRange
    · rw [readAddress] at readable
      · cases readable
      · exact fun text same => marked ⟨'x', text, .inl rfl, same⟩
      · exact fun text same => marked ⟨'X', text, .inr rfl, same⟩
  · rintro ⟨isMark, written, inRange⟩
    exact (readAddress_marked isMark).mpr ⟨written, inRange⟩

theorem read_pair_iff {high low : Char} {b : Byte} :
    Numeral.read 16 256 [high, low] = .ok b.toNat ↔ Writes true 16 [high, low] b.toNat := by
  rw [read_eq_ok_iff_writes (by decide)]
  exact and_iff_left b.toNat_lt

theorem readPairs_eq_ok_iff {done : List Byte} (even : digits.length % 2 = 0) :
    readPairs done digits = .ok data ↔ ∃ more, Pairs true digits more ∧ done.reverse ++ more = data := by
  fun_induction readPairs done digits with
  | case1 done high low rest n found ih =>
    have evenRest : rest.length % 2 = 0 := by
      rw [List.length_cons, List.length_cons] at even
      omega
    have small : n < 256 := ((read_eq_ok_iff_writes (by decide)).mp found).2
    obtain ⟨b, rfl⟩ : ∃ b : Byte, b.toNat = n := ⟨UInt8.ofNat n, UInt8.toNat_ofNat_of_lt' small⟩
    rw [ih evenRest, UInt8.ofNat_toNat]
    constructor
    · rintro ⟨more, pairs, rfl⟩
      exact ⟨b :: more, .cons (read_pair_iff.mp found) pairs, by simp⟩
    · rintro ⟨_, pairs, rfl⟩
      cases pairs with
      | cons again pairs =>
        -- The two digits are read as one byte only.
        have same := UInt8.toNat_inj.mp (Except.ok.inj (found.symm.trans (read_pair_iff.mpr again)))
        exact ⟨_, pairs, by simp [same]⟩
  | case2 done high low rest cause refused =>
    refine iff_of_false nofun ?_
    rintro ⟨_, pairs, -⟩
    cases pairs with
    | cons again pairs => cases refused.symm.trans (read_pair_iff.mpr again)
  | case3 rest done other =>
    obtain rfl : rest = [] := by
      match rest with
      | [] => rfl
      | [_] => simp at even
      | high :: low :: rest => exact absurd rfl (other high low rest)
    constructor
    · rintro ⟨⟩
      exact ⟨[], .nil, List.append_nil _⟩
    · rintro ⟨_, pairs, rfl⟩
      cases pairs
      rw [List.append_nil]

theorem digit_ascii {c : Char} {d : Nat} (digit : Numeral.digitValue? 16 c = some d) : c.toNat < 128 := by
  have below {last : Char} (le : c ≤ last) : c.toNat ≤ last.toNat :=
    UInt32.le_iff_toNat_le.mp (Char.le_def.mp le)
  simp only [Numeral.digitValue?, Option.ite_none_right_eq_some] at digit
  obtain ⟨small, -⟩ := digit
  split at small
  · rename_i range
    exact Nat.lt_of_le_of_lt (below range.2) (by decide)
  split at small
  · rename_i range
    exact Nat.lt_of_le_of_lt (below range.2) (by decide)
  split at small
  · rename_i range
    exact Nat.lt_of_le_of_lt (below range.2) (by decide)
  · exact absurd small (Nat.lt_irrefl 16)

theorem writes_ascii {plus : Bool} (written : Writes plus 16 digits n) : ∀ c ∈ digits, c.toNat < 128 := by
  obtain ⟨plain, shape, -, denotes⟩ := written
  have ascii : ∀ c ∈ plain, c.toNat < 128 := by
    intro c held
    obtain ⟨d, digit⟩ := exists_digitValue_of_mem denotes held
    exact digit_ascii digit
  rcases shape with rfl | ⟨-, rfl⟩
  · exact ascii
  · exact List.forall_mem_cons.mpr ⟨by decide, ascii⟩

theorem pairs_even {plus : Bool} (pairs : Pairs plus digits data) : digits.length % 2 = 0 := by
  induction pairs with
  | nil => rfl
  | cons written pairs ih =>
    rw [List.length_cons, List.length_cons]
    omega

theorem pairs_ascii {plus : Bool} (pairs : Pairs plus digits data) : ∀ c ∈ digits, c.toNat < 128 := by
  induction pairs with
  | nil => exact fun c held => absurd held List.not_mem_nil
  | cons written pairs ih =>
    obtain ⟨high, low⟩ := List.forall_mem_cons.mp (writes_ascii written)
    exact List.forall_mem_cons.mpr ⟨high, List.forall_mem_cons.mpr ⟨low _ List.mem_cons_self, ih⟩⟩

/-- **Bytes are read from pairs of digits**, whatever blanks stand between them. -/
theorem readBytes_eq_ok_iff : readBytes digits = .ok data ↔
    Pairs true (digits.filter fun c => !isBlank c) data := by
  generalize solid : (digits.filter fun c => !isBlank c) = kept
  rw [readBytes, solid]
  constructor
  · intro readable
    split at readable
    · cases readable
    split at readable
    · cases readable
    · rename_i even
      obtain ⟨more, pairs, rfl⟩ := (readPairs_eq_ok_iff (by omega)).mp readable
      exact pairs
  · intro pairs
    have ascii : (kept.any fun c => 128 ≤ c.toNat) = false := by
      refine List.any_eq_false.mpr fun c held => ?_
      simpa using pairs_ascii pairs c held
    have even := pairs_even pairs
    rw [if_neg (by simp [ascii]), if_neg (by omega)]
    exact (readPairs_eq_ok_iff even).mpr ⟨data, pairs, rfl⟩

/-! ## Lines -/

/-- **A line is passed over, or read as the fragment that it shows.** -/
theorem readLine_eq_ok_iff {image next : Image} : image.readLine line = .ok next ↔
    ¬ Counts line ∧ image = next ∨ ∃ f, Shows true line f ∧ image.enter f = next := by
  by_cases counts : Counts line
  · obtain ⟨address, digits, source, parted⟩ := counts
    have counts : Counts line := ⟨_, _, _, parted⟩
    obtain ⟨code, bar, colon⟩ := parted_iff.mp parted
    simp only [readLine, bar, colon, Fallible.bind_eq_ok, Fallible.mapError_eq_ok, Fallible.pure_eq_ok,
      readAddress_eq_ok_iff, readBytes_eq_ok_iff, counts, not_true_eq_false, false_and, false_or]
    constructor
    · rintro ⟨place, isAddress, data, pairs, written, stored, rfl⟩
      let f : Fragment := ⟨place, data, String.ofList (trim source)⟩
      obtain ⟨fits, rfl⟩ := (write_eq_ok_iff f).mp stored
      have within : f.stop ≤ maxSize := Fragment.stop_le_iff.mpr ⟨isAddress.le_maxSize, fits⟩
      exact ⟨f, ⟨_, _, _, parted, isAddress, pairs, within, rfl⟩, rfl⟩
    · rintro ⟨f, ⟨_, _, _, again, isAddress, pairs, within, text⟩, rfl⟩
      -- A line is taken apart in one way only.
      obtain ⟨_, sameBar, sameColon⟩ := parted_iff.mp again
      cases bar.symm.trans sameBar
      cases colon.symm.trans sameColon
      have stored : image.write f.address f.data = .ok _ :=
        (write_eq_ok_iff f).mpr ⟨(Fragment.stop_le_iff.mp within).2, rfl⟩
      exact ⟨_, isAddress, _, pairs, _, stored, by rw [← text]; rfl⟩
  · have passed : image.readLine line = .ok image := by
      obtain ⟨code, source, bar⟩ : ∃ code source, (splitAtFirst '|' line).getD (line, []) = (code, source) :=
        ⟨_, _, rfl⟩
      cases colon : splitAtFirst ':' code with
      | none => simp only [readLine, bar, colon]
      | some parts => exact absurd ⟨_, _, _, parted_iff.mpr ⟨code, bar, colon⟩⟩ counts
    have hidden (f : Fragment) : ¬ Shows true line f := by
      rintro ⟨_, _, _, parted, -⟩
      exact counts ⟨_, _, _, parted⟩
    simp [passed, counts, hidden]

theorem exists_readLine_iff (image : Image) :
    (∃ next, image.readLine line = .ok next) ↔ Regular true line := by
  simp only [readLine_eq_ok_iff, Regular]
  constructor
  · rintro ⟨next, ⟨passed, -⟩ | ⟨f, shows, -⟩⟩ counts
    · exact absurd counts passed
    · exact ⟨f, shows⟩
  · intro regular
    by_cases counts : Counts line
    · obtain ⟨f, shows⟩ := regular counts
      exact ⟨_, .inr ⟨f, shows, rfl⟩⟩
    · exact ⟨_, .inl ⟨counts, rfl⟩⟩

/-! ## Listings -/

variable {lines : List (List Char)} {number : Nat}

/-- Lines show fragments when each of them breaks no rule. -/
theorem exists_shown_iff {plus : Bool} : (∃ fs, Shown plus lines fs) ↔ ∀ line ∈ lines, Regular plus line := by
  induction lines with
  | nil => exact iff_of_true ⟨[], .nil⟩ fun line held => absurd held List.not_mem_nil
  | cons line rest ih =>
    rw [List.forall_mem_cons, ← ih]
    constructor
    · rintro ⟨_, shown⟩
      cases shown with
      | skip passed shown => exact ⟨fun counts => absurd counts passed, _, shown⟩
      | line shows shown => exact ⟨fun _ => ⟨_, shows⟩, _, shown⟩
    · rintro ⟨regular, fs, shown⟩
      by_cases counts : Counts line
      · obtain ⟨f, shows⟩ := regular counts
        exact ⟨_, .line shows shown⟩
      · exact ⟨_, .skip counts shown⟩

/-- **Lines are read as the fragments that they show.** -/
theorem go_eq_ok_iff {image next : Image} : ofListing.go number image lines = .ok next ↔
    ∃ fs, Shown true lines fs ∧ fs.foldl Image.enter image = next := by
  induction lines generalizing number image with
  | nil =>
    constructor
    · rintro ⟨⟩
      exact ⟨[], .nil, rfl⟩
    · rintro ⟨_, ⟨⟩, rfl⟩
      rfl
  | cons line rest ih =>
    rw [ofListing.go]
    constructor
    · intro readable
      split at readable
      · rename_i behind passed
        obtain ⟨fs, shown, rfl⟩ := ih.mp readable
        rcases readLine_eq_ok_iff.mp passed with ⟨hidden, rfl⟩ | ⟨f, shows, rfl⟩
        · exact ⟨fs, .skip hidden shown, rfl⟩
        · exact ⟨f :: fs, .line shows shown, rfl⟩
      · cases readable
    · rintro ⟨_, shown, rfl⟩
      cases shown with
      | skip passed shown =>
        rw [readLine_eq_ok_iff.mpr (.inl ⟨passed, rfl⟩)]
        exact ih.mpr ⟨_, shown, rfl⟩
      | line shows shown =>
        rw [readLine_eq_ok_iff.mpr (.inr ⟨_, shows, rfl⟩)]
        exact ih.mpr ⟨_, shown, rfl⟩

/-- **Reading fails at the first line that breaks the rule.** -/
theorem go_eq_error {image : Image} {e : ListingError} (failed : ofListing.go number image lines = .error e) :
    ∃ before line after, lines = before ++ line :: after ∧ (∀ l ∈ before, Regular true l) ∧
      ¬ Regular true line ∧ e.line = number + before.length := by
  induction lines generalizing number image with
  | nil => cases failed
  | cons line rest ih =>
    rw [ofListing.go] at failed
    split at failed
    · rename_i next passed
      obtain ⟨before, bad, after, rfl, regular, breaks, place⟩ := ih failed
      have first : Regular true line := (exists_readLine_iff image).mp ⟨next, passed⟩
      refine ⟨line :: before, bad, after, rfl, List.forall_mem_cons.mpr ⟨first, regular⟩, breaks, ?_⟩
      rw [place, List.length_cons]
      omega
    · rename_i cause refused
      cases failed
      refine ⟨[], line, rest, rfl, fun l held => absurd held List.not_mem_nil, fun regular => ?_, rfl⟩
      obtain ⟨next, passed⟩ := (exists_readLine_iff image).mpr regular
      cases refused.symm.trans passed

/-! ## Plus signs -/

theorem address_plain_iff : Address false address n ↔ Address true address n ∧ '+' ∉ address := by
  constructor
  · rintro ⟨isMark, written, inRange⟩
    obtain ⟨written, unsigned⟩ := writes_plain_iff.mp written
    refine ⟨.marked isMark written inRange, ?_⟩
    rcases isMark with rfl | rfl <;> simp [unsigned]
  · rintro ⟨⟨isMark, written, inRange⟩, unsigned⟩
    simp only [List.mem_cons, not_or] at unsigned
    exact .marked isMark (writes_plain_iff.mpr ⟨written, unsigned.2.2⟩) inRange

theorem pairs_plain_iff : Pairs false digits data ↔ Pairs true digits data ∧ '+' ∉ digits := by
  constructor
  · intro pairs
    induction pairs with
    | nil => exact ⟨.nil, List.not_mem_nil⟩
    | cons written pairs ih =>
      obtain ⟨written, unsigned⟩ := writes_plain_iff.mp written
      refine ⟨.cons written ih.1, ?_⟩
      simp only [List.mem_cons, List.not_mem_nil, or_false, not_or] at unsigned ⊢
      exact ⟨unsigned.1, unsigned.2, ih.2⟩
  · rintro ⟨pairs, unsigned⟩
    induction pairs with
    | nil => exact .nil
    | cons written pairs ih =>
      simp only [List.mem_cons, not_or] at unsigned
      obtain ⟨first, second, rest⟩ := unsigned
      exact .cons (writes_plain_iff.mpr ⟨written, by simp [first, second]⟩) (ih rest)

theorem beforeFirst_parted (parted : Parted line address digits source) :
    beforeFirst '|' line = address ++ ':' :: digits := by
  cases parted with
  | barred noColon noBar => exact beforeFirst_append noBar _
  | bare noColon noBar => exact beforeFirst_unmarked noBar

/-- The lines that show a fragment without plus signs. -/
theorem shows_plain_iff : Shows false line f ↔ Shows true line f ∧ '+' ∉ beforeFirst '|' line := by
  have solid : isBlank '+' = false := by decide
  have kept (digits : List Char) : '+' ∈ digits.filter (fun c => !isBlank c) ↔ '+' ∈ digits := by
    simp [solid]
  -- A plus sign stands in the address or among the digits, and is no blank.
  have apart {address digits source : List Char} (parted : Parted line address digits source) :
      '+' ∉ beforeFirst '|' line ↔
        '+' ∉ trim address ∧ '+' ∉ digits.filter fun c => !isBlank c := by
    have other : '+' ≠ ':' := by decide
    rw [beforeFirst_parted parted, mem_trim solid, kept, List.mem_append, not_or, List.mem_cons,
      or_iff_right other]
  constructor
  · rintro ⟨address, digits, source, parted, isAddress, pairs, within, text⟩
    obtain ⟨isAddress, noPlus⟩ := address_plain_iff.mp isAddress
    obtain ⟨pairs, none⟩ := pairs_plain_iff.mp pairs
    exact ⟨⟨_, _, _, parted, isAddress, pairs, within, text⟩, (apart parted).mpr ⟨noPlus, none⟩⟩
  · rintro ⟨⟨address, digits, source, parted, isAddress, pairs, within, text⟩, unsigned⟩
    obtain ⟨noPlus, none⟩ := (apart parted).mp unsigned
    exact ⟨_, _, _, parted, address_plain_iff.mpr ⟨isAddress, noPlus⟩, pairs_plain_iff.mpr ⟨pairs, none⟩,
      within, text⟩

/-- **Which texts are listings.** Reading succeeds exactly if every line that has a
colon in front of its first bar shows a fragment, and then makes the image of these
fragments, in order; otherwise the error has the number of the first line that breaks
the rule. A plus sign in front of hexadecimal digits is passed over; the lines that show
a fragment without one are those that hold no plus sign in front of the bar. -/
theorem listing_accepted (text : String) :
    ((∃ image, ofListing text = .ok image) ↔ ∀ line ∈ Text.lines text.toList, Regular true line) ∧
    (∀ image, ofListing text = .ok image → ∃ fs, Shown true (Text.lines text.toList) fs ∧
      assembled fs = image ∧ image.lines.toList = fs.map Fragment.line) ∧
    (∀ e, ofListing text = .error e → ∃ before line after,
      Text.lines text.toList = before ++ line :: after ∧ (∀ l ∈ before, Regular true l) ∧
      ¬ Regular true line ∧ e.line = before.length + 1) ∧
    ∀ line f, Shows false line f ↔ Shows true line f ∧ '+' ∉ beforeFirst '|' line := by
  refine ⟨?_, ?_, ?_, fun line f => shows_plain_iff⟩
  · rw [← exists_shown_iff]
    constructor
    · rintro ⟨image, readable⟩
      obtain ⟨fs, shown, -⟩ := go_eq_ok_iff.mp readable
      exact ⟨fs, shown⟩
    · rintro ⟨fs, shown⟩
      exact ⟨_, go_eq_ok_iff.mpr ⟨fs, shown, rfl⟩⟩
  · intro image readable
    obtain ⟨fs, shown, made⟩ := go_eq_ok_iff.mp readable
    refine ⟨fs, shown, made, ?_⟩
    rw [← made, ← assembled, assembled_eq]
  · intro e failed
    obtain ⟨before, line, after, parts, regular, breaks, place⟩ := go_eq_error failed
    exact ⟨before, line, after, parts, regular, breaks, place.trans (Nat.add_comm 1 _)⟩

/-- The image of a listing with blanks between its digits. -/
def spaced : Image where
  bytes := #[0, 0, 0x12, 0xAB]
  lines := #[⟨2, 2, "é | 0x"⟩, ⟨0x100000, 0, "end"⟩]

/-- A listing with blanks between digits, a line that is passed over and an address at
the limit; and one with an address behind the limit on its second line. -/
theorem listing_accepted_spaced :
    (ofListing " 0X02 : 1 2Ab|é | 0x\n | 1:2\n0x100000:|end" = .ok spaced ∧
      (∀ line ∈ Text.lines " 0X02 : 1 2Ab|é | 0x\n | 1:2\n0x100000:|end".toList, Regular true line) ∧
      ∃ fs, Shown true (Text.lines " 0X02 : 1 2Ab|é | 0x\n | 1:2\n0x100000:|end".toList) fs ∧
        assembled fs = spaced ∧ spaced.lines.toList = fs.map Fragment.line) ∧
    ofListing "0x0: 00\n0x100000: 00\n:" = .error ⟨2, .refused (.tooLarge 0x100000 1)⟩ ∧
      ∃ before line after, Text.lines "0x0: 00\n0x100000: 00\n:".toList = before ++ line :: after ∧
        (∀ l ∈ before, Regular true l) ∧ ¬ Regular true line ∧ 2 = before.length + 1 := by
  have readable : ofListing " 0X02 : 1 2Ab|é | 0x\n | 1:2\n0x100000:|end" = .ok spaced := by cbv
  have failed : ofListing "0x0: 00\n0x100000: 00\n:" = .error ⟨2, .refused (.tooLarge 0x100000 1)⟩ := by cbv
  obtain ⟨succeeds, shown, -, -⟩ := listing_accepted " 0X02 : 1 2Ab|é | 0x\n | 1:2\n0x100000:|end"
  exact ⟨⟨readable, succeeds.mp ⟨_, readable⟩, shown _ readable⟩, failed, (listing_accepted _).2.2.1 _ failed⟩

/-- Not only listings without plus signs are read: `+5` is read as a byte. -/
theorem plus_read_as_byte :
    ¬ ∀ text : String, (∃ image, ofListing text = .ok image) ↔
      ∀ line ∈ Text.lines text.toList, Regular false line := by
  intro plain
  have readable : ofListing "0x000: +5 | x" = .ok { bytes := #[5], lines := #[⟨0, 1, "x"⟩] } := by cbv
  have line : "0x000: +5 | x".toList ∈ Text.lines "0x000: +5 | x".toList := by decide
  have counts : Counts "0x000: +5 | x".toList := ⟨_, _, _, parted_iff.mpr ⟨"0x000: +5 ".toList, rfl, rfl⟩⟩
  obtain ⟨f, shows⟩ := (plain _).mp ⟨_, readable⟩ _ line counts
  exact (shows_plain_iff.mp shows).2 (by decide)

end Y86Toolkit.ListingGrammar
