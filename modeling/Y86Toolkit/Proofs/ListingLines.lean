import Y86Toolkit.Image.Listing
import Y86Toolkit.Proofs.Fragments
import Y86Toolkit.Proofs.Numerals

/-!
One line of a listing. Its first bar stands behind the bytes and its first colon
behind the address, whatever the source text is, so that a fragment is read back
from its line.
-/

namespace Y86Toolkit

namespace Fragment

/-- The address, as it is listed. -/
def addressPart (f : Fragment) : List Char := (Numeral.hex 3 f.address).toList

/-- The bytes, as they are listed between the colon and the bar. -/
def bytesPart (f : Fragment) : List Char :=
  ' ' :: (Numeral.padded Image.byteColumns (Bytes.hexText f.data)).toList ++ [' ']

/-- The line of a listing, without its line feed. -/
def listed (f : Fragment) : List Char :=
  f.addressPart ++ ':' :: f.bytesPart ++ '|' :: ' ' :: f.text.toList

/-- What a listing can show of a fragment is all of it. -/
structure Listable (f : Fragment) : Prop where
  inRange : f.address ≤ Image.maxSize
  fits : f.Fits
  trimmed : Text.trim f.text.toList = f.text.toList
  oneLine : '\n' ∉ f.text.toList

theorem Listable.stop_le {f : Fragment} (listable : f.Listable) : f.stop ≤ Image.maxSize :=
  stop_le_iff.mpr ⟨listable.inRange, listable.fits⟩

end Fragment

namespace ListingLines
open Image Text Texts Numerals Fragments

variable {f : Fragment}

theorem listingLine_toList (image : Image) (f : Fragment) :
    (image.listingLine f.line).toList = (f.shownIn image.bytes).listed ++ ['\n'] := by
  simp [listingLine, Fragment.listed, Fragment.addressPart, Fragment.bytesPart, addressText, lineBytes,
    Fragment.line, Fragment.shownIn, Fragment.stop]

/-! ## The parts of a line -/

theorem addressPart_solid {c : Char} (held : c ∈ f.addressPart) :
    Text.isBlank c = false ∧ c ∉ [':', '|', '\n'] := by
  have parts : c ∈ '0' :: 'x' :: (Numeral.hexDigits 3 f.address).toList := by
    simpa [Fragment.addressPart, Numeral.hex] using held
  rcases List.mem_cons.mp parts with rfl | parts
  · decide
  rcases List.mem_cons.mp parts with rfl | digit
  · decide
  · have plain := hexDigit_plain (hexDigit_of_mem digit)
    exact ⟨plain.1, fun mark => plain.2.2 (List.mem_cons_of_mem _ mark)⟩

theorem bytesPart_eq (f : Fragment) : ∃ count,
    f.bytesPart = ' ' :: (Bytes.hexText f.data).toList ++ List.replicate count ' ' ++ [' '] := by
  refine ⟨byteColumns - (Bytes.hexText f.data).toList.length, ?_⟩
  simp [Fragment.bytesPart, Numeral.padded, List.rightpad]

theorem bytesPart_unmarked {c : Char} (held : c ∈ f.bytesPart) : c ∉ ['|', '\n'] := by
  obtain ⟨count, parts⟩ := bytesPart_eq f
  have inside : c = ' ' ∨ HexDigit c := by
    rw [parts] at held
    simp only [List.mem_append, List.mem_cons, List.mem_replicate, List.not_mem_nil, or_false] at held
    rcases held with ((blank | digit) | ⟨-, blank⟩) | blank
    · exact .inl blank
    · exact .inr (hexDigit_of_mem_hexText digit)
    · exact .inl blank
    · exact .inl blank
  rcases inside with rfl | digit
  · decide
  · intro mark
    refine (hexDigit_plain digit).2.2 ?_
    exact List.mem_cons_of_mem _ (List.mem_cons_of_mem _ mark)

theorem readAddress_addressPart (inRange : f.address ≤ maxSize) :
    readAddress (Text.trim f.addressPart) = .ok f.address := by
  have fits : f.address < Word.limit Word.width := Nat.lt_of_le_of_lt inRange (by decide)
  have shape : f.addressPart = '0' :: 'x' :: (Numeral.hexDigits 3 f.address).toList := by
    simp [Fragment.addressPart, Numeral.hex]
  rw [trim_solid fun c held => (addressPart_solid held).1, shape]
  simp only [readAddress, read_hexDigits fits, if_neg (Nat.not_lt_of_le inRange)]

theorem readPairs_hexText (done data : List Byte) :
    readPairs done (Bytes.hexText data).toList = .ok (done.reverse ++ data) := by
  rw [hexText_toList]
  induction data generalizing done with
  | nil => simp [readPairs]
  | cons b rest ih =>
    obtain ⟨high, low, digits⟩ := hexDigits_byte b
    have value : Numeral.read 16 256 [high, low] = .ok b.toNat := by
      rw [← digits]
      exact read_hexDigits b.toNat_lt
    rw [List.flatMap_cons, digits]
    simp only [List.cons_append, List.nil_append, readPairs, value, ih, UInt8.ofNat_toNat,
      List.reverse_cons, List.append_assoc]

theorem length_hexText (data : List Byte) : (Bytes.hexText data).toList.length = 2 * data.length := by
  rw [hexText_toList]
  induction data with
  | nil => rfl
  | cons b rest ih =>
    obtain ⟨high, low, digits⟩ := hexDigits_byte b
    rw [List.flatMap_cons, List.length_append, ih, digits]
    simp only [List.length_cons, List.length_nil]
    omega

/-- The blanks around the digits do not count. -/
theorem readBytes_bytesPart (f : Fragment) : readBytes f.bytesPart = .ok f.data := by
  obtain ⟨count, parts⟩ := bytesPart_eq f
  have plain : ∀ c ∈ (Bytes.hexText f.data).toList, Text.isBlank c = false ∧ c.toNat < 128 := by
    intro c held
    have digit := hexDigit_plain (hexDigit_of_mem_hexText held)
    exact ⟨digit.1, digit.2.1⟩
  have digits : (f.bytesPart.filter fun c => !Text.isBlank c) = (Bytes.hexText f.data).toList := by
    have blank : Text.isBlank ' ' = true := by decide
    have kept : ((Bytes.hexText f.data).toList.filter fun c => !Text.isBlank c) =
        (Bytes.hexText f.data).toList := by
      refine List.filter_eq_self.mpr fun c held => ?_
      simp [(plain c held).1]
    rw [parts]
    simp [blank, kept]
  have ascii : ((Bytes.hexText f.data).toList.any fun c => 128 ≤ c.toNat) = false := by
    refine List.any_eq_false.mpr fun c held => ?_
    simpa using (plain c held).2
  have even : (Bytes.hexText f.data).toList.length % 2 = 0 := by
    rw [length_hexText]
    omega
  simp only [readBytes, digits, ascii, even, readPairs_hexText, List.reverse_nil, List.nil_append]
  rfl

/-! ## Whole lines -/

theorem listed_lineFeed_free (listable : f.Listable) : '\n' ∉ f.listed := by
  intro held
  simp only [Fragment.listed, List.mem_append, List.mem_cons] at held
  rcases held with (address | colon | bytes) | bar | blank | text
  · exact (addressPart_solid address).2 (by simp)
  · exact absurd colon (by decide)
  · exact bytesPart_unmarked bytes (by simp)
  · exact absurd bar (by decide)
  · exact absurd blank (by decide)
  · exact listable.oneLine text

/-- The text of a line stands behind its first bar, whatever characters it has. -/
theorem splitAtFirst_listed (f : Fragment) :
    splitAtFirst '|' f.listed = some (f.addressPart ++ ':' :: f.bytesPart, ' ' :: f.text.toList) := by
  have noBar : '|' ∉ f.addressPart ++ ':' :: f.bytesPart := by
    intro held
    rcases List.mem_append.mp held with address | behind
    · exact (addressPart_solid address).2 (by simp)
    rcases List.mem_cons.mp behind with colon | bytes
    · exact absurd colon (by decide)
    · exact bytesPart_unmarked bytes (by simp)
  exact splitAtFirst_append noBar _

theorem trim_text (listable : f.Listable) : Text.trim (' ' :: f.text.toList) = f.text.toList := by
  rw [trim_cons (by decide), listable.trimmed]

/-- **A line of a listing is read back as the fragment it was written for.** -/
theorem readLine_listed (image : Image) (listable : f.Listable) :
    image.readLine f.listed = .ok (image.enter f) := by
  have noColon : ':' ∉ f.addressPart := fun held => (addressPart_solid held).2 (by simp)
  have written : image.write f.address f.data = .ok { image with bytes := f.store image.bytes } :=
    (write_eq_ok_iff f).mpr ⟨listable.fits, rfl⟩
  simp only [readLine, splitAtFirst_listed, Option.getD_some, splitAtFirst_append noColon,
    readAddress_addressPart listable.inRange, readBytes_bytesPart, trim_text listable,
    String.ofList_toList, Fallible.bind_eq_ok, Fallible.mapError_eq_ok, Fallible.pure_eq_ok]
  exact ⟨_, rfl, _, rfl, _, written, rfl⟩

/-- Trimming one line leaves a text that a listing keeps. -/
theorem listable_of_trimmed {cs : List Char} (inRange : f.address ≤ maxSize) (fits : f.Fits)
    (text : f.text = String.ofList (trim cs)) (oneLine : '\n' ∉ cs) : f.Listable := by
  have chars : f.text.toList = trim cs := by rw [text, String.toList_ofList]
  refine ⟨inRange, fits, ?_, ?_⟩
  · rw [chars, trim_trim]
  · rw [chars]
    exact fun held => oneLine (trim_subset cs held)

end ListingLines

end Y86Toolkit
