import Mathlib.Data.List.Forall2
import Y86Toolkit.Proofs.DisassemblyTiles
import Y86Toolkit.Proofs.ListingRoundTrip
import Y86Toolkit.Proofs.PrintedLines

/-!
Printed programs assembled again. Every instruction and every raw byte comes back
from its line, so the texts of a disassembly make an image with the bytes it was
taken from, except for the half bytes that decoding does not read.
-/

namespace Y86Toolkit.Disassembly

/-- What is printed on a line. -/
inductive Piece where
  | instruction (i : Instruction)
  | raw (b : Byte)

namespace Piece

/-- The line. -/
def text : Piece → String
  | instruction i => i.text
  | raw b => rawByte b

/-- The bytes that the line stands for. -/
def bytes : Piece → List Byte
  | instruction i => i.encode
  | raw b => [b]

end Piece

/-- What stands behind the first bars of a listing, each text on a line of its own. -/
def textColumn (listing : String) : String :=
  String.ofList ((Text.lines listing.toList).flatMap fun line =>
    Text.trim (((Text.splitAtFirst '|' line).map Prod.snd).getD []) ++ ['\n'])

end Y86Toolkit.Disassembly

namespace Y86Toolkit.Reassembly
open Assembly Disassembly DisassemblyTiles Encoding Fragments Instruction ListingLines PrintedLines
open StraightSource Texts

/-! ## Printed programs -/

theorem phrase_piece (p : Piece) : ∃ words, Phrase p.text.toList words := by
  cases p with
  | instruction i => exact ⟨_, phrase_text i⟩
  | raw b => exact ⟨_, phrase_rawByte b⟩

theorem oneLine_piece (p : Piece) : '\n' ∉ p.text.toList := by
  obtain ⟨words, phrase⟩ := phrase_piece p
  exact fun held => unmarked_phrase phrase held (by decide)

theorem emits_piece (p : Piece) : Emits p.text.toList p.bytes := by
  cases p with
  | instruction i => exact emits_text i
  | raw b => exact emits_rawByte b

theorem forall₂_emits (ps : List Piece) :
    List.Forall₂ Emits (ps.map fun p => p.text.toList) (ps.map Piece.bytes) := by
  induction ps with
  | nil => exact .nil
  | cons p ps ih => exact .cons (emits_piece p) ih

/-- **Printing and assembling are inverse.** The lines of instructions and raw bytes,
with line feeds between them, assemble to the encodings of the instructions and the
bytes, one behind the other, if these fit into an image. -/
theorem printed_assembles {ps : List Piece} (fits : (ps.flatMap Piece.bytes).length ≤ Image.maxSize) :
    ∃ image, assemble ("\n".intercalate (ps.map Piece.text)) = .ok image ∧
      image.bytes.toList = ps.flatMap Piece.bytes := by
  have lines : Text.lines ("\n".intercalate (ps.map Piece.text)).toList = ps.map fun p => p.text.toList := by
    have parts : ("\n".intercalate (ps.map Piece.text)).toList =
        ['\n'].intercalate (ps.map fun p => p.text.toList) := by
      rw [String.toList_intercalate, List.map_map]
      rfl
    rw [parts]
    apply lines_intercalate
    · intro l printed
      obtain ⟨p, -, rfl⟩ := List.mem_map.mp printed
      exact oneLine_piece p
    · intro l printed
      obtain ⟨p, -, rfl⟩ := List.mem_map.mp printed
      obtain ⟨words, phrase⟩ := phrase_piece p
      exact ne_nil_phrase phrase
  have straight := forall₂_emits ps
  rw [← lines] at straight
  exact assemble_straight straight fits

/-- The least word as a constant, a byte that could start an instruction, and the
greatest destination. -/
def extreme : List Piece :=
  [.instruction (.loadImmediate 0x8000000000000000 .r14), .raw 0xA0,
    .instruction (.jump .greaterEqual 0xFFFFFFFFFFFFFFFF)]

theorem printed_assembles_extreme :
    (extreme.flatMap Piece.bytes).length ≤ Image.maxSize ∧
      ∃ image, assemble "irmovq $-9223372036854775808, %r14\n.byte 0xa0\njge 0xffffffffffffffff" =
          .ok image ∧
        image.bytes.toList = [0x30, 0xFE, 0, 0, 0, 0, 0, 0, 0, 0x80, 0xA0, 0x75, 0xFF, 0xFF, 0xFF, 0xFF,
          0xFF, 0xFF, 0xFF, 0xFF] := by
  have fits : (extreme.flatMap Piece.bytes).length ≤ Image.maxSize := by decide
  have text : "\n".intercalate (extreme.map Piece.text) =
      "irmovq $-9223372036854775808, %r14\n.byte 0xa0\njge 0xffffffffffffffff" := by cbv
  obtain ⟨image, ran, stored⟩ := printed_assembles fits
  rw [text] at ran
  exact ⟨fits, image, ran, stored⟩

/-! ## Disassemblies -/

theorem length_canonical (bytes : List Byte) : (canonical bytes).length = bytes.length := by
  unfold canonical
  split
  · split
    · rfl
    · split <;> rfl
  · rfl

/-- Every line of a disassembly is printed for its bytes, up to the half byte that
decoding does not read. -/
theorem exists_piece {cells : Array Byte} {f : Fragment} (before : f.address < cells.size)
    (line : f.line = lineAt cells f.address) (data : f.data = Bytes.slice cells f.address f.stop) :
    ∃ p : Piece, p.text = f.text ∧ p.bytes = canonical f.data := by
  rcases lineAt_cases before with ⟨i, found, -, shows⟩ | ⟨_, -, found⟩
  · rw [found] at line
    have length : f.data.length = i.length := congrArg SourceLine.length line
    have text : f.text = i.text := congrArg SourceLine.text line
    rw [← length, ← Fragment.stop, ← data] at shows
    exact ⟨.instruction i, text.symm, encode_eq_canonical shows length⟩
  · rw [found] at line
    have length : f.data.length = 1 := congrArg SourceLine.length line
    have text : f.text = rawByte cells[f.address] := congrArg SourceLine.text line
    refine ⟨.raw cells[f.address], text.symm, ?_⟩
    rw [Fragment.stop, length,
      Cells.slice_cons (Nat.lt_succ_self _) (Array.getElem?_eq_getElem before)] at data
    obtain ⟨b, alone⟩ := List.length_eq_one_iff.mp length
    rw [alone] at data ⊢
    rw [← (List.cons.inj data).1]
    rfl

/-- A line of a disassembly loses nothing in its listing. -/
theorem listable_tiled {cells : Array Byte} (small : cells.size ≤ Image.maxSize) {fs : List Fragment}
    (tiled : Tiled cells 0 fs) : ∀ f ∈ fs, f.Listable := by
  intro f held
  obtain ⟨before, within, line, data⟩ := mem_tiled tiled held
  obtain ⟨p, text, -⟩ := exists_piece before line data
  obtain ⟨words, phrase⟩ := phrase_piece p
  rw [text] at phrase
  exact ⟨Nat.le_trans (Nat.le_of_lt before) small, .inr (Nat.le_trans within small), trim_phrase phrase,
    fun lineFeed => unmarked_phrase phrase lineFeed (by decide)⟩

theorem shownIn_tiled {cells : Array Byte} {fs : List Fragment} (tiled : Tiled cells 0 fs) :
    fs.map (Fragment.shownIn cells) = fs := by
  refine (List.map_congr_left fun f held => ?_).trans (List.map_id fs)
  obtain ⟨-, -, -, data⟩ := mem_tiled tiled held
  rw [Fragment.shownIn, ← data]
  rfl

/-- The texts of a disassembly, one below the other. -/
theorem textColumn_listing {cells : Array Byte} (small : cells.size ≤ Image.maxSize) {fs : List Fragment}
    (tiled : Tiled cells 0 fs) (made : Disassembly.image cells = assembled fs) :
    (textColumn (Disassembly.listing cells)).toList =
      (fs.map fun f => f.text.toList).flatMap (· ++ ['\n']) := by
  have listable := listable_tiled small tiled
  have stored : (assembled fs).bytes = cells := by rw [← made]; rfl
  have listing : (Disassembly.listing cells).toList = (fs.map Fragment.listed).flatMap (· ++ ['\n']) := by
    rw [Disassembly.listing, made, ListingRoundTrip.listing_toList, stored, shownIn_tiled tiled]
  have oneLine : ∀ l ∈ fs.map Fragment.listed, '\n' ∉ l := by
    intro l printed
    obtain ⟨f, held, rfl⟩ := List.mem_map.mp printed
    exact listed_lineFeed_free (listable f held)
  rw [textColumn, String.toList_ofList, listing, lines_flatMap oneLine, List.flatMap_map, List.flatMap_map]
  refine List.flatMap_congr fun f held => ?_
  simp only [splitAtFirst_listed, Option.map_some, Option.getD_some, trim_text (listable f held)]

theorem flatMap_eq_iff {α β : Type} {items : List α} {f g : α → List β}
    (lengths : ∀ a ∈ items, (f a).length = (g a).length) :
    items.flatMap f = items.flatMap g ↔ ∀ a ∈ items, f a = g a := by
  constructor
  · intro same
    induction items with
    | nil => exact fun a held => absurd held List.not_mem_nil
    | cons a rest ih =>
      obtain ⟨first, lengths⟩ := List.forall_mem_cons.mp lengths
      obtain ⟨here, behind⟩ := List.append_inj same first
      exact List.forall_mem_cons.mpr ⟨here, ih lengths behind⟩
  · exact List.flatMap_congr

theorem forall₂_emits_tiled {cells : Array Byte} {fs : List Fragment} (tiled : Tiled cells 0 fs) :
    List.Forall₂ Emits (fs.map fun f => f.text.toList) (fs.map fun f => canonical f.data) := by
  refine List.forall₂_map_left_iff.mpr (List.forall₂_map_right_iff.mpr (List.forall₂_same.mpr ?_))
  intro f held
  obtain ⟨before, -, line, data⟩ := mem_tiled tiled held
  obtain ⟨p, text, bytes⟩ := exists_piece before line data
  rw [← text, ← bytes]
  exact emits_piece p

/-- **A disassembly assembles to the canonical form of its bytes.** The texts of its
listing, one below the other, assemble to an image of the same size, in which every
line has its bytes with fifteen in the half byte that decoding does not read. The
image is the same exactly when fifteen stood there in every line. -/
theorem disassembly_assembles {bytes : Array Byte} (small : bytes.size ≤ Image.maxSize) :
    ∃ image, assemble (textColumn (Disassembly.listing bytes)) = .ok image ∧ image.size = bytes.size ∧
      image.bytes.toList = (Disassembly.image bytes).lines.toList.flatMap
        (fun line => canonical ((Disassembly.image bytes).lineBytes line)) ∧
      (image.bytes = bytes ↔ ∀ line ∈ (Disassembly.image bytes).lines,
        canonical ((Disassembly.image bytes).lineBytes line) = (Disassembly.image bytes).lineBytes line) := by
  obtain ⟨fs, tiled, made⟩ := image_tiled bytes
  have lines : (Disassembly.image bytes).lines = (fs.map Fragment.line).toArray := by rw [made, assembled_eq]
  have shown : ∀ f ∈ fs, (Disassembly.image bytes).lineBytes f.line = f.data := by
    intro f held
    exact (mem_tiled tiled held).2.2.2.symm
  have whole : fs.flatMap Fragment.data = bytes.toList := flatMap_tiled tiled
  have lengths : ∀ f ∈ fs, (canonical f.data).length = f.data.length := fun f _ => length_canonical f.data
  have straight := forall₂_emits_tiled tiled
  have oneLine : ∀ l ∈ fs.map (fun f => f.text.toList), '\n' ∉ l := by
    intro l printed
    obtain ⟨f, held, rfl⟩ := List.mem_map.mp printed
    exact (listable_tiled small tiled f held).oneLine
  rw [← lines_flatMap oneLine, ← textColumn_listing small tiled made] at straight
  have size : (fs.flatMap fun f => canonical f.data).length = bytes.size := by
    rw [← Array.length_toList, ← whole, List.length_flatMap, List.length_flatMap]
    exact congrArg List.sum (List.map_congr_left lengths)
  obtain ⟨image, ran, stored⟩ := assemble_straight straight (Nat.le_trans (Nat.le_of_eq size) small)
  have stored : image.bytes.toList = fs.flatMap fun f => canonical f.data := stored
  refine ⟨image, ran, ?_, ?_, ?_⟩
  · rw [Image.size, ← Array.length_toList, stored, size]
  · rw [stored, lines, List.flatMap_map]
    exact List.flatMap_congr fun f held => by rw [shown f held]
  · rw [← Array.toList_inj, stored, ← whole, flatMap_eq_iff lengths, lines]
    simp only [List.mem_toArray, List.forall_mem_map]
    exact forall₂_congr fun f held => by rw [shown f held]

/-- A pushed register, a byte that starts no instruction, and an instruction that is
cut off. -/
theorem disassembly_assembles_push :
    (#[0xA0, 0x53, 0xC0, 0x30] : Array Byte).size ≤ Image.maxSize ∧
      ∃ image, assemble (textColumn (Disassembly.listing #[0xA0, 0x53, 0xC0, 0x30])) = .ok image ∧
        image.size = 4 ∧ image.bytes.toList = [0xA0, 0x5F, 0xC0, 0x30] := by
  have small : (#[0xA0, 0x53, 0xC0, 0x30] : Array Byte).size ≤ Image.maxSize := by decide
  obtain ⟨image, ran, size, bytes, -⟩ := disassembly_assembles small
  refine ⟨small, image, ran, size, bytes.trans ?_⟩
  cbv

/-- The register pushed at the start is the same, but the half byte behind it is not. -/
theorem push_not_restored :
    ¬ ∀ bytes : Array Byte, bytes.size ≤ Image.maxSize →
      ∃ image, assemble (textColumn (Disassembly.listing bytes)) = .ok image ∧ image.bytes = bytes := by
  intro always
  obtain ⟨image, ran, same⟩ := always #[0xA0, 0x53] (by decide)
  have text : textColumn (Disassembly.listing #[0xA0, 0x53]) = "pushq %rbp\n" := by cbv
  have made : assemble "pushq %rbp\n" =
      .ok { bytes := #[0xA0, 0x5F], lines := #[⟨0, 2, "pushq %rbp"⟩] } := by cbv
  rw [text, made] at ran
  cases ran
  exact absurd same (by decide)

end Y86Toolkit.Reassembly
