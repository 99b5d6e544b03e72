import Y86Toolkit.Proofs.Reassembly

/-!
The listing of a disassembly as an object file. It is read back to the bytes that were
taken apart, and its lines lie one behind the other from the first byte to the last,
each with the instruction that stands there or with a byte that starts none.
-/

namespace Y86Toolkit.Disassembly
open Instruction

/-- A line says what stands at its address: an instruction with its length, or one byte
from which on none can be read. -/
def Describes (bytes : List Byte) (line : SourceLine) : Prop :=
  match decode (bytes.drop line.address) with
  | .ok i => line.length = i.length ∧ line.text = i.text
  | .error _ => line.length = 1 ∧ ∃ b, bytes[line.address]? = some b ∧ line.text = rawByte b

/-- Lines one behind the other from an address up to the end of the bytes. None of them
is empty, and each says what stands there. -/
inductive Tiles (bytes : List Byte) : Nat → List SourceLine → Prop where
  | done : Tiles bytes bytes.length []
  | line {line : SourceLine} {behind : List SourceLine} (filled : 0 < line.length)
      (describes : Describes bytes line) (rest : Tiles bytes (line.address + line.length) behind) :
      Tiles bytes line.address (line :: behind)

end Y86Toolkit.Disassembly

namespace Y86Toolkit.DisassemblyListing
open Instruction Disassembly DisassemblyTiles Fragments ListingRoundTrip Reassembly

variable {cells : Array Byte}

theorem describes_lineAt {address : Nat} (before : address < cells.size) :
    Describes cells.toList (lineAt cells address) := by
  have place : (lineAt cells address).address = address := (lineAt_stop before).1
  rw [Describes, place, ← decode_window]
  cases decoded : decode (Bytes.slice cells address (address + maxLength)) with
  | ok i =>
    rw [lineAt, decoded]
    exact ⟨rfl, rfl⟩
  | error cause =>
    rw [lineAt, decoded, Array.getElem?_toList, Array.getElem?_eq_getElem before]
    exact ⟨rfl, _, rfl, rfl⟩

/-- The lines of fragments that lie one behind the other do so, too. -/
theorem tiles_tiled {start : Nat} {fs : List Fragment} (tiled : Tiled cells start fs) :
    Tiles cells.toList start (fs.map Fragment.line) := by
  induction tiled with
  | done => exact .done
  | @line f fs before within line data behind ih =>
    have describes := describes_lineAt before
    have filled := lineAt_length_pos cells f.address
    rw [← line] at describes filled
    exact .line filled describes ih

/-- **A disassembly is read back as what was taken apart.** The listing of bytes that
fit into an image is a listing of an image with these bytes, and the lines of that
image tile them. -/
theorem disassembly_reads_back {bytes : Array Byte} (small : bytes.size ≤ Image.maxSize) :
    ∃ image, Image.ofListing (Disassembly.listing bytes) = .ok image ∧ image.bytes = bytes ∧
      Tiles bytes.toList 0 image.lines.toList := by
  obtain ⟨fs, tiled, made⟩ := image_tiled bytes
  have listable : Listable (Disassembly.image bytes) := ⟨fs, listable_tiled small tiled, made.symm⟩
  have lines : (Disassembly.image bytes).lines.toList = fs.map Fragment.line := by
    rw [made, assembled_eq]
  exact ⟨_, ofListing_listing listable, rfl, lines ▸ tiles_tiled tiled⟩

/-- A byte that starts no instruction, an instruction, and a push that is cut off. -/
theorem disassembly_reads_back_cutPush :
    (#[0xC0, 0x10, 0xA0] : Array Byte).size ≤ Image.maxSize ∧
      ∃ image, Image.ofListing (Disassembly.listing #[0xC0, 0x10, 0xA0]) = .ok image ∧
        image.bytes = #[0xC0, 0x10, 0xA0] ∧ Tiles [0xC0, 0x10, 0xA0] 0 image.lines.toList :=
  ⟨by decide, disassembly_reads_back (by decide)⟩

end Y86Toolkit.DisassemblyListing
