import Y86Toolkit.Proofs.Emission
import Y86Toolkit.Proofs.ListingGrammar
import Y86Toolkit.Proofs.ListingLines

/-!
Whole listings. An image that was read or assembled is made of fragments that a
listing can show, and such an image comes back from its listing unchanged, up to
the labels, which a listing does not have.
-/

namespace Y86Toolkit.ListingRoundTrip
open Assembly Fragments ListingGrammar ListingLines Texts Emission

/-- An image made of fragments that can be listed. -/
def Listable (image : Image) : Prop :=
  ∃ fs : List Fragment, (∀ f ∈ fs, f.Listable) ∧ assembled fs = image

/-! ## From an image to its listing and back -/

theorem listable_shownIn {f : Fragment} {final : Array Byte} (listable : f.Listable)
    (reach : f.EndsBy final.size) : (f.shownIn final).Listable := by
  refine { listable with fits := ?_ }
  rcases listable.fits with none | within
  · refine .inl (List.eq_nil_of_length_eq_zero ?_)
    rw [length_shownIn reach, none, List.length_nil]
  · refine .inr ?_
    rw [Fragment.stop, length_shownIn reach]
    exact within

theorem go_listed (number : Nat) (image : Image) {fs : List Fragment} (each : ∀ f ∈ fs, f.Listable) :
    Image.ofListing.go number image (fs.map Fragment.listed) = .ok (fs.foldl Image.enter image) := by
  induction fs generalizing number image with
  | nil => rfl
  | cons f rest ih =>
    obtain ⟨listable, each⟩ := List.forall_mem_cons.mp each
    rw [List.map_cons, Image.ofListing.go, readLine_listed image listable]
    exact ih (number + 1) (image.enter f) each

theorem listing_toList (fs : List Fragment) :
    (assembled fs).listing.toList =
      ((fs.map (Fragment.shownIn (assembled fs).bytes)).map Fragment.listed).flatMap (· ++ ['\n']) := by
  have lines : (assembled fs).lines = (fs.map Fragment.line).toArray := by rw [assembled_eq]
  cases fs with
  | nil => rfl
  | cons f rest =>
    have some : (assembled (f :: rest)).lines.isEmpty = false := by rw [lines]; rfl
    rw [Image.listing, some]
    simp only [Bool.false_eq_true, if_false]
    rw [lines, ← Array.foldl_toList, toList_foldl_append]
    simp only [String.toList_empty, List.nil_append, List.flatMap_map, listingLine_toList]

/-- **An image made of such fragments is read back from its listing.** -/
theorem ofListing_listing {image : Image} (made : Listable image) :
    Image.ofListing image.listing = .ok image := by
  obtain ⟨fs, each, rfl⟩ := made
  have shown : ∀ g ∈ fs.map (Fragment.shownIn (assembled fs).bytes), g.Listable := by
    intro g again
    obtain ⟨f, held, rfl⟩ := List.mem_map.mp again
    refine listable_shownIn (each f held) ?_
    rw [assembled_eq]
    exact endsBy_storeAll held
  have oneLine : ∀ l ∈ (fs.map (Fragment.shownIn (assembled fs).bytes)).map Fragment.listed, '\n' ∉ l := by
    intro l listed
    obtain ⟨g, again, rfl⟩ := List.mem_map.mp listed
    exact listed_lineFeed_free (shown g again)
  rw [Image.ofListing, listing_toList, lines_flatMap oneLine, go_listed 1 .empty shown]
  exact congrArg Except.ok (assembled_shown fs)

/-! ## Images that are read -/

theorem source_subset {line address digits source : List Char} (parted : Parted line address digits source) :
    source ⊆ line := by
  cases parted with
  | barred noColon noBar => exact List.subset_append_of_subset_right _ (List.subset_cons_self _ _)
  | bare noColon noBar => exact List.nil_subset _

/-- What a line shows can be listed again. -/
theorem listable_of_shows {plus : Bool} {line : List Char} {f : Fragment} (oneLine : '\n' ∉ line)
    (shows : Shows plus line f) : f.Listable := by
  obtain ⟨address, digits, source, parted, -, -, within, text⟩ := shows
  obtain ⟨inRange, fits⟩ := Fragment.stop_le_iff.mp within
  exact listable_of_trimmed inRange fits text fun held => oneLine (source_subset parted held)

theorem listable_of_shown {plus : Bool} {lines : List (List Char)} {fs : List Fragment}
    (shown : Shown plus lines fs) (oneLine : ∀ line ∈ lines, '\n' ∉ line) : ∀ f ∈ fs, f.Listable := by
  induction shown with
  | nil => exact fun f held => absurd held List.not_mem_nil
  | skip passed shown ih => exact ih (List.forall_mem_cons.mp oneLine).2
  | line shows shown ih =>
    obtain ⟨first, oneLine⟩ := List.forall_mem_cons.mp oneLine
    exact List.forall_mem_cons.mpr ⟨listable_of_shows first shows, ih oneLine⟩

theorem listable_of_ofListing {text : String} {image : Image}
    (readable : Image.ofListing text = .ok image) : Listable image := by
  obtain ⟨fs, shown, made⟩ := go_eq_ok_iff.mp readable
  exact ⟨fs, listable_of_shown shown fun line isLine => lineFeed_not_mem isLine, made⟩

theorem symbols_of_listable {image : Image} (made : Listable image) : image.symbols = {} := by
  obtain ⟨fs, -, rfl⟩ := made
  rw [assembled_eq]

/-! ## Images that are assembled -/

theorem emitted_listable {symbols : SymbolTable} {counter : Nat} {rows : List (List Char)}
    {fs : List Fragment} (emitted : Emitted symbols counter rows fs) (oneLine : ∀ row ∈ rows, '\n' ∉ row) :
    ∀ f ∈ fs, f.Listable := by
  induction emitted with
  | nil counter => exact fun f held => absurd held List.not_mem_nil
  | @cons row statement f rows fs agrees emitted ih =>
    obtain ⟨first, oneLine⟩ := List.forall_mem_cons.mp oneLine
    have listable : f.Listable := listable_of_trimmed agrees.inRange agrees.fits agrees.text first
    exact List.forall_mem_cons.mpr ⟨listable, ih oneLine⟩

theorem listable_of_assemble {source : String} {image : Image} (ran : assemble source = .ok image) :
    Listable { image with symbols := {} } := by
  obtain ⟨fs, emitted, made, -⟩ := assemble_emitted ran
  refine ⟨fs, emitted_listable emitted fun row isRow => SourceRows.lineFeed_not_mem_row isRow, ?_⟩
  rw [← made, assembled_eq]

/-- **Listings lose nothing.** An image that was read comes back from its listing
as it was, and has no labels; an image that was assembled comes back without its
labels. It does not matter whether lines cover each other, leave gaps or have no
bytes, nor what characters are in their text. -/
theorem listing_lossless :
    (∀ (text : String) (image : Image), Image.ofListing text = .ok image →
      image.symbols = {} ∧ Image.ofListing image.listing = .ok image) ∧
    ∀ (source : String) (image : Image), assemble source = .ok image →
      Image.ofListing image.listing = .ok { image with symbols := {} } := by
  constructor
  · intro text image readable
    have made := listable_of_ofListing readable
    exact ⟨symbols_of_listable made, ofListing_listing made⟩
  · intro source image ran
    -- The labels are no part of the listing.
    have same : ({ image with symbols := {} } : Image).listing = image.listing := rfl
    rw [← same]
    exact ofListing_listing (listable_of_assemble ran)

/-- The image of a source whose last line covers the byte of its second. -/
def covered : Image where
  bytes := #[5, 0, 0, 0, 0, 0, 0, 0]
  lines := #[⟨0, 0, ".pos 2"⟩, ⟨2, 1, ".byte 0x12 # a | b: ü"⟩, ⟨3, 0, ".pos 0"⟩, ⟨0, 8, ".quad 5"⟩]

/-- The image of a listing that leaves out the first two bytes. -/
def gapped : Image where
  bytes := #[0, 0, 0x12]
  lines := #[⟨2, 1, "a | b: ü"⟩]

/-- A source whose lines cover each other, and a listing that leaves a gap. -/
theorem listing_lossless_covered :
    assemble ".pos 2\n.byte 0x12 # a | b: ü\n.pos 0\n.quad 5" = .ok covered ∧
      Image.ofListing covered.listing = .ok covered ∧
      Image.ofListing "0x002: 12 | a | b: ü" = .ok gapped ∧ Image.ofListing gapped.listing = .ok gapped := by
  have made : assemble ".pos 2\n.byte 0x12 # a | b: ü\n.pos 0\n.quad 5" = .ok covered := by cbv
  have readable : Image.ofListing "0x002: 12 | a | b: ü" = .ok gapped := by cbv
  exact ⟨made, listing_lossless.2 _ _ made, readable, (listing_lossless.1 _ _ readable).2⟩

end Y86Toolkit.ListingRoundTrip
