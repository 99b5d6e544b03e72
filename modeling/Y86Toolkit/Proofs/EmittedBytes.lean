import Y86Toolkit.Proofs.ListingRoundTrip
import Y86Toolkit.Proofs.LoadedSource

/-!
An image is the bytes written to it over zeros. Of all the writes that are taken, the
last one decides on each byte, and the lines of an image account for every byte that
was written.
-/

namespace Y86Toolkit

/-- The image after its bytes are written to it, if it takes them. -/
def Image.attempt (image : Image) (f : Fragment) : Image :=
  match image.write f.address f.data with
  | .ok written => written
  | .error _ => image

/-- The image that writes leave, whether each of them is taken or refused. -/
def Image.written (fs : List Fragment) : Image := fs.foldl Image.attempt .empty

namespace EmittedBytes
open Assembly Fragments Cells Emission ListingRoundTrip

/-- The byte that writes leave at an address: that of the last one that is taken and
covers it, and zero if there is none. -/
inductive Leaves (fs : List Fragment) (i : Nat) : Byte → Prop where
  | last {front behind : List Fragment} {f : Fragment} (parts : fs = front ++ f :: behind)
      (taken : f.Fits) (covers : f.Covers i) (later : ∀ g ∈ behind, g.Fits → ¬ g.Covers i) :
      Leaves fs i (f.byteAt i)
  | zero (free : ∀ f ∈ fs, f.Fits → ¬ f.Covers i) : Leaves fs i 0

/-- Where the bytes of writes that are taken end, and zero. -/
def ends (fs : List Fragment) : Set Nat :=
  insert 0 {stop | ∃ f ∈ fs, f.data ≠ [] ∧ f.Fits ∧ f.stop = stop}

variable {image : Image} {fs : List Fragment} {f : Fragment} {i : Nat} {b : Byte}

/-! ## Writing -/

theorem attempt_eq (image : Image) (f : Fragment) : image.attempt f =
    if f.Fits then { image with bytes := f.store image.bytes } else image := by
  rw [Image.attempt, write_eq]
  by_cases fits : f.Fits
  · rw [if_pos fits, if_pos fits]
  · rw [if_neg fits, if_neg fits]

theorem written_snoc (fs : List Fragment) (f : Fragment) :
    Image.written (fs ++ [f]) = (Image.written fs).attempt f := by
  rw [Image.written, List.foldl_append, ← Image.written]
  rfl

/-- One more write changes the bytes that it covers, if it is taken, and no others. -/
theorem cell_attempt (image : Image) (f : Fragment) (i : Nat) :
    cell (image.attempt f).bytes i = if f.Fits ∧ f.Covers i then f.byteAt i else cell image.bytes i := by
  rw [attempt_eq]
  by_cases fits : f.Fits
  · rw [if_pos fits, cell_store]
    simp only [fits, true_and]
  · rw [if_neg fits, if_neg fun decides => fits decides.1]

theorem Leaves.snoc (leaves : Leaves fs i b) (other : ¬ (f.Fits ∧ f.Covers i)) : Leaves (fs ++ [f]) i b := by
  have last : ∀ g ∈ [f], g.Fits → ¬ g.Covers i :=
    List.forall_mem_singleton.mpr fun taken covers => other ⟨taken, covers⟩
  cases leaves with
  | @last front behind g parts taken covers later =>
    have longer : fs ++ [f] = front ++ g :: (behind ++ [f]) := by
      rw [parts, List.append_assoc, List.cons_append]
    exact .last longer taken covers (List.forall_mem_append.mpr ⟨later, last⟩)
  | zero free => exact .zero (List.forall_mem_append.mpr ⟨free, last⟩)

/-- **The last write that is taken decides.** -/
theorem leaves_written (fs : List Fragment) (i : Nat) : Leaves fs i (cell (Image.written fs).bytes i) := by
  induction fs using List.reverseRecOn with
  | nil => exact .zero fun f held => absurd held List.not_mem_nil
  | append_singleton fs f ih =>
    rw [written_snoc, cell_attempt]
    by_cases decides : f.Fits ∧ f.Covers i
    · rw [if_pos decides]
      exact .last rfl decides.1 decides.2 fun g held => absurd held List.not_mem_nil
    · rw [if_neg decides]
      exact ih.snoc decides

theorem ends_snoc (fs : List Fragment) (f : Fragment) :
    ends (fs ++ [f]) = if f.data ≠ [] ∧ f.Fits then insert f.stop (ends fs) else ends fs := by
  ext stop
  have last : stop ∈ ends (fs ++ [f]) ↔ stop ∈ ends fs ∨ (f.data ≠ [] ∧ f.Fits) ∧ f.stop = stop := by
    simp only [ends, Set.mem_insert_iff, Set.mem_ofPred_eq, List.mem_append, List.mem_singleton, or_and_right,
      exists_or, exists_eq_left, or_assoc, and_assoc]
  rw [last]
  by_cases taken : f.data ≠ [] ∧ f.Fits
  · rw [if_pos taken, Set.mem_insert_iff, and_iff_right taken, or_comm, eq_comm]
  · rw [if_neg taken, or_iff_left fun ended => taken ended.1]

/-- **The image is as large as its writes reach.** -/
theorem isGreatest_size (fs : List Fragment) : IsGreatest (ends fs) (Image.written fs).size := by
  induction fs using List.reverseRecOn with
  | nil =>
    refine ⟨.inl rfl, fun stop ended => ?_⟩
    have zero : stop = 0 := by simpa [ends] using ended
    exact Nat.le_of_eq zero
  | append_singleton fs f ih =>
    have size : ((Image.written fs).attempt f).size =
        if f.data ≠ [] ∧ f.Fits then max f.stop (Image.written fs).size else (Image.written fs).size := by
      rw [attempt_eq]
      by_cases fits : f.Fits
      · by_cases none : f.data = [] <;> simp [Image.size, size_store, fits, none, Nat.max_comm]
      · simp [fits]
    rw [written_snoc, size, ends_snoc]
    split
    · exact ih.insert f.stop
    · exact ih

/-! ## Bytes by address -/

theorem getElem?_insertAll (map : ByteMap) (address : Nat) (data : List Byte) (i : Nat) :
    (Image.byteMap.insertAll map address data)[i]? =
      if address ≤ i ∧ i < address + data.length then data[i - address]? else map[i]? := by
  induction data generalizing map address with
  | nil =>
    have outside : ¬ (address ≤ i ∧ i < address + 0) := by omega
    exact (if_neg outside).symm
  | cons b rest ih =>
    rw [Image.byteMap.insertAll, ih, Std.TreeMap.getElem?_insert, List.length_cons]
    by_cases here : address = i
    · subst here
      have before : ¬ (address + 1 ≤ address ∧ address < address + 1 + rest.length) := by omega
      rw [if_neg before, if_pos (by simp), if_pos (by omega), Nat.sub_self, List.getElem?_cons_zero]
    · have same : ¬ compare address i = .eq := by simpa using here
      by_cases later : address + 1 ≤ i ∧ i < address + 1 + rest.length
      · have shift : i - address = (i - (address + 1)) + 1 := by omega
        rw [if_pos later, if_pos (by omega), shift, List.getElem?_cons_succ]
      · rw [if_neg later, if_neg same, if_neg (by omega)]

theorem inside_of_covers {size : Nat} (reach : f.EndsBy size) (covered : f.Covers i) : i < size := by
  rcases reach with none | within
  · have upper : i < f.address + f.data.length := covered.2
    rw [none, List.length_nil, Nat.add_zero] at upper
    exact absurd covered.1 (Nat.not_le_of_lt upper)
  · exact Nat.lt_of_lt_of_le covered.2 within

/-- A line enters the bytes that the image has in its place. -/
theorem getElem?_insertLine (reach : f.EndsBy image.bytes.size) (map : ByteMap) (i : Nat) :
    (Image.byteMap.insertAll map f.address (image.lineBytes f.line))[i]? =
      if f.Covers i then some (cell image.bytes i) else map[i]? := by
  have bytes : image.lineBytes f.line = (f.shownIn image.bytes).data := rfl
  rw [getElem?_insertAll, bytes, length_shownIn reach]
  by_cases covered : f.Covers i
  · have inside := inside_of_covers reach covered
    obtain ⟨lower, upper⟩ := covered
    have place : f.address + (i - f.address) = i := Nat.add_sub_cancel' lower
    rw [if_pos ⟨lower, upper⟩, if_pos ⟨lower, upper⟩, Fragment.shownIn, getElem?_slice, place, if_pos upper,
      cell, Array.getElem?_eq_getElem inside, Option.getD_some]
  · have outside : ¬ (f.address ≤ i ∧ i < f.address + f.data.length) := covered
    rw [if_neg outside, if_neg covered]

/-- All lines enter the bytes that the image has in their places. -/
theorem getElem?_foldl (reach : ∀ f ∈ fs, f.EndsBy image.bytes.size) (map : ByteMap) (i : Nat) :
    ((fs.map Fragment.line).foldl
        (fun map line => Image.byteMap.insertAll map line.address (image.lineBytes line)) map)[i]? =
      if ∃ f ∈ fs, f.Covers i then some (cell image.bytes i) else map[i]? := by
  induction fs generalizing map with
  | nil => simp
  | cons f rest ih =>
    obtain ⟨first, reach⟩ := List.forall_mem_cons.mp reach
    rw [List.map_cons, List.foldl_cons, ih reach]
    show (if _ then _ else (Image.byteMap.insertAll map f.address (image.lineBytes f.line))[i]?) = _
    rw [getElem?_insertLine first]
    simp only [List.exists_mem_cons_iff]
    by_cases later : ∃ g ∈ rest, g.Covers i
    · rw [if_pos later, if_pos (.inr later)]
    · simp only [later, if_false, or_false]

/-! ## What lines account for -/

variable {symbols : SymbolTable}

theorem lines_cover_iff (made : { assembled fs with symbols } = image) :
    (∃ line ∈ image.lines, line.Covers i) ↔ ∃ f ∈ fs, f.Covers i := by
  have lines : image.lines = (fs.map Fragment.line).toArray := by rw [← made, assembled_eq]
  simp only [lines, List.mem_toArray, List.mem_map]
  constructor
  · rintro ⟨line, ⟨f, held, rfl⟩, covered⟩
    exact ⟨f, held, covered⟩
  · rintro ⟨f, held, covered⟩
    exact ⟨f.line, ⟨f, held, rfl⟩, covered⟩

theorem getElem?_byteMap (made : { assembled fs with symbols } = image) (i : Nat) :
    image.byteMap[i]? = if ∃ f ∈ fs, f.Covers i then some (cell image.bytes i) else none := by
  subst made
  rw [assembled_eq, Image.byteMap, List.foldl_toArray, getElem?_foldl fun f held => endsBy_storeAll held,
    Std.TreeMap.getElem?_emptyc]

/-- **The keys are the addresses of lines.** -/
theorem mem_byteMap_iff (made : { assembled fs with symbols } = image) (i : Nat) :
    i ∈ image.byteMap ↔ ∃ line ∈ image.lines, line.Covers i := by
  rw [Std.TreeMap.mem_iff_isSome_getElem?, getElem?_byteMap made, lines_cover_iff made]
  split <;> simp [*]

/-- **A key stands for the byte of the image.** -/
theorem byteMap_eq_bytes (made : { assembled fs with symbols } = image) (key : i ∈ image.byteMap) :
    image.byteMap[i]? = image.bytes[i]? := by
  obtain ⟨f, held, covered⟩ := (lines_cover_iff made).mp ((mem_byteMap_iff made i).mp key)
  have reach : f.EndsBy image.bytes.size := by
    rw [← made, assembled_eq]
    exact endsBy_storeAll held
  rw [getElem?_byteMap made, if_pos ⟨f, held, covered⟩, cell,
    Array.getElem?_eq_getElem (inside_of_covers reach covered), Option.getD_some]

/-- **What is no key was never written.** -/
theorem zero_of_no_key (made : { assembled fs with symbols } = image) (inside : i < image.size)
    (free : i ∉ image.byteMap) : image.bytes[i]? = some 0 := by
  rw [mem_byteMap_iff made, lines_cover_iff made] at free
  have uncovered : ∀ f ∈ fs, ¬ f.Covers i := fun f held covered => free ⟨f, held, covered⟩
  have bytes : image.bytes = storeAll #[] fs := by rw [← made, assembled_eq]
  have zero : cell image.bytes i = 0 := by
    rw [bytes, cell_storeAll_uncovered uncovered]
    rfl
  rw [cell, Array.getElem?_eq_getElem inside, Option.getD_some] at zero
  rw [Array.getElem?_eq_getElem inside, zero]

/-- An image that is assembled or read is made of fragments. -/
theorem made_of_result
    (result : (∃ source, assemble source = .ok image) ∨ ∃ text, Image.ofListing text = .ok image) :
    ∃ fs, { assembled fs with symbols := image.symbols } = image := by
  rcases result with ⟨source, ran⟩ | ⟨text, readable⟩
  · obtain ⟨fs, -, made, -⟩ := assemble_emitted ran
    exact ⟨fs, made⟩
  · obtain ⟨fs, -, rfl⟩ := listable_of_ofListing readable
    exact ⟨fs, rfl⟩

/-- **An image is the bytes written to it over zeros.** It refuses bytes exactly when
there are some and they end past the limit, and then stays as it is. After any writes
the last one that was taken decides on a byte, and zero stands where there was none;
the image ends where they reach. In an image that is assembled or read, the keys by
address are the places that lines cover, each with the byte of the image, and every
other byte is zero. -/
theorem image_written :
    (∀ (image : Image) (f : Fragment),
      (∀ cause, image.write f.address f.data = .error cause ↔
        (f.data ≠ [] ∧ Image.maxSize < f.address + f.data.length) ∧
          cause = .tooLarge f.address f.data.length) ∧
      (f.data ≠ [] ∧ Image.maxSize < f.address + f.data.length → image.attempt f = image)) ∧
    (∀ fs : List Fragment, (∀ i, Leaves fs i (cell (Image.written fs).bytes i)) ∧
      IsGreatest (ends fs) (Image.written fs).size) ∧
    ∀ image : Image,
      (∃ source, assemble source = .ok image) ∨ (∃ text, Image.ofListing text = .ok image) →
      ∀ i, (i ∈ image.byteMap ↔ ∃ line ∈ image.lines, line.Covers i) ∧
        (i ∈ image.byteMap → image.byteMap[i]? = image.bytes[i]?) ∧
        (i < image.size → i ∉ image.byteMap → image.bytes[i]? = some 0) := by
  refine ⟨fun image f => ?_, fun fs => ⟨leaves_written fs, isGreatest_size fs⟩, fun image result i => ?_⟩
  · have refused : ¬ f.Fits ↔ f.data ≠ [] ∧ Image.maxSize < f.address + f.data.length := by
      rw [Fragment.Fits, Fragment.EndsBy, not_or, Nat.not_le]
      rfl
    rw [← refused]
    exact ⟨fun cause => write_eq_error_iff f, fun past => by rw [attempt_eq, if_neg past]⟩
  · obtain ⟨fs, made⟩ := made_of_result result
    exact ⟨mem_byteMap_iff made i, byteMap_eq_bytes made, zero_of_no_key made⟩

/-- Writes that cover each other, that have no bytes, or that are refused. -/
def writes : List Fragment :=
  [⟨2, [1, 2, 3], ""⟩, ⟨2 ^ 64 - 1, [4], ""⟩, ⟨3, [5], ""⟩, ⟨2 ^ 20, [], ""⟩, ⟨2 ^ 20 - 1, [6, 7], ""⟩]

/-- The image of a source whose last line goes back over a number. -/
def rewritten : Image where
  bytes := #[1, 0, 0, 2, 0, 9, 0, 0, 0, 0, 0]
  lines := #[⟨0, 1, ".byte 1"⟩, ⟨1, 0, ".pos 3"⟩, ⟨3, 8, ".quad 2"⟩, ⟨11, 0, ".pos 5"⟩, ⟨5, 1, ".byte 9"⟩]

/-- Writes near the end of all addresses, and an image with a gap whose lines cover
each other. -/
theorem image_written_twice :
    (Image.written [⟨2, [1, 2, 3], ""⟩]).attempt ⟨2 ^ 64 - 1, [4], ""⟩ = Image.written [⟨2, [1, 2, 3], ""⟩] ∧
      Leaves writes 3 5 ∧ Leaves writes 4 3 ∧ Leaves writes 1 0 ∧ IsGreatest (ends writes) 5 ∧
      assemble ".byte 1\n.pos 3\n.quad 2\n.pos 5\n.byte 9" = .ok rewritten ∧
      rewritten.byteMap[5]? = some 9 ∧ 2 ∉ rewritten.byteMap ∧ rewritten.bytes[2]? = some 0 := by
  obtain ⟨refusals, sequences, results⟩ := image_written
  obtain ⟨leaves, size⟩ := sequences writes
  have made : assemble ".byte 1\n.pos 3\n.quad 2\n.pos 5\n.byte 9" = .ok rewritten := by cbv
  have ofLines := results rewritten (.inl ⟨_, made⟩)
  have key : 5 ∈ rewritten.byteMap := (ofLines 5).1.mpr (by simp [rewritten, SourceLine.Covers])
  have free : 2 ∉ rewritten.byteMap := by
    rw [(ofLines 2).1]
    simp [rewritten, SourceLine.Covers]
  exact ⟨(refusals _ _).2 ⟨by decide, by decide⟩, leaves 3, leaves 4, leaves 1, size, made,
    (ofLines 5).2.1 key, free, (ofLines 2).2.2 (by decide) free⟩

end EmittedBytes

end Y86Toolkit
