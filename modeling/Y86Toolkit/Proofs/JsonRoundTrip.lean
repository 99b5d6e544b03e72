import Y86Toolkit.Json.Reader
import Y86Toolkit.Json.Record
import Y86Toolkit.Proofs.JsonTokens

/-!
JSON values printed and read back. The tokens of a value are built into the value
again, wherever it stands, and so reading a printed value gives the value
(`read?_render`). A record that was made with certain keys is found to have a value
for each of them.
-/

namespace Y86Toolkit.Json.JsonRoundTrip
open JsonTokens

/-! ## Values -/

/-- The tokens of a value, wherever one may come, complete it. -/
def Builds (v : Value) : Prop :=
  ∀ frames rest, build .value frames (v.tokens ++ rest) = build (.behind v) frames rest

/-- The first token of a value is none that ends an array. -/
theorem build_firstItem (v : Value) (frames : List Frame) (rest : List Token) :
    build .firstItem frames (v.tokens ++ rest) = build .value frames (v.tokens ++ rest) := by
  cases v with
  | array items => cases items <;> simp [Value.tokens, build]
  | object fields => cases fields <;> simp [Value.tokens, build]
  | _ => simp [Value.tokens, build]

/-- The items behind the first join those in front of them. -/
theorem build_items {items : List Value} (builds : ∀ v ∈ items, Builds v) (done : List Value) (v : Value)
    (frames : List Frame) (rest : List Token) :
    build (.behind v) (.array done :: frames) (itemTokens items ++ .closeArray :: rest) =
      build (.behind (.array (done.reverse ++ v :: items))) frames rest := by
  induction items generalizing done v with
  | nil => simp [itemTokens, build]
  | cons w items ih =>
    obtain ⟨first, others⟩ := List.forall_mem_cons.mp builds
    have shape : itemTokens (w :: items) ++ .closeArray :: rest =
        .comma :: (w.tokens ++ (itemTokens items ++ .closeArray :: rest)) := by
      simp [itemTokens]
    rw [shape, build, first, ih others]
    simp

/-- The fields behind the first join those in front of them. -/
theorem build_fields {fields : List (Quoted × Value)} (builds : ∀ field ∈ fields, Builds field.2)
    (done : List (Quoted × Value)) (key : Quoted) (v : Value) (frames : List Frame) (rest : List Token) :
    build (.behind v) (.object done key :: frames) (fieldTokens fields ++ .closeObject :: rest) =
      build (.behind (.object (done.reverse ++ (key, v) :: fields))) frames rest := by
  induction fields generalizing done key v with
  | nil => simp [fieldTokens, build]
  | cons field fields ih =>
    obtain ⟨next, w⟩ := field
    obtain ⟨first, others⟩ := List.forall_mem_cons.mp builds
    have shape : fieldTokens ((next, w) :: fields) ++ .closeObject :: rest =
        .comma :: .scalar (.string next) :: .colon ::
          (w.tokens ++ (fieldTokens fields ++ .closeObject :: rest)) := by
      simp [fieldTokens]
    rw [shape, build, build, build, first, ih others]
    simp

theorem builds_whole {v : Value} (whole : v.Whole) : Builds v := by
  induction whole with
  | null | bool | natural | string => exact fun frames rest => rfl
  | @array items _ builds =>
    intro frames rest
    cases items with
    | nil => rfl
    | cons v items =>
      obtain ⟨first, others⟩ := List.forall_mem_cons.mp builds
      have shape : (Value.array (v :: items)).tokens ++ rest =
          .openArray :: (v.tokens ++ (itemTokens items ++ .closeArray :: rest)) := by
        simp [Value.tokens]
      rw [shape, build, build_firstItem, first, build_items others]
      rfl
  | @object fields _ builds =>
    intro frames rest
    cases fields with
    | nil => rfl
    | cons field fields =>
      obtain ⟨key, v⟩ := field
      obtain ⟨first, others⟩ := List.forall_mem_cons.mp builds
      have shape : (Value.object ((key, v) :: fields)).tokens ++ rest =
          .openObject :: .scalar (.string key) :: .colon ::
            (v.tokens ++ (fieldTokens fields ++ .closeObject :: rest)) := by
        simp [Value.tokens]
      rw [shape, build, build, build, first, build_fields others]
      rfl

/-- **Reading a printed value gives the value.** -/
theorem read?_render {v : Value} (whole : v.Whole) : Value.read? v.render = some v := by
  have built := builds_whole whole [] []
  rw [List.append_nil] at built
  rw [Value.read?, scan_render whole]
  exact built

/-! ## Records -/

/-- A key that stands once in an object is found with its value. -/
theorem field?_map {fields : List (String × Value)} (distinct : (fields.map Prod.fst).Nodup)
    {field : String × Value} (held : field ∈ fields) :
    Value.field? (fields.map fun f => (some f.1, f.2)) field.1 = some (some field.2) := by
  have one : fields.filter (fun f => f.1 == field.1) = [field] := by
    induction fields with
    | nil => cases held
    | cons head rest ih =>
      obtain ⟨apart, others⟩ := List.nodup_cons.mp distinct
      rcases List.mem_cons.mp held with rfl | later
      · have none : rest.filter (fun f => f.1 == field.1) = [] := by
          rw [List.filter_eq_nil_iff]
          intro f inRest same
          exact apart (beq_iff_eq.mp same ▸ List.mem_map_of_mem inRest)
        simp [none]
      · have other : head.1 ≠ field.1 := by
          intro same
          exact apart (same ▸ List.mem_map_of_mem later)
        simp [other, ih others later]
  have shown : (fields.map fun f => ((some f.1 : Quoted), f.2)).filter (fun f => f.1 == some field.1) =
      [(some field.1, field.2)] := by
    rw [List.filter_map]
    simpa [Function.comp_def] using congrArg (List.map fun f => ((some f.1 : Quoted), f.2)) one
  rw [Value.field?, shown]

theorem mapM_of_forall {α β : Type} {read : α → Option β} {value : α → β} {items : List α}
    (each : ∀ a ∈ items, read a = some (value a)) : items.mapM read = some (items.map value) := by
  induction items with
  | nil => rfl
  | cons a items ih =>
    obtain ⟨first, others⟩ := List.forall_mem_cons.mp each
    simp [first, ih others]

/-- A record has a value for each of its keys, in their order. -/
theorem record?_record {fields : List (String × Value)} (distinct : (fields.map Prod.fst).Nodup) :
    (Value.record fields).record? (fields.map Prod.fst) = some (fields.map fun f => some f.2) := by
  have texts : (fields.map fun f => ((some f.1 : Quoted), f.2)).all (fun f => f.1.isSome) = true := by
    simp
  rw [Value.record, Value.record?, if_pos texts, List.mapM_map]
  exact mapM_of_forall fun field held => field?_map distinct held

/-- Items that are each read back are read back together. -/
theorem items?_map {α : Type} {write : α → Value} {read : Value → Option α}
    (each : ∀ a, read (write a) = some a) (items : List α) :
    (Value.array (items.map write)).items? read = some items := by
  have all : items.mapM (read ∘ write) = some (items.map id) :=
    mapM_of_forall fun a _ => each a
  rw [Value.items?, List.mapM_map, all, List.map_id]

/-! ## Numbers -/

theorem word?_natural (w : Word) : (Value.natural w.toNat).word? = some w := by
  have below : w.toNat < Word.limit Word.width := w.toNat_lt
  simp [Value.word?, Value.below?, Value.natural, below]

theorem byte?_natural (b : Byte) : (Value.natural b.toNat).byte? = some b := by
  have below : b.toNat < 256 := b.toNat_lt
  simp [Value.byte?, Value.below?, Value.natural, below]

end Y86Toolkit.Json.JsonRoundTrip
