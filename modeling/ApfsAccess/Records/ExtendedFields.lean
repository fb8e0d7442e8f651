import ApfsAccess.Extents.OwnerRecords
import ApfsAccess.Library.Sorting
import ApfsAccess.Records.Encoding

/-!
# The table of extended fields

`EncodeExtendedFields` sorts the fields by type, refuses a type that is zero or occurs
twice, and writes a header, the descriptors and the padded data.  `DecodeExtendedFields`
walks the descriptors and the data with two cursors.  After `k` fields the buffer is

    front ++ descriptors left ++ between ++ data left

with the descriptor cursor at the end of `front` and the data cursor at the end of
`between`, and moving a field from `left` to the other two keeps that shape
(`decodeFieldLoop_fields`).
-/

namespace ApfsAccess
namespace Records

open Extents Format ByteBuffer Sorting

/-- `AlignUp`. -/
def alignUp (value alignment : ℕ) : ℕ :=
  if value % alignment = 0 then value else value + (alignment - value % alignment)

/-- The fields in the order `std::sort` puts them. -/
def orderedFields (fields : List AppleExtendedField) : List AppleExtendedField :=
  sortBy fields fun left right => decide (left.type ≤ right.type)

/-- The loop of `EncodeExtendedFields` that checks the ordered fields and adds up their
padded sizes. -/
def fieldSizeLoop : ℕ → ℕ → List AppleExtendedField → Except String ℕ
  | valueBytes, _, [] => .ok valueBytes
  | valueBytes, previousType, field :: rest =>
    if field.type = 0 ∨ field.type = previousType ∨ 2 ^ 16 - 1 < field.data.length then
      .error "AppleExtendedFieldInvalid"
    else
      let padded := alignUp field.data.length 8
      -- the subtraction wraps when one field pads to 65536 bytes
      if padded < field.data.length ∨ (2 ^ 16 - 1 + 2 ^ 64 - padded) % 2 ^ 64 < valueBytes then
        .error "AppleExtendedFieldSizeInvalid"
      else fieldSizeLoop (valueBytes + padded) field.type rest

/-- The descriptor of a field. -/
def fieldDescriptor (field : AppleExtendedField) : Bytes :=
  UInt8.ofNat field.type :: UInt8.ofNat field.flags :: leBytes 2 field.data.length

/-- The data of a field, padded to eight bytes. -/
def fieldData (field : AppleExtendedField) : Bytes :=
  field.data ++ List.replicate (alignUp field.data.length 8 - field.data.length) 0

/-- `EncodeExtendedFields`. -/
def encodeExtendedFields (fields : List AppleExtendedField) : Except String Bytes :=
  if fields = [] then .ok []
  else if 2 ^ 16 - 1 < fields.length then .error "AppleExtendedFieldCountInvalid"
  else
    let ordered := orderedFields fields
    match fieldSizeLoop 0 0 ordered with
    | .error reason => .error reason
    | .ok valueBytes =>
      let usedData := ordered.length * 4 + valueBytes
      if 2 ^ 16 - 1 < usedData then .error "AppleExtendedFieldSizeInvalid"
      else
        .ok (layout [(2, ordered.length), (2, usedData)] ++
          (ordered.flatMap fieldDescriptor ++ ordered.flatMap fieldData))

/-- The type and the flags of a field are bytes. -/
def FieldsFit (fields : List AppleExtendedField) : Prop :=
  ∀ field ∈ fields, field.type < 256 ∧ field.flags < 256

/-! ## What the encoder accepts -/

theorem alignUp_eight (size : ℕ) : alignUp size 8 = alignEight size := by
  unfold alignUp alignEight
  split <;> omega

theorem le_alignEight (size : ℕ) : size ≤ alignEight size := by
  unfold alignEight
  omega

theorem mem_orderedFields {fields : List AppleExtendedField} {field : AppleExtendedField} :
    field ∈ orderedFields fields ↔ field ∈ fields :=
  (sortBy_perm fields _).mem_iff

theorem pairwise_orderedFields (fields : List AppleExtendedField) :
    (orderedFields fields).Pairwise fun left right => left.type ≤ right.type := by
  have hsorted : (orderedFields fields).Pairwise fun left right =>
      decide (left.type ≤ right.type) = true := by
    refine pairwise_sortBy (fun a b c hab hbc => ?_) (fun a b => ?_) fields
    · simp only [decide_eq_true_eq] at *
      omega
    · simp only [Bool.or_eq_true, decide_eq_true_eq]
      omega
  exact hsorted.imp fun hle => of_decide_eq_true hle

/-- What the size loop checks and computes, for fields in order. -/
theorem fieldSizeLoop_eq_ok {valueBytes previousType total : ℕ}
    {fields : List AppleExtendedField}
    (hordered : fields.Pairwise fun left right => left.type ≤ right.type)
    (hprevious : ∀ field ∈ fields, previousType ≤ field.type)
    (h : fieldSizeLoop valueBytes previousType fields = .ok total) :
    (fields.Pairwise fun left right => left.type < right.type) ∧
      (∀ field ∈ fields, previousType < field.type ∧ field.data.length ≤ 2 ^ 16 - 1) ∧
      total = valueBytes + (fields.flatMap fieldData).length := by
  induction fields generalizing valueBytes previousType with
  | nil =>
    rw [fieldSizeLoop] at h
    refine ⟨List.Pairwise.nil, by simp, ?_⟩
    rw [List.flatMap_nil, List.length_nil, Nat.add_zero]
    exact (Except.ok.inj h).symm
  | cons field fields ih =>
    obtain ⟨hfirst, hrest⟩ := List.pairwise_cons.mp hordered
    have hle := hprevious field List.mem_cons_self
    rw [fieldSizeLoop] at h
    split at h
    · cases h
    rename_i hinvalid
    simp only [not_or, not_lt] at hinvalid
    obtain ⟨-, hdiffers, hsize⟩ := hinvalid
    simp only at h
    split at h
    · cases h
    have hlt : previousType < field.type := by omega
    obtain ⟨hincreasing, hfit, htotal⟩ := ih hrest hfirst h
    refine ⟨List.pairwise_cons.mpr ⟨fun other hmem => (hfit other hmem).1, hincreasing⟩,
      List.forall_mem_cons.mpr ⟨⟨hlt, hsize⟩, fun other hmem =>
        ⟨lt_trans hlt (hfit other hmem).1, (hfit other hmem).2⟩⟩, ?_⟩
    have hpadded : (fieldData field).length = alignUp field.data.length 8 := by
      unfold fieldData
      rw [List.length_append, List.length_replicate, alignUp_eight]
      have := le_alignEight field.data.length
      omega
    rw [htotal, List.flatMap_cons, List.length_append, hpadded, Nat.add_assoc]

/-- What an encoded table is, and what its fields satisfy. -/
structure Encoded (fields : List AppleExtendedField) (blob : Bytes) : Prop where
  used : (orderedFields fields).length * 4 +
    ((orderedFields fields).flatMap fieldData).length < 256 ^ 2
  increasing : (orderedFields fields).Pairwise fun left right => left.type < right.type
  sizes : ∀ field ∈ orderedFields fields, 0 < field.type ∧ field.data.length < 256 ^ 2
  blob_eq : blob = layout [(2, (orderedFields fields).length),
      (2, (orderedFields fields).length * 4 +
        ((orderedFields fields).flatMap fieldData).length)] ++
    ((orderedFields fields).flatMap fieldDescriptor ++ (orderedFields fields).flatMap fieldData)

/-- An accepted table is empty or encoded. -/
theorem encodeExtendedFields_eq_ok {fields : List AppleExtendedField} {blob : Bytes}
    (h : encodeExtendedFields fields = .ok blob) :
    (fields = [] ∧ blob = []) ∨ (fields ≠ [] ∧ Encoded fields blob) := by
  unfold encodeExtendedFields at h
  split at h
  · rename_i hnil
    exact .inl ⟨hnil, (Except.ok.inj h).symm⟩
  rename_i hne
  split at h
  · cases h
  simp only at h
  split at h
  · cases h
  rename_i valueBytes hloop
  split at h
  · cases h
  rename_i hused
  obtain ⟨hincreasing, hsizes, htotal⟩ :=
    fieldSizeLoop_eq_ok (pairwise_orderedFields fields) (fun _ _ => Nat.zero_le _) hloop
  rw [Nat.zero_add] at htotal
  subst htotal
  refine .inr ⟨hne, ⟨by omega, hincreasing, fun field hmem => ?_, (Except.ok.inj h).symm⟩⟩
  have := hsizes field hmem
  omega

/-- There are at most as many fields as types. -/
theorem length_le_of_increasing {fields : List AppleExtendedField}
    (hincreasing : fields.Pairwise fun left right => left.type < right.type)
    (hfits : FieldsFit fields) : fields.length ≤ 256 := by
  have hnodup : (fields.map AppleExtendedField.type).Nodup :=
    List.pairwise_map.mpr (hincreasing.imp fun hlt => ne_of_lt hlt)
  have hsubset : fields.map AppleExtendedField.type ⊆ List.range 256 := by
    intro type hmem
    obtain ⟨field, hfield, rfl⟩ := List.mem_map.mp hmem
    exact List.mem_range.mpr (hfits field hfield).1
  have hlength := (List.subperm_of_subset hnodup hsubset).length_le
  rwa [List.length_map, List.length_range] at hlength

/-! ## Reading the table back -/

theorem length_fieldDescriptor (field : AppleExtendedField) :
    (fieldDescriptor field).length = 4 := by
  unfold fieldDescriptor
  rw [List.length_cons, List.length_cons, length_leBytes]

theorem length_fieldDescriptors (fields : List AppleExtendedField) :
    (fields.flatMap fieldDescriptor).length = fields.length * 4 := by
  induction fields with
  | nil => rfl
  | cons field fields ih =>
    rw [List.flatMap_cons, List.length_append, ih, length_fieldDescriptor, List.length_cons]
    omega

theorem length_fieldData (field : AppleExtendedField) :
    (fieldData field).length = alignEight field.data.length := by
  unfold fieldData
  rw [List.length_append, List.length_replicate, alignUp_eight]
  have := le_alignEight field.data.length
  omega

/-- The element right after a known beginning. -/
theorem getD_append_cons {front back : Bytes} {byte : UInt8} {offset : ℕ}
    (h : front.length = offset) : (front ++ byte :: back).getD offset 0 = byte := by
  subst h
  rw [List.getD_eq_getElem?_getD, List.getElem?_append_right le_rfl, Nat.sub_self]
  rfl

/-- **The two cursors read every field that is left.** -/
theorem decodeFieldLoop_fields {fields : List AppleExtendedField} (hfits : FieldsFit fields)
    (hsizes : ∀ field ∈ fields, 0 < field.type ∧ field.data.length < 256 ^ 2)
    (hincreasing : fields.Pairwise fun left right => left.type < right.type)
    (observational : Bool) (front between : Bytes) (types : List ℕ)
    (htypes : ∀ type ∈ types, ∀ field ∈ fields, type < field.type) {value : Bytes}
    (hvalue : value = front ++ (fields.flatMap fieldDescriptor ++
      (between ++ fields.flatMap fieldData))) :
    decodeFieldLoop value value.length observational fields.length front.length
      (front.length + fields.length * 4 + between.length) types = .ok fields := by
  have hdescriptors := length_fieldDescriptors fields
  induction fields generalizing front between types with
  | nil =>
    rw [List.length_nil, decodeFieldLoop, if_pos]
    rw [hvalue]
    simp
  | cons field fields ih =>
    obtain ⟨hfield, hfieldsFit⟩ := List.forall_mem_cons.mp hfits
    obtain ⟨hsize, hsizesRest⟩ := List.forall_mem_cons.mp hsizes
    obtain ⟨hfirst, hincreasingRest⟩ := List.pairwise_cons.mp hincreasing
    have hpad := le_alignEight field.data.length
    have hrest := length_fieldDescriptors fields
    -- the same buffer, seen from the descriptor of the first field and from its data
    have hfront : value = front ++ (UInt8.ofNat field.type :: (UInt8.ofNat field.flags ::
        (leBytes 2 field.data.length ++ (fields.flatMap fieldDescriptor ++
          (between ++ (field :: fields).flatMap fieldData))))) := by
      rw [hvalue, List.flatMap_cons, fieldDescriptor]
      simp only [List.cons_append, List.append_assoc]
    have hback : value = (front ++ ((field :: fields).flatMap fieldDescriptor ++ between)) ++
        (field.data ++ (List.replicate (alignEight field.data.length - field.data.length) 0 ++
          fields.flatMap fieldData)) := by
      have hdata : (field :: fields).flatMap fieldData = fieldData field ++
        fields.flatMap fieldData := List.flatMap_cons
      rw [hvalue, hdata, fieldData, alignUp_eight]
      simp only [List.append_assoc]
    have hcursor : (front ++ ((field :: fields).flatMap fieldDescriptor ++ between)).length =
        front.length + (fields.length + 1) * 4 + between.length := by
      rw [List.length_append, List.length_append, length_fieldDescriptors, List.length_cons]
      omega
    have htype : (value.getD front.length 0).toNat = field.type := by
      rw [hfront, getD_append_cons rfl]
      exact UInt8.toNat_ofNat_of_lt' hfield.1
    have hflags : (value.getD (front.length + 1) 0).toNat = field.flags := by
      rw [hfront, ← List.singleton_append, ← List.append_assoc,
        getD_append_cons (by rw [List.length_append, List.length_singleton])]
      exact UInt8.toNat_ofNat_of_lt' hfield.2
    have hread : readU16LE value (front.length + 2) = some field.data.length := by
      have happend := readLE_append (front ++ [UInt8.ofNat field.type, UInt8.ofNat field.flags])
        (fields.flatMap fieldDescriptor ++ (between ++ (field :: fields).flatMap fieldData))
        hsize.2
      rw [List.length_append, List.append_assoc, List.cons_append, List.cons_append,
        List.nil_append, ← hfront] at happend
      exact happend
    have hdata : slice value (front.length + (fields.length + 1) * 4 + between.length)
        field.data.length = field.data := by
      rw [hback]
      exact slice_append_middle hcursor rfl
    have hpadding : slice value (front.length + (fields.length + 1) * 4 + between.length +
        field.data.length) (alignEight field.data.length - field.data.length) =
          List.replicate (alignEight field.data.length - field.data.length) 0 := by
      rw [hback, ← List.append_assoc]
      refine slice_append_middle ?_ List.length_replicate
      rw [List.length_append, hcursor]
    have hend : alignEight field.data.length ≤
        value.length - (front.length + (fields.length + 1) * 4 + between.length) := by
      rw [hback, List.length_append, hcursor, List.length_append, List.length_append,
        List.length_replicate]
      omega
    have hnext := ih hfieldsFit hsizesRest hincreasingRest
      (front ++ fieldDescriptor field) (between ++ fieldData field) (field.type :: types)
      (List.forall_mem_cons.mpr ⟨hfirst, fun type hmem other hother =>
        htypes type hmem other (List.mem_cons_of_mem field hother)⟩)
      (by
        rw [hvalue, List.flatMap_cons, List.flatMap_cons]
        simp only [List.append_assoc]) hrest
    have hadvance : (front ++ fieldDescriptor field).length = front.length + 4 := by
      rw [List.length_append, length_fieldDescriptor]
    have hcursorNext : (front ++ fieldDescriptor field).length + fields.length * 4 +
        (between ++ fieldData field).length = front.length + (fields.length + 1) * 4 +
          between.length + alignEight field.data.length := by
      rw [hadvance, List.length_append, length_fieldData]
      omega
    rw [hcursorNext, hadvance] at hnext
    have hnew : ¬(field.type = 0 ∨ field.type ∈ types) := by
      rintro (hzero | hmem)
      · omega
      · exact lt_irrefl _ (htypes _ hmem field List.mem_cons_self)
    rw [List.length_cons, decodeFieldLoop]
    simp only [htype, hflags, hread, hdata, hpadding]
    rw [if_neg hnew, if_neg (not_lt.mpr hend), if_neg (by simp), hnext]

/-- **An encoded table decodes to the ordered fields.** -/
theorem decodeExtendedFields_encoded {fields : List AppleExtendedField} {blob : Bytes}
    (h : encodeExtendedFields fields = .ok blob) (hfits : FieldsFit fields) (front : Bytes)
    (observational : Bool) :
    decodeExtendedFields (front ++ blob) front.length observational =
      .ok (orderedFields fields) := by
  rcases encodeExtendedFields_eq_ok h with ⟨rfl, rfl⟩ | ⟨hne, hencoded⟩
  · rw [List.append_nil, decodeExtendedFields, if_pos rfl]
    rfl
  have hfitsOrdered : FieldsFit (orderedFields fields) := fun field hmem =>
    hfits field (mem_orderedFields.mp hmem)
  have hcount := length_le_of_increasing hencoded.increasing hfitsOrdered
  have hnonempty : (orderedFields fields).length ≠ 0 := fun hzero => by
    have hlength : (orderedFields fields).length = fields.length :=
      (sortBy_perm fields _).length_eq
    exact hne (List.length_eq_zero_iff.mp (hlength.symm.trans hzero))
  set ordered := orderedFields fields
  have hdescriptors := length_fieldDescriptors ordered
  set head := layout [(2, ordered.length), (2, ordered.length * 4 +
    (ordered.flatMap fieldData).length)] with hhead
  have hheadLength : head.length = 4 := length_layout _
  have hvalue : front ++ blob =
      (front ++ head) ++ (ordered.flatMap fieldDescriptor ++ ordered.flatMap fieldData) := by
    rw [hencoded.blob_eq, List.append_assoc]
  have hlength : (front ++ blob).length =
      front.length + 4 + ordered.length * 4 + (ordered.flatMap fieldData).length := by
    rw [hvalue, List.length_append, List.length_append, List.length_append, hheadLength,
      hdescriptors]
    omega
  have hcountRead : readU16LE (front ++ blob) front.length = some ordered.length := by
    have hread := readLE_append_left 2 front blob 0
    rw [hencoded.blob_eq] at hread ⊢
    exact hread.trans (readLE_layout 0 rfl rfl (by omega) _)
  have husedRead : readU16LE (front ++ blob) (front.length + 2) =
      some (ordered.length * 4 + (ordered.flatMap fieldData).length) := by
    have hread := readLE_append_left 2 front blob 2
    rw [hencoded.blob_eq] at hread ⊢
    exact hread.trans (readLE_layout 1 rfl rfl hencoded.used _)
  have hloop := decodeFieldLoop_fields hfitsOrdered hencoded.sizes hencoded.increasing
    observational (front ++ head) [] [] (fun type hmem => absurd hmem List.not_mem_nil) hvalue
  have hfrontLength : (front ++ head).length = front.length + 4 := by
    rw [List.length_append, hheadLength]
  rw [hfrontLength, List.length_nil, Nat.add_zero] at hloop
  unfold decodeExtendedFields
  rw [if_neg (by omega), if_neg (by omega), hcountRead, husedRead]
  simp only
  rw [if_neg hnonempty, if_neg (by omega), if_neg (by omega)]
  exact hloop

end Records
end ApfsAccess
