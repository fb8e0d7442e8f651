import ApfsAccess.Extents.Records
import ApfsAccess.Library.Layout

/-!
# What the record encoders share

Every file-system record starts with a key header that `MakeFsKey` builds, and the four
kinds that carry a name pass it through `ValidateName`, which knows nothing of UTF-8.
The words an encoder appends form a layout, and the three readers find each of them
again, whatever follows.
-/

namespace ApfsAccess
namespace Records

open Extents Format ByteBuffer

/-- `kMaximumFsKeyBytes`. -/
def maximumFsKeyBytes : ℕ := 832

/-- `kMaximumFsValueBytes`. -/
def maximumFsValueBytes : ℕ := 3808

/-- `kMaximumEmbeddedXattrBytes`. -/
def maximumEmbeddedXattrBytes : ℕ := 3804

/-- `MakeFsKey`. -/
def makeFsKey (objectId recordType : ℕ) : Except String Bytes :=
  if objectId = 0 ∨ fsObjectIdMask < objectId ∨ recordType = 0 ∨ 13 < recordType then
    .error "AppleRecordObjectIdInvalid"
  else
    .ok (layout [(8, recordType * 2 ^ 60 + objectId)])

/-- `ValidateName`. -/
def validateName (name : Bytes) (maximumBytes : ℕ) : Except String Unit :=
  if name = [] ∨ maximumBytes < name.length ∨ 0 ∈ name then .error "AppleRecordNameInvalid"
  else .ok ()

theorem makeFsKey_eq_ok {objectId recordType : ℕ} {key : Bytes}
    (h : makeFsKey objectId recordType = .ok key) :
    key = layout [(8, recordType * 2 ^ 60 + objectId)] ∧ 0 < objectId ∧ objectId < 2 ^ 60 := by
  unfold makeFsKey at h
  split at h
  · cases h
  · rename_i hguard
    simp only [not_or, not_lt, fsObjectIdMask] at hguard
    exact ⟨(Except.ok.inj h).symm, by omega, by omega⟩

theorem validateName_eq_ok {name : Bytes} {maximumBytes : ℕ}
    (h : validateName name maximumBytes = .ok ()) :
    name ≠ [] ∧ name.length ≤ maximumBytes ∧ 0 ∉ name := by
  unfold validateName at h
  split at h
  · cases h
  · rename_i hguard
    simp only [not_or, not_lt] at hguard
    exact hguard

/-- A guarded computation that succeeds got past its guard. -/
theorem of_guard {ε α : Type} {guard : Prop} [Decidable guard] {reason : ε}
    {next : Except ε α} {result : α} (h : (if guard then .error reason else next) = .ok result) :
    ¬guard ∧ next = .ok result := by
  split at h
  · cases h
  · exact ⟨‹_›, h⟩

/-! ## Reading a layout -/

/-- **A word that fits is read where the widths before it end.** -/
theorem readLE_layout {words : List (ℕ × ℕ)} (i : ℕ) {width value offset : ℕ}
    (hword : words[i]? = some (width, value)) (hoffset : widthOf (words.take i) = offset)
    (hfits : value < 256 ^ width) (back : Bytes) :
    readLE width (layout words ++ back) offset = some value := by
  subst hoffset
  have hbound := widthOf_take_add_le hword
  refine readLE_of_slice ?_ (slice_layout hword back) hfits
  rw [List.length_append, length_layout]
  exact le_trans hbound (Nat.le_add_right _ _)

/-- What stands before a buffer only moves the offset. -/
theorem readLE_append_left (width : ℕ) (front buffer : Bytes) (offset : ℕ) :
    readLE width (front ++ buffer) (front.length + offset) = readLE width buffer offset := by
  have hslice : slice (front ++ buffer) (front.length + offset) width =
      slice buffer offset width := by
    unfold slice
    rw [List.drop_length_add_append]
  have hbound : front.length + offset + width ≤ (front ++ buffer).length ↔
      offset + width ≤ buffer.length := by
    rw [List.length_append]
    omega
  unfold readLE
  rw [hslice]
  exact if_congr hbound rfl rfl

/-- The layout is the whole buffer. -/
theorem readLE_layout_nil {words : List (ℕ × ℕ)} (i : ℕ) {width value offset : ℕ}
    (hword : words[i]? = some (width, value)) (hoffset : widthOf (words.take i) = offset)
    (hfits : value < 256 ^ width) : readLE width (layout words) offset = some value := by
  have := readLE_layout i hword hoffset hfits []
  rwa [List.append_nil] at this

theorem header_lt {objectId recordType : ℕ} (htype : recordType < 2 ^ 4)
    (hobject : objectId < 2 ^ 60) : recordType * 2 ^ 60 + objectId < 256 ^ 8 :=
  pack_lt htype hobject

theorem recordType_header {objectId : ℕ} (recordType : ℕ) (hobject : objectId < 2 ^ 60) :
    Extents.recordType (recordType * 2 ^ 60 + objectId) = recordType :=
  pack_div hobject

theorem recordObjectId_header {objectId : ℕ} (recordType : ℕ) (hobject : objectId < 2 ^ 60) :
    recordObjectId (recordType * 2 ^ 60 + objectId) = objectId :=
  pack_mod hobject

end Records
end ApfsAccess
