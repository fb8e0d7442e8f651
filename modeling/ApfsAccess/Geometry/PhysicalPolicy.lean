import ApfsAccess.Format.Codec

/-!
# The physical volume policy

What `ValidateVolumePhysicalPolicy` demands of a binding before anything is read from or
written to the disk behind it: the shape of the device's identity and the geometry of the
partition.  The errors are the source's texts.

* `ValidMedia` : the geometry as a proposition; `validateVolumePhysicalPolicy_media` : the
  policy implies it.
-/

namespace ApfsAccess
namespace Geometry

open Format

/-- `std::array<std::byte, 16>`. -/
abbrev Guid := Fin 16 → UInt8

/-- `RawHardwareIdentityKind`. -/
inductive RawHardwareIdentityKind where
  | unavailable
  | qualifiedSerialTuple
  | qualifiedDeviceVpd
  deriving DecidableEq, Repr

/-- `RawHardwareIdentity`. -/
structure RawHardwareIdentity where
  kind : RawHardwareIdentityKind
  busType : ℕ
  vendor : Bytes
  product : Bytes
  revision : Bytes
  serial : Bytes
  vpdCodeSet : ℕ
  vpdType : ℕ
  vpdIdentifier : Bytes
  deriving DecidableEq

/-- `RawSnapshotMediaBinding`. -/
structure RawSnapshotMediaBinding where
  diskGuid : Guid
  partitionGuid : Guid
  partitionOffsetBytes : ℕ
  partitionLengthBytes : ℕ
  baseOffsetBytes : ℕ
  limitBytes : ℕ
  diskSizeBytes : ℕ
  logicalSectorBytes : ℕ
  physicalSectorBytes : ℕ

/-- `RawSnapshotBinding`. -/
structure RawSnapshotBinding where
  version : ℕ
  hardware : RawHardwareIdentity
  media : RawSnapshotMediaBinding

/-- `Need`: go on, or throw the text. -/
def need (condition : Prop) [Decidable condition] (error : String) : Except String Unit :=
  if condition then .ok () else .error error

@[simp] theorem need_eq_ok {condition : Prop} [Decidable condition] {error : String} {u : Unit} :
    need condition error = .ok u ↔ condition := by
  unfold need
  split <;> simp_all

/-- A computation that succeeds went through its first step. -/
theorem bind_eq_ok {α β : Type} {x : Except String α} {f : α → Except String β} {b : β} :
    (x >>= f) = .ok b ↔ ∃ a, x = .ok a ∧ f a = .ok b := by
  cases x with
  | error e => exact ⟨fun h => (nomatch h), fun ⟨a, h, _⟩ => (nomatch h)⟩
  | ok a => exact ⟨fun h => ⟨a, rfl, h⟩, fun ⟨a', ha, h⟩ => by cases ha; exact h⟩

/-- A computation that starts with a check succeeds when the check and the rest do. -/
theorem need_bind_eq_ok {β : Type} {condition : Prop} [Decidable condition] {error : String}
    {f : Unit → Except String β} {b : β} :
    (need condition error >>= f) = .ok b ↔ condition ∧ f () = .ok b := by
  rw [bind_eq_ok]
  constructor
  · rintro ⟨u, hu, h⟩
    exact ⟨need_eq_ok.mp hu, h⟩
  · rintro ⟨hc, h⟩
    exact ⟨(), need_eq_ok.mpr hc, h⟩

/-! ## Texts -/

/-- A printable character. -/
def printable (ch : UInt8) : Bool := 0x20 ≤ ch && ch ≤ 0x7e

/-- `raw_snapshot_detail::CanonicalText`. -/
def canonicalText (value : Bytes) : Bool :=
  value.length ≤ 128 && value.head? != some 0x20 && value.getLast? != some 0x20 &&
    value.all printable

/-- The separators that `NonGenericText` drops: space, `-`, `_`, `.`, `/` and `:`. -/
def separators : Bytes := [0x20, 0x2d, 0x5f, 0x2e, 0x2f, 0x3a]

/-- A letter of the lower case in the upper case. -/
def fold (ch : UInt8) : UInt8 := if 0x61 ≤ ch && ch ≤ 0x7a then ch - 0x61 + 0x41 else ch

/-- The texts that `NonGenericText` refuses. -/
def genericTexts : List String :=
  ["", "NA", "NONE", "NULL", "UNKNOWN", "DEFAULT", "GENERIC", "USB", "SERIAL", "SERIALNUMBER",
    "NOTSPECIFIED", "NOTAVAILABLE", "TOBEFILLEDBYOEM", "123456789", "0123456789"]

/-- `raw_snapshot_detail::NonGenericText`. -/
def nonGenericText (value : Bytes) : Bool :=
  if value.isEmpty || 128 < value.length || !value.all printable then false
  else
    let folded := (value.filter fun ch => !separators.contains ch).map fold
    if (genericTexts.map fun text => text.toList.map fun c => UInt8.ofNat c.toNat).contains folded then
      false
    else !folded.all fun ch => some ch == folded.head?

/-- `CanonicalInstance`, over the code units of the device instance. -/
def canonicalInstance (value : List UInt16) : Bool :=
  !value.isEmpty && value.length ≤ 400 && value.head? != some 0x5c && value.getLast? != some 0x5c &&
    !value.contains 0x3a && 2 ≤ value.count 0x5c && !decide ([0x5c, 0x5c] <:+: value) &&
    value.all fun c => 33 ≤ c && c ≤ 126 && !(0x61 ≤ c && c ≤ 0x7a)

/-! ## The geometry -/

/-- The sector sizes that `ValidateRawSnapshotMediaBinding` takes. -/
def sectorSize (value : ℕ) : Prop := 512 ≤ value ∧ value ≤ 65536 ∧ value &&& (value - 1) = 0

instance (value : ℕ) : Decidable (sectorSize value) := by
  unfold sectorSize
  infer_instance

/-- `ValidateRawSnapshotMediaBinding`, as the condition that it does not refuse. -/
structure ValidMedia (media : RawSnapshotMediaBinding) : Prop where
  diskGuid : ∃ i, media.diskGuid i ≠ 0
  partitionGuid : ∃ i, media.partitionGuid i ≠ 0
  logicalSector : sectorSize media.logicalSectorBytes
  physicalSector : media.physicalSectorBytes = 0 ∨
    sectorSize media.physicalSectorBytes ∧ media.logicalSectorBytes ≤ media.physicalSectorBytes
  diskSize : media.diskSizeBytes ≠ 0
  diskSize_mod : media.diskSizeBytes % media.logicalSectorBytes = 0
  limit : media.limitBytes ≠ 0
  limit_mod_block : media.limitBytes % 4096 = 0
  base_mod : media.baseOffsetBytes % media.logicalSectorBytes = 0
  limit_mod : media.limitBytes % media.logicalSectorBytes = 0
  offset_mod : media.partitionOffsetBytes % media.logicalSectorBytes = 0
  length_mod : media.partitionLengthBytes % media.logicalSectorBytes = 0
  offset_le : media.partitionOffsetBytes ≤ media.diskSizeBytes
  length_le : media.partitionLengthBytes ≤ media.diskSizeBytes - media.partitionOffsetBytes
  offset_le_base : media.partitionOffsetBytes ≤ media.baseOffsetBytes
  limit_le : media.limitBytes ≤ media.partitionLengthBytes
  window_le : media.baseOffsetBytes - media.partitionOffsetBytes ≤
    media.partitionLengthBytes - media.limitBytes

/-- The condition, field by field in the source's order. -/
theorem validMedia_iff (media : RawSnapshotMediaBinding) : ValidMedia media ↔
    (∃ i, media.diskGuid i ≠ 0) ∧ (∃ i, media.partitionGuid i ≠ 0) ∧
    sectorSize media.logicalSectorBytes ∧
    (media.physicalSectorBytes = 0 ∨
      sectorSize media.physicalSectorBytes ∧
        media.logicalSectorBytes ≤ media.physicalSectorBytes) ∧
    media.diskSizeBytes ≠ 0 ∧ media.diskSizeBytes % media.logicalSectorBytes = 0 ∧
    media.limitBytes ≠ 0 ∧ media.limitBytes % 4096 = 0 ∧
    media.baseOffsetBytes % media.logicalSectorBytes = 0 ∧
    media.limitBytes % media.logicalSectorBytes = 0 ∧
    media.partitionOffsetBytes % media.logicalSectorBytes = 0 ∧
    media.partitionLengthBytes % media.logicalSectorBytes = 0 ∧
    media.partitionOffsetBytes ≤ media.diskSizeBytes ∧
    media.partitionLengthBytes ≤ media.diskSizeBytes - media.partitionOffsetBytes ∧
    media.partitionOffsetBytes ≤ media.baseOffsetBytes ∧
    media.limitBytes ≤ media.partitionLengthBytes ∧
    media.baseOffsetBytes - media.partitionOffsetBytes ≤
      media.partitionLengthBytes - media.limitBytes := by
  constructor
  · rintro ⟨h1, h2, h3, h4, h5, h6, h7, h8, h9, h10, h11, h12, h13, h14, h15, h16, h17⟩
    exact ⟨h1, h2, h3, h4, h5, h6, h7, h8, h9, h10, h11, h12, h13, h14, h15, h16, h17⟩
  · rintro ⟨h1, h2, h3, h4, h5, h6, h7, h8, h9, h10, h11, h12, h13, h14, h15, h16, h17⟩
    exact ⟨h1, h2, h3, h4, h5, h6, h7, h8, h9, h10, h11, h12, h13, h14, h15, h16, h17⟩

instance (media : RawSnapshotMediaBinding) : Decidable (ValidMedia media) :=
  decidable_of_iff' _ (validMedia_iff media)

/-- `ValidateRawSnapshotMediaBinding`. -/
def validateRawSnapshotMediaBinding (media : RawSnapshotMediaBinding) : Except String Unit :=
  need (ValidMedia media) "RawSnapshotMediaBindingInvalid"

/-- `BusTypeUsb`. -/
def busTypeUsb : ℕ := 7

/-- `ValidateVolumePhysicalPolicy`. -/
def validateVolumePhysicalPolicy (binding : RawSnapshotBinding) (inst : List UInt16) :
    Except String Unit := do
  let hardware := binding.hardware
  let media := binding.media
  need (binding.version = 1 ∧ canonicalInstance inst = true ∧
      hardware.kind = .qualifiedSerialTuple ∧ hardware.busType = busTypeUsb ∧
      canonicalText hardware.serial = true ∧ nonGenericText hardware.serial = true ∧
      hardware.vpdCodeSet = 0 ∧ hardware.vpdType = 0 ∧ hardware.vpdIdentifier = [] ∧
      canonicalText hardware.vendor = true ∧ canonicalText hardware.product = true ∧
      canonicalText hardware.revision = true ∧ nonGenericText hardware.vendor = true ∧
      nonGenericText hardware.product = true ∧
      media.diskSizeBytes ≠ 0 ∧ media.diskSizeBytes < 2 ^ 63 ∧
      media.baseOffsetBytes = media.partitionOffsetBytes ∧
      media.logicalSectorBytes ≤ 4096 ∧ media.baseOffsetBytes % 4096 = 0 ∧
      1048576 ≤ media.limitBytes ∧ media.limitBytes ≤ 2 ^ 40)
    "VolumePhysicalOperatorProfileMismatch"
  validateRawSnapshotMediaBinding media

/-- What the policy says of the geometry. -/
theorem validateVolumePhysicalPolicy_media {binding : RawSnapshotBinding} {inst : List UInt16}
    (h : validateVolumePhysicalPolicy binding inst = .ok ()) :
    ValidMedia binding.media ∧ binding.media.logicalSectorBytes ≤ 4096 ∧
      binding.media.diskSizeBytes < 2 ^ 63 ∧
      binding.media.baseOffsetBytes = binding.media.partitionOffsetBytes := by
  unfold validateVolumePhysicalPolicy at h
  dsimp only at h
  rw [need_bind_eq_ok] at h
  obtain ⟨⟨-, -, -, -, -, -, -, -, -, -, -, -, -, -, -, hsize, hbase, hsector, -⟩, hmedia⟩ := h
  unfold validateRawSnapshotMediaBinding at hmedia
  rw [need_eq_ok] at hmedia
  exact ⟨hmedia, hsector, hsize, hbase⟩

/-- The sector sizes that the policy leaves. -/
theorem sectorSize_cases {value : ℕ} (h : sectorSize value) (hle : value ≤ 4096) :
    value = 512 ∨ value = 1024 ∨ value = 2048 ∨ value = 4096 := by
  obtain ⟨hlow, -, hpower⟩ := h
  obtain ⟨k, rfl⟩ := (Nat.and_sub_one_eq_zero_iff_isPowerOfTwo (by omega)).mp hpower
  have hk : k < 13 := (Nat.pow_lt_pow_iff_right (by norm_num : 1 < 2)).mp
    (by omega : 2 ^ k < 2 ^ 13)
  have hk' : 8 < k := (Nat.pow_lt_pow_iff_right (by norm_num : 1 < 2)).mp
    (by omega : 2 ^ 8 < 2 ^ k)
  interval_cases k <;> simp

end Geometry
end ApfsAccess
