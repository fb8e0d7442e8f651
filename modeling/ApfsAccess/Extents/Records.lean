import ApfsAccess.Format.Codec

/-!
# The records the extent graph is made of

Four kinds of record take part in the payload extent graph of a volume: file
extents, which map a logical range of a stream to physical blocks; physical
extents, which say who owns a range of blocks and how often it is referenced; and
inodes and extended attributes, which say which stream belongs to whom.  This
module embeds their decoders, with the error texts of the source, and the encoder
of physical extents.

A file-system key carries its record type in the top four bits of its first word
and an object id in the other sixty; `recordType` and `recordObjectId` take it
apart.
-/

namespace ApfsAccess
namespace Extents

open Format ByteBuffer

/-- `kFsObjectIdMask`: sixty one bits. -/
def fsObjectIdMask : ℕ := 2 ^ 60 - 1

/-- The first word of a key, as `ReadU64LE(record.key, 0).value_or(0)`. -/
def keyHeader (record : BtreeRecord) : ℕ := (readU64LE record.key 0).getD 0

/-- `header >> 60`. -/
def recordType (header : ℕ) : ℕ := header / 2 ^ 60

/-- `header & kFsObjectIdMask`. -/
def recordObjectId (header : ℕ) : ℕ := header % 2 ^ 60

/-- `IsPowerOfTwo`. -/
def isPowerOfTwo (value : ℕ) : Bool := value != 0 && value &&& (value - 1) == 0

/-! ## File extents -/

/-- `AppleFileExtentRecord`. A physical block of zero is a logical hole. -/
structure AppleFileExtentRecord where
  objectId : ℕ
  logicalAddress : ℕ
  lengthBytes : ℕ
  physicalBlock : ℕ
  cryptoId : ℕ
  blockSize : ℕ
  deriving DecidableEq, Repr

/-- `DecodeFileExtentFields` with no flag allowed, which is
`DecodeAppleFileExtentRecord`. -/
def decodeAppleFileExtentRecord (record : BtreeRecord) (blockSize : ℕ) :
    Except String AppleFileExtentRecord :=
  if record.key.length ≠ 16 ∨ record.value.length ≠ 24 then
    .error "AppleFileExtentRecordInvalid"
  else
    let lengthAndFlags := (readU64LE record.value 0).getD 0
    let header := keyHeader record
    let decoded : AppleFileExtentRecord :=
      { objectId := recordObjectId header
        logicalAddress := (readU64LE record.key 8).getD 0
        lengthBytes := lengthAndFlags % 2 ^ 56
        physicalBlock := (readU64LE record.value 8).getD 0
        cryptoId := (readU64LE record.value 16).getD 0
        blockSize := blockSize }
    if lengthAndFlags / 2 ^ 56 ≠ 0 then
      .error "AppleFileExtentRecordInvalid"
    else if recordType header ≠ 8 ∨ decoded.objectId = 0 ∨ blockSize = 0 ∨
        !isPowerOfTwo blockSize ∨ decoded.lengthBytes = 0 ∨
        (decoded.physicalBlock = 0 ∧ decoded.cryptoId ≠ 0) ∨
        decoded.logicalAddress % blockSize ≠ 0 ∨ decoded.lengthBytes % blockSize ≠ 0 ∨
        2 ^ 64 - 1 - decoded.logicalAddress < decoded.lengthBytes ∨
        2 ^ 64 - 1 - decoded.physicalBlock < decoded.lengthBytes / blockSize then
      .error "AppleFileExtentRecordInvalid"
    else
      .ok decoded

/-- What a decoded file extent satisfies. -/
structure AppleFileExtentRecord.Valid (extent : AppleFileExtentRecord) (blockSize : ℕ) :
    Prop where
  blockSize_eq : extent.blockSize = blockSize
  blockSize_pos : 0 < blockSize
  objectId_pos : 0 < extent.objectId
  length_pos : 0 < extent.lengthBytes
  logical_aligned : blockSize ∣ extent.logicalAddress
  length_aligned : blockSize ∣ extent.lengthBytes

theorem decodeAppleFileExtentRecord_valid {record : BtreeRecord} {blockSize : ℕ}
    {extent : AppleFileExtentRecord}
    (h : decodeAppleFileExtentRecord record blockSize = .ok extent) :
    extent.Valid blockSize := by
  unfold decodeAppleFileExtentRecord at h
  split at h
  · cases h
  · simp only at h
    split at h
    · cases h
    · split at h
      · cases h
      · rename_i hguard
        simp only [not_or] at hguard
        obtain ⟨-, hobject, hsize, -, hlength, -, hlogical, haligned, -⟩ := hguard
        obtain rfl := Except.ok.inj h
        exact ⟨rfl, Nat.pos_of_ne_zero hsize, Nat.pos_of_ne_zero hobject,
          Nat.pos_of_ne_zero hlength, Nat.dvd_of_mod_eq_zero (not_not.mp hlogical),
          Nat.dvd_of_mod_eq_zero (not_not.mp haligned)⟩

/-! ## Physical extents -/

/-- `kApplePhysicalExtentKindNew`. -/
def physicalExtentKindNew : ℕ := 1

/-- `kApplePhysicalExtentKindUpdate`. -/
def physicalExtentKindUpdate : ℕ := 2

/-- `ApplePhysicalExtentRecord`. -/
structure ApplePhysicalExtentRecord where
  physicalBlock : ℕ
  blockCount : ℕ
  kind : ℕ
  owningObjectId : ℕ
  referenceCount : ℤ
  deriving DecidableEq, Repr

/-- `ExtentEnd`. -/
def ApplePhysicalExtentRecord.extentEnd (extent : ApplePhysicalExtentRecord) : ℕ :=
  extent.physicalBlock + extent.blockCount

/-- The range of blocks of a physical extent. -/
def ApplePhysicalExtentRecord.Covers (extent : ApplePhysicalExtentRecord) (block : ℕ) : Prop :=
  extent.physicalBlock ≤ block ∧ block < extent.extentEnd

instance (extent : ApplePhysicalExtentRecord) (block : ℕ) : Decidable (extent.Covers block) :=
  inferInstanceAs (Decidable (_ ∧ _))

theorem ApplePhysicalExtentRecord.covers_iff {extent : ApplePhysicalExtentRecord} {block : ℕ} :
    extent.Covers block ↔
      extent.physicalBlock ≤ block ∧ block < extent.physicalBlock + extent.blockCount :=
  Iff.rfl

/-- The checks the encoder and the decoder of a physical extent share. -/
def physicalExtentAdmitted (value : ApplePhysicalExtentRecord) : Bool :=
  value.physicalBlock != 0 && value.blockCount != 0 &&
    decide (value.physicalBlock ≤ fsObjectIdMask - (value.blockCount - 1)) &&
    (value.kind == physicalExtentKindNew || value.kind == physicalExtentKindUpdate) &&
    value.owningObjectId != 0 && decide (value.owningObjectId ≤ fsObjectIdMask) &&
    !(value.kind == physicalExtentKindNew && decide (value.referenceCount ≤ 0))

/-- `EncodeApplePhysicalExtentRecord`. -/
def encodeApplePhysicalExtentRecord (value : ApplePhysicalExtentRecord) :
    Except String BtreeRecord :=
  if fsObjectIdMask < value.physicalBlock ∨ fsObjectIdMask < value.blockCount ∨
      !physicalExtentAdmitted value then
    .error "ApplePhysicalExtentRecordInvalid"
  else
    .ok
      { key := leBytes 8 (2 * 2 ^ 60 + value.physicalBlock)
        value := leBytes 8 (value.kind * 2 ^ 60 + value.blockCount) ++
          leBytes 8 value.owningObjectId ++ leBytes 4 (value.referenceCount % 2 ^ 32).toNat }

/-- `static_cast<std::int32_t>` of an unsigned value. -/
def toInt32 (value : ℕ) : ℤ :=
  if value < 2 ^ 31 then (value : ℤ) else (value : ℤ) - 2 ^ 32

/-- `DecodeApplePhysicalExtentRecord`. -/
def decodeApplePhysicalExtentRecord (record : BtreeRecord) :
    Except String ApplePhysicalExtentRecord :=
  if record.key.length ≠ 8 ∨ record.value.length ≠ 20 then
    .error "ApplePhysicalExtentRecordInvalid"
  else
    let header := keyHeader record
    let lenAndKind := (readU64LE record.value 0).getD 0
    let decoded : ApplePhysicalExtentRecord :=
      { physicalBlock := recordObjectId header
        blockCount := lenAndKind % 2 ^ 60
        kind := lenAndKind / 2 ^ 60
        owningObjectId := (readU64LE record.value 8).getD 0
        referenceCount := toInt32 ((readU32LE record.value 16).getD 0) }
    if recordType header ≠ 2 ∨ !physicalExtentAdmitted decoded then
      .error "ApplePhysicalExtentRecordInvalid"
    else
      .ok decoded

/-- A value of `std::int32_t`. -/
def IsInt32 (value : ℤ) : Prop := -2 ^ 31 ≤ value ∧ value < 2 ^ 31

theorem isInt32_toInt32 {value : ℕ} (h : value < 2 ^ 32) : IsInt32 (toInt32 value) := by
  unfold IsInt32 toInt32
  split <;> omega

theorem toInt32_emod {value : ℤ} (h : IsInt32 value) : toInt32 (value % 2 ^ 32).toNat = value := by
  obtain ⟨hlower, hupper⟩ := h
  unfold toInt32
  by_cases hneg : value < 0
  · have hmod : value % 2 ^ 32 = value + 2 ^ 32 := by omega
    rw [hmod, if_neg (by omega)]
    omega
  · have hmod : value % 2 ^ 32 = value := by omega
    rw [hmod, if_pos (by omega)]
    omega

/-- What a physical extent that was decoded, or can be encoded, satisfies. -/
structure ApplePhysicalExtentRecord.Valid (extent : ApplePhysicalExtentRecord) : Prop where
  block_pos : 0 < extent.physicalBlock
  count_pos : 0 < extent.blockCount
  end_le : extent.physicalBlock + extent.blockCount ≤ 2 ^ 60
  kind : extent.kind = physicalExtentKindNew ∨ extent.kind = physicalExtentKindUpdate
  owner_pos : 0 < extent.owningObjectId
  owner_lt : extent.owningObjectId < 2 ^ 60
  referenced : extent.kind = physicalExtentKindNew → 0 < extent.referenceCount

theorem physicalExtentAdmitted_iff {extent : ApplePhysicalExtentRecord}
    (hcount : extent.blockCount < 2 ^ 60) :
    physicalExtentAdmitted extent = true ↔ extent.Valid := by
  unfold physicalExtentAdmitted fsObjectIdMask
  simp only [Bool.and_eq_true, bne_iff_ne, ne_eq, decide_eq_true_eq, Bool.or_eq_true, beq_iff_eq,
    Bool.not_eq_true', Bool.and_eq_false_iff, beq_eq_false_iff_ne, decide_eq_false_iff_not]
  constructor
  · rintro ⟨⟨⟨⟨⟨⟨hblock, hpos⟩, hend⟩, hkind⟩, howner⟩, hmask⟩, href⟩
    refine ⟨by omega, by omega, by omega, hkind, by omega, by omega, fun hnew => ?_⟩
    rcases href with hne | hle
    · exact absurd hnew hne
    · omega
  · rintro ⟨hblock, hpos, hend, hkind, howner, hmask, href⟩
    refine ⟨⟨⟨⟨⟨⟨by omega, by omega⟩, by omega⟩, hkind⟩, by omega⟩, by omega⟩, ?_⟩
    by_cases hnew : extent.kind = physicalExtentKindNew
    · exact .inr (not_le.mpr (href hnew))
    · exact .inl hnew

/-- The encoder accepts exactly the valid extents. -/
theorem encodeApplePhysicalExtentRecord_eq_ok_iff {extent : ApplePhysicalExtentRecord} :
    (∃ record, encodeApplePhysicalExtentRecord extent = .ok record) ↔ extent.Valid := by
  unfold encodeApplePhysicalExtentRecord
  constructor
  · rintro ⟨record, h⟩
    split at h
    · cases h
    · rename_i hguard
      simp only [not_or, not_lt, Bool.not_eq_true, Bool.not_eq_false'] at hguard
      obtain ⟨-, hcount, hadmitted⟩ := hguard
      exact (physicalExtentAdmitted_iff (by unfold fsObjectIdMask at hcount; omega)).mp hadmitted
  · intro hvalid
    have hend := hvalid.end_le
    have hpos := hvalid.count_pos
    have hblock := hvalid.block_pos
    have hadmitted := (physicalExtentAdmitted_iff (by omega)).mpr hvalid
    rw [if_neg]
    · exact ⟨_, rfl⟩
    · unfold fsObjectIdMask
      simp only [hadmitted, Bool.not_true, Bool.false_eq_true, or_false, not_or, not_lt]
      omega

theorem decodeApplePhysicalExtentRecord_valid {record : BtreeRecord}
    {extent : ApplePhysicalExtentRecord}
    (h : decodeApplePhysicalExtentRecord record = .ok extent) :
    extent.Valid ∧ IsInt32 extent.referenceCount := by
  unfold decodeApplePhysicalExtentRecord at h
  split at h
  · cases h
  · simp only at h
    split at h
    · cases h
    · rename_i hguard
      simp only [not_or, Bool.not_eq_true, Bool.not_eq_false'] at hguard
      obtain rfl := Except.ok.inj h
      exact ⟨(physicalExtentAdmitted_iff (Nat.mod_lt _ (by norm_num))).mp hguard.2,
        isInt32_toInt32 (readLE_getD_lt 4 record.value 16)⟩

theorem pack_mod {high low width : ℕ} (h : low < width) : (high * width + low) % width = low := by
  rw [Nat.mul_add_mod', Nat.mod_eq_of_lt h]

theorem pack_div {high low width : ℕ} (h : low < width) :
    (high * width + low) / width = high := by
  rw [Nat.add_div_of_dvd_right (Dvd.intro_left high rfl), Nat.div_eq_of_lt h,
    Nat.mul_div_cancel _ (by omega), Nat.add_zero]

theorem pack_lt {high low : ℕ} (hhigh : high < 2 ^ 4) (hlow : low < 2 ^ 60) :
    high * 2 ^ 60 + low < 256 ^ 8 := by
  have : high * 2 ^ 60 ≤ (2 ^ 4 - 1) * 2 ^ 60 := Nat.mul_le_mul_right _ (by omega)
  omega

/-- The three words of an encoded physical extent's value, read back. -/
theorem readLE_value {first second third : ℕ} (hfirst : first < 256 ^ 8)
    (hsecond : second < 256 ^ 8) (hthird : third < 256 ^ 4) :
    readU64LE (leBytes 8 first ++ leBytes 8 second ++ leBytes 4 third) 0 = some first ∧
      readU64LE (leBytes 8 first ++ leBytes 8 second ++ leBytes 4 third) 8 = some second ∧
      readU32LE (leBytes 8 first ++ leBytes 8 second ++ leBytes 4 third) 16 = some third := by
  have h0 := readLE_append [] (leBytes 8 second ++ leBytes 4 third) hfirst
  have h1 := readLE_append (leBytes 8 first) (leBytes 4 third) hsecond
  have h2 := readLE_append (leBytes 8 first ++ leBytes 8 second) [] hthird
  refine ⟨?_, ?_, ?_⟩
  · rw [List.append_assoc]
    exact h0
  · rw [List.append_assoc]
    rwa [length_leBytes] at h1
  · rw [List.append_nil, List.length_append, length_leBytes, length_leBytes] at h2
    exact h2

theorem readLE_key {word : ℕ} (h : word < 256 ^ 8) : readU64LE (leBytes 8 word) 0 = some word := by
  have := readLE_append [] [] h
  rwa [List.append_nil, List.nil_append] at this

/-- **A physical extent that was encoded is decoded again.** -/
theorem decode_encodeApplePhysicalExtentRecord {extent : ApplePhysicalExtentRecord}
    {record : BtreeRecord} (h : encodeApplePhysicalExtentRecord extent = .ok record)
    (hreferences : IsInt32 extent.referenceCount) :
    decodeApplePhysicalExtentRecord record = .ok extent := by
  have hvalid := encodeApplePhysicalExtentRecord_eq_ok_iff.mp ⟨record, h⟩
  have hend := hvalid.end_le
  have hpos := hvalid.count_pos
  have hblock := hvalid.block_pos
  have hblockLt : extent.physicalBlock < 2 ^ 60 := by omega
  have hcountLt : extent.blockCount < 2 ^ 60 := by omega
  have hownerLt : extent.owningObjectId < 256 ^ 8 := by
    have := hvalid.owner_lt
    omega
  have hkind : extent.kind < 2 ^ 4 := by
    rcases hvalid.kind with hkind | hkind <;> rw [hkind] <;> decide
  have hreferenceLt : (extent.referenceCount % 2 ^ 32).toNat < 256 ^ 4 := by omega
  have hadmitted := (physicalExtentAdmitted_iff hcountLt).mpr hvalid
  unfold encodeApplePhysicalExtentRecord at h
  split at h
  · cases h
  · obtain rfl := Except.ok.inj h
    obtain ⟨hlength, howner, hcount⟩ :=
      readLE_value (pack_lt hkind hcountLt) hownerLt hreferenceLt
    have hheader := readLE_key (pack_lt (show 2 < 2 ^ 4 by decide) hblockLt)
    unfold decodeApplePhysicalExtentRecord keyHeader
    rw [if_neg (by simp only [List.length_append, length_leBytes]; decide)]
    simp only [hheader, hlength, howner, hcount, Option.getD_some, recordObjectId, recordType,
      toInt32_emod hreferences, pack_mod hblockLt, pack_div hblockLt, pack_mod hcountLt,
      pack_div hcountLt]
    rw [if_neg (by simp only [hadmitted]; decide)]

end Extents
end ApfsAccess
