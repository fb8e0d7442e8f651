import ApfsAccess.Records.Encoders

/-!
# Reading encoded records back

Every encoder of the transaction writer is set beside the decoder of its kind.  Where the
two share their limits an encoded record is decoded again; where the encoder misses a
limit the record is still written, and the decoder refuses it.

* A file extent whose end, logical or physical, does not fit 64 bits is encoded.
* A directory entry is encoded whatever its target above `kFsObjectIdMask`, and its name
  is only searched for a terminator when the caller brings the hash along.
* A sibling link takes any bytes as a name, and so does an extended attribute.

`RecordValue.ReadsBack` says for each kind what is left for the caller to see to, and
`readsBack_iff` that this is exactly what the decoders want.
-/

namespace ApfsAccess
namespace Records

open Extents Format ByteBuffer Names

/-! ## File extents -/

/-- The fields of a file extent fit the types of the source. -/
def FileExtentFits (value : AppleFileExtentRecord) : Prop :=
  Fits [(8, value.objectId), (8, value.logicalAddress), (8, value.lengthBytes),
    (8, value.physicalBlock), (8, value.cryptoId), (4, value.blockSize)]

/-- The two ends of a file extent fit 64 bits. -/
def FileExtentReadsBack (value : AppleFileExtentRecord) : Prop :=
  value.logicalAddress + value.lengthBytes < 2 ^ 64 ∧
    value.physicalBlock + value.lengthBytes / value.blockSize < 2 ^ 64

theorem decode_encodeAppleFileExtentRecord {value : AppleFileExtentRecord} {record : BtreeRecord}
    (hfits : FileExtentFits value) (h : encodeAppleFileExtentRecord value = .ok record) :
    decodeAppleFileExtentRecord record value.blockSize = .ok value ↔ FileExtentReadsBack value := by
  unfold encodeAppleFileExtentRecord at h
  split at h
  · cases h
  rename_i key hkey
  obtain ⟨rfl, hpos, hlt⟩ := makeFsKey_eq_ok hkey
  split at h
  · cases h
  rename_i hguard
  simp only [not_or, not_lt, not_not] at hguard
  obtain ⟨hsize, hpower, hlength, hmask, hhole, hlogical, haligned⟩ := hguard
  obtain rfl := Except.ok.inj h
  rw [← layout_append, List.singleton_append]
  have hlogicalFits : value.logicalAddress < 256 ^ 8 := hfits (8, _) (by simp)
  have hphysicalFits : value.physicalBlock < 256 ^ 8 := hfits (8, _) (by simp)
  have hcryptoFits : value.cryptoId < 256 ^ 8 := hfits (8, _) (by simp)
  have hlengthFits : value.lengthBytes < 256 ^ 8 := by omega
  have hheader : readU64LE (layout [(8, 8 * 2 ^ 60 + value.objectId), (8, value.logicalAddress)]) 0 =
      some (8 * 2 ^ 60 + value.objectId) :=
    readLE_layout_nil 0 rfl rfl (header_lt (by decide) hlt)
  set words := [(8, value.lengthBytes), (8, value.physicalBlock), (8, value.cryptoId)]
  have hread : readU64LE (layout [(8, 8 * 2 ^ 60 + value.objectId), (8, value.logicalAddress)]) 8 =
      some value.logicalAddress := readLE_layout_nil 1 rfl rfl hlogicalFits
  have hread0 : readU64LE (layout words) 0 = some value.lengthBytes :=
    readLE_layout_nil 0 rfl rfl hlengthFits
  have hread8 : readU64LE (layout words) 8 = some value.physicalBlock :=
    readLE_layout_nil 1 rfl rfl hphysicalFits
  have hread16 : readU64LE (layout words) 16 = some value.cryptoId :=
    readLE_layout_nil 2 rfl rfl hcryptoFits
  unfold decodeAppleFileExtentRecord keyHeader
  rw [if_neg (by simp [words])]
  simp only [hheader, hread, hread0, hread8, hread16, Option.getD_some, recordObjectId_header 8 hlt,
    recordType_header 8 hlt, Nat.mod_eq_of_lt (show value.lengthBytes < 2 ^ 56 by omega)]
  rw [if_neg (by omega)]
  unfold FileExtentReadsBack
  generalize value.lengthBytes / value.blockSize = blocks at *
  by_cases hback : value.logicalAddress + value.lengthBytes < 2 ^ 64 ∧
      value.physicalBlock + blocks < 2 ^ 64
  · rw [if_neg]
    · exact iff_of_true rfl hback
    · simp only [not_or, not_lt, not_not]
      exact ⟨trivial, by omega, hsize, hpower, hlength, hhole, hlogical, haligned, by omega,
        by omega⟩
  · rw [if_pos (by omega)]
    exact iff_of_false (fun hne => by cases hne) hback

/-! ## Data stream ids -/

/-- The reference count of a data stream id fits its type. -/
theorem decode_encodeAppleDataStreamIdRecord {value : AppleDataStreamIdRecord}
    {record : BtreeRecord} (hfits : value.referenceCount < 256 ^ 4)
    (h : encodeAppleDataStreamIdRecord value = .ok record) :
    decodeAppleDataStreamIdRecord record = .ok value := by
  unfold encodeAppleDataStreamIdRecord at h
  split at h
  · cases h
  rename_i key hkey
  obtain ⟨rfl, hpos, hlt⟩ := makeFsKey_eq_ok hkey
  split at h
  · cases h
  rename_i hreferences
  obtain rfl := Except.ok.inj h
  have hheader : readU64LE (layout [(8, 6 * 2 ^ 60 + value.objectId)]) 0 =
      some (6 * 2 ^ 60 + value.objectId) :=
    readLE_layout_nil 0 rfl rfl (header_lt (by decide) hlt)
  have hread : readU32LE (layout [(4, value.referenceCount)]) 0 = some value.referenceCount :=
    readLE_layout_nil 0 rfl rfl hfits
  unfold decodeAppleDataStreamIdRecord keyHeader
  rw [if_neg (by simp)]
  simp only [hheader, hread, Option.getD_some, recordObjectId_header 6 hlt,
    recordType_header 6 hlt]
  rw [if_neg (by omega)]

/-! ## Inodes -/

/-- The widths of the words of an inode. -/
def inodeWidths : List ℕ := [8, 8, 8, 8, 8, 8, 8, 4, 4, 4, 4, 4, 4, 2, 2, 8]

/-- The fields of an inode fit the types of the source. -/
structure InodeFits (value : AppleInodeRecord) : Prop where
  words : Fits (inodeWords value)
  links : value.childrenOrLinks < 2 ^ 31
  fields : FieldsFit value.extendedFields

/-- **An inode that was encoded is decoded again**, with its extended fields in order. -/
theorem decode_encodeAppleInodeRecord {value : AppleInodeRecord} {record : BtreeRecord}
    (hfits : InodeFits value) (h : encodeAppleInodeRecord value = .ok record)
    (observational : Bool) :
    decodeInodeWithAdmission record observational =
      .ok { value with extendedFields := orderedFields value.extendedFields } := by
  unfold encodeAppleInodeRecord at h
  split at h
  · cases h
  rename_i key hkey
  obtain ⟨rfl, hpos, hlt⟩ := makeFsKey_eq_ok hkey
  split at h
  · cases h
  rename_i hidentity
  simp only [not_or] at hidentity
  split at h
  · cases h
  rename_i extended hextended
  simp only at h
  split at h
  · cases h
  obtain rfl := Except.ok.inj h
  have hheader : readU64LE (layout [(8, 3 * 2 ^ 60 + value.objectId)]) 0 =
      some (3 * 2 ^ 60 + value.objectId) :=
    readLE_layout_nil 0 rfl rfl (header_lt (by decide) hlt)
  have hread : ∀ (i : ℕ) {width word : ℕ}, (inodeWords value)[i]? = some (width, word) →
      readLE width (layout (inodeWords value) ++ extended) (inodeWidths.take i).sum =
        some word := by
    intro i width word hword
    refine readLE_layout i hword ?_ (hfits.words _ (List.mem_of_getElem? hword)) extended
    rw [widthOf, List.map_take]
    rfl
  have hlength : (layout (inodeWords value)).length = inodeWidths.sum := length_layout _
  have hfields := decodeExtendedFields_encoded hextended hfits.fields
    (layout (inodeWords value)) observational
  rw [hlength] at hfields
  set bytes := layout (inodeWords value) ++ extended with hbytes
  have hparentId : readU64LE bytes 0x00 = some value.parentId := hread 0 rfl
  have hprivateId : readU64LE bytes 0x08 = some value.privateId := hread 1 rfl
  have hcreateTime : readU64LE bytes 0x10 = some value.createTime := hread 2 rfl
  have hmodificationTime : readU64LE bytes 0x18 = some value.modificationTime := hread 3 rfl
  have hchangeTime : readU64LE bytes 0x20 = some value.changeTime := hread 4 rfl
  have haccessTime : readU64LE bytes 0x28 = some value.accessTime := hread 5 rfl
  have hinternalFlags : readU64LE bytes 0x30 = some value.internalFlags := hread 6 rfl
  have hchildrenOrLinks : readU32LE bytes 0x38 = some value.childrenOrLinks := hread 7 rfl
  have hdefaultProtectionClass : readU32LE bytes 0x3c = some value.defaultProtectionClass := hread 8 rfl
  have hwriteGeneration : readU32LE bytes 0x40 = some value.writeGeneration := hread 9 rfl
  have hbsdFlags : readU32LE bytes 0x44 = some value.bsdFlags := hread 10 rfl
  have howner : readU32LE bytes 0x48 = some value.owner := hread 11 rfl
  have hgroup : readU32LE bytes 0x4c = some value.group := hread 12 rfl
  have hmode : readU16LE bytes 0x50 = some value.mode := hread 13 rfl
  have hreservedPad : readU16LE bytes 0x52 = some value.reservedPad := hread 14 rfl
  have huncompressedSize : readU64LE bytes 0x54 = some value.uncompressedSize := hread 15 rfl
  have hsize : 0x5c ≤ bytes.length := by
    rw [hbytes, List.length_append, hlength]
    exact Nat.le_add_right _ _
  have hkeyParsed : parseExactKey ⟨layout [(8, 3 * 2 ^ 60 + value.objectId)], bytes⟩ 3 8 =
      .ok value.objectId := by
    unfold parseExactKey
    rw [if_neg (by simp), hheader]
    simp only [recordType_header 3 hlt, recordObjectId_header 3 hlt]
    rw [if_neg (not_not.mpr rfl), if_neg (by omega)]
  have hlinksFit := hfits.links
  unfold decodeInodeWithAdmission
  rw [hkeyParsed]
  simp only [hparentId, hprivateId, hcreateTime, hmodificationTime, hchangeTime, haccessTime, hinternalFlags, hchildrenOrLinks, hdefaultProtectionClass, hwriteGeneration, hbsdFlags, howner, hgroup, hmode, hreservedPad, huncompressedSize, Option.getD_some]
  rw [if_neg (by omega), if_neg (by omega)]
  have hfieldsRead : decodeExtendedFields bytes 0x5c observational =
      .ok (orderedFields value.extendedFields) := hfields
  rw [hfieldsRead]

/-! ## Names at the end of a buffer -/

theorem getLast?_terminated (front name : Bytes) :
    (front ++ (name ++ [0])).getLast? = some 0 := by
  rw [← List.append_assoc, List.getLast?_append, List.getLast?_singleton]
  rfl

/-- A terminated name is as long as its length word says. -/
theorem length_terminated (front name : Bytes) :
    (front ++ (name ++ [0])).length = front.length + (name.length + 1) := by
  rw [List.length_append, List.length_append, List.length_singleton]

/-- What `DecodeTerminatedName` makes of a name that was appended. -/
theorem decodeTerminatedName_appended (data : UnicodeData) {front name : Bytes} {offset : ℕ}
    (hoffset : front.length = offset) (hne : name ≠ []) :
    decodeTerminatedName data (front ++ (name ++ [0])) offset (name.length + 1) = .ok name ↔
      ∃ decoded, decode data name {} = .ok decoded := by
  have hpos : 0 < name.length := List.length_pos_iff.mpr hne
  have hslice : slice (front ++ (name ++ [0])) offset (name.length + 1 - 1) = name :=
    slice_append_middle hoffset rfl
  unfold decodeTerminatedName
  rw [if_neg, hslice]
  · simp only
    split
    · rename_i herror
      exact iff_of_false (fun hne => by cases hne) fun ⟨decoded, hdecoded⟩ => by
        rw [herror] at hdecoded
        cases hdecoded
    · rename_i decoded hdecoded
      exact iff_of_true rfl ⟨decoded, hdecoded⟩
  · rw [getLast?_terminated, length_terminated, hoffset]
    simp only [not_or, not_not, and_true]
    omega

/-- What `DecodeTerminatedXattrName` makes of a name that was appended. -/
theorem decodeTerminatedXattrName_appended {front name : Bytes} {offset : ℕ}
    (hoffset : front.length = offset) (hne : name ≠ []) (hle : name.length ≤ 821) :
    decodeTerminatedXattrName (front ++ (name ++ [0])) offset (name.length + 1) =
      if xattrNameIsUtf8 name.length (name.map UInt8.toNat) then .ok name
      else .error "AppleXattrNameUtf8Invalid" := by
  have hpos : 0 < name.length := List.length_pos_iff.mpr hne
  have hslice : slice (front ++ (name ++ [0])) offset (name.length + 1 - 1) = name :=
    slice_append_middle hoffset rfl
  unfold decodeTerminatedXattrName
  rw [if_neg, hslice]
  rw [getLast?_terminated, length_terminated, hoffset]
  simp only [not_or, not_not, and_true]
  omega

/-! ## Sibling links -/

/-- The ids of a sibling link fit their types. -/
def SiblingLinkFits (value : AppleSiblingLinkRecord) : Prop :=
  Fits [(8, value.siblingId), (8, value.parentId)]

theorem decode_encodeAppleSiblingLinkRecord (data : UnicodeData) {value : AppleSiblingLinkRecord}
    {record : BtreeRecord} (hfits : SiblingLinkFits value)
    (h : encodeAppleSiblingLinkRecord value = .ok record) :
    decodeSiblingLink data record = .ok value ↔
      ∃ name, decode data value.nameUtf8 {} = .ok name := by
  unfold encodeAppleSiblingLinkRecord at h
  split at h
  · cases h
  rename_i key hkey
  obtain ⟨rfl, hpos, hlt⟩ := makeFsKey_eq_ok hkey
  split at h
  · cases h
  rename_i hidentity
  split at h
  · cases h
  rename_i hname
  obtain ⟨hne, hle, -⟩ := validateName_eq_ok hname
  obtain rfl := Except.ok.inj h
  rw [← layout_append, List.singleton_append]
  have hsiblingFits : value.siblingId < 256 ^ 8 := hfits (8, _) (by simp)
  have hparentFits : value.parentId < 256 ^ 8 := hfits (8, _) (by simp)
  have hlengthFits : value.nameUtf8.length + 1 < 256 ^ 2 := by
    unfold maximumFsValueBytes at hle
    omega
  set key := layout [(8, 5 * 2 ^ 60 + value.inodeId), (8, value.siblingId)] with hkeyDef
  set words := layout [(8, value.parentId), (2, value.nameUtf8.length + 1)] with hwords
  have hheader : readU64LE key 0 = some (5 * 2 ^ 60 + value.inodeId) :=
    readLE_layout_nil 0 rfl rfl (header_lt (by decide) hlt)
  have hsibling : readU64LE key 8 = some value.siblingId :=
    readLE_layout_nil 1 rfl rfl hsiblingFits
  have hparent : readU64LE (words ++ (value.nameUtf8 ++ [0])) 0 = some value.parentId :=
    readLE_layout 0 rfl rfl hparentFits _
  have hlength : readU16LE (words ++ (value.nameUtf8 ++ [0])) 8 =
      some (value.nameUtf8.length + 1) := readLE_layout 1 rfl rfl hlengthFits _
  have hwordsLength : words.length = 10 := length_layout _
  have hterminated := decodeTerminatedName_appended data hwordsLength hne
  have hkeyParsed : parseExactKey ⟨key, words ++ (value.nameUtf8 ++ [0])⟩ 5 16 =
      .ok value.inodeId := by
    unfold parseExactKey
    rw [if_neg (by simp [hkeyDef]), hheader]
    simp only [recordType_header 5 hlt, recordObjectId_header 5 hlt]
    rw [if_neg (not_not.mpr rfl), if_neg (by omega)]
  have hnamePos : 0 < value.nameUtf8.length := List.length_pos_iff.mpr hne
  unfold decodeSiblingLink
  rw [hkeyParsed]
  simp only [hsibling, hparent, hlength, Option.getD_some]
  rw [if_neg (by rw [length_terminated]; omega), if_neg hidentity, ← hterminated]
  split
  · rename_i herror
    rw [herror]
    exact iff_of_false (fun hne => by cases hne) fun hne => by cases hne
  · rename_i name hread
    rw [hread]
    constructor
    · intro hsame
      rw [← Except.ok.inj hsame]
    · intro hsame
      rw [Except.ok.inj hsame]

/-! ## Extended attributes -/

theorem decode_encodeAppleXattrRecord {value : AppleXattrRecord} {record : BtreeRecord}
    (hfits : value.flags < 256 ^ 2) (h : encodeAppleXattrRecord value = .ok record) :
    decodeXattr record = .ok value ↔
      xattrNameIsUtf8 value.nameUtf8.length (value.nameUtf8.map UInt8.toNat) = true := by
  unfold encodeAppleXattrRecord at h
  simp only at h
  split at h
  · cases h
  rename_i key hkey
  obtain ⟨rfl, hpos, hlt⟩ := makeFsKey_eq_ok hkey
  split at h
  · cases h
  rename_i hname
  obtain ⟨hne, hle, -⟩ := validateName_eq_ok hname
  obtain ⟨hguard, h⟩ := of_guard h
  obtain rfl := Except.ok.inj h
  rw [not_or, not_or, not_or, not_or] at hguard
  obtain ⟨-, hstorage, hdata, hstream, hembedded⟩ := hguard
  rw [← layout_append, List.singleton_append]
  have hnameLe : value.nameUtf8.length ≤ 821 := hle
  have hnamePos : 0 < value.nameUtf8.length := List.length_pos_iff.mpr hne
  set stored := if xattrStorageFlags value.flags = xattrDataEmbedded then value.data.length else 0
    with hstored
  have hstoredFits : stored < 256 ^ 2 := by
    rw [hstored]
    split <;> omega
  set key := layout [(8, 4 * 2 ^ 60 + value.objectId), (2, value.nameUtf8.length + 1)]
  set words := layout [(2, value.flags), (2, stored)]
  have hkeyLength : key.length = 10 := length_layout _
  have hwordsLength : words.length = 4 := length_layout _
  have hheader : readU64LE (key ++ (value.nameUtf8 ++ [0])) 0 =
      some (4 * 2 ^ 60 + value.objectId) :=
    readLE_layout 0 rfl rfl (header_lt (by decide) hlt) _
  have hnameLength : readU16LE (key ++ (value.nameUtf8 ++ [0])) 8 =
      some (value.nameUtf8.length + 1) := readLE_layout 1 rfl rfl (by omega) _
  have hflags : readU16LE (words ++ value.data) 0 = some value.flags :=
    readLE_layout 0 rfl rfl hfits _
  have hlength : readU16LE (words ++ value.data) 2 = some stored :=
    readLE_layout 1 rfl rfl hstoredFits _
  have hstreamId : readU64LE (words ++ value.data) 4 = readU64LE value.data 0 :=
    readLE_append_left 8 words value.data 0
  have hdrop : (words ++ value.data).drop 4 = value.data := List.drop_left' hwordsLength
  have hvalueLength : (words ++ value.data).length = 4 + value.data.length := by
    rw [List.length_append, hwordsLength]
  unfold decodeXattr keyHeader
  rw [if_neg (by rw [length_terminated, hkeyLength, hvalueLength]; omega)]
  simp only [hheader, hnameLength, hflags, hlength, hstreamId, hdrop, hvalueLength,
    Option.getD_some, recordObjectId_header 4 hlt, recordType_header 4 hlt,
    decodeTerminatedXattrName_appended hkeyLength hne hnameLe]
  rw [if_neg (by omega)]
  by_cases hutf8 : xattrNameIsUtf8 value.nameUtf8.length (value.nameUtf8.map UInt8.toNat) = true
  · rw [if_pos hutf8]
    refine iff_of_true ?_ hutf8
    have hflagsStorage : value.flags &&& (xattrDataStream ||| xattrDataEmbedded) =
        xattrStorageFlags value.flags := rfl
    simp only [hflagsStorage]
    by_cases hcase : xattrStorageFlags value.flags = xattrDataEmbedded
    · have hsize : value.data.length ≤ maximumEmbeddedXattrBytes :=
        not_lt.mp fun hlarge => hembedded ⟨hcase, hlarge⟩
      unfold maximumEmbeddedXattrBytes at hsize
      rw [if_pos hcase, if_neg]
      rw [hstored, if_pos hcase]
      omega
    · have hcaseStream : xattrStorageFlags value.flags = xattrDataStream := by
        by_contra hneither
        exact hstorage ⟨hneither, hcase⟩
      rw [if_neg hcase, if_pos hcaseStream, if_neg, if_neg]
      · exact fun hrefused => hstream ⟨hcaseStream, .inr (by rwa [if_pos hcaseStream])⟩
      · intro hlengthDiffers
        exact hstream ⟨hcaseStream, .inl (by omega)⟩
  · rw [if_neg hutf8]
    exact iff_of_false (fun hne => by cases hne) hutf8

/-! ## Directory entries -/

/-- A decoded name has a hash exactly on the volumes that store one. -/
theorem isSome_directoryHash_of_decode {data : UnicodeData} {utf8 : Bytes}
    {policy : ApfsNamePolicy} {name : ApfsName} (h : decode data utf8 policy = .ok name) :
    name.directoryHash.isSome = policy.usesHashedDirectoryKeys := by
  unfold decode at h
  iterate 4
    replace h := (of_guard h).2
  split at h
  · cases h
  split at h
  · cases h
  split at h
  · cases h
  unfold decodedName at h
  simp only at h
  split at h
  · rename_i hhashed
    rw [hhashed]
    split at h
    · cases h
    · obtain rfl := Except.ok.inj h
      rfl
  · rename_i hplain
    obtain rfl := Except.ok.inj h
    simpa using hplain

/-- The fields of a directory entry fit the types of the source. -/
structure DirectoryFits (value : AppleDirectoryRecord) : Prop where
  words : Fits [(8, value.fileId), (8, value.dateAdded), (2, value.flags)]
  fields : FieldsFit value.extendedFields

/-- What the length word of an accepted entry holds. -/
theorem directoryNameWord_eq_ok {value : AppleDirectoryRecord} {word : ℕ × ℕ}
    (hname : value.nameUtf8.length ≤ 1022) (h : directoryNameWord value = .ok word) :
    word.1 = (if value.hashedName then 4 else 2) ∧ word.2 < 256 ^ word.1 ∧
      word.2 % 2 ^ 10 = value.nameUtf8.length + 1 ∧
      word.2 / 2 ^ 10 = if value.hashedName then value.nameHash else 0 := by
  unfold directoryNameWord at h
  simp only at h
  split at h
  · rename_i hhashed
    obtain ⟨hguard, h⟩ := of_guard h
    obtain rfl := Except.ok.inj h
    have hfits : value.nameHash * 2 ^ 10 + (value.nameUtf8.length + 1) < 256 ^ 4 := by omega
    rw [if_pos hhashed, if_pos hhashed]
    exact ⟨rfl, hfits, by omega, by omega⟩
  · rename_i hplain
    obtain ⟨hguard, h⟩ := of_guard h
    obtain rfl := Except.ok.inj h
    have hfits : value.nameUtf8.length + 1 < 256 ^ 2 := by omega
    rw [if_neg hplain, if_neg hplain]
    exact ⟨rfl, hfits, by omega, by omega⟩

/-- The stored word of an entry matches its decoded name, and gives back the entry's hash,
exactly when the entry has the hash of the name. -/
theorem matches_iff_storedHash {value : AppleDirectoryRecord} {word : ℕ} {name : ApfsName}
    (hsome : name.directoryHash.isSome = value.hashedName)
    (hname : name.originalUtf8 = value.nameUtf8) (hle : value.nameUtf8.length ≤ 255)
    (hlength : word % 2 ^ 10 = value.nameUtf8.length + 1)
    (hhash : word / 2 ^ 10 = if value.hashedName then value.nameHash else 0) :
    ¬(value.hashedName && !matchesHashedDirectoryKey name word) = true ∧
        word / 2 ^ 10 = value.nameHash ↔
      value.nameHash = ApfsName.storedHash name := by
  unfold matchesHashedDirectoryKey ApfsName.storedHash
  rw [← hsome] at hhash ⊢
  cases hcase : name.directoryHash with
  | none =>
    rw [hcase] at hhash
    have hzero : word / 2 ^ 10 = 0 := hhash
    rw [hzero]
    simp only [Option.isSome_none, Bool.false_and, Bool.false_eq_true, not_false_iff, true_and]
    exact eq_comm
  | some hash =>
    rw [hcase] at hhash
    have hsame : word / 2 ^ 10 = value.nameHash := hhash
    have hshort : value.nameUtf8.length < 0x3ff := by omega
    rw [hname, hlength, hsame]
    simp only [Option.isSome_some, Bool.true_and, decide_eq_true hshort, beq_self_eq_true,
      Bool.not_eq_true', Bool.not_eq_false, beq_iff_eq, and_true]

/-- When a directory entry is read back: its target is an object id, and its name decodes
and has the hash the entry says. -/
def DirectoryReadsBack (data : UnicodeData) (policy : ApfsNamePolicy)
    (value : AppleDirectoryRecord) : Prop :=
  value.fileId ≤ fsObjectIdMask ∧ ∃ name, decode data value.nameUtf8 policy = .ok name ∧
    value.nameHash = ApfsName.storedHash name

theorem decode_encodeAppleDirectoryRecord (data : UnicodeData) {policy : ApfsNamePolicy}
    {value : AppleDirectoryRecord} {record : BtreeRecord} (hfits : DirectoryFits value)
    (hhashed : policy.usesHashedDirectoryKeys = value.hashedName)
    (h : encodeAppleDirectoryRecord value = .ok record) :
    decodeDirectory data record policy =
        .ok { value with extendedFields := orderedFields value.extendedFields } ↔
      DirectoryReadsBack data policy value := by
  unfold encodeAppleDirectoryRecord at h
  split at h
  · cases h
  rename_i header hkey
  obtain ⟨rfl, hpos, hlt⟩ := makeFsKey_eq_ok hkey
  split at h
  · cases h
  rename_i hfile
  split at h
  · cases h
  rename_i hname
  obtain ⟨hne, hle, -⟩ := validateName_eq_ok hname
  split at h
  · cases h
  rename_i word hword
  split at h
  · cases h
  rename_i extended hextended
  simp only at h
  obtain ⟨-, h⟩ := of_guard h
  obtain rfl := Except.ok.inj h
  rw [← layout_append, List.singleton_append]
  obtain ⟨hwidth, hwordFits, hlengthRead, hhashRead⟩ := directoryNameWord_eq_ok hle hword
  have hnamePos : 0 < value.nameUtf8.length := List.length_pos_iff.mpr hne
  set words := [(8, value.fileId), (8, value.dateAdded), (2, value.flags)] with hwords
  have hwordsLength : (layout words).length = 18 := length_layout _
  have hread : ∀ (i : ℕ) {width number : ℕ}, words[i]? = some (width, number) →
      readLE width (layout words ++ extended) (([8, 8, 2].take i).sum) = some number := by
    intro i width number hnumber
    refine readLE_layout i hnumber ?_ (hfits.words _ (List.mem_of_getElem? hnumber)) extended
    rw [widthOf, List.map_take]
    rfl
  have hfields := decodeExtendedFields_encoded hextended hfits.fields (layout words) false
  rw [hwordsLength] at hfields
  have hfileRead : readU64LE (layout words ++ extended) 0 = some value.fileId := hread 0 rfl
  have hdateRead : readU64LE (layout words ++ extended) 8 = some value.dateAdded := hread 1 rfl
  have hflagsRead : readU16LE (layout words ++ extended) 16 = some value.flags := hread 2 rfl
  set front := layout [(8, 9 * 2 ^ 60 + value.parentId), word] with hfront
  have hheader : readU64LE (front ++ (value.nameUtf8 ++ [0])) 0 =
      some (9 * 2 ^ 60 + value.parentId) :=
    readLE_layout 0 rfl rfl (header_lt (by decide) hlt) _
  have hwordRead : readLE word.1 (front ++ (value.nameUtf8 ++ [0])) 8 = some word.2 :=
    readLE_layout 1 rfl rfl hwordFits _
  have hfrontLength : front.length = if value.hashedName then 12 else 10 := by
    rw [hfront, length_layout]
    simp only [widthOf, List.map_cons, List.map_nil, List.sum_cons, List.sum_nil, hwidth]
    split <;> rfl
  have hpacked : (if value.hashedName then (readU32LE (front ++ (value.nameUtf8 ++ [0])) 8).getD 0
      else (readU16LE (front ++ (value.nameUtf8 ++ [0])) 8).getD 0) = word.2 := by
    rw [hwidth] at hwordRead
    split at hwordRead
    · rename_i hcase
      rw [if_pos hcase, readU32LE, hwordRead, Option.getD_some]
    · rename_i hcase
      rw [if_neg hcase, readU16LE, hwordRead, Option.getD_some]
  have hlength : (if value.hashedName then word.2 % 2 ^ 10 else word.2) =
      value.nameUtf8.length + 1 := by
    split at hhashRead
    · rename_i hcase
      rw [if_pos hcase, hlengthRead]
    · rename_i hcase
      rw [if_neg hcase]
      omega
  have hslice : slice (front ++ (value.nameUtf8 ++ [0])) (if value.hashedName then 12 else 10)
      (value.nameUtf8.length + 1 - 1) = value.nameUtf8 :=
    slice_append_middle hfrontLength rfl
  unfold decodeDirectory DirectoryReadsBack
  simp only [hhashed, hpacked, hlength, hheader, hslice, recordType_header 9 hlt,
    recordObjectId_header 9 hlt, hfileRead, hdateRead, hflagsRead, Option.getD_some, hfields]
  rw [if_neg]
  · cases hdecode : decode data value.nameUtf8 policy with
    | error error =>
      refine iff_of_false (fun hne => by cases hne) ?_
      rintro ⟨-, name, hname, -⟩
      cases hname
    | ok name =>
      have hsome := isSome_directoryHash_of_decode hdecode
      rw [hhashed] at hsome
      obtain ⟨hdecodable, horiginal, -⟩ := decode_spec hdecode
      have hmatches := matches_iff_storedHash hsome horiginal hdecodable.length_le hlengthRead
        hhashRead
      constructor
      · intro hread
        obtain ⟨hmatched, hread⟩ := of_guard hread
        obtain ⟨htarget, hread⟩ := of_guard hread
        have hhash : word.2 / 2 ^ 10 = value.nameHash :=
          congrArg AppleDirectoryRecord.nameHash (Except.ok.inj hread)
        exact ⟨by omega, name, rfl, hmatches.mp ⟨hmatched, hhash⟩⟩
      · rintro ⟨htarget, _, hsame, hhash⟩
        obtain rfl := Except.ok.inj hsame
        obtain ⟨hmatched, hhash⟩ := hmatches.mpr hhash
        simp only
        rw [if_neg hmatched, if_neg (by omega), hhash, horiginal]
  · rw [length_terminated, getLast?_terminated, hfrontLength, List.length_append, hwordsLength]
    simp only [not_or, not_not, and_true, true_and]
    omega

/-- The overload with a name policy leaves only the target to the caller. -/
theorem decode_encodeAppleDirectoryRecordWithPolicy {data : UnicodeData} {policy : ApfsNamePolicy}
    {value : AppleDirectoryRecord} {record : BtreeRecord} (hfits : DirectoryFits value)
    (h : encodeAppleDirectoryRecordWithPolicy data value policy = .ok record) :
    ∃ name, decode data value.nameUtf8 policy = .ok name ∧
      (decodeDirectory data record policy =
          .ok { value.canonical policy name with
            extendedFields := orderedFields value.extendedFields } ↔
        value.fileId ≤ fsObjectIdMask) := by
  unfold encodeAppleDirectoryRecordWithPolicy at h
  split at h
  · cases h
  rename_i name hname
  refine ⟨name, hname, ?_⟩
  have hfitsCanonical : DirectoryFits (value.canonical policy name) := ⟨hfits.words, hfits.fields⟩
  exact (decode_encodeAppleDirectoryRecord data hfitsCanonical rfl h).trans
    ⟨fun hback => hback.1, fun htarget => ⟨htarget, name, hname, rfl⟩⟩

/-! ## All kinds together -/

/-- A value of one of the record kinds. A directory entry is encoded either with the hash it
carries or, as `namedDirectory`, with the hash the name policy of the volume gives. -/
inductive RecordValue where
  | fileExtent (value : AppleFileExtentRecord)
  | physicalExtent (value : ApplePhysicalExtentRecord)
  | dataStreamId (value : AppleDataStreamIdRecord)
  | directory (value : AppleDirectoryRecord)
  | namedDirectory (value : AppleDirectoryRecord)
  | siblingLink (value : AppleSiblingLinkRecord)
  | xattr (value : AppleXattrRecord)
  | inode (value : AppleInodeRecord)
  deriving DecidableEq, Repr

namespace RecordValue

/-- The fields of a value fit the types of the source, and an entry that says how it is
hashed is meant for the volume. -/
def FieldsFit (policy : ApfsNamePolicy) : RecordValue → Prop
  | .fileExtent value => FileExtentFits value
  | .physicalExtent value => IsInt32 value.referenceCount
  | .dataStreamId value => value.referenceCount < 256 ^ 4
  | .directory value => DirectoryFits value ∧ policy.usesHashedDirectoryKeys = value.hashedName
  | .namedDirectory value => DirectoryFits value
  | .siblingLink value => SiblingLinkFits value
  | .xattr value => value.flags < 256 ^ 2
  | .inode value => InodeFits value

/-- The encoder of each kind. -/
def encode (data : UnicodeData) (policy : ApfsNamePolicy) :
    RecordValue → Except String BtreeRecord
  | .fileExtent value => encodeAppleFileExtentRecord value
  | .physicalExtent value => encodeApplePhysicalExtentRecord value
  | .dataStreamId value => encodeAppleDataStreamIdRecord value
  | .directory value => encodeAppleDirectoryRecord value
  | .namedDirectory value => encodeAppleDirectoryRecordWithPolicy data value policy
  | .siblingLink value => encodeAppleSiblingLinkRecord value
  | .xattr value => encodeAppleXattrRecord value
  | .inode value => encodeAppleInodeRecord value

/-- The decoder of the kind of a value; a file extent is decoded with its block size. -/
def decodeAs (data : UnicodeData) (policy : ApfsNamePolicy) (record : BtreeRecord) :
    RecordValue → Except String RecordValue
  | .fileExtent value =>
    (decodeAppleFileExtentRecord record value.blockSize).map RecordValue.fileExtent
  | .physicalExtent _ => (decodeApplePhysicalExtentRecord record).map RecordValue.physicalExtent
  | .dataStreamId _ => (decodeAppleDataStreamIdRecord record).map RecordValue.dataStreamId
  | .directory _ => (decodeDirectory data record policy).map RecordValue.directory
  | .namedDirectory _ => (decodeDirectory data record policy).map RecordValue.namedDirectory
  | .siblingLink _ => (decodeSiblingLink data record).map RecordValue.siblingLink
  | .xattr _ => (decodeXattr record).map RecordValue.xattr
  | .inode _ => (decodeInode record).map RecordValue.inode

/-- The value with its extended fields in order; the overload with a name policy encodes
its canonical record. -/
def ordered (data : UnicodeData) (policy : ApfsNamePolicy) : RecordValue → RecordValue
  | .directory value =>
    .directory { value with extendedFields := orderedFields value.extendedFields }
  | .namedDirectory value =>
    match Names.decode data value.nameUtf8 policy with
    | .error _ => .namedDirectory value
    | .ok name =>
      .namedDirectory { value.canonical policy name with
        extendedFields := orderedFields value.extendedFields }
  | .inode value => .inode { value with extendedFields := orderedFields value.extendedFields }
  | value => value

/-- What the encoder leaves for its caller to see to. -/
def ReadsBack (data : UnicodeData) (policy : ApfsNamePolicy) : RecordValue → Prop
  | .fileExtent value => FileExtentReadsBack value
  | .directory value => DirectoryReadsBack data policy value
  | .namedDirectory value => value.fileId ≤ fsObjectIdMask
  | .siblingLink value => ∃ name, Names.decode data value.nameUtf8 {} = .ok name
  | .xattr value =>
    xattrNameIsUtf8 value.nameUtf8.length (value.nameUtf8.map UInt8.toNat) = true
  | .physicalExtent _ | .dataStreamId _ | .inode _ => True

end RecordValue

theorem map_eq_ok_iff {α β : Type} {wrap : α → β} (hinjective : Function.Injective wrap)
    {result : Except String α} {value : α} :
    result.map wrap = .ok (wrap value) ↔ result = .ok value := by
  cases result with
  | error reason => exact iff_of_false (fun hne => by cases hne) fun hne => by cases hne
  | ok found =>
    constructor
    · intro h
      rw [hinjective (Except.ok.inj h)]
    · intro h
      rw [Except.ok.inj h]
      rfl

/-- **An encoded record is decoded to the value it was made from exactly when the caller saw
to what the encoder left open.** -/
theorem readsBack_iff (data : UnicodeData) (policy : ApfsNamePolicy) (value : RecordValue)
    (record : BtreeRecord) (hfits : value.FieldsFit policy)
    (h : value.encode data policy = .ok record) :
    value.decodeAs data policy record = .ok (value.ordered data policy) ↔
      value.ReadsBack data policy := by
  cases value with
  | fileExtent value =>
    exact (map_eq_ok_iff fun _ _ => RecordValue.fileExtent.inj).trans
      (decode_encodeAppleFileExtentRecord hfits h)
  | physicalExtent value =>
    exact (map_eq_ok_iff fun _ _ => RecordValue.physicalExtent.inj).trans
      (iff_of_true (decode_encodeApplePhysicalExtentRecord h hfits) trivial)
  | dataStreamId value =>
    exact (map_eq_ok_iff fun _ _ => RecordValue.dataStreamId.inj).trans
      (iff_of_true (decode_encodeAppleDataStreamIdRecord hfits h) trivial)
  | directory value =>
    exact (map_eq_ok_iff fun _ _ => RecordValue.directory.inj).trans
      (decode_encodeAppleDirectoryRecord data hfits.1 hfits.2 h)
  | namedDirectory value =>
    obtain ⟨name, hname, hback⟩ := decode_encodeAppleDirectoryRecordWithPolicy hfits h
    unfold RecordValue.ordered
    simp only [hname]
    exact (map_eq_ok_iff fun _ _ => RecordValue.namedDirectory.inj).trans hback
  | siblingLink value =>
    exact (map_eq_ok_iff fun _ _ => RecordValue.siblingLink.inj).trans
      (decode_encodeAppleSiblingLinkRecord data hfits h)
  | xattr value =>
    exact (map_eq_ok_iff fun _ _ => RecordValue.xattr.inj).trans
      (decode_encodeAppleXattrRecord hfits h)
  | inode value =>
    exact (map_eq_ok_iff fun _ _ => RecordValue.inode.inj).trans
      (iff_of_true (decode_encodeAppleInodeRecord hfits h false) trivial)

/-- The last block of the address space and the one after it. -/
def wrappingExtent : AppleFileExtentRecord := ⟨20, 2 ^ 64 - 4096, 8192, 7, 0, 4096⟩

/-- Each encoder that misses a limit accepts a value its decoder refuses: a file extent
beyond 64 bits, an entry whose target is no object id, a sibling link named `..` and an
attribute whose name is no UTF-8. -/
theorem readsBack_refused :
    (∃ record, encodeAppleFileExtentRecord wrappingExtent = .ok record ∧
      decodeAppleFileExtentRecord record 4096 = .error "AppleFileExtentRecordInvalid") ∧
    (∃ record, encodeAppleDirectoryRecord ⟨2, 2 ^ 60, 0, 8, [0x61], false, 0, []⟩ = .ok record ∧
      decodeDirectory latinData record {} = .error "AppleDirectoryTargetInvalid") ∧
    (∃ record, encodeAppleSiblingLinkRecord ⟨20, 21, 2, [0x2E, 0x2E]⟩ = .ok record ∧
      decodeSiblingLink latinData record = .error "AppleRecordNameUtf8Invalid") ∧
    ∃ record, encodeAppleXattrRecord ⟨20, [0xFF], 2, []⟩ = .ok record ∧
      decodeXattr record = .error "AppleXattrNameUtf8Invalid" := by
  refine ⟨⟨_, rfl, ?_⟩, ⟨_, rfl, ?_⟩, ⟨_, rfl, ?_⟩, ⟨_, rfl, ?_⟩⟩ <;> decide +kernel

/-- A file extent of two blocks at the start of a stream. -/
theorem readsBack_iff_extent :
    (RecordValue.fileExtent ⟨20, 0, 8192, 7, 0, 4096⟩).decodeAs latinData {}
        ⟨layout [(8, 8 * 2 ^ 60 + 20), (8, 0)], layout [(8, 8192), (8, 7), (8, 0)]⟩ =
      .ok (.fileExtent ⟨20, 0, 8192, 7, 0, 4096⟩) :=
  (readsBack_iff latinData {} (.fileExtent ⟨20, 0, 8192, 7, 0, 4096⟩) _
    (show FileExtentFits _ by unfold FileExtentFits; decide) (by decide +kernel)).mpr
    (show FileExtentReadsBack _ by unfold FileExtentReadsBack; decide)

end Records
end ApfsAccess
