import ApfsAccess.Names.Codec
import ApfsAccess.Records.ExtendedFields

/-!
# The record encoders

The encoders of the transaction writer for file extents, data stream ids, inodes,
directory entries, sibling links and extended attributes, and the decoders of the
extended record codec that the extent graph has no use for: directory entries, data
stream ids and sibling links.  Every encoder keeps its own list of limits;
`ApfsAccess.Records.RoundTrip` sets them beside those of the decoders.
-/

namespace ApfsAccess
namespace Records

open Extents Format ByteBuffer Names

/-! ## File extents and data stream ids -/

/-- `EncodeAppleFileExtentRecord`. -/
def encodeAppleFileExtentRecord (value : AppleFileExtentRecord) : Except String BtreeRecord :=
  match makeFsKey value.objectId 8 with
  | .error reason => .error reason
  | .ok key =>
    if value.blockSize = 0 ∨ !isPowerOfTwo value.blockSize ∨ value.lengthBytes = 0 ∨
        2 ^ 56 - 1 < value.lengthBytes ∨ (value.physicalBlock = 0 ∧ value.cryptoId ≠ 0) ∨
        value.logicalAddress % value.blockSize ≠ 0 ∨
        value.lengthBytes % value.blockSize ≠ 0 then
      .error "AppleFileExtentRecordInvalid"
    else
      .ok
        { key := key ++ layout [(8, value.logicalAddress)]
          value := layout [(8, value.lengthBytes), (8, value.physicalBlock), (8, value.cryptoId)] }

/-- `AppleDataStreamIdRecord`. -/
structure AppleDataStreamIdRecord where
  objectId : ℕ
  referenceCount : ℕ
  deriving DecidableEq, Repr

/-- `EncodeAppleDataStreamIdRecord`. -/
def encodeAppleDataStreamIdRecord (value : AppleDataStreamIdRecord) :
    Except String BtreeRecord :=
  match makeFsKey value.objectId 6 with
  | .error _ => .error "AppleDataStreamIdRecordInvalid"
  | .ok key =>
    if value.referenceCount = 0 then .error "AppleDataStreamIdRecordInvalid"
    else .ok { key := key, value := layout [(4, value.referenceCount)] }

/-- `DecodeAppleDataStreamIdRecord`. -/
def decodeAppleDataStreamIdRecord (record : BtreeRecord) :
    Except String AppleDataStreamIdRecord :=
  if record.key.length ≠ 8 ∨ record.value.length ≠ 4 then
    .error "AppleDataStreamIdRecordInvalid"
  else
    let header := keyHeader record
    let referenceCount := (readU32LE record.value 0).getD 0
    let objectId := recordObjectId header
    if recordType header ≠ 6 ∨ objectId = 0 ∨ referenceCount = 0 then
      .error "AppleDataStreamIdRecordInvalid"
    else .ok ⟨objectId, referenceCount⟩

/-! ## Inodes -/

/-- The words before the extended fields of an inode. -/
def inodeWords (value : AppleInodeRecord) : List (ℕ × ℕ) :=
  [(8, value.parentId), (8, value.privateId), (8, value.createTime),
    (8, value.modificationTime), (8, value.changeTime), (8, value.accessTime),
    (8, value.internalFlags), (4, value.childrenOrLinks), (4, value.defaultProtectionClass),
    (4, value.writeGeneration), (4, value.bsdFlags), (4, value.owner), (4, value.group),
    (2, value.mode), (2, value.reservedPad), (8, value.uncompressedSize)]

/-- `EncodeAppleInodeRecord`. A link count that is negative, which the encoder refuses, is
no value of `AppleInodeRecord`. -/
def encodeAppleInodeRecord (value : AppleInodeRecord) : Except String BtreeRecord :=
  match makeFsKey value.objectId 3 with
  | .error reason => .error reason
  | .ok key =>
    if value.parentId = 0 ∨ value.privateId = 0 then .error "AppleInodeRecordInvalid"
    else
      match encodeExtendedFields value.extendedFields with
      | .error reason => .error reason
      | .ok extended =>
        let bytes := layout (inodeWords value) ++ extended
        if maximumFsValueBytes < bytes.length then .error "AppleInodeRecordTooLarge"
        else .ok { key := key, value := bytes }

/-! ## Directory entries -/

/-- `AppleDirectoryRecord`, with the name as the bytes of its UTF-8 text. -/
structure AppleDirectoryRecord where
  parentId : ℕ
  fileId : ℕ
  dateAdded : ℕ
  flags : ℕ
  nameUtf8 : Bytes
  hashedName : Bool
  nameHash : ℕ
  extendedFields : List AppleExtendedField
  deriving DecidableEq, Repr

/-- The length of the name with its terminator, packed with the hash where there is one. -/
def directoryNameWord (value : AppleDirectoryRecord) : Except String (ℕ × ℕ) :=
  let nameLength := value.nameUtf8.length + 1
  if value.hashedName then
    if 0x3ff < nameLength ∨ 0x3fffff < value.nameHash then .error "AppleDirectoryHashInvalid"
    else .ok (4, value.nameHash * 2 ^ 10 + nameLength)
  else if 2 ^ 16 - 1 < nameLength then .error "AppleDirectoryNameInvalid"
  else .ok (2, nameLength)

/-- `EncodeAppleDirectoryRecord` of a record that says how its name is hashed. -/
def encodeAppleDirectoryRecord (value : AppleDirectoryRecord) : Except String BtreeRecord :=
  match makeFsKey value.parentId 9 with
  | .error reason => .error reason
  | .ok header =>
    if value.fileId = 0 then .error "AppleDirectoryRecordInvalid"
    else
      match validateName value.nameUtf8 1022 with
      | .error reason => .error reason
      | .ok () =>
        match directoryNameWord value with
        | .error reason => .error reason
        | .ok word =>
          match encodeExtendedFields value.extendedFields with
          | .error reason => .error reason
          | .ok extended =>
            let key := header ++ layout [word] ++ (value.nameUtf8 ++ [0])
            let bytes := layout [(8, value.fileId), (8, value.dateAdded), (2, value.flags)] ++
              extended
            if maximumFsKeyBytes < key.length ∨ maximumFsValueBytes < bytes.length then
              .error "AppleDirectoryRecordTooLarge"
            else .ok { key := key, value := bytes }

/-- The hash a volume stores for a decoded name, zero where it stores none. -/
def ApfsName.storedHash (name : ApfsName) : ℕ :=
  match name.directoryHash with
  | some hash => hash.toNat
  | none => 0

/-- The record the overload with a name policy encodes: hashed as the policy says. -/
def AppleDirectoryRecord.canonical (value : AppleDirectoryRecord) (policy : ApfsNamePolicy)
    (name : ApfsName) : AppleDirectoryRecord :=
  { value with
    hashedName := policy.usesHashedDirectoryKeys
    nameHash := ApfsName.storedHash name }

/-- `EncodeAppleDirectoryRecord` with a name policy. -/
def encodeAppleDirectoryRecordWithPolicy (data : UnicodeData) (value : AppleDirectoryRecord)
    (policy : ApfsNamePolicy) : Except String BtreeRecord :=
  match decode data value.nameUtf8 policy with
  | .error (_, detail) => .error ("AppleDirectoryNameInvalid:" ++ detail)
  | .ok name => encodeAppleDirectoryRecord (value.canonical policy name)

/-- `ApfsNameCodec::MatchesHashedDirectoryKey`. -/
def matchesHashedDirectoryKey (name : ApfsName) (nameLengthAndHash : ℕ) : Bool :=
  match name.directoryHash with
  | none => false
  | some hash =>
    decide (name.originalUtf8.length < 0x3ff) &&
      nameLengthAndHash % 2 ^ 10 == name.originalUtf8.length + 1 &&
      nameLengthAndHash / 2 ^ 10 == hash.toNat

/-- `ApfsExtendedRecordCodec::DecodeDirectory`. -/
def decodeDirectory (data : UnicodeData) (record : BtreeRecord) (policy : ApfsNamePolicy) :
    Except String AppleDirectoryRecord :=
  let hashed := policy.usesHashedDirectoryKeys
  let offset := if hashed then 12 else 10
  let packed := if hashed then (readU32LE record.key 8).getD 0 else (readU16LE record.key 8).getD 0
  let length := if hashed then packed % 2 ^ 10 else packed
  match readU64LE record.key 0 with
  | none => .error "AppleDirectoryEnvelopeInvalid"
  | some header =>
    if recordType header ≠ 9 ∨ recordObjectId header = 0 ∨ record.value.length < 18 ∨
        record.key.length < offset ∨ length < 2 ∨ length ≠ record.key.length - offset ∨
        record.key.getLast? ≠ some 0 then
      .error "AppleDirectoryEnvelopeInvalid"
    else
      match decode data (slice record.key offset (length - 1)) policy with
      | .error _ => .error "AppleDirectoryNameHashInvalid"
      | .ok name =>
        if hashed && !matchesHashedDirectoryKey name packed then
          .error "AppleDirectoryNameHashInvalid"
        else
          let fileId := (readU64LE record.value 0).getD 0
          if fileId = 0 ∨ fsObjectIdMask < fileId then .error "AppleDirectoryTargetInvalid"
          else
            match decodeExtendedFields record.value 18 false with
            | .error reason => .error reason
            | .ok fields =>
              .ok
                { parentId := recordObjectId header
                  fileId := fileId
                  dateAdded := (readU64LE record.value 8).getD 0
                  flags := (readU16LE record.value 16).getD 0
                  nameUtf8 := name.originalUtf8
                  hashedName := hashed
                  nameHash := packed / 2 ^ 10
                  extendedFields := fields }

/-! ## Sibling links -/

/-- `AppleSiblingLinkRecord`, with the name as the bytes of its UTF-8 text. -/
structure AppleSiblingLinkRecord where
  inodeId : ℕ
  siblingId : ℕ
  parentId : ℕ
  nameUtf8 : Bytes
  deriving DecidableEq, Repr

/-- `EncodeAppleSiblingLinkRecord`. -/
def encodeAppleSiblingLinkRecord (value : AppleSiblingLinkRecord) : Except String BtreeRecord :=
  match makeFsKey value.inodeId 5 with
  | .error reason => .error reason
  | .ok key =>
    if value.siblingId = 0 ∨ value.parentId = 0 then .error "AppleSiblingLinkInvalid"
    else
      match validateName value.nameUtf8 (maximumFsValueBytes - 11) with
      | .error reason => .error reason
      | .ok () =>
        .ok
          { key := key ++ layout [(8, value.siblingId)]
            value := layout [(8, value.parentId), (2, value.nameUtf8.length + 1)] ++
              (value.nameUtf8 ++ [0]) }

/-- `DecodeTerminatedName`. -/
def decodeTerminatedName (data : UnicodeData) (bytes : Bytes) (offset encodedLength : ℕ) :
    Except String Bytes :=
  if encodedLength ≤ 1 ∨ bytes.length < offset ∨ encodedLength ≠ bytes.length - offset ∨
      bytes.getLast? ≠ some 0 then
    .error "AppleRecordNameLengthInvalid"
  else
    let name := slice bytes offset (encodedLength - 1)
    match decode data name {} with
    | .error _ => .error "AppleRecordNameUtf8Invalid"
    | .ok _ => .ok name

/-- `ApfsExtendedRecordCodec::DecodeSiblingLink`. -/
def decodeSiblingLink (data : UnicodeData) (record : BtreeRecord) :
    Except String AppleSiblingLinkRecord :=
  match parseExactKey record 5 16 with
  | .error reason => .error reason
  | .ok inodeId =>
    if record.value.length < 11 then .error "AppleSiblingLinkSizeInvalid"
    else
      let siblingId := (readU64LE record.key 8).getD 0
      let parentId := (readU64LE record.value 0).getD 0
      let nameLength := (readU16LE record.value 8).getD 0
      if siblingId = 0 ∨ parentId = 0 then .error "AppleSiblingLinkIdentityInvalid"
      else
        match decodeTerminatedName data record.value 10 nameLength with
        | .error reason => .error reason
        | .ok name => .ok ⟨inodeId, siblingId, parentId, name⟩

/-! ## Extended attributes -/

/-- `kAppleXattrFileSystemOwned`. -/
def xattrFileSystemOwned : ℕ := 0x0004

/-- The two storage bits of the flags of an attribute. -/
def xattrStorageFlags (flags : ℕ) : ℕ := flags &&& (xattrDataStream ||| xattrDataEmbedded)

/-- `EncodeAppleXattrRecord`. -/
def encodeAppleXattrRecord (value : AppleXattrRecord) : Except String BtreeRecord :=
  let storageFlags := xattrStorageFlags value.flags
  let streamId := if storageFlags = xattrDataStream then (readU64LE value.data 0).getD 0 else 0
  match makeFsKey value.objectId 4 with
  | .error reason => .error reason
  | .ok key =>
    match validateName value.nameUtf8 (maximumFsKeyBytes - 11) with
    | .error reason => .error reason
    | .ok () =>
      if (value.flags &&& (2 ^ 16 - 1 -
            (xattrDataStream ||| xattrDataEmbedded ||| xattrFileSystemOwned))) ≠ 0 ∨
          (storageFlags ≠ xattrDataStream ∧ storageFlags ≠ xattrDataEmbedded) ∨
          2 ^ 16 - 1 < value.data.length ∨
          (storageFlags = xattrDataStream ∧ (value.data.length ≠ xattrDataStreamBytes ∨
            streamId = 0 ∨ fsObjectIdMask < streamId)) ∨
          (storageFlags = xattrDataEmbedded ∧ maximumEmbeddedXattrBytes < value.data.length) then
        .error "AppleXattrRecordInvalid"
      else
        .ok
          { key := key ++ layout [(2, value.nameUtf8.length + 1)] ++ (value.nameUtf8 ++ [0])
            value := layout [(2, value.flags),
              (2, if storageFlags = xattrDataEmbedded then value.data.length else 0)] ++
              value.data }

end Records
end ApfsAccess
