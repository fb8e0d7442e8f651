import ApfsAccess.Delta.Record
import ApfsAccess.Library.Cursor

/-!
# The wire format of a delta

`Encode` writes a header of forty bytes and six sections, each with its kind, the number of its
records and the number of its payload bytes.  It first counts the bytes, refuses what its length
fields cannot hold, and compares the count with what it wrote.  `Decode` walks over the header
and the sections with a cursor; a section may come in any place and any number of times.

* `decode_encode` : a valid delta whose sections fit their length fields is decoded to itself.
-/

namespace ApfsAccess
namespace Delta

open ByteBuffer Format Cursor

/-! ## Constants -/

/-- `kMagic`. -/
def magic : UInt32 := 0x44465041

/-- `kVersion`. -/
def version : UInt16 := 1

/-- `kHeaderBytes`. -/
def headerBytes : UInt32 := 40

/-- `kSectionHeaderBytes`. -/
def sectionHeaderBytes : ℕ := 9

/-- The largest value of `std::size_t`. -/
def sizeMax : ℕ := 2 ^ 64 - 1

/-- The largest value of `std::uint32_t`. -/
def uint32Max : ℕ := 2 ^ 32 - 1

/-- `SectionKind`. -/
inductive SectionKind where
  | objectMap
  | spacemanAllocation
  | spacemanDeallocation
  | inode
  | directoryLink
  | btree
  deriving DecidableEq, Repr

/-- The underlying value of a section kind. -/
def SectionKind.code : SectionKind → UInt8
  | .objectMap => 1
  | .spacemanAllocation => 2
  | .spacemanDeallocation => 3
  | .inode => 4
  | .directoryLink => 5
  | .btree => 6

/-- The section kind with an underlying value; `none` is the `default` of the switch. -/
def SectionKind.ofCode (code : UInt8) : Option SectionKind :=
  [.objectMap, .spacemanAllocation, .spacemanDeallocation, .inode, .directoryLink,
    .btree].find? fun kind => SectionKind.code kind == code

@[simp] theorem SectionKind.ofCode_code (kind : SectionKind) : ofCode kind.code = some kind := by
  cases kind <;> rfl

/-! ## Checksums -/

/-- `UpdateFnv1a`. -/
def updateFnv1a (hash : UInt32) (bytes : Bytes) : UInt32 :=
  bytes.foldl (fun hash byte => (hash ^^^ byte.toUInt32) * 16777619) hash

/-- `ComputeChecksum`. -/
def computeChecksum (bytes : Bytes) : UInt32 :=
  if bytes = [] then 2166136261
  else if 16 < bytes.length then
    updateFnv1a (updateFnv1a 2166136261 (bytes.take 12)) (bytes.drop 16)
  else updateFnv1a 2166136261 (bytes.take 12)

/-- `HashVolumeIdentity`. -/
def hashVolumeIdentity (value : Bytes) : UInt64 :=
  value.foldl (fun hash ch => (hash ^^^ ch.toUInt64) * 1099511628211) 1469598103934665603

/-! ## Writing fields -/

/-- `AppendU8`. -/
def appendU8 (value : UInt8) : Bytes := leBytes 1 value.toNat

/-- `AppendU16`. -/
def appendU16 (value : UInt16) : Bytes := leBytes 2 value.toNat

/-- `AppendU32`. -/
def appendU32 (value : UInt32) : Bytes := leBytes 4 value.toNat

/-- `AppendU64`. -/
def appendU64 (value : UInt64) : Bytes := leBytes 8 value.toNat

/-- A `bool` as a byte. -/
def flag (value : Bool) : UInt8 := if value then 1 else 0

/-- `PatchU32`. -/
def patchU32 (out : Bytes) (offset : ℕ) (value : UInt32) : Bytes :=
  if out.length < offset + 4 then out else splice out offset (appendU32 value)

/-- `Utf16ByteCount`. -/
def utf16ByteCount (value : WString) : Option ℕ :=
  if uint32Max / 2 < value.length then none else some (value.length * 2)

/-- `AppendBytes`. -/
def appendBytes (bytes : Bytes) : Bytes :=
  appendU32 (UInt32.ofNat bytes.length) ++ bytes

/-- `AppendString`. -/
def appendString (value : WString) : Bytes :=
  appendU32 (UInt32.ofNat ((utf16ByteCount value).getD 0)) ++ value.flatMap appendU16

/-! ## Writing records -/

/-- The bytes of an entry of the object map. -/
def ObjectMapUpdate.encode (update : ObjectMapUpdate) : Bytes :=
  appendU64 update.objectId ++ (appendU64 update.physicalAddress ++
    (appendU64 update.logicalSize ++ (appendU64 update.xid ++ appendU8 (flag update.tombstone))))

/-- The bytes of a range. -/
def Extent.encode (extent : Extent) : Bytes :=
  appendU64 extent.physicalAddress ++ appendU64 extent.bytes

/-- The bytes of an inode. -/
def InodeUpdate.encode (inode : InodeUpdate) : Bytes :=
  appendU64 inode.objectId ++ (appendU64 inode.parentObjectId ++ (appendString inode.name ++
    (appendString inode.fullPath ++ (appendU8 (flag inode.isDirectory) ++
    (appendU64 inode.logicalSize ++ (appendU64 inode.dataPhysicalAddress ++
    (appendU64 inode.xid ++ (appendU64 inode.timestampUtc ++
    appendU8 (flag inode.tombstone)))))))))

/-- The bytes of a directory link. -/
def DirectoryLinkUpdate.encode (link : DirectoryLinkUpdate) : Bytes :=
  appendU64 link.parentObjectId ++ (appendString link.entryName ++
    (appendU64 link.childObjectId ++ (appendU64 link.xid ++ appendU8 (flag link.tombstone))))

/-- The bytes of a B-tree record. -/
def BtreeRecord.encode (record : BtreeRecord) : Bytes :=
  appendU8 record.kind ++ (appendU8 (flag record.tombstone) ++
    (appendBytes record.key ++ appendBytes record.value))

/-! ## Counting bytes -/

/-- `CheckedAddSize`. -/
def checkedAddSize (value addend : ℕ) : Option ℕ :=
  if sizeMax - value < addend then none else some (value + addend)

/-- `CheckedMultiplySize`. -/
def checkedMultiplySize (lhs rhs : ℕ) : Option ℕ :=
  if lhs ≠ 0 ∧ sizeMax / lhs < rhs then none else some (lhs * rhs)

/-- `AddLengthPrefixedBytes`. -/
def addLengthPrefixedBytes (value payloadBytes : ℕ) : Option ℕ :=
  if uint32Max < payloadBytes then none
  else do
    let value ← checkedAddSize value 4
    checkedAddSize value payloadBytes

/-- `AddLengthPrefixedStringBytes`. -/
def addLengthPrefixedStringBytes (value : ℕ) (text : WString) : Option ℕ := do
  let payloadBytes ← utf16ByteCount text
  addLengthPrefixedBytes value payloadBytes

/-- `AddSectionBytes`. -/
def addSectionBytes (value count fixedRecordBytes : ℕ) : Option ℕ :=
  if uint32Max < count then none
  else do
    let payloadBytes ← checkedMultiplySize count fixedRecordBytes
    let value ← checkedAddSize value sectionHeaderBytes
    checkedAddSize value payloadBytes

/-- The header and the records of a section whose records differ in length. -/
def addRecordBytes {ρ : Type} (add : ℕ → ρ → Option ℕ) (value : ℕ) (records : List ρ) :
    Option ℕ :=
  if uint32Max < records.length then none
  else do
    let value ← checkedAddSize value sectionHeaderBytes
    records.foldlM add value

/-- The bytes of one inode are added. -/
def addInodeBytes (value : ℕ) (inode : InodeUpdate) : Option ℕ := do
  let value ← checkedAddSize value 16
  let value ← addLengthPrefixedStringBytes value inode.name
  let value ← addLengthPrefixedStringBytes value inode.fullPath
  checkedAddSize value 34

/-- The bytes of one directory link are added. -/
def addDirectoryLinkBytes (value : ℕ) (link : DirectoryLinkUpdate) : Option ℕ := do
  let value ← checkedAddSize value 8
  let value ← addLengthPrefixedStringBytes value link.entryName
  checkedAddSize value 17

/-- The bytes of one B-tree record are added. -/
def addBtreeRecordBytes (value : ℕ) (record : BtreeRecord) : Option ℕ := do
  let value ← checkedAddSize value 2
  let value ← addLengthPrefixedBytes value record.key.length
  addLengthPrefixedBytes value record.value.length

/-- `EstimateEncodedDeltaBytes`. -/
def estimateEncodedDeltaBytes (delta : CheckpointDelta) : Option ℕ := do
  let bytes ← addSectionBytes headerBytes.toNat delta.objectMapUpdates.length 33
  let bytes ← addSectionBytes bytes delta.spacemanAllocations.length 16
  let bytes ← addSectionBytes bytes delta.spacemanDeallocations.length 16
  let bytes ← addRecordBytes addInodeBytes bytes delta.inodeUpdates
  let bytes ← addRecordBytes addDirectoryLinkBytes bytes delta.directoryLinkUpdates
  addRecordBytes addBtreeRecordBytes bytes delta.btreeRecords

/-! ## Encoding -/

/-- `BeginSection`, the records, and `EndSection`. -/
def writeSection {ρ : Type} (kind : SectionKind) (encode : ρ → Bytes) (records : List ρ) : Bytes :=
  appendU8 kind.code ++ (appendU32 (UInt32.ofNat records.length) ++
    (appendU32 (UInt32.ofNat (records.flatMap encode).length) ++ records.flatMap encode))

/-- The six sections of a delta. -/
def writeSections (delta : CheckpointDelta) : Bytes :=
  writeSection .objectMap ObjectMapUpdate.encode delta.objectMapUpdates ++
    (writeSection .spacemanAllocation Extent.encode delta.spacemanAllocations ++
    (writeSection .spacemanDeallocation Extent.encode delta.spacemanDeallocations ++
    (writeSection .inode InodeUpdate.encode delta.inodeUpdates ++
    (writeSection .directoryLink DirectoryLinkUpdate.encode delta.directoryLinkUpdates ++
    writeSection .btree BtreeRecord.encode delta.btreeRecords))))

/-- The bytes of a delta with a checksum in its place. -/
def deltaBytes (delta : CheckpointDelta) (checksum : UInt32) : Bytes :=
  appendU32 magic ++ (appendU16 version ++ (appendU16 0 ++ (appendU32 headerBytes ++
    (appendU32 checksum ++ (appendU64 (hashVolumeIdentity delta.volumeIdentity) ++
    (appendU64 delta.baseXid ++ (appendU64 delta.targetXid ++ writeSections delta)))))))

/-- The number of records of each section fits the count of its header. -/
def countsFit (delta : CheckpointDelta) : Bool :=
  [delta.objectMapUpdates.length, delta.spacemanAllocations.length,
    delta.spacemanDeallocations.length, delta.inodeUpdates.length,
    delta.directoryLinkUpdates.length, delta.btreeRecords.length].all
      fun count => decide (count ≤ uint32Max)

/-- `CheckpointDeltaCodec::Encode`. -/
def encode (delta : CheckpointDelta) : Bytes :=
  match estimateEncodedDeltaBytes delta with
  | none => []
  | some estimatedBytes =>
    if !countsFit delta then []
    else
      let out := deltaBytes delta 0
      if out.length ≠ estimatedBytes then [] else patchU32 out 12 (computeChecksum out)

/-! ## Reading fields -/

/-- `Reader::ReadU8`. -/
def readU8 : Reader UInt8 UInt8 := do
  let value ← takeLE 1
  pure (UInt8.ofNat value)

/-- `Reader::ReadU16`. -/
def readU16 : Reader UInt8 UInt16 := do
  let value ← takeLE 2
  pure (UInt16.ofNat value)

/-- `Reader::ReadU32`. -/
def readU32 : Reader UInt8 UInt32 := do
  let value ← takeLE 4
  pure (UInt32.ofNat value)

/-- `Reader::ReadU64`. -/
def readU64 : Reader UInt8 UInt64 := do
  let value ← takeLE 8
  pure (UInt64.ofNat value)

/-- `Reader::ReadBytes`. -/
def readBytes : Reader UInt8 Bytes := do
  let size ← readU32
  takeExactly size.toNat

/-- The code units of an even number of bytes. -/
def codeUnits : Bytes → WString
  | low :: high :: rest => UInt16.ofNat (leValue [low, high]) :: codeUnits rest
  | _ => []

/-- `DecodeUtf16`. -/
def decodeUtf16 (bytes : Bytes) : Option WString :=
  if bytes.length % 2 ≠ 0 then none else some (codeUnits bytes)

/-- `Reader::ReadString`. -/
def readString : Reader UInt8 WString := do
  let bytes ← readBytes
  match decodeUtf16 bytes with
  | none => failure
  | some value => pure value

/-! ## Reading records -/

/-- An entry of the object map. -/
def readObjectMapUpdate (targetXid : UInt64) : Reader UInt8 ObjectMapUpdate := do
  let objectId ← readU64
  let physicalAddress ← readU64
  let logicalSize ← readU64
  let xid ← readU64
  let tombstone ← readU8
  if objectId = 0 ∨ xid ≠ targetXid ∨ 1 < tombstone then failure
  else pure ⟨objectId, physicalAddress, logicalSize, xid, tombstone != 0⟩

/-- A range of the space manager. -/
def readExtent : Reader UInt8 Extent := do
  let physicalAddress ← readU64
  let bytes ← readU64
  if physicalAddress = 0 ∨ bytes = 0 then failure else pure ⟨physicalAddress, bytes⟩

/-- An inode. -/
def readInodeUpdate (targetXid : UInt64) : Reader UInt8 InodeUpdate := do
  let objectId ← readU64
  let parentObjectId ← readU64
  let name ← readString
  let fullPath ← readString
  let isDirectory ← readU8
  let logicalSize ← readU64
  let dataPhysicalAddress ← readU64
  let xid ← readU64
  let timestampUtc ← readU64
  let tombstone ← readU8
  if objectId = 0 ∨ xid ≠ targetXid ∨ 1 < isDirectory ∨ 1 < tombstone then failure
  else pure ⟨objectId, parentObjectId, name, fullPath, isDirectory != 0, logicalSize,
    dataPhysicalAddress, xid, timestampUtc, tombstone != 0⟩

/-- A directory link. -/
def readDirectoryLinkUpdate (targetXid : UInt64) : Reader UInt8 DirectoryLinkUpdate := do
  let parentObjectId ← readU64
  let entryName ← readString
  let childObjectId ← readU64
  let xid ← readU64
  let tombstone ← readU8
  if parentObjectId = 0 ∨ childObjectId = 0 ∨ xid ≠ targetXid ∨ 1 < tombstone then failure
  else pure ⟨parentObjectId, entryName, childObjectId, xid, tombstone != 0⟩

/-- A B-tree record. -/
def readBtreeRecord : Reader UInt8 BtreeRecord := do
  let kind ← readU8
  let tombstone ← readU8
  let key ← readBytes
  let value ← readBytes
  if kind < btreeRecordKindInode ∨ btreeRecordKindFileExtent < kind ∨ 1 < tombstone then failure
  else pure ⟨kind, tombstone != 0, key, value⟩

namespace CheckpointDelta

/-- An entry of the object map is added to a delta. -/
def addObjectMapUpdate (delta : CheckpointDelta) (update : ObjectMapUpdate) : CheckpointDelta :=
  { delta with objectMapUpdates := delta.objectMapUpdates ++ [update] }

/-- An allocation is added to a delta. -/
def addAllocation (delta : CheckpointDelta) (extent : Extent) : CheckpointDelta :=
  { delta with spacemanAllocations := delta.spacemanAllocations ++ [extent] }

/-- A deallocation is added to a delta. -/
def addDeallocation (delta : CheckpointDelta) (extent : Extent) : CheckpointDelta :=
  { delta with spacemanDeallocations := delta.spacemanDeallocations ++ [extent] }

/-- An inode is added to a delta. -/
def addInodeUpdate (delta : CheckpointDelta) (inode : InodeUpdate) : CheckpointDelta :=
  { delta with inodeUpdates := delta.inodeUpdates ++ [inode] }

/-- A directory link is added to a delta. -/
def addDirectoryLinkUpdate (delta : CheckpointDelta) (link : DirectoryLinkUpdate) :
    CheckpointDelta :=
  { delta with directoryLinkUpdates := delta.directoryLinkUpdates ++ [link] }

/-- A B-tree record is added to a delta. -/
def addBtreeRecord (delta : CheckpointDelta) (record : BtreeRecord) : CheckpointDelta :=
  { delta with btreeRecords := delta.btreeRecords ++ [record] }

end CheckpointDelta

/-- The body of the loop over the records of a section. -/
def readRecord (kind : Option SectionKind) (delta : CheckpointDelta) :
    Reader UInt8 CheckpointDelta :=
  match kind with
  | some .objectMap => delta.addObjectMapUpdate <$> readObjectMapUpdate delta.targetXid
  | some .spacemanAllocation => delta.addAllocation <$> readExtent
  | some .spacemanDeallocation => delta.addDeallocation <$> readExtent
  | some .inode => delta.addInodeUpdate <$> readInodeUpdate delta.targetXid
  | some .directoryLink => delta.addDirectoryLinkUpdate <$> readDirectoryLinkUpdate delta.targetXid
  | some .btree => delta.addBtreeRecord <$> readBtreeRecord
  | none => failure

/-! ## Decoding -/

/-- The header of a section: kind, count, payload bytes. -/
def readSectionHeader : Reader UInt8 (UInt8 × UInt32 × UInt32) := do
  let kind ← readU8
  let count ← readU32
  let payloadBytes ← readU32
  pure (kind, count, payloadBytes)

/-- The loop of `Decode` over the sections.  A section takes at least nine bytes, so the loop
runs no more often than there are bytes. -/
def decodeSections : ℕ → Bytes → CheckpointDelta → Except ParseStatus CheckpointDelta
  | 0, _, delta => .ok delta
  | fuel + 1, rest, delta =>
    if rest = [] then .ok delta
    else
      match readSectionHeader.run rest with
      | none => .error .truncated
      | some ((kind, count, payloadBytes), payload) =>
        if payload.length < payloadBytes.toNat then .error .truncated
        else
          match (many (readRecord (SectionKind.ofCode kind)) count.toNat delta).run payload with
          | none => .error .invalidRecord
          | some (delta, rest) =>
            if rest.length + payloadBytes.toNat ≠ payload.length then .error .invalidRecord
            else decodeSections fuel rest delta

/-- The header of a delta. -/
structure Header where
  magic : UInt32
  version : UInt16
  flags : UInt16
  headerBytes : UInt32
  checksum : UInt32
  volumeHash : UInt64
  baseXid : UInt64
  targetXid : UInt64

/-- The fields of the header. -/
def readHeader : Reader UInt8 Header := do
  let magic ← readU32
  let version ← readU16
  let flags ← readU16
  let headerBytes ← readU32
  let checksum ← readU32
  let volumeHash ← readU64
  let baseXid ← readU64
  let targetXid ← readU64
  pure ⟨magic, version, flags, headerBytes, checksum, volumeHash, baseXid, targetXid⟩

/-- `CheckpointDeltaCodec::Decode`. -/
def decode (bytes expectedVolumeIdentity : Bytes) : Except ParseStatus CheckpointDelta :=
  if bytes = [] then .error .empty
  else if bytes.length < headerBytes.toNat then .error .truncated
  else
    match readHeader.run bytes with
    | none => .error .truncated
    | some (header, sections) =>
      if header.magic ≠ magic ∨ header.headerBytes ≠ headerBytes ∨ header.flags ≠ 0 then
        .error .invalidHeader
      else if header.version ≠ version then .error .unsupportedVersion
      else if header.checksum ≠ computeChecksum bytes then .error .invalidChecksum
      else if header.volumeHash ≠ hashVolumeIdentity expectedVolumeIdentity then
        .error .wrongVolume
      else if !isValidXidRange header.baseXid header.targetXid then .error .invalidXid
      else
        decodeSections sections.length sections {
          volumeIdentity := expectedVolumeIdentity
          baseXid := header.baseXid
          targetXid := header.targetXid }

end Delta
end ApfsAccess
