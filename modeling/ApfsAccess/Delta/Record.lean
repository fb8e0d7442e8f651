import ApfsAccess.Format.Codec

/-!
# Checkpoint deltas

A checkpoint delta says what one transaction changes in the metadata of a volume: entries of the
object map, ranges of the space manager, inodes, directory links and B-tree records.  An entry
either replaces what a key had or, as a tombstone, removes it.  This module has the data and the
check that `ApplyDelta` makes on it.

The integers have the widths of the source.  A `std::wstring` is a list of code units, a
`std::string` any byte string, and the kind of a B-tree record its underlying value, since the
check compares it with the ends of the enumeration.
-/

namespace ApfsAccess
namespace Delta

open Format (Bytes)

/-- A `std::wstring`. -/
abbrev WString := List UInt16

/-- `CheckpointDeltaObjectMapUpdate`. -/
structure ObjectMapUpdate where
  objectId : UInt64 := 0
  physicalAddress : UInt64 := 0
  logicalSize : UInt64 := 0
  xid : UInt64 := 0
  tombstone : Bool := false
  deriving DecidableEq, Repr

/-- `CheckpointDeltaInodeUpdate`. -/
structure InodeUpdate where
  objectId : UInt64 := 0
  parentObjectId : UInt64 := 0
  name : WString := []
  fullPath : WString := []
  isDirectory : Bool := false
  logicalSize : UInt64 := 0
  dataPhysicalAddress : UInt64 := 0
  xid : UInt64 := 0
  timestampUtc : UInt64 := 0
  tombstone : Bool := false
  deriving DecidableEq, Repr

/-- `CheckpointDeltaDirectoryLinkUpdate`. -/
structure DirectoryLinkUpdate where
  parentObjectId : UInt64 := 0
  entryName : WString := []
  childObjectId : UInt64 := 0
  xid : UInt64 := 0
  tombstone : Bool := false
  deriving DecidableEq, Repr

/-- `ExtentAllocator::Extent`, as a delta carries it. -/
structure Extent where
  physicalAddress : UInt64 := 0
  bytes : UInt64 := 0
  deriving DecidableEq, Repr

/-- The ends of `BtreeRecordKind`. -/
def btreeRecordKindInode : UInt8 := 1

/-- The last kind. -/
def btreeRecordKindFileExtent : UInt8 := 3

/-- `BtreeRecord` of `BtreeMutationCodec`. -/
structure BtreeRecord where
  kind : UInt8 := btreeRecordKindInode
  tombstone : Bool := false
  key : Bytes := []
  value : Bytes := []
  deriving DecidableEq, Repr

/-- `CheckpointDelta`. -/
structure CheckpointDelta where
  volumeIdentity : Bytes := []
  baseXid : UInt64 := 0
  targetXid : UInt64 := 0
  objectMapUpdates : List ObjectMapUpdate := []
  spacemanAllocations : List Extent := []
  spacemanDeallocations : List Extent := []
  inodeUpdates : List InodeUpdate := []
  directoryLinkUpdates : List DirectoryLinkUpdate := []
  btreeRecords : List BtreeRecord := []
  deriving DecidableEq, Repr

/-- `CheckpointDeltaParseStatus`. -/
inductive ParseStatus where
  | ok
  | empty
  | unsupportedVersion
  | invalidHeader
  | invalidChecksum
  | wrongVolume
  | invalidXid
  | truncated
  | invalidRecord
  deriving DecidableEq, Repr

/-! ## Validity -/

/-- `IsValidXidRange`. -/
def isValidXidRange (baseXid targetXid : UInt64) : Bool :=
  baseXid != 0 && targetXid != 0 && decide (baseXid < targetXid) && targetXid == baseXid + 1

/-- The check on an entry of the object map. -/
def ObjectMapUpdate.isValid (targetXid : UInt64) (update : ObjectMapUpdate) : Bool :=
  !(update.objectId == 0 || update.xid != targetXid ||
    (!update.tombstone && (update.physicalAddress == 0 || update.logicalSize == 0)))

/-- The check on a range of the space manager. -/
def Extent.isValid (extent : Extent) : Bool :=
  !(extent.physicalAddress == 0 || extent.bytes == 0)

/-- The check on an inode. -/
def InodeUpdate.isValid (targetXid : UInt64) (inode : InodeUpdate) : Bool :=
  !(inode.objectId == 0 || inode.xid != targetXid || (!inode.tombstone && inode.fullPath == []))

/-- The check on a directory link. -/
def DirectoryLinkUpdate.isValid (targetXid : UInt64) (link : DirectoryLinkUpdate) : Bool :=
  !(link.parentObjectId == 0 || link.childObjectId == 0 || link.xid != targetXid ||
    link.entryName == [])

/-- The check on a B-tree record. -/
def BtreeRecord.isValid (record : BtreeRecord) : Bool :=
  !(record.key == [] || decide (record.kind < btreeRecordKindInode) ||
    decide (btreeRecordKindFileExtent < record.kind))

namespace CheckpointDelta

/-- The records of a delta pass their checks. -/
def hasValidRecords (delta : CheckpointDelta) : Bool :=
  delta.objectMapUpdates.all (·.isValid delta.targetXid) &&
    delta.spacemanAllocations.all (·.isValid) && delta.spacemanDeallocations.all (·.isValid) &&
    delta.inodeUpdates.all (·.isValid delta.targetXid) &&
    delta.directoryLinkUpdates.all (·.isValid delta.targetXid) &&
    delta.btreeRecords.all (·.isValid)

/-- `IsValidDeltaForApply`. -/
def isValidForApply (delta : CheckpointDelta) : Bool :=
  isValidXidRange delta.baseXid delta.targetXid && delta.volumeIdentity != [] &&
    delta.hasValidRecords

/-- What the check on the records says. -/
structure ValidRecords (delta : CheckpointDelta) : Prop where
  objectMap : ∀ update ∈ delta.objectMapUpdates, update.isValid delta.targetXid = true
  allocations : ∀ extent ∈ delta.spacemanAllocations, extent.isValid = true
  deallocations : ∀ extent ∈ delta.spacemanDeallocations, extent.isValid = true
  inodes : ∀ inode ∈ delta.inodeUpdates, inode.isValid delta.targetXid = true
  links : ∀ link ∈ delta.directoryLinkUpdates, link.isValid delta.targetXid = true
  btree : ∀ record ∈ delta.btreeRecords, record.isValid = true

theorem hasValidRecords_iff {delta : CheckpointDelta} :
    delta.hasValidRecords = true ↔ delta.ValidRecords := by
  unfold hasValidRecords
  simp only [Bool.and_eq_true, List.all_eq_true]
  constructor
  · rintro ⟨⟨⟨⟨⟨hobject, halloc⟩, hdealloc⟩, hinode⟩, hlink⟩, hbtree⟩
    exact ⟨hobject, halloc, hdealloc, hinode, hlink, hbtree⟩
  · rintro ⟨hobject, halloc, hdealloc, hinode, hlink, hbtree⟩
    exact ⟨⟨⟨⟨⟨hobject, halloc⟩, hdealloc⟩, hinode⟩, hlink⟩, hbtree⟩

theorem isValidForApply_iff {delta : CheckpointDelta} :
    delta.isValidForApply = true ↔ isValidXidRange delta.baseXid delta.targetXid = true ∧
      delta.volumeIdentity ≠ [] ∧ delta.ValidRecords := by
  unfold isValidForApply
  simp only [Bool.and_eq_true, bne_iff_ne, hasValidRecords_iff, and_assoc]

end CheckpointDelta

end Delta
end ApfsAccess
