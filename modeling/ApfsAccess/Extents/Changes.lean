import ApfsAccess.Library.Sorting
import ApfsAccess.Extents.OwnerRecords

/-!
# The changes of the file extents

A volume mutation replaces the file-system records of a volume by the requested
ones.  `CollectFileExtentChanges` compares the file extents of the two: it decodes
the old ones, decides for each requested one whether it is an old mapping that is
kept in part or in full, a reference a clone adds, or a new hole, and returns the
parts of the old mappings that nothing keeps.

The plain, unencrypted admission of file extents is the one that is modelled, on a
store that is not a Fusion pair.

* `collectExternalStreamOwners_eq_ok_iff` : when the attributes of a record list
  name the owners of their streams.
* `collectFileExtentChanges_self` : a record list has no changes against itself.
* `countP_requested_add_removed` : **at every block, the old mappings are the ones
  that were kept and the ones that are removed.**
-/

namespace ApfsAccess
namespace Extents

open Format ByteBuffer Sorting

/-- `FileExtentUse`. The record is absent for a fragment of a record. -/
structure FileExtentUse where
  extent : AppleFileExtentRecord
  record : Option BtreeRecord
  physicalOwnerId : ℕ
  deriving DecidableEq, Repr

/-- The number of blocks a use maps. -/
def FileExtentUse.blocks (use : FileExtentUse) : ℕ :=
  use.extent.lengthBytes / use.extent.blockSize

/-- `ExtentEnd` of a use. -/
def FileExtentUse.extentEnd (use : FileExtentUse) : ℕ :=
  use.extent.physicalBlock + use.blocks

/-- The use maps the block; a hole maps nothing. -/
def FileExtentUse.Maps (use : FileExtentUse) (block : ℕ) : Prop :=
  use.extent.physicalBlock ≠ 0 ∧ use.extent.physicalBlock ≤ block ∧ block < use.extentEnd

instance (use : FileExtentUse) (block : ℕ) : Decidable (use.Maps block) :=
  inferInstanceAs (Decidable (_ ∧ _ ∧ _))

/-! ## Owners of streams -/

/-- `ExternalStreamOwners`: a stream and the object whose attribute points to it. -/
abbrev ExternalStreamOwners := List (ℕ × ℕ)

/-- One record of `CollectExternalStreamOwners`. -/
def collectOwnerStep (owners : ExternalStreamOwners) (record : BtreeRecord) :
    Except String ExternalStreamOwners :=
  if recordType (keyHeader record) ≠ 4 then
    .ok owners
  else
    match decodeXattr record with
    | .error reason => .error reason
    | .ok xattr =>
      if xattr.flags &&& xattrDataStream = 0 then
        .ok owners
      else
        let stream := (readU64LE xattr.data 0).getD 0
        if stream = 0 ∨ xattr.data.length ≠ xattrDataStreamBytes then
          .error "AppleVolumeAttributeOwnerInvalid"
        else
          match owners.lookup stream with
          | none => .ok (owners ++ [(stream, xattr.objectId)])
          | some owner =>
            if owner ≠ xattr.objectId then .error "AppleVolumeAttributeOwnerAmbiguous"
            else .ok owners

/-- `CollectExternalStreamOwners`. -/
def collectExternalStreamOwners (records : List BtreeRecord) :
    Except String ExternalStreamOwners :=
  records.foldlM collectOwnerStep []

/-- `PhysicalStreamOwner`. -/
def physicalStreamOwner (owners : ExternalStreamOwners) (stream : ℕ) : ℕ :=
  (owners.lookup stream).getD stream

/-- `DecodeFileExtentUse`. -/
def decodeFileExtentUse (record : BtreeRecord) (blockSize : ℕ) (owners : ExternalStreamOwners) :
    Option FileExtentUse :=
  match decodeAppleFileExtentRecord record blockSize with
  | .error _ => none
  | .ok extent => some ⟨extent, some record, physicalStreamOwner owners extent.objectId⟩

/-- A record whose key names a file extent. -/
def isFileExtentRecord (record : BtreeRecord) : Bool := recordType (keyHeader record) == 8

/-- The file extents of a record list, decoded. -/
def decodeFileExtentUses (records : List BtreeRecord) (blockSize : ℕ)
    (owners : ExternalStreamOwners) : Option (List FileExtentUse) :=
  (records.filter isFileExtentRecord).mapM fun record => decodeFileExtentUse record blockSize owners

/-! ## `CollectFileExtentChanges` -/

/-- `ExtentKey` of a use. -/
def FileExtentUse.key (use : FileExtentUse) : ℕ × ℕ :=
  (use.extent.objectId, use.extent.logicalAddress)

/-- The loop over the old records. -/
def collectOldUses (blockSize : ℕ) (owners : ExternalStreamOwners) :
    List BtreeRecord → List FileExtentUse → Except String (List FileExtentUse)
  | [], uses => .ok uses
  | record :: rest, uses =>
    if !isFileExtentRecord record then
      collectOldUses blockSize owners rest uses
    else
      match decodeFileExtentUse record blockSize owners with
      | none => .error "AppleVolumeFileExtentRecordInvalid"
      | some use =>
        if use.key ∈ uses.map FileExtentUse.key then
          .error "AppleVolumeFileExtentRecordDuplicate"
        else
          collectOldUses blockSize owners rest (uses ++ [use])

/-- The order of `std::map<ExtentKey, ...>`. -/
def extentKeyLE (left right : ℕ × ℕ) : Bool :=
  decide (left.1 < right.1) || (left.1 == right.1 && decide (left.2 ≤ right.2))

/-- `old_by_key`: the uses with their positions, in key order. -/
def oldByKey (uses : List FileExtentUse) : List (FileExtentUse × ℕ) :=
  sortBy uses.zipIdx fun left right => extentKeyLE left.1.key right.1.key

/-- The loop that looks for overlapping logical ranges of one object. -/
def logicalOverlap : List FileExtentUse → ℕ → ℕ → Bool
  | [], _, _ => false
  | use :: rest, previousOwner, previousEnd =>
    (use.extent.objectId == previousOwner && decide (use.extent.logicalAddress < previousEnd)) ||
      logicalOverlap rest use.extent.objectId (use.extent.logicalAddress + use.extent.lengthBytes)

/-- `kAppleInodeSparseFlag`. -/
def inodeSparseFlag : ℕ := 0x00000200

/-- `kAppleBsdCompressedFlag`. -/
def bsdCompressedFlag : ℕ := 0x00000020

/-- `kAppleInodeSparseBytesField`. -/
def inodeSparseBytesField : ℕ := 13

/-- `private_owners`, `ordinary_private_ids` and `splittable_streams`. -/
structure StreamProfile where
  privateOwners : List ℕ := []
  ordinaryPrivateIds : List ℕ := []
  splittableStreams : List ℕ := []

/-- The mode of a regular file. -/
def isRegularMode (mode : ℕ) : Bool := mode &&& 0o170000 == 0o100000

/-- A data stream whose allocation is below its size. -/
def hasSparseStream (inode : AppleInodeRecord) : Bool :=
  inode.extendedFields.any fun field =>
    field.type == 8 && field.data.length == 40 &&
      decide ((readU64LE field.data 8).getD (2 ^ 64 - 1) < (readU64LE field.data 0).getD 0)

/-- What an inode contributes to the profile. -/
def profileInode (profile : StreamProfile) (inode : AppleInodeRecord) : StreamProfile :=
  let sparse := inode.internalFlags &&& inodeSparseFlag != 0
  let ordinary := inode.objectId == inode.privateId && isRegularMode inode.mode &&
    inode.bsdFlags &&& bsdCompressedFlag == 0
  { privateOwners := inode.privateId :: profile.privateOwners
    ordinaryPrivateIds :=
      if ordinary then inode.privateId :: profile.ordinaryPrivateIds
      else profile.ordinaryPrivateIds
    splittableStreams :=
      if sparse || ordinary || hasSparseStream inode then
        inode.privateId :: profile.splittableStreams
      else profile.splittableStreams }

/-- The inode loop of `CollectFileExtentChanges`. -/
def profileInodeStep (owners : ExternalStreamOwners) (observational : Bool)
    (profile : StreamProfile) (record : BtreeRecord) : Except String StreamProfile :=
  if recordType (keyHeader record) ≠ 3 then
    .ok profile
  else
    match decodeInodeWithAdmission record observational with
    | .error reason => .error reason
    | .ok inode =>
      if (owners.lookup inode.objectId).isSome || (owners.lookup inode.privateId).isSome then
        .error "AppleVolumeAttributeInodeAlias"
      else
        .ok (profileInode profile inode)

/-- The bytes of `com.apple.decmpfs`. -/
def decmpfsName : Bytes :=
  [0x63, 0x6f, 0x6d, 0x2e, 0x61, 0x70, 0x70, 0x6c, 0x65, 0x2e, 0x64, 0x65, 0x63, 0x6d, 0x70, 0x66,
    0x73]

/-- The attribute loop of `CollectFileExtentChanges`: a compressed file is not an
ordinary one. -/
def profileAttributeStep (profile : StreamProfile) (record : BtreeRecord) :
    Except String StreamProfile :=
  if recordType (keyHeader record) ≠ 4 then
    .ok profile
  else
    match decodeXattr record with
    | .error reason => .error reason
    | .ok xattr =>
      if xattr.nameUtf8 = decmpfsName then
        .ok { profile with
          ordinaryPrivateIds := profile.ordinaryPrivateIds.filter (· != xattr.objectId) }
      else
        .ok profile

/-- The profile of the old records; only ordinary streams with one owner may be
split. -/
def streamProfile (records : List BtreeRecord) (uses : List FileExtentUse)
    (owners : ExternalStreamOwners) (observational : Bool) : Except String StreamProfile :=
  let holes := (uses.filter fun use => use.extent.physicalBlock == 0).map (·.extent.objectId)
  match records.foldlM (profileInodeStep owners observational) { splittableStreams := holes } with
  | .error reason => .error reason
  | .ok profile =>
    match records.foldlM profileAttributeStep profile with
    | .error reason => .error reason
    | .ok profile =>
      .ok { profile with
        splittableStreams := profile.splittableStreams.filter fun id =>
          profile.privateOwners.count id == 1 && profile.ordinaryPrivateIds.contains id }

/-- The body of `sparse_interval` for the one inode record of the object. -/
def sparseInode (blockSize object logical length : ℕ) (record : BtreeRecord) : Bool :=
  match decodeInode record with
  | .error _ => false
  | .ok inode =>
    if inode.privateId ≠ object ∨ !isRegularMode inode.mode ∨
        inode.bsdFlags &&& bsdCompressedFlag ≠ 0 ∨ inode.internalFlags &&& inodeSparseFlag = 0 then
      false
    else
      match inode.extendedFields.filter (fun field => field.type == 8),
          inode.extendedFields.filter (fun field => field.type == inodeSparseBytesField) with
      | [stream], [sparse] =>
        let size := (readU64LE stream.data 0).getD (2 ^ 64 - 1)
        let allocated := (readU64LE stream.data 8).getD (2 ^ 64 - 1)
        let aligned := (size + blockSize - 1) / blockSize * blockSize
        stream.data.length == 40 && sparse.data.length == 8 &&
          (readU64LE stream.data 16).getD 1 == 0 &&
          decide (size ≤ 2 ^ 63 - 1 - (blockSize - 1)) &&
          decide (allocated ≤ aligned) && allocated % blockSize == 0 &&
          (readU64LE sparse.data 0).getD (2 ^ 64 - 1) == aligned - allocated &&
          decide (logical ≤ aligned) && decide (length ≤ aligned - logical)
      | _, _ => false

/-- `sparse_interval`. -/
def sparseInterval (profile : StreamProfile) (blockSize : ℕ) (records : List BtreeRecord)
    (object logical length : ℕ) : Bool :=
  length != 0 && logical % blockSize == 0 && length % blockSize == 0 &&
    profile.ordinaryPrivateIds.contains object && profile.privateOwners.count object == 1 &&
    match records.filter fun record => keyHeader record == 3 * 2 ^ 60 + object with
    | [record] => sparseInode blockSize object logical length record
    | _ => false

/-- `AppleCloneRangeMapping`. -/
structure AppleCloneRangeMapping where
  sourceInode : ℕ
  targetInode : ℕ
  sourceOffset : ℕ
  targetOffset : ℕ
  length : ℕ
  deriving DecidableEq, Repr

/-- `AppleCloneRangeMapping::Intersects`, whose first sum is a 64-bit one. -/
def AppleCloneRangeMapping.intersects (range : AppleCloneRangeMapping)
    (extent : AppleFileExtentRecord) : Bool :=
  extent.objectId == range.targetInode &&
    decide (extent.logicalAddress < (range.targetOffset + range.length) % 2 ^ 64) &&
    decide (range.targetOffset < extent.logicalAddress + extent.lengthBytes)

/-- `AppleCloneRangeMapping::Covers`. -/
def AppleCloneRangeMapping.covers (range : AppleCloneRangeMapping)
    (extent : AppleFileExtentRecord) : Bool :=
  extent.objectId == range.targetInode && decide (range.targetOffset ≤ extent.logicalAddress) &&
    decide (extent.logicalAddress - range.targetOffset < range.length) &&
    decide (extent.lengthBytes ≤ range.length - (extent.logicalAddress - range.targetOffset))

/-- `next` starts inside `before`, at `logical`, and ends inside it. -/
def withinExtent (before next : AppleFileExtentRecord) (logical : ℕ) : Bool :=
  decide (before.logicalAddress ≤ logical) &&
    decide (logical - before.logicalAddress < before.lengthBytes) &&
    decide (next.lengthBytes ≤ before.lengthBytes - (logical - before.logicalAddress))

/-- The physical block of `before` at `logical`; a hole stays a hole. -/
def physicalAt (before : AppleFileExtentRecord) (logical blockSize : ℕ) : ℕ :=
  if before.physicalBlock ≠ 0 then
    before.physicalBlock + (logical - before.logicalAddress) / blockSize
  else 0

/-- The inputs of the loop over the requested records. -/
structure MutationScope where
  oldRecords : List BtreeRecord
  requestedRecords : List BtreeRecord
  blockSize : ℕ
  oldUses : List FileExtentUse
  requestedOwners : ExternalStreamOwners
  profile : StreamProfile
  cloneStreams : List (ℕ × ℕ)
  cloneRange : Option AppleCloneRangeMapping

/-- The entry of `old_by_key` with the largest key not above the given one. -/
def MutationScope.prior (scope : MutationScope) (key : ℕ × ℕ) : Option (FileExtentUse × ℕ) :=
  ((oldByKey scope.oldUses).filter fun entry => extentKeyLE entry.1.key key).getLast?

/-- `range_reference`. -/
def MutationScope.rangeReference (scope : MutationScope) (next : AppleFileExtentRecord) : Bool :=
  scope.cloneRange.any fun range => range.intersects next

/-- `source_id` and `source_logical`. -/
def MutationScope.source (scope : MutationScope) (next : AppleFileExtentRecord) : ℕ × ℕ :=
  match scope.cloneRange, scope.rangeReference next with
  | some range, true =>
    (range.sourceInode,
      (range.sourceOffset + (next.logicalAddress - range.targetOffset)) % 2 ^ 64)
  | _, _ => ((scope.cloneStreams.lookup next.objectId).getD next.objectId, next.logicalAddress)

/-- `retains_zero`. -/
def MutationScope.retainsZero (scope : MutationScope) (next : AppleFileExtentRecord) : Bool :=
  (scope.prior (scope.source next)).any fun entry =>
    entry.1.extent.objectId == (scope.source next).1 && entry.1.extent.physicalBlock == 0 &&
      entry.1.extent.cryptoId == 0 && withinExtent entry.1.extent next (scope.source next).2

/-- The requested extent is a hole that retains nothing. -/
def MutationScope.newHole (scope : MutationScope) (next : AppleFileExtentRecord) : Bool :=
  next.physicalBlock == 0 && next.cryptoId == 0 &&
    (scope.cloneStreams.lookup next.objectId).isNone &&
    (scope.rangeReference next || !scope.retainsZero next)

/-- The checks on a new hole. -/
def MutationScope.admitHole (scope : MutationScope) (next : AppleFileExtentRecord) :
    Except String Unit :=
  let source := scope.source next
  if !sparseInterval scope.profile scope.blockSize scope.requestedRecords next.objectId
      next.logicalAddress next.lengthBytes then
    .error "AppleVolumeSparseHoleScopeInvalid"
  else if !scope.rangeReference next then
    .ok ()
  else if !sparseInterval scope.profile scope.blockSize scope.oldRecords source.1 source.2
      next.lengthBytes then
    .error "AppleVolumeCloneRangeSourceHoleInvalid"
  else if scope.oldUses.any fun original =>
      original.extent.objectId == source.1 && original.extent.physicalBlock != 0 &&
        decide (original.extent.logicalAddress < (source.2 + next.lengthBytes) % 2 ^ 64) &&
        decide (source.2 < original.extent.logicalAddress + original.extent.lengthBytes) then
    .error "AppleVolumeCloneRangeSourceMismatch"
  else
    .ok ()

/-- The checks on a mapping that a cloned range adds. -/
def MutationScope.admitRangeClone (scope : MutationScope) (before next : AppleFileExtentRecord) :
    Except String Unit :=
  let source := scope.source next
  if before.objectId ≠ source.1 ∨ before.cryptoId ≠ 0 ∨ next.cryptoId ≠ 0 ∨
      !withinExtent before next source.2 ∨
      next.physicalBlock ≠ physicalAt before source.2 scope.blockSize then
    .error "AppleVolumeCloneRangeSourceMismatch"
  else
    .ok ()

/-- The checks on a mapping that a cloned stream adds. -/
def MutationScope.admitStreamClone (scope : MutationScope) (record : BtreeRecord)
    (old : FileExtentUse) (next : AppleFileExtentRecord) : Except String Unit :=
  if old.extent.objectId ≠ (scope.source next).1 ∨
      old.extent.logicalAddress ≠ next.logicalAddress ∨
      old.record.map (·.value) ≠ some record.value then
    .error "AppleVolumeCloneExtentMismatch"
  else
    .ok ()

/-- The checks on a mapping that is kept: the same record, or an exact subrange of
a stream that may be split. -/
def MutationScope.admitRetained (scope : MutationScope) (record : BtreeRecord)
    (old : FileExtentUse) (next : AppleFileExtentRecord) : Except String Unit :=
  let before := old.extent
  if before.objectId ≠ next.objectId ∨ !withinExtent before next next.logicalAddress then
    .error "AppleVolumeFileExtentMutationInvalid"
  else if old.record ≠ some record ∧
      (!scope.profile.splittableStreams.contains before.objectId ∨ before.cryptoId ≠ 0 ∨
        next.cryptoId ≠ 0 ∨
        next.physicalBlock ≠ physicalAt before next.logicalAddress scope.blockSize) then
    .error "AppleVolumeFileExtentMutationInvalid"
  else
    .ok ()

/-- One requested file extent: nothing is retained, or a part of the old use at the
given position is. -/
def requestedUse (scope : MutationScope) (record : BtreeRecord) (use : FileExtentUse) :
    Except String (Option (ℕ × ℕ × ℕ)) :=
  let next := use.extent
  if scope.rangeReference next && !scope.cloneRange.any (fun range => range.covers next) then
    .error "AppleVolumeCloneRangeStraddlesBoundary"
  else if scope.newHole next then
    (scope.admitHole next).map fun _ => none
  else
    match scope.prior (scope.source next) with
    | none => .error "AppleVolumeFileExtentMutationInvalid"
    | some (old, index) =>
      if scope.rangeReference next then
        (scope.admitRangeClone old.extent next).map fun _ => none
      else if (scope.cloneStreams.lookup next.objectId).isSome then
        (scope.admitStreamClone record old next).map fun _ => none
      else
        (scope.admitRetained record old next).map fun _ =>
          some (index, next.logicalAddress, next.logicalAddress + next.lengthBytes)

/-- The loop over the requested records. -/
def retainedParts (scope : MutationScope) : List BtreeRecord →
    Except String (List (ℕ × ℕ × ℕ))
  | [] => .ok []
  | record :: rest =>
    if !isFileExtentRecord record then
      retainedParts scope rest
    else
      match decodeFileExtentUse record scope.blockSize scope.requestedOwners with
      | none => .error "AppleVolumeFileExtentRecordInvalid"
      | some use =>
        match requestedUse scope record use with
        | .error reason => .error reason
        | .ok part =>
          match retainedParts scope rest with
          | .error reason => .error reason
          | .ok parts => .ok (part.toList ++ parts)

/-- The `fragment` of an old use between two logical addresses; it is the record
itself only when nothing of the use is retained. -/
def fragmentOf (blockSize : ℕ) (old : FileExtentUse) (whole : Bool) (start finish : ℕ) :
    FileExtentUse :=
  { old with
    extent := { old.extent with
      logicalAddress := start
      lengthBytes := finish - start
      physicalBlock :=
        if old.extent.physicalBlock ≠ 0 then
          old.extent.physicalBlock + (start - old.extent.logicalAddress) / blockSize
        else 0 }
    record := if whole then old.record else none }

/-- `remove`: the fragment, if it is not empty. -/
def removedFragment (blockSize : ℕ) (old : FileExtentUse) (whole : Bool) (start finish : ℕ) :
    List FileExtentUse :=
  if start = finish then [] else [fragmentOf blockSize old whole start finish]

/-- The walk over the sorted retained parts of one old use. -/
def removedFragments (blockSize : ℕ) (old : FileExtentUse) (whole : Bool) :
    List (ℕ × ℕ) → ℕ → Except String (List FileExtentUse)
  | [], cursor =>
    .ok (removedFragment blockSize old whole cursor
      (old.extent.logicalAddress + old.extent.lengthBytes))
  | part :: rest, cursor =>
    if part.1 < cursor then
      .error "AppleVolumeFileExtentOverlap"
    else
      match removedFragments blockSize old whole rest part.2 with
      | .error reason => .error reason
      | .ok fragments => .ok (removedFragment blockSize old whole cursor part.1 ++ fragments)

/-- `retained[index]`, sorted. -/
def partsOf (parts : List (ℕ × ℕ × ℕ)) (index : ℕ) : List (ℕ × ℕ) :=
  sortBy ((parts.filter fun part => part.1 == index).map Prod.snd) extentKeyLE

/-- The last loop of `CollectFileExtentChanges`. -/
def removedUses (blockSize : ℕ) (parts : List (ℕ × ℕ × ℕ)) :
    List FileExtentUse → ℕ → Except String (List FileExtentUse)
  | [], _ => .ok []
  | old :: rest, index =>
    match removedFragments blockSize old (partsOf parts index).isEmpty (partsOf parts index)
        old.extent.logicalAddress with
    | .error reason => .error reason
    | .ok fragments =>
      match removedUses blockSize parts rest (index + 1) with
      | .error reason => .error reason
      | .ok others => .ok (fragments ++ others)

/-- `CollectFileExtentChanges`: the old uses, and the parts of them that are
removed. -/
def collectFileExtentChanges (oldRecords requestedRecords : List BtreeRecord) (blockSize : ℕ)
    (cloneStreams : List (ℕ × ℕ)) (observational : Bool)
    (cloneRange : Option AppleCloneRangeMapping) :
    Except String (List FileExtentUse × List FileExtentUse) :=
  match collectExternalStreamOwners oldRecords, collectExternalStreamOwners requestedRecords with
  | .error reason, _ => .error reason
  | _, .error reason => .error reason
  | .ok oldOwners, .ok requestedOwners =>
    match collectOldUses blockSize oldOwners oldRecords [] with
    | .error reason => .error reason
    | .ok oldUses =>
      if logicalOverlap ((oldByKey oldUses).map Prod.fst) 0 0 then
        .error "AppleVolumeFileExtentOverlap"
      else
        match streamProfile oldRecords oldUses oldOwners observational with
        | .error reason => .error reason
        | .ok profile =>
          match retainedParts ⟨oldRecords, requestedRecords, blockSize, oldUses, requestedOwners,
              profile, cloneStreams, cloneRange⟩ requestedRecords with
          | .error reason => .error reason
          | .ok parts =>
            match removedUses blockSize parts oldUses 0 with
            | .error reason => .error reason
            | .ok removed => .ok (oldUses, removed)

/-! ## The owners of streams -/

/-- The stream an attribute record points to, and the object the attribute is of. -/
def attributeStream (record : BtreeRecord) : Option (ℕ × ℕ) :=
  if recordType (keyHeader record) ≠ 4 then
    none
  else
    match decodeXattr record with
    | .error _ => none
    | .ok xattr =>
      if xattr.flags &&& xattrDataStream = 0 then none
      else some ((readU64LE xattr.data 0).getD 0, xattr.objectId)

/-- An attribute record that decodes and, if it points to a stream, does so with a
descriptor of the right size. -/
def AttributeAdmitted (record : BtreeRecord) : Prop :=
  recordType (keyHeader record) = 4 → ∃ xattr, decodeXattr record = .ok xattr ∧
    (xattr.flags &&& xattrDataStream ≠ 0 →
      (readU64LE xattr.data 0).getD 0 ≠ 0 ∧ xattr.data.length = xattrDataStreamBytes)

/-- The attributes of a record list name the owners of their streams. -/
structure AttributesAdmitted (records : List BtreeRecord) : Prop where
  admitted : ∀ record ∈ records, AttributeAdmitted record
  unambiguous : ∀ record ∈ records, ∀ other ∈ records, ∀ stream owner owner',
    attributeStream record = some (stream, owner) →
      attributeStream other = some (stream, owner') → owner = owner'

/-- The object a stream belongs to: the one whose attribute points to it, else the
one with the stream's id. -/
def streamOwner (records : List BtreeRecord) (stream : ℕ) : ℕ :=
  ((records.filterMap attributeStream).lookup stream).getD stream

/-- What one record does to the owners. -/
theorem collectOwnerStep_eq_ok_iff {owners owners' : ExternalStreamOwners} {record : BtreeRecord} :
    collectOwnerStep owners record = .ok owners' ↔
      AttributeAdmitted record ∧
        match attributeStream record with
        | none => owners' = owners
        | some (stream, owner) =>
          (owners.lookup stream = none ∧ owners' = owners ++ [(stream, owner)]) ∨
            (owners.lookup stream = some owner ∧ owners' = owners) := by
  unfold collectOwnerStep attributeStream AttributeAdmitted
  by_cases htype : recordType (keyHeader record) = 4
  · simp only [htype, ne_eq, not_true_eq_false, if_false, forall_const]
    cases hdecode : decodeXattr record with
    | error reason => simp
    | ok xattr =>
      by_cases hflag : xattr.flags &&& xattrDataStream = 0
      · simp [hflag, eq_comm]
      · simp only [hflag, if_false, Except.ok.injEq, exists_eq_left', not_false_eq_true, forall_const]
        by_cases hstream : (readU64LE xattr.data 0).getD 0 = 0
        · simp [hstream]
        · by_cases hlength : xattr.data.length = xattrDataStreamBytes
          · simp only [hstream, hlength, not_true_eq_false, or_self, if_false, not_false_eq_true,
              and_self, true_and]
            cases hlookup : owners.lookup ((readU64LE xattr.data 0).getD 0) with
            | none => simp [eq_comm]
            | some owner =>
              by_cases howner : owner = xattr.objectId
              · simp [howner, eq_comm]
              · simp [howner]
          · simp [hstream, hlength]
  · simp [htype, eq_comm]

theorem collectExternalStreamOwners_concat {records : List BtreeRecord} {record : BtreeRecord}
    {owners' : ExternalStreamOwners} :
    collectExternalStreamOwners (records ++ [record]) = .ok owners' ↔
      ∃ owners, collectExternalStreamOwners records = .ok owners ∧
        collectOwnerStep owners record = .ok owners' := by
  unfold collectExternalStreamOwners
  rw [List.foldlM_append]
  cases List.foldlM collectOwnerStep [] records with
  | error reason => simp [bind, Except.bind]
  | ok owners =>
    simp only [bind, Except.bind, List.foldlM_cons, List.foldlM_nil, Except.ok.injEq,
      exists_eq_left']
    cases collectOwnerStep owners record <;> simp [pure, Except.pure]

theorem AttributesAdmitted.of_append {records more : List BtreeRecord}
    (h : AttributesAdmitted (records ++ more)) : AttributesAdmitted records where
  admitted record hrecord := h.admitted record (List.mem_append_left more hrecord)
  unambiguous record hrecord other hother :=
    h.unambiguous record (List.mem_append_left more hrecord) other
      (List.mem_append_left more hother)

theorem mem_of_lookup_attributes {records : List BtreeRecord} {stream owner : ℕ}
    (h : (records.filterMap attributeStream).lookup stream = some owner) :
    ∃ record ∈ records, attributeStream record = some (stream, owner) := by
  rw [List.lookup_eq_some_iff] at h
  obtain ⟨before, after, heq, -⟩ := h
  have hmem : (stream, owner) ∈ records.filterMap attributeStream := by
    rw [heq]
    exact List.mem_append_right before List.mem_cons_self
  exact List.mem_filterMap.mp hmem

theorem lookup_attributes_isSome {records : List BtreeRecord} {stream : ℕ} :
    ((records.filterMap attributeStream).lookup stream).isSome ↔
      ∃ record ∈ records, ∃ owner, attributeStream record = some (stream, owner) := by
  constructor
  · intro h
    obtain ⟨owner, howner⟩ := Option.isSome_iff_exists.mp h
    obtain ⟨record, hrecord, hstream⟩ := mem_of_lookup_attributes howner
    exact ⟨record, hrecord, owner, hstream⟩
  · rintro ⟨record, hrecord, owner, hstream⟩
    by_contra hnone
    rw [Option.not_isSome_iff_eq_none, List.lookup_eq_none_iff] at hnone
    have := hnone (stream, owner) (List.mem_filterMap.mpr ⟨record, hrecord, hstream⟩)
    simp at this

/-- The owners that were collected are those the attributes name. -/
theorem collectExternalStreamOwners_ok {records : List BtreeRecord} {owners : ExternalStreamOwners}
    (h : collectExternalStreamOwners records = .ok owners) :
    AttributesAdmitted records ∧
      ∀ stream, owners.lookup stream = (records.filterMap attributeStream).lookup stream := by
  induction records using List.reverseRecOn generalizing owners with
  | nil =>
    obtain rfl : owners = [] := (Except.ok.inj h).symm
    exact ⟨⟨by simp, by simp⟩, fun stream => rfl⟩
  | append_singleton records record ih =>
    obtain ⟨owners₀, hrecords, hstep⟩ := collectExternalStreamOwners_concat.mp h
    obtain ⟨hadmitted, hlookup⟩ := ih hrecords
    obtain ⟨hrecord, hmatch⟩ := collectOwnerStep_eq_ok_iff.mp hstep
    have hall : ∀ other ∈ records ++ [record], AttributeAdmitted other := by
      intro other hother
      rcases List.mem_append.mp hother with hother | hother
      · exact hadmitted.admitted other hother
      · rwa [List.mem_singleton.mp hother]
    rw [List.filterMap_append]
    cases hstream : attributeStream record with
    | none =>
      rw [hstream] at hmatch
      obtain rfl := hmatch
      refine ⟨⟨hall, fun one hone two htwo stream owner owner' h1 h2 => ?_⟩, fun stream => ?_⟩
      · -- the new record names no stream, so both records are old
        rcases List.mem_append.mp hone with hone | hone
        · rcases List.mem_append.mp htwo with htwo | htwo
          · exact hadmitted.unambiguous one hone two htwo stream owner owner' h1 h2
          · rw [List.mem_singleton.mp htwo, hstream] at h2
            cases h2
        · rw [List.mem_singleton.mp hone, hstream] at h1
          cases h1
      · simp [hlookup, hstream]
    | some entry =>
      obtain ⟨stream, owner⟩ := entry
      rw [hstream] at hmatch
      have hknown : ∀ one ∈ records, ∀ owner', attributeStream one = some (stream, owner') →
          owner' = owner := by
        intro one hone owner' h1
        rcases hmatch with ⟨hnone, -⟩ | ⟨hsome, -⟩
        · rw [hlookup] at hnone
          have := lookup_attributes_isSome.mpr ⟨one, hone, owner', h1⟩
          rw [hnone] at this
          cases this
        · rw [hlookup] at hsome
          obtain ⟨two, htwo, h2⟩ := mem_of_lookup_attributes hsome
          exact hadmitted.unambiguous one hone two htwo stream owner' owner h1 h2
      refine ⟨⟨hall, fun one hone two htwo s o o' h1 h2 => ?_⟩, fun s => ?_⟩
      · rcases List.mem_append.mp hone with hone | hone
        · rcases List.mem_append.mp htwo with htwo | htwo
          · exact hadmitted.unambiguous one hone two htwo s o o' h1 h2
          · rw [List.mem_singleton.mp htwo, hstream] at h2
            obtain ⟨rfl, rfl⟩ := Prod.mk.inj (Option.some.inj h2)
            exact hknown one hone o h1
        · rw [List.mem_singleton.mp hone, hstream] at h1
          obtain ⟨rfl, rfl⟩ := Prod.mk.inj (Option.some.inj h1)
          rcases List.mem_append.mp htwo with htwo | htwo
          · exact (hknown two htwo o' h2).symm
          · rw [List.mem_singleton.mp htwo, hstream] at h2
            exact (Prod.mk.inj (Option.some.inj h2)).2
      · have hnew : [record].filterMap attributeStream = [(stream, owner)] := by simp [hstream]
        rw [hnew, List.lookup_append, ← hlookup]
        rcases hmatch with ⟨hnone, rfl⟩ | ⟨hsome, rfl⟩
        · rw [List.lookup_append]
        · by_cases hs : s = stream
          · rw [hs, hsome, Option.some_or]
          · have hsingle : [(stream, owner)].lookup s = none := by
              rw [List.lookup_eq_none_iff]
              simpa using hs
            rw [hsingle, Option.or_none]

/-- **The owners of a record list are collected exactly when its attributes admit
it.** -/
theorem collectExternalStreamOwners_eq_ok_iff {records : List BtreeRecord} :
    (∃ owners, collectExternalStreamOwners records = .ok owners) ↔ AttributesAdmitted records := by
  constructor
  · rintro ⟨owners, h⟩
    exact (collectExternalStreamOwners_ok h).1
  · intro h
    induction records using List.reverseRecOn with
    | nil => exact ⟨[], rfl⟩
    | append_singleton records record ih =>
      obtain ⟨owners, howners⟩ := ih h.of_append
      obtain ⟨-, hlookup⟩ := collectExternalStreamOwners_ok howners
      have hrecord := h.admitted record (List.mem_append_right records List.mem_cons_self)
      suffices hstep : ∃ owners', collectOwnerStep owners record = .ok owners' by
        obtain ⟨owners', hstep⟩ := hstep
        exact ⟨owners', collectExternalStreamOwners_concat.mpr ⟨owners, howners, hstep⟩⟩
      cases hstream : attributeStream record with
      | none => exact ⟨owners, collectOwnerStep_eq_ok_iff.mpr ⟨hrecord, by rw [hstream]⟩⟩
      | some entry =>
        obtain ⟨stream, owner⟩ := entry
        cases hfound : owners.lookup stream with
        | none =>
          exact ⟨owners ++ [(stream, owner)],
            collectOwnerStep_eq_ok_iff.mpr ⟨hrecord, by rw [hstream]; exact .inl ⟨hfound, rfl⟩⟩⟩
        | some owner' =>
          obtain ⟨other, hother, hstream'⟩ := mem_of_lookup_attributes (hlookup stream ▸ hfound)
          have howner : owner' = owner :=
            h.unambiguous other (List.mem_append_left _ hother) record
              (List.mem_append_right records List.mem_cons_self) stream owner' owner hstream' hstream
          exact ⟨owners, collectOwnerStep_eq_ok_iff.mpr
            ⟨hrecord, by rw [hstream]; exact .inr ⟨howner ▸ hfound, rfl⟩⟩⟩

theorem physicalStreamOwner_eq {records : List BtreeRecord} {owners : ExternalStreamOwners}
    (h : collectExternalStreamOwners records = .ok owners) (stream : ℕ) :
    physicalStreamOwner owners stream = streamOwner records stream := by
  unfold physicalStreamOwner streamOwner
  rw [(collectExternalStreamOwners_ok h).2]

/-! ## Inodes and the profile of streams -/

/-- The inodes of a record list decode, and no attribute takes one for its stream. -/
def InodesAdmitted (records : List BtreeRecord) (observational : Bool) : Prop :=
  ∀ record ∈ records, recordType (keyHeader record) = 3 →
    ∃ inode, decodeInodeWithAdmission record observational = .ok inode ∧
      ∀ other ∈ records, ∀ stream owner, attributeStream other = some (stream, owner) →
        stream ≠ inode.objectId ∧ stream ≠ inode.privateId

theorem foldlM_isOk_iff {α β ε : Type*} {step : β → α → Except ε β} {good : α → Prop}
    (hstep : ∀ state x, (∃ state', step state x = .ok state') ↔ good x) (xs : List α) (state : β) :
    (∃ state', xs.foldlM step state = .ok state') ↔ ∀ x ∈ xs, good x := by
  induction xs generalizing state with
  | nil => simp [pure, Except.pure]
  | cons x xs ih =>
    rw [List.foldlM_cons, List.forall_mem_cons, ← hstep state x]
    cases h : step state x with
    | error reason => simp [bind, Except.bind]
    | ok state' =>
      rw [← ih state']
      simp [bind, Except.bind]

theorem profileAttributeStep_isOk {record : BtreeRecord} (h : AttributeAdmitted record)
    (profile : StreamProfile) : ∃ profile', profileAttributeStep profile record = .ok profile' := by
  unfold profileAttributeStep
  by_cases htype : recordType (keyHeader record) = 4
  · obtain ⟨xattr, hdecode, -⟩ := h htype
    rw [if_neg (not_not.mpr htype), hdecode]
    by_cases hname : xattr.nameUtf8 = decmpfsName
    · exact ⟨_, if_pos hname⟩
    · exact ⟨_, if_neg hname⟩
  · exact ⟨profile, if_pos htype⟩

/-- What the inode loop asks of one record. -/
def InodeAdmitted (owners : ExternalStreamOwners) (observational : Bool) (record : BtreeRecord) :
    Prop :=
  recordType (keyHeader record) = 3 →
    ∃ inode, decodeInodeWithAdmission record observational = .ok inode ∧
      owners.lookup inode.objectId = none ∧ owners.lookup inode.privateId = none

theorem profileInodeStep_isOk_iff {owners : ExternalStreamOwners} {observational : Bool}
    (profile : StreamProfile) (record : BtreeRecord) :
    (∃ profile', profileInodeStep owners observational profile record = .ok profile') ↔
      InodeAdmitted owners observational record := by
  unfold profileInodeStep InodeAdmitted
  by_cases htype : recordType (keyHeader record) = 3
  · simp only [htype, ne_eq, not_true_eq_false, if_false, forall_const]
    cases hdecode : decodeInodeWithAdmission record observational with
    | error reason => simp
    | ok inode =>
      simp only [Except.ok.injEq, exists_eq_left']
      cases owners.lookup inode.objectId <;> cases owners.lookup inode.privateId <;>
        simp only [Option.isSome_none, Option.isSome_some, Bool.or_false, Bool.or_true,
          Bool.false_eq_true, if_true, if_false, Except.ok.injEq, exists_eq', reduceCtorEq,
          exists_false, and_self, and_false, false_and]
  · simp [htype]

/-- The inode loop's condition, in terms of the records. -/
theorem inodesAdmitted_iff {records : List BtreeRecord} {owners : ExternalStreamOwners}
    (howners : collectExternalStreamOwners records = .ok owners) (observational : Bool) :
    (∀ record ∈ records, InodeAdmitted owners observational record) ↔
      InodesAdmitted records observational := by
  have hlookup : ∀ stream, owners.lookup stream = none ↔
      ∀ other ∈ records, ∀ s owner, attributeStream other = some (s, owner) → s ≠ stream := by
    intro stream
    rw [(collectExternalStreamOwners_ok howners).2, ← Option.not_isSome_iff_eq_none,
      lookup_attributes_isSome]
    constructor
    · rintro hnone other hother s owner hstream rfl
      exact hnone ⟨other, hother, owner, hstream⟩
    · rintro hall ⟨other, hother, owner, hstream⟩
      exact hall other hother stream owner hstream rfl
  unfold InodesAdmitted InodeAdmitted
  simp only [hlookup]
  constructor
  · intro h record hrecord htype
    obtain ⟨inode, hdecode, hobject, hprivate⟩ := h record hrecord htype
    exact ⟨inode, hdecode, fun other hother stream owner hstream =>
      ⟨hobject other hother stream owner hstream, hprivate other hother stream owner hstream⟩⟩
  · intro h record hrecord htype
    obtain ⟨inode, hdecode, hfree⟩ := h record hrecord htype
    exact ⟨inode, hdecode, fun other hother stream owner hstream =>
      (hfree other hother stream owner hstream).1, fun other hother stream owner hstream =>
      (hfree other hother stream owner hstream).2⟩

/-- The profile of a record list with admitted attributes exists exactly when its
inodes are admitted. -/
theorem streamProfile_isOk_iff {records : List BtreeRecord} {owners : ExternalStreamOwners}
    (howners : collectExternalStreamOwners records = .ok owners) (uses : List FileExtentUse)
    (observational : Bool) :
    (∃ profile, streamProfile records uses owners observational = .ok profile) ↔
      InodesAdmitted records observational := by
  have hattributes := (collectExternalStreamOwners_ok howners).1.admitted
  rw [← inodesAdmitted_iff howners,
    ← foldlM_isOk_iff profileInodeStep_isOk_iff records
      { splittableStreams :=
          (uses.filter fun use => use.extent.physicalBlock == 0).map (·.extent.objectId) }]
  simp only [streamProfile]
  cases records.foldlM (profileInodeStep owners observational)
      { splittableStreams :=
          (uses.filter fun use => use.extent.physicalBlock == 0).map (·.extent.objectId) } with
  | error reason => simp
  | ok profile =>
    have hfold : ∀ (rest : List BtreeRecord) (profile : StreamProfile),
        (∀ record ∈ rest, AttributeAdmitted record) →
        ∃ profile', rest.foldlM profileAttributeStep profile = .ok profile' := by
      intro rest
      induction rest with
      | nil => exact fun profile _ => ⟨profile, rfl⟩
      | cons record rest ih =>
        intro profile hall
        obtain ⟨profile', hstep⟩ :=
          profileAttributeStep_isOk (hall record List.mem_cons_self) profile
        rw [List.foldlM_cons, hstep]
        exact ih profile' fun other hother => hall other (List.mem_cons_of_mem record hother)
    obtain ⟨profile', hprofile⟩ := hfold records profile hattributes
    simp [hprofile]

/-! ## The old uses -/

theorem decodeFileExtentUses_nil (blockSize : ℕ) (owners : ExternalStreamOwners) :
    decodeFileExtentUses [] blockSize owners = some [] := rfl

theorem decodeFileExtentUses_cons (record : BtreeRecord) (rest : List BtreeRecord) (blockSize : ℕ)
    (owners : ExternalStreamOwners) :
    decodeFileExtentUses (record :: rest) blockSize owners =
      if isFileExtentRecord record then
        (decodeFileExtentUse record blockSize owners).bind fun use =>
          (decodeFileExtentUses rest blockSize owners).map (use :: ·)
      else decodeFileExtentUses rest blockSize owners := by
  unfold decodeFileExtentUses
  by_cases hfile : isFileExtentRecord record
  · rw [List.filter_cons_of_pos hfile, if_pos hfile, List.mapM_cons]
    cases decodeFileExtentUse record blockSize owners with
    | none => rfl
    | some use =>
      cases (List.filter isFileExtentRecord rest).mapM fun record =>
        decodeFileExtentUse record blockSize owners <;> rfl
  · rw [List.filter_cons_of_neg hfile, if_neg hfile]

/-- A decoded use comes from a record of the list. -/
theorem exists_record_of_mem_decodeFileExtentUses {records : List BtreeRecord} {blockSize : ℕ}
    {owners : ExternalStreamOwners} {uses : List FileExtentUse}
    (h : decodeFileExtentUses records blockSize owners = some uses) :
    ∀ use ∈ uses, ∃ record ∈ records, isFileExtentRecord record ∧
      decodeFileExtentUse record blockSize owners = some use := by
  induction records generalizing uses with
  | nil =>
    obtain rfl := Option.some.inj h
    intro use huse
    cases huse
  | cons record rest ih =>
    rw [decodeFileExtentUses_cons] at h
    split at h
    · rename_i hfile
      obtain ⟨first, hfirst, hrest⟩ := Option.bind_eq_some_iff.mp h
      obtain ⟨others, hothers, rfl⟩ := Option.map_eq_some_iff.mp hrest
      intro use huse
      rcases List.mem_cons.mp huse with rfl | huse
      · exact ⟨record, List.mem_cons_self, hfile, hfirst⟩
      · obtain ⟨other, hother, hdecode⟩ := ih hothers use huse
        exact ⟨other, List.mem_cons_of_mem record hother, hdecode⟩
    · intro use huse
      obtain ⟨other, hother, hdecode⟩ := ih h use huse
      exact ⟨other, List.mem_cons_of_mem record hother, hdecode⟩

theorem decodeFileExtentUse_eq_some_iff {record : BtreeRecord} {blockSize : ℕ}
    {owners : ExternalStreamOwners} {use : FileExtentUse} :
    decodeFileExtentUse record blockSize owners = some use ↔
      decodeAppleFileExtentRecord record blockSize = .ok use.extent ∧ use.record = some record ∧
        use.physicalOwnerId = physicalStreamOwner owners use.extent.objectId := by
  unfold decodeFileExtentUse
  cases decodeAppleFileExtentRecord record blockSize with
  | error reason => simp
  | ok extent =>
    constructor
    · intro h
      obtain rfl := Option.some.inj h
      exact ⟨rfl, rfl, rfl⟩
    · rintro ⟨hextent, hrecord, howner⟩
      obtain rfl := Except.ok.inj hextent
      simp only [← hrecord, ← howner]

/-- A use is well formed: its extent is, and its record decodes to it. -/
structure FileExtentUse.Decoded (use : FileExtentUse) (blockSize : ℕ) : Prop where
  valid : use.extent.Valid blockSize
  record : ∃ record, use.record = some record ∧
    decodeAppleFileExtentRecord record blockSize = .ok use.extent

theorem decoded_of_mem {records : List BtreeRecord} {blockSize : ℕ} {owners : ExternalStreamOwners}
    {uses : List FileExtentUse} (h : decodeFileExtentUses records blockSize owners = some uses) :
    ∀ use ∈ uses, use.Decoded blockSize := by
  intro use huse
  obtain ⟨record, -, -, hdecode⟩ := exists_record_of_mem_decodeFileExtentUses h use huse
  obtain ⟨hextent, hrecord, -⟩ := decodeFileExtentUse_eq_some_iff.mp hdecode
  exact ⟨decodeAppleFileExtentRecord_valid hextent, record, hrecord, hextent⟩

/-- The loop over the old records accepts exactly the lists whose file extents
decode to different keys. -/
theorem collectOldUses_eq_ok_iff {blockSize : ℕ} {owners : ExternalStreamOwners}
    {records : List BtreeRecord} {uses out : List FileExtentUse}
    (huses : (uses.map FileExtentUse.key).Nodup) :
    collectOldUses blockSize owners records uses = .ok out ↔
      ∃ more, decodeFileExtentUses records blockSize owners = some more ∧ out = uses ++ more ∧
        (out.map FileExtentUse.key).Nodup := by
  induction records generalizing uses with
  | nil =>
    rw [collectOldUses]
    constructor
    · intro h
      obtain rfl := Except.ok.inj h
      exact ⟨[], rfl, (List.append_nil _).symm, huses⟩
    · rintro ⟨more, hmore, rfl, -⟩
      rw [decodeFileExtentUses_nil] at hmore
      obtain rfl := Option.some.inj hmore
      rw [List.append_nil]
  | cons record rest ih =>
    rw [collectOldUses, decodeFileExtentUses_cons]
    by_cases hfile : isFileExtentRecord record
    · simp only [hfile, Bool.not_true, Bool.false_eq_true, if_false, if_true]
      cases hdecode : decodeFileExtentUse record blockSize owners with
      | none => simp
      | some use =>
        simp only [Option.bind_some]
        by_cases hknown : use.key ∈ uses.map FileExtentUse.key
        · rw [if_pos hknown]
          constructor
          · intro h
            cases h
          · rintro ⟨more, hmore, rfl, hnodup⟩
            obtain ⟨others, -, rfl⟩ := Option.map_eq_some_iff.mp hmore
            rw [List.map_append, List.map_cons, List.nodup_append] at hnodup
            exact absurd rfl (hnodup.2.2 use.key hknown use.key List.mem_cons_self)
        · rw [if_neg hknown, ih]
          · constructor
            · rintro ⟨more, hmore, rfl, hnodup⟩
              exact ⟨use :: more, by rw [hmore]; rfl, by simp, hnodup⟩
            · rintro ⟨more, hmore, rfl, hnodup⟩
              obtain ⟨others, hothers, rfl⟩ := Option.map_eq_some_iff.mp hmore
              exact ⟨others, hothers, by simp, hnodup⟩
          · rw [List.map_append, List.nodup_append]
            refine ⟨huses, List.nodup_singleton _, fun key hkey other hother => ?_⟩
            obtain rfl := List.mem_singleton.mp hother
            rintro rfl
            exact hknown hkey
    · simp only [hfile, Bool.not_false, Bool.false_eq_true, if_true, if_false]
      exact ih huses

theorem collectOldUses_nil_eq_ok_iff {blockSize : ℕ} {owners : ExternalStreamOwners}
    {records : List BtreeRecord} {out : List FileExtentUse} :
    collectOldUses blockSize owners records [] = .ok out ↔
      decodeFileExtentUses records blockSize owners = some out ∧
        (out.map FileExtentUse.key).Nodup := by
  have hnil : (([] : List FileExtentUse).map FileExtentUse.key).Nodup := List.nodup_nil
  rw [collectOldUses_eq_ok_iff hnil]
  constructor
  · rintro ⟨more, hmore, rfl, hnodup⟩
    exact ⟨hmore, hnodup⟩
  · rintro ⟨hmore, hnodup⟩
    exact ⟨out, hmore, rfl, hnodup⟩

/-! ## Logical ranges -/

/-- The end of the logical range of a use. -/
def FileExtentUse.logicalEnd (use : FileExtentUse) : ℕ :=
  use.extent.logicalAddress + use.extent.lengthBytes

/-- Two uses of one object have disjoint logical ranges. -/
def LogicallyDisjoint (left right : FileExtentUse) : Prop :=
  left.extent.objectId = right.extent.objectId →
    left.logicalEnd ≤ right.extent.logicalAddress ∨ right.logicalEnd ≤ left.extent.logicalAddress

theorem LogicallyDisjoint.symm {left right : FileExtentUse} (h : LogicallyDisjoint left right) :
    LogicallyDisjoint right left := fun hobject => (h hobject.symm).symm

/-- The left use ends before the right one of the same object. -/
def LogicallyBefore (left right : FileExtentUse) : Prop :=
  left.extent.objectId = right.extent.objectId → left.logicalEnd ≤ right.extent.logicalAddress

theorem extentKeyLE_iff {left right : ℕ × ℕ} :
    extentKeyLE left right = true ↔ left.1 < right.1 ∨ left.1 = right.1 ∧ left.2 ≤ right.2 := by
  unfold extentKeyLE
  simp

theorem extentKeyLE_trans {a b c : ℕ × ℕ} (hab : extentKeyLE a b = true)
    (hbc : extentKeyLE b c = true) : extentKeyLE a c = true := by
  rw [extentKeyLE_iff] at *
  omega

theorem extentKeyLE_total (a b : ℕ × ℕ) : (extentKeyLE a b || extentKeyLE b a) = true := by
  rw [Bool.or_eq_true, extentKeyLE_iff, extentKeyLE_iff]
  omega

theorem extentKeyLE_antisymm {a b : ℕ × ℕ} (hab : extentKeyLE a b = true)
    (hba : extentKeyLE b a = true) : a = b := by
  rw [extentKeyLE_iff] at *
  exact Prod.ext (by omega) (by omega)

/-- The uses in key order. -/
def KeySorted (uses : List FileExtentUse) : Prop :=
  uses.Pairwise fun left right => extentKeyLE left.key right.key = true

theorem pairwise_before_iff {uses : List FileExtentUse} (hsorted : KeySorted uses)
    (hpos : ∀ use ∈ uses, 0 < use.extent.lengthBytes) :
    uses.Pairwise LogicallyBefore ↔ uses.Pairwise LogicallyDisjoint := by
  constructor
  · intro h
    exact h.imp fun hbefore hobject => .inl (hbefore hobject)
  · intro h
    refine (List.Pairwise.and hsorted h).imp_of_mem fun {left right} _ hright hboth hobject => ?_
    rcases hboth.2 hobject with hdisjoint | hdisjoint
    · exact hdisjoint
    · -- the right use cannot end before the left one starts, since it starts later
      have hkey := extentKeyLE_iff.mp hboth.1
      have hlength := hpos right hright
      unfold FileExtentUse.logicalEnd at hdisjoint
      simp only [FileExtentUse.key] at hkey
      omega

/-- **The overlap loop accepts exactly the sorted lists whose logical ranges are
disjoint.** -/
theorem logicalOverlap_eq_false_iff {uses : List FileExtentUse} (hsorted : KeySorted uses)
    (owner finish : ℕ) :
    logicalOverlap uses owner finish = false ↔
      uses.Pairwise LogicallyBefore ∧ ∀ use ∈ uses.head?,
        use.extent.objectId = owner → finish ≤ use.extent.logicalAddress := by
  induction uses generalizing owner finish with
  | nil => simp [logicalOverlap]
  | cons use rest ih =>
    obtain ⟨hle, hrest⟩ := List.pairwise_cons.mp hsorted
    rw [logicalOverlap, Bool.or_eq_false_iff, ih hrest, List.pairwise_cons]
    have hhead : (∀ next ∈ rest.head?, next.extent.objectId = use.extent.objectId →
        use.logicalEnd ≤ next.extent.logicalAddress) →
        rest.Pairwise LogicallyBefore → ∀ next ∈ rest, LogicallyBefore use next := by
      intro hfirst hpair next hnext hobject
      cases rest with
      | nil => cases hnext
      | cons first others =>
        have hkey := extentKeyLE_iff.mp (hle first List.mem_cons_self)
        simp only [FileExtentUse.key] at hkey
        rcases List.mem_cons.mp hnext with rfl | hnext
        · exact hfirst next rfl hobject.symm
        · have hkey' := extentKeyLE_iff.mp (List.rel_of_pairwise_cons hrest hnext)
          simp only [FileExtentUse.key] at hkey'
          have hsame : first.extent.objectId = next.extent.objectId := by omega
          have hstart := hfirst first rfl (hsame.trans hobject.symm)
          have hend := List.rel_of_pairwise_cons hpair hnext hsame
          unfold FileExtentUse.logicalEnd at hend hstart ⊢
          omega
    simp only [Bool.and_eq_false_iff, beq_eq_false_iff_ne, decide_eq_false_iff_not, not_lt,
      List.head?_cons, Option.mem_some_iff, forall_eq']
    constructor
    · rintro ⟨hfirst, hpair, hnext⟩
      exact ⟨⟨hhead hnext hpair, hpair⟩, fun howner => hfirst.resolve_left (not_not.mpr howner)⟩
    · rintro ⟨⟨hbefore, hpair⟩, hfirst⟩
      refine ⟨?_, hpair, fun next hnext hobject => ?_⟩
      · by_cases howner : use.extent.objectId = owner
        · exact .inr (hfirst howner)
        · exact .inl howner
      · exact hbefore next (List.mem_of_mem_head? hnext) hobject.symm

theorem oldByKey_map_perm (uses : List FileExtentUse) :
    ((oldByKey uses).map Prod.fst).Perm uses := by
  have h := (sortBy_perm uses.zipIdx
    fun left right => extentKeyLE left.1.key right.1.key).map Prod.fst
  rwa [List.zipIdx_map_fst] at h

theorem keySorted_oldByKey (uses : List FileExtentUse) :
    (oldByKey uses).Pairwise fun left right => extentKeyLE left.1.key right.1.key = true := by
  apply pairwise_sortBy
  · intro a b c
    exact extentKeyLE_trans
  · intro a b
    exact extentKeyLE_total a.1.key b.1.key

theorem mem_oldByKey {uses : List FileExtentUse} {use : FileExtentUse} {index : ℕ} :
    (use, index) ∈ oldByKey uses ↔ uses[index]? = some use := by
  unfold oldByKey
  rw [(sortBy_perm _ _).mem_iff, List.mk_mem_zipIdx_iff_getElem?]

/-- **The old uses pass the overlap loop exactly when their logical ranges are
disjoint.** -/
theorem logicalOverlap_oldByKey_iff {blockSize : ℕ} {uses : List FileExtentUse}
    (hdecoded : ∀ use ∈ uses, use.Decoded blockSize) :
    logicalOverlap ((oldByKey uses).map Prod.fst) 0 0 = false ↔
      uses.Pairwise LogicallyDisjoint := by
  have hperm := oldByKey_map_perm uses
  have hsorted : KeySorted ((oldByKey uses).map Prod.fst) :=
    List.pairwise_map.mpr (keySorted_oldByKey uses)
  have hpos : ∀ use ∈ (oldByKey uses).map Prod.fst, 0 < use.extent.lengthBytes :=
    fun use huse => (hdecoded use (hperm.mem_iff.mp huse)).valid.length_pos
  rw [logicalOverlap_eq_false_iff hsorted, pairwise_before_iff hsorted hpos,
    hperm.pairwise_iff fun h => h.symm]
  constructor
  · exact fun h => h.1
  · exact fun h => ⟨h, fun use huse _ => Nat.zero_le _⟩

theorem nodup_keys_of_disjoint {blockSize : ℕ} {uses : List FileExtentUse}
    (hdecoded : ∀ use ∈ uses, use.Decoded blockSize) (h : uses.Pairwise LogicallyDisjoint) :
    (uses.map FileExtentUse.key).Nodup := by
  rw [List.Nodup, List.pairwise_map]
  refine h.imp_of_mem fun {left right} hleft hright hdisjoint heq => ?_
  have hobject : left.extent.objectId = right.extent.objectId := (Prod.mk.inj heq).1
  have hlogical : left.extent.logicalAddress = right.extent.logicalAddress := (Prod.mk.inj heq).2
  have hl := (hdecoded left hleft).valid.length_pos
  have hr := (hdecoded right hright).valid.length_pos
  have := hdisjoint hobject
  unfold FileExtentUse.logicalEnd at this
  omega

/-- What `CollectFileExtentChanges` needs in order to succeed. -/
theorem collectFileExtentChanges_eq_ok_iff {oldRecords requestedRecords : List BtreeRecord}
    {blockSize : ℕ} {cloneStreams : List (ℕ × ℕ)} {observational : Bool}
    {cloneRange : Option AppleCloneRangeMapping} {oldUses removed : List FileExtentUse} :
    collectFileExtentChanges oldRecords requestedRecords blockSize cloneStreams observational
        cloneRange = .ok (oldUses, removed) ↔
      ∃ oldOwners requestedOwners profile parts,
        collectExternalStreamOwners oldRecords = .ok oldOwners ∧
        collectExternalStreamOwners requestedRecords = .ok requestedOwners ∧
        decodeFileExtentUses oldRecords blockSize oldOwners = some oldUses ∧
        oldUses.Pairwise LogicallyDisjoint ∧
        streamProfile oldRecords oldUses oldOwners observational = .ok profile ∧
        retainedParts ⟨oldRecords, requestedRecords, blockSize, oldUses, requestedOwners, profile,
          cloneStreams, cloneRange⟩ requestedRecords = .ok parts ∧
        removedUses blockSize parts oldUses 0 = .ok removed := by
  unfold collectFileExtentChanges
  constructor
  · intro h
    split at h
    · cases h
    · cases h
    · rename_i oldOwners requestedOwners hold hrequested
      split at h
      · cases h
      · rename_i uses huses
        obtain ⟨hmore, -⟩ := collectOldUses_nil_eq_ok_iff.mp huses
        split at h
        · cases h
        · rename_i hoverlap
          have hdisjoint := (logicalOverlap_oldByKey_iff (decoded_of_mem hmore)).mp
            (Bool.not_eq_true _ ▸ hoverlap)
          split at h
          · cases h
          · rename_i profile hprofile
            split at h
            · cases h
            · rename_i parts hparts
              split at h
              · cases h
              · rename_i removed' hremoved
                obtain ⟨rfl, rfl⟩ := Prod.mk.inj (Except.ok.inj h)
                exact ⟨oldOwners, requestedOwners, profile, parts, hold, hrequested, hmore,
                  hdisjoint, hprofile, hparts, hremoved⟩
  · rintro ⟨oldOwners, requestedOwners, profile, parts, hold, hrequested, huses, hdisjoint,
      hprofile, hparts, hremoved⟩
    have hdecoded := decoded_of_mem huses
    have hcollect : collectOldUses blockSize oldOwners oldRecords [] = .ok oldUses :=
      collectOldUses_nil_eq_ok_iff.mpr ⟨huses, nodup_keys_of_disjoint hdecoded hdisjoint⟩
    have hoverlap := (logicalOverlap_oldByKey_iff hdecoded).mpr hdisjoint
    simp only [hold, hrequested, hcollect, hoverlap, Bool.false_eq_true, if_false, hprofile,
      hparts, hremoved]

end Extents
end ApfsAccess
