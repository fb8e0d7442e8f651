import ApfsAccess.Library.OrderedMap
import ApfsAccess.Names.Codec

/-!
# The firmlink router

`TryBuild` reads the directories of a System and a Data volume and a list of records, each of which
crosses a directory of the one to a directory of the other.  `Forward` follows the crossings,
`Parent` goes from a directory that is crossed to back to the parent of the directory that it stands
for, and `TryRoute` does both on identities.

The maps of the router are lists of entries in the order of their keys.
-/

namespace ApfsAccess
namespace Firmlink

open Format Names OrderedMap

/-! ## What the router reads -/

/-- `ApfsVolumeDescriptor`. -/
structure ApfsVolumeDescriptor where
  objectId : ℕ
  volumeUuidHex : String
  groupUuidHex : String
  nameUtf8 : Bytes
  roleRaw : ℕ
  groupMetadataValid : Bool
  groupAssociationStatus : String
  locked : Bool
  incompatibleFeatures : ℕ
  superblockBlock : ℕ
  superblockXid : ℕ
  deriving DecidableEq

/-- `ApfsVolumeGroupDescriptor`. -/
structure ApfsVolumeGroupDescriptor where
  containerUuidHex : String
  groupUuidHex : String
  memberVolumeIds : List String
  associationStatus : String
  systemVolumeId : String
  dataVolumeId : String
  deriving DecidableEq

/-- `ApfsContainerDescriptor`. -/
structure ApfsContainerDescriptor where
  containerUuidHex : String
  memberStoreIds : List String
  volumes : List ApfsVolumeDescriptor
  groups : List ApfsVolumeGroupDescriptor
  checkpointXid : ℕ
  fusion : Bool
  deriving DecidableEq

/-- `ResolvedMountVolume`. -/
structure ResolvedMountVolume where
  containerUuidHex : String
  volumeUuidHex : String
  nameUtf8 : Bytes
  objectId : ℕ
  incompatibleFeatures : ℕ
  deriving DecidableEq

/-- `FirmlinkObjectIdentity`. -/
structure FirmlinkObjectIdentity where
  volume : ResolvedMountVolume
  objectId : ℕ
  checkpointXid : ℕ
  inodeXid : ℕ
  deriving DecidableEq

/-- `VerifiedFirmlinkRecord`. -/
structure VerifiedFirmlinkRecord where
  source : FirmlinkObjectIdentity
  target : FirmlinkObjectIdentity
  deriving DecidableEq

/-- `MetadataStore::NodeType`. -/
inductive NodeType where
  | regularFile
  | directory
  | symbolicLink
  | fifo
  | socket
  | characterDevice
  | blockDevice
  deriving DecidableEq, Repr

/-- `MetadataStore::InodeRecord`. -/
structure InodeRecord where
  objectId : ℕ
  parentObjectId : ℕ
  isDirectory : Bool
  xid : ℕ
  nameUtf8 : Bytes
  mode : ℕ
  nodeType : NodeType
  symlinkTargetUtf8 : Bytes
  deriving DecidableEq

/-- `MetadataStore::DirectoryLink`. -/
structure DirectoryLink where
  parentObjectId : ℕ
  entryName : WString
  childObjectId : ℕ
  xid : ℕ
  entryNameUtf8 : Bytes
  deriving DecidableEq

/-- `NativeApfsVolumeProjection`. -/
structure NativeApfsVolumeProjection where
  checkpointXid : ℕ
  volumeObjectId : ℕ
  volumeSuperblockBlock : ℕ
  rootDirectoryInode : ℕ
  incompatibleFeatures : ℕ
  namePolicy : ApfsNamePolicy
  inodes : List InodeRecord
  directoryLinks : List DirectoryLink
  deriving DecidableEq

/-! ## The router -/

/-- `Key`: the object ids of the volume and of the inode. -/
abbrev Key := ℕ × ℕ

/-- Lists of keys are searched with `==`. -/
scoped instance lawfulKey : LawfulBEq Key := inferInstance

/-- The order of `std::pair`. -/
def keyLt (left right : Key) : Bool :=
  decide (left.1 < right.1 ∨ left.1 = right.1 ∧ left.2 < right.2)

/-- `Directory`. -/
structure Directory where
  identity : FirmlinkObjectIdentity
  parent : Key
  deriving DecidableEq

/-- `ApfsFirmlinkRouter`. -/
structure ApfsFirmlinkRouter where
  directories : List (Key × Directory)
  forward : List (Key × Key)
  reverse : List (Key × Key)
  deriving DecidableEq

def kMaxTraversalSteps : ℕ := 256
def kMaxProjectionInodes : ℕ := 1000000
def kMaxDirectoryLinks : ℕ := 2000000
def kMaxRecords : ℕ := 65536

/-- `IsUuid`. -/
def isUuid (value : String) : Bool :=
  value.length == 32 && value != String.ofList (List.replicate 32 '0') &&
    value.toList.all fun c => ('0' ≤ c && c ≤ '9') || ('a' ≤ c && c ≤ 'f')

/-- `VolumeId`. -/
def volumeId (c : ApfsContainerDescriptor) (v : ApfsVolumeDescriptor) : String :=
  "apfs-vol:" ++ c.containerUuidHex ++ ":" ++ toString v.objectId

/-- `SameIdentity`. -/
def sameIdentity (a b : FirmlinkObjectIdentity) : Bool :=
  a.volume.containerUuidHex == b.volume.containerUuidHex &&
    a.volume.volumeUuidHex == b.volume.volumeUuidHex && a.volume.objectId == b.volume.objectId &&
    a.objectId == b.objectId && a.checkpointXid == b.checkpointXid && a.inodeXid == b.inodeXid

/-- The key that an identity is looked up by. -/
def FirmlinkObjectIdentity.key (identity : FirmlinkObjectIdentity) : Key :=
  (identity.volume.objectId, identity.objectId)

namespace ApfsFirmlinkRouter

/-- `directories_.at`, which throws when the key is not there. -/
def directoryAt (router : ApfsFirmlinkRouter) (key : Key) : Except String Directory :=
  match find? router.directories key with
  | none => .error "std::out_of_range"
  | some directory => .ok directory

/-- `Matches`. -/
def isMatch (router : ApfsFirmlinkRouter) (value : FirmlinkObjectIdentity) : Bool :=
  match find? router.directories value.key with
  | none => false
  | some directory => sameIdentity value directory.identity

/-- The loop of `Forward`, with the steps that are left and the keys seen. -/
def forwardFrom (router : ApfsFirmlinkRouter) : ℕ → List Key → Key → Except String Key
  | 0, _, _ => .error "FirmlinkForwardLimit"
  | steps + 1, seen, input =>
    if input ∈ seen then .error "FirmlinkForwardCycle"
    else
      match find? router.forward input with
      | none => .ok input
      | some next => forwardFrom router steps (input :: seen) next

/-- `Forward`. -/
def forwardKey (router : ApfsFirmlinkRouter) (input : Key) : Except String Key :=
  router.forwardFrom kMaxTraversalSteps [] input

/-- `Parent`. -/
def parentKey (router : ApfsFirmlinkRouter) (input : Key) : Except String Key := do
  let input := (find? router.reverse input).getD input
  let directory ← router.directoryAt input
  router.forwardKey directory.parent

/-- The loop of `ValidateChains` over the ancestors of a directory. -/
def chainFrom (router : ApfsFirmlinkRouter) (unified : Bool) :
    ℕ → List Key → Key → Except String Unit
  | 0, _, _ => .error "FirmlinkParentLimit"
  | steps + 1, seen, current =>
    if current ∈ seen then .error "FirmlinkParentCycle"
    else do
      let parent ← if unified then router.parentKey current
        else (router.directoryAt current).map Directory.parent
      let directory ← router.directoryAt current
      if parent = current ∧ directory.parent = current ∧ !contains router.reverse current then .ok ()
      else chainFrom router unified steps (current :: seen) parent

/-- `ValidateChains`. -/
def validateChains (router : ApfsFirmlinkRouter) : Except String Unit :=
  router.directories.forM fun entry => do
    let _ ← router.forwardKey entry.1
    [false, true].forM fun unified =>
      router.chainFrom unified kMaxTraversalSteps [] entry.1

/-- The loop of `ValidateUnnestedCrossings` over the ancestors of one end of a crossing. -/
def unnestedFrom (router : ApfsFirmlinkRouter) (edges : List (Key × Key)) :
    ℕ → Key → Except String Unit
  | 0, _ => .error "FirmlinkParentLimit"
  | steps + 1, current =>
    if contains edges current then .error "FirmlinkNestedCrossingUnsupported"
    else do
      let directory ← router.directoryAt current
      if directory.parent = current then .ok () else unnestedFrom router edges steps directory.parent

/-- `ValidateUnnestedCrossings`. -/
def validateUnnestedCrossings (router : ApfsFirmlinkRouter) : Except String Unit :=
  [router.forward, router.reverse].forM fun edges =>
    edges.forM fun edge => do
      let directory ← router.directoryAt edge.1
      router.unnestedFrom edges kMaxTraversalSteps directory.parent

end ApfsFirmlinkRouter

/-! ## The group -/

/-- The locals of the loop over the groups and of the loop over the volumes of `TryBuild`. -/
structure GroupVolumes where
  memberIds : List String := []
  volumeUuids : List String := []
  volumeOids : List ℕ := []
  systemVolume : Option ApfsVolumeDescriptor := none
  dataVolume : Option ApfsVolumeDescriptor := none
  deriving DecidableEq

/-- The loop over the groups. -/
def findGroup (groupUuidHex : String) :
    Option ApfsVolumeGroupDescriptor → List ApfsVolumeGroupDescriptor →
      Except String (Option ApfsVolumeGroupDescriptor)
  | group, [] => .ok group
  | group, g :: rest =>
    if g.groupUuidHex = groupUuidHex then
      if group.isSome then .error "FirmlinkGroupAmbiguous" else findGroup groupUuidHex (some g) rest
    else findGroup groupUuidHex group rest

/-- The body of the loop over the volumes.  The sets are lists here. -/
def volumeStep (container : ApfsContainerDescriptor) (groupUuidHex : String)
    (found : GroupVolumes) (v : ApfsVolumeDescriptor) : Except String GroupVolumes :=
  if v.objectId = 0 ∨ v.objectId ∈ found.volumeOids ∨
      v.volumeUuidHex ≠ "" ∧ v.volumeUuidHex ∈ found.volumeUuids then
    .error "FirmlinkVolumeIdentityInvalid"
  else
    let found := { found with
      volumeOids := v.objectId :: found.volumeOids
      volumeUuids := if v.volumeUuidHex ≠ "" then v.volumeUuidHex :: found.volumeUuids
        else found.volumeUuids }
    if v.groupUuidHex ≠ groupUuidHex then .ok found
    else if !v.groupMetadataValid || !isUuid v.volumeUuidHex ||
        v.groupAssociationStatus != "valid-system-data" then
      .error "FirmlinkGroupInvalid"
    else
      let found := { found with memberIds := volumeId container v :: found.memberIds }
      if v.roleRaw = 0x1 ∧ found.systemVolume.isSome then .error "FirmlinkGroupAmbiguous"
      else
        let found := if v.roleRaw = 0x1 then { found with systemVolume := some v } else found
        if v.roleRaw = 0x40 ∧ found.dataVolume.isSome then .error "FirmlinkGroupAmbiguous"
        else .ok (if v.roleRaw = 0x40 then { found with dataVolume := some v } else found)

/-- The group and its two volumes, with the checks of `TryBuild` on them.  Two sets are equal when each
has the elements of the other. -/
def groupVolumes (container : ApfsContainerDescriptor) (groupUuidHex : String) :
    Except String (ApfsVolumeDescriptor × ApfsVolumeDescriptor) := do
  match ← findGroup groupUuidHex none container.groups with
  | none => .error "FirmlinkGroupInvalid"
  | some group =>
    if group.associationStatus ≠ "valid-system-data" ∨
        group.containerUuidHex ≠ container.containerUuidHex then
      .error "FirmlinkGroupInvalid"
    else do
      let found ← container.volumes.foldlM (volumeStep container groupUuidHex) {}
      match found.systemVolume, found.dataVolume with
      | some systemVolume, some dataVolume =>
        if !(found.memberIds.all (· ∈ group.memberVolumeIds) &&
              group.memberVolumeIds.all (· ∈ found.memberIds)) ||
            found.memberIds.dedup.length != group.memberVolumeIds.length ||
            group.systemVolumeId != volumeId container systemVolume ||
            group.dataVolumeId != volumeId container dataVolume then
          .error "FirmlinkGroupMembershipMismatch"
        else .ok (systemVolume, dataVolume)
      | _, _ => .error "FirmlinkGroupMembershipMismatch"

/-! ## The directories of a volume -/

/-- The directory that an inode becomes. -/
def directoryOf (container : ApfsContainerDescriptor) (volume : ApfsVolumeDescriptor)
    (projection : NativeApfsVolumeProjection) (inode : InodeRecord) : Directory where
  identity := {
    volume := ⟨container.containerUuidHex, volume.volumeUuidHex, volume.nameUtf8, volume.objectId,
      volume.incompatibleFeatures⟩
    objectId := inode.objectId
    checkpointXid := projection.checkpointXid
    inodeXid := inode.xid }
  parent := (volume.objectId, inode.parentObjectId)

section Volume

variable (container : ApfsContainerDescriptor) (volume : ApfsVolumeDescriptor)
  (projection : NativeApfsVolumeProjection)

/-- The checks of `add_volume` before its loops. -/
def projectionMatches : Bool :=
  let policy := ApfsNamePolicy.fromIncompatibleFeatures volume.incompatibleFeatures
  !(volume.locked || projection.volumeObjectId != volume.objectId ||
    projection.checkpointXid != container.checkpointXid || volume.superblockXid == 0 ||
    decide (volume.superblockXid > container.checkpointXid) || volume.superblockBlock == 0 ||
    projection.volumeSuperblockBlock != volume.superblockBlock ||
    projection.incompatibleFeatures != volume.incompatibleFeatures ||
    decide (projection.namePolicy.caseMode ≠ policy.caseMode) ||
    decide (projection.namePolicy.normalizationMode ≠ policy.normalizationMode) ||
    projection.rootDirectoryInode == 0)

/-- The body of the loop over the inodes: the inodes seen, and the directories of the router. -/
def inodeStep (found : List (ℕ × InodeRecord) × List (Key × Directory)) (inode : InodeRecord) :
    Except String (List (ℕ × InodeRecord) × List (Key × Directory)) :=
  if inode.objectId = 0 ∨ contains found.1 inode.objectId then .error "FirmlinkDuplicateInode"
  else
    let inodes := (emplace (fun a b => decide (a < b)) found.1 inode.objectId inode).1
    if inode.isDirectory ≠ decide (inode.nodeType = .directory) then
      .error "FirmlinkDirectoryKindMismatch"
    else if !inode.isDirectory then .ok (inodes, found.2)
    else if inode.objectId ≠ projection.rootDirectoryInode ∧
        inode.parentObjectId = inode.objectId then
      .error "FirmlinkParentCycle"
    else if inode.xid = 0 ∨ inode.xid > projection.checkpointXid ∨ inode.symlinkTargetUtf8 ≠ [] ∨
        inode.mode &&& 0o170000 ≠ 0o040000 then
      .error "FirmlinkDirectoryMetadataInvalid"
    else
      .ok (inodes, (emplace keyLt found.2 (volume.objectId, inode.objectId)
        (directoryOf container volume projection inode)).1)

/-- The body of the loop over the links: the linked directories, and the names seen. -/
def linkStep (data : UnicodeData) (inodes : List (ℕ × InodeRecord))
    (directories : List (Key × Directory)) (found : List ℕ × List (ℕ × Bytes))
    (link : DirectoryLink) : Except String (List ℕ × List (ℕ × Bytes)) :=
  match find? inodes link.childObjectId with
  | none => .error "FirmlinkDirectoryLinkDangling"
  | some child =>
    if !contains directories (volume.objectId, link.parentObjectId) then
      .error "FirmlinkDirectoryLinkDangling"
    else if link.xid = 0 ∨ link.xid > projection.checkpointXid then
      .error "FirmlinkDirectoryLinkXidInvalid"
    else
      match decode data link.entryNameUtf8
          (ApfsNamePolicy.fromIncompatibleFeatures volume.incompatibleFeatures) with
      | .error _ => .error "FirmlinkDirectoryNameInvalid"
      | .ok name =>
        if name.windowsDisplay ≠ link.entryName ∨
            (link.parentObjectId, name.lookupKey) ∈ found.2 then
          .error "FirmlinkDirectoryNameInvalid"
        else
          let names := (link.parentObjectId, name.lookupKey) :: found.2
          if !child.isDirectory then .ok (found.1, names)
          else if link.childObjectId = projection.rootDirectoryInode ∨
              link.childObjectId ∈ found.1 ∨ link.parentObjectId ≠ child.parentObjectId ∨
              link.entryNameUtf8 ≠ child.nameUtf8 then
            .error "FirmlinkDirectoryParentAmbiguous"
          else .ok (link.childObjectId :: found.1, names)

/-- The body of the last loop of `add_volume`. -/
def parentCheck (directories : List (Key × Directory)) (linkedDirectories : List ℕ)
    (entry : Key × Directory) : Except String Unit :=
  if entry.1.1 ≠ volume.objectId then .ok ()
  else if !contains directories entry.2.parent ||
      (entry.1 != (volume.objectId, projection.rootDirectoryInode) &&
        !linkedDirectories.contains entry.1.2) then
    .error "FirmlinkDirectoryParentMissing"
  else .ok ()

/-- `add_volume`: the directories of the router with those of the volume. -/
def addVolume (data : UnicodeData) (directories : List (Key × Directory)) :
    Except String (List (Key × Directory)) :=
  if !projectionMatches container volume projection then .error "FirmlinkProjectionMismatch"
  else do
    let (inodes, directories) ←
      projection.inodes.foldlM (inodeStep container volume projection) ([], directories)
    let root : Key := (volume.objectId, projection.rootDirectoryInode)
    if (find? directories root).map Directory.parent ≠ some root then .error "FirmlinkRootInvalid"
    else do
      let (linkedDirectories, _) ← projection.directoryLinks.foldlM
        (linkStep volume projection data inodes directories) ([], [])
      directories.forM (parentCheck volume projection directories linkedDirectories)
      .ok directories

end Volume

/-! ## Building and routing -/

/-- The body of the loop over the records. -/
def recordStep (systemVolume dataVolume : ApfsVolumeDescriptor)
    (systemRoot dataRoot : ℕ) (table : ApfsFirmlinkRouter) (record : VerifiedFirmlinkRecord) :
    Except String ApfsFirmlinkRouter :=
  if !table.isMatch record.source || !table.isMatch record.target ||
      record.source.volume.objectId != systemVolume.objectId ||
      record.target.volume.objectId != dataVolume.objectId then
    .error "FirmlinkRecordIdentityInvalid"
  else
    let source := record.source.key
    let target := record.target.key
    if source.2 = systemRoot ∨ target.2 = dataRoot then .error "FirmlinkRootCrossingUnsupported"
    else
      let (forward, first) := emplace keyLt table.forward source target
      if !first then .error "FirmlinkMappingNotOneToOne"
      else
        let (reverse, second) := emplace keyLt table.reverse target source
        if !second then .error "FirmlinkMappingNotOneToOne"
        else .ok { table with forward, reverse }

/-- `TryBuild`. -/
def tryBuild (unicode : UnicodeData) (container : ApfsContainerDescriptor) (groupUuidHex : String)
    (system data : NativeApfsVolumeProjection) (records : List VerifiedFirmlinkRecord) :
    Except String ApfsFirmlinkRouter :=
  if !isUuid container.containerUuidHex || !isUuid groupUuidHex || container.checkpointXid == 0 ||
      container.fusion || container.memberStoreIds.length != 1 then
    .error "FirmlinkContainerUnsupported"
  else if records.length > kMaxRecords ∨ system.inodes.length > kMaxProjectionInodes ∨
      data.inodes.length > kMaxProjectionInodes - system.inodes.length ∨
      system.directoryLinks.length > kMaxDirectoryLinks ∨
      data.directoryLinks.length > kMaxDirectoryLinks - system.directoryLinks.length then
    .error "FirmlinkTableLimit"
  else do
    let (systemVolume, dataVolume) ← groupVolumes container groupUuidHex
    let directories ← addVolume container systemVolume system unicode []
    let directories ← addVolume container dataVolume data unicode directories
    let table ← records.foldlM (recordStep systemVolume dataVolume system.rootDirectoryInode
      data.rootDirectoryInode) ⟨directories, [], []⟩
    table.validateChains
    table.validateUnnestedCrossings
    .ok table

/-- `FirmlinkViewPolicy`. -/
inductive FirmlinkViewPolicy where
  | independentVolume
  | readOnlyUnifiedGroup
  deriving DecidableEq, Repr

/-- `FirmlinkTraversal`. -/
inductive FirmlinkTraversal where
  | forward
  | parent
  deriving DecidableEq, Repr

/-- `FirmlinkAccess`. -/
inductive FirmlinkAccess where
  | read
  | mutation
  deriving DecidableEq, Repr

/-- The traversal that `TryRoute` is asked for. -/
def ApfsFirmlinkRouter.traverse (router : ApfsFirmlinkRouter) (traversal : FirmlinkTraversal)
    (key : Key) : Except String Key :=
  if traversal = .forward then router.forwardKey key else router.parentKey key

/-- `TryRoute`; the enumerations have no other values here. -/
def ApfsFirmlinkRouter.tryRoute (router : ApfsFirmlinkRouter) (input : FirmlinkObjectIdentity)
    (view : FirmlinkViewPolicy) (traversal : FirmlinkTraversal) (access : FirmlinkAccess) :
    Except String FirmlinkObjectIdentity :=
  if view = .independentVolume then .ok input
  else if access ≠ .read then .error "FirmlinkUnifiedViewReadOnly"
  else if !router.isMatch input then .error "FirmlinkIdentityNotInPinnedView"
  else do
    let result ← router.traverse traversal input.key
    let directory ← router.directoryAt result
    .ok directory.identity

end Firmlink
end ApfsAccess
