import ApfsAccess.Btree.Keys

/-!
# The writer of trees

`SerializeAppleBtree` sorts its records, cuts them greedily into leaves, makes a
parent record for every node of a level, and repeats this until one level fits in a
root.  This module embeds it: the size test of a node, the layout of a node in its
block, the choice of the next child's identity, and the loop over the levels.

The two nested loops that fill the nodes of one level are one pass here: `pending`
is `node.records` of the node being filled.  The loop over the levels is given as
many rounds as the tree may have nodes; every round takes at least one, so the bound
is never reached (`buildLevels_rounds`).
-/

namespace ApfsAccess
namespace Btree

open Format ByteBuffer Extents Sorting

/-! ## Constants and options -/

/-- `kBtreeNodeHeaderBytes`. -/
def btreeNodeHeaderBytes : ℕ := 0x38

/-- `kBtreeInfoBytes`. -/
def btreeInfoBytes : ℕ := 40

/-- `kBtreeNodeRoot`. -/
def btreeNodeRoot : ℕ := 0x0001

/-- `kBtreeNodeLeaf`. -/
def btreeNodeLeaf : ℕ := 0x0002

/-- `kBtreeNodeFixedKv`. -/
def btreeNodeFixedKv : ℕ := 0x0004

/-- `kAppleBtreeAllowGhosts`. -/
def btreeAllowGhosts : ℕ := 0x04

/-- `kAppleBtreeEphemeral`. -/
def btreeEphemeral : ℕ := 0x08

/-- `kAppleBtreePhysical`. -/
def btreePhysical : ℕ := 0x10

/-- `kAppleBtreeKvNonAligned`. -/
def btreeKvNonAligned : ℕ := 0x40

/-- `kSupportedTreeFlags`: 64-bit keys, sequential insertion, ghosts, ephemeral,
physical and non-aligned. -/
def supportedTreeFlags : ℕ := 0x01 ||| 0x02 ||| 0x04 ||| 0x08 ||| 0x10 ||| 0x40

/-- `AppleBtreeOptions`.  The bounds are those of the source's field types. -/
structure AppleBtreeOptions where
  blockSize : ℕ
  xid : ℕ
  rootObjectId : ℕ
  rootPhysicalBlock : ℕ
  firstChildObjectId : ℕ
  firstChildPhysicalBlock : ℕ
  childObjectIds : List ℕ
  childPhysicalBlocks : List ℕ
  storageType : ℕ
  subtype : ℕ
  treeFlags : ℕ
  fixedKeySize : ℕ
  fixedValueSize : ℕ
  minimumLongestKey : ℕ
  minimumLongestValue : ℕ
  keyOrder : AppleBtreeKeyOrder
  maxNodes : ℕ
  xid_lt : xid < 2 ^ 64
  rootObjectId_lt : rootObjectId < 2 ^ 64
  firstChildObjectId_lt : firstChildObjectId < 2 ^ 64
  childObjectIds_lt : ∀ id ∈ childObjectIds, id < 2 ^ 64
  subtype_lt : subtype < 2 ^ 32
  treeFlags_lt : treeFlags < 2 ^ 32

/-! ## The size of a node -/

/-- `AlignUp`. -/
def alignUp (value alignment : ℕ) : ℕ :=
  if value % alignment = 0 then value else value + (alignment - value % alignment)

theorem le_alignUp (value alignment : ℕ) : value ≤ alignUp value alignment := by
  unfold alignUp
  split <;> omega

/-- `StoredLength`. -/
def storedLength (length : ℕ) (aligned : Bool) : ℕ :=
  if aligned then alignUp length 8 else length

theorem le_storedLength (length : ℕ) (aligned : Bool) : length ≤ storedLength length aligned := by
  unfold storedLength
  split
  · exact le_alignUp length 8
  · exact le_rfl

/-- `NodeUsesFixedKv`. -/
def nodeUsesFixedKv (options : AppleBtreeOptions) (leaf : Bool) : Bool :=
  options.fixedKeySize != 0 && (!leaf || options.fixedValueSize != 0)

/-- `(options.tree_flags & kAppleBtreeKvNonAligned) == 0`. -/
def nodeAligned (options : AppleBtreeOptions) : Bool :=
  options.treeFlags &&& btreeKvNonAligned == 0

/-- The size of one table entry. -/
def entrySize (fixed : Bool) : ℕ := if fixed then 4 else 8

/-- The size of the table of a node. -/
def tableBytes (options : AppleBtreeOptions) (leaf : Bool) (count : ℕ) : ℕ :=
  storedLength (count * entrySize (nodeUsesFixedKv options leaf)) (nodeAligned options)

/-- A ghost is an entry without a value, and only a leaf has them. -/
def isGhost (leaf : Bool) (record : BtreeRecord) : Bool := leaf && record.value.isEmpty

/-- The checks of `NodeFits` on one record, sizes apart. -/
def recordAdmitted (options : AppleBtreeOptions) (leaf : Bool) (record : BtreeRecord) : Bool :=
  let expectedValueSize := if leaf then options.fixedValueSize else 8
  let ghost := isGhost leaf record
  !(ghost && options.treeFlags &&& btreeAllowGhosts == 0) &&
    !((options.fixedKeySize != 0 && record.key.length != options.fixedKeySize) ||
      (!ghost && expectedValueSize != 0 && record.value.length != expectedValueSize)) &&
    !(decide (0xFFFF < record.key.length) || decide (0xFFFF < record.value.length))

/-- The loop of `NodeFits`. -/
def nodeFitsFrom (options : AppleBtreeOptions) (leaf : Bool) : ℕ → List BtreeRecord → Bool
  | used, [] => decide (used ≤ options.blockSize)
  | used, record :: records =>
    let keyBytes := storedLength record.key.length (nodeAligned options)
    let valueBytes := storedLength record.value.length (nodeAligned options)
    recordAdmitted options leaf record &&
      !(decide (options.blockSize < used) || decide (options.blockSize - used < keyBytes)) &&
      !(decide (options.blockSize < used + keyBytes) ||
        decide (options.blockSize - (used + keyBytes) < valueBytes)) &&
      nodeFitsFrom options leaf (used + keyBytes + valueBytes) records

/-- `NodeFits`. -/
def nodeFits (records : List BtreeRecord) (root leaf : Bool) (options : AppleBtreeOptions) : Bool :=
  nodeFitsFrom options leaf
    (btreeNodeHeaderBytes + tableBytes options leaf records.length +
      (if root then btreeInfoBytes else 0)) records

/-! ## The layout of a node -/

/-- `PendingTreeNode`. -/
structure PendingTreeNode where
  objectId : ℕ
  physicalBlock : ℕ
  level : ℕ
  records : List BtreeRecord
  deriving DecidableEq, Repr

/-- What the entry loop of `BuildNode` knows about its node. -/
structure NodeShape where
  leaf : Bool
  fixed : Bool
  aligned : Bool
  keyAreaStart : ℕ
  infoStart : ℕ

/-- The fields one pass of the entry loop writes. -/
def entryFields (shape : NodeShape) (toc keyCursor valueCursor : ℕ) (record : BtreeRecord) :
    List (ℕ × Bytes) :=
  let keyOffset := keyCursor - shape.keyAreaStart
  let valueOffset := if isGhost shape.leaf record then 0xFFFF else shape.infoStart - valueCursor
  [(toc, leBytes 2 keyOffset)] ++
    (if shape.fixed then [(toc + 2, leBytes 2 valueOffset)]
    else [(toc + 2, leBytes 2 record.key.length), (toc + 4, leBytes 2 valueOffset),
      (toc + 6, leBytes 2 record.value.length)]) ++
    [(keyCursor, record.key)] ++
    (if isGhost shape.leaf record then [] else [(valueCursor, record.value)])

/-- The entry loop of `BuildNode`: the buffer and both cursors, entry by entry. -/
def writeEntries (shape : NodeShape) :
    List BtreeRecord → ℕ → Bytes → ℕ → ℕ → Except String (Bytes × ℕ × ℕ)
  | [], _, bytes, keyCursor, valueCursor => .ok (bytes, keyCursor, valueCursor)
  | record :: records, toc, bytes, keyCursor, valueCursor =>
    let keySpan := storedLength record.key.length shape.aligned
    let valueSpan :=
      if isGhost shape.leaf record then 0 else storedLength record.value.length shape.aligned
    let valueCursor := valueCursor - valueSpan
    let valueOffset := if isGhost shape.leaf record then 0xFFFF else shape.infoStart - valueCursor
    if 0xFFFF < keyCursor - shape.keyAreaStart ∨ 0xFFFF < valueOffset then
      .error "AppleBtreeEntryOffsetOverflow"
    else
      writeEntries shape records (toc + entrySize shape.fixed)
        (writeAll bytes (entryFields shape toc keyCursor valueCursor record))
        (keyCursor + keySpan) valueCursor

/-- The totals that go into the footer of a root. -/
structure TreeTotals where
  longestKey : ℕ
  longestValue : ℕ
  leafKeyCount : ℕ
  nodeCount : ℕ

/-- The flags word of a node. -/
def nodeFlags (root leaf fixed : Bool) : ℕ :=
  (if root then btreeNodeRoot else 0) ||| (if leaf then btreeNodeLeaf else 0) |||
    (if fixed then btreeNodeFixedKv else 0)

/-- The base type of a node. -/
def nodeBaseType (root : Bool) : ℕ := if root then objectTypeBtree else objectTypeBtreeNode

/-- The header fields written before the entries. -/
def headerFields (node : PendingTreeNode) (root : Bool) (options : AppleBtreeOptions) :
    List (ℕ × Bytes) :=
  let leaf := node.level == 0
  [(0x08, leBytes 8 node.objectId), (0x10, leBytes 8 options.xid),
    (0x18, leBytes 4 (options.storageType ||| nodeBaseType root)),
    (0x1C, leBytes 4 options.subtype),
    (0x20, leBytes 2 (nodeFlags root leaf (nodeUsesFixedKv options leaf))),
    (0x22, leBytes 2 node.level), (0x24, leBytes 4 node.records.length), (0x28, leBytes 2 0),
    (0x2A, leBytes 2 (tableBytes options leaf node.records.length))]

/-- The header fields written after the entries. -/
def freeSpaceFields (keyUsed freeBytes : ℕ) : List (ℕ × Bytes) :=
  [(0x2C, leBytes 2 keyUsed), (0x2E, leBytes 2 freeBytes), (0x30, leBytes 2 0xFFFF),
    (0x34, leBytes 2 0xFFFF)]

/-- The footer of a root. -/
def infoFields (options : AppleBtreeOptions) (totals : TreeTotals) (infoStart : ℕ) :
    List (ℕ × Bytes) :=
  [(infoStart, leBytes 4 options.treeFlags), (infoStart + 4, leBytes 4 options.blockSize),
    (infoStart + 8, leBytes 4 options.fixedKeySize),
    (infoStart + 12, leBytes 4 options.fixedValueSize),
    (infoStart + 16, leBytes 4 totals.longestKey),
    (infoStart + 20, leBytes 4 totals.longestValue),
    (infoStart + 24, leBytes 8 totals.leafKeyCount), (infoStart + 32, leBytes 8 totals.nodeCount)]

/-- The shape of a node. -/
def nodeShape (node : PendingTreeNode) (root : Bool) (options : AppleBtreeOptions) : NodeShape :=
  let leaf := node.level == 0
  { leaf := leaf
    fixed := nodeUsesFixedKv options leaf
    aligned := nodeAligned options
    keyAreaStart := btreeNodeHeaderBytes + tableBytes options leaf node.records.length
    infoStart := if root then options.blockSize - btreeInfoBytes else options.blockSize }

/-- `BuildNode`. -/
def buildNode (node : PendingTreeNode) (root : Bool) (options : AppleBtreeOptions)
    (totals : TreeTotals) : Except String AppleSerializedObject :=
  let leaf := node.level == 0
  let shape := nodeShape node root options
  if !nodeFits node.records root leaf options then .error "AppleBtreeNodeOverflow"
  else if 0xFFFF < tableBytes options leaf node.records.length then
    .error "AppleBtreeTableOverflow"
  else
    let bytes := writeAll (List.replicate options.blockSize 0) (headerFields node root options)
    match writeEntries shape node.records btreeNodeHeaderBytes bytes shape.keyAreaStart
        shape.infoStart with
    | .error text => .error text
    | .ok (bytes, keyCursor, valueCursor) =>
      if valueCursor < keyCursor then .error "AppleBtreeNodeOverlap"
      else
        let keyUsed := keyCursor - shape.keyAreaStart
        let freeBytes := valueCursor - keyCursor
        if 0xFFFF < keyUsed ∨ 0xFFFF < freeBytes then .error "AppleBtreeFreeSpaceOverflow"
        else
          let bytes := writeAll bytes (freeSpaceFields keyUsed freeBytes)
          let bytes :=
            if root then writeAll bytes (infoFields options totals shape.infoStart) else bytes
          match finalizeAppleObjectChecksum bytes with
          | .error text => .error text
          | .ok bytes =>
            .ok
              { location :=
                  { objectId := node.objectId
                    xid := options.xid
                    physicalBlock := node.physicalBlock
                    type := options.storageType ||| nodeBaseType root
                    subtype := options.subtype
                    sizeBytes := options.blockSize }
                bytes := bytes }

/-! ## The identity of a child -/

/-- The first half of `NextChildIdentity`: the identity in the given lists, or counted from
the first child. -/
def allocatedIdentity (options : AppleBtreeOptions) (childIndex : ℕ) : Except String (ℕ × ℕ) :=
  if options.childObjectIds ≠ [] ∨ options.childPhysicalBlocks ≠ [] then
    if options.childObjectIds.length ≠ options.childPhysicalBlocks.length then
      .error "AppleBtreeChildAllocationInvalid"
    else
      match options.childObjectIds[childIndex]?, options.childPhysicalBlocks[childIndex]? with
      | some oid, some block =>
        if oid = 0 ∨ block = 0 then .error "AppleBtreeChildAllocationInvalid"
        else if oid ∈ options.childObjectIds.take childIndex ∨
            block ∈ options.childPhysicalBlocks.take childIndex then
          .error "AppleBtreeAllocationOverlap"
        else .ok (oid, block)
      | _, _ => .error "AppleBtreeChildAllocationInvalid"
  else if options.firstChildObjectId = 0 ∨ options.firstChildPhysicalBlock = 0 ∨
      2 ^ 64 - 1 - options.firstChildObjectId < childIndex ∨
      2 ^ 64 - 1 - options.firstChildPhysicalBlock < childIndex then
    .error "AppleBtreeChildAllocationInvalid"
  else
    .ok (options.firstChildObjectId + childIndex, options.firstChildPhysicalBlock + childIndex)

/-- `NextChildIdentity`: the object id and the block of a child. -/
def nextChildIdentity (options : AppleBtreeOptions) (childIndex : ℕ) : Except String (ℕ × ℕ) :=
  match allocatedIdentity options childIndex with
  | .error text => .error text
  | .ok (oid, block) =>
    if oid = options.rootObjectId ∨ block = options.rootPhysicalBlock then
      .error "AppleBtreeAllocationOverlap"
    else if options.storageType &&& objectStorageTypeMask = objectPhysical ∧ oid ≠ block then
      .error "AppleBtreePhysicalIdentityInvalid"
    else .ok (oid, block)

/-! ## Levels -/

/-- The end of a node in the level loop: it must not be empty and gets an identity. -/
def closeNode (options : AppleBtreeOptions) (level index : ℕ) (records : List BtreeRecord) :
    Except String PendingTreeNode :=
  if records = [] then .error "AppleBtreeRecordTooLarge"
  else if options.maxNodes - 1 ≤ index then .error "AppleBtreeNodeLimitExceeded"
  else
    match nextChildIdentity options index with
    | .error text => .error text
    | .ok (oid, block) => .ok ⟨oid, block, level, records⟩

/-- The nodes of one level: records are added to the node being filled while they fit. -/
def packLevel (options : AppleBtreeOptions) (level : ℕ) :
    ℕ → List BtreeRecord → List BtreeRecord → Except String (List PendingTreeNode)
  | index, pending, [] =>
    if pending = [] then .ok []
    else (closeNode options level index pending).map fun node => [node]
  | index, pending, record :: records =>
    if nodeFits (pending ++ [record]) false (level == 0) options then
      packLevel options level index (pending ++ [record]) records
    else
      match closeNode options level index pending with
      | .error text => .error text
      | .ok node =>
        if nodeFits [record] false (level == 0) options then
          (packLevel options level (index + 1) [record] records).map fun nodes => node :: nodes
        else .error "AppleBtreeRecordTooLarge"

/-- The parent record of a node. -/
def parentRecord (child : PendingTreeNode) : BtreeRecord :=
  { key := (child.records.head?.map BtreeRecord.key).getD []
    value := leBytes 8 child.objectId }

/-- The level loop of `SerializeAppleBtree`: all nodes below the root, the root's level
and its records. -/
def buildLevels (options : AppleBtreeOptions) :
    ℕ → List PendingTreeNode → List BtreeRecord → ℕ →
      Except String (List PendingTreeNode × ℕ × List BtreeRecord)
  | 0, _, _, _ => .error "level rounds exhausted"
  | rounds + 1, nonrootNodes, levelRecords, level =>
    match packLevel options level nonrootNodes.length [] levelRecords with
    | .error text => .error text
    | .ok levelNodes =>
      let parents := levelNodes.map parentRecord
      let nonrootNodes := nonrootNodes ++ levelNodes
      if level = 0xFFFF then .error "AppleBtreeHeightOverflow"
      else if nodeFits parents true false options then .ok (nonrootNodes, level + 1, parents)
      else buildLevels options rounds nonrootNodes parents (level + 1)

/-- The objects of a list of nodes below the root. -/
def buildNodes (options : AppleBtreeOptions) (totals : TreeTotals) :
    List PendingTreeNode → Except String (List AppleSerializedObject)
  | [] => .ok []
  | node :: nodes =>
    match buildNode node false options totals with
    | .error text => .error text
    | .ok object => (buildNodes options totals nodes).map fun objects => object :: objects

/-! ## The serializer -/

/-- `AppleSerializedBtree`. -/
structure AppleSerializedBtree where
  rootObjectId : ℕ
  rootPhysicalBlock : ℕ
  height : ℕ
  objects : List AppleSerializedObject
  deriving DecidableEq, Repr

/-- The checks of `SerializeAppleBtree` on its options. -/
def validateOptions (options : AppleBtreeOptions) : Except String Unit := do
  rejectIf (!isPowerOfTwo options.blockSize ∨ options.blockSize < 4096 ∨ 65536 < options.blockSize)
    "AppleBtreeBlockSizeInvalid"
  rejectIf (options.xid = 0) "AppleBtreeXidInvalid"
  rejectIf (options.rootObjectId = 0 ∨ options.rootPhysicalBlock = 0)
    "AppleBtreeRootIdentityInvalid"
  rejectIf (options.maxNodes = 0 ∨ 4096 < options.maxNodes) "AppleBtreeNodeLimitInvalid"
  rejectIf (options.treeFlags &&& (2 ^ 32 - 1 - supportedTreeFlags) ≠ 0) "AppleBtreeFlagsInvalid"
  rejectIf (options.storageType &&& (2 ^ 32 - 1 - objectStorageTypeMask) ≠ 0 ∨
      (options.storageType ≠ 0 ∧ options.storageType ≠ objectPhysical ∧
        options.storageType ≠ objectEphemeral))
    "AppleBtreeStorageTypeInvalid"
  rejectIf (options.childObjectIds.length ≠ options.childPhysicalBlocks.length)
    "AppleBtreeChildAllocationInvalid"
  rejectIf (0xFFFF < options.fixedKeySize ∨ 0xFFFF < options.fixedValueSize)
    "AppleBtreeFixedSizeInvalid"
  let storage := options.storageType &&& objectStorageTypeMask
  rejectIf (¬(storage = objectPhysical ↔ options.treeFlags &&& btreePhysical ≠ 0) ∨
      ¬(storage = objectEphemeral ↔ options.treeFlags &&& btreeEphemeral ≠ 0) ∨
      (storage = objectPhysical ∧ options.rootObjectId ≠ options.rootPhysicalBlock))
    "AppleBtreeStoragePolicyInvalid"

/-- The running maximum of a size over the records, as 32-bit values. -/
def longestSize (size : BtreeRecord → ℕ) (records : List BtreeRecord) (minimum : ℕ) : ℕ :=
  max (records.foldl (fun longest record => max longest (size record % 2 ^ 32)) 0) minimum

/-- The totals of a tree over its sorted records. -/
def treeTotals (options : AppleBtreeOptions) (sorted : List BtreeRecord) (nodeCount : ℕ) :
    TreeTotals :=
  { longestKey := longestSize (fun record => record.key.length) sorted options.minimumLongestKey
    longestValue :=
      longestSize (fun record => record.value.length) sorted options.minimumLongestValue
    leafKeyCount := sorted.length
    nodeCount := nodeCount }

/-- `SerializeAppleBtree`. -/
def serializeAppleBtree (records : List BtreeRecord) (options : AppleBtreeOptions) :
    Except String AppleSerializedBtree := do
  validateOptions options
  let sorted ← sortAppleBtreeRecords records options.keyOrder
  if nodeFits sorted true true options then
    let root ← buildNode ⟨options.rootObjectId, options.rootPhysicalBlock, 0, sorted⟩ true options
      (treeTotals options sorted 1)
    return ⟨options.rootObjectId, options.rootPhysicalBlock, 1, [root]⟩
  else
    let (nonrootNodes, level, rootRecords) ← buildLevels options options.maxNodes [] sorted 0
    let totals := treeTotals options sorted (nonrootNodes.length + 1)
    let objects ← buildNodes options totals nonrootNodes
    let root ← buildNode ⟨options.rootObjectId, options.rootPhysicalBlock, level, rootRecords⟩ true
      options totals
    return ⟨options.rootObjectId, options.rootPhysicalBlock, level + 1, objects ++ [root]⟩

end Btree
end ApfsAccess
