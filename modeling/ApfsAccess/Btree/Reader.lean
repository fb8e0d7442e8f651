import ApfsAccess.Format.Object

/-!
# The reader of trees

`ReadBtreeLeafRecords` walks a tree breadth first and returns the records of its
leaves.  Every offset is taken from the table of the node at hand, and depending on
the policy it enforces object identity, node levels, the order and the bounds of
keys, and the totals declared in the root.

The embedding is of the walk over an ordinary source: no node context, no identity
capture and no read budget.  An object map that has to be loaded for virtual
children is a parameter, `childObjectMap`: either the error of `LoadOmapLookup`, or
what `SelectOmapLookup` answers.

With a comparison the source collects the children of a node before it queues them,
without one it queues each at once; both orders are the same, so the model always
collects.
-/

namespace ApfsAccess
namespace Btree

open Format ByteBuffer

/-- `kMaxBtreeRecords`. -/
def maxBtreeRecords : ℕ := 100000

/-- `kMaxVisitedBlocks`. -/
def maxVisitedBlocks : ℕ := 4096

/-- `BtreeVirtualChildMapping`, as far as an ordinary walk reads it. -/
structure BtreeVirtualChildMapping where
  physicalBlock : ℕ
  xid : ℕ

/-- `BtreeReadPolicy`. -/
structure BtreeReadPolicy where
  enforceObjectIdentity : Bool
  rootObjectId : ℕ
  storageType : ℕ
  subtype : ℕ
  includeGhostRecords : Bool
  ephemeralCheckpoint : Option (List CheckpointMapping)
  requireCompleteTraversal : Bool
  rejectUnsupportedFlags : Bool
  virtualChildResolver : Option (ℕ → Except String BtreeVirtualChildMapping)

/-- The comparison of a `BtreeRoutingPolicy`. -/
abbrev CompareKeys := Bytes → Bytes → Except String Ordering

/-- The arguments of one walk. -/
structure BtreeRead where
  source : RandomAccessSource
  blockSize : ℕ
  rootBlock : ℕ
  childAddressesArePhysical : Bool
  childObjectMap : Except String (ℕ → Option ℕ)
  maxXidHint : ℕ
  policy : BtreeReadPolicy
  compareKeys : Option CompareKeys
  rootMappingXid : Option ℕ

/-- `PendingNode`. -/
structure PendingNode where
  physicalBlock : ℕ
  objectId : ℕ
  root : Bool
  expectedLevel : Option ℕ
  mappingXid : Option ℕ
  lower : Bytes
  upper : Bytes

/-- What the walk has learnt from the footer of the root. -/
structure TreeLayout where
  rootLayoutSeen : Bool
  treeKeySize : ℕ
  treeValueSize : ℕ
  declaredKeyCount : ℕ
  declaredNodeCount : ℕ

/-- The areas of one node. -/
structure NodeView where
  level : ℕ
  keyCount : ℕ
  fixedKv : Bool
  tableStart : ℕ
  keyAreaStart : ℕ
  freeStart : ℕ
  valueAreaStart : ℕ
  valueAreaEnd : ℕ

/-- The size of a table entry. -/
def NodeView.entrySize (view : NodeView) : ℕ := if view.fixedKv then 4 else 8

/-! ## One node -/

/-- A given bit of a value is set. -/
def hasFlag (value flag : ℕ) : Bool := value &&& flag != 0

/-- Reading the block of a node, up to the check of its transaction id. -/
def readNodeBlock (request : BtreeRead) (current : PendingNode) : Except String Bytes := do
  rejectIf (request.blockSize ≠ 0 ∧ (2 ^ 64 - 1) / request.blockSize < current.physicalBlock)
    "CatalogBtreeBlockOverflow"
  match readBlockAt request.source (current.physicalBlock * request.blockSize)
      request.blockSize with
  | none => .error "CatalogBtreeBlockUnreadable"
  | some block =>
    rejectIf (verifyObjectChecksum block request.blockSize = false) "CatalogBtreeChecksumInvalid"
    let nodeXid := (readU64LE block 0x10).getD (2 ^ 64 - 1)
    rejectIf ((request.maxXidHint ≠ 0 ∧ request.maxXidHint < nodeXid) ∨
        ∃ xid ∈ current.mappingXid, xid < nodeXid)
      "CatalogBtreeFutureXid"
    .ok block

/-- The checks of the object header. -/
def checkIdentity (request : BtreeRead) (current : PendingNode) (block : Bytes) :
    Except String Unit := do
  let policy := request.policy
  let fullObjectType := (readU32LE block 0x18).getD 0xFFFFFFFF
  let objectType := fullObjectType &&& objectTypeMask
  rejectIf (objectType ≠ objectTypeBtree ∧ objectType ≠ objectTypeBtreeNode)
    "CatalogBtreeNotABtree"
  rejectIf (policy.enforceObjectIdentity ∧ (readU64LE block 0x08).getD 0 ≠ current.objectId)
    "CatalogBtreeObjectIdMismatch"
  rejectIf (policy.enforceObjectIdentity ∧
      objectType ≠ if current.root then objectTypeBtree else objectTypeBtreeNode)
    "CatalogBtreeNodeTypeMismatch"
  rejectIf (policy.enforceObjectIdentity ∧
      fullObjectType &&& objectStorageTypeMask ≠ policy.storageType &&& objectStorageTypeMask)
    "CatalogBtreeStorageTypeMismatch"
  rejectIf (policy.enforceObjectIdentity ∧
      (readU32LE block 0x1C).getD 0xFFFFFFFF ≠ policy.subtype)
    "CatalogBtreeSubtypeMismatch"
  let flags := (readU16LE block 0x20).getD 0
  rejectIf (policy.rejectUnsupportedFlags ∧
      (fullObjectType &&& (2 ^ 32 - 1 - (objectStorageTypeMask ||| objectTypeMask)) ≠ 0 ∨
        flags &&& (2 ^ 16 - 1 - 0x0007) ≠ 0 ∨ (readU64LE block 0x10).getD 0 = 0))
    "CatalogBtreeUnsupportedFlagsOrZeroXid"

/-- The checks of the node header that come before the footer of the root is read. -/
def checkHeader (request : BtreeRead) (current : PendingNode) (block : Bytes) :
    Except String Unit := do
  let policy := request.policy
  let flags := (readU16LE block 0x20).getD 0
  let level := (readU16LE block 0x22).getD 0xFFFF
  let keyCount := (readU32LE block 0x24).getD (maxBtreeRecords + 1)
  rejectIf (policy.requireCompleteTraversal ∧
      ((∃ expected ∈ current.expectedLevel, level ≠ expected) ∨ (level ≠ 0 ∧ keyCount = 0)))
    "CatalogBtreeLevelInvalid"
  rejectIf (level = 0xFFFF ∨ maxBtreeRecords < keyCount ∨
      (readU16LE block 0x28).getD 0xFFFF = 0xFFFF ∨ (readU16LE block 0x2A).getD 0xFFFF = 0xFFFF ∨
      (readU16LE block 0x2C).getD 0xFFFF = 0xFFFF ∨ (readU16LE block 0x2E).getD 0xFFFF = 0xFFFF)
    "CatalogBtreeHeaderInvalid"
  rejectIf (policy.enforceObjectIdentity ∧ hasFlag flags 0x0001 ≠ current.root)
    "CatalogBtreeRootFlagMismatch"
  rejectIf (hasFlag flags 0x0002 ≠ decide (level = 0) ∨ hasFlag flags 0x8000)
    "CatalogBtreeNodeFlagsInvalid"
  rejectIf (hasFlag flags 0x0001 ∧ block.length < 40) "CatalogBtreeInfoInvalid"

/-- The end of the value area: the footer of a root, or the end of the block. -/
def infoStartOf (block : Bytes) : ℕ :=
  if hasFlag ((readU16LE block 0x20).getD 0) 0x0001 then block.length - 40 else block.length

/-- The footer of a root; any other node needs one to have been read. -/
def readLayout (request : BtreeRead) (layout : TreeLayout) (block : Bytes) :
    Except String TreeLayout := do
  if hasFlag ((readU16LE block 0x20).getD 0) 0x0001 then
    let infoStart := infoStartOf block
    let treeFlags := (readU32LE block infoStart).getD (2 ^ 32 - 1)
    let storage := (readU32LE block 0x18).getD 0xFFFFFFFF &&& objectStorageTypeMask
    rejectIf (request.policy.rejectUnsupportedFlags ∧
        (treeFlags &&& (2 ^ 32 - 1 - 0x7F) ≠ 0 ∨ hasFlag treeFlags 0x20 ∨
          hasFlag treeFlags 0x10 ≠ decide (storage = objectPhysical) ∨
          hasFlag treeFlags 0x08 ≠ decide (storage = objectEphemeral)))
      "CatalogBtreeUnsupportedTreeFlags"
    rejectIf ((readU32LE block (infoStart + 4)).getD 0 ≠ request.blockSize)
      "CatalogBtreeInfoInvalid"
    .ok
      { rootLayoutSeen := true
        treeKeySize := (readU32LE block (infoStart + 8)).getD 0
        treeValueSize := (readU32LE block (infoStart + 12)).getD 0
        declaredKeyCount :=
          if request.policy.rejectUnsupportedFlags then
            (readU64LE block (infoStart + 24)).getD (2 ^ 64 - 1)
          else layout.declaredKeyCount
        declaredNodeCount :=
          if request.policy.rejectUnsupportedFlags then
            (readU64LE block (infoStart + 32)).getD 0
          else layout.declaredNodeCount }
  else if layout.rootLayoutSeen then .ok layout
  else .error "CatalogBtreeRootInfoMissing"

/-- The areas of a node, as its header gives them. -/
def nodeViewOf (block : Bytes) : NodeView :=
  let tableStart := 0x38 + (readU16LE block 0x28).getD 0xFFFF
  let keyAreaStart := tableStart + (readU16LE block 0x2A).getD 0xFFFF
  let freeStart := keyAreaStart + (readU16LE block 0x2C).getD 0xFFFF
  { level := (readU16LE block 0x22).getD 0xFFFF
    keyCount := (readU32LE block 0x24).getD (maxBtreeRecords + 1)
    fixedKv := hasFlag ((readU16LE block 0x20).getD 0) 0x0004
    tableStart := tableStart
    keyAreaStart := keyAreaStart
    freeStart := freeStart
    valueAreaStart := freeStart + (readU16LE block 0x2E).getD 0xFFFF
    valueAreaEnd := infoStartOf block }

/-- The checks of the areas of a node. -/
def checkAreas (request : BtreeRead) (layout : TreeLayout) (current : PendingNode) (block : Bytes)
    (view : NodeView) : Except String Unit := do
  rejectIf (view.fixedKv ≠
      (decide (layout.treeKeySize ≠ 0) && (decide (view.level ≠ 0) ||
        decide (layout.treeValueSize ≠ 0))))
    "CatalogBtreeNodeLayoutMismatch"
  rejectIf (100000 < view.keyCount ∨ block.length < view.tableStart ∨
      block.length < view.keyAreaStart ∨ block.length < view.valueAreaStart ∨
      block.length < view.valueAreaEnd ∨ view.valueAreaEnd < view.valueAreaStart ∨
      block.length - view.tableStart < view.keyCount * view.entrySize)
    "CatalogBtreeBoundsInvalid"
  rejectIf (request.policy.requireCompleteTraversal ∧
      view.keyAreaStart - view.tableStart < view.keyCount * view.entrySize)
    "CatalogBtreeTableInvalid"
  rejectIf (request.compareKeys.isSome ∧ current.root = false ∧ view.keyCount = 0)
    "CatalogBtreeRoutingEmptyChild"

/-! ## One entry -/

/-- One row of the table: where key and value are and how long they are. -/
structure EntryRow where
  keyOffset : ℕ
  keyLength : ℕ
  valueOffset : ℕ
  valueLength : ℕ

/-- Reading one row of the table. -/
def readEntryRow (layout : TreeLayout) (view : NodeView) (block : Bytes) (index : ℕ) :
    Except String EntryRow :=
  let entryOffset := view.tableStart + index * view.entrySize
  if view.fixedKv then
    if 0xFFFF < layout.treeKeySize ∨ (view.level = 0 ∧ 0xFFFF < layout.treeValueSize) then
      .error "CatalogBtreeFixedSizeInvalid"
    else
      .ok
        { keyOffset := (readU16LE block entryOffset).getD 0xFFFF
          keyLength := layout.treeKeySize
          valueOffset := (readU16LE block (entryOffset + 2)).getD 0xFFFF
          valueLength := if view.level = 0 then layout.treeValueSize else 8 }
  else
    let keyLength := (readU16LE block (entryOffset + 2)).getD 0xFFFF
    let valueLength := (readU16LE block (entryOffset + 6)).getD 0xFFFF
    if (layout.treeKeySize ≠ 0 ∧ keyLength ≠ layout.treeKeySize) ∨
        (view.level = 0 ∧ layout.treeValueSize ≠ 0 ∧ valueLength ≠ layout.treeValueSize) then
      .error "CatalogBtreeEntrySizeMismatch"
    else
      .ok
        { keyOffset := (readU16LE block entryOffset).getD 0xFFFF
          keyLength := keyLength
          valueOffset := (readU16LE block (entryOffset + 4)).getD 0xFFFF
          valueLength := valueLength }

/-- The comparison with the key before, where there is one. -/
def checkPrevious (compare : CompareKeys) (level : ℕ) (previousKey key : Bytes) :
    Except String Unit :=
  if previousKey = [] then .ok ()
  else do
    let order ← compare previousKey key
    rejectIf (order ≠ .lt)
      (if level ≠ 0 then "CatalogBtreeRoutingSeparatorOrder" else "CatalogBtreeLeafKeyOrder")

/-- The comparison with the separator that led here. -/
def checkLower (compare : CompareKeys) (index : ℕ) (key lower : Bytes) : Except String Unit :=
  if lower = [] then .ok ()
  else do
    let order ← compare key lower
    rejectIf (order = .lt ∨ (index = 0 ∧ order ≠ .eq)) "CatalogBtreeRoutingChildMinimumMismatch"

/-- The comparison with the next separator. -/
def checkUpper (compare : CompareKeys) (key upper : Bytes) : Except String Unit :=
  if upper = [] then .ok ()
  else do
    let order ← compare key upper
    rejectIf (order ≠ .lt) "CatalogBtreeRoutingChildUpperBound"

/-- All comparisons of one key. -/
def checkRouting (compare : CompareKeys) (current : PendingNode) (level index : ℕ)
    (previousKey key : Bytes) : Except String Unit := do
  let valid ← compare key key
  rejectIf (valid ≠ .eq) "CatalogBtreeRoutingComparatorInvalid"
  checkPrevious compare level previousKey key
  checkLower compare index key current.lower
  checkUpper compare key current.upper

/-- The block of a child and, if it was looked up, the transaction id of its mapping. -/
def resolveChild (request : BtreeRead) (childObjectId : ℕ) : Except String (ℕ × Option ℕ) :=
  if request.childAddressesArePhysical then .ok (childObjectId, none)
  else
    match request.policy.virtualChildResolver with
    | some resolver =>
      match resolver childObjectId with
      | .error text => .error text
      | .ok mapped =>
        if mapped.physicalBlock = 0 then .error ""
        else .ok (mapped.physicalBlock, some mapped.xid)
    | none =>
      match request.policy.ephemeralCheckpoint with
      | some mappings =>
        if request.policy.storageType &&& objectStorageTypeMask = objectEphemeral then
          match mappings.find? fun mapping => mapping.objectId == childObjectId with
          | none => .error "CatalogBtreeChildCheckpointMappingInvalid"
          | some mapped =>
            if mapped.fileSystemOid ≠ 0 ∨ mapped.physicalBlock = 0 ∨
                mapped.sizeBytes ≠ request.blockSize ∨
                mapped.type ≠ objectEphemeral ||| objectTypeBtreeNode ∨
                mapped.subtype ≠ request.policy.subtype then
              .error "CatalogBtreeChildCheckpointMappingInvalid"
            else .ok (mapped.physicalBlock, none)
        else resolveThroughObjectMap
      | none => resolveThroughObjectMap
where
  /-- The last resort: the object map given to the walk. -/
  resolveThroughObjectMap : Except String (ℕ × Option ℕ) :=
    if childObjectId = 0 then .error "CatalogBtreeChildUnmapped"
    else
      match request.childObjectMap with
      | .error text => .error text
      | .ok select =>
        match select childObjectId with
        | none => .error "CatalogBtreeChildUnmapped"
        | some block =>
          if block = 0 then .error "CatalogBtreeChildUnmapped" else .ok (block, none)

/-- The state of the entry loop. -/
structure EntryState where
  previousKey : Bytes
  children : List PendingNode
  records : List BtreeRecord

/-- `children.back().upper = key`, where there is a child. -/
def setLastUpper (children : List PendingNode) (key : Bytes) : List PendingNode :=
  match children with
  | [] => []
  | [child] => [{ child with upper := key }]
  | child :: next :: rest => child :: setLastUpper (next :: rest) key

/-- The end of one pass of the entry loop: a record of a leaf, or a child. -/
def takeEntry (request : BtreeRead) (current : PendingNode) (view : NodeView) (key value : Bytes)
    (valueLength : ℕ) (state : EntryState) : Except String EntryState :=
  if view.level = 0 then
    .ok { state with records := state.records ++ [⟨key, value⟩] }
  else do
    rejectIf (valueLength < 8) "CatalogBtreeChildInvalid"
    rejectIf (request.policy.rejectUnsupportedFlags ∧ valueLength ≠ 8)
      "CatalogBtreeUnsupportedChildValue"
    let childObjectId := leValue (slice value 0 8)
    rejectIf (request.policy.requireCompleteTraversal ∧ childObjectId = 0)
      "CatalogBtreeChildInvalid"
    let (childBlock, mappingXid) ← resolveChild request childObjectId
    if childBlock = 0 then .ok state
    else
      .ok
        { state with
          children := state.children ++
            [{ physicalBlock := childBlock
               objectId := childObjectId
               root := false
               expectedLevel := some (view.level - 1)
               mappingXid := mappingXid
               lower := if request.compareKeys.isSome then key else []
               upper := current.upper }] }

/-- One pass of the entry loop. -/
def readEntry (request : BtreeRead) (layout : TreeLayout) (current : PendingNode) (view : NodeView)
    (block : Bytes) (index : ℕ) (state : EntryState) : Except String EntryState := do
  let policy := request.policy
  let row ← readEntryRow layout view block index
  let ghost : Bool := view.level = 0 ∧ row.valueOffset = 0xFFFF
  rejectIf (policy.requireCompleteTraversal ∧ (row.keyOffset = 0xFFFF ∨
      (ghost ∧ ¬(request.compareKeys.isSome ∧ policy.includeGhostRecords)) ∨ row.keyLength = 0))
    "CatalogBtreeMissingEntry"
  if row.keyOffset = 0xFFFF ∨ (ghost ∧ policy.includeGhostRecords = false) then .ok state
  else
    let keyStart := view.keyAreaStart + row.keyOffset
    let valueStart :=
      if ghost then view.valueAreaEnd else view.valueAreaEnd - row.valueOffset
    rejectIf ((ghost = false ∧ row.valueOffset = 0xFFFF) ∨ block.length < keyStart ∨
        block.length - keyStart < row.keyLength ∨
        (ghost = false ∧ (view.valueAreaEnd < row.valueOffset ∨
          view.valueAreaEnd < row.valueLength ∨
          block.length < view.valueAreaEnd - row.valueOffset ∨
          block.length - (view.valueAreaEnd - row.valueOffset) < row.valueLength)))
      "CatalogBtreeEntryInvalid"
    rejectIf (policy.requireCompleteTraversal ∧
        (view.freeStart < keyStart ∨ view.freeStart - keyStart < row.keyLength ∨
          (ghost = false ∧ (valueStart < view.valueAreaStart ∨
            view.valueAreaEnd - valueStart < row.valueLength))))
      "CatalogBtreeEntryRegionInvalid"
    let key := slice block keyStart row.keyLength
    let value := if ghost then [] else slice block valueStart row.valueLength
    match request.compareKeys with
    | none => takeEntry request current view key value row.valueLength state
    | some compare =>
      checkRouting compare current view.level index state.previousKey key
      takeEntry request current view key value row.valueLength
        { previousKey := key
          children := setLastUpper state.children key
          records := state.records }

/-- The entry loop, from a given index on. -/
def readEntries (request : BtreeRead) (layout : TreeLayout) (current : PendingNode)
    (view : NodeView) (block : Bytes) : ℕ → ℕ → EntryState → Except String EntryState
  | 0, _, state => .ok state
  | remaining + 1, index, state =>
    match readEntry request layout current view block index state with
    | .error text => .error text
    | .ok state => readEntries request layout current view block remaining (index + 1) state

/-- The body of the walk for one node: the layout, the records and the children it adds. -/
def readNode (request : BtreeRead) (layout : TreeLayout) (current : PendingNode) :
    Except String (TreeLayout × EntryState) := do
  let block ← readNodeBlock request current
  checkIdentity request current block
  checkHeader request current block
  let layout ← readLayout request layout block
  let view := nodeViewOf block
  checkAreas request layout current block view
  let state ← readEntries request layout current view block view.keyCount 0 ⟨[], [], []⟩
  return (layout, state)

/-! ## The walk -/

/-- The state of the walk. -/
structure WalkState where
  pending : List PendingNode
  visited : List ℕ
  layout : TreeLayout
  records : List BtreeRecord

/-- The loop of the walk. -/
def walk (request : BtreeRead) (state : WalkState) : Except String WalkState :=
  match _hpending : state.pending with
  | [] => .ok state
  | current :: pending =>
    if current.physicalBlock ∈ state.visited then
      if request.policy.requireCompleteTraversal then .error "CatalogBtreeRepeatedNode"
      else walk request ⟨pending, state.visited, state.layout, state.records⟩
    else if _hbound : maxVisitedBlocks < state.visited.length + 1 then .error "CatalogBtreeCycle"
    else
      match readNode request state.layout current with
      | .error text => .error text
      | .ok (layout, entries) =>
        walk request ⟨pending ++ entries.children, current.physicalBlock :: state.visited, layout,
          state.records ++ entries.records⟩
termination_by (maxVisitedBlocks - state.visited.length, state.pending.length)
decreasing_by
  -- A repeated node shortens the queue; a new one is entered in `visited`, which is bounded.
  · rw [_hpending]
    exact Prod.Lex.right _ (Nat.lt_succ_self _)
  · refine Prod.Lex.left _ _ ?_
    show maxVisitedBlocks - (state.visited.length + 1) < maxVisitedBlocks - state.visited.length
    omega

/-- `ReadBtreeLeafRecords`. -/
def readBtreeLeafRecords (request : BtreeRead) : Except String (List BtreeRecord) := do
  let policy := request.policy
  rejectIf (request.compareKeys.isSome ∧ policy.requireCompleteTraversal = false)
    "CatalogBtreeRoutingRequiresCompleteTraversal"
  rejectIf (request.blockSize = 0 ∨ request.rootBlock = 0) "CatalogBtreeRootInvalid"
  let final ← walk request
    { pending :=
        [{ physicalBlock := request.rootBlock
           objectId := policy.rootObjectId
           root := true
           expectedLevel := none
           mappingXid := request.rootMappingXid
           lower := []
           upper := [] }]
      visited := []
      layout := ⟨false, 0, 0, 0, 0⟩
      records := [] }
  rejectIf (policy.rejectUnsupportedFlags ∧
      (final.layout.declaredKeyCount ≠ final.records.length ∨
        final.layout.declaredNodeCount ≠ final.visited.length))
    "CatalogBtreeDeclaredCountsMismatch"
  return final.records

end Btree
end ApfsAccess
