import ApfsAccess.Btree.Layout
import ApfsAccess.Btree.Reader

/-!
# Reading a built node back

The reader derives every offset of a node from its header and its table.  This module
shows that on the block of a built node all of them are the writer's: each header
check passes, every row gives the key and the value that were put there, and the
comparisons with the neighbouring key and the separators hold.  The result is
`readNode_built`: a leaf gives its records, any other node the pending children of
its records.

`childrenPending` says what the children of a list of parent records are.  The upper
bound of a child is the key of the next record, or the bound of the node for the
last one, so the children of two adjacent nodes are those of their joint records:
`childrenPending_append_cons`.
-/

namespace ApfsAccess
namespace Btree

open Format ByteBuffer Extents Sorting

/-! ## Options that were accepted -/

/-- What the checks of the serializer leave of the options. -/
structure OptionsValid (options : AppleBtreeOptions) : Prop where
  blockSize_ge : 4096 ≤ options.blockSize
  blockSize_le : options.blockSize ≤ 65536
  xid_ne : options.xid ≠ 0
  rootObjectId_ne : options.rootObjectId ≠ 0
  rootPhysicalBlock_ne : options.rootPhysicalBlock ≠ 0
  maxNodes_pos : options.maxNodes ≠ 0
  maxNodes_le : options.maxNodes ≤ 4096
  treeFlags : options.treeFlags &&& (2 ^ 32 - 1 - supportedTreeFlags) = 0
  storageType : options.storageType = 0 ∨ options.storageType = objectPhysical ∨
    options.storageType = objectEphemeral
  fixedKeySize_le : options.fixedKeySize ≤ 0xFFFF
  fixedValueSize_le : options.fixedValueSize ≤ 0xFFFF
  physical : options.storageType &&& objectStorageTypeMask = objectPhysical ↔
    options.treeFlags &&& btreePhysical ≠ 0
  ephemeral : options.storageType &&& objectStorageTypeMask = objectEphemeral ↔
    options.treeFlags &&& btreeEphemeral ≠ 0

theorem rejectIf_eq_ok_iff {condition : Prop} [Decidable condition] {error : String} :
    rejectIf condition error = .ok () ↔ ¬condition := by
  unfold rejectIf
  by_cases h : condition
  · simp [h]
  · simp [h]

theorem validateOptions_spec {options : AppleBtreeOptions}
    (h : validateOptions options = .ok ()) : OptionsValid options := by
  unfold validateOptions at h
  simp only [rejectIf_bind_eq_ok_iff, rejectIf_eq_ok_iff, not_or, not_and, not_not, not_lt] at h
  obtain ⟨⟨-, hge, hle⟩, hxid, ⟨hroot, hblock⟩, ⟨hnodes, hnodesLe⟩, hflags, ⟨-, hstorage⟩, -,
    ⟨hkey, hvalue⟩, hphysical, hephemeral, -⟩ := h
  refine ⟨hge, hle, hxid, hroot, hblock, hnodes, hnodesLe, hflags, ?_, hkey, hvalue, hphysical,
    hephemeral⟩
  by_cases h0 : options.storageType = 0
  · exact .inl h0
  · by_cases h1 : options.storageType = objectPhysical
    · exact .inr (.inl h1)
    · exact .inr (.inr (hstorage h0 h1))

/-! ## Reading fields -/

theorem le_length_of_slice {α : Type} {xs seg : List α} {off : ℕ}
    (h : slice xs off seg.length = seg) (hpos : 0 < seg.length) :
    off + seg.length ≤ xs.length := by
  have hlength := congrArg List.length h
  unfold slice at hlength
  rw [List.length_take, List.length_drop] at hlength
  omega

/-- A number that stands in a buffer as a field is read. -/
theorem FieldsAt.readLE {bytes : Bytes} {fields : List (ℕ × Bytes)} {width off value : ℕ}
    (h : FieldsAt bytes fields) (hmem : (off, leBytes width value) ∈ fields) (hwidth : 0 < width)
    (hvalue : value < 256 ^ width) : readLE width bytes off = some value := by
  have hslice := h _ hmem
  have hbound := le_length_of_slice hslice (by rwa [length_leBytes])
  simp only [length_leBytes] at hslice hbound
  exact readLE_of_slice hbound hslice hvalue

/-- The numbers a reader finds in the header of a built node. -/
structure HeaderValues (options : AppleBtreeOptions) (node : PendingTreeNode) (root : Bool)
    (bytes : Bytes) : Prop where
  objectId : readU64LE bytes 0x08 = some node.objectId
  xid : readU64LE bytes 0x10 = some options.xid
  type : readU32LE bytes 0x18 = some (options.storageType ||| nodeBaseType root)
  subtype : readU32LE bytes 0x1C = some options.subtype
  flags : readU16LE bytes 0x20 = some (nodeFlags root (nodeShape node root options).leaf
    (nodeShape node root options).fixed)
  level : readU16LE bytes 0x22 = some node.level
  keyCount : readU32LE bytes 0x24 = some node.records.length
  tableOffset : readU16LE bytes 0x28 = some 0
  tableLength : readU16LE bytes 0x2A = some (tableBytes options (node.level == 0)
    node.records.length)
  freeOffset : readU16LE bytes 0x2C = some (keySpans (nodeAligned options) node.records)
  freeLength : readU16LE bytes 0x2E = some ((nodeShape node root options).infoStart -
    valueSpans (nodeAligned options) node.records -
      ((nodeShape node root options).keyAreaStart + keySpans (nodeAligned options) node.records))

theorem nodeFlags_lt (root leaf fixed : Bool) : nodeFlags root leaf fixed < 256 ^ 2 := by
  cases root <;> cases leaf <;> cases fixed <;> decide

theorem objectType_lt {options : AppleBtreeOptions} (hoptions : OptionsValid options)
    (root : Bool) : options.storageType ||| nodeBaseType root < 256 ^ 4 := by
  rcases hoptions.storageType with h | h | h <;> rw [h] <;> cases root <;> decide

/-- A node's records are few enough for every field that counts them. -/
theorem BuiltNode.bounds {options : AppleBtreeOptions} {totals : TreeTotals}
    {node : PendingTreeNode} {root : Bool} {bytes : Bytes}
    (h : BuiltNode options totals node root bytes) (hoptions : OptionsValid options) :
    (nodeShape node root options).infoStart ≤ options.blockSize ∧
      (nodeShape node root options).keyAreaStart =
        0x38 + tableBytes options (node.level == 0) node.records.length ∧
      node.records.length * entrySize (nodeShape node root options).fixed ≤
        tableBytes options (node.level == 0) node.records.length ∧
      node.records.length ≤ 65536 := by
  have hinfo : (nodeShape node root options).infoStart ≤ options.blockSize := by
    unfold nodeShape
    simp only
    split <;> omega
  have htable : node.records.length * entrySize (nodeShape node root options).fixed ≤
      tableBytes options (node.level == 0) node.records.length := le_storedLength _ _
  have hkeyArea : (nodeShape node root options).keyAreaStart =
      0x38 + tableBytes options (node.level == 0) node.records.length := rfl
  have hentry : 1 ≤ entrySize (nodeShape node root options).fixed := by
    unfold entrySize
    split <;> omega
  have hcount : node.records.length ≤
      node.records.length * entrySize (nodeShape node root options).fixed :=
    Nat.le_mul_of_pos_right _ hentry
  have hfit := h.fits
  have hblock := hoptions.blockSize_le
  exact ⟨hinfo, hkeyArea, htable, by omega⟩

theorem BuiltNode.headerValues {options : AppleBtreeOptions} {totals : TreeTotals}
    {node : PendingTreeNode} {root : Bool} {bytes : Bytes}
    (h : BuiltNode options totals node root bytes) (hoptions : OptionsValid options)
    (hobjectId : node.objectId < 2 ^ 64) (hlevel : node.level < 2 ^ 16) :
    HeaderValues options node root bytes := by
  obtain ⟨hinfo, hkeyArea, -, hcount⟩ := h.bounds hoptions
  have hfit := h.fits
  have hblock := hoptions.blockSize_le
  refine
    { objectId := h.header.readLE (by simp [headerFields]) (by norm_num) hobjectId
      xid := h.header.readLE (by simp [headerFields]) (by norm_num) options.xid_lt
      type := h.header.readLE (by simp [headerFields]) (by norm_num) (objectType_lt hoptions root)
      subtype := h.header.readLE (by simp [headerFields]) (by norm_num) options.subtype_lt
      flags := h.header.readLE (by simp [headerFields, nodeShape]) (by norm_num)
        (nodeFlags_lt _ _ _)
      level := h.header.readLE (by simp [headerFields]) (by norm_num) hlevel
      keyCount := h.header.readLE (by simp [headerFields]) (by norm_num) (by omega)
      tableOffset := h.header.readLE (by simp [headerFields]) (by norm_num) (by norm_num)
      tableLength := h.header.readLE (by simp [headerFields]) (by norm_num) (by omega)
      freeOffset := h.freeSpace.readLE (by simp [freeSpaceFields]) (by norm_num) (by omega)
      freeLength := h.freeSpace.readLE (by simp [freeSpaceFields]) (by norm_num) (by omega) }

/-! ## The header checks -/

/-- The comparison of the writer, as a routing comparison. -/
def routingCompare (order : AppleBtreeKeyOrder) : CompareKeys := fun left right =>
  match compareKeys order left right with
  | some ordering => .ok ordering
  | none => .error "bad_optional_access"

/-- A walk that enforces everything a tree was written with. -/
structure ReadsTree (request : BtreeRead) (options : AppleBtreeOptions) : Prop where
  blockSize : request.blockSize = options.blockSize
  rootBlock : request.rootBlock = options.rootPhysicalBlock
  enforceObjectIdentity : request.policy.enforceObjectIdentity = true
  rootObjectId : request.policy.rootObjectId = options.rootObjectId
  storageType : request.policy.storageType = options.storageType
  subtype : request.policy.subtype = options.subtype
  includeGhostRecords :
    request.policy.includeGhostRecords = hasFlag options.treeFlags btreeAllowGhosts
  requireCompleteTraversal : request.policy.requireCompleteTraversal = true
  rejectUnsupportedFlags : request.policy.rejectUnsupportedFlags = true
  compareKeys : request.compareKeys = some (routingCompare options.keyOrder)
  maxXidHint : request.maxXidHint = 0 ∨ options.xid ≤ request.maxXidHint
  rootMappingXid : ∀ xid ∈ request.rootMappingXid, options.xid ≤ xid

/-- What a walk knows of a tree once it has read the root. -/
def layoutOf (options : AppleBtreeOptions) (totals : TreeTotals) : TreeLayout :=
  { rootLayoutSeen := true
    treeKeySize := options.fixedKeySize
    treeValueSize := options.fixedValueSize
    declaredKeyCount := totals.leafKeyCount
    declaredNodeCount := totals.nodeCount }

/-- The areas of a built node. -/
def builtView (options : AppleBtreeOptions) (node : PendingTreeNode) (root : Bool) : NodeView :=
  let shape := nodeShape node root options
  { level := node.level
    keyCount := node.records.length
    fixedKv := shape.fixed
    tableStart := 0x38
    keyAreaStart := shape.keyAreaStart
    freeStart := shape.keyAreaStart + keySpans (nodeAligned options) node.records
    valueAreaStart := shape.infoStart - valueSpans (nodeAligned options) node.records
    valueAreaEnd := shape.infoStart }

theorem hasFlag_nodeFlags_root (root leaf fixed : Bool) :
    hasFlag (nodeFlags root leaf fixed) 0x0001 = root := by
  cases root <;> cases leaf <;> cases fixed <;> decide

theorem hasFlag_nodeFlags_leaf (root leaf fixed : Bool) :
    hasFlag (nodeFlags root leaf fixed) 0x0002 = leaf := by
  cases root <;> cases leaf <;> cases fixed <;> decide

theorem hasFlag_nodeFlags_fixed (root leaf fixed : Bool) :
    hasFlag (nodeFlags root leaf fixed) 0x0004 = fixed := by
  cases root <;> cases leaf <;> cases fixed <;> decide

theorem nodeFlags_supported (root leaf fixed : Bool) :
    nodeFlags root leaf fixed &&& (2 ^ 16 - 1 - 0x0007) = 0 ∧
      hasFlag (nodeFlags root leaf fixed) 0x8000 = false := by
  cases root <;> cases leaf <;> cases fixed <;> decide

/-- The type word of a node, taken apart. -/
theorem objectType_parts {options : AppleBtreeOptions} (hoptions : OptionsValid options)
    (root : Bool) :
    (options.storageType ||| nodeBaseType root) &&& objectTypeMask = nodeBaseType root ∧
      (options.storageType ||| nodeBaseType root) &&& objectStorageTypeMask =
        options.storageType &&& objectStorageTypeMask ∧
      (options.storageType ||| nodeBaseType root) &&&
        (2 ^ 32 - 1 - (objectStorageTypeMask ||| objectTypeMask)) = 0 := by
  rcases hoptions.storageType with h | h | h <;> rw [h] <;> cases root <;> decide

section Checks

variable {request : BtreeRead} {options : AppleBtreeOptions} {totals : TreeTotals}
  {node : PendingTreeNode} {root : Bool} {bytes : Bytes} {current : PendingNode}
  {layout : TreeLayout}

theorem infoStartOf_built (hvalues : HeaderValues options node root bytes)
    (hlength : bytes.length = options.blockSize) :
    infoStartOf bytes = (nodeShape node root options).infoStart := by
  unfold infoStartOf nodeShape
  rw [hvalues.flags, Option.getD_some, hasFlag_nodeFlags_root, hlength]
  rfl

theorem nodeViewOf_built (hbuilt : BuiltNode options totals node root bytes)
    (hvalues : HeaderValues options node root bytes) :
    nodeViewOf bytes = builtView options node root := by
  have hfit := hbuilt.fits
  unfold nodeViewOf builtView
  rw [hvalues.level, hvalues.keyCount, hvalues.flags, hvalues.tableOffset, hvalues.tableLength,
    hvalues.freeOffset, hvalues.freeLength, infoStartOf_built hvalues hbuilt.length]
  simp only [Option.getD_some, hasFlag_nodeFlags_fixed, NodeView.mk.injEq, true_and, and_true]
  refine ⟨rfl, rfl, ?_⟩
  have hkeyArea : (nodeShape node root options).keyAreaStart =
      0x38 + tableBytes options (node.level == 0) node.records.length := rfl
  omega

theorem readNodeBlock_built (hreads : ReadsTree request options)
    (hoptions : OptionsValid options) (hbuilt : BuiltNode options totals node root bytes)
    (hvalues : HeaderValues options node root bytes)
    (hholds : request.source.Holds options.blockSize node.physicalBlock bytes)
    (hblock : current.physicalBlock = node.physicalBlock)
    (hxid : ∀ xid ∈ current.mappingXid, options.xid ≤ xid) :
    readNodeBlock request current = .ok bytes := by
  have hsize : 0 < options.blockSize := by
    have := hoptions.blockSize_ge
    omega
  have hle := hholds.block_le hsize
  unfold readNodeBlock
  rw [hreads.blockSize, hblock, rejectIf_bind_of_not _ _ (by omega)]
  have hread : readBlockAt request.source (node.physicalBlock * options.blockSize)
      options.blockSize = some bytes := by
    unfold readBlockAt
    rw [if_neg (by omega)]
    exact hholds
  rw [hread]
  simp only
  rw [rejectIf_bind_of_not _ _ (by rw [hbuilt.checksum]; simp), hvalues.xid, Option.getD_some,
    rejectIf_bind_of_not]
  rintro (⟨hne, hlt⟩ | ⟨xid, hmem, hlt⟩)
  · have := hreads.maxXidHint
    omega
  · exact absurd (hxid xid hmem) (by omega)

theorem checkIdentity_built (hreads : ReadsTree request options)
    (hoptions : OptionsValid options) (hvalues : HeaderValues options node root bytes)
    (hobjectId : current.objectId = node.objectId) (hroot : current.root = root) :
    checkIdentity request current bytes = .ok () := by
  obtain ⟨hbase, hstorage, hrest⟩ := objectType_parts hoptions root
  have hflags := (nodeFlags_supported root (nodeShape node root options).leaf
    (nodeShape node root options).fixed).1
  have hxid := hoptions.xid_ne
  unfold checkIdentity
  simp only [hvalues.type, hvalues.objectId, hvalues.subtype, hvalues.flags, hvalues.xid,
    Option.getD_some, hbase, hstorage, hrest, hobjectId, hroot, hreads.storageType,
    hreads.subtype, hflags]
  rw [rejectIf_bind_of_not _ _ (by cases root <;> decide), rejectIf_bind_of_not _ _ (by simp),
    rejectIf_bind_of_not _ _ (by cases root <;> simp [nodeBaseType]),
    rejectIf_bind_of_not _ _ (by simp), rejectIf_bind_of_not _ _ (by simp), rejectIf_eq_ok_iff]
  simp [hxid]

theorem checkHeader_built (hoptions : OptionsValid options)
    (hbuilt : BuiltNode options totals node root bytes)
    (hvalues : HeaderValues options node root bytes) (hlevel : node.level < 0xFFFF)
    (hexpected : ∀ expected ∈ current.expectedLevel, expected = node.level)
    (hroot : current.root = root) (hnonempty : node.level ≠ 0 → node.records ≠ []) :
    checkHeader request current bytes = .ok () := by
  obtain ⟨hinfo, hkeyArea, -, hcount⟩ := hbuilt.bounds hoptions
  have hfit := hbuilt.fits
  have hblock := hoptions.blockSize_le
  have hblockGe := hoptions.blockSize_ge
  have hleaf : (nodeShape node root options).leaf = (node.level == 0) := rfl
  have hlength := hbuilt.length
  unfold checkHeader
  simp only [hvalues.flags, hvalues.level, hvalues.keyCount, hvalues.tableOffset,
    hvalues.tableLength, hvalues.freeOffset, hvalues.freeLength, Option.getD_some,
    hasFlag_nodeFlags_root, hasFlag_nodeFlags_leaf, (nodeFlags_supported _ _ _).2, hroot, hleaf]
  rw [rejectIf_bind_of_not, rejectIf_bind_of_not, rejectIf_bind_of_not _ _ (by simp),
    rejectIf_bind_of_not, rejectIf_eq_ok_iff]
  · omega
  · simp only [ne_eq, Bool.false_eq_true, or_false, not_not]
    exact beq_eq_decide _ _
  · unfold maxBtreeRecords
    omega
  · rintro ⟨-, ⟨expected, hmem, hne⟩ | ⟨hne, hempty⟩⟩
    · exact hne (hexpected expected hmem).symm
    · exact hnonempty hne (List.length_eq_zero_iff.mp hempty)

/-- A sub-mask of a mask that finds nothing finds nothing. -/
theorem land_eq_zero_of_submask {value mask sub : ℕ} (h : value &&& mask = 0)
    (hsub : mask &&& sub = sub) : value &&& sub = 0 := by
  rw [← hsub, ← Nat.land_assoc, h]
  exact Nat.zero_and sub

theorem hasFlag_eq_decide {value flag : ℕ} {condition : Prop} [Decidable condition]
    (h : condition ↔ value &&& flag ≠ 0) : hasFlag value flag = decide condition := by
  unfold hasFlag
  rw [Bool.eq_iff_iff, bne_iff_ne, decide_eq_true_iff]
  exact h.symm

theorem readLayout_root (hreads : ReadsTree request options) (hoptions : OptionsValid options)
    (hbuilt : BuiltNode options totals node true bytes)
    (hvalues : HeaderValues options node true bytes) (hkeys : totals.leafKeyCount < 2 ^ 64)
    (hnodes : totals.nodeCount < 2 ^ 64) :
    readLayout request layout bytes = .ok (layoutOf options totals) := by
  have hinfo := hbuilt.info rfl
  have hblock := hoptions.blockSize_le
  have hkeySize := hoptions.fixedKeySize_le
  have hvalueSize := hoptions.fixedValueSize_le
  obtain ⟨-, hstorage, -⟩ := objectType_parts hoptions true
  set infoStart := (nodeShape node true options).infoStart with hinfoStart
  have hflags : readU32LE bytes infoStart = some options.treeFlags :=
    hinfo.readLE (by simp [infoFields]) (by norm_num) options.treeFlags_lt
  have hsize : readU32LE bytes (infoStart + 4) = some options.blockSize :=
    hinfo.readLE (by simp [infoFields]) (by norm_num) (by omega)
  have hkey : readU32LE bytes (infoStart + 8) = some options.fixedKeySize :=
    hinfo.readLE (by simp [infoFields]) (by norm_num) (by omega)
  have hvalue : readU32LE bytes (infoStart + 12) = some options.fixedValueSize :=
    hinfo.readLE (by simp [infoFields]) (by norm_num) (by omega)
  have hkeyCount : readU64LE bytes (infoStart + 24) = some totals.leafKeyCount :=
    hinfo.readLE (by simp [infoFields]) (by norm_num) hkeys
  have hnodeCount : readU64LE bytes (infoStart + 32) = some totals.nodeCount :=
    hinfo.readLE (by simp [infoFields]) (by norm_num) hnodes
  have hunsupported : options.treeFlags &&& (2 ^ 32 - 1 - 0x7F) = 0 :=
    land_eq_zero_of_submask hoptions.treeFlags (by decide)
  have hhash : hasFlag options.treeFlags 0x20 = false := by
    unfold hasFlag
    rw [land_eq_zero_of_submask hoptions.treeFlags (by decide)]
    rfl
  have hphysical : hasFlag options.treeFlags 0x10 = _ := hasFlag_eq_decide hoptions.physical
  have hephemeral : hasFlag options.treeFlags 0x08 = _ := hasFlag_eq_decide hoptions.ephemeral
  unfold readLayout
  rw [hvalues.flags, Option.getD_some, hasFlag_nodeFlags_root, if_pos rfl,
    infoStartOf_built hvalues hbuilt.length, ← hinfoStart]
  simp only [hflags, hsize, hkey, hvalue, hkeyCount, hnodeCount, hvalues.type, Option.getD_some,
    hstorage, hunsupported, hhash, hphysical, hephemeral, hreads.blockSize,
    hreads.rejectUnsupportedFlags]
  rw [rejectIf_bind_of_not _ _ (by simp), rejectIf_bind_of_not _ _ (by simp)]
  rfl

theorem readLayout_nonroot (hvalues : HeaderValues options node false bytes) :
    readLayout request (layoutOf options totals) bytes = .ok (layoutOf options totals) := by
  unfold readLayout
  rw [hvalues.flags, Option.getD_some, hasFlag_nodeFlags_root]
  rfl

theorem checkAreas_built (hoptions : OptionsValid options)
    (hbuilt : BuiltNode options totals node root bytes) (hroot : current.root = root)
    (hnonempty : root = false → node.records ≠ []) :
    checkAreas request (layoutOf options totals) current bytes (builtView options node root) =
      .ok () := by
  obtain ⟨hinfo, hkeyArea, htable, hcount⟩ := hbuilt.bounds hoptions
  have hfit := hbuilt.fits
  have hlength := hbuilt.length
  have hentry : (builtView options node root).entrySize =
      entrySize (nodeShape node root options).fixed := rfl
  have hfixed : (nodeShape node root options).fixed =
      nodeUsesFixedKv options (node.level == 0) := rfl
  unfold checkAreas
  rw [rejectIf_bind_eq_ok_iff, rejectIf_bind_eq_ok_iff, rejectIf_bind_eq_ok_iff,
    rejectIf_eq_ok_iff, hentry]
  simp only [builtView, layoutOf, hroot]
  refine ⟨?_, by omega, by omega, ?_⟩
  · rw [hfixed]
    unfold nodeUsesFixedKv
    by_cases hkey : options.fixedKeySize = 0 <;> by_cases hvalue : options.fixedValueSize = 0 <;>
      by_cases hlevel : node.level = 0 <;> simp [hkey, hvalue, hlevel]
  · rintro ⟨-, hfalse, hempty⟩
    exact hnonempty hfalse (List.length_eq_zero_iff.mp hempty)

/-! ## Comparisons -/

theorem routingCompare_eq {order : AppleBtreeKeyOrder} {left right : Bytes}
    (hleft : KeyValid order left) (hright : KeyValid order right) :
    routingCompare order left right =
      .ok (compareValues (keyRank order left) (keyRank order right)) := by
  unfold routingCompare
  rw [compareKeys_eq_compareValues hleft hright]

/-- The place of a key between the key before it and the two separators. -/
structure KeyPlaced (order : AppleBtreeKeyOrder) (index : ℕ) (previousKey lower upper key : Bytes) :
    Prop where
  valid : KeyValid order key
  previous : previousKey = [] ∨
    (KeyValid order previousKey ∧ keyRank order previousKey < keyRank order key)
  lower : lower = [] ∨ (KeyValid order lower ∧ keyRank order lower ≤ keyRank order key ∧
    (index = 0 → keyRank order key = keyRank order lower))
  upper : upper = [] ∨ (KeyValid order upper ∧ keyRank order key < keyRank order upper)

theorem checkRouting_placed {order : AppleBtreeKeyOrder} {level index : ℕ}
    {previousKey key : Bytes}
    (h : KeyPlaced order index previousKey current.lower current.upper key) :
    checkRouting (routingCompare order) current level index previousKey key = .ok () := by
  have hself : routingCompare order key key = .ok .eq := by
    rw [routingCompare_eq h.valid h.valid, compareValues_eq_eq_iff.mpr rfl]
  have hprevious : checkPrevious (routingCompare order) level previousKey key = .ok () := by
    unfold checkPrevious
    split
    · rfl
    · rename_i hne
      obtain ⟨hvalid, hlt⟩ := h.previous.resolve_left hne
      rw [routingCompare_eq hvalid h.valid, compareValues_eq_lt_iff.mpr hlt]
      rfl
  have hlower : checkLower (routingCompare order) index key current.lower = .ok () := by
    unfold checkLower
    split
    · rfl
    · rename_i hne
      obtain ⟨hvalid, hle, hfirst⟩ := h.lower.resolve_left hne
      rw [routingCompare_eq h.valid hvalid]
      refine rejectIf_eq_ok_iff.mpr ?_
      rw [compareValues_eq_lt_iff, not_or, not_and, not_not, compareValues_eq_eq_iff]
      exact ⟨hle.not_gt, hfirst⟩
  have hupper : checkUpper (routingCompare order) key current.upper = .ok () := by
    unfold checkUpper
    split
    · rfl
    · rename_i hne
      obtain ⟨hvalid, hlt⟩ := h.upper.resolve_left hne
      rw [routingCompare_eq h.valid hvalid, compareValues_eq_lt_iff.mpr hlt]
      rfl
  unfold checkRouting
  rw [hself, hprevious, hlower, hupper]
  rfl

/-! ## Children -/

/-- What a child's address resolves to. -/
def resolved (request : BtreeRead) (childObjectId : ℕ) : ℕ × Option ℕ :=
  match resolveChild request childObjectId with
  | .ok address => address
  | .error _ => (0, none)

/-- The pending child of a parent record. -/
def childPending (request : BtreeRead) (level : ℕ) (record : BtreeRecord) (upper : Bytes) :
    PendingNode :=
  { physicalBlock := (resolved request (leValue record.value)).1
    objectId := leValue record.value
    root := false
    expectedLevel := some (level - 1)
    mappingXid := (resolved request (leValue record.value)).2
    lower := record.key
    upper := upper }

/-- The pending children of some parent records of a level, under an upper bound. -/
def childrenPending (request : BtreeRead) (level : ℕ) : List BtreeRecord → Bytes → List PendingNode
  | [], _ => []
  | [record], upper => [childPending request level record upper]
  | record :: next :: records, upper =>
    childPending request level record next.key :: childrenPending request level (next :: records) upper

theorem childrenPending_append_cons (level : ℕ) (front : List BtreeRecord) (record : BtreeRecord)
    (back : List BtreeRecord) (upper : Bytes) :
    childrenPending request level (front ++ record :: back) upper =
      childrenPending request level front record.key ++
        childrenPending request level (record :: back) upper := by
  induction front with
  | nil => rfl
  | cons first front ih =>
    cases front with
    | nil => rfl
    | cons second front =>
      show childPending _ _ _ _ :: childrenPending _ _ (second :: front ++ record :: back) _ = _
      rw [ih]
      rfl

theorem setLastUpper_childrenPending (level : ℕ) (records : List BtreeRecord) (upper key : Bytes) :
    setLastUpper (childrenPending request level records upper) key =
      childrenPending request level records key := by
  induction records with
  | nil => rfl
  | cons first records ih =>
    cases records with
    | nil => rfl
    | cons second records =>
      have hcons : ∃ child rest,
          childrenPending request level (second :: records) upper = child :: rest := by
        cases records with
        | nil => exact ⟨_, _, rfl⟩
        | cons third records => exact ⟨_, _, rfl⟩
      obtain ⟨child, rest, hrest⟩ := hcons
      simp only [childrenPending, hrest] at ih ⊢
      rw [setLastUpper, ih]

/-! ## One entry -/

/-- What the size test of a node says about one of its records. -/
theorem recordAdmitted_spec {leaf : Bool} {record : BtreeRecord}
    (h : recordAdmitted options leaf record = true) :
    (options.fixedKeySize ≠ 0 → record.key.length = options.fixedKeySize) ∧
      (isGhost leaf record = false → (if leaf then options.fixedValueSize else 8) ≠ 0 →
        record.value.length = if leaf then options.fixedValueSize else 8) ∧
      record.key.length ≤ 0xFFFF ∧ record.value.length ≤ 0xFFFF ∧
      (isGhost leaf record = true → hasFlag options.treeFlags btreeAllowGhosts = true) := by
  unfold recordAdmitted at h
  simp only [Bool.and_eq_true, Bool.not_eq_true', Bool.or_eq_false_iff, Bool.and_eq_false_iff,
    bne_eq_false_iff_eq, decide_eq_false_iff_not, not_lt, Bool.not_eq_false', beq_eq_false_iff_ne]
    at h
  obtain ⟨⟨hghost, hkey, hvalue⟩, hkeyLe, hvalueLe⟩ := h
  refine ⟨fun hne => hkey.resolve_left hne, fun hnot hne => ?_, hkeyLe, hvalueLe, fun hyes => ?_⟩
  · rcases hvalue with (hcontra | hcontra) | heq
    · rw [hcontra] at hnot
      cases hnot
    · exact absurd hcontra hne
    · exact heq
  · rcases hghost with hcontra | hne
    · rw [hcontra] at hyes
      cases hyes
    · exact bne_iff_ne.mpr hne

/-- Ghosts need a tree of fixed key and value sizes. -/
def GhostsFixed (options : AppleBtreeOptions) (records : List BtreeRecord) : Prop :=
  ∀ record ∈ records, record.value = [] → options.fixedKeySize ≠ 0 ∧ options.fixedValueSize ≠ 0

/-- The row that the reader finds for a record. -/
def builtRow (options : AppleBtreeOptions) (shape : NodeShape) (keyCursor valueCursor : ℕ)
    (record : BtreeRecord) : EntryRow :=
  { keyOffset := keyCursor - shape.keyAreaStart
    keyLength := record.key.length
    valueOffset := if isGhost shape.leaf record then 0xFFFF else shape.infoStart - valueCursor
    valueLength := if isGhost shape.leaf record then options.fixedValueSize
      else record.value.length }

theorem readEntryRow_built (hoptions : OptionsValid options) {record : BtreeRecord}
    {index keyCursor valueCursor : ℕ}
    (hadmitted : recordAdmitted options (nodeShape node root options).leaf record = true)
    (hghost : isGhost (nodeShape node root options).leaf record = true →
      options.fixedKeySize ≠ 0 ∧ options.fixedValueSize ≠ 0)
    (hfields : FieldsAt bytes (entryFields (nodeShape node root options)
      (0x38 + index * entrySize (nodeShape node root options).fixed) keyCursor valueCursor record))
    (hkey : keyCursor - (nodeShape node root options).keyAreaStart < 0xFFFF)
    (hvalue : (nodeShape node root options).infoStart - valueCursor < 0xFFFF) :
    readEntryRow (layoutOf options totals) (builtView options node root) bytes index =
      .ok (builtRow options (nodeShape node root options) keyCursor valueCursor record) := by
  obtain ⟨hkeySize, hvalueSize, hkeyLe, hvalueLe, -⟩ := recordAdmitted_spec hadmitted
  have hkeyMax := hoptions.fixedKeySize_le
  have hvalueMax := hoptions.fixedValueSize_le
  have hleaf : (nodeShape node root options).leaf = (node.level == 0) := rfl
  have hfixedEq : (nodeShape node root options).fixed =
      nodeUsesFixedKv options (nodeShape node root options).leaf := rfl
  have hviewFixed : (builtView options node root).fixedKv =
      (nodeShape node root options).fixed := rfl
  have hviewLevel : (builtView options node root).level = node.level := rfl
  have hentry : (builtView options node root).tableStart +
      index * (builtView options node root).entrySize =
      0x38 + index * entrySize (nodeShape node root options).fixed := rfl
  have hoffset : (if isGhost (nodeShape node root options).leaf record = true then 0xFFFF
      else (nodeShape node root options).infoStart - valueCursor) < 256 ^ 2 := by
    split <;> omega
  generalize (nodeShape node root options) = shape at *
  generalize 0x38 + index * entrySize shape.fixed = toc at *
  have hkeyRead : readU16LE bytes toc = some (keyCursor - shape.keyAreaStart) :=
    hfields.readLE (by simp [entryFields]) (by norm_num) (by omega)
  unfold readEntryRow builtRow
  dsimp only
  rw [hentry, hviewFixed]
  cases hfixed : shape.fixed with
  | true =>
    have hvalueRead : readU16LE bytes (toc + 2) = some (if isGhost shape.leaf record = true
        then 0xFFFF else shape.infoStart - valueCursor) :=
      hfields.readLE (by simp [entryFields, hfixed]) (by norm_num) hoffset
    rw [hfixed] at hfixedEq
    have hfixedSpec := hfixedEq.symm
    unfold nodeUsesFixedKv at hfixedSpec
    simp only [Bool.and_eq_true, bne_iff_ne, Bool.or_eq_true, Bool.not_eq_true'] at hfixedSpec
    obtain ⟨hkeyNe, hvalueNe⟩ := hfixedSpec
    have hsizes : ¬(0xFFFF < (layoutOf options totals).treeKeySize ∨
        ((builtView options node root).level = 0 ∧
          0xFFFF < (layoutOf options totals).treeValueSize)) := by
      rintro (hlt | ⟨-, hlt⟩)
      · exact absurd hkeyMax (not_le.mpr hlt)
      · exact absurd hvalueMax (not_le.mpr hlt)
    rw [if_pos rfl, if_neg hsizes, hkeyRead, hvalueRead]
    simp only [Option.getD_some, Except.ok.injEq, EntryRow.mk.injEq, true_and]
    refine ⟨(hkeySize hkeyNe).symm, ?_⟩
    by_cases hlevel : node.level = 0
    · have hleafTrue : shape.leaf = true := by rw [hleaf, hlevel]; rfl
      rw [if_pos (hviewLevel.trans hlevel)]
      split
      · rfl
      · rename_i hnot
        have hne := hvalueNe.resolve_left (by rw [hleafTrue]; decide)
        have heq := hvalueSize (by simpa using hnot) (by rwa [if_pos hleafTrue])
        rw [heq, if_pos hleafTrue]
        rfl
    · have hleafFalse : shape.leaf = false := by rw [hleaf]; simpa using hlevel
      have hnot : isGhost shape.leaf record = false := by rw [hleafFalse]; rfl
      rw [if_neg (fun hzero => hlevel (hviewLevel.symm.trans hzero)), hnot,
        hvalueSize hnot (by simp [hleafFalse]), hleafFalse]
      rfl
  | false =>
    have hnot : isGhost shape.leaf record = false := by
      by_contra hyes
      obtain ⟨hkeyNe, hvalueNe⟩ := hghost (by simpa using hyes)
      rw [hfixed] at hfixedEq
      unfold nodeUsesFixedKv at hfixedEq
      simp [hkeyNe, hvalueNe] at hfixedEq
    rw [hnot] at hoffset ⊢
    have hlengthRead : readU16LE bytes (toc + 2) = some record.key.length :=
      hfields.readLE (by simp [entryFields, hfixed]) (by norm_num) (by omega)
    have hvalueRead : readU16LE bytes (toc + 4) = some (shape.infoStart - valueCursor) :=
      hfields.readLE (by simp [entryFields, hfixed, hnot]) (by norm_num) hoffset
    have hvalueLengthRead : readU16LE bytes (toc + 6) = some record.value.length :=
      hfields.readLE (by simp [entryFields, hfixed]) (by norm_num) (by omega)
    rw [hkeyRead, hlengthRead, hvalueRead, hvalueLengthRead, if_neg Bool.false_ne_true]
    refine if_neg ?_
    rintro (⟨hne, hcontra⟩ | ⟨hlevel, hne, hcontra⟩)
    · exact hcontra (hkeySize hne)
    · have hleafTrue : shape.leaf = true := by
        rw [hleaf, ← hviewLevel, hlevel]
        rfl
      have heq := hvalueSize hnot (by rwa [if_pos hleafTrue])
      rw [if_pos hleafTrue] at heq
      exact hcontra heq

/-- A parent record whose child can be found. -/
def ChildResolves (request : BtreeRead) (record : BtreeRecord) : Prop :=
  leValue record.value ≠ 0 ∧ (resolved request (leValue record.value)).1 ≠ 0

theorem resolveChild_eq_resolved {childObjectId : ℕ}
    (h : (resolved request childObjectId).1 ≠ 0) :
    resolveChild request childObjectId = .ok (resolved request childObjectId) := by
  unfold resolved at *
  split at h
  · rename_i address heq
    rw [heq]
  · exact absurd rfl h

/-- The state of the entry loop after a list of records. -/
def entriesState (request : BtreeRead) (level : ℕ) (upper : Bytes) (records : List BtreeRecord) :
    EntryState :=
  { previousKey := (records.getLast?.map BtreeRecord.key).getD []
    children := if level = 0 then [] else childrenPending request level records upper
    records := if level = 0 then records else [] }

theorem takeEntry_built (hreads : ReadsTree request options) {view : NodeView}
    {record : BtreeRecord} {records : List BtreeRecord}
    {valueLength : ℕ} (hchild : view.level ≠ 0 → record.value.length = 8 ∧ valueLength = 8 ∧
      ChildResolves request record) :
    takeEntry request current view record.key record.value valueLength
        { previousKey := record.key
          children := setLastUpper
            (entriesState request view.level current.upper records).children record.key
          records := (entriesState request view.level current.upper records).records } =
      .ok (entriesState request view.level current.upper (records ++ [record])) := by
  unfold takeEntry entriesState
  simp only [List.getLast?_append_cons, List.getLast?_singleton, Option.map_some, Option.getD_some]
  by_cases hlevel : view.level = 0
  · simp only [hlevel, if_true]
    rfl
  · obtain ⟨hvalue, rfl, hid, hblock⟩ := hchild hlevel
    have hslice : slice record.value 0 8 = record.value := by
      rw [← hvalue, slice_zero_length]
    rw [if_neg hlevel, rejectIf_bind_of_not _ _ (by omega), rejectIf_bind_of_not _ _ (by omega),
      hslice, rejectIf_bind_of_not _ _ (by omega), resolveChild_eq_resolved hblock]
    simp only [if_neg hlevel]
    rw [childrenPending_append_cons, setLastUpper_childrenPending]
    show (if _ then _ else _) = _
    rw [if_neg hblock, hreads.compareKeys]
    rfl

/-- Where a record's key and value lie between the areas of its node. -/
structure EntryBounds (view : NodeView) (shape : NodeShape) (length keyCursor valueCursor : ℕ)
    (record : BtreeRecord) : Prop where
  keyArea : shape.keyAreaStart ≤ keyCursor
  headerEnd : 0x38 ≤ shape.keyAreaStart
  key : keyCursor + record.key.length ≤ view.freeStart
  free : view.freeStart ≤ view.valueAreaStart
  value : view.valueAreaStart ≤ valueCursor
  valueEnd : valueCursor + record.value.length ≤ shape.infoStart
  info : shape.infoStart ≤ length
  length : length ≤ 65536

theorem readEntry_built (hreads : ReadsTree request options) (hoptions : OptionsValid options)
    {record : BtreeRecord} {records : List BtreeRecord} {index keyCursor valueCursor : ℕ}
    (hadmitted : recordAdmitted options (nodeShape node root options).leaf record = true)
    (hghost : isGhost (nodeShape node root options).leaf record = true →
      options.fixedKeySize ≠ 0 ∧ options.fixedValueSize ≠ 0)
    (hfields : FieldsAt bytes (entryFields (nodeShape node root options)
      (0x38 + index * entrySize (nodeShape node root options).fixed) keyCursor valueCursor record))
    (hbounds : EntryBounds (builtView options node root) (nodeShape node root options) bytes.length
      keyCursor valueCursor record)
    (hkeyNe : record.key ≠ [])
    (hplaced : KeyPlaced options.keyOrder index
      (entriesState request node.level current.upper records).previousKey current.lower
      current.upper record.key)
    (hchild : node.level ≠ 0 → ChildResolves request record) :
    readEntry request (layoutOf options totals) current (builtView options node root) bytes index
        (entriesState request node.level current.upper records) =
      .ok (entriesState request node.level current.upper (records ++ [record])) := by
  obtain ⟨hkeyArea, hheaderEnd, hkey, hfree, hvalue, hvalueEnd, hinfo, hlength⟩ := hbounds
  have hrow : readEntryRow (layoutOf options totals) (builtView options node root) bytes index =
      .ok (builtRow options (nodeShape node root options) keyCursor valueCursor record) :=
    readEntryRow_built hoptions hadmitted hghost hfields (by omega) (by omega)
  obtain ⟨-, hvalueSize, -, -, hghosts⟩ := recordAdmitted_spec hadmitted
  have hleaf : (nodeShape node root options).leaf = (node.level == 0) := rfl
  have hviewLevel : (builtView options node root).level = node.level := rfl
  have hviewKeyArea : (builtView options node root).keyAreaStart =
      (nodeShape node root options).keyAreaStart := rfl
  have hviewEnd : (builtView options node root).valueAreaEnd =
      (nodeShape node root options).infoStart := rfl
  have hkeyPos : 0 < record.key.length := List.length_pos_iff.mpr hkeyNe
  have hkeySlice : slice bytes keyCursor record.key.length = record.key :=
    hfields (keyCursor, record.key) (by simp [entryFields])
  have hvalueSlice : isGhost (nodeShape node root options).leaf record = false →
      slice bytes valueCursor record.value.length = record.value := fun hnot =>
    hfields (valueCursor, record.value) (by simp [entryFields, hnot])
  have hghostEq : decide ((builtView options node root).level = 0 ∧
      (builtRow options (nodeShape node root options) keyCursor valueCursor record).valueOffset =
        0xFFFF) = isGhost (nodeShape node root options).leaf record := by
    rw [Bool.eq_iff_iff, decide_eq_true_iff]
    unfold builtRow
    cases hg : isGhost (nodeShape node root options).leaf record with
    | true =>
      simp only [isGhost, hleaf, Bool.and_eq_true, beq_iff_eq] at hg
      simp [hviewLevel, hg.1]
    | false =>
      simp only [Bool.false_eq_true, if_false, iff_false, not_and]
      omega
  have hchild' : (builtView options node root).level ≠ 0 → record.value.length = 8 ∧
      (builtRow options (nodeShape node root options) keyCursor valueCursor record).valueLength =
        8 ∧ ChildResolves request record := by
    intro hlevel
    have hleafFalse : (nodeShape node root options).leaf = false := by
      rw [hleaf]
      exact beq_false_of_ne hlevel
    have hnot : isGhost (nodeShape node root options).leaf record = false := by
      rw [hleafFalse]
      rfl
    have height : record.value.length = 8 := by
      rw [hvalueSize hnot (by simp [hleafFalse]), hleafFalse]
      rfl
    refine ⟨height, ?_, hchild hlevel⟩
    unfold builtRow
    rw [hnot, height]
    rfl
  have htake : takeEntry request current (builtView options node root) record.key record.value
      (builtRow options (nodeShape node root options) keyCursor valueCursor record).valueLength
      { previousKey := record.key
        children := setLastUpper
          (entriesState request node.level current.upper records).children record.key
        records := (entriesState request node.level current.upper records).records } =
      .ok (entriesState request node.level current.upper (records ++ [record])) :=
    takeEntry_built hreads hchild'
  have hkeyStart : (nodeShape node root options).keyAreaStart + (builtRow options
      (nodeShape node root options) keyCursor valueCursor record).keyOffset = keyCursor := by
    unfold builtRow
    dsimp only
    omega
  have hkeyLength : (builtRow options (nodeShape node root options) keyCursor valueCursor
      record).keyLength = record.key.length := rfl
  have hrowValue : isGhost (nodeShape node root options).leaf record = false →
      (builtRow options (nodeShape node root options) keyCursor valueCursor record).valueOffset =
          (nodeShape node root options).infoStart - valueCursor ∧
        (builtRow options (nodeShape node root options) keyCursor valueCursor record).valueLength =
          record.value.length := by
    intro hnot
    unfold builtRow
    rw [hnot]
    exact ⟨rfl, rfl⟩
  generalize builtRow options (nodeShape node root options) keyCursor valueCursor record = row at *
  generalize builtView options node root = view at *
  generalize nodeShape node root options = shape at *
  have hrouting : checkRouting (routingCompare options.keyOrder) current view.level index
      (entriesState request node.level current.upper records).previousKey record.key = .ok () :=
    checkRouting_placed hplaced
  unfold readEntry
  rw [hrow, ok_bind]
  dsimp only
  rw [hghostEq, hreads.compareKeys, hreads.requireCompleteTraversal, hreads.includeGhostRecords,
    hviewKeyArea, hviewEnd, hkeyStart, hkeyLength]
  dsimp only
  cases hg : isGhost shape.leaf record with
  | true =>
    have hallowed := hghosts hg
    have hempty : record.value = [] := by
      simp only [isGhost, Bool.and_eq_true, List.isEmpty_iff] at hg
      exact hg.2
    rw [hallowed, rejectIf_bind_of_not _ _ (by simp [hkeyNe]; omega), if_neg (by simp; omega),
      rejectIf_bind_of_not _ _ (by simp; omega), rejectIf_bind_of_not _ _ (by simp; omega),
      hkeySlice, hrouting, ok_bind, ← htake, hempty]
    rfl
  | false =>
    obtain ⟨hvalueOffset, hvalueLength⟩ := hrowValue hg
    have hvalueStart : shape.infoStart - (shape.infoStart - valueCursor) = valueCursor := by omega
    rw [rejectIf_bind_of_not _ _ (by simp [hkeyNe]; omega), if_neg (by simp; omega), hvalueOffset,
      hvalueLength, if_neg Bool.false_ne_true, if_neg Bool.false_ne_true, hvalueStart,
      rejectIf_bind_of_not _ _ (by simp; omega), rejectIf_bind_of_not _ _ (by simp; omega),
      hkeySlice, hrouting, ok_bind, hvalueSlice hg, ← hvalueLength, htake]

/-! ## One node -/

/-- What the walk needs to know about a node before it reads it. -/
structure NodeReadable (request : BtreeRead) (options : AppleBtreeOptions)
    (node : PendingTreeNode) (current : PendingNode) : Prop where
  keys : ∀ record ∈ node.records, record.key ≠ [] ∧ KeyValid options.keyOrder record.key
  sorted : node.records.Pairwise
    fun a b => keyRank options.keyOrder a.key < keyRank options.keyOrder b.key
  lower : current.lower = [] ∨ node.records.head?.map BtreeRecord.key = some current.lower
  upper : current.upper = [] ∨ (KeyValid options.keyOrder current.upper ∧
    ∀ record ∈ node.records,
      keyRank options.keyOrder record.key < keyRank options.keyOrder current.upper)
  ghosts : node.level = 0 → GhostsFixed options node.records
  children : node.level ≠ 0 → ∀ record ∈ node.records, ChildResolves request record

/-- The key of a record stands where the reader expects it. -/
theorem NodeReadable.keyPlaced (h : NodeReadable request options node current)
    {front back : List BtreeRecord} {record : BtreeRecord}
    (hrecords : node.records = front ++ record :: back) :
    KeyPlaced options.keyOrder front.length
      (entriesState request node.level current.upper front).previousKey current.lower current.upper
      record.key := by
  have hmem : record ∈ node.records := by
    rw [hrecords]
    simp
  have hsorted := h.sorted
  rw [hrecords, List.pairwise_append] at hsorted
  have hbefore : ∀ other ∈ front, keyRank options.keyOrder other.key <
      keyRank options.keyOrder record.key :=
    fun other hother => hsorted.2.2 other hother record (List.mem_cons_self ..)
  refine ⟨(h.keys record hmem).2, ?_, ?_, ?_⟩
  · unfold entriesState
    dsimp only
    cases hlast : front.getLast? with
    | none => exact .inl rfl
    | some last =>
      have hlastMem : last ∈ front := List.mem_of_getLast? hlast
      refine .inr ⟨(h.keys last ?_).2, hbefore last hlastMem⟩
      rw [hrecords]
      exact List.mem_append_left _ hlastMem
  · refine h.lower.imp_right fun hfirst => ?_
    cases front with
    | nil =>
      rw [hrecords] at hfirst
      simp only [List.nil_append, List.head?_cons, Option.map_some, Option.some.injEq] at hfirst
      rw [← hfirst]
      exact ⟨(h.keys record hmem).2, le_rfl, fun _ => rfl⟩
    | cons first front =>
      have hfirstMem : first ∈ node.records := by
        rw [hrecords]
        simp
      rw [hrecords] at hfirst
      simp only [List.cons_append, List.head?_cons, Option.map_some, Option.some.injEq] at hfirst
      rw [← hfirst]
      refine ⟨(h.keys first hfirstMem).2, (hbefore first (List.mem_cons_self ..)).le, ?_⟩
      intro hzero
      simp at hzero
  · exact h.upper.imp_right fun hupper => ⟨hupper.1, hupper.2 record hmem⟩

/-- **The entry loop of the reader undoes that of the writer.**  The induction is over the
records still to be read; the cursors are those of the writer. -/
theorem readEntries_built (hreads : ReadsTree request options) (hoptions : OptionsValid options)
    (hbuilt : BuiltNode options totals node root bytes)
    (hreadable : NodeReadable request options node current) (rest : List BtreeRecord) :
    ∀ (front : List BtreeRecord) (keyCursor valueCursor : ℕ), node.records = front ++ rest →
      EntriesAt (nodeShape node root options) bytes rest
        (0x38 + front.length * entrySize (nodeShape node root options).fixed) keyCursor
        valueCursor →
      (nodeShape node root options).keyAreaStart ≤ keyCursor →
      keyCursor + keySpans (nodeAligned options) rest = (builtView options node root).freeStart →
      (builtView options node root).valueAreaStart + valueSpans (nodeAligned options) rest =
        valueCursor →
      valueCursor ≤ (nodeShape node root options).infoStart →
      readEntries request (layoutOf options totals) current (builtView options node root) bytes
          rest.length front.length (entriesState request node.level current.upper front) =
        .ok (entriesState request node.level current.upper (front ++ rest)) := by
  obtain ⟨hinfo, hkeyAreaEq, -, -⟩ := hbuilt.bounds hoptions
  have hfit := hbuilt.fits
  have hblock := hoptions.blockSize_le
  have hlength := hbuilt.length
  have haligned : (nodeShape node root options).aligned = nodeAligned options := rfl
  have hfreeStart : (builtView options node root).freeStart =
      (nodeShape node root options).keyAreaStart + keySpans (nodeAligned options) node.records := rfl
  have hvalueStart : (builtView options node root).valueAreaStart =
      (nodeShape node root options).infoStart - valueSpans (nodeAligned options) node.records := rfl
  induction rest with
  | nil =>
    intro front keyCursor valueCursor hrecords hentries hkeyArea hkeys hvalues hend
    rw [List.append_nil]
    rfl
  | cons record rest ih =>
    intro front keyCursor valueCursor hrecords hentries hkeyArea hkeys hvalues hend
    obtain ⟨hfields, hentries⟩ := hentries
    have hmem : record ∈ node.records := by
      rw [hrecords]
      simp
    have hkeyLe := le_storedLength record.key.length (nodeAligned options)
    have hvalueLe := le_storedLength record.value.length (nodeAligned options)
    rw [keySpans_cons] at hkeys
    rw [valueSpans_cons] at hvalues
    have hnext : nextValueCursor (nodeShape node root options) valueCursor record +
        storedLength record.value.length (nodeAligned options) = valueCursor := by
      unfold nextValueCursor
      rw [haligned]
      omega
    have hghost : isGhost (nodeShape node root options).leaf record = true →
        options.fixedKeySize ≠ 0 ∧ options.fixedValueSize ≠ 0 := by
      intro hg
      have hleaf : (nodeShape node root options).leaf = (node.level == 0) := rfl
      simp only [isGhost, hleaf, Bool.and_eq_true, beq_iff_eq, List.isEmpty_iff] at hg
      exact hreadable.ghosts hg.1 record hmem hg.2
    have hread : readEntry request (layoutOf options totals) current
        (builtView options node root) bytes front.length
        (entriesState request node.level current.upper front) =
        .ok (entriesState request node.level current.upper (front ++ [record])) :=
      readEntry_built hreads hoptions (hbuilt.admitted record hmem) hghost hfields
        ⟨hkeyArea, by omega, by omega, by omega, by omega, by omega, by omega, by omega⟩
        (hreadable.keys record hmem).1 (hreadable.keyPlaced hrecords)
        (fun hlevel => hreadable.children hlevel record hmem)
    have htoc : 0x38 + (front ++ [record]).length * entrySize (nodeShape node root options).fixed =
        0x38 + front.length * entrySize (nodeShape node root options).fixed +
          entrySize (nodeShape node root options).fixed := by
      rw [List.length_append, List.length_singleton, Nat.succ_mul]
      omega
    have hrest := ih (front ++ [record]) (keyCursor + storedLength record.key.length
        (nodeAligned options)) (nextValueCursor (nodeShape node root options) valueCursor record)
      (by rw [hrecords, List.append_assoc]; rfl) (by rw [htoc]; exact hentries) (by omega)
      (by omega) (by omega) (by omega)
    rw [List.length_cons, readEntries, hread]
    dsimp only
    rw [List.length_append, List.length_singleton, List.append_assoc] at hrest
    exact hrest

/-- **Reading a built node back.**  A leaf gives its records, any other node its children. -/
theorem readNode_built (hreads : ReadsTree request options) (hoptions : OptionsValid options)
    (hbuilt : BuiltNode options totals node root bytes)
    (hholds : request.source.Holds options.blockSize node.physicalBlock bytes)
    (hreadable : NodeReadable request options node current)
    (hobjectIdLt : node.objectId < 2 ^ 64) (hlevel : node.level < 0xFFFF)
    (hblock : current.physicalBlock = node.physicalBlock)
    (hobjectId : current.objectId = node.objectId) (hroot : current.root = root)
    (hexpected : ∀ expected ∈ current.expectedLevel, expected = node.level)
    (hxid : ∀ xid ∈ current.mappingXid, options.xid ≤ xid)
    (hnonempty : root = false ∨ node.level ≠ 0 → node.records ≠ [])
    (hlayout : root = false → layout = layoutOf options totals)
    (hkeys : totals.leafKeyCount < 2 ^ 64) (hnodes : totals.nodeCount < 2 ^ 64) :
    readNode request layout current =
      .ok (layoutOf options totals,
        entriesState request node.level current.upper node.records) := by
  have hvalues := hbuilt.headerValues hoptions hobjectIdLt (by omega)
  have hfit := hbuilt.fits
  have hlayout' : readLayout request layout bytes = .ok (layoutOf options totals) := by
    cases root with
    | true => exact readLayout_root hreads hoptions hbuilt hvalues hkeys hnodes
    | false =>
      rw [hlayout rfl]
      exact readLayout_nonroot hvalues
  have hentries := readEntries_built hreads hoptions hbuilt hreadable node.records []
    (nodeShape node root options).keyAreaStart (nodeShape node root options).infoStart rfl
    (by rw [List.length_nil, Nat.zero_mul]; exact hbuilt.entries) le_rfl rfl
    (Nat.sub_add_cancel (by omega)) le_rfl
  unfold readNode
  rw [readNodeBlock_built hreads hoptions hbuilt hvalues hholds hblock hxid, ok_bind,
    checkIdentity_built hreads hoptions hvalues hobjectId hroot, ok_bind,
    checkHeader_built hoptions hbuilt hvalues hlevel hexpected hroot
      (fun hne => hnonempty (.inr hne)), ok_bind, hlayout', ok_bind]
  dsimp only
  rw [nodeViewOf_built hbuilt hvalues,
    checkAreas_built hoptions hbuilt hroot (fun hfalse => hnonempty (.inl hfalse)), ok_bind]
  have hcount : (builtView options node root).keyCount = node.records.length := rfl
  rw [hcount]
  have hstart : (⟨[], [], []⟩ : EntryState) =
      entriesState request node.level current.upper [] := by
    unfold entriesState
    simp [childrenPending]
  rw [hstart]
  rw [List.length_nil, List.nil_append] at hentries
  rw [hentries]
  rfl

end Checks

end Btree
end ApfsAccess
