import ApfsAccess.Checkpoint.Superblock
import ApfsAccess.Library.RunningSums

/-!
# The checkpoint loader

`LoadContainerCheckpointView` reads block zero, the whole descriptor ring and, for
every descriptor slot that parses as a superblock, the checkpoint maps and the mapped
objects of that generation.  The generation with the largest transaction id wins; with
an exact transaction id exactly one complete generation must carry it.

The sources of the model have no read budget, so the budget's own refusals do not
occur.
-/

namespace ApfsAccess
namespace Checkpoint

open ByteBuffer Format RunningSums

/-- `kMaxCheckpointAreaBlocks`. -/
def maxCheckpointAreaBlocks : ℕ := 65536

/-- `kCheckpointMappingBytes`. -/
def checkpointMappingBytes : ℕ := 0x28

/-- `kObjectTypeCheckpointMap`. -/
def objectTypeCheckpointMap : ℕ := 0x0C

/-- `kObjectNoHeader`. -/
def objectNoHeader : ℕ := 0x20000000

/-- `TryBlockOffset`. -/
def tryBlockOffset (storeOffset blockNumber blockSize : ℕ) : Option ℕ :=
  if blockSize = 0 ∨ (2 ^ 64 - 1 - storeOffset) / blockSize < blockNumber then none
  else some (storeOffset + blockNumber * blockSize)

/-- `AreaFitsStore`. -/
def areaFitsStore (base count : ℕ) (superblock : NxSuperblock) (storeSizeBytes : ℕ) : Bool :=
  if count = 0 then base == 0
  else if base = 0 ∨ superblock.blockCount ≤ base ∨ superblock.blockCount - base < count then false
  else base + count ≤ storeSizeBytes / superblock.blockSize

/-- `RingFieldsValid`. -/
def ringFieldsValid (index length next count : ℕ) : Bool :=
  if count = 0 then index == 0 && length == 0 && next == 0
  else if count ≤ index ∨ count < length ∨ count ≤ next then false
  else next == (index + length) % count

/-- The inner loop of `RingContainsRange`: the candidate starts at ring position `outer`. -/
def ringRangeFollows (index length count candidateIndex candidateLength outer : ℕ) : Bool :=
  (List.range candidateLength).all fun inner =>
    (candidateIndex + inner) % count == (index + outer + inner) % count && outer + inner < length

/-- `RingContainsRange`: the first position of the ring that is the candidate's index decides. -/
def ringContainsRange (index length count candidateIndex candidateLength : ℕ) : Bool :=
  if count = 0 ∨ candidateLength = 0 ∨ length < candidateLength then false
  else
    match (List.range length).find? fun outer => (index + outer) % count == candidateIndex with
    | none => false
    | some outer => ringRangeFollows index length count candidateIndex candidateLength outer

/-! ## The checksum of a mapped object -/

/-- The physical block of a position of the data ring. -/
def dataRingBlock (superblock : NxSuperblock) (firstRelativeBlock ordinal : ℕ) : ℕ :=
  (superblock.xpDataBaseBlock +
    (firstRelativeBlock + ordinal) % superblock.xpDataBlockCount) % 2 ^ 64

/-- One block of the data ring, as the checksum loop reads it. -/
def readDataRingBlock (source : RandomAccessSource) (storeOffset : ℕ)
    (superblock : NxSuperblock) (firstRelativeBlock ordinal : ℕ) : Option Bytes :=
  (tryBlockOffset storeOffset (dataRingBlock superblock firstRelativeBlock ordinal)
    superblock.blockSize).bind fun offset => source.read offset superblock.blockSize

/-- The words of a block from a byte position on. -/
def wordsFrom (block : Bytes) (start : ℕ) : List ℕ :=
  (List.range ((block.length - start + 3) / 4)).map fun index => u32At block (start + 4 * index)

/-- The state of the checksum loop: the checksum the first block carries and both sums. -/
structure MappedSums where
  stored : ℕ
  sums : ℕ × ℕ
  deriving DecidableEq, Repr

/-- One turn of the loop of `VerifyMappedObjectChecksum`. -/
def mappedChecksumStep (source : RandomAccessSource) (storeOffset : ℕ)
    (superblock : NxSuperblock) (firstRelativeBlock : ℕ) (state : MappedSums) (ordinal : ℕ) :
    Option MappedSums :=
  (readDataRingBlock source storeOffset superblock firstRelativeBlock ordinal).bind fun block =>
    if ordinal = 0 then
      if u64At block 0 = 0 ∨ u64At block 0 = 2 ^ 64 - 1 then none
      else some ⟨u64At block 0, (wordsFrom block 8).foldl (reducedStep fletcherModulus) state.sums⟩
    else some { state with sums := (wordsFrom block 0).foldl (reducedStep fletcherModulus) state.sums }

/-- The value the loop's sums fold to. -/
def foldedChecksum (sums : ℕ × ℕ) : ℕ :=
  let low := fletcherModulus - (sums.1 + sums.2) % fletcherModulus
  let high := fletcherModulus - (sums.1 + low) % fletcherModulus
  high * 2 ^ 32 + low

/-- The loop of `VerifyMappedObjectChecksum`. -/
def mappedChecksumLoop (source : RandomAccessSource) (storeOffset : ℕ)
    (superblock : NxSuperblock) (firstRelativeBlock objectBlocks : ℕ) : Option MappedSums :=
  (List.range objectBlocks).foldlM
    (mappedChecksumStep source storeOffset superblock firstRelativeBlock) ⟨0, (0, 0)⟩

/-- `VerifyMappedObjectChecksum`. -/
def verifyMappedObjectChecksum (source : RandomAccessSource) (storeOffset : ℕ)
    (superblock : NxSuperblock) (firstRelativeBlock objectBlocks : ℕ) : Bool :=
  match mappedChecksumLoop source storeOffset superblock firstRelativeBlock objectBlocks with
  | none => false
  | some state => foldedChecksum state.sums == state.stored

/-! ## Checkpoint maps -/

/-- The mapping in one slot of a checkpoint map block. -/
def mappingAt (block : Bytes) (index : ℕ) : CheckpointMapping where
  type := u32At block (0x28 + index * checkpointMappingBytes)
  subtype := u32At block (0x28 + index * checkpointMappingBytes + 0x04)
  sizeBytes := u32At block (0x28 + index * checkpointMappingBytes + 0x08)
  fileSystemOid := u64At block (0x28 + index * checkpointMappingBytes + 0x10)
  objectId := u64At block (0x28 + index * checkpointMappingBytes + 0x18)
  physicalBlock := u64At block (0x28 + index * checkpointMappingBytes + 0x20)

/-- The checks on one mapping. -/
def mappingRefused (block : Bytes) (index : ℕ) : Prop :=
  u32At block (0x28 + index * checkpointMappingBytes + 0x0C) ≠ 0 ∨
    (mappingAt block index).type &&& objectStorageTypeMask ≠ objectEphemeral ∨
    (mappingAt block index).subtype &&& objectStorageTypeMask ≠ 0 ∨
    (mappingAt block index).sizeBytes = 0 ∨ (mappingAt block index).objectId = 0 ∨
    (mappingAt block index).physicalBlock = 0

instance (block : Bytes) (index : ℕ) : Decidable (mappingRefused block index) := by
  unfold mappingRefused
  infer_instance

/-- `ParseCheckpointMapBlock`: the mappings of the block and whether it is the last one. -/
def parseCheckpointMapBlock (block : Bytes) (expectedXid expectedPhysicalBlock : ℕ) :
    Option (List CheckpointMapping × Bool) :=
  if verifyObjectChecksum block block.length = false ∨
      u64At block 0x08 ≠ expectedPhysicalBlock ∨ u64At block 0x10 ≠ expectedXid ∨
      u32At block 0x18 ≠ objectPhysical + objectTypeCheckpointMap ∨ u32At block 0x1C ≠ 0 then none
  else if 1 < u32At block 0x20 then none
  else if (block.length - 0x28) / checkpointMappingBytes < u32At block 0x24 then none
  else if ∃ index ∈ List.range (u32At block 0x24), mappingRefused block index then none
  else some ((List.range (u32At block 0x24)).map (mappingAt block), u32At block 0x20 == 1)

/-- `ValidateMappedObject`. -/
def validateMappedObject (source : RandomAccessSource) (storeOffset storeSizeBytes : ℕ)
    (superblock : NxSuperblock) (mapping : CheckpointMapping) : Bool :=
  if mapping.sizeBytes % superblock.blockSize ≠ 0 ∨ superblock.xpDataBlockCount = 0 then false
  else
    let objectBlocks := mapping.sizeBytes / superblock.blockSize
    if objectBlocks = 0 ∨ superblock.xpDataBlockCount < objectBlocks ∨
        mapping.physicalBlock < superblock.xpDataBaseBlock then false
    else
      let relative := mapping.physicalBlock - superblock.xpDataBaseBlock
      if superblock.xpDataBlockCount ≤ relative ∨
          ringContainsRange superblock.xpDataIndex superblock.xpDataLen
            superblock.xpDataBlockCount relative objectBlocks = false then false
      else
        match tryBlockOffset storeOffset mapping.physicalBlock superblock.blockSize with
        | none => false
        | some objectOffset =>
          -- the remaining size of the store is an unsigned difference
          if objectOffset < storeOffset ∨
              (storeSizeBytes + 2 ^ 64 - (objectOffset - storeOffset)) % 2 ^ 64 <
                superblock.blockSize then false
          else if mapping.type &&& objectNoHeader ≠ 0 then true
          else
            match source.read objectOffset 32 with
            | none => false
            | some header =>
              if u64At header 0x08 ≠ mapping.objectId ∨ u64At header 0x10 ≠ superblock.xid ∨
                  u32At header 0x18 ≠ mapping.type ∨ u32At header 0x1C ≠ mapping.subtype then false
              else
                verifyMappedObjectChecksum source storeOffset superblock relative objectBlocks

/-! ## Generations -/

/-- `ContainerCheckpointView`. -/
structure ContainerCheckpointView where
  superblock : NxSuperblock
  superblockPhysicalBlock : ℕ
  superblockBytes : Bytes
  checkpointMapBlocks : List ℕ
  mappings : List CheckpointMapping
  deriving DecidableEq, Repr

/-- `SameCheckpointGeometry`. -/
def sameCheckpointGeometry (left right : NxSuperblock) : Bool :=
  left.uuid == right.uuid && left.blockSize == right.blockSize &&
    left.blockCount == right.blockCount && left.xpDescBlocksRaw == right.xpDescBlocksRaw &&
    left.xpDataBlocksRaw == right.xpDataBlocksRaw &&
    left.xpDescBaseBlock == right.xpDescBaseBlock && left.xpDataBaseBlock == right.xpDataBaseBlock

/-- One mapping of a generation, added to those already read. -/
def addMapping (source : RandomAccessSource) (storeOffset storeSizeBytes : ℕ)
    (superblock : NxSuperblock) (mappings : List CheckpointMapping)
    (mapping : CheckpointMapping) : Option (List CheckpointMapping) :=
  if (mappings.any fun earlier => earlier.objectId == mapping.objectId) = true ∨
      validateMappedObject source storeOffset storeSizeBytes superblock mapping = false then none
  else some (mappings ++ [mapping])

/-- One checkpoint map block of a generation. -/
def addMapBlock (source : RandomAccessSource) (storeOffset storeSizeBytes : ℕ)
    (candidate : NxSuperblock) (descriptorBlocks : List Bytes) (mappings : List CheckpointMapping)
    (offset : ℕ) : Option (List CheckpointMapping) :=
  let ringIndex := (candidate.xpDescIndex + offset) % candidate.xpDescBlockCount
  match parseCheckpointMapBlock (descriptorBlocks.getD ringIndex []) candidate.xid
      ((candidate.xpDescBaseBlock + ringIndex) % 2 ^ 64) with
  | none => none
  | some (blockMappings, isLast) =>
    if isLast ≠ decide (offset + 1 = candidate.xpDescLen - 1) then none
    else blockMappings.foldlM (addMapping source storeOffset storeSizeBytes candidate) mappings

/-- The checks `BuildCheckpointCandidate` makes on a superblock before it reads its maps. -/
def candidateRefused (anchor candidate : NxSuperblock) (candidateIndex : ℕ) : Prop :=
  sameCheckpointGeometry anchor candidate = false ∨
    ringFieldsValid candidate.xpDescIndex candidate.xpDescLen candidate.xpDescNext
      candidate.xpDescBlockCount = false ∨
    candidate.xpDescLen = 0 ∨
    candidateIndex ≠ (candidate.xpDescNext + candidate.xpDescBlockCount - 1) %
      candidate.xpDescBlockCount ∨
    ringFieldsValid candidate.xpDataIndex candidate.xpDataLen candidate.xpDataNext
      candidate.xpDataBlockCount = false

instance (anchor candidate : NxSuperblock) (candidateIndex : ℕ) :
    Decidable (candidateRefused anchor candidate candidateIndex) := by
  unfold candidateRefused
  infer_instance

/-- `BuildCheckpointCandidate`. -/
def buildCheckpointCandidate (source : RandomAccessSource) (storeOffset storeSizeBytes : ℕ)
    (anchor : NxSuperblock) (descriptorBlocks : List Bytes) (candidateIndex : ℕ)
    (exactCheckpointXid : Option ℕ) : Option ContainerCheckpointView :=
  match parseNxSuperblock (descriptorBlocks.getD candidateIndex []) with
  | none => none
  | some candidate =>
    if candidateRefused anchor candidate candidateIndex then none
    else if exactCheckpointXid.isSome ∧ exactCheckpointXid ≠ some candidate.xid then none
    else
      match (List.range (candidate.xpDescLen - 1)).foldlM
          (addMapBlock source storeOffset storeSizeBytes candidate descriptorBlocks) [] with
      | none => none
      | some mappings =>
        if (candidate.spacemanOid ≠ 0 ∧
              ∀ mapping ∈ mappings, mapping.objectId ≠ candidate.spacemanOid) ∨
            (candidate.reaperOid ≠ 0 ∧
              ∀ mapping ∈ mappings, mapping.objectId ≠ candidate.reaperOid) then none
        else some
          { superblock := candidate
            superblockPhysicalBlock := (candidate.xpDescBaseBlock + candidateIndex) % 2 ^ 64
            superblockBytes := descriptorBlocks.getD candidateIndex []
            checkpointMapBlocks := (List.range (candidate.xpDescLen - 1)).map fun offset =>
              (candidate.xpDescBaseBlock +
                (candidate.xpDescIndex + offset) % candidate.xpDescBlockCount) % 2 ^ 64
            mappings := mappings }

/-- `LoadLegacySyntheticCheckpoint`. -/
def loadLegacySyntheticCheckpoint (source : RandomAccessSource)
    (storeOffsetBytes storeSizeBytes : ℕ) (primary : NxSuperblock) (primaryBytes : Bytes) :
    Option ContainerCheckpointView :=
  let selected : ContainerCheckpointView := ⟨primary, 0, primaryBytes, [], []⟩
  if storeSizeBytes < primary.blockSize * 2 then some selected
  else
    match (tryBlockOffset storeOffsetBytes 1 primary.blockSize).bind
        fun offset => readBlockAt source offset primary.blockSize with
    | none => some selected
    | some second =>
      match parseNxSuperblock second with
      | none => some selected
      | some secondary =>
        if sameCheckpointGeometry primary secondary = false then none
        else if primary.xid < secondary.xid then some ⟨secondary, 1, second, [], []⟩
        else some selected

/-- The blocks of the descriptor ring. -/
def readDescriptorBlocks (source : RandomAccessSource) (storeOffsetBytes blockSize : ℕ)
    (anchor : NxSuperblock) : Option (List Bytes) :=
  (List.range anchor.xpDescBlockCount).mapM fun index =>
    (tryBlockOffset storeOffsetBytes ((anchor.xpDescBaseBlock + index) % 2 ^ 64) blockSize).bind
      fun offset => readBlockAt source offset blockSize

/-- One turn of the loop over the descriptor slots: the best generation so far. -/
def selectCandidate (exactCheckpointXid : Option ℕ) (best : Option ContainerCheckpointView)
    (candidate : Option ContainerCheckpointView) :
    Except String (Option ContainerCheckpointView) :=
  match candidate with
  | none => .ok best
  | some view =>
    if exactCheckpointXid.isSome ∧ (exactCheckpointXid ≠ some view.superblock.xid ∨
        view.checkpointMapBlocks = [] ∨ view.superblock.spacemanOid = 0) then .ok best
    else
      match best with
      | none => .ok (some view)
      | some chosen =>
        if exactCheckpointXid.isSome then .error "CheckpointExactGenerationAmbiguous"
        else if chosen.superblock.xid < view.superblock.xid then .ok (some view)
        else .ok (some chosen)

/-- The choice among the generations, with the shape of the old synthetic fixtures last. -/
def chooseGeneration (source : RandomAccessSource) (storeOffsetBytes storeSizeBytes : ℕ)
    (anchor : NxSuperblock) (blockZero : Bytes) (descriptorBlocks : List Bytes)
    (exactCheckpointXid : Option ℕ) : Except String ContainerCheckpointView := do
  let best ← (List.range anchor.xpDescBlockCount).foldlM
    (fun best index => selectCandidate exactCheckpointXid best
      (buildCheckpointCandidate source storeOffsetBytes storeSizeBytes anchor descriptorBlocks
        index exactCheckpointXid)) none
  match best with
  | some view => .ok view
  | none =>
    if exactCheckpointXid.isSome then .error "CheckpointExactGenerationUnavailable"
    else if anchor.spacemanOid = 0 then .ok ⟨anchor, 0, blockZero, [], []⟩
    else .error "CheckpointNoCompleteGeneration"

/-- What is returned when block zero does not parse: the second block of the fixtures that
are older than the catalog. -/
def loadWithoutAnchor (source : RandomAccessSource) (storeOffsetBytes blockSize : ℕ)
    (exactCheckpointXid : Option ℕ) : Except String ContainerCheckpointView :=
  if exactCheckpointXid.isSome then .error "CheckpointBlockZeroInvalid"
  else
    match (tryBlockOffset storeOffsetBytes 1 blockSize).bind
        fun offset => readBlockAt source offset blockSize with
    | none => .error "CheckpointBlockZeroInvalid"
    | some second =>
      match parseNxSuperblock second with
      | none => .error "CheckpointBlockZeroInvalid"
      | some secondary =>
        if secondary.xpDescBlockCount = 0 ∧ secondary.spacemanOid = 0 then
          .ok ⟨secondary, 1, second, [], []⟩
        else .error "CheckpointBlockZeroInvalid"

/-- `LoadContainerCheckpointView` behind a block zero that parses. -/
def loadWithAnchor (source : RandomAccessSource) (storeOffsetBytes storeSizeBytes blockSize : ℕ)
    (anchor : NxSuperblock) (blockZero : Bytes) (exactCheckpointXid : Option ℕ) :
    Except String ContainerCheckpointView := do
  rejectIf (anchor.blockSize ≠ blockSize ∨ storeSizeBytes / blockSize < anchor.blockCount)
    "CheckpointBlockZeroInvalid"
  rejectIf (anchor.xpDescNoncontiguous = true) "CheckpointDescriptorTreeUnsupported"
  rejectIf (anchor.xpDataNoncontiguous = true) "CheckpointDataTreeUnsupported"
  if anchor.xpDescBlockCount = 0 then
    rejectIf (exactCheckpointXid.isSome = true) "CheckpointExactGenerationUnavailable"
    match loadLegacySyntheticCheckpoint source storeOffsetBytes storeSizeBytes anchor
        blockZero with
    | none => .error "CheckpointSyntheticCopiesConflict"
    | some view => .ok view
  else
    rejectIf (maxCheckpointAreaBlocks < anchor.xpDescBlockCount ∨
        maxCheckpointAreaBlocks < anchor.xpDataBlockCount ∨
        areaFitsStore anchor.xpDescBaseBlock anchor.xpDescBlockCount anchor
          storeSizeBytes = false ∨
        areaFitsStore anchor.xpDataBaseBlock anchor.xpDataBlockCount anchor
          storeSizeBytes = false)
      "CheckpointAreaGeometryInvalid"
    match readDescriptorBlocks source storeOffsetBytes blockSize anchor with
    | none => .error "CheckpointDescriptorAreaUnreadable"
    | some descriptorBlocks =>
      chooseGeneration source storeOffsetBytes storeSizeBytes anchor blockZero descriptorBlocks
        exactCheckpointXid

/-- `LoadContainerCheckpointView`. -/
def loadContainerCheckpointView (source : RandomAccessSource)
    (storeOffsetBytes storeSizeBytes : ℕ) (exactCheckpointXid : Option ℕ) :
    Except String ContainerCheckpointView :=
  if exactCheckpointXid = some 0 then .error "CheckpointExactXidInvalid"
  else
    match source.read storeOffsetBytes 4096 with
    | none => .error "CheckpointBlockZeroUnreadable"
    | some probe =>
      if blockSizeAdmitted (u32At probe 0x24) = false then .error "CheckpointBlockSizeInvalid"
      else
        match readBlockAt source storeOffsetBytes (u32At probe 0x24) with
        | none => .error "CheckpointBlockZeroUnreadable"
        | some blockZero =>
          match parseNxSuperblock blockZero with
          | none => loadWithoutAnchor source storeOffsetBytes (u32At probe 0x24) exactCheckpointXid
          | some anchor => loadWithAnchor source storeOffsetBytes storeSizeBytes
              (u32At probe 0x24) anchor blockZero exactCheckpointXid

end Checkpoint
end ApfsAccess
