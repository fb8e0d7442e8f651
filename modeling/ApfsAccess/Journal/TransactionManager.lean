import ApfsAccess.Journal.WalSemantics

/-!
# The transaction manager

`TransactionManager` keeps one transaction open at a time, appends its records to
the write-ahead log, and maintains three watermarks over the accepted part of the
log: what has been *accepted*, what APFS has made *durable*, and what has been
*cleaned up*.  This module embeds its operations as functions on an explicit
state, and the two functions recovery uses to rebuild that state from the records
alone, `SeedIdsFromJournalRecords` and `CollectAcceptedTransactions`.

## The journal

`journal` is the list of records that `ReadAll` would return.  An append that
succeeds extends it by the whole batch; the appends modelled here succeed, so the
compaction-and-retry branch that follows a rejected append does not arise.  The
exclusive writer lease is an input of every operation that looks at it
(`Lease`): a caller may lose it at any point, and the operations then either
reseed from the journal or poison the manager, as the source does.

Caches that only steer performance (finalization coverage, the checkpoint-pin
census, retained acceptance proofs, the timing counters) are left out; no
modelled function reads them.
-/

namespace ApfsAccess
namespace Journal

/-- `TransactionManager::State`. -/
inductive ManagerState where
  | idle
  | active
  | committing
  | failed
  deriving DecidableEq, Repr

/-- `TransactionManager::DurabilityWatermarks`. -/
structure DurabilityWatermarks where
  acceptedSequence : ℕ := 0
  apfsDurableSequence : ℕ := 0
  cleanupSequence : ℕ := 0
  deriving DecidableEq, Repr

/-- `TransactionManager::AcceptedTransaction`. -/
structure AcceptedTransaction where
  transactionId : ℕ
  acceptedSequence : ℕ
  mutations : List Record
  preimageCheckpointXid : ℕ
  deriving DecidableEq, Repr

/-- `TransactionManager::ContinuationSeed`. -/
structure ContinuationSeed where
  lastSequence : ℕ
  nextTransactionId : ℕ
  watermarks : DurabilityWatermarks
  deriving DecidableEq, Repr

/-- The `outcome` strings of `PersistTransactionBatchLocked`. -/
inductive Outcome where
  | committed
  | accepted
  | aborted
  deriving DecidableEq, Repr

/-- What an operation observes of the exclusive writer lease: whether the lease
still matches, and, when it does not and the operation reseeds, whether the
journal can be read back and whether the lease matches afterwards. -/
structure Lease where
  held : Bool := true
  readable : Bool := true
  reheld : Bool := true
  deriving DecidableEq, Repr

/-- The members of `TransactionManager`, with their initial values. -/
structure TransactionManager where
  safetyLevel : String := ""
  state : ManagerState := .idle
  journalPath : String := ""
  volumeIdentity : String := ""
  journal : List Record := []
  journalProtection : Bool := false
  continuationSeed : Option ContinuationSeed := none
  nextTransactionId : ℕ := 1
  nextSequence : ℕ := 1
  lastCommittedSequence : ℕ := 0
  highestCheckpointedMarkerSequence : ℕ := 0
  watermarks : DurabilityWatermarks := {}
  recoveryStateValid : Bool := true
  currentTransactionId : ℕ := 0
  deferredWalPendingSequence : ℕ := 0
  deferredWalDurableSequence : ℕ := 0
  deferredWalFlushFailed : Bool := false
  acceptedBoundaries : Finset ℕ := ∅
  journalAppendAmbiguous : Bool := false
  pendingMutations : List MutationIntent := []
  bufferedPreparedRecords : List Record := []

/-- `EffectiveVolumeIdentity`. -/
def effectiveVolumeIdentity (volumeIdentity : String) : String :=
  if volumeIdentity = "" then "default" else volumeIdentity

namespace TransactionManager

variable (codec : WalCodec)

/-! ## Reading the journal back -/

/-- The local variables of the loop of `SeedIdsFromJournalRecords`. -/
structure SeedScan where
  recoveredBoundaries : Finset ℕ := ∅
  transactionRequiresSpoolFlush : AList (fun _ : ℕ => Bool) := ∅
  maxTransactionId : ℕ := 0
  maxSequence : ℕ := 0
  highestCheckpointedMarker : ℕ := 0
  recoveredWatermarks : DurabilityWatermarks := {}
  recoveredStateValid : Bool := true

/-- The prepared branch of the seed loop. -/
def seedMutation (scan : SeedScan) (record : Record) : SeedScan :=
  let before := (scan.transactionRequiresSpoolFlush.lookup record.transactionId).getD false
  let spooled := record.operation == .write &&
    (record.inlinePayload.isEmpty || !codec.inlinePayloadIsConsistent record)
  { scan with
    transactionRequiresSpoolFlush :=
      scan.transactionRequiresSpoolFlush.insert record.transactionId (before || spooled) }

/-- The marker branch of the seed loop. -/
def seedMarker (scan : SeedScan) (record : Record) : SeedScan :=
  let scan := { scan with
    transactionRequiresSpoolFlush :=
      scan.transactionRequiresSpoolFlush.erase record.transactionId }
  if record.state = .accepted then
    { scan with
      recoveredBoundaries := insert record.sequence scan.recoveredBoundaries
      recoveredWatermarks := { scan.recoveredWatermarks with
        acceptedSequence := max scan.recoveredWatermarks.acceptedSequence record.sequence } }
  else if record.state = .checkpointed ∧ record.flags &&& walFlagCommitted ≠ 0 then
    { scan with
      highestCheckpointedMarker := max scan.highestCheckpointedMarker record.sequence
      recoveredBoundaries := insert record.sequence scan.recoveredBoundaries
      recoveredWatermarks := { scan.recoveredWatermarks with
        acceptedSequence := max scan.recoveredWatermarks.acceptedSequence record.sequence
        apfsDurableSequence :=
          max scan.recoveredWatermarks.apfsDurableSequence record.sequence } }
  else
    scan

/-- The watermark branch of the seed loop. -/
def seedWatermark (scan : SeedScan) (record : Record) : SeedScan :=
  let target := record.logicalOffset
  let watermarks := scan.recoveredWatermarks
  if record.state = .checkpointed then
    { scan with
      recoveredStateValid := scan.recoveredStateValid &&
        !(target < watermarks.apfsDurableSequence || watermarks.acceptedSequence < target ||
          target ∉ scan.recoveredBoundaries)
      recoveredWatermarks := { watermarks with
        apfsDurableSequence := max watermarks.apfsDurableSequence target } }
  else if record.state = .cleaned then
    { scan with
      recoveredStateValid := scan.recoveredStateValid &&
        !(target < watermarks.cleanupSequence || watermarks.apfsDurableSequence < target ||
          target ∉ scan.recoveredBoundaries)
      recoveredWatermarks := { watermarks with
        cleanupSequence := max watermarks.cleanupSequence target } }
  else
    scan

/-- One record of the seed loop. -/
def seedStep (scan : SeedScan) (record : Record) : SeedScan :=
  let scan := { scan with
    maxTransactionId := max scan.maxTransactionId record.transactionId
    maxSequence := max scan.maxSequence record.sequence }
  if record.state = .prepared ∧ isMutationOperation record.operation then
    seedMutation codec scan record
  else if record.operation = .transactionMarker then
    seedMarker scan record
  else if record.operation = .durabilityWatermark then
    seedWatermark scan record
  else
    scan

/-- What the seed loop starts from: zeros, or the continuation seed. -/
def seedStart (continuation : Option ContinuationSeed) : SeedScan :=
  match continuation with
  | none => {}
  | some seed =>
    { recoveredBoundaries := {seed.watermarks.cleanupSequence}
      maxTransactionId := seed.nextTransactionId - 1
      maxSequence := seed.lastSequence
      recoveredWatermarks := seed.watermarks }

/-- The admission of a continuation seed. -/
def continuationAdmitted (journalProtection : Bool) (records : List Record)
    (seed : ContinuationSeed) : Bool :=
  journalProtection && seed.lastSequence != 0 && seed.lastSequence != exhausted &&
    seed.nextTransactionId != 0 && seed.nextTransactionId != exhausted &&
    seed.watermarks.acceptedSequence != 0 &&
    decide (seed.watermarks.acceptedSequence ≤ seed.lastSequence) &&
    seed.watermarks.acceptedSequence == seed.watermarks.apfsDurableSequence &&
    seed.watermarks.acceptedSequence == seed.watermarks.cleanupSequence &&
    !records.any (fun record =>
      decide (record.sequence ≤ seed.lastSequence) ||
        (record.transactionId != 0 && decide (record.transactionId < seed.nextTransactionId)) ||
        record.operation == .compactionIndex)

/-- `PruneAcceptedBoundariesThrough`. -/
def pruneAcceptedBoundariesThrough (m : TransactionManager) (cleanupSequence : ℕ) :
    TransactionManager :=
  { m with
    acceptedBoundaries := m.acceptedBoundaries.filter fun boundary => cleanupSequence < boundary }

/-- `SeedIdsFromJournalRecords`. -/
def seedIdsFromJournalRecords (m : TransactionManager) (records : List Record) :
    Bool × TransactionManager :=
  if m.state ≠ .idle ∨ !validateWalSemantics codec records then
    (false, { m with recoveryStateValid := false })
  else if !(m.continuationSeed.all (continuationAdmitted m.journalProtection records)) then
    (false, { m with recoveryStateValid := false })
  else
    let scan := records.foldl (seedStep codec) (seedStart m.continuationSeed)
    let watermarks := scan.recoveredWatermarks
    let valid := scan.recoveredStateValid &&
      !(!scan.transactionRequiresSpoolFlush.entries.isEmpty ||
        watermarks.apfsDurableSequence < watermarks.cleanupSequence ||
        watermarks.acceptedSequence < watermarks.apfsDurableSequence ||
        scan.maxTransactionId == exhausted || scan.maxSequence == exhausted)
    let seeded := { m with
      acceptedBoundaries := scan.recoveredBoundaries
      watermarks := watermarks
      lastCommittedSequence := watermarks.apfsDurableSequence
      highestCheckpointedMarkerSequence := scan.highestCheckpointedMarker
      recoveryStateValid := valid && !m.journalAppendAmbiguous
      nextTransactionId :=
        if m.nextTransactionId ≤ scan.maxTransactionId then scan.maxTransactionId + 1
        else m.nextTransactionId
      nextSequence :=
        if m.nextSequence ≤ scan.maxSequence then scan.maxSequence + 1 else m.nextSequence }
    (seeded.recoveryStateValid, seeded.pruneAcceptedBoundariesThrough watermarks.cleanupSequence)

/-- `SeedIdsFromExistingJournal`, under an exclusive writer lease. -/
def seedIdsFromExistingJournal (m : TransactionManager) (lease : Lease) :
    Bool × TransactionManager :=
  if m.state ≠ .idle then
    (false, m)
  else if m.journalPath = "" then
    (true, m)
  else if !lease.readable ∨ !validateWalSemantics codec m.journal then
    (false, { m with recoveryStateValid := false })
  else
    m.seedIdsFromJournalRecords codec m.journal

/-- The local variables of `CollectAcceptedTransactions`. -/
structure CollectScan where
  transactions : List AcceptedTransaction := []
  preparedByTransaction : AList (fun _ : ℕ => List Record) := ∅
  terminalTransactions : Finset ℕ := ∅
  previousSequence : ℕ := 0

/-- The marker branch of `CollectAcceptedTransactions`. -/
def collectMarker (acceptedSequence lowerSequenceExclusive : ℕ)
    (includeCheckpointedTransactions : Bool) (scan : CollectScan) (record : Record) :
    Except String CollectScan :=
  if record.transactionId = 0 ∨ record.transactionId ∈ scan.terminalTransactions then
    .error "WAL transaction terminal marker is invalid"
  else
    let prepared := scan.preparedByTransaction.lookup record.transactionId
    let closed := { scan with
      preparedByTransaction := scan.preparedByTransaction.erase record.transactionId
      terminalTransactions := insert record.transactionId scan.terminalTransactions }
    let isAcceptedMarker := record.state == .accepted ||
      (includeCheckpointedTransactions && record.state == .checkpointed &&
        record.flags &&& walFlagCommitted != 0)
    if !isAcceptedMarker then
      .ok closed
    else if acceptedSequence < record.sequence then
      .error "Accepted WAL transaction exceeds its watermark"
    else if record.sequence ≤ lowerSequenceExclusive then
      .ok closed
    else
      let emptyCommitted := prepared.isNone && record.logicalLength == 0 &&
        record.state == .checkpointed
      let mutations := if emptyCommitted then [] else prepared.getD []
      if !emptyCommitted && (prepared.isNone || mutations.length != record.logicalLength) then
        .error "Accepted WAL transaction is incomplete"
      else
        .ok { closed with
          transactions := closed.transactions ++
            [⟨record.transactionId, record.sequence, mutations, record.objectId⟩] }

/-- One record of `CollectAcceptedTransactions`. -/
def collectStep (acceptedSequence lowerSequenceExclusive : ℕ)
    (includeCheckpointedTransactions : Bool) (scan : CollectScan) (record : Record) :
    Except String CollectScan :=
  if record.operation = .compactionIndex then
    .ok scan
  else if record.sequence = 0 ∨ record.sequence ≤ scan.previousSequence then
    .error "WAL sequence ordering is invalid"
  else
    let scan := { scan with previousSequence := record.sequence }
    if record.operation = .durabilityWatermark then
      .ok scan
    else if record.operation = .transactionMarker then
      collectMarker acceptedSequence lowerSequenceExclusive includeCheckpointedTransactions
        scan record
    else if record.state ≠ .prepared ∨ record.transactionId = 0 ∨
        record.transactionId ∈ scan.terminalTransactions then
      .error "WAL mutation record is not replayable"
    else
      .ok { scan with
        preparedByTransaction := scan.preparedByTransaction.insert record.transactionId
          ((scan.preparedByTransaction.lookup record.transactionId).getD [] ++ [record]) }

/-- `HasUnappliedAcceptedWork`. -/
def hasUnappliedAcceptedWork (m : TransactionManager) : Bool :=
  decide (m.watermarks.apfsDurableSequence < m.watermarks.acceptedSequence)

/-- `CollectAcceptedTransactions`. -/
def collectAcceptedTransactions (m : TransactionManager) (records : List Record)
    (includeCheckpointedTransactions : Bool) : Except String (List AcceptedTransaction) :=
  let lowerSequenceExclusive :=
    if includeCheckpointedTransactions then m.watermarks.cleanupSequence
    else m.watermarks.apfsDurableSequence
  match records.foldlM (collectStep m.watermarks.acceptedSequence lowerSequenceExclusive
      includeCheckpointedTransactions) {} with
  | .error reason => .error reason
  | .ok scan =>
    let expectedLatestSequence :=
      if includeCheckpointedTransactions then m.watermarks.acceptedSequence
      else if m.hasUnappliedAcceptedWork then m.watermarks.acceptedSequence else 0
    if lowerSequenceExclusive < expectedLatestSequence ∧
        scan.transactions.getLast?.map AcceptedTransaction.acceptedSequence ≠
          some expectedLatestSequence then
      .error "Accepted WAL watermark has no complete transaction"
    else
      .ok scan.transactions

/-! ## Preparing a mutation -/

/-- `extended_attribute_mutation`. -/
def isExtendedAttributeMutation (kind : MutationKind) : Bool :=
  kind == .setExtendedAttribute || kind == .removeExtendedAttribute

/-- `hard_link_mutation`. -/
def isHardLinkMutation (kind : MutationKind) : Bool :=
  kind == .hardLink || kind == .nativeSparse || kind == .cloneRange

/-- `inode_metadata_mutation`. -/
def isInodeMetadataMutation (kind : MutationKind) : Bool :=
  kind == .setInodeMetadata || kind == .rewriteCompressedContent || kind == .cloneFile ||
    kind == .renameVolume || kind == .setVolumeQuotaReserve || kind == .createSnapshot ||
    kind == .deleteSnapshot || kind == .repairVolumeFileCount

/-- The shape checks `AppendPreparedMutationLocked` makes on the intent before it
builds a record. -/
def mutationShapeAdmitted (mutation : MutationIntent) : Bool :=
  let allocationSize := mutation.kind == .setAllocationSize
  let directoryRestore := mutation.kind == .restoreDirectoryFromSymbolicLink
  !(directoryRestore && mutation.secondaryPath != "") &&
    !((allocationSize || directoryRestore) && mutation.timestampUtc != 0) &&
    !(isInodeMetadataMutation mutation.kind &&
      (mutation.length != mutation.inlinePayload.length || mutation.timestampUtc != 0 ||
        (mutation.kind != .cloneFile && mutation.secondaryPath != ""))) &&
    !(isHardLinkMutation mutation.kind &&
      (mutation.length != mutation.inlinePayload.length ||
        mutation.payloadLength != mutation.inlinePayload.length || mutation.timestampUtc != 0 ||
        mutation.offset != 0 || mutation.payloadSpoolOffset != 0 || mutation.replaceIfExists ||
        mutation.unlinkOutcome.isSome))

/-- `validation_record`. -/
def validationRecord (m : TransactionManager) (mutation : MutationIntent) : Record :=
  { volumeIdentity := effectiveVolumeIdentity m.volumeIdentity
    operation := toWalOperation mutation.kind
    objectId := mutation.objectId
    parentObjectId := mutation.generation
    payloadOffset := mutation.payloadSpoolOffset
    payloadLength := mutation.payloadLength
    logicalOffset := mutation.offset
    logicalLength := if isInodeMetadataMutation mutation.kind then 0 else mutation.length
    flags := if mutation.replaceIfExists then walFlagReplaceIfExists else 0
    payloadSha256 := mutation.payloadChecksum
    inlinePayload := mutation.inlinePayload
    pathUtf8 := mutation.path
    secondaryPathUtf8 := mutation.secondaryPath
    unlinkOutcome := mutation.unlinkOutcome }

/-- The record that is buffered for a mutation. -/
def preparedRecord (m : TransactionManager) (mutation : MutationIntent) : Record :=
  { volumeIdentity := effectiveVolumeIdentity m.volumeIdentity
    transactionId := m.currentTransactionId
    sequence := mutation.walSequence
    operation := toWalOperation mutation.kind
    state := .prepared
    objectId := mutation.objectId
    parentObjectId := mutation.generation
    payloadSpoolId :=
      if isExtendedAttributeMutation mutation.kind || isInodeMetadataMutation mutation.kind ||
          isHardLinkMutation mutation.kind || mutation.payloadLength == 0 then 0
      else mutation.walSequence
    payloadOffset := mutation.payloadSpoolOffset
    payloadLength := mutation.payloadLength
    logicalOffset :=
      if mutation.kind = .setBasicInfo then mutation.timestampUtc else mutation.offset
    logicalLength := if isInodeMetadataMutation mutation.kind then 0 else mutation.length
    flags := if mutation.replaceIfExists then walFlagReplaceIfExists else 0
    payloadSha256 := mutation.payloadChecksum
    inlinePayload := mutation.inlinePayload
    pathUtf8 := mutation.path
    secondaryPathUtf8 := mutation.secondaryPath
    unlinkOutcome := mutation.unlinkOutcome }

/-- The sequence a mutation is prepared with: the caller's, or the next one. -/
def assignSequence (m : TransactionManager) (mutation : MutationIntent) : MutationIntent :=
  { mutation with
    walSequence := if mutation.walSequence = 0 then m.nextSequence else mutation.walSequence }

/-- `AppendPreparedMutationLocked`: the mutation as it is kept in
`pending_mutations_`, and the manager with its record buffered. -/
def appendPreparedMutationLocked (m : TransactionManager) (mutation : MutationIntent) :
    Option (MutationIntent × TransactionManager) :=
  let validated := isExtendedAttributeMutation mutation.kind ||
    isInodeMetadataMutation mutation.kind || isHardLinkMutation mutation.kind ||
    mutation.kind == .setAllocationSize || mutation.kind == .restoreDirectoryFromSymbolicLink
  let assigned := m.assignSequence mutation
  if m.nextSequence = 0 ∨ m.nextSequence = exhausted then
    none
  else if !mutationShapeAdmitted mutation then
    none
  else if validated && !codec.mutationIsConsistent (m.validationRecord mutation) then
    none
  else if assigned.walSequence ≠ m.nextSequence then
    none
  else if m.journalPath = "" then
    some (assigned, { m with nextSequence := m.nextSequence + 1 })
  else if !(codec.mutationIsConsistent (m.preparedRecord assigned) &&
      codec.unlinkOutcomeIsConsistent (m.preparedRecord assigned)) then
    none
  else
    -- the payload is moved into the record and leaves the pending mutation empty
    some ({ assigned with inlinePayload := [] },
      { m with
        bufferedPreparedRecords := m.bufferedPreparedRecords ++ [m.preparedRecord assigned]
        nextSequence := m.nextSequence + 1 })

/-- `RecordMutation`. -/
def recordMutation (m : TransactionManager) (lease : Lease) (mutation : MutationIntent) :
    Bool × TransactionManager :=
  if !m.recoveryStateValid ∨ m.state ≠ .active then
    (false, m)
  else if m.journalPath ≠ "" ∧ !lease.held then
    (false, { m with recoveryStateValid := false })
  else
    match m.appendPreparedMutationLocked codec mutation with
    | none => (false, m)
    | some (prepared, m) =>
      (true, { m with pendingMutations := m.pendingMutations ++ [prepared] })

/-! ## Persisting a transaction -/

/-- The guard `PersistTransactionBatchLocked` puts before an accepted or committed
batch for one family of intents: a pending mutation of the family must be the
only one, still be buffered, and have been taken against the preimage
checkpoint. -/
def intentAdmitted (m : TransactionManager) (preimageCheckpointXid : ℕ)
    (family : OperationKind → Bool) (checkpointOf : Record → Option ℕ) : Bool :=
  m.pendingMutations.all fun mutation =>
    !family (toWalOperation mutation.kind) ||
      (m.journalPath != "" && m.pendingMutations.length == 1 &&
        match m.bufferedPreparedRecords.find? fun record => family record.operation with
        | none => false
        | some record => checkpointOf record == some preimageCheckpointXid)

/-- The eight guards of `PersistTransactionBatchLocked`, in source order. -/
def intentsAdmitted (m : TransactionManager) (preimageCheckpointXid : ℕ) : Bool :=
  m.intentAdmitted preimageCheckpointXid (· == .cloneFile)
      (fun record => codec.decodeNativeClone record.inlinePayload) &&
    m.intentAdmitted preimageCheckpointXid (· == .hardLink)
      (fun record => if codec.nativeHardLinkIsConsistent record then
        codec.decodeNativeHardLink record.inlinePayload else none) &&
    m.intentAdmitted preimageCheckpointXid (· == .cloneRange)
      (fun record => if codec.nativeCloneRangeIsConsistent record then
        codec.decodeNativeCloneRange record.inlinePayload else none) &&
    m.intentAdmitted preimageCheckpointXid (· == .nativeSparse)
      (fun record => if codec.nativeSparseIsConsistent record then
        codec.decodeNativeSparseOriginalCheckpoint record.inlinePayload else none) &&
    m.intentAdmitted preimageCheckpointXid (· == .setVolumeQuotaReserve)
      (fun record => codec.decodeNativeVolumeQuotaReserve record.inlinePayload) &&
    m.intentAdmitted preimageCheckpointXid
      (fun operation => operation == .createSnapshot || operation == .deleteSnapshot)
      (fun record => codec.decodeNativeSnapshotIntent record.inlinePayload) &&
    m.intentAdmitted preimageCheckpointXid (· == .repairVolumeFileCount)
      (fun record => codec.decodeNativeCountRepair record.inlinePayload) &&
    m.intentAdmitted preimageCheckpointXid (· == .renameVolume)
      (fun record => codec.decodeNativeVolumeRename record.inlinePayload)

/-- `ClearBufferedPreparedRecords`. -/
def clearBufferedPreparedRecords (m : TransactionManager) : TransactionManager :=
  { m with bufferedPreparedRecords := [] }

/-- `BuildTransactionMarkerLocked`, with the sequence its caller assigns. -/
def buildTransactionMarkerLocked (m : TransactionManager) (outcome : Outcome)
    (preimageCheckpointXid : ℕ) : Record :=
  { volumeIdentity := effectiveVolumeIdentity m.volumeIdentity
    transactionId := m.currentTransactionId
    sequence := m.nextSequence
    operation := .transactionMarker
    state := match outcome with
      | .accepted => .accepted
      | .committed => .checkpointed
      | .aborted => .cleaned
    flags := match outcome with
      | .accepted => walFlagAccepted
      | .committed => walFlagCommitted
      | .aborted => walFlagAborted
    objectId := match outcome with
      | .aborted => 0
      | _ => preimageCheckpointXid
    logicalLength := m.pendingMutations.length
    pathUtf8 := m.safetyLevel }

/-- The buffered records as they are handed to the journal: a record without a
volume identity takes the manager's. -/
def identifiedRecords (m : TransactionManager) : List Record :=
  m.bufferedPreparedRecords.map fun record =>
    if record.volumeIdentity = "" then
      { record with volumeIdentity := effectiveVolumeIdentity m.volumeIdentity }
    else record

/-- No buffered record has sequence zero or a sequence not yet handed out. -/
def bufferedSequencesAdmitted (m : TransactionManager) : Bool :=
  m.bufferedPreparedRecords.all fun record =>
    record.sequence != 0 && decide (record.sequence < m.nextSequence)

/-- `PersistTransactionBatchLocked` without a journal. -/
def persistWithoutJournal (m : TransactionManager) (outcome : Outcome) : TransactionManager :=
  let m := m.clearBufferedPreparedRecords
  match m.pendingMutations.getLast?, outcome with
  | some last, .committed => { m with lastCommittedSequence := last.walSequence }
  | some last, .accepted =>
    { m with
      watermarks := { m.watermarks with acceptedSequence := last.walSequence }
      acceptedBoundaries := insert last.walSequence m.acceptedBoundaries }
  | _, _ => m

/-- What `PersistTransactionBatchLocked` records in memory once its marker is in
the journal. -/
def observeMarker (m : TransactionManager) (outcome : Outcome) (sequence : ℕ) :
    TransactionManager :=
  match outcome with
  | .committed =>
    { m with
      lastCommittedSequence := sequence
      highestCheckpointedMarkerSequence := max m.highestCheckpointedMarkerSequence sequence }
  | .accepted =>
    { m with
      watermarks := { m.watermarks with acceptedSequence := sequence }
      acceptedBoundaries := insert sequence m.acceptedBoundaries }
  | .aborted => m

/-- `PersistTransactionBatchLocked`. -/
def persistTransactionBatchLocked (m : TransactionManager) (lease : Lease) (outcome : Outcome)
    (preimageCheckpointXid : ℕ) : Bool × TransactionManager :=
  if m.nextSequence = 0 ∨ m.nextSequence = exhausted then
    (false, m)
  else if outcome ≠ .aborted ∧ !m.intentsAdmitted codec preimageCheckpointXid then
    (false, m)
  else if m.journalPath = "" then
    (true, m.persistWithoutJournal outcome)
  else if !lease.held then
    (false, { m with recoveryStateValid := false })
  else if !m.bufferedSequencesAdmitted then
    (false, m)
  else
    let marker := m.buildTransactionMarkerLocked outcome preimageCheckpointXid
    let appended := { m with
      journal := m.journal ++ m.identifiedRecords ++ [marker]
      nextSequence := m.nextSequence + 1 }
    (true, (appended.observeMarker outcome marker.sequence).clearBufferedPreparedRecords)

/-- The state after a transaction has been persisted. -/
def closeTransaction (m : TransactionManager) : TransactionManager :=
  { m with
    pendingMutations := []
    bufferedPreparedRecords := []
    currentTransactionId := 0
    state := .idle }

/-! ## The operations -/

/-- The reseeding at the head of `Begin`, `MarkApfsDurableThrough` and
`MarkCleanedThrough`: nothing while the lease is held, otherwise a seed from the
journal that has to leave a valid state under a matching lease. -/
def reseedUnlessHeld (m : TransactionManager) (lease : Lease) : Bool × TransactionManager :=
  if m.journalPath = "" ∨ lease.held then
    (true, m)
  else
    let seeded := m.seedIdsFromExistingJournal codec lease
    (seeded.1 && seeded.2.recoveryStateValid && lease.reheld, seeded.2)

/-- `Begin`. -/
def begin (m : TransactionManager) (lease : Lease) : Bool × TransactionManager :=
  if !m.recoveryStateValid ∨ m.state ≠ .idle ∨ m.nextTransactionId = 0 ∨
      m.nextTransactionId = exhausted then
    (false, m)
  else
    match m.reseedUnlessHeld codec lease with
    | (false, m) => (false, m)
    | (true, m) =>
      (true, { m with
        currentTransactionId := m.nextTransactionId
        nextTransactionId := m.nextTransactionId + 1
        pendingMutations := []
        bufferedPreparedRecords := []
        state := .active })

/-- `Commit`. -/
def commit (m : TransactionManager) (lease : Lease) (preimageCheckpointXid : ℕ) :
    Bool × TransactionManager :=
  if !m.recoveryStateValid ∨ m.state ≠ .active then
    (false, m)
  else
    match ({ m with state := .committing }).persistTransactionBatchLocked codec lease
        .committed preimageCheckpointXid with
    | (false, m) => (false, { m with state := .failed })
    | (true, m) => (true, m.closeTransaction)

/-- `Accept`. -/
def accept (m : TransactionManager) (lease : Lease) (preimageCheckpointXid : ℕ) :
    Bool × TransactionManager :=
  if !m.recoveryStateValid ∨ m.state ≠ .active ∨ m.pendingMutations = [] then
    (false, m)
  else
    match ({ m with state := .committing }).persistTransactionBatchLocked codec lease
        .accepted preimageCheckpointXid with
    | (false, m) => (false, { m with state := .failed })
    | (true, m) => (true, m.closeTransaction)

/-- `AcceptForDeferredCommit`: as `Accept`, with the flush of the appended bytes
left to a later barrier. -/
def acceptForDeferredCommit (m : TransactionManager) (lease : Lease)
    (preimageCheckpointXid : ℕ) : Bool × TransactionManager :=
  if !m.recoveryStateValid ∨ m.state ≠ .active ∨ m.pendingMutations = [] then
    (false, m)
  else
    match ({ m with state := .committing }).persistTransactionBatchLocked codec lease
        .accepted preimageCheckpointXid with
    | (false, m) => (false, { m with state := .failed })
    | (true, m) =>
      (true, { m.closeTransaction with
        deferredWalPendingSequence :=
          max m.deferredWalPendingSequence m.watermarks.acceptedSequence })

/-- What `Abort` does before it persists: the buffered records are dropped, and
their sequences are handed out again. -/
def rewind (m : TransactionManager) : TransactionManager :=
  { m with
    state := .failed
    nextSequence :=
      match m.bufferedPreparedRecords with
      | [] => m.nextSequence
      | first :: _ => first.sequence
    bufferedPreparedRecords := [] }

/-- `Abort`. -/
def abort (m : TransactionManager) (lease : Lease) : Bool × TransactionManager :=
  if !m.recoveryStateValid then
    (false, { m with state := .failed })
  else if m.state = .idle then
    (true, m)
  else if m.journalAppendAmbiguous then
    (false, { m with state := .failed })
  else
    match m.rewind.persistTransactionBatchLocked codec lease .aborted 0 with
    | (false, m) => (false, m)
    | (true, m) => (true, m.closeTransaction)

/-- `FlushPreparedRecords`. -/
def flushPreparedRecords (m : TransactionManager) (lease : Lease) : Bool × TransactionManager :=
  if m.pendingMutations.any fun mutation => carriesIntent (toWalOperation mutation.kind) then
    (false, m)
  else if !m.recoveryStateValid then
    (false, m)
  else if m.bufferedPreparedRecords = [] then
    (true, m)
  else if m.journalPath = "" then
    (true, m.clearBufferedPreparedRecords)
  else if !lease.held then
    (false, { m with recoveryStateValid := false })
  else if !m.bufferedSequencesAdmitted then
    (false, m)
  else
    (true, { m with journal := m.journal ++ m.identifiedRecords }.clearBufferedPreparedRecords)

/-- `EnsureDeferredAcceptanceDurability` on one thread; `flushed` is what the one
call of `FlushPendingAppends` it makes returns. -/
def ensureDeferredAcceptanceDurability (m : TransactionManager) (acceptedSequence : ℕ)
    (flushed : Bool) : Bool × TransactionManager :=
  if acceptedSequence = 0 ∨ m.journalPath = "" then
    (true, m)
  else if acceptedSequence ≤ m.deferredWalDurableSequence ∨
      m.deferredWalPendingSequence < acceptedSequence then
    (true, m)
  else if m.deferredWalFlushFailed then
    (false, m)
  else if flushed then
    (true, { m with
      deferredWalDurableSequence :=
        max m.deferredWalDurableSequence m.deferredWalPendingSequence })
  else
    (false, { m with deferredWalFlushFailed := true })

/-- `MarkDeferredAcceptanceDurabilityFailure`. -/
def markDeferredAcceptanceDurabilityFailure (m : TransactionManager) : TransactionManager :=
  { m with
    deferredWalFlushFailed := true
    recoveryStateValid := false
    journalAppendAmbiguous := true
    state := .failed }

/-- The record `AppendWatermarkLocked` writes. -/
def watermarkRecord (m : TransactionManager) (state : RecordState) (targetSequence : ℕ) :
    Record :=
  { volumeIdentity := effectiveVolumeIdentity m.volumeIdentity
    sequence := m.nextSequence
    operation := .durabilityWatermark
    state := state
    logicalOffset := targetSequence }

/-- `AppendWatermarkLocked`, through `AppendWalRecordWithCleanup`. -/
def appendWatermarkLocked (m : TransactionManager) (lease : Lease) (state : RecordState)
    (targetSequence : ℕ) : Bool × TransactionManager :=
  if !m.recoveryStateValid ∨ m.nextSequence = 0 ∨ m.nextSequence = exhausted then
    (false, m)
  else if m.journalPath = "" then
    (true, m)
  else if !lease.held then
    (false, { m with recoveryStateValid := false })
  else
    (true, { m with
      journal := m.journal ++ [m.watermarkRecord state targetSequence]
      nextSequence := m.nextSequence + 1 })

/-- The part `MarkApfsDurableThrough` and `MarkCleanedThrough` share: the target
has to lie between the watermark it moves and the one above it and be an accepted
boundary; its acceptance is made durable, and then the watermark is appended.
`lease` is the lease as the operation finds it and `appendLease` as the append
does. -/
def markThrough (m : TransactionManager) (lease appendLease : Lease) (flushed : Bool)
    (recordState : RecordState) (lower upper : DurabilityWatermarks → ℕ)
    (advance : TransactionManager → TransactionManager) (targetSequence : ℕ) :
    Bool × TransactionManager :=
  if !m.recoveryStateValid ∨ m.state ≠ .idle then
    (false, m)
  else
    match m.reseedUnlessHeld codec lease with
    | (false, m) => (false, m)
    | (true, m) =>
      if targetSequence < lower m.watermarks ∨ upper m.watermarks < targetSequence then
        (false, m)
      else if targetSequence = lower m.watermarks then
        (true, m)
      else if targetSequence ∉ m.acceptedBoundaries then
        (false, m)
      else
        match m.ensureDeferredAcceptanceDurability targetSequence flushed with
        | (false, m) => (false, m.markDeferredAcceptanceDurabilityFailure)
        | (true, m) =>
          match m.appendWatermarkLocked appendLease recordState targetSequence with
          | (false, m) => (false, m)
          | (true, m) => (true, advance m)

/-- `MarkApfsDurableThrough`. -/
def markApfsDurableThrough (m : TransactionManager) (lease appendLease : Lease) (flushed : Bool)
    (acceptedSequence : ℕ) : Bool × TransactionManager :=
  m.markThrough codec lease appendLease flushed .checkpointed
    DurabilityWatermarks.apfsDurableSequence DurabilityWatermarks.acceptedSequence
    (fun m => { m with
      watermarks := { m.watermarks with apfsDurableSequence := acceptedSequence }
      lastCommittedSequence := acceptedSequence })
    acceptedSequence

/-- `MarkCleanedThrough`. -/
def markCleanedThrough (m : TransactionManager) (lease appendLease : Lease) (flushed : Bool)
    (durableSequence : ℕ) : Bool × TransactionManager :=
  m.markThrough codec lease appendLease flushed .cleaned
    DurabilityWatermarks.cleanupSequence DurabilityWatermarks.apfsDurableSequence
    (fun m => { m with
      watermarks := { m.watermarks with cleanupSequence := durableSequence } }
        |>.pruneAcceptedBoundariesThrough durableSequence)
    durableSequence

end TransactionManager
end Journal
end ApfsAccess
