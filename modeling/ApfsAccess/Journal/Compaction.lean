import ApfsAccess.Journal.Restart

/-!
# The manager with a log that runs out of room

`TransactionManager` embeds the operations with appends that go through.  The log
has a size limit: an append that would pass it is rejected before anything is
written, and the manager answers by compacting the log down to
`SafeCompactionFloor` and trying the append once more.  This module embeds that
branch, the operations that go through it, and the operations that read the log
back, `LoadAcceptedTransactionsAfter` and `LoadRequiredCheckpointXidsSinceCleanup`.

## The room an append finds

Every append takes a `Room` as input, which says what became of it.  The checks an
operation makes before its append do not look at the log, so an append that is
retried after the compaction is the same append on the compacted log.

Of `LoadRequiredCheckpointXidsSinceCleanup` the part that reads the log is
embedded; the two shortcuts before it answer from the checkpoint-pin census and the
finalization coverage, which are caches of this manager's own appends.
-/

namespace ApfsAccess
namespace Journal

/-- What becomes of an append. -/
inductive Room where
  /-- it goes through -/
  | fits
  /-- it is rejected, and goes through after the compaction -/
  | compacted
  /-- it is rejected, the log is compacted, and nothing is appended: the retry fails,
  or the run ends between the compaction and the retry -/
  | stopped (ambiguous : Bool)
  /-- it is rejected, and the log is not compacted -/
  | refused (ambiguous : Bool)
  deriving DecidableEq, Repr

/-- Whether the append is answered by a compaction. -/
def Room.compacts : Room → Bool
  | .compacted => true
  | .stopped _ => true
  | _ => false

/-- The record `CompactOrdinaryWithResult` puts behind the records it keeps. -/
def compactionIndex (volumeIdentity : String) (minimumSequenceToKeep : ℕ) : Record :=
  { volumeIdentity
    sequence := minimumSequenceToKeep
    operation := .compactionIndex
    state := .cleaned }

/-- The retention filter of `CompactOrdinaryWithResult`. -/
def isKept (minimumSequenceToKeep : ℕ) (record : Record) : Bool :=
  decide (minimumSequenceToKeep ≤ record.sequence) || record.operation == .compactionIndex

namespace TransactionManager

/-- `CompactWithResult`, when it succeeds. -/
def compactJournal (m : TransactionManager) (minimumSequenceToKeep : ℕ) : TransactionManager :=
  { m with
    journal := m.journal.filter (isKept minimumSequenceToKeep) ++
      [compactionIndex (effectiveVolumeIdentity m.volumeIdentity) minimumSequenceToKeep] }

/-- `SafeCompactionFloor`. -/
def safeCompactionFloor (m : TransactionManager) (preferredFloor : ℕ) : ℕ :=
  if m.watermarks.cleanupSequence < m.highestCheckpointedMarkerSequence then
    1
  else if m.watermarks.acceptedSequence ≤ m.watermarks.cleanupSequence then
    preferredFloor
  else if m.watermarks.cleanupSequence = 0 then
    1
  else
    min preferredFloor m.watermarks.cleanupSequence

/-- `first_sequence_to_keep` of `PersistTransactionBatchLocked`. -/
def firstSequenceToKeep (m : TransactionManager) : ℕ :=
  match m.pendingMutations with
  | [] => m.nextSequence
  | first :: _ => first.walSequence

/-- `first_sequence_to_keep` of `FlushPreparedRecords`. -/
def firstPreparedSequenceToKeep (m : TransactionManager) : ℕ :=
  match m.pendingMutations, m.bufferedPreparedRecords with
  | first :: _, _ => first.walSequence
  | [], first :: _ => first.sequence
  | [], [] => m.nextSequence

/-- `first_sequence_to_keep` of `AppendWatermarkLocked`. -/
def firstUncleanedSequence (m : TransactionManager) : ℕ :=
  if m.watermarks.cleanupSequence = exhausted then m.watermarks.cleanupSequence
  else m.watermarks.cleanupSequence + 1

/-- An append that finds `room`: `append` is the operation as it runs when its append
goes through.  A failure of the compaction or of the retry poisons the manager. -/
def withRoom (m : TransactionManager) (room : Room) (preferredFloor : ℕ)
    (append : TransactionManager → Bool × TransactionManager) : Bool × TransactionManager :=
  match append m with
  | (false, refused) => (false, refused)
  | (true, appended) =>
    if m.journalPath = "" then
      (true, appended)
    else
      match room with
      | .fits => (true, appended)
      | .compacted => append (m.compactJournal (m.safeCompactionFloor preferredFloor))
      | .stopped ambiguous =>
        (false, { m.compactJournal (m.safeCompactionFloor preferredFloor) with
          recoveryStateValid := false
          journalAppendAmbiguous := m.journalAppendAmbiguous || ambiguous })
      | .refused ambiguous =>
        (false, { m with
          recoveryStateValid := false
          journalAppendAmbiguous := ambiguous })

variable (codec : WalCodec)

/-- `PersistTransactionBatchLocked`. -/
def persistWithin (m : TransactionManager) (room : Room) (lease : Lease) (outcome : Outcome)
    (preimageCheckpointXid : ℕ) : Bool × TransactionManager :=
  m.withRoom room m.firstSequenceToKeep fun m =>
    m.persistTransactionBatchLocked codec lease outcome preimageCheckpointXid

/-- The end of `Commit` and `Accept`: the transaction is closed, or it fails. -/
def closeOrFail : Bool × TransactionManager → Bool × TransactionManager
  | (false, m) => (false, { m with state := .failed })
  | (true, m) => (true, m.closeTransaction)

/-- What `Commit` and `Accept` share. -/
def persistAndClose (m : TransactionManager) (room : Room) (lease : Lease) (outcome : Outcome)
    (preimageCheckpointXid : ℕ) : Bool × TransactionManager :=
  closeOrFail (({ m with state := .committing }).persistWithin codec room lease outcome
    preimageCheckpointXid)

/-- `Commit`. -/
def commitWithin (m : TransactionManager) (room : Room) (lease : Lease)
    (preimageCheckpointXid : ℕ) : Bool × TransactionManager :=
  if !m.recoveryStateValid ∨ m.state ≠ .active then
    (false, m)
  else
    m.persistAndClose codec room lease .committed preimageCheckpointXid

/-- `Accept`. -/
def acceptWithin (m : TransactionManager) (room : Room) (lease : Lease)
    (preimageCheckpointXid : ℕ) : Bool × TransactionManager :=
  if !m.recoveryStateValid ∨ m.state ≠ .active ∨ m.pendingMutations = [] then
    (false, m)
  else
    m.persistAndClose codec room lease .accepted preimageCheckpointXid

/-- `AcceptForDeferredCommit`. -/
def acceptForDeferredCommitWithin (m : TransactionManager) (room : Room) (lease : Lease)
    (preimageCheckpointXid : ℕ) : Bool × TransactionManager :=
  if !m.recoveryStateValid ∨ m.state ≠ .active ∨ m.pendingMutations = [] then
    (false, m)
  else
    match m.persistAndClose codec room lease .accepted preimageCheckpointXid with
    | (false, m) => (false, m)
    | (true, m) =>
      (true, { m with
        deferredWalPendingSequence :=
          max m.deferredWalPendingSequence m.watermarks.acceptedSequence })

/-- The end of `Abort`: the transaction is closed, or stays failed. -/
def closeIfPersisted : Bool × TransactionManager → Bool × TransactionManager
  | (false, m) => (false, m)
  | (true, m) => (true, m.closeTransaction)

/-- `Abort`. -/
def abortWithin (m : TransactionManager) (room : Room) (lease : Lease) :
    Bool × TransactionManager :=
  if !m.recoveryStateValid then
    (false, { m with state := .failed })
  else if m.state = .idle then
    (true, m)
  else if m.journalAppendAmbiguous then
    (false, { m with state := .failed })
  else
    closeIfPersisted (m.rewind.persistWithin codec room lease .aborted 0)

/-- `FlushPreparedRecords`.  An empty buffer is answered before any append. -/
def flushPreparedRecordsWithin (m : TransactionManager) (room : Room) (lease : Lease) :
    Bool × TransactionManager :=
  if m.bufferedPreparedRecords = [] then
    m.flushPreparedRecords lease
  else
    m.withRoom room m.firstPreparedSequenceToKeep fun m => m.flushPreparedRecords lease

/-- `AppendWatermarkLocked`. -/
def appendWatermarkWithin (m : TransactionManager) (room : Room) (lease : Lease)
    (state : RecordState) (targetSequence : ℕ) : Bool × TransactionManager :=
  m.withRoom room m.firstUncleanedSequence fun m =>
    m.appendWatermarkLocked lease state targetSequence

/-- What `MarkApfsDurableThrough` and `MarkCleanedThrough` share. -/
def markWithin (m : TransactionManager) (room : Room) (lease appendLease : Lease)
    (flushed : Bool) (recordState : RecordState) (lower upper : DurabilityWatermarks → ℕ)
    (advance : TransactionManager → TransactionManager) (targetSequence : ℕ) :
    Bool × TransactionManager :=
  if !m.recoveryStateValid ∨ m.state ≠ .idle then
    (false, m)
  else
    match m.reseedUnlessHeld codec lease with
    | (false, m) => (false, m)
    | (true, m) =>
      if targetSequence < lower m.watermarks ∨ upper m.watermarks < targetSequence then
        (false, m)
      else if targetSequence = lower m.watermarks then
        (true, m)
      else if targetSequence ∉ m.acceptedBoundaries then
        (false, m)
      else
        match m.ensureDeferredAcceptanceDurability targetSequence flushed with
        | (false, m) => (false, m.markDeferredAcceptanceDurabilityFailure)
        | (true, m) =>
          match m.appendWatermarkWithin room appendLease recordState targetSequence with
          | (false, m) => (false, m)
          | (true, m) => (true, advance m)

/-- `MarkApfsDurableThrough`. -/
def markApfsDurableWithin (m : TransactionManager) (room : Room) (lease appendLease : Lease)
    (flushed : Bool) (acceptedSequence : ℕ) : Bool × TransactionManager :=
  m.markWithin codec room lease appendLease flushed .checkpointed
    DurabilityWatermarks.apfsDurableSequence DurabilityWatermarks.acceptedSequence
    (fun m => { m with
      watermarks := { m.watermarks with apfsDurableSequence := acceptedSequence }
      lastCommittedSequence := acceptedSequence })
    acceptedSequence

/-- `MarkCleanedThrough`. -/
def markCleanedWithin (m : TransactionManager) (room : Room) (lease appendLease : Lease)
    (flushed : Bool) (durableSequence : ℕ) : Bool × TransactionManager :=
  m.markWithin codec room lease appendLease flushed .cleaned
    DurabilityWatermarks.cleanupSequence DurabilityWatermarks.apfsDurableSequence
    (fun m => { m with
      watermarks := { m.watermarks with cleanupSequence := durableSequence } }
        |>.pruneAcceptedBoundariesThrough durableSequence)
    durableSequence

/-! ## Reading the log back -/

/-- `LoadAcceptedTransactionsAfter`, with what it observes of the lease: an idle
manager reseeds itself from the records it reads. -/
def loadAcceptedTransactionsAfter (m : TransactionManager) (lease : Lease)
    (includeCheckpointedTransactions : Bool) :
    Except String (List AcceptedTransaction) × TransactionManager :=
  if !m.recoveryStateValid then
    (.error "WAL watermark state is invalid", m)
  else if m.journalPath = "" then
    let hasWork :=
      if includeCheckpointedTransactions then
        decide (m.watermarks.cleanupSequence < m.watermarks.acceptedSequence)
      else m.hasUnappliedAcceptedWork
    (if hasWork then .error "Accepted work has no WAL path" else .ok [], m)
  else if m.state ≠ .idle ∧ m.state ≠ .active then
    (.error "WAL cannot be read while a transaction is committing or failed", m)
  else if m.state = .active ∧ !lease.held then
    (.error "Active transaction lost exclusive WAL ownership",
      { m with recoveryStateValid := false })
  else if !lease.readable then
    (.error "WAL could not be read for replay", { m with recoveryStateValid := false })
  else if !validateWalSemantics codec m.journal then
    (.error "WAL semantic validation failed", { m with recoveryStateValid := false })
  else if m.state = .idle then
    match m.seedIdsFromJournalRecords codec m.journal with
    | (false, m) => (.error "WAL state could not be reseeded after lease acquisition", m)
    | (true, m) => (m.collectAcceptedTransactions m.journal includeCheckpointedTransactions, m)
  else if !lease.reheld then
    (.error "Active transaction changed WAL ownership during validation",
      { m with recoveryStateValid := false })
  else
    (m.collectAcceptedTransactions m.journal includeCheckpointedTransactions, m)

/-- `LoadUnappliedAcceptedTransactions`. -/
def loadUnappliedAcceptedTransactions (m : TransactionManager) (lease : Lease) :
    Except String (List AcceptedTransaction) × TransactionManager :=
  m.loadAcceptedTransactionsAfter codec lease false

/-- The snapshot pins of one record; `snapshotPins` is the list of pins that
`DecodeNativeSnapshotIntent` reads from an encoded intent. -/
def recordPins (snapshotPins : List UInt8 → Option (List ℕ)) (record : Record) :
    Except String (List ℕ) :=
  if record.operation = .createSnapshot ∨ record.operation = .deleteSnapshot then
    match snapshotPins record.inlinePayload with
    | none => .error "Snapshot WAL pin payload invalid"
    | some pins => .ok pins
  else
    .ok []

/-- The pins of one transaction: its preimage checkpoint and its snapshot pins. -/
def transactionPins (snapshotPins : List UInt8 → Option (List ℕ))
    (transaction : AcceptedTransaction) : Except String (List ℕ) :=
  if transaction.preimageCheckpointXid = 0 then
    .error "Accepted WAL transaction has no preimage checkpoint XID"
  else do
    let pins ← transaction.mutations.mapM (recordPins snapshotPins)
    return transaction.preimageCheckpointXid :: pins.flatten

/-- The loop of `LoadRequiredCheckpointXidsSinceCleanup`, with the sort and the
removal of duplicates behind it. -/
def requiredCheckpointXids (snapshotPins : List UInt8 → Option (List ℕ))
    (transactions : List AcceptedTransaction) : Except String (List ℕ) := do
  let pins ← transactions.mapM (transactionPins snapshotPins)
  return (pins.flatten.mergeSort (· ≤ ·)).destutter (· ≠ ·)

/-- `LoadRequiredCheckpointXidsSinceCleanup`. -/
def loadRequiredCheckpointXidsSinceCleanup (snapshotPins : List UInt8 → Option (List ℕ))
    (m : TransactionManager) (lease : Lease) :
    Except String (List ℕ) × TransactionManager :=
  match m.loadAcceptedTransactionsAfter codec lease true with
  | (.error reason, m) => (.error reason, m)
  | (.ok transactions, m) => (requiredCheckpointXids snapshotPins transactions, m)

end TransactionManager
end Journal
end ApfsAccess
