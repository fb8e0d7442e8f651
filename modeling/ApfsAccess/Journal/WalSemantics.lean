import ApfsAccess.Journal.Record

/-!
# What a well-formed log looks like

`ValidateWalSemantics` is the gate every recovery path goes through.  It makes
two passes over the records: the first one reads the compaction floor, the
second one replays the records against a small state (which transaction is open,
how many records it has prepared, which transactions are closed, and which
checkpoint a transaction's intent was taken against).

The second pass is written here as a step function on that state, so that the
effect of appending records to a log is the effect of running the step function
a little further.
-/

namespace ApfsAccess
namespace Journal

variable (codec : WalCodec)

/-- The checkpoint a record's intent decodes to, when the record passes the
consistency checks that `ValidateWalSemantics` makes for its operation. -/
def intentCheckpoint (record : Record) : Option ℕ :=
  match record.operation with
  | .cloneFile =>
    if codec.nativeCloneIsConsistent record then
      codec.decodeNativeClone record.inlinePayload
    else none
  | .hardLink =>
    if codec.nativeHardLinkIsConsistent record then
      codec.decodeNativeHardLink record.inlinePayload
    else none
  | .cloneRange =>
    if codec.nativeCloneRangeIsConsistent record then
      codec.decodeNativeCloneRange record.inlinePayload
    else none
  | .nativeSparse =>
    if codec.nativeSparseIsConsistent record then
      codec.decodeNativeSparseOriginalCheckpoint record.inlinePayload
    else none
  | .setVolumeQuotaReserve =>
    if codec.volumeQuotaReserveIsConsistent record then
      codec.decodeNativeVolumeQuotaReserve record.inlinePayload
    else none
  | .renameVolume =>
    if codec.snapshotIntentIsConsistent record && codec.countRepairIsConsistent record &&
        codec.volumeQuotaReserveIsConsistent record && codec.volumeRenameIsConsistent record then
      codec.decodeNativeVolumeRename record.inlinePayload
    else none
  | .createSnapshot =>
    if codec.snapshotIntentIsConsistent record then
      codec.decodeNativeSnapshotIntent record.inlinePayload
    else none
  | .deleteSnapshot =>
    if codec.snapshotIntentIsConsistent record then
      codec.decodeNativeSnapshotIntent record.inlinePayload
    else none
  | .repairVolumeFileCount =>
    if codec.countRepairIsConsistent record then
      codec.decodeNativeCountRepair record.inlinePayload
    else none
  | _ => none

/-- The local variables of the second pass of `ValidateWalSemantics`. -/
structure WalScan where
  preparedCounts : AList (fun _ : ℕ => ℕ) := ∅
  cloneCheckpoints : AList (fun _ : ℕ => ℕ) := ∅
  terminalTransactions : Finset ℕ := ∅
  previousSequence : ℕ := 0
  activeTransactionId : ℕ := 0

/-- The first pass: every compaction index is well formed, and the floor is the
largest of their sequences. -/
def compactionFloorStep (floor : ℕ) (record : Record) : Option ℕ :=
  if record.operation ≠ .compactionIndex then
    some floor
  else if record.transactionId ≠ 0 ∨ record.sequence = 0 ∨ record.sequence = exhausted ∨
      record.state ≠ .cleaned ∨ record.flags ≠ 0 then
    none
  else
    some (max floor record.sequence)

/-- The check an accepted or committed marker makes against the records its
transaction prepared. -/
def boundaryIsComplete (floor : ℕ) (scan : WalScan) (record : Record) (committed : Bool) : Bool :=
  let intentMatches :=
    match scan.cloneCheckpoints.lookup record.transactionId with
    | some checkpoint => record.objectId == checkpoint && record.logicalLength == 1
    | none => true
  let preparedMatches :=
    match scan.preparedCounts.lookup record.transactionId with
    | none => committed && record.logicalLength == 0
    | some count => count == record.logicalLength
  intentMatches && (record.sequence == floor || preparedMatches)

/-- The marker branch of the second pass. -/
def scanMarker (floor : ℕ) (scan : WalScan) (record : Record) : Option WalScan :=
  if record.transactionId = 0 ∨ record.transactionId = exhausted ∨
      (scan.activeTransactionId ≠ 0 ∧ scan.activeTransactionId ≠ record.transactionId) ∨
      record.transactionId ∈ scan.terminalTransactions then
    none
  else
    let accepted := isTransactionMarkerWithState record .accepted walFlagAccepted
    let committed := isTransactionMarkerWithState record .checkpointed walFlagCommitted
    let aborted := isTransactionMarkerWithState record .cleaned walFlagAborted
    if !accepted && !committed && !aborted then
      none
    else if (accepted || committed) && !boundaryIsComplete floor scan record committed then
      none
    else
      some { scan with
        preparedCounts := scan.preparedCounts.erase record.transactionId
        terminalTransactions := insert record.transactionId scan.terminalTransactions
        activeTransactionId :=
          if scan.activeTransactionId = record.transactionId then 0
          else scan.activeTransactionId }

/-- The watermark branch of the second pass. -/
def scanWatermark (scan : WalScan) (record : Record) : Option WalScan :=
  if record.transactionId ≠ 0 ∨ scan.activeTransactionId ≠ 0 ∨ record.flags ≠ 0 ∨
      record.logicalOffset = 0 ∨
      (record.state ≠ .checkpointed ∧ record.state ≠ .cleaned) then
    none
  else
    some scan

/-- `emplace` of the checkpoint a prepared record's intent names. -/
def scanIntent (scan : WalScan) (record : Record) : Option WalScan :=
  if carriesIntent record.operation then
    match intentCheckpoint codec record with
    | none => none
    | some checkpoint =>
      if record.transactionId ∈ scan.cloneCheckpoints then none
      else some { scan with
        cloneCheckpoints := scan.cloneCheckpoints.insert record.transactionId checkpoint }
  else
    some scan

/-- The mutation branch of the second pass. -/
def scanMutation (scan : WalScan) (record : Record) : Option WalScan :=
  if !isMutationOperation record.operation ∨ record.state ≠ .prepared ∨
      record.transactionId = 0 ∨ record.transactionId = exhausted ∨
      (scan.activeTransactionId ≠ 0 ∧ scan.activeTransactionId ≠ record.transactionId) ∨
      record.transactionId ∈ scan.terminalTransactions then
    none
  else
    match scanIntent codec scan record with
    | none => none
    | some scan =>
      some { scan with
        activeTransactionId := record.transactionId
        preparedCounts := scan.preparedCounts.insert record.transactionId
          ((scan.preparedCounts.lookup record.transactionId).getD 0 + 1) }

/-- One record of the second pass. -/
def scanStep (floor : ℕ) (scan : WalScan) (record : Record) : Option WalScan :=
  if record.operation = .compactionIndex then
    some scan
  else if record.sequence = 0 ∨ record.sequence = exhausted ∨ record.sequence < floor ∨
      record.sequence ≤ scan.previousSequence then
    none
  else
    let scan := { scan with previousSequence := record.sequence }
    match record.operation with
    | .transactionMarker => scanMarker floor scan record
    | .durabilityWatermark => scanWatermark scan record
    | _ => scanMutation codec scan record

/-- `ValidateWalSemantics`. -/
def validateWalSemantics (records : List Record) : Bool :=
  match records.foldlM compactionFloorStep 0 with
  | none => false
  | some floor =>
    match records.foldlM (scanStep codec floor) {} with
    | none => false
    | some scan => scan.activeTransactionId == 0 && scan.preparedCounts.entries.isEmpty

end Journal
end ApfsAccess
