import Mathlib

/-!
# The records of the write-ahead log

`WriteAheadLog::Record` is the only thing that survives a restart of the
transaction manager.  This module has the record itself, the enumerations it is
made of, the mutation intent a caller hands to `RecordMutation`, and the
translation of a mutation kind to the operation kind that is written.

## What is left abstract

A record that carries an *intent* (a clone, a hard link, a volume rename, ...)
holds an encoded proof in `inlinePayload`.  Whether the encoding is consistent
with the rest of the record, and which checkpoint it was taken against, is
decided by one codec per intent.  The transaction manager only ever asks those
codecs the same questions about the same record, so the journal is modelled over
an arbitrary `WalCodec`, and nothing is assumed about it.
-/

namespace ApfsAccess
namespace Journal

/-- `WriteAheadLog::OperationKind`. -/
inductive OperationKind where
  | createFile
  | createDirectory
  | write
  | setFileSize
  | rename
  | delete
  | setBasicInfo
  | setSymbolicLinkTarget
  | removeSymbolicLinkTarget
  | setExtendedAttribute
  | removeExtendedAttribute
  | setInodeMetadata
  | setAllocationSize
  | restoreDirectoryFromSymbolicLink
  | rewriteCompressedContent
  | cloneFile
  | renameVolume
  | createSnapshot
  | deleteSnapshot
  | repairVolumeFileCount
  | setVolumeQuotaReserve
  | hardLink
  | nativeSparse
  | cloneRange
  | transactionMarker
  | compactionIndex
  | durabilityWatermark
  deriving DecidableEq, Repr

/-- `WriteAheadLog::RecordState`. -/
inductive RecordState where
  | prepared
  | apfsApplied
  | checkpointed
  | cleaned
  | accepted
  | publishArmed
  | cleanupArmed
  deriving DecidableEq, Repr

/-- `UnlinkOutcome`: the namespace result captured by native staging. -/
structure UnlinkOutcome where
  objectId : ℕ
  generationBefore : ℕ
  generationAfter : ℕ
  parentObjectId : ℕ
  linksBefore : ℕ
  linksAfter : ℕ
  pathUtf8 : String
  deriving DecidableEq, Repr

/-- `WriteAheadLog::Record`, with the defaults of a value-initialised one. -/
structure Record where
  volumeIdentity : String := ""
  transactionId : ℕ := 0
  sequence : ℕ := 0
  operation : OperationKind := .write
  state : RecordState := .prepared
  objectId : ℕ := 0
  parentObjectId : ℕ := 0
  payloadSpoolId : ℕ := 0
  payloadOffset : ℕ := 0
  payloadLength : ℕ := 0
  logicalOffset : ℕ := 0
  logicalLength : ℕ := 0
  flags : ℕ := 0
  payloadSha256 : List UInt8 := List.replicate 32 0
  inlinePayload : List UInt8 := []
  pathUtf8 : String := ""
  secondaryPathUtf8 : String := ""
  unlinkOutcome : Option UnlinkOutcome := none
  deriving DecidableEq, Repr

/-- `kWalFlagCommitted`. -/
def walFlagCommitted : ℕ := 0x1

/-- `kWalFlagAborted`. -/
def walFlagAborted : ℕ := 0x2

/-- `kWalFlagReplaceIfExists`. -/
def walFlagReplaceIfExists : ℕ := 0x4

/-- `kWalFlagAccepted`. -/
def walFlagAccepted : ℕ := 0x8

/-- The largest 64-bit value, which no sequence and no transaction id may take. -/
def exhausted : ℕ := 2 ^ 64 - 1

/-- `TransactionManager::MutationKind`. -/
inductive MutationKind where
  | createFile
  | createDirectory
  | write
  | setFileSize
  | rename
  | delete
  | setBasicInfo
  | setSymbolicLinkTarget
  | removeSymbolicLinkTarget
  | setExtendedAttribute
  | removeExtendedAttribute
  | setInodeMetadata
  | setAllocationSize
  | restoreDirectoryFromSymbolicLink
  | rewriteCompressedContent
  | cloneFile
  | renameVolume
  | createSnapshot
  | deleteSnapshot
  | repairVolumeFileCount
  | setVolumeQuotaReserve
  | hardLink
  | nativeSparse
  | cloneRange
  deriving DecidableEq, Repr

/-- `TransactionManager::MutationIntent`. -/
structure MutationIntent where
  kind : MutationKind := .write
  path : String := ""
  secondaryPath : String := ""
  offset : ℕ := 0
  length : ℕ := 0
  walSequence : ℕ := 0
  objectId : ℕ := 0
  generation : ℕ := 0
  payloadSpoolOffset : ℕ := 0
  payloadLength : ℕ := 0
  timestampUtc : ℕ := 0
  payloadChecksum : List UInt8 := List.replicate 32 0
  inlinePayload : List UInt8 := []
  replaceIfExists : Bool := false
  unlinkOutcome : Option UnlinkOutcome := none
  deriving DecidableEq, Repr

/-- `ToWalOperation`. -/
def toWalOperation : MutationKind → OperationKind
  | .createFile => .createFile
  | .createDirectory => .createDirectory
  | .write => .write
  | .setFileSize => .setFileSize
  | .rename => .rename
  | .delete => .delete
  | .setBasicInfo => .setBasicInfo
  | .setSymbolicLinkTarget => .setSymbolicLinkTarget
  | .removeSymbolicLinkTarget => .removeSymbolicLinkTarget
  | .setExtendedAttribute => .setExtendedAttribute
  | .removeExtendedAttribute => .removeExtendedAttribute
  | .setInodeMetadata => .setInodeMetadata
  | .setAllocationSize => .setAllocationSize
  | .restoreDirectoryFromSymbolicLink => .restoreDirectoryFromSymbolicLink
  | .rewriteCompressedContent => .rewriteCompressedContent
  | .cloneFile => .cloneFile
  | .renameVolume => .renameVolume
  | .createSnapshot => .createSnapshot
  | .deleteSnapshot => .deleteSnapshot
  | .repairVolumeFileCount => .repairVolumeFileCount
  | .setVolumeQuotaReserve => .setVolumeQuotaReserve
  | .hardLink => .hardLink
  | .nativeSparse => .nativeSparse
  | .cloneRange => .cloneRange

/-- `IsMutationOperation`: every operation kind except the three the journal
writes for itself. -/
def isMutationOperation : OperationKind → Bool
  | .transactionMarker => false
  | .compactionIndex => false
  | .durabilityWatermark => false
  | _ => true

@[simp] theorem isMutationOperation_toWalOperation (kind : MutationKind) :
    isMutationOperation (toWalOperation kind) = true := by
  cases kind <;> rfl

/-- The operations whose record carries an encoded intent. -/
def carriesIntent : OperationKind → Bool
  | .cloneFile => true
  | .hardLink => true
  | .nativeSparse => true
  | .cloneRange => true
  | .renameVolume => true
  | .setVolumeQuotaReserve => true
  | .createSnapshot => true
  | .deleteSnapshot => true
  | .repairVolumeFileCount => true
  | _ => false

/-- The questions the transaction manager asks about an encoded record: the
`WriteAheadLog::...IsConsistent` checks, and the `DecodeNative...` decoders, of
which it uses only the checkpoint the intent was taken against. -/
structure WalCodec where
  inlinePayloadIsConsistent : Record → Bool
  nativeCloneIsConsistent : Record → Bool
  nativeHardLinkIsConsistent : Record → Bool
  nativeSparseIsConsistent : Record → Bool
  nativeCloneRangeIsConsistent : Record → Bool
  volumeQuotaReserveIsConsistent : Record → Bool
  volumeRenameIsConsistent : Record → Bool
  snapshotIntentIsConsistent : Record → Bool
  countRepairIsConsistent : Record → Bool
  compressionRewriteIsConsistent : Record → Bool
  extendedAttributeMutationIsConsistent : Record → Bool
  allocationSizeMutationIsConsistent : Record → Bool
  directoryRestoreMutationIsConsistent : Record → Bool
  inodeMetadataMutationIsConsistent : Record → Bool
  unlinkOutcomeIsConsistent : Record → Bool
  decodeNativeClone : List UInt8 → Option ℕ
  decodeNativeHardLink : List UInt8 → Option ℕ
  decodeNativeCloneRange : List UInt8 → Option ℕ
  decodeNativeSparseOriginalCheckpoint : List UInt8 → Option ℕ
  decodeNativeVolumeQuotaReserve : List UInt8 → Option ℕ
  decodeNativeVolumeRename : List UInt8 → Option ℕ
  decodeNativeSnapshotIntent : List UInt8 → Option ℕ
  decodeNativeCountRepair : List UInt8 → Option ℕ

/-- `IsTransactionMarkerWithState`. -/
def isTransactionMarkerWithState (record : Record) (state : RecordState) (flags : ℕ) : Bool :=
  record.state == state && record.flags == flags

/-- The two checks of `AppendPreparedMutationLocked` share this conjunction of
consistency predicates. -/
def WalCodec.mutationIsConsistent (codec : WalCodec) (record : Record) : Bool :=
  codec.nativeCloneRangeIsConsistent record && codec.nativeSparseIsConsistent record &&
    codec.nativeHardLinkIsConsistent record && codec.snapshotIntentIsConsistent record &&
    codec.countRepairIsConsistent record && codec.volumeQuotaReserveIsConsistent record &&
    codec.volumeRenameIsConsistent record && codec.nativeCloneIsConsistent record &&
    codec.compressionRewriteIsConsistent record &&
    codec.extendedAttributeMutationIsConsistent record &&
    codec.allocationSizeMutationIsConsistent record &&
    codec.directoryRestoreMutationIsConsistent record &&
    codec.inodeMetadataMutationIsConsistent record

end Journal
end ApfsAccess
