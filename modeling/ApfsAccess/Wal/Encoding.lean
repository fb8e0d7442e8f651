import ApfsAccess.Format.Codec
import ApfsAccess.Journal.Record

/-!
# The bytes of a log record

A record of the write-ahead log is a header of one of three sizes, a digest, and up
to five variable-length parts whose lengths stand in the header.  The header starts
with a magic number, a version, its own size, the size of the record and a checksum
of everything but the checksum itself.

This module has the record as it is laid out (`WalRecord`: the integers have the
widths of the source, a `std::string` is any byte string), the checks a record has to
pass, `EncodeWalRecord` and `DecodeRecord`.

## What is left abstract

The payload digest, the strict UTF-8 test of the platform, and the decoders of the
proofs that some operations carry inline are functions the codec calls and does not
look into; `ProofDecoders` collects them.  What the codec relies on is part of the
structure: every one of those decoders refuses an empty payload and a payload over the
inline limit.
-/

namespace ApfsAccess
namespace Wal

open ByteBuffer Format
open Journal (OperationKind RecordState)

/-! ## Constants -/

/-- `kMagic`, which reads `AALW` on disk. -/
def magic : ℕ := 0x574C4141

/-- `kLegacyVersion`. -/
def legacyVersion : ℕ := 1

/-- `kInlinePayloadVersion`. -/
def inlinePayloadVersion : ℕ := 2

/-- `kUnlinkOutcomeVersion`. -/
def unlinkOutcomeVersion : ℕ := 3

/-- `kLegacyHeaderSize`. -/
def legacyHeaderSize : ℕ := 148

/-- `kInlinePayloadHeaderSize`. -/
def inlinePayloadHeaderSize : ℕ := 152

/-- `kUnlinkOutcomeHeaderSize`. -/
def unlinkOutcomeHeaderSize : ℕ := 192

/-- `kChecksumOffset`. -/
def checksumOffset : ℕ := 12

/-- `kMaxRecordBytes`. -/
def maxRecordBytes : ℕ := 64 * 1024 * 1024

/-- `WriteAheadLog::PayloadHashSize`. -/
def payloadHashSize : ℕ := 32

/-- `WriteAheadLog::MaxInlinePayloadBytes`. -/
def maxInlinePayloadBytes : ℕ := 1024 * 1024

/-- `WriteAheadLog::MaxExtendedAttributeNameBytes`. -/
def maxExtendedAttributeNameBytes : ℕ := 821

/-- The underlying value of an operation kind. -/
def operationCode : OperationKind → ℕ
  | .createFile => 1
  | .createDirectory => 2
  | .write => 3
  | .setFileSize => 4
  | .rename => 5
  | .delete => 6
  | .setBasicInfo => 7
  | .setSymbolicLinkTarget => 8
  | .removeSymbolicLinkTarget => 9
  | .setExtendedAttribute => 10
  | .removeExtendedAttribute => 11
  | .setInodeMetadata => 12
  | .setAllocationSize => 13
  | .restoreDirectoryFromSymbolicLink => 14
  | .rewriteCompressedContent => 15
  | .cloneFile => 16
  | .renameVolume => 17
  | .createSnapshot => 18
  | .deleteSnapshot => 19
  | .setVolumeQuotaReserve => 20
  | .hardLink => 21
  | .nativeSparse => 22
  | .cloneRange => 23
  | .repairVolumeFileCount => 24
  | .transactionMarker => 100
  | .compactionIndex => 101
  | .durabilityWatermark => 102

/-- The operation kind with an underlying value; `none` is what `IsKnownOperation`
rejects. -/
def knownOperation (code : ℕ) : Option OperationKind :=
  [.createFile, .createDirectory, .write, .setFileSize, .rename, .delete, .setBasicInfo,
    .setSymbolicLinkTarget, .removeSymbolicLinkTarget, .setExtendedAttribute,
    .removeExtendedAttribute, .setInodeMetadata, .setAllocationSize,
    .restoreDirectoryFromSymbolicLink, .cloneFile, .hardLink, .nativeSparse, .cloneRange,
    .createSnapshot, .deleteSnapshot, .setVolumeQuotaReserve, .renameVolume,
    .repairVolumeFileCount, .rewriteCompressedContent, .transactionMarker, .compactionIndex,
    .durabilityWatermark].find? fun operation => operationCode operation == code

@[simp] theorem knownOperation_operationCode (operation : OperationKind) :
    knownOperation (operationCode operation) = some operation := by
  cases operation <;> rfl

theorem operationCode_lt (operation : OperationKind) : operationCode operation < 256 ^ 4 := by
  cases operation <;> decide

/-- The underlying value of a record state. -/
def stateCode : RecordState → UInt32
  | .prepared => 1
  | .apfsApplied => 2
  | .checkpointed => 3
  | .cleaned => 4
  | .accepted => 5
  | .publishArmed => 6
  | .cleanupArmed => 7

/-! ## The record -/

/-- `UnlinkOutcome`. -/
structure UnlinkFields where
  objectId : UInt64
  generationBefore : UInt64
  generationAfter : UInt64
  parentObjectId : UInt64
  linksBefore : UInt32
  linksAfter : UInt32
  pathUtf8 : Bytes
  deriving DecidableEq, Repr

/-- `WriteAheadLog::Record`.  The state is its underlying value: `DecodeRecord` casts
whatever the bytes hold. -/
structure WalRecord where
  volumeIdentity : Bytes := []
  transactionId : UInt64 := 0
  sequence : UInt64 := 0
  operation : OperationKind := .write
  state : UInt32 := stateCode .prepared
  objectId : UInt64 := 0
  parentObjectId : UInt64 := 0
  payloadSpoolId : UInt64 := 0
  payloadOffset : UInt64 := 0
  payloadLength : UInt64 := 0
  logicalOffset : UInt64 := 0
  logicalLength : UInt64 := 0
  flags : UInt64 := 0
  payloadSha256 : Vector UInt8 32 := Vector.replicate 32 0
  inlinePayload : Bytes := []
  pathUtf8 : Bytes := []
  secondaryPathUtf8 : Bytes := []
  unlinkOutcome : Option UnlinkFields := none
  deriving DecidableEq, Repr

/-! ## What a record has to satisfy -/

/-- What the consistency checks read of a decoded proof: the object or volume it is
about, the checkpoint or generation it was taken against, the paths it names, whether
a snapshot intent creates, and the journal identity it is bound to. -/
structure ProofView where
  objectId : UInt64
  checkpoint : UInt64
  pathUtf8 : Bytes := []
  secondaryPathUtf8 : Bytes := []
  create : Bool := false
  journalIdentity : Option Bytes := none

/-- A decoder that refuses an empty payload and one over the inline limit. -/
def Bounded (decode : Bytes → Option ProofView) : Prop :=
  ∀ payload, decode payload ≠ none →
    payload ≠ [] ∧ payload.length ≤ maxInlinePayloadBytes

/-- The functions the codec calls and does not look into. -/
structure ProofDecoders where
  computeSha256 : Bytes → Option (Vector UInt8 32)
  isStrictUtf8 : Bytes → Bool
  decodeNativeCloneRange : Bytes → Option ProofView
  decodeNativeSparse : Bytes → Option ProofView
  decodeNativeSparseV2 : Bytes → Option ProofView
  decodeNativeHardLink : Bytes → Option ProofView
  decodeNativeSnapshotIntent : Bytes → Option ProofView
  decodeNativeCountRepair : Bytes → Option ProofView
  decodeNativeVolumeQuotaReserve : Bytes → Option ProofView
  decodeNativeVolumeRename : Bytes → Option ProofView
  decodeNativeClone : Bytes → Option ProofView
  decodeCompressionRewrite : Bytes → Option ProofView
  decodeInodeMetadataPatch : Bytes → Option ProofView
  cloneRange_bounded : Bounded decodeNativeCloneRange
  sparse_bounded : Bounded decodeNativeSparse
  sparseV2_bounded : Bounded decodeNativeSparseV2
  hardLink_bounded : Bounded decodeNativeHardLink
  snapshotIntent_bounded : Bounded decodeNativeSnapshotIntent
  countRepair_bounded : Bounded decodeNativeCountRepair
  quotaReserve_bounded : Bounded decodeNativeVolumeQuotaReserve
  volumeRename_bounded : Bounded decodeNativeVolumeRename
  clone_bounded : Bounded decodeNativeClone
  compressionRewrite_bounded : Bounded decodeCompressionRewrite
  inodeMetadataPatch_bounded : Bounded decodeInodeMetadataPatch

namespace WalRecord

/-- The payload digest of the record is the digest of its inline payload. -/
def digestMatches (decoders : ProofDecoders) (record : WalRecord) : Bool :=
  decoders.computeSha256 record.inlinePayload == some record.payloadSha256

/-- The recorded payload length is the length of the inline payload. -/
def payloadLengthMatches (record : WalRecord) : Bool :=
  record.payloadLength.toNat == record.inlinePayload.length

/-- A path without the null character. -/
def hasNoNull (path : Bytes) : Bool :=
  !path.contains 0

/-- No digest was recorded. -/
def digestIsZero (record : WalRecord) : Bool :=
  record.payloadSha256.toList.all (· == 0)

/-- The conditions the intents on a whole volume share: they stand on the root path
and use none of the range fields. -/
def volumeIntentIsPlain (decoders : ProofDecoders) (record : WalRecord) (proof : ProofView) : Bool :=
  record.objectId == proof.objectId && record.parentObjectId == proof.checkpoint + 1 &&
    record.payloadLengthMatches && record.pathUtf8 == [0x5c] &&
    record.secondaryPathUtf8 == [] && record.flags == 0 && record.unlinkOutcome.isNone &&
    record.logicalOffset == 0 && record.logicalLength == 0 && record.payloadOffset == 0 &&
    record.payloadSpoolId == 0 && record.digestMatches decoders

/-- The conditions the intents on a path share (`NativeCloneRangeWalIsConsistent`,
`NativeSparseWalIsConsistent`, `NativeHardLinkWalIsConsistent`). -/
def pathIntentIsPlain (decoders : ProofDecoders) (record : WalRecord) (proof : ProofView) : Bool :=
  record.state == stateCode .prepared && record.flags == 0 && record.unlinkOutcome.isNone &&
    record.logicalOffset == 0 && record.payloadOffset == 0 && record.payloadSpoolId == 0 &&
    record.logicalLength.toNat == record.inlinePayload.length && record.payloadLengthMatches &&
    record.objectId == proof.objectId && record.parentObjectId == proof.checkpoint &&
    record.digestMatches decoders

/-- `NativeCloneRangeWalIsConsistent`. -/
def nativeCloneRangeWalIsConsistent (decoders : ProofDecoders) (record : WalRecord) : Bool :=
  (decoders.decodeNativeCloneRange record.inlinePayload).any fun proof =>
    record.pathIntentIsPlain decoders proof && record.pathUtf8 == proof.pathUtf8 &&
      record.secondaryPathUtf8 == proof.secondaryPathUtf8

/-- `NativeSparseWalIsConsistent` and `NativeSparseV2WalIsConsistent`. -/
def nativeSparseWalIsConsistent (decoders : ProofDecoders)
    (decode : Bytes → Option ProofView) (record : WalRecord) : Bool :=
  (decode record.inlinePayload).any fun proof =>
    record.pathIntentIsPlain decoders proof && record.pathUtf8 == proof.pathUtf8 &&
      record.secondaryPathUtf8 == []

/-- `NativeHardLinkWalIsConsistent`. -/
def nativeHardLinkWalIsConsistent (decoders : ProofDecoders) (record : WalRecord) : Bool :=
  (decoders.decodeNativeHardLink record.inlinePayload).any fun proof =>
    record.pathIntentIsPlain decoders proof && record.pathUtf8 != [] &&
      decide (record.pathUtf8.length ≤ 4096) && hasNoNull record.pathUtf8 &&
      record.secondaryPathUtf8 != [] && decide (record.secondaryPathUtf8.length ≤ 4096) &&
      hasNoNull record.secondaryPathUtf8 && record.pathUtf8 != record.secondaryPathUtf8

/-- `InlinePayloadIsConsistentImpl`. -/
def inlinePayloadIsConsistent (decoders : ProofDecoders) (record : WalRecord) : Bool :=
  match record.operation with
  | .cloneRange =>
    record.nativeCloneRangeWalIsConsistent decoders && decoders.isStrictUtf8 record.pathUtf8 &&
      decoders.isStrictUtf8 record.secondaryPathUtf8
  | .nativeSparse =>
    (record.nativeSparseWalIsConsistent decoders decoders.decodeNativeSparse ||
        record.nativeSparseWalIsConsistent decoders decoders.decodeNativeSparseV2) &&
      decoders.isStrictUtf8 record.pathUtf8
  | .hardLink =>
    record.nativeHardLinkWalIsConsistent decoders && decoders.isStrictUtf8 record.pathUtf8 &&
      decoders.isStrictUtf8 record.secondaryPathUtf8
  | .createSnapshot =>
    (decoders.decodeNativeSnapshotIntent record.inlinePayload).any fun proof =>
      (proof.journalIdentity.all fun identity => record.volumeIdentity == identity) &&
        proof.create == true && record.volumeIntentIsPlain decoders proof
  | .deleteSnapshot =>
    (decoders.decodeNativeSnapshotIntent record.inlinePayload).any fun proof =>
      (proof.journalIdentity.all fun identity => record.volumeIdentity == identity) &&
        proof.create == false && record.volumeIntentIsPlain decoders proof
  | .repairVolumeFileCount =>
    (decoders.decodeNativeCountRepair record.inlinePayload).any fun proof =>
      some record.volumeIdentity == proof.journalIdentity &&
        record.volumeIntentIsPlain decoders proof
  | .setVolumeQuotaReserve =>
    (decoders.decodeNativeVolumeQuotaReserve record.inlinePayload).any fun proof =>
      record.volumeIntentIsPlain decoders proof
  | .renameVolume =>
    (decoders.decodeNativeVolumeRename record.inlinePayload).any fun proof =>
      record.volumeIntentIsPlain decoders proof
  | .cloneFile =>
    (decoders.decodeNativeClone record.inlinePayload).any fun proof =>
      record.objectId == proof.objectId && record.parentObjectId == proof.checkpoint + 1 &&
        record.payloadLengthMatches && decoders.isStrictUtf8 record.pathUtf8 &&
        decoders.isStrictUtf8 record.secondaryPathUtf8 && hasNoNull record.pathUtf8 &&
        hasNoNull record.secondaryPathUtf8 && record.pathUtf8 != record.secondaryPathUtf8 &&
        record.flags == 0 && record.unlinkOutcome.isNone && record.logicalOffset == 0 &&
        record.logicalLength == 0 && record.payloadOffset == 0 && record.payloadSpoolId == 0 &&
        record.digestMatches decoders
  | .rewriteCompressedContent =>
    (decoders.decodeCompressionRewrite record.inlinePayload).any fun proof =>
      record.objectId == proof.objectId && record.parentObjectId == proof.checkpoint &&
        record.payloadLengthMatches && record.pathUtf8 != [] &&
        decoders.isStrictUtf8 record.pathUtf8 && hasNoNull record.pathUtf8 &&
        record.secondaryPathUtf8 == [] && record.flags == 0 && record.unlinkOutcome.isNone &&
        record.logicalOffset == 0 && record.logicalLength == 0 && record.payloadOffset == 0 &&
        record.payloadSpoolId == 0 && record.digestMatches decoders
  | .setInodeMetadata =>
    record.payloadLengthMatches &&
      (decoders.decodeInodeMetadataPatch record.inlinePayload).isSome &&
      record.digestMatches decoders
  | .setExtendedAttribute =>
    decide (record.inlinePayload.length ≤ maxInlinePayloadBytes) && record.payloadLengthMatches &&
      record.digestMatches decoders
  | .write =>
    record.inlinePayload == [] ||
      (decide (record.inlinePayload.length ≤ maxInlinePayloadBytes) &&
        record.payloadLengthMatches &&
        record.logicalLength.toNat == record.inlinePayload.length &&
        record.digestMatches decoders)
  | _ => record.inlinePayload == []

/-- `ExtendedAttributeMutationIsConsistentImpl`. -/
def extendedAttributeMutationIsConsistent (decoders : ProofDecoders) (record : WalRecord) : Bool :=
  let set := record.operation == .setExtendedAttribute
  let remove := record.operation == .removeExtendedAttribute
  let hasValidName := record.secondaryPathUtf8 != [] &&
    decide (record.secondaryPathUtf8.length ≤ maxExtendedAttributeNameBytes) &&
    hasNoNull record.secondaryPathUtf8 && decoders.isStrictUtf8 record.secondaryPathUtf8
  let hasValidIdentity := record.objectId != 0 && record.parentObjectId != 0 &&
    record.pathUtf8 != [] && hasNoNull record.pathUtf8 && decoders.isStrictUtf8 record.pathUtf8
  (!set && !remove) ||
    (hasValidName && hasValidIdentity && record.unlinkOutcome.isNone && record.flags == 0 &&
      record.payloadSpoolId == 0 && record.payloadOffset == 0 && record.logicalOffset == 0 &&
      record.logicalLength == 0 &&
      if set then record.inlinePayloadIsConsistent decoders
      else record.payloadLength == 0 && record.inlinePayload == [] && record.digestIsZero)

/-- `AllocationSizeMutationIsConsistentImpl`. -/
def allocationSizeMutationIsConsistent (decoders : ProofDecoders) (record : WalRecord) : Bool :=
  record.operation != .setAllocationSize ||
    (record.objectId != 0 && record.parentObjectId != 0 &&
      decide (record.logicalLength.toNat ≤ 2 ^ 63 - 1) && record.pathUtf8 != [] &&
      decoders.isStrictUtf8 record.pathUtf8 && hasNoNull record.pathUtf8 &&
      record.secondaryPathUtf8 == [] && record.unlinkOutcome.isNone && record.flags == 0 &&
      record.logicalOffset == 0 && record.payloadSpoolId == 0 && record.payloadOffset == 0 &&
      record.payloadLength == 0 && record.inlinePayload == [] && record.digestIsZero)

/-- `DirectoryRestoreMutationIsConsistentImpl`. -/
def directoryRestoreMutationIsConsistent (decoders : ProofDecoders) (record : WalRecord) : Bool :=
  record.operation != .restoreDirectoryFromSymbolicLink ||
    (record.objectId != 0 && record.parentObjectId != 0 &&
      decoders.isStrictUtf8 record.pathUtf8 && hasNoNull record.pathUtf8 &&
      record.secondaryPathUtf8 == [] && record.unlinkOutcome.isNone && record.flags == 0 &&
      record.logicalOffset == 0 && record.logicalLength == 0 && record.payloadSpoolId == 0 &&
      record.payloadOffset == 0 && record.payloadLength == 0 && record.inlinePayload == [] &&
      record.digestIsZero)

/-- `InodeMetadataMutationIsConsistentImpl`. -/
def inodeMetadataMutationIsConsistent (decoders : ProofDecoders) (record : WalRecord) : Bool :=
  record.operation != .setInodeMetadata ||
    (record.objectId != 0 && record.parentObjectId != 0 &&
      decoders.isStrictUtf8 record.pathUtf8 && hasNoNull record.pathUtf8 &&
      record.secondaryPathUtf8 == [] && record.unlinkOutcome.isNone && record.flags == 0 &&
      record.payloadSpoolId == 0 && record.payloadOffset == 0 && record.logicalOffset == 0 &&
      record.logicalLength == 0 && record.inlinePayloadIsConsistent decoders)

/-- `UnlinkOutcomeIsConsistentImpl`. -/
def unlinkOutcomeIsConsistent (record : WalRecord) : Bool :=
  record.unlinkOutcome.all fun outcome =>
    record.operation == .delete && outcome.objectId != 0 && outcome.objectId == record.objectId &&
      outcome.generationBefore != 0 && outcome.generationBefore == record.parentObjectId &&
      decide (outcome.generationBefore ≤ outcome.generationAfter) && outcome.parentObjectId != 0 &&
      outcome.linksBefore != 0 && outcome.linksAfter == outcome.linksBefore - 1 &&
      outcome.pathUtf8 == record.pathUtf8 && decide (1 < outcome.pathUtf8.length) &&
      decide (outcome.pathUtf8.length ≤ 65536) && outcome.pathUtf8.head? == some 0x5c &&
      hasNoNull outcome.pathUtf8 && record.secondaryPathUtf8 == [] &&
      record.inlinePayload == [] && record.flags == 0 && record.payloadSpoolId == 0 &&
      record.payloadOffset == 0 && record.payloadLength == 0 && record.logicalOffset == 0 &&
      record.logicalLength == 0 && record.digestIsZero

/-- The six consistency checks that encoder and decoder both make. -/
def isConsistent (decoders : ProofDecoders) (record : WalRecord) : Bool :=
  record.inlinePayloadIsConsistent decoders &&
    record.extendedAttributeMutationIsConsistent decoders &&
    record.inodeMetadataMutationIsConsistent decoders &&
    record.allocationSizeMutationIsConsistent decoders &&
    record.directoryRestoreMutationIsConsistent decoders && record.unlinkOutcomeIsConsistent

end WalRecord

/-! ## Appending and taking integers -/

/-- `AppendU16`. -/
def appendU16 (value : ℕ) : Bytes := leBytes 2 value

/-- `AppendU32`. -/
def appendU32 (value : UInt32) : Bytes := leBytes 4 value.toNat

/-- `AppendU64`. -/
def appendU64 (value : UInt64) : Bytes := leBytes 8 value.toNat

/-- `ReadU32` at the cursor, and the bytes past it. -/
def takeU32 (bytes : Bytes) : UInt32 × Bytes :=
  (UInt32.ofNat (leValue (bytes.take 4)), bytes.drop 4)

/-- `ReadU64` at the cursor, and the bytes past it. -/
def takeU64 (bytes : Bytes) : UInt64 × Bytes :=
  (UInt64.ofNat (leValue (bytes.take 8)), bytes.drop 8)

@[simp] theorem length_appendU16 (value : ℕ) : (appendU16 value).length = 2 :=
  length_leBytes 2 value

@[simp] theorem length_appendU32 (value : UInt32) : (appendU32 value).length = 4 :=
  length_leBytes 4 value.toNat

@[simp] theorem length_appendU64 (value : UInt64) : (appendU64 value).length = 8 :=
  length_leBytes 8 value.toNat

theorem leValue_appendU32 (value : UInt32) : leValue (appendU32 value) = value.toNat :=
  leValue_leBytes value.toNat_lt

@[simp] theorem takeU32_appendU32 (value : UInt32) (rest : Bytes) :
    takeU32 (appendU32 value ++ rest) = (value, rest) := by
  unfold takeU32
  rw [List.take_left' (length_appendU32 value), List.drop_left' (length_appendU32 value),
    leValue_appendU32, UInt32.ofNat_toNat]

@[simp] theorem takeU64_appendU64 (value : UInt64) (rest : Bytes) :
    takeU64 (appendU64 value ++ rest) = (value, rest) := by
  have hvalue : leValue (leBytes 8 value.toNat) = value.toNat := leValue_leBytes value.toNat_lt
  unfold takeU64
  rw [List.take_left' (length_appendU64 value), List.drop_left' (length_appendU64 value),
    appendU64, hvalue, UInt64.ofNat_toNat]

/-! ## The checksum -/

/-- The bytes a checksum covers: those of the checksum itself count as zero. -/
def checksummed (buffer : Bytes) : Bytes :=
  if 16 ≤ buffer.length then splice buffer checksumOffset [0, 0, 0, 0] else buffer

/-- `ChecksumRecord`. -/
def checksumRecord (buffer : Bytes) : UInt32 :=
  (checksummed buffer).foldl (fun hash byte => (hash ^^^ byte.toUInt32) * 16777619) 2166136261

/-- `StoreU32` at the checksum offset. -/
def storeChecksum (buffer : Bytes) (checksum : UInt32) : Bytes :=
  splice buffer checksumOffset (appendU32 checksum)

theorem length_storeChecksum {buffer : Bytes} (h : 16 ≤ buffer.length) (checksum : UInt32) :
    (storeChecksum buffer checksum).length = buffer.length := by
  refine length_splice ?_
  rw [length_appendU32, checksumOffset]
  omega

/-- A checksum does not depend on what stands in its own place. -/
theorem checksumRecord_storeChecksum {buffer : Bytes} (h : 16 ≤ buffer.length)
    (checksum : UInt32) : checksumRecord (storeChecksum buffer checksum) = checksumRecord buffer := by
  have hbounds : checksumOffset + (appendU32 checksum).length ≤ buffer.length := by
    rw [length_appendU32, checksumOffset]
    omega
  have hlength := length_storeChecksum h checksum
  unfold checksumRecord checksummed
  rw [if_pos (by omega), if_pos h]
  congr 1
  apply List.ext_getElem?
  intro i
  have hzero : checksumOffset + ([0, 0, 0, 0] : Bytes).length ≤ buffer.length := by
    rw [checksumOffset]
    exact h
  rw [getElem?_splice (by rw [hlength]; exact hzero), getElem?_splice hzero]
  split
  · unfold storeChecksum
    rw [getElem?_splice hbounds, if_pos (by assumption)]
  · split
    · rfl
    · rename_i hafter
      unfold storeChecksum
      rw [getElem?_splice hbounds, if_neg (by assumption), if_neg (by simpa using hafter)]

/-! ## Encoding -/

/-- The operations whose record has to be of the inline-payload version. -/
def requiresInlinePayloadVersion : OperationKind → Bool
  | .rewriteCompressedContent | .cloneFile | .hardLink | .nativeSparse | .cloneRange
  | .setVolumeQuotaReserve | .renameVolume | .createSnapshot | .deleteSnapshot
  | .repairVolumeFileCount => true
  | _ => false

/-- The version a record is written in. -/
def recordVersion (record : WalRecord) (versionOverride : ℕ) : ℕ :=
  if versionOverride = 0 then
    if record.unlinkOutcome.isSome then unlinkOutcomeVersion
    else if record.operation = .setExtendedAttribute ∨ record.inlinePayload ≠ [] then
      inlinePayloadVersion
    else legacyVersion
  else versionOverride

/-- The header size of a version. -/
def headerSize (version : ℕ) : ℕ :=
  if version = unlinkOutcomeVersion then unlinkOutcomeHeaderSize
  else if version = inlinePayloadVersion then inlinePayloadHeaderSize
  else legacyHeaderSize

/-- Whether a record may be written in a version. -/
def versionAdmitted (record : WalRecord) (version : ℕ) : Bool :=
  !((record.operation == .setExtendedAttribute && version != inlinePayloadVersion) ||
    (requiresInlinePayloadVersion record.operation && version != inlinePayloadVersion) ||
    (record.operation == .removeExtendedAttribute && version != legacyVersion) ||
    (record.inlinePayload != [] && version != inlinePayloadVersion) ||
    record.unlinkOutcome.isSome != (version == unlinkOutcomeVersion))

/-- The length of the path an unlink outcome carries. -/
def unlinkPathLength (record : WalRecord) : ℕ :=
  (record.unlinkOutcome.map fun outcome => outcome.pathUtf8.length).getD 0

/-- The size of a record. -/
def recordSize (record : WalRecord) (version : ℕ) : ℕ :=
  headerSize version + record.pathUtf8.length + record.secondaryPathUtf8.length +
    record.volumeIdentity.length + record.inlinePayload.length + unlinkPathLength record

/-- The part of the header every version has, from the transaction id on. -/
def fixedBytes (record : WalRecord) : Bytes :=
  appendU64 record.transactionId ++ (appendU64 record.sequence ++
    (appendU32 (UInt32.ofNat (operationCode record.operation)) ++ (appendU32 record.state ++
    (appendU64 record.objectId ++ (appendU64 record.parentObjectId ++
    (appendU64 record.payloadSpoolId ++ (appendU64 record.payloadOffset ++
    (appendU64 record.payloadLength ++ (appendU64 record.logicalOffset ++
    (appendU64 record.logicalLength ++ (appendU64 record.flags ++
    (appendU32 (UInt32.ofNat record.pathUtf8.length) ++
    (appendU32 (UInt32.ofNat record.secondaryPathUtf8.length) ++
    appendU32 (UInt32.ofNat record.volumeIdentity.length))))))))))))))

/-- The part of the header that depends on the version. -/
def versionBytes (record : WalRecord) (version : ℕ) : Bytes :=
  if version = inlinePayloadVersion then
    appendU32 (UInt32.ofNat record.inlinePayload.length)
  else
    match record.unlinkOutcome with
    | none => []
    | some outcome =>
      appendU64 outcome.objectId ++ (appendU64 outcome.generationBefore ++
        (appendU64 outcome.generationAfter ++ (appendU64 outcome.parentObjectId ++
        (appendU32 outcome.linksBefore ++ (appendU32 outcome.linksAfter ++
        appendU32 (UInt32.ofNat outcome.pathUtf8.length))))))

/-- The variable-length parts of a record. -/
def variableBytes (record : WalRecord) : Bytes :=
  record.pathUtf8 ++ (record.secondaryPathUtf8 ++ (record.volumeIdentity ++
    (record.inlinePayload ++ ((record.unlinkOutcome.map UnlinkFields.pathUtf8).getD []))))

/-- A record before its checksum is stored. -/
def unchecked (record : WalRecord) (version : ℕ) : Bytes :=
  appendU32 (UInt32.ofNat magic) ++ (appendU16 version ++ (appendU16 (headerSize version) ++
    (appendU32 (UInt32.ofNat (recordSize record version)) ++ (appendU32 0 ++
    (fixedBytes record ++ (versionBytes record version ++
    (record.payloadSha256.toList ++ variableBytes record)))))))

/-- `EncodeWalRecord`. -/
def encodeWalRecord (decoders : ProofDecoders) (record : WalRecord) (versionOverride : ℕ) :
    Option Bytes :=
  let version := recordVersion record versionOverride
  if !versionAdmitted record version || !record.isConsistent decoders then
    none
  else if 2 ^ 32 - 1 < recordSize record version then
    none
  else
    let buffer := unchecked record version
    some (storeChecksum buffer (checksumRecord buffer))

end Wal
end ApfsAccess
