import ApfsAccess.Wal.Encoding

/-!
# Decoding one record

`DecodeRecord` walks over the bytes of one frame with a cursor.  Here the cursor is
the list of bytes that are still to be read, so that each field is one `take` at its
head, and the round trip is the statement that taking undoes appending, field by
field.

* `decodeRecord_of_encodeWalRecord` : a record that was encoded is decoded to itself.
-/

namespace ApfsAccess
namespace Wal

open ByteBuffer Format
open Journal (OperationKind RecordState)

/-- `WriteAheadLog::ReadStatus`. -/
inductive ReadStatus where
  | ok
  | ioError
  | corrupt
  | checksumMismatch
  | versionMismatch
  | volumeMismatch
  | resourceLimit
  deriving DecidableEq, Repr

/-- The fields of the header that every version has. -/
structure FixedFields where
  transactionId : UInt64
  sequence : UInt64
  operation : UInt32
  state : UInt32
  objectId : UInt64
  parentObjectId : UInt64
  payloadSpoolId : UInt64
  payloadOffset : UInt64
  payloadLength : UInt64
  logicalOffset : UInt64
  logicalLength : UInt64
  flags : UInt64
  pathLength : UInt32
  secondaryPathLength : UInt32
  volumeIdentityLength : UInt32

/-- The fields of the header that depend on the version; the path of an unlink outcome
comes with the variable-length parts. -/
structure VersionFields where
  inlinePayloadLength : UInt32 := 0
  unlinkPathLength : UInt32 := 0
  unlinkOutcome : Option UnlinkFields := none

/-- Read the fields every version has. -/
def takeFixed (bytes : Bytes) : FixedFields × Bytes :=
  let (transactionId, bytes) := takeU64 bytes
  let (sequence, bytes) := takeU64 bytes
  let (operation, bytes) := takeU32 bytes
  let (state, bytes) := takeU32 bytes
  let (objectId, bytes) := takeU64 bytes
  let (parentObjectId, bytes) := takeU64 bytes
  let (payloadSpoolId, bytes) := takeU64 bytes
  let (payloadOffset, bytes) := takeU64 bytes
  let (payloadLength, bytes) := takeU64 bytes
  let (logicalOffset, bytes) := takeU64 bytes
  let (logicalLength, bytes) := takeU64 bytes
  let (flags, bytes) := takeU64 bytes
  let (pathLength, bytes) := takeU32 bytes
  let (secondaryPathLength, bytes) := takeU32 bytes
  let (volumeIdentityLength, bytes) := takeU32 bytes
  (⟨transactionId, sequence, operation, state, objectId, parentObjectId, payloadSpoolId,
    payloadOffset, payloadLength, logicalOffset, logicalLength, flags, pathLength,
    secondaryPathLength, volumeIdentityLength⟩, bytes)

/-- Read the fields of an unlink outcome. -/
def takeUnlink (bytes : Bytes) : VersionFields × Bytes :=
  let (objectId, bytes) := takeU64 bytes
  let (generationBefore, bytes) := takeU64 bytes
  let (generationAfter, bytes) := takeU64 bytes
  let (parentObjectId, bytes) := takeU64 bytes
  let (linksBefore, bytes) := takeU32 bytes
  let (linksAfter, bytes) := takeU32 bytes
  let (pathLength, bytes) := takeU32 bytes
  ({ unlinkPathLength := pathLength
     unlinkOutcome := some ⟨objectId, generationBefore, generationAfter, parentObjectId,
       linksBefore, linksAfter, []⟩ }, bytes)

/-- Read the fields that depend on the version. -/
def takeVersioned (version : ℕ) (bytes : Bytes) : Except ReadStatus (VersionFields × Bytes) :=
  if version = inlinePayloadVersion then
    if maxInlinePayloadBytes < (takeU32 bytes).1.toNat then .error .corrupt
    else .ok ({ inlinePayloadLength := (takeU32 bytes).1 }, (takeU32 bytes).2)
  else if version = unlinkOutcomeVersion then
    .ok (takeUnlink bytes)
  else
    .ok ({}, bytes)

/-- The version checks `DecodeRecord` makes once it knows the operation. -/
def decodedVersionIsValid (operation : OperationKind) (version : ℕ) : Bool :=
  (operation != .setExtendedAttribute || version == inlinePayloadVersion) &&
    (operation != .removeExtendedAttribute || version == legacyVersion) &&
    !(requiresInlinePayloadVersion operation && version != inlinePayloadVersion) &&
    !(operation == .setInodeMetadata && version != inlinePayloadVersion)

/-- The number of bytes the variable-length parts are said to take. -/
def variableLength (fixed : FixedFields) (versioned : VersionFields) : ℕ :=
  fixed.pathLength.toNat + fixed.secondaryPathLength.toNat + fixed.volumeIdentityLength.toNat +
    versioned.inlinePayloadLength.toNat + versioned.unlinkPathLength.toNat

/-- The record the fields and the variable-length parts make up. -/
def assembleRecord (operation : OperationKind) (fixed : FixedFields) (versioned : VersionFields)
    (digest : Vector UInt8 32) (bytes : Bytes) : WalRecord :=
  let path := bytes.take fixed.pathLength.toNat
  let bytes := bytes.drop fixed.pathLength.toNat
  let secondaryPath := bytes.take fixed.secondaryPathLength.toNat
  let bytes := bytes.drop fixed.secondaryPathLength.toNat
  let volumeIdentity := bytes.take fixed.volumeIdentityLength.toNat
  let bytes := bytes.drop fixed.volumeIdentityLength.toNat
  let inlinePayload := bytes.take versioned.inlinePayloadLength.toNat
  let bytes := bytes.drop versioned.inlinePayloadLength.toNat
  { volumeIdentity
    transactionId := fixed.transactionId
    sequence := fixed.sequence
    operation
    state := fixed.state
    objectId := fixed.objectId
    parentObjectId := fixed.parentObjectId
    payloadSpoolId := fixed.payloadSpoolId
    payloadOffset := fixed.payloadOffset
    payloadLength := fixed.payloadLength
    logicalOffset := fixed.logicalOffset
    logicalLength := fixed.logicalLength
    flags := fixed.flags
    payloadSha256 := digest
    inlinePayload
    pathUtf8 := path
    secondaryPathUtf8 := secondaryPath
    unlinkOutcome := versioned.unlinkOutcome.map fun outcome =>
      { outcome with pathUtf8 := bytes.take versioned.unlinkPathLength.toNat } }

/-- `DecodeRecord`, on the bytes of one frame. -/
def decodeRecord (decoders : ProofDecoders) (recordBytes : Bytes) (version : ℕ)
    (expectedVolumeIdentity : Bytes) : Except ReadStatus WalRecord :=
  if (checksumRecord recordBytes).toNat ≠ leValue (slice recordBytes checksumOffset 4) then
    .error .checksumMismatch
  else
    let fixed := (takeFixed (recordBytes.drop 16)).1
    match takeVersioned version (takeFixed (recordBytes.drop 16)).2 with
    | .error status => .error status
    | .ok (versioned, rest) =>
      if hdigest : rest.length < payloadHashSize then
        .error .corrupt
      else
        let digest : Vector UInt8 32 := ⟨(rest.take 32).toArray, by
          rw [payloadHashSize] at hdigest
          simp
          omega⟩
        let rest := rest.drop payloadHashSize
        if recordBytes.length < variableLength fixed versioned ∨
            rest.length ≠ variableLength fixed versioned then
          .error .corrupt
        else
          match knownOperation fixed.operation.toNat with
          | none => .error .corrupt
          | some operation =>
            let record := assembleRecord operation fixed versioned digest rest
            if !decodedVersionIsValid operation version || !record.isConsistent decoders then
              .error .corrupt
            else if expectedVolumeIdentity ≠ [] ∧ record.volumeIdentity ≠ expectedVolumeIdentity then
              .error .volumeMismatch
            else
              .ok record

/-! ## Taking undoes appending -/

/-- What `takeFixed` reads of a record. -/
def fixedFields (record : WalRecord) : FixedFields where
  transactionId := record.transactionId
  sequence := record.sequence
  operation := UInt32.ofNat (operationCode record.operation)
  state := record.state
  objectId := record.objectId
  parentObjectId := record.parentObjectId
  payloadSpoolId := record.payloadSpoolId
  payloadOffset := record.payloadOffset
  payloadLength := record.payloadLength
  logicalOffset := record.logicalOffset
  logicalLength := record.logicalLength
  flags := record.flags
  pathLength := UInt32.ofNat record.pathUtf8.length
  secondaryPathLength := UInt32.ofNat record.secondaryPathUtf8.length
  volumeIdentityLength := UInt32.ofNat record.volumeIdentity.length

theorem takeFixed_fixedBytes (record : WalRecord) (rest : Bytes) :
    takeFixed (fixedBytes record ++ rest) = (fixedFields record, rest) := by
  simp only [takeFixed, fixedBytes, List.append_assoc, takeU64_appendU64, takeU32_appendU32]
  rfl

@[simp] theorem length_fixedBytes (record : WalRecord) : (fixedBytes record).length = 100 := by
  simp [fixedBytes]

/-- What `takeVersioned` reads of a record. -/
def versionFields (record : WalRecord) : VersionFields where
  inlinePayloadLength := UInt32.ofNat record.inlinePayload.length
  unlinkPathLength := UInt32.ofNat (unlinkPathLength record)
  unlinkOutcome := record.unlinkOutcome.map fun outcome => { outcome with pathUtf8 := [] }

theorem versionAdmitted_iff {record : WalRecord} {version : ℕ} :
    versionAdmitted record version = true ↔
      (record.operation = .setExtendedAttribute → version = inlinePayloadVersion) ∧
      (requiresInlinePayloadVersion record.operation = true → version = inlinePayloadVersion) ∧
      (record.operation = .removeExtendedAttribute → version = legacyVersion) ∧
      (record.inlinePayload ≠ [] → version = inlinePayloadVersion) ∧
      (record.unlinkOutcome.isSome = true ↔ version = unlinkOutcomeVersion) := by
  have hunlink : (record.unlinkOutcome.isSome != (version == unlinkOutcomeVersion)) = false ↔
      (record.unlinkOutcome.isSome = true ↔ version = unlinkOutcomeVersion) := by
    rw [bne_eq_false_iff_eq, Bool.eq_iff_iff, beq_iff_eq]
  simp only [versionAdmitted, Bool.not_eq_true', Bool.or_eq_false_iff, Bool.and_eq_false_imp,
    beq_iff_eq, bne_eq_false_iff_eq, bne_iff_ne, ne_eq, hunlink, and_assoc]

/-- A consistent record's inline payload is within the limit. -/
theorem WalRecord.inlinePayload_length_le {decoders : ProofDecoders} {record : WalRecord}
    (h : record.inlinePayloadIsConsistent decoders = true) :
    record.inlinePayload.length ≤ maxInlinePayloadBytes := by
  have hdecoded : ∀ {decode : Bytes → Option ProofView} {check : ProofView → Bool},
      Bounded decode → (decode record.inlinePayload).any check = true →
      record.inlinePayload.length ≤ maxInlinePayloadBytes := by
    intro decode check hbounded hany
    refine (hbounded _ ?_).2
    intro hnone
    rw [hnone] at hany
    cases hany
  have hempty : record.inlinePayload = [] → record.inlinePayload.length ≤ maxInlinePayloadBytes := by
    intro hnil
    simp [hnil]
  unfold inlinePayloadIsConsistent at h
  split at h
  · simp only [Bool.and_eq_true] at h
    exact hdecoded decoders.cloneRange_bounded h.1.1
  · simp only [Bool.and_eq_true, Bool.or_eq_true] at h
    rcases h.1 with h | h
    · exact hdecoded decoders.sparse_bounded h
    · exact hdecoded decoders.sparseV2_bounded h
  · simp only [Bool.and_eq_true] at h
    exact hdecoded decoders.hardLink_bounded h.1.1
  · exact hdecoded decoders.snapshotIntent_bounded h
  · exact hdecoded decoders.snapshotIntent_bounded h
  · exact hdecoded decoders.countRepair_bounded h
  · exact hdecoded decoders.quotaReserve_bounded h
  · exact hdecoded decoders.volumeRename_bounded h
  · exact hdecoded decoders.clone_bounded h
  · exact hdecoded decoders.compressionRewrite_bounded h
  · simp only [Bool.and_eq_true] at h
    refine (decoders.inodeMetadataPatch_bounded _ ?_).2
    intro hnone
    rw [hnone] at h
    simp at h
  · simp only [Bool.and_eq_true, decide_eq_true_eq] at h
    exact h.1.1
  · simp only [Bool.or_eq_true, Bool.and_eq_true, decide_eq_true_eq, beq_iff_eq] at h
    rcases h with h | h
    · exact hempty h
    · exact h.1.1.1
  · exact hempty (by simpa using h)

/-- An inode metadata record carries a payload. -/
theorem WalRecord.inlinePayload_ne_nil {decoders : ProofDecoders} {record : WalRecord}
    (h : record.inlinePayloadIsConsistent decoders = true)
    (hoperation : record.operation = .setInodeMetadata) : record.inlinePayload ≠ [] := by
  unfold inlinePayloadIsConsistent at h
  rw [hoperation] at h
  simp only [Bool.and_eq_true] at h
  refine (decoders.inodeMetadataPatch_bounded _ ?_).1
  intro hnone
  rw [hnone] at h
  simp at h

theorem toNat_ofNat_of_lt {n : ℕ} (h : n < 2 ^ 32) : (UInt32.ofNat n).toNat = n := by
  rw [UInt32.toNat_ofNat']
  exact Nat.mod_eq_of_lt h

theorem takeVersioned_versionBytes {record : WalRecord} {version : ℕ} (rest : Bytes)
    (hadmitted : versionAdmitted record version = true)
    (hpayload : record.inlinePayload.length ≤ maxInlinePayloadBytes) :
    takeVersioned version (versionBytes record version ++ rest) =
      .ok (versionFields record, rest) := by
  obtain ⟨-, -, -, hinline, hunlink⟩ := versionAdmitted_iff.mp hadmitted
  have hlength : (UInt32.ofNat record.inlinePayload.length).toNat = record.inlinePayload.length :=
    toNat_ofNat_of_lt (by rw [maxInlinePayloadBytes] at hpayload; omega)
  unfold takeVersioned versionBytes
  by_cases hversion : version = inlinePayloadVersion
  · have hnone : record.unlinkOutcome = none := by
      cases houtcome : record.unlinkOutcome with
      | none => rfl
      | some outcome =>
        have := hunlink.mp (by simp [houtcome])
        rw [hversion] at this
        exact absurd this (by decide)
    rw [if_pos hversion, if_pos hversion, takeU32_appendU32, hlength, if_neg (by omega)]
    simp [versionFields, hnone, unlinkPathLength]
  · have hempty : record.inlinePayload = [] := by
      by_contra hne
      exact hversion (hinline hne)
    rw [if_neg hversion, if_neg hversion]
    cases houtcome : record.unlinkOutcome with
    | none =>
      have hne : version ≠ unlinkOutcomeVersion := by
        intro heq
        have := hunlink.mpr heq
        simp [houtcome] at this
      rw [if_neg hne]
      simp [versionFields, houtcome, hempty, unlinkPathLength]
    | some outcome =>
      rw [if_pos (hunlink.mp (by simp [houtcome]))]
      simp only [takeUnlink, List.append_assoc, takeU64_appendU64, takeU32_appendU32]
      simp [versionFields, houtcome, hempty, unlinkPathLength]

theorem length_versionBytes {record : WalRecord} {version : ℕ}
    (hadmitted : versionAdmitted record version = true) :
    116 + (versionBytes record version).length + 32 = headerSize version := by
  obtain ⟨-, -, -, -, hunlink⟩ := versionAdmitted_iff.mp hadmitted
  unfold versionBytes headerSize
  by_cases hversion : version = inlinePayloadVersion
  · subst hversion
    simp [inlinePayloadVersion, unlinkOutcomeVersion, inlinePayloadHeaderSize]
  · rw [if_neg hversion]
    cases houtcome : record.unlinkOutcome with
    | none =>
      have hne : version ≠ unlinkOutcomeVersion := by
        intro heq
        have := hunlink.mpr heq
        simp [houtcome] at this
      rw [if_neg hne, if_neg hversion]
      rfl
    | some outcome =>
      rw [if_pos (hunlink.mp (by simp [houtcome]))]
      simp [unlinkOutcomeHeaderSize]

theorem length_variableBytes (record : WalRecord) :
    (variableBytes record).length = record.pathUtf8.length + record.secondaryPathUtf8.length +
      record.volumeIdentity.length + record.inlinePayload.length + unlinkPathLength record := by
  unfold variableBytes unlinkPathLength
  cases record.unlinkOutcome with
  | none =>
    simp
    omega
  | some outcome =>
    simp
    omega

theorem length_unchecked {record : WalRecord} {version : ℕ}
    (hadmitted : versionAdmitted record version = true) :
    (unchecked record version).length = recordSize record version := by
  have hheader := length_versionBytes hadmitted
  have hvariable := length_variableBytes record
  simp only [unchecked, recordSize, List.length_append, length_appendU32, length_appendU16,
    length_fixedBytes, Vector.length_toList]
  omega

/-! ## The round trip of one record -/

/-- What acceptance by `EncodeWalRecord` says. -/
theorem encodeWalRecord_eq_some {decoders : ProofDecoders} {record : WalRecord}
    {versionOverride : ℕ} {bytes : Bytes}
    (h : encodeWalRecord decoders record versionOverride = some bytes) :
    versionAdmitted record (recordVersion record versionOverride) = true ∧
      record.isConsistent decoders = true ∧
      recordSize record (recordVersion record versionOverride) < 2 ^ 32 ∧
      bytes = storeChecksum (unchecked record (recordVersion record versionOverride))
        (checksumRecord (unchecked record (recordVersion record versionOverride))) := by
  unfold encodeWalRecord at h
  dsimp only at h
  split at h
  · cases h
  · rename_i hchecks
    split at h
    · cases h
    · rename_i hsize
      simp only [Bool.or_eq_true, Bool.not_eq_true', not_or, Bool.not_eq_false] at hchecks
      exact ⟨hchecks.1, hchecks.2, by omega, (Option.some.inj h).symm⟩

theorem legacyHeaderSize_le_headerSize (version : ℕ) : legacyHeaderSize ≤ headerSize version := by
  unfold headerSize legacyHeaderSize unlinkOutcomeHeaderSize inlinePayloadHeaderSize
  split
  · omega
  · split <;> omega

theorem length_of_encodeWalRecord {decoders : ProofDecoders} {record : WalRecord}
    {versionOverride : ℕ} {bytes : Bytes}
    (h : encodeWalRecord decoders record versionOverride = some bytes) :
    bytes.length = recordSize record (recordVersion record versionOverride) ∧
      legacyHeaderSize ≤ bytes.length := by
  obtain ⟨hadmitted, -, -, rfl⟩ := encodeWalRecord_eq_some h
  have hlength := length_unchecked hadmitted
  have hheader := legacyHeaderSize_le_headerSize (recordVersion record versionOverride)
  have hsize : headerSize (recordVersion record versionOverride) ≤
      recordSize record (recordVersion record versionOverride) := by
    unfold recordSize
    omega
  rw [length_storeChecksum (by rw [hlength]; unfold legacyHeaderSize at hheader; omega), hlength]
  exact ⟨rfl, hheader.trans hsize⟩

theorem take_storeChecksum {buffer : Bytes} (h : 16 ≤ buffer.length) (checksum : UInt32) :
    (storeChecksum buffer checksum).take 12 = buffer.take 12 := by
  unfold storeChecksum splice checksumOffset
  rw [List.append_assoc, List.take_left' (by rw [List.length_take]; omega)]

theorem drop_storeChecksum {buffer : Bytes} (h : 16 ≤ buffer.length) (checksum : UInt32) :
    (storeChecksum buffer checksum).drop 16 = buffer.drop 16 := by
  unfold storeChecksum splice checksumOffset
  rw [List.drop_left' (by
    rw [List.length_append, List.length_take, length_appendU32]
    omega), length_appendU32]

theorem slice_storeChecksum {buffer : Bytes} (h : 16 ≤ buffer.length) (checksum : UInt32) :
    slice (storeChecksum buffer checksum) checksumOffset 4 = appendU32 checksum := by
  have hself : slice (splice buffer checksumOffset (appendU32 checksum)) checksumOffset
      (appendU32 checksum).length = appendU32 checksum := by
    refine slice_splice_self ?_
    rw [length_appendU32, checksumOffset]
    omega
  rwa [length_appendU32] at hself

theorem drop_unchecked (record : WalRecord) (version : ℕ) :
    (unchecked record version).drop 16 =
      fixedBytes record ++ (versionBytes record version ++
        (record.payloadSha256.toList ++ variableBytes record)) := by
  have hsplit : unchecked record version =
      (appendU32 (UInt32.ofNat magic) ++ (appendU16 version ++ (appendU16 (headerSize version) ++
        (appendU32 (UInt32.ofNat (recordSize record version)) ++ appendU32 0)))) ++
      (fixedBytes record ++ (versionBytes record version ++
        (record.payloadSha256.toList ++ variableBytes record))) := by
    simp only [unchecked, List.append_assoc]
  rw [hsplit]
  exact List.drop_left' (by simp)

/-- The lengths in a header are the lengths of the parts. -/
theorem variableLength_fields {record : WalRecord} {version : ℕ}
    (hsize : recordSize record version < 2 ^ 32) :
    variableLength (fixedFields record) (versionFields record) = (variableBytes record).length := by
  unfold recordSize at hsize
  rw [length_variableBytes]
  unfold variableLength fixedFields versionFields
  dsimp only
  rw [toNat_ofNat_of_lt (by omega), toNat_ofNat_of_lt (by omega), toNat_ofNat_of_lt (by omega),
    toNat_ofNat_of_lt (by omega), toNat_ofNat_of_lt (by omega)]

theorem assembleRecord_fields {record : WalRecord} {version : ℕ}
    (hsize : recordSize record version < 2 ^ 32) :
    assembleRecord record.operation (fixedFields record) (versionFields record)
      record.payloadSha256 (variableBytes record) = record := by
  unfold recordSize at hsize
  unfold assembleRecord fixedFields versionFields variableBytes
  dsimp only
  rw [toNat_ofNat_of_lt (by omega), toNat_ofNat_of_lt (by omega), toNat_ofNat_of_lt (by omega),
    toNat_ofNat_of_lt (by omega), toNat_ofNat_of_lt (by omega)]
  simp only [List.drop_left, List.take_left]
  obtain ⟨_, _, _, _, _, _, _, _, _, _, _, _, _, _, _, _, _, outcome⟩ := record
  cases outcome with
  | none => rfl
  | some outcome => simp [unlinkPathLength]

/-- A record the encoder admits in a version passes the decoder's version checks. -/
theorem decodedVersionIsValid_of_versionAdmitted {decoders : ProofDecoders} {record : WalRecord}
    {version : ℕ} (hadmitted : versionAdmitted record version = true)
    (hconsistent : record.inlinePayloadIsConsistent decoders = true) :
    decodedVersionIsValid record.operation version = true := by
  obtain ⟨hset, hrequires, hremove, hinline, -⟩ := versionAdmitted_iff.mp hadmitted
  have hinode : record.operation = .setInodeMetadata → version = inlinePayloadVersion :=
    fun hoperation => hinline (WalRecord.inlinePayload_ne_nil hconsistent hoperation)
  simp only [decodedVersionIsValid, Bool.and_eq_true, Bool.or_eq_true, bne_iff_ne, beq_iff_eq,
    Bool.not_eq_true', Bool.and_eq_false_imp, bne_eq_false_iff_eq]
  exact ⟨⟨⟨imp_iff_not_or.mp hset, imp_iff_not_or.mp hremove⟩, hrequires⟩, hinode⟩

/-- **A record that was encoded is decoded to itself.** -/
theorem decodeRecord_of_encodeWalRecord {decoders : ProofDecoders} {record : WalRecord}
    {versionOverride : ℕ} {bytes expectedVolumeIdentity : Bytes}
    (h : encodeWalRecord decoders record versionOverride = some bytes)
    (hidentity : expectedVolumeIdentity = [] ∨ record.volumeIdentity = expectedVolumeIdentity) :
    decodeRecord decoders bytes (recordVersion record versionOverride) expectedVolumeIdentity =
      .ok record := by
  obtain ⟨hlength, hlegacy⟩ := length_of_encodeWalRecord h
  obtain ⟨hadmitted, hconsistent, hsize, hbytes⟩ := encodeWalRecord_eq_some h
  generalize recordVersion record versionOverride = version at *
  have hpayload : record.inlinePayloadIsConsistent decoders = true := by
    simp only [WalRecord.isConsistent, Bool.and_eq_true] at hconsistent
    exact hconsistent.1.1.1.1.1
  have hunchecked : 16 ≤ (unchecked record version).length := by
    rw [length_unchecked hadmitted, ← hlength]
    unfold legacyHeaderSize at hlegacy
    omega
  have hchecksum : (checksumRecord bytes).toNat = leValue (slice bytes checksumOffset 4) := by
    rw [hbytes, checksumRecord_storeChecksum hunchecked, slice_storeChecksum hunchecked,
      leValue_appendU32]
  have hfields : takeFixed (bytes.drop 16) = (fixedFields record, versionBytes record version ++
      (record.payloadSha256.toList ++ variableBytes record)) := by
    rw [hbytes, drop_storeChecksum hunchecked, drop_unchecked, takeFixed_fixedBytes]
  have hversioned := takeVersioned_versionBytes
    (record.payloadSha256.toList ++ variableBytes record) hadmitted
    (WalRecord.inlinePayload_length_le hpayload)
  have hdigest : record.payloadSha256.toList.length = 32 := Vector.length_toList
  have hrest : ¬ (record.payloadSha256.toList ++ variableBytes record).length < payloadHashSize := by
    rw [List.length_append, hdigest, payloadHashSize]
    omega
  have hvariable := variableLength_fields hsize
  have hdrop : (record.payloadSha256.toList ++ variableBytes record).drop payloadHashSize =
      variableBytes record := List.drop_left' hdigest
  have htake : (record.payloadSha256.toList ++ variableBytes record).take 32 =
      record.payloadSha256.toList := List.take_left' hdigest
  have hlengths : ¬ (bytes.length < variableLength (fixedFields record) (versionFields record) ∨
      (variableBytes record).length ≠ variableLength (fixedFields record) (versionFields record)) := by
    rw [hvariable, hlength, length_variableBytes]
    unfold recordSize
    omega
  have hoperation : knownOperation (fixedFields record).operation.toNat = some record.operation := by
    have hcode : (UInt32.ofNat (operationCode record.operation)).toNat =
        operationCode record.operation := toNat_ofNat_of_lt (operationCode_lt record.operation)
    change knownOperation (UInt32.ofNat (operationCode record.operation)).toNat = _
    rw [hcode, knownOperation_operationCode]
  have hvector : (⟨record.payloadSha256.toList.toArray, by simp⟩ : Vector UInt8 32) =
      record.payloadSha256 := by
    rfl
  unfold decodeRecord
  rw [if_neg (not_not.mpr hchecksum)]
  dsimp only
  simp only [hfields, hversioned]
  rw [dif_neg hrest]
  simp only [hdrop, htake, hoperation]
  rw [if_neg hlengths]
  simp only [hvector, assembleRecord_fields hsize]
  rw [if_neg (by
    simp [decodedVersionIsValid_of_versionAdmitted hadmitted hpayload, hconsistent])]
  rw [if_neg (by
    rintro ⟨hne, hmismatch⟩
    exact hidentity.elim hne hmismatch)]

end Wal
end ApfsAccess
