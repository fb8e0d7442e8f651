import ApfsAccess.Wal.Append

/-!
# Records with any operation value

An operation is a 32-bit value in the source, and `EncodeWalRecord` does not ask whether it stands for
an operation; `DecodeRecord` does.  Nor does the encoder know the limit of 64 MiB that
`DecodeWalFrameHeader` puts on a frame.

* `readFrame_iff` : a record that was encoded is read back exactly when its operation is known and its
  size is within the limit.
* `append_readable` : what that means for a log the record is appended to.
-/

namespace ApfsAccess
namespace Wal

open ByteBuffer Format
open Journal (OperationKind)

/-! ## The record and its encoding -/

/-- A record with the value of its operation.  The checks of the encoder ask for one operation or
another by name, and none asks for `createDirectory`: a value that stands for no operation passes
them as that operation does. -/
structure ValuedRecord where
  operation : UInt32
  record : WalRecord
  agrees : record.operation = (knownOperation operation.toNat).getD .createDirectory

/-- `fixedBytes` with the value where the operation stands. -/
def valuedFixedBytes (operation : UInt32) (record : WalRecord) : Bytes :=
  appendU64 record.transactionId ++ (appendU64 record.sequence ++
    (appendU32 operation ++ (appendU32 record.state ++
    (appendU64 record.objectId ++ (appendU64 record.parentObjectId ++
    (appendU64 record.payloadSpoolId ++ (appendU64 record.payloadOffset ++
    (appendU64 record.payloadLength ++ (appendU64 record.logicalOffset ++
    (appendU64 record.logicalLength ++ (appendU64 record.flags ++
    (appendU32 (UInt32.ofNat record.pathUtf8.length) ++
    (appendU32 (UInt32.ofNat record.secondaryPathUtf8.length) ++
    appendU32 (UInt32.ofNat record.volumeIdentity.length))))))))))))))

/-- A record before its checksum is stored. -/
def valuedUnchecked (operation : UInt32) (record : WalRecord) (version : ℕ) : Bytes :=
  appendU32 (UInt32.ofNat magic) ++ (appendU16 version ++ (appendU16 (headerSize version) ++
    (appendU32 (UInt32.ofNat (recordSize record version)) ++ (appendU32 0 ++
    (valuedFixedBytes operation record ++ (versionBytes record version ++
    (record.payloadSha256.toList ++ variableBytes record)))))))

/-- `EncodeWalRecord`. -/
def encodeValuedRecord (decoders : ProofDecoders) (valued : ValuedRecord) (versionOverride : ℕ) :
    Option Bytes :=
  let version := recordVersion valued.record versionOverride
  if !versionAdmitted valued.record version || !valued.record.isConsistent decoders then
    none
  else if 2 ^ 32 - 1 < recordSize valued.record version then
    none
  else
    let buffer := valuedUnchecked valued.operation valued.record version
    some (storeChecksum buffer (checksumRecord buffer))

/-- A frame that stands alone is read: its head, and the record of the size it says. -/
def readFrame (decoders : ProofDecoders) (expectedVolumeIdentity frame : Bytes) :
    Except ReadStatus WalRecord :=
  match decodeWalFrameHeader (frame.take 12) with
  | .error status => .error status
  | .ok header => decodeRecord decoders (frame.take header.bytes) header.version expectedVolumeIdentity

namespace ValuedRecord

/-- The operation is one `IsKnownOperation` accepts, and the record is no longer than `kMaxRecordBytes`
in the version it is written in. -/
def Readable (valued : ValuedRecord) (versionOverride : ℕ) : Prop :=
  (knownOperation valued.operation.toNat).isSome ∧
    recordSize valued.record (recordVersion valued.record versionOverride) ≤ maxRecordBytes

instance (valued : ValuedRecord) (versionOverride : ℕ) :
    Decidable (valued.Readable versionOverride) :=
  inferInstanceAs (Decidable (_ ∧ _))

end ValuedRecord

/-! ## One frame -/

section Frame

variable {decoders : ProofDecoders} {expectedVolumeIdentity bytes : Bytes} {valued : ValuedRecord}
  {versionOverride : ℕ}

/-- The value of a known operation is its underlying value. -/
theorem operationCode_of_knownOperation {code : ℕ} {operation : OperationKind}
    (h : knownOperation code = some operation) : operationCode operation = code := by
  have hfound := List.find?_some h
  exact beq_iff_eq.mp hfound

theorem valuedUnchecked_of_known (hknown : (knownOperation valued.operation.toNat).isSome)
    (version : ℕ) :
    valuedUnchecked valued.operation valued.record version = unchecked valued.record version := by
  obtain ⟨operation, hoperation⟩ := Option.isSome_iff_exists.mp hknown
  have hagrees := valued.agrees
  rw [hoperation, Option.getD_some] at hagrees
  have hvalue : UInt32.ofNat (operationCode valued.record.operation) = valued.operation := by
    rw [hagrees, operationCode_of_knownOperation hoperation, UInt32.ofNat_toNat]
  rw [valuedUnchecked, unchecked, valuedFixedBytes, fixedBytes, hvalue]

/-- A record with a known operation is encoded as before. -/
theorem encodeValuedRecord_of_known (hknown : (knownOperation valued.operation.toNat).isSome) :
    encodeValuedRecord decoders valued versionOverride =
      encodeWalRecord decoders valued.record versionOverride := by
  rw [encodeValuedRecord, encodeWalRecord]
  dsimp only
  rw [valuedUnchecked_of_known hknown]

/-- What acceptance says. -/
theorem encodeValuedRecord_eq_some
    (h : encodeValuedRecord decoders valued versionOverride = some bytes) :
    versionAdmitted valued.record (recordVersion valued.record versionOverride) = true ∧
      bytes = storeChecksum
        (valuedUnchecked valued.operation valued.record (recordVersion valued.record versionOverride))
        (checksumRecord (valuedUnchecked valued.operation valued.record
          (recordVersion valued.record versionOverride))) ∧
      recordSize valued.record (recordVersion valued.record versionOverride) < 2 ^ 32 := by
  rw [encodeValuedRecord] at h
  dsimp only at h
  split at h
  · cases h
  · rename_i hchecks
    split at h
    · cases h
    · rename_i hsize
      simp only [Bool.or_eq_true, Bool.not_eq_true', not_or, Bool.not_eq_false] at hchecks
      exact ⟨hchecks.1, (Option.some.inj h).symm, by omega⟩

@[simp] theorem length_valuedFixedBytes (operation : UInt32) (record : WalRecord) :
    (valuedFixedBytes operation record).length = 100 := by
  simp [valuedFixedBytes]

theorem length_valuedUnchecked {operation : UInt32} {record : WalRecord} {version : ℕ}
    (hadmitted : versionAdmitted record version = true) :
    (valuedUnchecked operation record version).length = recordSize record version := by
  have hheader := length_versionBytes hadmitted
  have hvariable := length_variableBytes record
  simp only [valuedUnchecked, recordSize, List.length_append, length_appendU32, length_appendU16,
    length_valuedFixedBytes, Vector.length_toList]
  omega

theorem recordSize_ge (record : WalRecord) (version : ℕ) :
    legacyHeaderSize ≤ recordSize record version := by
  have hheader := legacyHeaderSize_le_headerSize version
  rw [recordSize]
  omega

theorem length_of_encodeValuedRecord
    (h : encodeValuedRecord decoders valued versionOverride = some bytes) :
    bytes.length = recordSize valued.record (recordVersion valued.record versionOverride) := by
  obtain ⟨hadmitted, rfl, -⟩ := encodeValuedRecord_eq_some h
  have hlength := @length_valuedUnchecked valued.operation _ _ hadmitted
  have hlegacy := recordSize_ge valued.record (recordVersion valued.record versionOverride)
  rw [length_storeChecksum (by rw [hlength]; unfold legacyHeaderSize at hlegacy; omega), hlength]

theorem take_valuedUnchecked (operation : UInt32) (record : WalRecord) (version : ℕ) :
    (valuedUnchecked operation record version).take 12 =
      frameHead version (recordSize record version) := by
  have hsplit : valuedUnchecked operation record version =
      frameHead version (recordSize record version) ++
      (appendU32 0 ++ (valuedFixedBytes operation record ++ (versionBytes record version ++
        (record.payloadSha256.toList ++ variableBytes record)))) := by
    simp only [valuedUnchecked, frameHead, List.append_assoc]
  rw [hsplit]
  exact List.take_left' (by simp [frameHead])

theorem drop_valuedUnchecked (operation : UInt32) (record : WalRecord) (version : ℕ) :
    (valuedUnchecked operation record version).drop 16 =
      valuedFixedBytes operation record ++ (versionBytes record version ++
        (record.payloadSha256.toList ++ variableBytes record)) := by
  have hsplit : valuedUnchecked operation record version =
      (appendU32 (UInt32.ofNat magic) ++ (appendU16 version ++ (appendU16 (headerSize version) ++
        (appendU32 (UInt32.ofNat (recordSize record version)) ++ appendU32 0)))) ++
      (valuedFixedBytes operation record ++ (versionBytes record version ++
        (record.payloadSha256.toList ++ variableBytes record))) := by
    simp only [valuedUnchecked, List.append_assoc]
  rw [hsplit]
  exact List.drop_left' (by simp)

theorem operation_takeFixed (operation : UInt32) (record : WalRecord) (rest : Bytes) :
    (takeFixed (valuedFixedBytes operation record ++ rest)).1.operation = operation := by
  simp only [takeFixed, valuedFixedBytes, List.append_assoc, takeU64_appendU64, takeU32_appendU32]

/-- A record that is decoded has a known operation. -/
theorem isSome_of_decodeRecord {version : ℕ} {record : WalRecord}
    (h : decodeRecord decoders bytes version expectedVolumeIdentity = .ok record) :
    (knownOperation (takeFixed (bytes.drop 16)).1.operation.toNat).isSome := by
  rw [decodeRecord] at h
  split at h
  · cases h
  · dsimp only at h
    split at h
    · cases h
    · split at h
      · cases h
      · split at h
        · cases h
        · split at h
          · cases h
          · rename_i operation hoperation
            rw [hoperation]
            rfl

/-- What the reader finds at the head of a frame, and where it finds the operation. -/
theorem head_of_encodeValuedRecord
    (h : encodeValuedRecord decoders valued versionOverride = some bytes)
    (hoverride : versionOverride ≤ unlinkOutcomeVersion) :
    legacyHeaderSize ≤ bytes.length ∧ bytes.head? = some 0x41 ∧
      decodeWalFrameHeader (bytes.take 12) =
        (if bytes.length ≤ maxRecordBytes then
          .ok ⟨recordVersion valued.record versionOverride, bytes.length⟩ else .error .corrupt) ∧
      (takeFixed (bytes.drop 16)).1.operation = valued.operation := by
  have hlength := length_of_encodeValuedRecord h
  obtain ⟨hadmitted, hbytes, hfit⟩ := encodeValuedRecord_eq_some h
  have hknown := recordVersion_known valued.record hoverride
  generalize recordVersion valued.record versionOverride = version at *
  have hlegacy := recordSize_ge valued.record version
  have hunchecked : 16 ≤ (valuedUnchecked valued.operation valued.record version).length := by
    rw [length_valuedUnchecked hadmitted]
    unfold legacyHeaderSize at hlegacy
    omega
  have htake : bytes.take 12 = frameHead version bytes.length := by
    rw [hlength, hbytes, take_storeChecksum hunchecked, take_valuedUnchecked]
  have hhead : bytes.head? = some 0x41 := by
    have hfirst : bytes.head? = (bytes.take 12).head? := by
      rw [List.head?_take]
      simp
    rw [hfirst, htake]
    rfl
  have hheader : headerSize version ≤ bytes.length := by
    rw [hlength]
    unfold recordSize
    omega
  refine ⟨hlength ▸ hlegacy, hhead, ?_, ?_⟩
  · rw [htake, decodeWalFrameHeader_frameHead hknown hheader (hlength ▸ hfit)]
  · rw [hbytes, drop_storeChecksum hunchecked, drop_valuedUnchecked, operation_takeFixed]

/-- **A record that was encoded is read back** exactly when its operation is known and its size is
within the limit. -/
theorem readFrame_iff (h : encodeValuedRecord decoders valued versionOverride = some bytes)
    (hoverride : versionOverride ≤ unlinkOutcomeVersion)
    (hidentity : expectedVolumeIdentity = [] ∨
      valued.record.volumeIdentity = expectedVolumeIdentity) :
    readFrame decoders expectedVolumeIdentity bytes = .ok valued.record ↔
      valued.Readable versionOverride := by
  have hlength := length_of_encodeValuedRecord h
  obtain ⟨-, -, hheader, hoperation⟩ := head_of_encodeValuedRecord h hoverride
  rw [ValuedRecord.Readable, ← hlength, readFrame, hheader]
  by_cases hlimit : bytes.length ≤ maxRecordBytes
  · rw [if_pos hlimit]
    dsimp only
    rw [List.take_length, and_iff_left hlimit]
    constructor
    · intro hread
      rw [← hoperation]
      exact isSome_of_decodeRecord hread
    · intro hknown
      rw [encodeValuedRecord_of_known hknown] at h
      exact decodeRecord_of_encodeWalRecord h hidentity
  · rw [if_neg hlimit]
    exact iff_of_false nofun fun hreadable => hlimit hreadable.2

end Frame

/-! ## The log -/

namespace ValuedRecord

/-- The record as a log writes it: with the identity of the log. -/
def under (valued : ValuedRecord) (options : Options) : ValuedRecord where
  operation := valued.operation
  record := { valued.record with volumeIdentity := options.volumeIdentity }
  agrees := valued.agrees

end ValuedRecord

namespace WriteAheadLog

variable (decoders : ProofDecoders) (options : Options)

/-- The record an append writes: one without a volume identity takes the log's. -/
def writableValued (valued : ValuedRecord) : Option ValuedRecord :=
  if valued.record.volumeIdentity = [] then some (valued.under options)
  else if valued.record.volumeIdentity ≠ options.volumeIdentity then none
  else some valued

/-- The bytes an append writes for a record. -/
def writableBytes (valued : ValuedRecord) : Option Bytes :=
  match writableValued options valued with
  | none => none
  | some written => encodeValuedRecord decoders written 0

/-- `AppendWithResult`. -/
def appendValuedWithResult (log : WriteAheadLog) (valued : ValuedRecord) (durableFlush : Bool)
    (course : Course) : Option AppendResult × WriteAheadLog :=
  match writableBytes decoders options valued with
  | none => log.reject course
  | some encoded =>
    if 0 < options.maxBytes ∧ options.maxBytes < (log.existingSize + encoded.length) % 2 ^ 64 then
      log.reject course
    else
      log.appendEncoded decoders options encoded durableFlush course

/-- `AppendBatchWithResult`. -/
def appendValuedBatchWithResult (log : WriteAheadLog) (records : List ValuedRecord)
    (durableFlush : Bool) (course : Course) : Option AppendResult × WriteAheadLog :=
  if records = [] then
    if course.isCrash then (none, log.closeAppendHandle) else (some .succeeded, log)
  else
    match records.mapM (writableBytes decoders options) with
    | none => log.reject course
    | some frames =>
      if 0 < options.maxBytes ∧ (options.maxBytes < log.existingSize ∨
          options.maxBytes - log.existingSize < frames.flatten.length) then
        log.reject course
      else
        log.appendEncoded decoders options frames.flatten durableFlush course

end WriteAheadLog

/-- What a call that writes `records` does to the file, all of it when the call succeeds.  Each frame is
read back exactly when its record is readable, and a log whose frames could be read can be read with
the new ones exactly when all of them are. -/
structure Wrote (decoders : ProofDecoders) (options : Options) (log : WriteAheadLog)
    (records : List ValuedRecord) (outcome : Option AppendResult × WriteAheadLog)
    (frames : List Bytes) (written : ℕ) : Prop where
  file : outcome.2.file = log.file ++ frames.flatten.take written
  whole : outcome.1 = some .succeeded → frames.flatten.length ≤ written
  frames_iff : List.Forall₂ (fun valued frame =>
    readFrame decoders options.volumeIdentity frame = .ok (valued.under options).record ↔
      (valued.under options).Readable 0) records frames
  log_iff : frames.flatten.length ≤ written → log.file.length < 2 ^ 64 →
    ∀ held : List (WalRecord × Bytes),
    (∀ frame ∈ held, Framed decoders options.volumeIdentity frame) → log.file = logBytes held →
    ((outcome.2.readAll decoders options).status = .ok ↔
      ∀ valued ∈ records, (valued.under options).Readable 0)

section Log

variable {decoders : ProofDecoders} {expectedVolumeIdentity : Bytes} {options : Options}

/-- The loop at bytes that begin like a frame. -/
theorem decodeFrames_at {bytes : Bytes} (hlegacy : legacyHeaderSize ≤ bytes.length)
    (hhead : bytes.head? = some 0x41) (tail : Bytes) {fuel cursor : ℕ} {records : List WalRecord}
    (hrecords : records.length < 2 ^ 64 - 1) :
    decodeFrames decoders expectedVolumeIdentity {} none (fuel + 1) (bytes ++ tail) cursor records =
      match decodeWalFrameHeader (bytes.take 12) with
      | .error status => { status, records }
      | .ok frame =>
        if (bytes ++ tail).length < frame.bytes then
          { recoveredTornTail := true, records, completePrefixBytes := cursor }
        else
          match decodeRecord decoders ((bytes ++ tail).take frame.bytes) frame.version
              expectedVolumeIdentity with
          | .error status => { status, records }
          | .ok record =>
            decodeFrames decoders expectedVolumeIdentity {} none fuel
              ((bytes ++ tail).drop frame.bytes) (cursor + frame.bytes) (records ++ [record]) := by
  unfold legacyHeaderSize at hlegacy
  have hstart : (bytes ++ tail).head? = some 0x41 := by
    rw [List.head?_append, hhead]
    rfl
  have hnil : bytes ++ tail ≠ [] := by
    intro hempty
    rw [hempty] at hstart
    cases hstart
  have hlimit : ¬ ((none : Option ℕ).getD ({} : WalReadLimits).records ≤ records.length) := by
    simp only [Option.getD_none]
    omega
  rw [decodeFrames, if_neg hnil, startsProtectedWal_of_head hstart, if_neg Bool.false_ne_true,
    if_neg hlimit, if_neg (by unfold legacyHeaderSize; rw [List.length_append]; omega),
    List.take_append_of_le_length (by omega)] <;>
  rfl

/-- The loop over frames that can be read. -/
theorem decodeFrames_held {held : List (WalRecord × Bytes)}
    (hheld : ∀ frame ∈ held, Framed decoders expectedVolumeIdentity frame) (tail : Bytes)
    {fuel cursor : ℕ} {records : List WalRecord}
    (hfuel : (logBytes held ++ tail).length ≤ fuel) (hrecords : records.length ≤ cursor)
    (hcursor : cursor + (logBytes held ++ tail).length < 2 ^ 64) :
    ∃ fuel' cursor', tail.length ≤ fuel' ∧ cursor' + tail.length < 2 ^ 64 ∧
      (records ++ held.map Prod.fst).length ≤ cursor' ∧
      decodeFrames decoders expectedVolumeIdentity {} none fuel (logBytes held ++ tail) cursor
          records =
        decodeFrames decoders expectedVolumeIdentity {} none fuel' tail cursor'
          (records ++ held.map Prod.fst) := by
  induction held generalizing fuel cursor records with
  | nil =>
    rw [logBytes_nil, List.nil_append] at hfuel hcursor ⊢
    rw [List.map_nil, List.append_nil]
    exact ⟨fuel, cursor, hfuel, hcursor, hrecords, rfl⟩
  | cons frame held ih =>
    obtain ⟨hlegacy, hhead, version, hheader, hdecode⟩ := (hheld frame List.mem_cons_self).spec
    have hpositive : 0 < frame.2.length := by
      unfold legacyHeaderSize at hlegacy
      omega
    rw [logBytes_cons, List.append_assoc] at hfuel hcursor ⊢
    rw [List.length_append] at hfuel hcursor
    obtain ⟨fuel, rfl⟩ : ∃ fuel', fuel = fuel' + 1 := ⟨fuel - 1, by omega⟩
    have hcounted : (records ++ [frame.1]).length ≤ cursor + frame.2.length := by
      rw [List.length_append, List.length_singleton]
      omega
    obtain ⟨fuel', cursor', hfuel', hcursor', hrecords', hloop⟩ :=
      ih (fun other hother => hheld other (List.mem_cons_of_mem _ hother))
        (show _ ≤ fuel by omega) hcounted (by omega)
    have happend : records ++ frame.1 :: held.map Prod.fst =
        records ++ [frame.1] ++ held.map Prod.fst := by
      rw [List.append_assoc, List.singleton_append]
    rw [List.map_cons, happend]
    refine ⟨fuel', cursor', hfuel', hcursor', hrecords', ?_⟩
    rw [decodeFrames_at hlegacy hhead _ (by omega), hheader]
    dsimp only
    rw [if_neg (by rw [List.length_append]; omega), List.take_left, List.drop_left, hdecode]
    exact hloop

/-- An error that `DecodeRecord` reports is one. -/
theorem decodeRecord_ne_error_ok {bytes : Bytes} {version : ℕ} :
    decodeRecord decoders bytes version expectedVolumeIdentity ≠ .error .ok := by
  intro h
  rw [decodeRecord] at h
  split at h
  · cases h
  · dsimp only at h
    split at h
    · rename_i status hversioned
      obtain rfl := Except.error.inj h
      rw [takeVersioned] at hversioned
      split_ifs at hversioned
      cases hversioned
    · split at h
      · cases h
      · split at h
        · cases h
        · split at h
          · cases h
          · split_ifs at h <;> cases h

/-- The loop stops at a frame that cannot be read. -/
theorem decodeFrames_unreadable {valued : ValuedRecord} {bytes : Bytes}
    (h : encodeValuedRecord decoders valued 0 = some bytes) (hunreadable : ¬valued.Readable 0)
    (tail : Bytes) {fuel cursor : ℕ} {records : List WalRecord}
    (hfuel : (bytes ++ tail).length ≤ fuel) (hrecords : records.length ≤ cursor)
    (hcursor : cursor + (bytes ++ tail).length < 2 ^ 64) :
    (decodeFrames decoders expectedVolumeIdentity {} none fuel (bytes ++ tail) cursor
      records).status ≠ .ok := by
  obtain ⟨hlegacy, hhead, hheader, hoperation⟩ := head_of_encodeValuedRecord h (Nat.zero_le _)
  have hlength := length_of_encodeValuedRecord h
  have hpositive : 0 < bytes.length := by
    unfold legacyHeaderSize at hlegacy
    omega
  rw [List.length_append] at hfuel hcursor
  obtain ⟨fuel, rfl⟩ : ∃ fuel', fuel = fuel' + 1 := ⟨fuel - 1, by omega⟩
  rw [decodeFrames_at hlegacy hhead _ (by omega), hheader]
  by_cases hsize : bytes.length ≤ maxRecordBytes
  · rw [if_pos hsize]
    dsimp only
    rw [if_neg (by rw [List.length_append]; omega), List.take_left]
    cases hdecode : decodeRecord decoders bytes (recordVersion valued.record 0)
        expectedVolumeIdentity with
    | error status =>
      dsimp only
      rintro rfl
      exact decodeRecord_ne_error_ok hdecode
    | ok record =>
      refine absurd ⟨?_, hlength ▸ hsize⟩ hunreadable
      rw [← hoperation]
      exact isSome_of_decodeRecord hdecode
  · rw [if_neg hsize]
    exact nofun

theorem under_of_identity {valued : ValuedRecord}
    (h : valued.record.volumeIdentity = options.volumeIdentity) : valued.under options = valued := by
  obtain ⟨operation, record, agrees⟩ := valued
  rw [ValuedRecord.under]
  simp only [ValuedRecord.mk.injEq, true_and]
  rw [← h]

theorem encode_of_writableBytes {valued : ValuedRecord} {bytes : Bytes}
    (h : WriteAheadLog.writableBytes decoders options valued = some bytes) :
    encodeValuedRecord decoders (valued.under options) 0 = some bytes := by
  rw [WriteAheadLog.writableBytes] at h
  split at h
  · cases h
  · rename_i written hwritten
    rw [WriteAheadLog.writableValued] at hwritten
    split_ifs at hwritten with hnone hother
    · obtain rfl := Option.some.inj hwritten
      exact h
    · obtain rfl := Option.some.inj hwritten
      rwa [under_of_identity (not_not.mp hother)]

theorem forall₂_of_mapM {records : List ValuedRecord} {frames : List Bytes}
    (h : records.mapM (WriteAheadLog.writableBytes decoders options) = some frames) :
    List.Forall₂ (fun valued frame =>
      encodeValuedRecord decoders (valued.under options) 0 = some frame) records frames := by
  induction records generalizing frames with
  | nil =>
    obtain rfl : [] = frames := by simpa using h
    exact List.Forall₂.nil
  | cons valued records ih =>
    rw [List.mapM_cons] at h
    simp only [Option.bind_eq_bind, Option.bind_eq_some_iff, Option.pure_def,
      Option.some.injEq] at h
    obtain ⟨frame, hframe, rest, hrest, rfl⟩ := h
    exact List.Forall₂.cons (encode_of_writableBytes hframe) (ih hrest)

theorem readFrame_under {valued : ValuedRecord} {bytes : Bytes}
    (h : encodeValuedRecord decoders (valued.under options) 0 = some bytes) :
    readFrame decoders options.volumeIdentity bytes = .ok (valued.under options).record ↔
      (valued.under options).Readable 0 :=
  readFrame_iff h (Nat.zero_le _) (.inr rfl)

/-- A readable record is a frame as the log holds them. -/
theorem framed_of_readable {valued : ValuedRecord} {bytes : Bytes}
    (h : encodeValuedRecord decoders (valued.under options) 0 = some bytes)
    (hreadable : (valued.under options).Readable 0) :
    Framed decoders options.volumeIdentity ((valued.under options).record, bytes) where
  encoded := ⟨0, Nat.zero_le _, by rw [← encodeValuedRecord_of_known hreadable.1, h]⟩
  length_le := by
    rw [length_of_encodeValuedRecord h]
    exact hreadable.2
  identity := .inr rfl

/-- **A log with new frames** can be read exactly when each of them is readable. -/
theorem status_append_iff {held : List (WalRecord × Bytes)}
    (hheld : ∀ frame ∈ held, Framed decoders options.volumeIdentity frame)
    {records : List ValuedRecord} {frames : List Bytes}
    (hframes : List.Forall₂ (fun valued frame =>
      encodeValuedRecord decoders (valued.under options) 0 = some frame) records frames)
    {fuel cursor : ℕ} {found : List WalRecord}
    (hfuel : (logBytes held ++ frames.flatten).length ≤ fuel) (hfound : found.length ≤ cursor)
    (hcursor : cursor + (logBytes held ++ frames.flatten).length < 2 ^ 64) :
    (decodeFrames decoders options.volumeIdentity {} none fuel (logBytes held ++ frames.flatten)
      cursor found).status = .ok ↔ ∀ valued ∈ records, (valued.under options).Readable 0 := by
  induction hframes generalizing held with
  | nil =>
    rw [List.flatten_nil] at hfuel hcursor ⊢
    obtain ⟨fuel', cursor', -, -, -, hloop⟩ := decodeFrames_held hheld [] hfuel hfound hcursor
    rw [hloop]
    cases fuel' <;> simp [decodeFrames, finishDecode]
  | @cons valued frame records frames hfirst hrest ih =>
    rw [List.flatten_cons] at hfuel hcursor ⊢
    by_cases hreadable : (valued.under options).Readable 0
    · have hmore : ∀ other ∈ held ++ [((valued.under options).record, frame)],
          Framed decoders options.volumeIdentity other := by
        intro other hother
        rcases List.mem_append.mp hother with hold | hnew
        · exact hheld other hold
        · rw [List.mem_singleton.mp hnew]
          exact framed_of_readable hfirst hreadable
      have hbytes : logBytes held ++ (frame ++ frames.flatten) =
          logBytes (held ++ [((valued.under options).record, frame)]) ++ frames.flatten := by
        rw [logBytes_append, logBytes_cons, logBytes_nil, List.append_nil, List.append_assoc]
      rw [hbytes] at hfuel hcursor ⊢
      rw [ih hmore hfuel hcursor, List.forall_mem_cons, and_iff_right hreadable]
    · obtain ⟨fuel', cursor', hfuel', hcursor', hfound', hloop⟩ :=
        decodeFrames_held hheld _ hfuel hfound hcursor
      rw [hloop]
      refine iff_of_false (decodeFrames_unreadable hfirst hreadable _ hfuel' hfound' hcursor')
        fun hall => hreadable (hall valued List.mem_cons_self)

theorem status_of_file {records : List ValuedRecord} {frames : List Bytes}
    (hframes : List.Forall₂ (fun valued frame =>
      encodeValuedRecord decoders (valued.under options) 0 = some frame) records frames)
    {log after : WriteAheadLog} {written : ℕ}
    (hsize : log.file.length + frames.flatten.length < 2 ^ 64)
    (hfile : after.file = log.file ++ frames.flatten.take written)
    (hwhole : frames.flatten.length ≤ written) (_hlog : log.file.length < 2 ^ 64)
    (held : List (WalRecord × Bytes))
    (hheld : ∀ frame ∈ held, Framed decoders options.volumeIdentity frame)
    (hheldFile : log.file = logBytes held) :
    (after.readAll decoders options).status = .ok ↔
      ∀ valued ∈ records, (valued.under options).Readable 0 := by
  rw [List.take_of_length_le hwhole, hheldFile] at hfile
  rw [hheldFile, ← List.length_append] at hsize
  rw [WriteAheadLog.readAll, decodeWalBytes, hfile, if_neg (by dsimp only; omega),
    if_neg (by simp)]
  exact status_append_iff hheld hframes (Nat.le_refl _) (Nat.le_refl _)
    (by rw [Nat.zero_add]; exact hsize)

/-- What `AppendEncoded` does with the frames of a call. -/
theorem wrote_of_appendEncoded {records : List ValuedRecord} {frames : List Bytes}
    (hframes : List.Forall₂ (fun valued frame =>
      encodeValuedRecord decoders (valued.under options) 0 = some frame) records frames)
    (log : WriteAheadLog) (durableFlush : Bool) (course : Course) :
    let outcome := log.appendEncoded decoders options frames.flatten durableFlush course
    (outcome.1 ≠ some .succeeded ∧ outcome.2.file = log.file) ∨
      ∃ written, Wrote decoders options log records outcome frames written := by
  intro outcome
  have hread : List.Forall₂ (fun valued frame =>
      readFrame decoders options.volumeIdentity frame = .ok (valued.under options).record ↔
        (valued.under options).Readable 0) records frames :=
    hframes.imp fun _ _ => readFrame_under
  rcases LogRun.appendEncoded_cases log frames.flatten durableFlush course with
    ⟨hsucceeded, hsize, hfile⟩ | ⟨hfailed, hsize, written, hfile⟩ | hnothing
  · have hall : outcome.2.file = log.file ++ frames.flatten.take frames.flatten.length := by
      rw [List.take_length]
      exact hfile
    exact .inr ⟨frames.flatten.length, hall, fun _ => Nat.le_refl _, hread,
      status_of_file hframes hsize hall⟩
  · exact .inr ⟨written, hfile, fun hsucceeded => absurd hsucceeded hfailed, hread,
      status_of_file hframes hsize hfile⟩
  · exact .inl hnothing

end Log

/-! ## Main result -/

/-- **What an append makes of a log.**  A call that writes anything writes one frame for each record.
The frame is read back as the record exactly when the operation is known and the record is within the
decoder's limit, and a log that could be read before can be read after the whole call exactly when that
holds of every record of the call. -/
theorem append_readable (decoders : ProofDecoders) (options : Options) (log : WriteAheadLog)
    (durableFlush : Bool) (course : Course) :
    (∀ valued,
      let outcome := log.appendValuedWithResult decoders options valued durableFlush course
      (outcome.1 ≠ some .succeeded ∧ outcome.2.file = log.file) ∨
        ∃ frames written, Wrote decoders options log [valued] outcome frames written) ∧
    ∀ records,
      let outcome := log.appendValuedBatchWithResult decoders options records durableFlush course
      (outcome.1 ≠ some .succeeded ∧ outcome.2.file = log.file) ∨
        ∃ frames written, Wrote decoders options log records outcome frames written := by
  constructor
  · intro valued
    dsimp only
    rw [WriteAheadLog.appendValuedWithResult]
    split
    · exact .inl (LogRun.file_reject log course)
    · rename_i encoded hencoded
      split
      · exact .inl (LogRun.file_reject log course)
      · have hframes : List.Forall₂ (fun valued frame =>
            encodeValuedRecord decoders (valued.under options) 0 = some frame) [valued] [encoded] :=
          .cons (encode_of_writableBytes hencoded) .nil
        have hwrote := wrote_of_appendEncoded hframes log durableFlush course
        rw [List.flatten_singleton] at hwrote
        exact hwrote.imp_right fun ⟨written, h⟩ => ⟨[encoded], written, h⟩
  · intro records
    dsimp only
    rw [WriteAheadLog.appendValuedBatchWithResult]
    split
    · rename_i hempty
      subst hempty
      cases hcrash : course.isCrash with
      | true => exact .inl ⟨nofun, rfl⟩
      | false =>
        refine .inr ⟨[], 0, (List.append_nil _).symm, fun _ => Nat.le_refl _, .nil,
          fun hwhole hlog => ?_⟩
        exact status_of_file .nil hlog (List.append_nil _).symm hwhole hlog
    · split
      · exact .inl (LogRun.file_reject log course)
      · rename_i frames hmap
        split
        · exact .inl (LogRun.file_reject log course)
        · exact (wrote_of_appendEncoded (forall₂_of_mapM hmap) log durableFlush course).imp_right
            fun ⟨written, h⟩ => ⟨frames, written, h⟩

/-- A marker. -/
def markerRecord : ValuedRecord where
  operation := 100
  record := { sequence := 1, operation := .transactionMarker }
  agrees := by decide

/-- A record with an operation value that stands for no operation. -/
def unknownRecord : ValuedRecord where
  operation := 99
  record := { sequence := 2, operation := .createDirectory, objectId := 7, pathUtf8 := [0x5c, 0x61] }
  agrees := by decide

/-- The log with the marker. -/
def markerLog : Option AppendResult × WriteAheadLog :=
  ({} : WriteAheadLog).appendValuedWithResult refusingDecoders LogRun.sampleOptions markerRecord true
    (.finished true)

theorem append_readable_sample :
    markerLog.1 = some .succeeded ∧
      (markerLog.2.readAll refusingDecoders LogRun.sampleOptions).status = .ok := by
  have hsucceeded : markerLog.1 = some .succeeded := by decide +kernel
  refine ⟨hsucceeded, ?_⟩
  rcases (append_readable refusingDecoders LogRun.sampleOptions {} true (.finished true)).1 markerRecord with
    ⟨hfailed, -⟩ | ⟨frames, written, hwrote⟩
  · exact absurd hsucceeded hfailed
  · refine (hwrote.log_iff (hwrote.whole hsucceeded) (by decide) [] (by simp) rfl).mpr ?_
    intro valued hvalued
    rw [List.mem_singleton.mp hvalued]
    decide +kernel

/-- **An append that succeeds can leave a log that cannot be read**: nothing asks whether the
operation is known. -/
theorem unknown_operation_unreadable :
    (markerLog.2.readAll refusingDecoders LogRun.sampleOptions).status = .ok ∧
      (markerLog.2.appendValuedWithResult refusingDecoders LogRun.sampleOptions unknownRecord true
        (.finished true)).1 = some .succeeded ∧
      ((markerLog.2.appendValuedWithResult refusingDecoders LogRun.sampleOptions unknownRecord true
        (.finished true)).2.readAll refusingDecoders LogRun.sampleOptions).status = .corrupt := by
  decide +kernel

end Wal
end ApfsAccess
