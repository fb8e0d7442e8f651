import ApfsAccess.ProtectedWal.Epoch

/-!
# Decoding a protected log

A protected log is a header, an anchor frame and one frame for each record.  Each frame is opened in a
context that binds its position: the offset, the ordinal, the sequence number before it and the hash of
the frame before it.  The anchor of a log that was compacted carries a checkpoint, which the first
retained records have to meet.

* `decodeFrames_items` : the loop over frames that open one after another.
* `exists_items_of_decodeFrames` : where the loop goes through, there are such frames.
-/

namespace ApfsAccess
namespace ProtectedWal

open ByteBuffer Format
open Wal (ReadStatus WalRecord WalReadLimits ProofDecoders decodeRecord appendU64 legacyHeaderSize
  inlinePayloadHeaderSize unlinkOutcomeHeaderSize length_appendU64)

/-! ## Options, heads and checkpoints -/

/-- `Options` with its `ProtectedPersistence`, the size of a `Record`, and what the code calls: the
payload decoders, the hash, the cipher and the slots of the key directory. -/
structure Options where
  decoders : ProofDecoders
  sha256 : Bytes → Digest
  gcm : Gcm
  slot : Bytes → Except ReadStatus Bytes
  recordBytes : ℕ
  volumeIdentity : Bytes
  maxBytes : ℕ
  sourceBinding : Digest
  journalIdentity : Digest
  readLimits : WalReadLimits
  maxAllocationBytes : ℕ

/-- `ProtectedConfigValid`, without the paths. -/
def protectedConfigValid (o : Options) : Bool :=
  o.volumeIdentity != [] && decide (o.volumeIdentity.length ≤ 4096) &&
    o.volumeIdentity.all (· != 0) && nonzero o.sourceBinding.val && nonzero o.journalIdentity.val &&
    decide (512 ≤ o.maxBytes) && decide (o.maxBytes ≤ o.readLimits.bytes) &&
    decide (o.readLimits.bytes ≤ 64 * 2 ^ 20) && decide (0 < o.readLimits.records) &&
    decide (o.readLimits.records ≤ 65536) && decide (0 < o.maxAllocationBytes) &&
    decide (o.maxAllocationBytes ≤ 256 * 2 ^ 20)

/-- The digest of zeros. -/
def zeroDigest : Digest := List.Vector.replicate 32 0

/-- `ProtectedHistoryHead`. -/
structure ProtectedHead where
  sha256 : Digest := zeroDigest
  bytes : UInt64 := 0
  records : UInt64 := 0
  lastSequence : UInt64 := 0
deriving DecidableEq

/-- `kProtectedAnchorBytes`. -/
def protectedAnchorBytes : ℕ := 104

/-- `ProtectedHeadValid`. -/
def protectedHeadValid (head : ProtectedHead) (continued : Bool) : Bool :=
  decide (protectedAnchorBytes ≤ head.bytes.toNat) && decide (head.bytes.toNat ≤ 64 * 2 ^ 20) &&
    decide (head.records.toNat ≤ 65536) && head.lastSequence != 0xffffffffffffffff &&
    (if head.records = 0 then continued || head.lastSequence == 0 else head.lastSequence != 0) &&
    nonzero head.sha256.val

/-- `ProtectedCheckpoint`. -/
structure ProtectedCheckpoint where
  previous : ProtectedHead := {}
  floor : UInt64 := 0
  retained : UInt64 := 0
  semantic : Digest := zeroDigest
deriving DecidableEq

/-- What a checkpoint starts with. -/
def checkpointMagic : Bytes := [0x57, 0x41, 0x4c, 0x43, 0x50, 0x30, 0x30, 0x31]

/-- `kCheckpointPlainBytes`. -/
def checkpointPlainBytes : ℕ := 112

/-- The test at the end of `ProtectedCheckpointDecode`. -/
def checkpointValid (c : ProtectedCheckpoint) : Bool :=
  protectedHeadValid c.previous false && c.floor != 0 &&
    decide (c.floor ≤ c.previous.lastSequence + 1) && decide (c.retained ≤ c.previous.records) &&
    ((c.retained == 0) == (c.previous.records == 0))

/-- A word of a plaintext. -/
def wordAt (bytes : Bytes) (off : ℕ) : UInt64 := UInt64.ofNat (leValue (slice bytes off 8))

/-- `ProtectedCheckpointDecode`. -/
def protectedCheckpointDecode (bytes : Bytes) : Option ProtectedCheckpoint :=
  if bytes.length ≠ checkpointPlainBytes ∨ slice bytes 0 8 ≠ checkpointMagic then none
  else
    let c : ProtectedCheckpoint :=
      { previous :=
          { sha256 := fieldAt 32 bytes 8
            bytes := wordAt bytes 40
            records := wordAt bytes 48
            lastSequence := wordAt bytes 56 }
        floor := wordAt bytes 64
        retained := wordAt bytes 72
        semantic := fieldAt 32 bytes 80 }
    if checkpointValid c then some c else none

/-- `ProtectedCheckpointEncode`. -/
def protectedCheckpointEncode (c : ProtectedCheckpoint) : Bytes :=
  checkpointMagic ++ (c.previous.sha256.val ++ (appendU64 c.previous.bytes ++
    (appendU64 c.previous.records ++ (appendU64 c.previous.lastSequence ++ (appendU64 c.floor ++
    (appendU64 c.retained ++ c.semantic.val))))))

/-! ## The position of a frame -/

/-- `ProtectedPosition`. -/
structure ProtectedPosition where
  offset : ℕ := 0
  ordinal : ℕ := 0
  sequence : UInt64 := 0
  previous : Digest := zeroDigest
deriving DecidableEq

/-- What a context starts with. -/
def contextLabel : Bytes :=
  [0x41, 0x50, 0x46, 0x53, 0x2d, 0x57, 0x41, 0x4c, 0x2d, 0x43, 0x4f, 0x4e, 0x54, 0x45, 0x58, 0x54,
    0x31]

section Frames

variable (o : Options)

/-- `ProtectedContext`. -/
def protectedContext (at' : ProtectedPosition) : JournalRecordContext where
  purpose := if at'.ordinal = 0 then 0x57414c01 else 0x57414c02
  operation := o.sha256 (contextLabel ++ (List.replicate 7 0 ++ (o.journalIdentity.val ++
    ((o.sha256 o.volumeIdentity).val ++ (appendU64 (UInt64.ofNat at'.offset) ++
    (appendU64 (UInt64.ofNat at'.ordinal) ++ (appendU64 at'.sequence ++
    (List.replicate 16 0 ++ at'.previous.val))))))))
  chunk := UInt64.ofNat at'.ordinal

/-- `ProtectedAdvance`. -/
def protectedAdvance (at' : ProtectedPosition) (frame : Bytes) (sequence : UInt64) :
    ProtectedPosition where
  offset := at'.offset + frame.length
  ordinal := at'.ordinal + 1
  sequence := sequence
  previous := o.sha256 frame

/-- What the digest of the retained records starts from. -/
def semanticDomain : Bytes :=
  [0x41, 0x50, 0x46, 0x53, 0x2d, 0x57, 0x41, 0x4c, 0x2d, 0x52, 0x45, 0x54, 0x41, 0x49, 0x4e, 0x31]

/-- `ProtectedSemanticStart`. -/
def protectedSemanticStart : Digest := o.sha256 semanticDomain

/-- `ProtectedSemanticStep`. -/
def protectedSemanticStep (digest : Digest) (plain : Bytes) : Digest :=
  o.sha256 (digest.val ++ (o.sha256 plain).val)

/-- The header of the frame at the head of the rest, and how long the frame is. -/
def frameLength (left : Bytes) : Option ℕ :=
  if left.length < 80 ∨ slice left 0 8 ≠ recordMagic ∨ leValue (slice left 8 4) ≠ 1 ∨
      leValue (slice left 12 4) ≠ recordHeaderBytes then none
  else
    let length := leValue (slice left 16 4)
    if length < 80 ∨ maxJournalRecordBytes < length ∨ left.length < length then none
    else some length

/-- Open the frame at a position. -/
def openAt (at' : ProtectedPosition) (frame : Bytes) : Except ReadStatus Bytes :=
  unsealRecord o.gcm o.slot o.sourceBinding (protectedContext o at') frame

/-! ## The loop -/

/-- The state of the loop. -/
structure DecodeState where
  position : ProtectedPosition
  proof : ProtectedCheckpoint := {}
  semantic : Digest
  records : List WalRecord := []

/-- The anchor that stands for a continued log, and the sequence number it goes on from. -/
structure Continuation where
  anchor : Bytes := []
  sequence : UInt64 := 0

/-- `kProtectedAnchor`. -/
def protectedAnchor : Bytes := [0x57, 0x41, 0x4c, 0x52, 0x4f, 0x4f, 0x54, 0x31]

/-- `kProtectedWalHeader`. -/
def protectedWalHeader : Bytes :=
  [0xe4, 0x41, 0x50, 0x46, 0x53, 0x57, 0x41, 0x4c, 1, 0, 0, 0, 16, 0, 0, 0]

/-- The anchor: what it proves, and the sequence number the log starts from. -/
def readAnchor (continuation : Continuation) (s : DecodeState) (plain : Bytes) :
    Except ReadStatus (ProtectedCheckpoint × UInt64) :=
  if continuation.anchor ≠ [] then
    if continuation.anchor.length ≠ 192 ∨ plain ≠ continuation.anchor then .error .corrupt
    else .ok (s.proof, continuation.sequence)
  else if plain.length = protectedAnchor.length then
    if plain ≠ protectedAnchor then .error .corrupt else .ok (s.proof, s.position.sequence)
  else
    match protectedCheckpointDecode plain with
    | none => .error .corrupt
    | some proof => .ok (proof, s.position.sequence)

/-- The record in a plaintext. -/
def decodePlain (plain : Bytes) : Except ReadStatus WalRecord :=
  if plain.length < legacyHeaderSize ∨ leValue (slice plain 0 4) ≠ Wal.magic ∨
      leValue (slice plain 8 4) ≠ plain.length then .error .corrupt
  else
    let version := leValue (slice plain 4 2)
    let header := if version = 1 then legacyHeaderSize else if version = 2 then inlinePayloadHeaderSize
      else if version = 3 then unlinkOutcomeHeaderSize else 0
    if header = 0 ∨ leValue (slice plain 6 2) ≠ header ∨ plain.length < header then
      .error .versionMismatch
    else decodeRecord o.decoders plain version o.volumeIdentity

/-- The record in a plaintext, where it may follow a sequence number. -/
def readPlain (sequence : UInt64) (plain : Bytes) : Except ReadStatus WalRecord :=
  match decodePlain o plain with
  | .error status => .error status
  | .ok record =>
    if record.sequence = 0 ∨ record.sequence = 0xffffffffffffffff ∨ record.sequence ≤ sequence ∨
        record.operation = .compactionIndex ∨ record.state < Wal.stateCode .prepared ∨
        Wal.stateCode .cleanupArmed < record.state then .error .corrupt
    else .ok record

/-- Whether the checkpoint is still to be met by one of the records that follow. -/
def DecodeState.pending (s : DecodeState) : Bool :=
  s.proof.floor != 0 && decide (s.records.length < s.proof.retained.toNat)

/-- The digest after one more record. -/
def DecodeState.semanticAfter (s : DecodeState) (plain : Bytes) : Digest :=
  if s.pending then protectedSemanticStep o s.semantic plain else s.semantic

/-- A record is taken; the last of the retained ones has to meet the checkpoint. -/
def takeRecord (s : DecodeState) (frame plain : Bytes) (record : WalRecord) :
    Except ReadStatus DecodeState :=
  let semantic := s.semanticAfter o plain
  if s.pending = true ∧ s.records.length + 1 = s.proof.retained.toNat ∧
      (semantic ≠ s.proof.semantic ∨ record.sequence ≠ s.proof.previous.lastSequence) then
    .error .corrupt
  else
    .ok { s with
      position := protectedAdvance o s.position frame record.sequence
      semantic
      records := s.records ++ [record] }

variable (limits : WalReadLimits) (allocation size : ℕ) (continuation : Continuation)

/-- How many records the limits leave room for. -/
def recordRoom : ℕ :=
  min limits.records ((allocation - size * 4) / (2 * o.recordBytes + 4))

/-- One frame of `DecodeProtectedWal`. -/
def decodeFrame (s : DecodeState) (frame : Bytes) : Except ReadStatus DecodeState :=
  if s.position.ordinal ≠ 0 ∧ recordRoom o limits allocation size ≤ s.records.length then
    .error .resourceLimit
  else
    match openAt o s.position frame with
    | .error status => .error status
    | .ok plain =>
      if s.position.ordinal = 0 then
        match readAnchor continuation s plain with
        | .error status => .error status
        | .ok (proof, sequence) =>
          .ok { s with proof, position := protectedAdvance o s.position frame sequence }
      else
        match readPlain o s.position.sequence plain with
        | .error status => .error status
        | .ok record => takeRecord o s frame plain record

/-- What is checked at the end. -/
def finishDecode (s : DecodeState) : Except ReadStatus DecodeState :=
  if s.proof.floor ≠ 0 ∧ (s.records.length < s.proof.retained.toNat ∨
      s.proof.retained = 0 ∧ s.semantic ≠ s.proof.semantic) then .error .corrupt
  else .ok s

/-- The loop of `DecodeProtectedWal`, on the bytes past the cursor. -/
def decodeFrames : ℕ → DecodeState → Bytes → Except ReadStatus DecodeState
  | 0, s, _ => finishDecode s
  | fuel + 1, s, left =>
    if left = [] then finishDecode s
    else
      match frameLength left with
      | none => .error .corrupt
      | some length =>
        match decodeFrame o limits allocation size continuation s (left.take length) with
        | .error status => .error status
        | .ok s => decodeFrames fuel s (left.drop length)

end Frames

/-- `DecodeProtectedWal`. -/
def decodeProtectedWal (o : Options) (limits : WalReadLimits) (allocation : ℕ)
    (continuation : Continuation) (bytes : Bytes) : Except ReadStatus DecodeState :=
  if bytes.length < protectedAnchorBytes ∨ slice bytes 0 16 ≠ protectedWalHeader then .error .corrupt
  else if limits.bytes < bytes.length ∨ allocation / 4 < bytes.length then .error .resourceLimit
  else
    decodeFrames o limits allocation bytes.length continuation bytes.length
      { position := { offset := protectedWalHeader.length }
        semantic := protectedSemanticStart o } (bytes.drop protectedWalHeader.length)

/-! ## Frames that open one after another -/

/-- A frame with what it holds. -/
structure Item where
  frame : Bytes
  plain : Bytes
  record : WalRecord

/-- The header of a frame tells how long it is. -/
structure Framed (frame : Bytes) : Prop where
  le_length : 80 ≤ frame.length
  length_le : frame.length ≤ maxJournalRecordBytes
  magic : slice frame 0 8 = recordMagic
  version : leValue (slice frame 8 4) = 1
  header : leValue (slice frame 12 4) = recordHeaderBytes
  length : leValue (slice frame 16 4) = frame.length

/-- A slice of the front does not see what follows. -/
theorem slice_append_left {front : Bytes} {off len : ℕ} (h : off + len ≤ front.length)
    (back : Bytes) : slice (front ++ back) off len = slice front off len := by
  rw [slice, slice, List.drop_append_of_le_length (by omega), List.take_append_of_le_length]
  rw [List.length_drop]
  omega

theorem Framed.frameLength_append {frame : Bytes} (h : Framed frame) (more : Bytes) :
    frameLength (frame ++ more) = some frame.length := by
  have hlong := h.le_length
  have hshort := h.length_le
  unfold frameLength
  rw [slice_append_left (by omega), slice_append_left (by omega), slice_append_left (by omega),
    slice_append_left (by omega), h.magic, h.version, h.header, h.length, List.length_append]
  dsimp only
  rw [if_neg (by simp only [ne_eq, not_true_eq_false, or_false]; omega), if_neg (by omega)]

theorem framed_of_frameLength {left : Bytes} {length : ℕ} (h : frameLength left = some length) :
    Framed (left.take length) ∧ length ≤ left.length := by
  unfold frameLength at h
  dsimp only at h
  split_ifs at h with hheader hbounds
  obtain rfl := Option.some.inj h
  simp only [not_or, not_lt, not_not] at hheader hbounds
  obtain ⟨-, hmagic, hversion, hsize⟩ := hheader
  obtain ⟨hlong, hshort, hle⟩ := hbounds
  generalize hn : leValue (slice left 16 4) = n at *
  have htake : ∀ off len, off + len ≤ 80 → slice (left.take n) off len = slice left off len := by
    intro off len hoff
    rw [slice, slice, List.drop_take, List.take_take, Nat.min_eq_left (by omega)]
  have hlength : (left.take n).length = n := by
    rw [List.length_take, Nat.min_eq_left hle]
  refine ⟨⟨?_, ?_, ?_, ?_, ?_, ?_⟩, hle⟩
  · rw [hlength]
    exact hlong
  · rw [hlength]
    exact hshort
  · rw [htake _ _ (by omega), hmagic]
  · rw [htake _ _ (by omega), hversion]
  · rw [htake _ _ (by omega), hsize]
  · rw [htake _ _ (by omega), hlength, hn]

section Chains

variable (o : Options)

/-- Each frame opens at its position, to the record it is listed with. -/
def Chain : ProtectedPosition → List Item → Prop
  | _, [] => True
  | at', item :: items =>
    Framed item.frame ∧ openAt o at' item.frame = .ok item.plain ∧
      readPlain o at'.sequence item.plain = .ok item.record ∧
      Chain (protectedAdvance o at' item.frame item.record.sequence) items

/-- The position behind the frames. -/
def positionAfter : ProtectedPosition → List Item → ProtectedPosition
  | at', [] => at'
  | at', item :: items =>
    positionAfter (protectedAdvance o at' item.frame item.record.sequence) items

/-- The frames, one after another. -/
def bytesOf (items : List Item) : Bytes := items.flatMap Item.frame

/-- The records of the frames. -/
def recordsOf (items : List Item) : List WalRecord := items.map Item.record

/-- The plaintexts with their records can be read one after another. -/
def Readable : UInt64 → List (Bytes × WalRecord) → Prop
  | _, [] => True
  | sequence, (plain, record) :: rest =>
    readPlain o sequence plain = .ok record ∧ Readable record.sequence rest

/-- The plaintext and the record of a frame. -/
def Item.content (item : Item) : Bytes × WalRecord := (item.plain, item.record)

variable {o}

theorem chain_append {at' : ProtectedPosition} {xs ys : List Item} :
    Chain o at' (xs ++ ys) ↔ Chain o at' xs ∧ Chain o (positionAfter o at' xs) ys := by
  induction xs generalizing at' with
  | nil => exact (and_iff_right trivial).symm
  | cons item xs ih =>
    simp only [List.cons_append, Chain, positionAfter, ih, and_assoc]

theorem positionAfter_append {at' : ProtectedPosition} {xs ys : List Item} :
    positionAfter o at' (xs ++ ys) = positionAfter o (positionAfter o at' xs) ys := by
  induction xs generalizing at' with
  | nil => rfl
  | cons item xs ih => exact ih

/-- Frames that open carry plaintexts that can be read. -/
theorem Chain.readable {at' : ProtectedPosition} {items : List Item} (h : Chain o at' items) :
    Readable o at'.sequence (items.map Item.content) := by
  induction items generalizing at' with
  | nil => trivial
  | cons item items ih => exact ⟨h.2.2.1, ih h.2.2.2⟩

/-- What a plaintext that is read went through. -/
theorem readPlain_eq_ok_iff {sequence : UInt64} {plain : Bytes} {record : WalRecord} :
    readPlain o sequence plain = .ok record ↔
      decodePlain o plain = .ok record ∧ sequence < record.sequence ∧ record.sequence ≠ 0 ∧
        record.sequence ≠ 0xffffffffffffffff ∧ record.operation ≠ .compactionIndex ∧
        ¬record.state < Wal.stateCode .prepared ∧ ¬Wal.stateCode .cleanupArmed < record.state := by
  unfold readPlain
  match decodePlain o plain with
  | .error status => exact iff_of_false nofun fun h => nomatch h.1
  | .ok decoded =>
    dsimp only
    split_ifs with hrejected
    · refine iff_of_false nofun ?_
      rintro ⟨hrecord, hsequence, hzero, hmaximum, hoperation, hlow, hhigh⟩
      obtain rfl := Except.ok.inj hrecord
      rcases hrejected with h | h | h | h | h | h
      · exact hzero h
      · exact hmaximum h
      · exact UInt64.not_le.mpr hsequence h
      · exact hoperation h
      · exact hlow h
      · exact hhigh h
    · simp only [not_or] at hrejected
      obtain ⟨hzero, hmaximum, hsequence, hrest⟩ := hrejected
      constructor
      · intro h
        obtain rfl := Except.ok.inj h
        exact ⟨rfl, UInt64.not_le.mp hsequence, hzero, hmaximum, hrest⟩
      · exact fun h => h.1

/-- A record can be read after any smaller sequence number. -/
theorem readPlain_of_le {before sequence : UInt64} {plain : Bytes} {record : WalRecord}
    (hle : before ≤ sequence) (h : readPlain o sequence plain = .ok record) :
    readPlain o before plain = .ok record := by
  rw [readPlain_eq_ok_iff] at h ⊢
  exact ⟨h.1, UInt64.lt_of_le_of_lt hle h.2.1, h.2.2⟩

theorem Readable.of_le {before sequence : UInt64} {contents : List (Bytes × WalRecord)}
    (hle : before ≤ sequence) (h : Readable o sequence contents) : Readable o before contents := by
  match contents with
  | [] => trivial
  | _ :: _ => exact ⟨readPlain_of_le hle h.1, h.2⟩

/-- **Leaving records out keeps the rest readable.** -/
theorem Readable.sublist {sequence : UInt64} {kept contents : List (Bytes × WalRecord)}
    (h : Readable o sequence contents) (hsub : kept.Sublist contents) : Readable o sequence kept := by
  induction hsub generalizing sequence with
  | slnil => trivial
  | cons content hsub ih =>
    exact (ih h.2).of_le (UInt64.le_of_lt (readPlain_eq_ok_iff.mp h.1).2.1)
  | cons_cons content hsub ih => exact ⟨h.1, ih h.2⟩

end Chains

/-! ## The loop over such frames -/

section Loop

variable (o : Options)

/-- The state after one more record. -/
def DecodeState.after (s : DecodeState) (item : Item) : DecodeState :=
  { s with
    position := protectedAdvance o s.position item.frame item.record.sequence
    semantic := s.semanticAfter o item.plain
    records := s.records ++ [item.record] }

/-- The records meet the checkpoint, where it is still pending. -/
def Meets : DecodeState → List Item → Prop
  | _, [] => True
  | s, item :: items =>
    (s.pending = true → s.records.length + 1 = s.proof.retained.toNat →
      s.semanticAfter o item.plain = s.proof.semantic ∧
        item.record.sequence = s.proof.previous.lastSequence) ∧
      Meets (s.after o item) items

variable {o} {limits : WalReadLimits} {allocation size : ℕ} {continuation : Continuation}
  {s : DecodeState} {items : List Item}

theorem foldl_after :
    (items.foldl (DecodeState.after o) s).position = positionAfter o s.position items ∧
      (items.foldl (DecodeState.after o) s).records = s.records ++ recordsOf items ∧
      (items.foldl (DecodeState.after o) s).proof = s.proof := by
  induction items generalizing s with
  | nil => exact ⟨rfl, (List.append_nil _).symm, rfl⟩
  | cons item items ih =>
    obtain ⟨hposition, hrecords, hproof⟩ := @ih (s.after o item)
    refine ⟨hposition, ?_, hproof⟩
    rw [List.foldl_cons, hrecords]
    exact List.append_assoc _ _ _

theorem takeRecord_eq_ok_iff {frame plain : Bytes} {record : WalRecord} {next : DecodeState} :
    takeRecord o s frame plain record = .ok next ↔
      (s.pending = true → s.records.length + 1 = s.proof.retained.toNat →
        s.semanticAfter o plain = s.proof.semantic ∧
          record.sequence = s.proof.previous.lastSequence) ∧
        next = s.after o ⟨frame, plain, record⟩ := by
  unfold takeRecord
  dsimp only
  split_ifs with hrejected
  · refine iff_of_false nofun ?_
    rintro ⟨hmeets, -⟩
    obtain ⟨hpending, hlast, hdiffers⟩ := hrejected
    obtain ⟨hsemantic, hsequence⟩ := hmeets hpending hlast
    exact hdiffers.elim (fun h => h hsemantic) fun h => h hsequence
  · rw [Except.ok.injEq]
    refine ⟨fun h => ⟨fun hpending hlast => ?_, h.symm⟩, fun h => h.2.symm⟩
    by_contra hdiffers
    exact hrejected ⟨hpending, hlast, not_and_or.mp hdiffers⟩

/-- One record of the loop. -/
theorem decodeFrame_eq_ok_iff {frame : Bytes} {next : DecodeState} (h : s.position.ordinal ≠ 0) :
    decodeFrame o limits allocation size continuation s frame = .ok next ↔
      s.records.length < recordRoom o limits allocation size ∧ ∃ plain record,
        openAt o s.position frame = .ok plain ∧
        readPlain o s.position.sequence plain = .ok record ∧
        takeRecord o s frame plain record = .ok next := by
  unfold decodeFrame
  by_cases hroom : recordRoom o limits allocation size ≤ s.records.length
  · rw [if_pos ⟨h, hroom⟩]
    exact iff_of_false nofun fun hnext => absurd hnext.1 (not_lt.mpr hroom)
  rw [if_neg fun hfull => hroom hfull.2, and_iff_right (not_le.mp hroom)]
  match openAt o s.position frame with
  | .error status => exact iff_of_false nofun fun ⟨_, _, hopen, _⟩ => nomatch hopen
  | .ok plain =>
    dsimp only
    rw [if_neg h]
    constructor
    · intro hnext
      match hread : readPlain o s.position.sequence plain with
      | .error status =>
        rw [hread] at hnext
        cases hnext
      | .ok record =>
        rw [hread] at hnext
        exact ⟨plain, record, rfl, hread, hnext⟩
    · rintro ⟨plain', record, hplain, hread, hnext⟩
      obtain rfl := Except.ok.inj hplain
      rw [hread]
      exact hnext

/-- **The loop over frames that open one after another.** -/
theorem decodeFrames_items {fuel : ℕ} {rest : Bytes} (hchain : Chain o s.position items)
    (hordinal : s.position.ordinal ≠ 0) (hmeets : Meets o s items)
    (hroom : s.records.length + items.length ≤ recordRoom o limits allocation size)
    (hfuel : (bytesOf items ++ rest).length ≤ fuel) :
    ∃ left, rest.length ≤ left ∧
      decodeFrames o limits allocation size continuation fuel s (bytesOf items ++ rest) =
        decodeFrames o limits allocation size continuation left
          (items.foldl (DecodeState.after o) s) rest := by
  induction items generalizing s fuel with
  | nil => exact ⟨fuel, hfuel, rfl⟩
  | cons item items ih =>
    obtain ⟨hframed, hopen, hread, hnext⟩ := hchain
    rw [List.length_cons] at hroom
    have hbytes : bytesOf (item :: items) ++ rest = item.frame ++ (bytesOf items ++ rest) :=
      List.append_assoc _ _ _
    have hlong := hframed.le_length
    rw [hbytes, List.length_append] at hfuel
    rw [hbytes]
    match fuel with
    | 0 => omega
    | fuel + 1 =>
      have hne : item.frame ++ (bytesOf items ++ rest) ≠ [] := by
        intro hnil
        rw [(List.append_eq_nil_iff.mp hnil).1, List.length_nil] at hlong
        omega
      have hframe : decodeFrame o limits allocation size continuation s item.frame =
          .ok (s.after o item) :=
        (decodeFrame_eq_ok_iff hordinal).mpr ⟨by omega, _, _, hopen, hread,
          takeRecord_eq_ok_iff.mpr ⟨hmeets.1, rfl⟩⟩
      have hrecords : (s.after o item).records.length = s.records.length + 1 := List.length_append
      obtain ⟨left, hleft, hloop⟩ := @ih (s.after o item) fuel hnext (Nat.succ_ne_zero _) hmeets.2
        (by omega) (by omega)
      refine ⟨left, hleft, ?_⟩
      rw [decodeFrames, if_neg hne, hframed.frameLength_append]
      dsimp only
      rw [List.take_left, List.drop_left, hframe]
      exact hloop

/-- **Where the loop goes through**, there are frames that open one after another. -/
theorem exists_items_of_decodeFrames {fuel : ℕ} {left : Bytes} {final : DecodeState}
    (hordinal : s.position.ordinal ≠ 0) (hfuel : left.length ≤ fuel)
    (h : decodeFrames o limits allocation size continuation fuel s left = .ok final) :
    ∃ items, left = bytesOf items ∧ Chain o s.position items ∧
      final = items.foldl (DecodeState.after o) s ∧
      (items ≠ [] → s.records.length + items.length ≤ recordRoom o limits allocation size) := by
  have hfinish : ∀ t, finishDecode t = .ok final → final = t := by
    intro t ht
    unfold finishDecode at ht
    split_ifs at ht
    exact (Except.ok.inj ht).symm
  induction fuel generalizing s left with
  | zero =>
    obtain rfl := List.length_eq_zero_iff.mp (Nat.le_zero.mp hfuel)
    exact ⟨[], rfl, trivial, hfinish s h, fun hne => absurd rfl hne⟩
  | succ fuel ih =>
    rw [decodeFrames] at h
    split_ifs at h with hnil
    · exact ⟨[], hnil, trivial, hfinish s h, fun hne => absurd rfl hne⟩
    match hlength : frameLength left with
    | none =>
      rw [hlength] at h
      cases h
    | some length =>
      rw [hlength] at h
      dsimp only at h
      match hframe : decodeFrame o limits allocation size continuation s (left.take length) with
      | .error status =>
        rw [hframe] at h
        cases h
      | .ok next =>
        rw [hframe] at h
        obtain ⟨hframed, hle⟩ := framed_of_frameLength hlength
        obtain ⟨hroom, plain, record, hopen, hread, htake⟩ :=
          (decodeFrame_eq_ok_iff hordinal).mp hframe
        obtain ⟨-, rfl⟩ := takeRecord_eq_ok_iff.mp htake
        have hlong := hframed.le_length
        rw [List.length_take] at hlong
        have hrest : (left.drop length).length ≤ fuel := by
          rw [List.length_drop]
          omega
        obtain ⟨items, hitems, hchain, hfinal, hmore⟩ := ih (Nat.succ_ne_zero _) hrest h
        refine ⟨⟨left.take length, plain, record⟩ :: items, ?_, ⟨hframed, hopen, hread, hchain⟩,
          hfinal, fun _ => ?_⟩
        · show left = left.take length ++ bytesOf items
          rw [← hitems, List.take_append_drop]
        · rw [List.length_cons]
          have hrecords : (s.after o ⟨left.take length, plain, record⟩).records.length =
            s.records.length + 1 := List.length_append
          rcases List.eq_nil_or_concat items with rfl | ⟨front, last, rfl⟩
          · simp only [List.length_nil]
            omega
          · have := hmore (by simp)
            omega

/-- A checkpoint that is not pending is met by whatever follows, and its digest stays. -/
theorem meets_of_settled (h : s.pending = false) :
    Meets o s items ∧ (items.foldl (DecodeState.after o) s).semantic = s.semantic := by
  induction items generalizing s with
  | nil => exact ⟨trivial, rfl⟩
  | cons item items ih =>
    have hnext : (s.after o item).pending = false := by
      simp only [DecodeState.pending, DecodeState.after, List.length_append, List.length_singleton,
        Bool.and_eq_false_iff, decide_eq_false_iff_not, not_lt] at h ⊢
      exact h.imp_right fun hle => hle.trans (Nat.le_succ _)
    obtain ⟨hmeets, hsemantic⟩ := ih hnext
    refine ⟨⟨fun hpending => absurd (h ▸ hpending) nofun, hmeets⟩, ?_⟩
    rw [List.foldl_cons, hsemantic]
    exact if_neg (by rw [h]; exact Bool.false_ne_true)

/-- **The retained records meet the checkpoint** that was computed from them. -/
theorem meets_of_checkpoint (hfloor : s.proof.floor ≠ 0)
    (hcount : s.records.length + items.length = s.proof.retained.toNat)
    (hsemantic : (items.map Item.plain).foldl (protectedSemanticStep o) s.semantic =
      s.proof.semantic)
    (hlast : ∀ item ∈ items.getLast?, item.record.sequence = s.proof.previous.lastSequence) :
    Meets o s items ∧ (items.foldl (DecodeState.after o) s).semantic = s.proof.semantic := by
  induction items generalizing s with
  | nil => exact ⟨trivial, hsemantic⟩
  | cons item items ih =>
    rw [List.length_cons] at hcount
    have hpending : s.pending = true := by
      simp only [DecodeState.pending, Bool.and_eq_true, bne_iff_ne, ne_eq, decide_eq_true_eq]
      exact ⟨hfloor, by omega⟩
    have hstep : s.semanticAfter o item.plain = protectedSemanticStep o s.semantic item.plain :=
      if_pos hpending
    have hrecords : (s.after o item).records.length = s.records.length + 1 := List.length_append
    have hrest := @ih (s.after o item) hfloor
      (by rw [hrecords]; exact (Nat.add_right_comm _ _ _).trans hcount)
      (by rw [DecodeState.after, hstep]; exact hsemantic)
      (fun last hmem => hlast last (by
        rw [List.getLast?_cons, Option.mem_def.mp hmem]
        rfl))
    refine ⟨⟨fun _ hone => ?_, hrest.1⟩, hrest.2⟩
    have hitems : items = [] := by
      rw [← List.length_eq_zero_iff]
      omega
    subst hitems
    exact ⟨hstep.trans hsemantic, hlast item rfl⟩

end Loop

/-! ## Checkpoints -/

theorem wordAt_eq {bytes : Bytes} {off : ℕ} {value : UInt64}
    (h : slice bytes off 8 = appendU64 value) : wordAt bytes off = value := by
  have hvalue : leValue (leBytes 8 value.toNat) = value.toNat := leValue_leBytes value.toNat_lt
  rw [wordAt, h, appendU64, hvalue, UInt64.ofNat_toNat]

theorem length_protectedCheckpointEncode (c : ProtectedCheckpoint) :
    (protectedCheckpointEncode c).length = checkpointPlainBytes := by
  simp only [protectedCheckpointEncode, List.length_append, length_appendU64,
    c.previous.sha256.property, c.semantic.property]
  rfl

/-- **A checkpoint that is encoded is decoded.** -/
theorem protectedCheckpointDecode_encode {c : ProtectedCheckpoint} (h : checkpointValid c = true) :
    protectedCheckpointDecode (protectedCheckpointEncode c) = some c := by
  have hmagic : checkpointMagic.length = 8 := rfl
  have hsha := c.previous.sha256.property
  have hlength := length_protectedCheckpointEncode c
  obtain ⟨⟨sha256, bytes, records, lastSequence⟩, floor, retained, semantic⟩ := c
  have hfront : slice (protectedCheckpointEncode
      ⟨⟨sha256, bytes, records, lastSequence⟩, floor, retained, semantic⟩) 0 8 = checkpointMagic :=
    slice_append_front hmagic
  have hdigest : fieldAt 32 (protectedCheckpointEncode
      ⟨⟨sha256, bytes, records, lastSequence⟩, floor, retained, semantic⟩) 8 = sha256 :=
    fieldAt_append sha256 hmagic
  have hsemantic : fieldAt 32 (protectedCheckpointEncode
      ⟨⟨sha256, bytes, records, lastSequence⟩, floor, retained, semantic⟩) 80 = semantic := by
    have hsplit : protectedCheckpointEncode
        ⟨⟨sha256, bytes, records, lastSequence⟩, floor, retained, semantic⟩ =
        (checkpointMagic ++ (sha256.val ++ (appendU64 bytes ++ (appendU64 records ++
          (appendU64 lastSequence ++ (appendU64 floor ++ appendU64 retained)))))) ++
          (semantic.val ++ []) := by
      simp only [protectedCheckpointEncode, List.append_assoc, List.append_nil]
    rw [hsplit]
    refine fieldAt_append semantic ?_
    simp only [List.length_append, length_appendU64, hmagic]
    rw [hsha]
  have hwords : wordAt (protectedCheckpointEncode
        ⟨⟨sha256, bytes, records, lastSequence⟩, floor, retained, semantic⟩) 40 = bytes ∧
      wordAt (protectedCheckpointEncode
        ⟨⟨sha256, bytes, records, lastSequence⟩, floor, retained, semantic⟩) 48 = records ∧
      wordAt (protectedCheckpointEncode
        ⟨⟨sha256, bytes, records, lastSequence⟩, floor, retained, semantic⟩) 56 = lastSequence ∧
      wordAt (protectedCheckpointEncode
        ⟨⟨sha256, bytes, records, lastSequence⟩, floor, retained, semantic⟩) 64 = floor ∧
      wordAt (protectedCheckpointEncode
        ⟨⟨sha256, bytes, records, lastSequence⟩, floor, retained, semantic⟩) 72 = retained := by
    have hvalue : sha256.val.length = 32 := hsha
    unfold protectedCheckpointEncode
    refine ⟨wordAt_eq ?_, wordAt_eq ?_, wordAt_eq ?_, wordAt_eq ?_, wordAt_eq ?_⟩
    all_goals
      simp (disch := omega) only [slice_append_of_le hmagic, slice_append_of_le hvalue,
        slice_append_of_le (length_appendU64 _), Nat.reduceSub]
      exact slice_append_front (length_appendU64 _)
  obtain ⟨hbytes, hrecords, hlast, hfloor, hretained⟩ := hwords
  unfold protectedCheckpointDecode
  rw [if_neg (by rw [hlength, hfront]; simp), hdigest, hsemantic, hbytes, hrecords, hlast, hfloor,
    hretained]
  exact if_pos h

/-! ## The whole log -/

section Log

variable (o : Options)

/-- The position behind the anchor frame. -/
def afterAnchor (anchor : Bytes) : ProtectedPosition :=
  protectedAdvance o { offset := protectedWalHeader.length } anchor 0

/-- The state behind the anchor frame. -/
def anchored (anchor : Bytes) (proof : ProtectedCheckpoint) : DecodeState where
  position := afterAnchor o anchor
  proof := proof
  semantic := protectedSemanticStart o

/-- The bytes of a log. -/
def logOf (anchor : Bytes) (items : List Item) : Bytes :=
  protectedWalHeader ++ (anchor ++ bytesOf items)

/-- The anchor frame opens, to an anchor or a checkpoint. -/
structure Anchors (anchor : Bytes) (proof : ProtectedCheckpoint) : Prop where
  framed : Framed anchor
  reads : ∃ plain, openAt o { offset := protectedWalHeader.length } anchor = .ok plain ∧
    (proof = {} ∧ plain = protectedAnchor ∨
      plain.length ≠ protectedAnchor.length ∧ protectedCheckpointDecode plain = some proof)

variable {o} {limits : WalReadLimits} {allocation : ℕ}

theorem readAnchor_eq_ok_iff {plain : Bytes} {proof : ProtectedCheckpoint} {sequence : UInt64}
    {s : DecodeState} (hproof : s.proof = {}) (hsequence : s.position.sequence = 0) :
    readAnchor {} s plain = .ok (proof, sequence) ↔ sequence = 0 ∧
      (proof = {} ∧ plain = protectedAnchor ∨
        plain.length ≠ protectedAnchor.length ∧ protectedCheckpointDecode plain = some proof) := by
  have hanchor : ¬({} : Continuation).anchor ≠ [] := fun h => h rfl
  unfold readAnchor
  rw [if_neg hanchor, hproof, hsequence]
  by_cases hlength : plain.length = protectedAnchor.length
  · rw [if_pos hlength]
    by_cases hplain : plain = protectedAnchor
    · rw [if_neg (not_not.mpr hplain), Except.ok.injEq, Prod.mk.injEq]
      constructor
      · rintro ⟨rfl, rfl⟩
        exact ⟨rfl, Or.inl ⟨rfl, hplain⟩⟩
      · rintro ⟨rfl, ⟨rfl, -⟩ | ⟨hne, -⟩⟩
        · exact ⟨rfl, rfl⟩
        · exact absurd hlength hne
    · rw [if_pos hplain]
      refine iff_of_false nofun ?_
      rintro ⟨-, ⟨-, h⟩ | ⟨hne, -⟩⟩
      · exact hplain h
      · exact hne hlength
  · rw [if_neg hlength]
    match protectedCheckpointDecode plain with
    | none =>
      refine iff_of_false nofun ?_
      rintro ⟨-, ⟨-, rfl⟩ | ⟨-, h⟩⟩
      · exact hlength rfl
      · cases h
    | some decoded =>
      simp only [Except.ok.injEq, Prod.mk.injEq, Option.some.injEq]
      constructor
      · rintro ⟨rfl, rfl⟩
        exact ⟨rfl, Or.inr ⟨hlength, rfl⟩⟩
      · rintro ⟨rfl, ⟨-, rfl⟩ | ⟨-, rfl⟩⟩
        · exact absurd rfl hlength
        · exact ⟨rfl, rfl⟩

/-- The anchor frame of the loop. -/
theorem decodeFrame_anchor_eq_ok_iff {size : ℕ} {frame : Bytes} {next : DecodeState} :
    decodeFrame o limits allocation size {}
        { position := { offset := protectedWalHeader.length }
          semantic := protectedSemanticStart o } frame = .ok next ↔
      ∃ proof plain, openAt o { offset := protectedWalHeader.length } frame = .ok plain ∧
        (proof = {} ∧ plain = protectedAnchor ∨
          plain.length ≠ protectedAnchor.length ∧ protectedCheckpointDecode plain = some proof) ∧
        next = anchored o frame proof := by
  unfold decodeFrame
  rw [if_neg fun h => h.1 rfl]
  match openAt o { offset := protectedWalHeader.length } frame with
  | .error status => exact iff_of_false nofun fun ⟨_, _, hopen, _⟩ => nomatch hopen
  | .ok plain =>
    dsimp only
    rw [if_pos rfl]
    constructor
    · intro hnext
      match hread : readAnchor {} { position := { offset := protectedWalHeader.length }
                                    semantic := protectedSemanticStart o } plain with
      | .error status =>
        rw [hread] at hnext
        cases hnext
      | .ok (proof, sequence) =>
        rw [hread] at hnext
        obtain ⟨rfl, hproof⟩ := (readAnchor_eq_ok_iff rfl rfl).mp hread
        exact ⟨proof, plain, rfl, hproof, (Except.ok.inj hnext).symm⟩
    · rintro ⟨proof, plain', hplain, hproof, rfl⟩
      obtain rfl := Except.ok.inj hplain
      rw [(@readAnchor_eq_ok_iff plain proof 0 _ rfl rfl).mpr ⟨rfl, hproof⟩]
      rfl

/-- **A log that is accepted**: an anchor, and frames that open one after another. -/
theorem exists_items_of_decodeProtectedWal {bytes : Bytes} {final : DecodeState}
    (h : decodeProtectedWal o limits allocation {} bytes = .ok final) :
    ∃ anchor proof items, bytes = logOf anchor items ∧ Anchors o anchor proof ∧
      Chain o (afterAnchor o anchor) items ∧
      final = items.foldl (DecodeState.after o) (anchored o anchor proof) ∧
      items.length ≤ limits.records := by
  unfold decodeProtectedWal at h
  split_ifs at h with hheader hlimits
  simp only [not_or, not_lt, not_not] at hheader hlimits
  have hsplit : bytes = protectedWalHeader ++ bytes.drop protectedWalHeader.length := by
    have htake : bytes.take 16 = protectedWalHeader := by
      rw [← hheader.2, slice, List.drop_zero]
    calc bytes = bytes.take 16 ++ bytes.drop 16 := (List.take_append_drop 16 bytes).symm
      _ = protectedWalHeader ++ bytes.drop protectedWalHeader.length := by
        rw [htake]
        rfl
  generalize hleft : bytes.drop protectedWalHeader.length = left at *
  have hlength : left.length + 16 = bytes.length := by
    rw [← hleft, List.length_drop]
    have hlong := hheader.1
    unfold protectedAnchorBytes at hlong
    show bytes.length - 16 + 16 = bytes.length
    omega
  have hlong := hheader.1
  unfold protectedAnchorBytes at hlong
  cases hfuel : bytes.length with
  | zero => omega
  | succ fuel =>
    rw [hfuel, decodeFrames] at h
    have hne : left ≠ [] := by
      rintro rfl
      rw [List.length_nil] at hlength
      omega
    rw [if_neg hne] at h
    cases hframe : frameLength left with
    | none =>
      rw [hframe] at h
      cases h
    | some length =>
      rw [hframe] at h
      dsimp only at h
      cases hnext : decodeFrame o limits allocation (fuel + 1) {}
          { position := { offset := protectedWalHeader.length }
            semantic := protectedSemanticStart o } (left.take length) with
      | error status =>
        rw [hnext] at h
        cases h
      | ok next =>
        rw [hnext] at h
        obtain ⟨hframed, hle⟩ := framed_of_frameLength hframe
        obtain ⟨proof, plain, hopen, hproof, rfl⟩ := decodeFrame_anchor_eq_ok_iff.mp hnext
        have hrest : (left.drop length).length ≤ fuel := by
          rw [List.length_drop]
          omega
        obtain ⟨items, hitems, hchain, hfinal, hroom⟩ :=
          exists_items_of_decodeFrames (Nat.succ_ne_zero _) hrest h
        refine ⟨left.take length, proof, items, ?_, ⟨hframed, plain, hopen, hproof⟩, hchain, hfinal,
          ?_⟩
        · rw [logOf, ← hitems, List.take_append_drop]
          exact hsplit
        · rcases List.eq_nil_or_concat items with rfl | ⟨front, last, rfl⟩
          · exact Nat.zero_le _
          · have hmore := hroom (by simp)
            rw [recordRoom] at hmore
            exact (Nat.le_add_left _ _).trans (hmore.trans (min_le_left _ _))

/-- **A log of an anchor and such frames is accepted**, within the limits. -/
theorem decodeProtectedWal_logOf {anchor : Bytes} {proof : ProtectedCheckpoint} {items : List Item}
    (hanchor : Anchors o anchor proof) (hchain : Chain o (afterAnchor o anchor) items)
    (hmeets : Meets o (anchored o anchor proof) items)
    (hfinish : finishDecode (items.foldl (DecodeState.after o) (anchored o anchor proof)) =
      .ok (items.foldl (DecodeState.after o) (anchored o anchor proof)))
    (hlong : protectedAnchorBytes ≤ (logOf anchor items).length)
    (hbytes : (logOf anchor items).length ≤ limits.bytes)
    (hallocation : (logOf anchor items).length ≤ allocation / 4)
    (hroom : items.length ≤ recordRoom o limits allocation (logOf anchor items).length) :
    decodeProtectedWal o limits allocation {} (logOf anchor items) =
      .ok (items.foldl (DecodeState.after o) (anchored o anchor proof)) := by
  obtain ⟨hframed, plain, hopen, hproof⟩ := hanchor
  have hheader : slice (logOf anchor items) 0 16 = protectedWalHeader := List.take_left' rfl
  have hdrop : (logOf anchor items).drop protectedWalHeader.length = anchor ++ bytesOf items :=
    List.drop_left
  have hlength : (logOf anchor items).length = 16 + (anchor ++ bytesOf items).length :=
    List.length_append
  have hanchorLong := hframed.le_length
  unfold decodeProtectedWal
  rw [if_neg (by simp only [not_or, not_not]; exact ⟨not_lt.mpr hlong, hheader⟩), if_neg (by omega),
    hdrop]
  have hpositive : (logOf anchor items).length ≠ 0 := by omega
  obtain ⟨fuel, hfuel⟩ := Nat.exists_eq_succ_of_ne_zero hpositive
  have hne : anchor ++ bytesOf items ≠ [] := by
    intro hnil
    rw [(List.append_eq_nil_iff.mp hnil).1, List.length_nil] at hanchorLong
    omega
  obtain ⟨left, -, hloop⟩ := @decodeFrames_items o limits allocation (logOf anchor items).length {}
    (anchored o anchor proof) items fuel [] hchain (Nat.succ_ne_zero _) hmeets
    (by rw [anchored, List.length_nil, Nat.zero_add]; exact hroom)
    (by rw [List.append_nil]; rw [List.length_append] at hlength; omega)
  rw [List.append_nil] at hloop
  conv_lhs =>
    arg 6
    rw [hfuel]
  rw [decodeFrames, if_neg hne, hframed.frameLength_append]
  dsimp only
  rw [List.take_left, List.drop_left, decodeFrame_anchor_eq_ok_iff.mpr ⟨proof, plain, hopen, hproof,
    rfl⟩]
  dsimp only
  rw [hloop]
  cases left with
  | zero => exact hfinish
  | succ left =>
    rw [decodeFrames, if_pos rfl]
    exact hfinish

end Log

end ProtectedWal
end ApfsAccess
