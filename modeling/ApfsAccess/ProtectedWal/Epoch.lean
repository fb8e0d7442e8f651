import ApfsAccess.Library.FixedWidth
import ApfsAccess.Library.Layout
import ApfsAccess.Wal.Framing

/-!
# Sealing one record of a protected journal

A frame is a header of 64 bytes, the ciphertext and a tag of 16 bytes.  The header names the epoch whose
key has sealed the frame; the position of the frame goes into the associated data only.

`Gcm` is the provider's cipher.  What is relied on is `Gcm.Inverse`: what was sealed opens, under the same
key, nonce and associated data, to what it was.

* `unsealRecord_sealRecord` : a frame opens in the context it was sealed in, with any epoch.
-/

namespace ApfsAccess
namespace ProtectedWal

open ByteBuffer Format
open Wal (ReadStatus appendU32 appendU64 length_appendU32 length_appendU64)

/-- The bytes of a SHA-256. -/
abbrev Digest := List.Vector UInt8 32

/-- Some byte is not zero. -/
def nonzero (bytes : Bytes) : Bool := bytes.any (· != 0)

/-- `Aes256GcmSeal` and `Aes256GcmOpen`. -/
structure Gcm where
  encrypt : (key nonce plaintext aad : Bytes) → Option Bytes
  decrypt : (key nonce record aad : Bytes) → Except ReadStatus Bytes

/-- Opening undoes sealing, and the tag takes 16 bytes. -/
structure Gcm.Inverse (gcm : Gcm) : Prop where
  decrypt : ∀ key nonce plaintext aad record, gcm.encrypt key nonce plaintext aad = some record →
    gcm.decrypt key nonce record aad = .ok plaintext
  length : ∀ key nonce plaintext aad record, gcm.encrypt key nonce plaintext aad = some record →
    record.length = plaintext.length + 16

/-- `JournalRecordContext`. -/
structure JournalRecordContext where
  purpose : UInt32
  operation : Digest
  chunk : UInt64

/-- `Context`. -/
def JournalRecordContext.valid (context : JournalRecordContext) : Bool :=
  context.purpose != 0 && nonzero context.operation.val

/-- `kRecordMagic`. -/
def recordMagic : Bytes := [0x41, 0x50, 0x46, 0x53, 0x52, 0x45, 0x43, 0x31]

/-- `kJournalRecordHeaderBytes`. -/
def recordHeaderBytes : ℕ := 64

/-- `kMaxJournalRecordBytes`. -/
def maxJournalRecordBytes : ℕ := 1024 * 1024

/-- `kMaxJournalPlaintextBytes`. -/
def maxJournalPlaintextBytes : ℕ := maxJournalRecordBytes - recordHeaderBytes - 16

/-- `kMaxJournalEpochRecords`. -/
def maxJournalEpochRecords : ℕ := 2 ^ 32

/-- The header of a frame of `total` bytes. -/
def recordHeader (id : List.Vector UInt8 16) (nonce : List.Vector UInt8 12) (total : ℕ) : Bytes :=
  recordMagic ++ (appendU32 1 ++ (appendU32 64 ++ (appendU32 (UInt32.ofNat total) ++
    (appendU32 (UInt32.ofNat (total - recordHeaderBytes)) ++ (id.val ++ (nonce.val ++
    List.replicate 12 0))))))

/-- `Aad`. -/
def associatedData (header : Bytes) (binding : Digest) (context : JournalRecordContext) : Bytes :=
  header ++ (binding.val ++ (appendU32 context.purpose ++ (context.operation.val ++
    appendU64 context.chunk)))

/-- The big-endian nonce of a counter. -/
def nonceOf (next : ℕ) : List.Vector UInt8 12 := ⟨beBytes 12 next, length_beBytes 12 next⟩

/-- `ProtectedJournalEpoch::Impl`: the slot was read back before the epoch was handed out. -/
structure Epoch (slot : Bytes → Except ReadStatus Bytes) (binding : Digest) where
  id : List.Vector UInt8 16
  key : Bytes
  published : slot id.val = .ok key
  bound : nonzero binding.val = true
  next : ℕ := 0
  attempts : ℕ := 0
  exhausted : Bool := false

section Records

variable (gcm : Gcm) {slot : Bytes → Except ReadStatus Bytes} {binding : Digest}

/-- The counter after one more nonce was taken. -/
def Epoch.advance (epoch : Epoch slot binding) : Epoch slot binding :=
  { epoch with
    next := (epoch.next + 1) % 2 ^ 96
    attempts := epoch.attempts + 1
    exhausted := epoch.next + 1 == 2 ^ 96 }

/-- `ProtectedJournalEpoch::Seal`.  The nonce is used up before anything that can fail. -/
def sealRecord (epoch : Epoch slot binding) (context : JournalRecordContext) (plaintext : Bytes) :
    Option Bytes × Epoch slot binding :=
  if context.valid = false then (none, epoch)
  else if maxJournalPlaintextBytes < plaintext.length then (none, epoch)
  else if epoch.exhausted ∨ maxJournalEpochRecords ≤ epoch.attempts then (none, epoch)
  else
    let header := recordHeader epoch.id (nonceOf epoch.next)
      (recordHeaderBytes + plaintext.length + 16)
    ((gcm.encrypt epoch.key (nonceOf epoch.next).val plaintext
      (associatedData header binding context)).map (header ++ ·), epoch.advance)

/-- `ProtectedJournalEpoch::Open`. -/
def unsealRecord (slot : Bytes → Except ReadStatus Bytes) (binding : Digest)
    (context : JournalRecordContext) (record : Bytes) : Except ReadStatus Bytes :=
  if nonzero binding.val = false ∨ context.valid = false then .error .ioError
  else if maxJournalRecordBytes < record.length then .error .resourceLimit
  else if record.length < recordHeaderBytes + 16 ∨ slice record 0 8 ≠ recordMagic ∨
      leValue (slice record 8 4) ≠ 1 ∨ leValue (slice record 12 4) ≠ recordHeaderBytes ∨
      leValue (slice record 16 4) ≠ record.length ∨
      leValue (slice record 20 4) ≠ record.length - recordHeaderBytes ∨
      nonzero (slice record 52 12) = true then .error .ioError
  else
    match slot (slice record 24 16) with
    | .error status => .error status
    | .ok key =>
      gcm.decrypt key (slice record 40 12) (record.drop recordHeaderBytes)
        (associatedData (record.take recordHeaderBytes) binding context)

end Records

/-! ## What was sealed opens -/

section Header

theorem slice_append_front {front back : Bytes} {len : ℕ} (h : front.length = len) :
    slice (front ++ back) 0 len = front := by
  rw [slice, List.drop_zero, List.take_left' h]

theorem slice_append_of_le {front back : Bytes} {n off len : ℕ} (h : front.length = n) (hle : n ≤ off) :
    slice (front ++ back) off len = slice back (off - n) len := by
  rw [slice, slice, List.drop_append, List.drop_eq_nil_of_le (by omega), List.nil_append, h]

variable {id : List.Vector UInt8 16} {nonce : List.Vector UInt8 12} {total : ℕ}

theorem length_recordHeader : (recordHeader id nonce total).length = recordHeaderBytes := by
  simp only [recordHeader, List.length_append, length_appendU32, id.property, nonce.property,
    List.length_replicate]
  rfl

/-- The fields of a header, with whatever follows it. -/
theorem recordHeader_fields (rest : Bytes) :
    slice (recordHeader id nonce total ++ rest) 0 8 = recordMagic ∧
      slice (recordHeader id nonce total ++ rest) 8 4 = appendU32 1 ∧
      slice (recordHeader id nonce total ++ rest) 12 4 = appendU32 64 ∧
      slice (recordHeader id nonce total ++ rest) 16 4 = appendU32 (UInt32.ofNat total) ∧
      slice (recordHeader id nonce total ++ rest) 20 4 =
        appendU32 (UInt32.ofNat (total - recordHeaderBytes)) ∧
      slice (recordHeader id nonce total ++ rest) 24 16 = id.val ∧
      slice (recordHeader id nonce total ++ rest) 40 12 = nonce.val ∧
      slice (recordHeader id nonce total ++ rest) 52 12 = List.replicate 12 0 := by
  have hmagic : recordMagic.length = 8 := rfl
  have hid : id.val.length = 16 := id.property
  have hnonce : nonce.val.length = 12 := nonce.property
  have hzeros : (List.replicate 12 (0 : UInt8)).length = 12 := List.length_replicate
  unfold recordHeader
  simp only [List.append_assoc]
  simp (disch := omega) only [slice_append_of_le hmagic, slice_append_of_le (length_appendU32 _),
    slice_append_of_le hid, slice_append_of_le hnonce, Nat.reduceSub]
  refine ⟨slice_append_front hmagic, ?_, ?_, ?_, ?_, ?_, ?_, ?_⟩
  · exact slice_append_front (length_appendU32 _)
  · exact slice_append_front (length_appendU32 _)
  · exact slice_append_front (length_appendU32 _)
  · exact slice_append_front (length_appendU32 _)
  · exact slice_append_front hid
  · exact slice_append_front hnonce
  · exact slice_append_front hzeros

end Header

section Inverse

variable {gcm : Gcm} {slot : Bytes → Except ReadStatus Bytes} {binding : Digest}
  {epoch : Epoch slot binding} {context : JournalRecordContext} {plaintext record : Bytes}

/-- What a frame that was sealed went through. -/
theorem sealRecord_eq_some (h : (sealRecord gcm epoch context plaintext).1 = some record) :
    context.valid = true ∧ plaintext.length ≤ maxJournalPlaintextBytes ∧ ∃ cipher,
      gcm.encrypt epoch.key (nonceOf epoch.next).val plaintext
        (associatedData (recordHeader epoch.id (nonceOf epoch.next)
          (recordHeaderBytes + plaintext.length + 16)) binding context) = some cipher ∧
      record = recordHeader epoch.id (nonceOf epoch.next)
        (recordHeaderBytes + plaintext.length + 16) ++ cipher := by
  unfold sealRecord at h
  split_ifs at h with hvalid hlong hspent
  obtain ⟨cipher, hcipher, rfl⟩ := Option.map_eq_some_iff.mp h
  exact ⟨Bool.eq_true_of_not_eq_false hvalid, not_lt.mp hlong, cipher, hcipher, rfl⟩

/-- The length of a frame stands in its header, whatever follows the frame. -/
theorem sealRecord_header (hgcm : gcm.Inverse)
    (h : (sealRecord gcm epoch context plaintext).1 = some record) (more : Bytes) :
    record.length = plaintext.length + 80 ∧ record.length ≤ maxJournalRecordBytes ∧
      slice (record ++ more) 0 8 = recordMagic ∧ leValue (slice (record ++ more) 8 4) = 1 ∧
      leValue (slice (record ++ more) 12 4) = recordHeaderBytes ∧
      leValue (slice (record ++ more) 16 4) = record.length := by
  obtain ⟨-, hshort, cipher, hcipher, rfl⟩ := sealRecord_eq_some h
  have hlength : (recordHeader epoch.id (nonceOf epoch.next)
      (recordHeaderBytes + plaintext.length + 16) ++ cipher).length = plaintext.length + 80 := by
    rw [List.length_append, length_recordHeader, hgcm.length _ _ _ _ _ hcipher]
    unfold recordHeaderBytes
    omega
  unfold maxJournalPlaintextBytes maxJournalRecordBytes recordHeaderBytes at hshort
  obtain ⟨hmagic, hversion, hheader, htotal, -⟩ := @recordHeader_fields epoch.id
    (nonceOf epoch.next) (recordHeaderBytes + plaintext.length + 16) (cipher ++ more)
  rw [List.append_assoc, hmagic, hversion, hheader, htotal, hlength]
  refine ⟨rfl, ?_, rfl, rfl, rfl, ?_⟩
  · unfold maxJournalRecordBytes
    omega
  · rw [Wal.leValue_appendU32, UInt32.toNat_ofNat']
    unfold recordHeaderBytes
    rw [Nat.mod_eq_of_lt (by omega)]
    omega

/-- **A frame opens in the context it was sealed in.** -/
theorem unsealRecord_sealRecord (hgcm : gcm.Inverse)
    (h : (sealRecord gcm epoch context plaintext).1 = some record) :
    unsealRecord gcm slot binding context record = .ok plaintext := by
  obtain ⟨hlength, hshort, hmagic, hversion, hheader, htotal⟩ := sealRecord_header hgcm h []
  rw [List.append_nil] at hmagic hversion hheader htotal
  obtain ⟨hvalid, hplain, cipher, hcipher, hrecord⟩ := sealRecord_eq_some h
  obtain ⟨-, -, -, -, hsize, hid, hnonce, hzeros⟩ := @recordHeader_fields epoch.id
    (nonceOf epoch.next) (recordHeaderBytes + plaintext.length + 16) cipher
  rw [← hrecord] at hsize hid hnonce hzeros
  have hcipherSize : leValue (slice record 20 4) = record.length - recordHeaderBytes := by
    unfold maxJournalPlaintextBytes maxJournalRecordBytes recordHeaderBytes at hplain
    unfold recordHeaderBytes at hsize ⊢
    rw [hsize, Wal.leValue_appendU32, UInt32.toNat_ofNat', Nat.mod_eq_of_lt (by omega), hlength]
    omega
  have htake : record.take recordHeaderBytes = recordHeader epoch.id (nonceOf epoch.next)
      (recordHeaderBytes + plaintext.length + 16) := by
    rw [hrecord, List.take_left' length_recordHeader]
  have hdrop : record.drop recordHeaderBytes = cipher := by
    rw [hrecord, List.drop_left' length_recordHeader]
  have hzero : nonzero (slice record 52 12) = false := by
    rw [hzeros]
    rfl
  unfold unsealRecord
  rw [if_neg (by simp [epoch.bound, hvalid]), if_neg (not_lt.mpr hshort), if_neg, hid,
    epoch.published, hnonce, htake, hdrop]
  · exact hgcm.decrypt _ _ _ _ _ hcipher
  · rw [hmagic, hversion, hheader, htotal, hcipherSize, hzero]
    unfold recordHeaderBytes
    simp only [ne_eq, not_true_eq_false, or_false, Bool.false_eq_true]
    omega

end Inverse

end ProtectedWal
end ApfsAccess
