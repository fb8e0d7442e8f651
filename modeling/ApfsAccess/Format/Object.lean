import ApfsAccess.Format.Codec

/-!
# Objects, their checksums, and the source they are read from

Every metadata object of a container starts with the same header: a checksum, an
object id, a transaction id, a type and a subtype.  This module embeds the checksum
of the format layer, the routine of the writer that puts it in place, and the
interface through which a reader sees the bytes of a device.

`RandomAccessSource` carries the contract of its `Read` as fields: a read that
succeeds returns exactly the bytes asked for, and they lie inside the source.
-/

namespace ApfsAccess
namespace Format

open ByteBuffer

/-! ## Guards -/

/-- One guard of a routine that reports an error text and stops. -/
def rejectIf (condition : Prop) [Decidable condition] (error : String) : Except String Unit :=
  if condition then .error error else .ok ()

theorem rejectIf_bind_of_not {condition : Prop} [Decidable condition] {α : Type} (error : String)
    (next : Unit → Except String α) (h : ¬condition) :
    (rejectIf condition error >>= next) = next () := by
  unfold rejectIf
  rw [if_neg h]
  rfl

/-- A chain of guards that went through passed its first guard. -/
theorem rejectIf_bind_eq_ok_iff {condition : Prop} [Decidable condition] {α : Type}
    {error : String} {next : Unit → Except String α} {result : α} :
    (rejectIf condition error >>= next) = .ok result ↔ ¬condition ∧ next () = .ok result := by
  unfold rejectIf
  by_cases h : condition
  · rw [if_pos h]
    simp only [h, not_true_eq_false, false_and, iff_false]
    intro hcontra
    cases hcontra
  · rw [if_neg h]
    simp only [h, not_false_eq_true, true_and]
    exact Iff.rfl

theorem ok_bind {α β : Type} (value : α) (next : α → Except String β) :
    ((Except.ok value : Except String α) >>= next) = next value := rfl

/-- A chain that went through produced its first value. -/
theorem bind_eq_ok_iff {α β : Type} {first : Except String α} {next : α → Except String β}
    {result : β} :
    (first >>= next) = .ok result ↔ ∃ value, first = .ok value ∧ next value = .ok result := by
  cases first with
  | error text =>
    simp only [reduceCtorEq, false_and, exists_false, iff_false]
    intro hcontra
    cases hcontra
  | ok value =>
    simp only [Except.ok.injEq, exists_eq_left']
    exact Iff.rfl

/-! ## Object types -/

/-- `kObjectTypeMask`. -/
def objectTypeMask : ℕ := 0xFFFF

/-- `kObjectTypeBtree`. -/
def objectTypeBtree : ℕ := 2

/-- `kObjectTypeBtreeNode`. -/
def objectTypeBtreeNode : ℕ := 3

/-- `kObjectStorageTypeMask`. -/
def objectStorageTypeMask : ℕ := 0xC0000000

/-- `kObjectEphemeral`. -/
def objectEphemeral : ℕ := 0x80000000

/-- `kObjectPhysical`. -/
def objectPhysical : ℕ := 0x40000000

/-- `AppleObjectLocation`. -/
structure AppleObjectLocation where
  objectId : ℕ
  xid : ℕ
  physicalBlock : ℕ
  type : ℕ
  subtype : ℕ
  sizeBytes : ℕ
  deriving DecidableEq, Repr

/-- `AppleSerializedObject`. -/
structure AppleSerializedObject where
  location : AppleObjectLocation
  bytes : Bytes
  deriving DecidableEq, Repr

/-- `CheckpointMapping`: where a checkpoint keeps one ephemeral object. -/
structure CheckpointMapping where
  type : ℕ
  subtype : ℕ
  sizeBytes : ℕ
  fileSystemOid : ℕ
  objectId : ℕ
  physicalBlock : ℕ
  deriving DecidableEq, Repr

/-! ## Sources -/

/-- `RandomAccessSource`, with the contract of `Read` as its fields. -/
structure RandomAccessSource where
  sizeBytes : ℕ
  sizeBytes_lt : sizeBytes < 2 ^ 64
  read : ℕ → ℕ → Option Bytes
  length_of_read : ∀ {offset size bytes}, read offset size = some bytes → bytes.length = size
  le_of_read : ∀ {offset size bytes}, read offset size = some bytes → offset + size ≤ sizeBytes

/-- `ReadBlockAt`. -/
def readBlockAt (source : RandomAccessSource) (offsetBytes blockSize : ℕ) : Option Bytes :=
  if blockSize = 0 then none else source.read offsetBytes blockSize

/-- A source is holding a block's bytes at a block index. -/
def RandomAccessSource.Holds (source : RandomAccessSource) (blockSize block : ℕ)
    (bytes : Bytes) : Prop :=
  source.read (block * blockSize) blockSize = some bytes

/-- The index of a block that a source holds does not overflow. -/
theorem RandomAccessSource.Holds.block_le {source : RandomAccessSource} {blockSize block : ℕ}
    {bytes : Bytes} (h : source.Holds blockSize block bytes) (hsize : 0 < blockSize) :
    block ≤ (2 ^ 64 - 1) / blockSize := by
  have hle := source.le_of_read h
  have hlt := source.sizeBytes_lt
  rw [Nat.le_div_iff_mul_le hsize]
  omega

/-! ## Checksums -/

/-- `kFletcherModulus`. -/
def fletcherModulus : ℕ := 0xFFFFFFFF

/-- The 32-bit words of a buffer, in memory order. -/
def littleEndianWords : Bytes → List ℕ
  | b0 :: b1 :: b2 :: b3 :: rest => leValue [b0, b1, b2, b3] :: littleEndianWords rest
  | _ => []

/-- One word of the sum: both accumulators are 64 bits wide. -/
def fletcherStep (sums : ℕ × ℕ) (word : ℕ) : ℕ × ℕ :=
  let sum1 := (sums.1 + word) % 2 ^ 64
  (sum1, (sums.2 + sum1) % 2 ^ 64)

/-- `Fletcher64`. -/
def fletcher64 (data : Bytes) : Option ℕ :=
  if data.length = 0 ∨ data.length % 4 ≠ 0 then none
  else
    let sums := (littleEndianWords data).foldl fletcherStep (0, 0)
    let low := fletcherModulus - (sums.1 + sums.2) % 2 ^ 64 % fletcherModulus
    let high := fletcherModulus - (sums.1 + low) % 2 ^ 64 % fletcherModulus
    some (high * 2 ^ 32 + low)

/-- `VerifyObjectChecksum`. -/
def verifyObjectChecksum (block : Bytes) (blockSize : ℕ) : Bool :=
  if blockSize < 12 ∨ block.length < blockSize ∨ (blockSize - 8) % 4 ≠ 0 then false
  else
    let stored := (readU64LE block 0).getD 0
    if stored = 0 ∨ stored = 2 ^ 64 - 1 then false
    else fletcher64 (slice block 8 (blockSize - 8)) == some stored

/-- `FinalizeAppleObjectChecksum`. -/
def finalizeAppleObjectChecksum (object : Bytes) : Except String Bytes :=
  if object.length < 12 ∨ object.length % 4 ≠ 0 then .error "AppleObjectSizeInvalid"
  else
    let cleared := splice object 0 (List.replicate 8 0)
    match fletcher64 (slice cleared 8 (cleared.length - 8)) with
    | none => .error "AppleObjectChecksumFailed"
    | some checksum =>
      let sealedObject := putU64 cleared 0 checksum
      if verifyObjectChecksum sealedObject sealedObject.length then .ok sealedObject
      else .error "AppleObjectChecksumSelfCheckFailed"

/-- What a finalized object is: its checksum verifies, and nothing behind the first
eight bytes was touched. -/
theorem finalizeAppleObjectChecksum_spec {object sealedObject : Bytes}
    (h : finalizeAppleObjectChecksum object = .ok sealedObject) :
    sealedObject.length = object.length ∧
      verifyObjectChecksum sealedObject object.length = true ∧
      ∀ off len, 8 ≤ off → slice sealedObject off len = slice object off len := by
  unfold finalizeAppleObjectChecksum at h
  split at h
  · cases h
  · rename_i hsize
    simp only [not_or, not_lt] at hsize
    have hzero : (List.replicate 8 (0 : UInt8)).length = 8 := rfl
    have hcleared : (splice object 0 (List.replicate 8 0)).length = object.length :=
      length_splice (by rw [hzero]; omega)
    simp only at h
    split at h
    · cases h
    · rename_i checksum _
      have hlength : (putU64 (splice object 0 (List.replicate 8 0)) 0 checksum).length =
          object.length := (length_putLE (by rw [hcleared]; omega)).trans hcleared
      split at h
      · rename_i hverify
        obtain rfl := Except.ok.inj h
        refine ⟨hlength, by rwa [hlength] at hverify, fun off len hoff => ?_⟩
        calc slice (putU64 (splice object 0 (List.replicate 8 0)) 0 checksum) off len
            = slice (splice object 0 (List.replicate 8 0)) off len :=
              slice_putLE (by rw [hcleared]; omega) (.inr (by omega))
          _ = slice object off len :=
              slice_splice_of_disjoint (by rw [hzero]; omega) (.inr (by rw [hzero]; omega))
      · cases h

end Format
end ApfsAccess
