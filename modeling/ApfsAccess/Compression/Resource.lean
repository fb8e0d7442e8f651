import ApfsAccess.Compression.Codecs

/-!
# Resource forks of compressed files

A fork holds its blocks behind a table, in one of two layouts.  The whole table is validated whatever
is read; the blocks that meet the range are then fetched one after another and copied into the result.

* `inBounds_decodeOffsetResource`, `inBounds_decodeResource` : whatever the fork holds, nothing is
  accessed outside the table, the fork, a block or the result.
-/

namespace ApfsAccess
namespace Compression

open ByteBuffer Format

/-- `kBlockBytes`. -/
def kBlockBytes : ℕ := 65536

/-- `ApfsCompressionHeader`. -/
structure ApfsCompressionHeader where
  type : ℕ
  uncompressedSize : ℕ
deriving DecidableEq, Repr

/-- `ApfsCompressionResourceReader`.  The callback returns what it has filled in, or throws. -/
structure ResourceReader where
  size : ℕ
  read : Option (ℕ → ℕ → Except Unit Bytes)

/-- `Within`. -/
def within (offset length size : ℕ) : Bool := decide (offset ≤ size ∧ length ≤ size - offset)

/-- `U32`. -/
def u32 (bytes : Bytes) (position : ℕ) (big : Bool) : Checked ℕ :=
  if position + 4 ≤ bytes.length then
    .ok (leValue (if big then (slice bytes position 4).reverse else slice bytes position 4))
  else .error .outOfBounds

/-- `U64`. -/
def u64 (bytes : Bytes) (position : ℕ) : Checked ℕ := do
  let low ← u32 bytes position false
  let high ← u32 bytes (position + 4) false
  .ok (low + high * 2 ^ 32)

/-- The callback, on a range of the fork. -/
def callReader (resource : ResourceReader) (offset count : ℕ) : Checked Bytes :=
  if within offset count resource.size then
    match resource.read with
    | none => fail .readError "CompressionResourceReadFailed"
    | some read =>
      match read offset count with
      | .error _ => fail .readError "CompressionResourceReaderThrew"
      | .ok bytes => do
        failIf (bytes.length ≠ count) .readError "CompressionResourceReadFailed"
        .ok bytes
  else .error .outOfBounds

/-- `ForkReads::Read`, with the bytes that may still be read. -/
def forkRead (resource : ResourceReader) (remaining offset count : ℕ) : Checked (Bytes × ℕ) := do
  failIf (within offset count resource.size = false) .corrupt "CompressionResourceReadOutOfBounds"
  failIf (remaining < count) .limitExceeded "CompressionResourceReadBudget"
  if count = 0 then .ok ([], remaining)
  else do
    let bytes ← callReader resource offset count
    .ok (bytes, remaining - count)

/-- One computation for each index. -/
def eachOf {α : Type} (f : ℕ → Checked α) : List ℕ → Checked (List α)
  | [] => .ok []
  | i :: rest => do
    let value ← f i
    let others ← eachOf f rest
    .ok (value :: others)

/-- The number of blocks of a file. -/
def blockCount (size : ℕ) : ℕ := size / kBlockBytes + if size % kBlockBytes ≠ 0 then 1 else 0

/-- The size of block `i` of a file. -/
def expectedSize (size i : ℕ) : ℕ := min kBlockBytes (size - i * kBlockBytes)

/-! ## The blocks of a range -/

/-- A validated table: where a block stands in the fork, and how it is coded. -/
structure BlockTable where
  locate : ℕ → Checked (ℕ × ℕ)
  coding : Coding

/-- What is left to read and to work. -/
structure Budgets where
  reads : ℕ
  work : Work

section Blocks

variable (codecs : BlockCodecs) (limits : ApfsCompressionLimits) (resource : ResourceReader)
  (table : BlockTable) (size offset wanted : ℕ)

/-- Block `i`: its bytes are read off the fork and decoded. -/
def fetchBlock (i : ℕ) (budgets : Budgets) : Checked (Bytes × Budgets) := do
  let (start, count) ← table.locate i
  let (encoded, reads) ← forkRead resource budgets.reads start count
  let (decoded, work) ←
    table.coding.decode codecs limits encoded (expectedSize size i) budgets.work
  .ok (decoded, { reads, work })

/-- The part of block `i` that lies in the range is copied into the result. -/
def copyBlock (i : ℕ) (decoded result : Bytes) : Checked Bytes :=
  let logicalStart := i * kBlockBytes
  let copyBegin := max offset logicalStart
  let copyEnd := min (offset + wanted) (logicalStart + expectedSize size i)
  if copyBegin ≤ copyEnd ∧ copyEnd - logicalStart ≤ decoded.length ∧
      copyEnd - offset ≤ result.length then
    .ok (splice result (copyBegin - offset)
      (slice decoded (copyBegin - logicalStart) (copyEnd - copyBegin)))
  else .error .outOfBounds

/-- The loop over the blocks. -/
def decodeLoop : List ℕ → Budgets → Bytes → Checked Bytes
  | [], _, result => .ok result
  | i :: rest, budgets, result => do
    let (decoded, budgets) ← fetchBlock codecs limits resource table size i budgets
    let result ← copyBlock size offset wanted i decoded result
    decodeLoop rest budgets result

/-- What both layouts do once the table is validated. -/
def decodeBlocks (reads : ℕ) : Checked Bytes :=
  if wanted = 0 then .ok []
  else do
    let first := offset / kBlockBytes
    let last := (offset + wanted - 1) / kBlockBytes
    let decodedEnd := if last = blockCount size - 1 then size else (last + 1) * kBlockBytes
    failIf (limits.maxDecodedBytes < decodedEnd - first * kBlockBytes) .limitExceeded
      "CompressionDecodedWorkLimit"
    decodeLoop codecs limits resource table size offset wanted
      (List.range' first (last + 1 - first))
      { reads, work := ⟨limits.maxLzfseWorkUnits, limits.maxLzbitmapWorkUnits⟩ }
      (List.replicate wanted 0)

end Blocks

/-! ## The offset layout -/

/-- The coding of a type with the offset layout. -/
def offsetCoding (type : ℕ) : Coding :=
  if type = 10 then .stored 0xcc
  else if type = 14 then .lzbitmap
  else if type = 12 then .lzfse
  else .lzvn

/-- The checks on entry `i` of the offset table. -/
def checkOffset (header : ApfsCompressionHeader) (resource : ResourceReader) (table : Bytes)
    (i : ℕ) : Checked Unit := do
  let start ← u32 table (i * 4) false
  let stop ← u32 table ((i + 1) * 4) false
  failIf (stop ≤ start ∨ resource.size < stop) .corrupt "CompressionResourceBlockBoundsInvalid"
  let maxEncoded := kBlockBytes + if header.type = 12 ∨ header.type = 14 then 4096 else 1
  failIf (maxEncoded < stop - start ∧ header.type = 14) .limitExceeded
    "CompressionLzbitmapEncodedBlockLimit"
  failIf (maxEncoded < stop - start) .corrupt "CompressionResourceBlockBoundsInvalid"
  failIf (header.type = 10 ∧ stop - start ≠ expectedSize header.uncompressedSize i + 1) .corrupt
    "CompressionStoredResourceSizeMismatch"

/-- The validation of an offset table: the table, and the bytes that may still be read. -/
def offsetTable (header : ApfsCompressionHeader) (resource : ResourceReader)
    (limits : ApfsCompressionLimits) : Checked (Bytes × ℕ) := do
  failIf (limits.maxResourceBytes < resource.size ∨ 2 ^ 32 - 1 < resource.size) .limitExceeded
    "CompressionResourceSizeLimit"
  let count := blockCount header.uncompressedSize
  let tableSize := (count + 1) * 4
  failIf (limits.maxTableBytes < tableSize ∨ fitsVector tableSize = false) .limitExceeded
    "CompressionResourceTableLimit"
  failIf (resource.size < tableSize) .corrupt "CompressionResourceTableSizeInvalid"
  let (table, reads) ← forkRead resource limits.maxResourceReadBytes 0 tableSize
  let head ← u32 table 0 false
  let tail ← u32 table (count * 4) false
  failIf (head ≠ tableSize ∨ tail ≠ resource.size) .corrupt "CompressionResourceOffsetsInvalid"
  let _ ← eachOf (checkOffset header resource table) (List.range count)
  .ok (table, reads)

/-- Where block `i` stands, by the offset table. -/
def locateByOffset (table : Bytes) (i : ℕ) : Checked (ℕ × ℕ) := do
  let start ← u32 table (i * 4) false
  let stop ← u32 table ((i + 1) * 4) false
  .ok (start, stop - start)

/-- `DecodeOffsetResource`. -/
def decodeOffsetResource (codecs : BlockCodecs) (header : ApfsCompressionHeader)
    (resource : ResourceReader) (offset wanted : ℕ) (limits : ApfsCompressionLimits) :
    Checked Bytes := do
  let (table, reads) ← offsetTable header resource limits
  decodeBlocks codecs limits resource ⟨locateByOffset table, offsetCoding header.type⟩
    header.uncompressedSize offset wanted reads

/-! ## The mapped layout -/

/-- The order of the pairs that are sorted. -/
def intervalBefore (a b : ℕ × ℕ) : Bool := decide (a.1 < b.1 ∨ a.1 = b.1 ∧ a.2 ≤ b.2)

/-- No interval starts in front of the end of the one before. -/
def intervalsApart : ℕ → List (ℕ × ℕ) → Bool
  | _, [] => true
  | previousEnd, interval :: rest =>
    decide (previousEnd ≤ interval.1) && intervalsApart (interval.1 + interval.2) rest

/-- The checks on entry `i` of the block table. -/
def checkInterval (tableSize payloadSize : ℕ) (table : Bytes) (i : ℕ) : Checked (ℕ × ℕ) := do
  let start ← u32 table (i * 8) false
  let count ← u32 table (i * 8 + 4) false
  failIf (start < tableSize + 4 ∨ count = 0 ∨ kBlockBytes + 1 < count ∨
    within start count payloadSize = false) .corrupt "CompressionResourceBlockBoundsInvalid"
  .ok (start, count)

/-- The validation of a mapped fork: where its offsets count from, the table, and the bytes that may
still be read. -/
def mappedTable (header : ApfsCompressionHeader) (resource : ResourceReader)
    (limits : ApfsCompressionLimits) : Checked (ℕ × Bytes × ℕ) := do
  failIf (limits.maxResourceBytes < resource.size) .limitExceeded "CompressionResourceSizeLimit"
  let (outer, reads) ← forkRead resource limits.maxResourceReadBytes 0 16
  let dataOffset ← u32 outer 0 true
  let mapOffset ← u32 outer 4 true
  let dataSize ← u32 outer 8 true
  let mapSize ← u32 outer 12 true
  failIf (dataOffset < 16 ∨ mapOffset < 16 ∨ dataSize < 8 ∨ mapSize < 28 ∨
    within dataOffset dataSize resource.size = false ∨
    within mapOffset mapSize resource.size = false ∨
    (dataOffset < mapOffset + mapSize ∧ mapOffset < dataOffset + dataSize)) .corrupt
    "CompressionResourceSectionsInvalid"
  let (lead, reads) ← forkRead resource reads dataOffset 8
  let payloadSize ← u32 lead 0 true
  let count ← u32 lead 4 false
  let tableSize := count * 8
  failIf (payloadSize ≠ dataSize - 4 ∨ count ≠ blockCount header.uncompressedSize ∨
    payloadSize < tableSize + 4) .corrupt "CompressionResourceTableSizeInvalid"
  failIf (limits.maxTableBytes < tableSize + 4 ∨ fitsVector tableSize = false) .limitExceeded
    "CompressionResourceTableLimit"
  let base := dataOffset + 4
  let (table, reads) ← forkRead resource reads (base + 4) tableSize
  let intervals ← eachOf (checkInterval tableSize payloadSize table) (List.range count)
  failIf (intervalsApart (tableSize + 4) (intervals.mergeSort intervalBefore) = false) .corrupt
    "CompressionResourceBlocksOverlap"
  .ok (base, table, reads)

/-- Where block `i` stands, by the block table. -/
def locateByTable (base : ℕ) (table : Bytes) (i : ℕ) : Checked (ℕ × ℕ) := do
  let start ← u32 table (i * 8) false
  let count ← u32 table (i * 8 + 4) false
  .ok (base + start, count)

/-- `DecodeResource`. -/
def decodeResource (codecs : BlockCodecs) (header : ApfsCompressionHeader)
    (resource : ResourceReader) (offset wanted : ℕ) (limits : ApfsCompressionLimits) :
    Checked Bytes := do
  let (base, table, reads) ← mappedTable header resource limits
  decodeBlocks codecs limits resource ⟨locateByTable base table, .zlib⟩ header.uncompressedSize
    offset wanted reads

/-! ## Elementary facts -/

theorem lt_blockCount_iff {size i : ℕ} : i < blockCount size ↔ i * kBlockBytes < size := by
  unfold blockCount kBlockBytes
  split_ifs <;> omega

theorem u32_of_le {bytes : Bytes} {position : ℕ} (big : Bool) (h : position + 4 ≤ bytes.length) :
    ∃ value, u32 bytes position big = .ok value :=
  ⟨_, if_pos h⟩

theorem inBounds_u32 {bytes : Bytes} {position : ℕ} (big : Bool)
    (h : position + 4 ≤ bytes.length) : InBounds (u32 bytes position big) := by
  obtain ⟨value, hvalue⟩ := u32_of_le big h
  rw [hvalue]
  exact inBounds_ok value

theorem inBounds_callReader {resource : ResourceReader} {offset count : ℕ}
    (h : within offset count resource.size = true) : InBounds (callReader resource offset count) := by
  unfold callReader
  rw [if_pos h]
  split
  · exact inBounds_fail _ _
  · split
    · exact inBounds_fail _ _
    · exact inBounds_failIf_bind fun _ => inBounds_ok _

/-- **A read of the fork stays inside the fork.** -/
theorem inBounds_forkRead (resource : ResourceReader) (remaining offset count : ℕ) :
    InBounds (forkRead resource remaining offset count) := by
  unfold forkRead
  refine inBounds_failIf_bind fun hwithin => inBounds_failIf_bind fun _ => ?_
  split_ifs
  · exact inBounds_ok _
  · exact inBounds_bind (inBounds_callReader (Bool.eq_true_of_not_eq_false hwithin)) fun _ _ =>
      inBounds_ok _

/-- What a read of the fork that succeeds went through. -/
theorem forkRead_cases {resource : ResourceReader} {remaining offset count left : ℕ} {bytes : Bytes}
    (h : forkRead resource remaining offset count = .ok (bytes, left)) :
    bytes.length = count ∧ count ≤ remaining ∧ left = remaining - count ∧
      ∀ more, count ≤ more → forkRead resource more offset count = .ok (bytes, more - count) := by
  unfold forkRead at h ⊢
  rw [failIf_bind_eq_ok_iff, failIf_bind_eq_ok_iff] at h
  obtain ⟨hwithin, hbudget, h⟩ := h
  have hcount : count ≤ remaining := not_lt.mp hbudget
  split_ifs at h with hzero
  · obtain ⟨rfl, rfl⟩ := Prod.mk.inj (Except.ok.inj h)
    refine ⟨hzero.symm, hcount, by rw [hzero, Nat.sub_zero], fun more hmore => ?_⟩
    rw [failIf_bind_eq_ok_iff, failIf_bind_eq_ok_iff, if_pos hzero, hzero, Nat.sub_zero]
    exact ⟨hzero ▸ hwithin, Nat.not_lt_zero _, rfl⟩
  · obtain ⟨read, hread, h⟩ := checked_bind_eq_ok_iff.mp h
    obtain ⟨rfl, rfl⟩ := Prod.mk.inj (Except.ok.inj h)
    refine ⟨?_, hcount, rfl, fun more hmore => ?_⟩
    · unfold callReader at hread
      rw [if_pos (Bool.eq_true_of_not_eq_false hwithin)] at hread
      split at hread
      · cases hread
      · split at hread
        · cases hread
        · rw [failIf_bind_eq_ok_iff] at hread
          obtain rfl := Except.ok.inj hread.2
          exact not_not.mp hread.1
    · rw [failIf_bind_eq_ok_iff, failIf_bind_eq_ok_iff, if_neg hzero]
      exact ⟨hwithin, not_lt.mpr hmore, checked_bind_eq_ok_iff.mpr ⟨_, hread, rfl⟩⟩

theorem inBounds_eachOf {α : Type} {f : ℕ → Checked α} {indices : List ℕ}
    (h : ∀ i ∈ indices, InBounds (f i)) : InBounds (eachOf f indices) := by
  induction indices with
  | nil => exact inBounds_ok _
  | cons i rest ih =>
    obtain ⟨hfirst, hrest⟩ := List.forall_mem_cons.mp h
    exact inBounds_bind hfirst fun _ _ => inBounds_bind (ih hrest) fun _ _ => inBounds_ok _

/-! ## The loop over the blocks stays in bounds -/

section Loop

variable {codecs : BlockCodecs} {limits : ApfsCompressionLimits} {resource : ResourceReader}
  {table : BlockTable} {size offset wanted : ℕ}

/-- The blocks of a range: each of them meets it, and the range lies in the file. -/
structure Meets (size offset wanted i : ℕ) : Prop where
  fits : offset + wanted ≤ size
  starts : i * kBlockBytes < offset + wanted
  ends : offset < (i + 1) * kBlockBytes

theorem meets_of_mem {i : ℕ} (hfits : offset + wanted ≤ size) (hwanted : wanted ≠ 0)
    (h : i ∈ List.range' (offset / kBlockBytes)
      ((offset + wanted - 1) / kBlockBytes + 1 - offset / kBlockBytes)) :
    Meets size offset wanted i := by
  rw [List.mem_range'_1] at h
  unfold kBlockBytes at h
  refine ⟨hfits, ?_, ?_⟩ <;> unfold kBlockBytes <;> omega

theorem Meets.lt_blockCount {i : ℕ} (h : Meets size offset wanted i) : i < blockCount size :=
  lt_blockCount_iff.mpr (h.starts.trans_le h.fits)

/-- Where the part of block `i` that lies in the range begins. -/
def copyStart (offset i : ℕ) : ℕ := max offset (i * kBlockBytes)

/-- Where it ends. -/
def copyStop (size offset wanted i : ℕ) : ℕ :=
  min (offset + wanted) (i * kBlockBytes + expectedSize size i)

/-- **A copy stays inside the block and inside the result.** -/
theorem copyBlock_eq {i : ℕ} {decoded result : Bytes} (h : Meets size offset wanted i)
    (hdecoded : decoded.length = expectedSize size i) (hresult : result.length = wanted) :
    copyBlock size offset wanted i decoded result =
      .ok (splice result (copyStart offset i - offset)
        (slice decoded (copyStart offset i - i * kBlockBytes)
          (copyStop size offset wanted i - copyStart offset i))) := by
  obtain ⟨hfits, hstarts, hends⟩ := h
  have hexpected : expectedSize size i = min kBlockBytes (size - i * kBlockBytes) := rfl
  unfold copyBlock
  dsimp only
  have hbounds : max offset (i * kBlockBytes) ≤
        min (offset + wanted) (i * kBlockBytes + expectedSize size i) ∧
      min (offset + wanted) (i * kBlockBytes + expectedSize size i) - i * kBlockBytes ≤
        decoded.length ∧
      min (offset + wanted) (i * kBlockBytes + expectedSize size i) - offset ≤ result.length := by
    rw [hdecoded, hresult, hexpected]
    unfold kBlockBytes at hstarts hends ⊢
    omega
  rw [if_pos hbounds]
  rfl

/-- The length of the result does not change. -/
theorem length_copyBlock {i : ℕ} {decoded result after : Bytes} (h : Meets size offset wanted i)
    (hdecoded : decoded.length = expectedSize size i) (hresult : result.length = wanted)
    (hcopy : copyBlock size offset wanted i decoded result = .ok after) : after.length = wanted := by
  rw [copyBlock_eq h hdecoded hresult] at hcopy
  obtain rfl := Except.ok.inj hcopy
  have hlength := length_slice_le decoded (copyStart offset i - i * kBlockBytes)
    (copyStop size offset wanted i - copyStart offset i)
  rw [length_splice, hresult]
  obtain ⟨hfits, hstarts, hends⟩ := h
  have hstop : copyStop size offset wanted i ≤ offset + wanted := min_le_left _ _
  have hstart : copyStart offset i ≤ offset + wanted := by
    unfold copyStart
    omega
  have hge : offset ≤ copyStart offset i := le_max_left _ _
  omega

theorem fetchBlock_cases {i : ℕ} {budgets left : Budgets} {decoded : Bytes}
    (h : fetchBlock codecs limits resource table size i budgets = .ok (decoded, left)) :
    ∃ start count encoded, table.locate i = .ok (start, count) ∧
      forkRead resource budgets.reads start count = .ok (encoded, left.reads) ∧
      table.coding.decode codecs limits encoded (expectedSize size i) budgets.work =
        .ok (decoded, left.work) := by
  unfold fetchBlock at h
  obtain ⟨⟨start, count⟩, hlocate, h⟩ := checked_bind_eq_ok_iff.mp h
  obtain ⟨⟨encoded, reads⟩, hread, h⟩ := checked_bind_eq_ok_iff.mp h
  obtain ⟨⟨bytes, work⟩, hdecode, h⟩ := checked_bind_eq_ok_iff.mp h
  obtain ⟨rfl, rfl⟩ := Prod.mk.inj (Except.ok.inj h)
  exact ⟨start, count, encoded, hlocate, hread, hdecode⟩

theorem length_of_fetchBlock {i : ℕ} {budgets left : Budgets} {decoded : Bytes}
    (h : fetchBlock codecs limits resource table size i budgets = .ok (decoded, left)) :
    decoded.length = expectedSize size i := by
  obtain ⟨_, _, _, _, _, hdecode⟩ := fetchBlock_cases h
  exact Coding.length_of_decode hdecode

/-- **The loop stays in bounds** where every block it visits can be located. -/
theorem inBounds_decodeLoop {indices : List ℕ} {budgets : Budgets} {result : Bytes}
    (hlocate : ∀ i ∈ indices, InBounds (table.locate i))
    (hmeets : ∀ i ∈ indices, Meets size offset wanted i) (hresult : result.length = wanted) :
    InBounds (decodeLoop codecs limits resource table size offset wanted indices budgets result) := by
  induction indices generalizing budgets result with
  | nil => exact inBounds_ok _
  | cons i rest ih =>
    obtain ⟨hfirst, hothers⟩ := List.forall_mem_cons.mp hlocate
    obtain ⟨hmeet, hmeets⟩ := List.forall_mem_cons.mp hmeets
    have hfetch : InBounds (fetchBlock codecs limits resource table size i budgets) :=
      inBounds_bind hfirst fun _ _ => inBounds_bind (inBounds_forkRead _ _ _ _) fun _ _ =>
        inBounds_bind (Coding.inBounds_decode _ _ _ _ _ _) fun _ _ => inBounds_ok _
    refine inBounds_bind hfetch fun ⟨decoded, left⟩ hdecoded => ?_
    have hlength := length_of_fetchBlock hdecoded
    refine inBounds_bind ?_ fun after hafter => ?_
    · rw [copyBlock_eq hmeet hlength hresult]
      exact inBounds_ok _
    · exact ih hothers hmeets (length_copyBlock hmeet hlength hresult hafter)

theorem inBounds_decodeBlocks {reads : ℕ} (hpart : wanted ≠ 0 → offset + wanted ≤ size)
    (hlocate : ∀ i < blockCount size, InBounds (table.locate i)) :
    InBounds (decodeBlocks codecs limits resource table size offset wanted reads) := by
  unfold decodeBlocks
  split_ifs with hwanted
  · exact inBounds_ok _
  · refine inBounds_failIf_bind fun _ => inBounds_decodeLoop (fun i hi => ?_) (fun i hi => ?_)
      List.length_replicate
    · exact hlocate i (meets_of_mem (hpart hwanted) hwanted hi).lt_blockCount
    · exact meets_of_mem (hpart hwanted) hwanted hi

end Loop

/-! ## The tables stay in bounds -/

section Tables

variable {header : ApfsCompressionHeader} {resource : ResourceReader}
  {limits : ApfsCompressionLimits}

/-- A validated offset table has its full length. -/
theorem length_of_offsetTable {table : Bytes} {reads : ℕ}
    (h : offsetTable header resource limits = .ok (table, reads)) :
    table.length = (blockCount header.uncompressedSize + 1) * 4 := by
  unfold offsetTable at h
  rw [failIf_bind_eq_ok_iff] at h
  replace h := h.2
  dsimp only at h
  rw [failIf_bind_eq_ok_iff, failIf_bind_eq_ok_iff] at h
  obtain ⟨⟨bytes, left⟩, hread, h⟩ := checked_bind_eq_ok_iff.mp h.2.2
  obtain ⟨head, -, h⟩ := checked_bind_eq_ok_iff.mp h
  obtain ⟨last, -, h⟩ := checked_bind_eq_ok_iff.mp h
  rw [failIf_bind_eq_ok_iff] at h
  obtain ⟨checks, -, h⟩ := checked_bind_eq_ok_iff.mp h.2
  obtain ⟨rfl, -⟩ := Prod.mk.inj (Except.ok.inj h)
  exact (forkRead_cases hread).1

/-- A validated block table has its full length. -/
theorem length_of_mappedTable {base reads : ℕ} {table : Bytes}
    (h : mappedTable header resource limits = .ok (base, table, reads)) :
    table.length = blockCount header.uncompressedSize * 8 := by
  unfold mappedTable at h
  rw [failIf_bind_eq_ok_iff] at h
  obtain ⟨⟨outer, left⟩, -, h⟩ := checked_bind_eq_ok_iff.mp h.2
  obtain ⟨dataOffset, -, h⟩ := checked_bind_eq_ok_iff.mp h
  obtain ⟨mapOffset, -, h⟩ := checked_bind_eq_ok_iff.mp h
  obtain ⟨dataSize, -, h⟩ := checked_bind_eq_ok_iff.mp h
  obtain ⟨mapSize, -, h⟩ := checked_bind_eq_ok_iff.mp h
  rw [failIf_bind_eq_ok_iff] at h
  obtain ⟨⟨lead, left'⟩, -, h⟩ := checked_bind_eq_ok_iff.mp h.2
  obtain ⟨payloadSize, -, h⟩ := checked_bind_eq_ok_iff.mp h
  obtain ⟨count, -, h⟩ := checked_bind_eq_ok_iff.mp h
  dsimp only at h
  rw [failIf_bind_eq_ok_iff, failIf_bind_eq_ok_iff] at h
  obtain ⟨hcount, -, h⟩ := h
  obtain ⟨⟨bytes, left''⟩, hread, h⟩ := checked_bind_eq_ok_iff.mp h
  obtain ⟨intervals, -, h⟩ := checked_bind_eq_ok_iff.mp h
  rw [failIf_bind_eq_ok_iff] at h
  obtain ⟨-, rfl, -⟩ : _ ∧ bytes = table ∧ _ := by
    simpa only [Except.ok.injEq, Prod.mk.injEq] using h.2
  have hblocks : count = blockCount header.uncompressedSize := by
    by_contra hne
    exact hcount (Or.inr (Or.inl hne))
  rw [← hblocks]
  exact (forkRead_cases hread).1

theorem inBounds_offsetTable : InBounds (offsetTable header resource limits) := by
  unfold offsetTable
  refine inBounds_failIf_bind fun _ => ?_
  dsimp only
  refine inBounds_failIf_bind fun _ => inBounds_failIf_bind fun _ => ?_
  refine inBounds_bind (inBounds_forkRead _ _ _ _) fun ⟨table, reads⟩ hread => ?_
  have hlength := (forkRead_cases hread).1
  dsimp only
  refine inBounds_bind (inBounds_u32 _ (by omega)) fun _ _ => ?_
  refine inBounds_bind (inBounds_u32 _ (by omega)) fun _ _ => inBounds_failIf_bind fun _ => ?_
  refine inBounds_bind (inBounds_eachOf fun i hi => ?_) fun _ _ => inBounds_ok _
  have hlt := List.mem_range.mp hi
  unfold checkOffset
  refine inBounds_bind (inBounds_u32 _ (by omega)) fun _ _ => ?_
  refine inBounds_bind (inBounds_u32 _ (by omega)) fun _ _ => ?_
  refine inBounds_failIf_bind fun _ => ?_
  dsimp only
  refine inBounds_failIf_bind fun _ => inBounds_failIf_bind fun _ => ?_
  unfold failIf
  split_ifs
  · exact inBounds_fail _ _
  · exact inBounds_ok _

theorem inBounds_mappedTable : InBounds (mappedTable header resource limits) := by
  unfold mappedTable
  refine inBounds_failIf_bind fun _ => ?_
  refine inBounds_bind (inBounds_forkRead _ _ _ _) fun ⟨outer, reads⟩ houter => ?_
  have hlength := (forkRead_cases houter).1
  refine inBounds_bind (inBounds_u32 _ (by omega)) fun _ _ => ?_
  refine inBounds_bind (inBounds_u32 _ (by omega)) fun _ _ => ?_
  refine inBounds_bind (inBounds_u32 _ (by omega)) fun _ _ => ?_
  refine inBounds_bind (inBounds_u32 _ (by omega)) fun _ _ => inBounds_failIf_bind fun _ => ?_
  refine inBounds_bind (inBounds_forkRead _ _ _ _) fun ⟨lead, reads'⟩ hlead => ?_
  have hleadLength := (forkRead_cases hlead).1
  refine inBounds_bind (inBounds_u32 _ (by omega)) fun _ _ => ?_
  refine inBounds_bind (inBounds_u32 _ (by omega)) fun count _ => ?_
  dsimp only
  refine inBounds_failIf_bind fun _ => inBounds_failIf_bind fun _ => ?_
  refine inBounds_bind (inBounds_forkRead _ _ _ _) fun ⟨table, reads''⟩ htable => ?_
  have htableLength := (forkRead_cases htable).1
  dsimp only
  refine inBounds_bind (inBounds_eachOf fun i hi => ?_) fun _ _ =>
    inBounds_failIf_bind fun _ => inBounds_ok _
  have hlt := List.mem_range.mp hi
  unfold checkInterval
  refine inBounds_bind (inBounds_u32 _ (by omega)) fun _ _ => ?_
  exact inBounds_bind (inBounds_u32 _ (by omega)) fun _ _ => inBounds_failIf_bind fun _ =>
    inBounds_ok _

/-- **Whatever an offset fork holds, nothing is accessed out of bounds.** -/
theorem inBounds_decodeOffsetResource (codecs : BlockCodecs) {offset wanted : ℕ}
    (hpart : wanted ≠ 0 → offset + wanted ≤ header.uncompressedSize) :
    InBounds (decodeOffsetResource codecs header resource offset wanted limits) := by
  refine inBounds_bind inBounds_offsetTable fun ⟨table, reads⟩ htable => ?_
  have hlength := length_of_offsetTable htable
  refine inBounds_decodeBlocks hpart fun i hi => ?_
  exact inBounds_bind (inBounds_u32 _ (by omega)) fun _ _ =>
    inBounds_bind (inBounds_u32 _ (by omega)) fun _ _ => inBounds_ok _

/-- **Whatever a mapped fork holds, nothing is accessed out of bounds.** -/
theorem inBounds_decodeResource (codecs : BlockCodecs) {offset wanted : ℕ}
    (hpart : wanted ≠ 0 → offset + wanted ≤ header.uncompressedSize) :
    InBounds (decodeResource codecs header resource offset wanted limits) := by
  refine inBounds_bind inBounds_mappedTable fun ⟨base, table, reads⟩ htable => ?_
  have hlength := length_of_mappedTable htable
  refine inBounds_decodeBlocks hpart fun i hi => ?_
  exact inBounds_bind (inBounds_u32 _ (by omega)) fun _ _ =>
    inBounds_bind (inBounds_u32 _ (by omega)) fun _ _ => inBounds_ok _

end Tables

end Compression
end ApfsAccess
