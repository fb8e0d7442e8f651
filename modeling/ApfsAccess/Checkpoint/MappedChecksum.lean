import ApfsAccess.Checkpoint.Loader

/-!
# The two checksums of an object

The writer closes an object with `Fletcher64`, whose two sums are 64 bits wide and are
reduced once, at the end.  The loader folds the same words out of the blocks of the
data ring and reduces both sums modulo `2 ^ 32 - 1` at every word.

Both are the running sums of the object's words.  The unreduced first sum fits in 64
bits for every object a checkpoint map can name, but the second grows with the square
of the number of words; once the two together reach `2 ^ 64` the writer loses a
multiple of `2 ^ 64`, which is one modulo `2 ^ 32 - 1`.  So the two checksums agree on
an object exactly when its weighted sum stays below `2 ^ 64`
(`checksums_agree_iff_weightedSum_lt`), and an object of 92 pages of set bits does not.
-/

namespace ApfsAccess
namespace Checkpoint

open ByteBuffer Format RunningSums

/-! ## The words of a buffer -/

/-- A buffer that does not start with four bytes is shorter than that. -/
theorem length_lt_of_not_four {data : Bytes}
    (h : ∀ b0 b1 b2 b3 rest, data = b0 :: b1 :: b2 :: b3 :: rest → False) : data.length < 4 := by
  match data with
  | [] => simp
  | [_] => simp
  | [_, _] => simp
  | [_, _, _] => simp
  | b0 :: b1 :: b2 :: b3 :: rest => exact absurd rfl (h b0 b1 b2 b3 rest)

theorem littleEndianWords_append {front back : Bytes} (h : front.length % 4 = 0) :
    littleEndianWords (front ++ back) = littleEndianWords front ++ littleEndianWords back := by
  induction front using littleEndianWords.induct with
  | case1 b0 b1 b2 b3 rest ih =>
    have hrest : rest.length % 4 = 0 := by
      simp only [List.length_cons] at h
      omega
    simp only [List.cons_append, littleEndianWords, ih hrest]
  | case2 front hshort =>
    have hlt := length_lt_of_not_four hshort
    obtain rfl := List.length_eq_zero_iff.mp (show front.length = 0 by omega)
    rfl

theorem length_littleEndianWords (data : Bytes) :
    (littleEndianWords data).length = data.length / 4 := by
  induction data using littleEndianWords.induct with
  | case1 b0 b1 b2 b3 rest ih =>
    simp only [littleEndianWords, List.length_cons, ih]
    omega
  | case2 data hshort =>
    have hlt := length_lt_of_not_four hshort
    rw [littleEndianWords, List.length_nil]
    · omega
    · exact hshort

/-- A word is four bytes wide. -/
theorem le_fletcherModulus_of_mem_littleEndianWords {data : Bytes} {word : ℕ}
    (h : word ∈ littleEndianWords data) : word ≤ fletcherModulus := by
  induction data using littleEndianWords.induct with
  | case1 b0 b1 b2 b3 rest ih =>
    rw [littleEndianWords, List.mem_cons] at h
    rcases h with rfl | h
    · have hlt := leValue_lt [b0, b1, b2, b3]
      simp only [List.length_cons, List.length_nil] at hlt
      simp only [fletcherModulus]
      omega
    · exact ih h
  | case2 data hshort =>
    rw [littleEndianWords] at h
    · cases h
    · exact hshort

theorem getElem?_littleEndianWords (data : Bytes) (index : ℕ) (h : 4 * index + 4 ≤ data.length) :
    (littleEndianWords data)[index]? = some (leValue (slice data (4 * index) 4)) := by
  induction data using littleEndianWords.induct generalizing index with
  | case1 b0 b1 b2 b3 rest ih =>
    cases index with
    | zero => rfl
    | succ index =>
      simp only [List.length_cons] at h
      rw [littleEndianWords, List.getElem?_cons_succ, ih index (by omega)]
      rfl
  | case2 data hshort =>
    have hlt := length_lt_of_not_four hshort
    omega

/-- The loop's words of a whole number of words are the words of the buffer. -/
theorem wordsFrom_eq {block : Bytes} {start : ℕ} (hstart : start ≤ block.length)
    (h : (block.length - start) % 4 = 0) :
    wordsFrom block start = littleEndianWords (block.drop start) := by
  apply List.ext_getElem?
  intro index
  rw [wordsFrom, List.getElem?_map]
  by_cases hindex : 4 * index + 4 ≤ block.length - start
  · rw [getElem?_littleEndianWords _ _ (by rwa [List.length_drop]),
      List.getElem?_range (by omega), Option.map_some]
    have hslice : slice (block.drop start) (4 * index) 4 = slice block (start + 4 * index) 4 := by
      unfold slice
      rw [List.drop_drop]
    rw [u32At, readU32LE, readLE, if_pos (by omega), hslice, Option.getD_some]
  · have hlength := length_littleEndianWords (block.drop start)
    rw [List.length_drop] at hlength
    rw [List.getElem?_eq_none (by rw [List.length_range]; omega),
      List.getElem?_eq_none (by omega)]
    rfl

/-! ## The two values, over the same running sums -/

/-- `Fletcher64` steps with both sums kept to 64 bits. -/
theorem fletcherStep_eq : fletcherStep = reducedStep (2 ^ 64) := rfl

/-- A checksum from the sum of the words and its low half. -/
def checksumValue (sum low : ℕ) : ℕ :=
  (fletcherModulus - (sum + low) % fletcherModulus) * 2 ^ 32 + low

/-- `Fletcher64`, with its low half written over the weighted sum. -/
theorem fletcher64_eq {data : Bytes} (hpos : data.length ≠ 0) (hwords : data.length % 4 = 0)
    (hsum : (littleEndianWords data).sum < 2 ^ 63) :
    fletcher64 data = some (checksumValue (littleEndianWords data).sum
      (fletcherModulus - weightedSum (littleEndianWords data) % 2 ^ 64 % fletcherModulus)) := by
  have hfold := foldl_reducedStep_zero (2 ^ 64) (littleEndianWords data)
  have hfirst : (runningSums (littleEndianWords data)).1 % 2 ^ 64 =
      (littleEndianWords data).sum := by
    rw [runningSums_fst]
    exact Nat.mod_eq_of_lt (by omega)
  have hboth : ((littleEndianWords data).sum +
      (runningSums (littleEndianWords data)).2 % 2 ^ 64) % 2 ^ 64 =
        weightedSum (littleEndianWords data) % 2 ^ 64 := by
    rw [Nat.add_mod_mod, ← runningSums_fst, runningSums_add]
  -- the low half is at most the modulus, so adding it to the first sum does not wrap either
  have hwrap : ((littleEndianWords data).sum + (fletcherModulus -
      weightedSum (littleEndianWords data) % 2 ^ 64 % fletcherModulus)) % 2 ^ 64 =
        (littleEndianWords data).sum + (fletcherModulus -
          weightedSum (littleEndianWords data) % 2 ^ 64 % fletcherModulus) := by
    refine Nat.mod_eq_of_lt ?_
    simp only [fletcherModulus]
    omega
  rw [fletcher64, if_neg (by omega), fletcherStep_eq, hfold, hfirst]
  simp only [hboth, hwrap]
  rfl

/-- The loader's value, with its low half written over the weighted sum. -/
theorem foldedChecksum_eq (words : List ℕ) :
    foldedChecksum (words.foldl (reducedStep fletcherModulus) (0, 0)) =
      checksumValue words.sum (fletcherModulus - weightedSum words % fletcherModulus) := by
  have hboth : ((runningSums words).1 % fletcherModulus +
      (runningSums words).2 % fletcherModulus) % fletcherModulus =
        weightedSum words % fletcherModulus := by
    rw [← Nat.add_mod, runningSums_add]
  have hfirst : ∀ low, ((runningSums words).1 % fletcherModulus + low) % fletcherModulus =
      (words.sum + low) % fletcherModulus := by
    intro low
    rw [Nat.mod_add_mod, runningSums_fst]
  rw [foldl_reducedStep_zero, foldedChecksum, checksumValue]
  simp only [hboth, hfirst]

/-- `2 ^ 64` is one modulo `2 ^ 32 - 1`, so what a 64-bit sum loses is its own quotient. -/
theorem mod_mod_fletcherModulus_eq_iff {value : ℕ} (h : value < 2 ^ 64 * fletcherModulus) :
    value % 2 ^ 64 % fletcherModulus = value % fletcherModulus ↔ value < 2 ^ 64 := by
  have hquotient : value / 2 ^ 64 < fletcherModulus :=
    Nat.div_lt_of_lt_mul h
  have hvalue := Nat.div_add_mod value (2 ^ 64)
  constructor
  · intro heq
    simp only [fletcherModulus] at heq hquotient
    omega
  · intro hlt
    rw [Nat.mod_eq_of_lt hlt]

/-- The low half of a checksum is read back from it. -/
theorem low_eq_of_checksumValue_eq {sum low low' : ℕ} (h : low < 2 ^ 32) (h' : low' < 2 ^ 32)
    (heq : checksumValue sum low = checksumValue sum low') : low = low' := by
  unfold checksumValue at heq
  omega

/-- **The two values of a list of words agree exactly below `2 ^ 64`.** -/
theorem fletcher64_eq_foldedChecksum_iff (data : Bytes) (hpos : data.length ≠ 0)
    (hwords : data.length % 4 = 0) (hlength : data.length < 2 ^ 32) :
    fletcher64 data = some (foldedChecksum
        ((littleEndianWords data).foldl (reducedStep fletcherModulus) (0, 0))) ↔
      weightedSum (littleEndianWords data) < 2 ^ 64 := by
  have hcount : (littleEndianWords data).length < 2 ^ 30 := by
    rw [length_littleEndianWords]
    omega
  have hbound : ∀ word ∈ littleEndianWords data, word ≤ fletcherModulus :=
    fun word hword => le_fletcherModulus_of_mem_littleEndianWords hword
  have hsum : (littleEndianWords data).sum < 2 ^ 63 := by
    have hle := List.sum_le_card_nsmul _ _ hbound
    simp only [smul_eq_mul, fletcherModulus] at hle
    have : (littleEndianWords data).length * 4294967295 ≤ 2 ^ 30 * 4294967295 :=
      Nat.mul_le_mul_right _ hcount.le
    omega
  have hweight : weightedSum (littleEndianWords data) < 2 ^ 64 * fletcherModulus := by
    have hsquare : (littleEndianWords data).length * ((littleEndianWords data).length + 1) ≤
        2 ^ 30 * 2 ^ 30 := Nat.mul_le_mul hcount.le hcount
    calc weightedSum (littleEndianWords data)
        ≤ fletcherModulus * (2 ^ 30 * 2 ^ 30) :=
          (weightedSum_le hbound).trans (Nat.mul_le_mul_left _ hsquare)
      _ < 2 ^ 64 * fletcherModulus := by decide
  rw [fletcher64_eq hpos hwords hsum, foldedChecksum_eq, ← mod_mod_fletcherModulus_eq_iff hweight]
  constructor
  · intro heq
    have hlows := low_eq_of_checksumValue_eq
      (by simp only [fletcherModulus]; omega) (by simp only [fletcherModulus]; omega)
      (Option.some.inj heq)
    have hleft : weightedSum (littleEndianWords data) % 2 ^ 64 % fletcherModulus <
        fletcherModulus := Nat.mod_lt _ (by decide)
    have hright : weightedSum (littleEndianWords data) % fletcherModulus <
        fletcherModulus := Nat.mod_lt _ (by decide)
    omega
  · intro heq
    rw [heq]

/-! ## An object in the data ring -/

/-- An object that stands in the data ring where a checkpoint map names it, and that the
loader admits but for its checksum: its size is one `ParseCheckpointMapBlock` and
`ValidateMappedObject` let through, and its header is the one the map promises. -/
structure MappedObject (source : RandomAccessSource) (storeOffset storeSizeBytes : ℕ)
    (superblock : NxSuperblock) (mapping : CheckpointMapping) (object : Bytes) : Prop where
  blockSize : blockSizeAdmitted superblock.blockSize = true
  size_lt : mapping.sizeBytes < 2 ^ 32
  size_ne : mapping.sizeBytes ≠ 0
  length_eq : object.length = mapping.sizeBytes
  aligned : mapping.sizeBytes % superblock.blockSize = 0
  blocks_le : mapping.sizeBytes / superblock.blockSize ≤ superblock.xpDataBlockCount
  base_le : superblock.xpDataBaseBlock ≤ mapping.physicalBlock
  relative_lt : mapping.physicalBlock - superblock.xpDataBaseBlock < superblock.xpDataBlockCount
  ring : ringContainsRange superblock.xpDataIndex superblock.xpDataLen
    superblock.xpDataBlockCount (mapping.physicalBlock - superblock.xpDataBaseBlock)
    (mapping.sizeBytes / superblock.blockSize) = true
  store_lt : storeOffset + storeSizeBytes < 2 ^ 64
  within : mapping.physicalBlock * superblock.blockSize + superblock.blockSize ≤ storeSizeBytes
  headed : mapping.type &&& objectNoHeader = 0
  header : source.read (storeOffset + mapping.physicalBlock * superblock.blockSize) 32 =
    some (slice object 0 32)
  identity : u64At object 0x08 = mapping.objectId ∧ u64At object 0x10 = superblock.xid ∧
    u32At object 0x18 = mapping.type ∧ u32At object 0x1C = mapping.subtype
  blocks : ∀ ordinal < mapping.sizeBytes / superblock.blockSize,
    readDataRingBlock source storeOffset superblock
      (mapping.physicalBlock - superblock.xpDataBaseBlock) ordinal =
        some (slice object (ordinal * superblock.blockSize) superblock.blockSize)
  /-- The loader folds no value for an object whose checksum field is blank. -/
  stored : u64At object 0 ≠ 0 ∧ u64At object 0 ≠ 2 ^ 64 - 1

theorem blockSize_of_admitted {blockSize : ℕ} (h : blockSizeAdmitted blockSize = true) :
    4096 ≤ blockSize ∧ blockSize ≤ 65536 ∧ blockSize % 4 = 0 := by
  simp only [blockSizeAdmitted, Bool.and_eq_true, decide_eq_true_eq, beq_iff_eq] at h
  obtain ⟨⟨hlow, hhigh⟩, hpower⟩ := h
  refine ⟨hlow, hhigh, ?_⟩
  have hdvd := (Nat.and_sub_one_eq_zero_iff_isPowerOfTwo (by omega)).mp hpower
  obtain ⟨exponent, rfl⟩ := hdvd
  have hexponent : 2 ≤ exponent := by
    by_contra hlt
    have : 2 ^ exponent ≤ 2 ^ 1 := Nat.pow_le_pow_right (by norm_num) (by omega)
    omega
  obtain ⟨rest, rfl⟩ := Nat.exists_eq_add_of_le hexponent
  rw [pow_add]
  omega

/-- A reader inside a prefix of a buffer sees the buffer. -/
theorem readLE_slice_zero {width offset len : ℕ} {data : Bytes} (h : offset + width ≤ len)
    (hlen : len ≤ data.length) :
    readLE width (slice data 0 len) offset = readLE width data offset := by
  have hlength : (slice data 0 len).length = len := length_slice_of_le (by omega)
  unfold readLE
  rw [if_pos (by omega), if_pos (by omega), slice_slice h, Nat.zero_add]

section Loop

variable {source : RandomAccessSource} {storeOffset storeSizeBytes : ℕ}
  {superblock : NxSuperblock} {mapping : CheckpointMapping} {object : Bytes}

/-- **What the loop has folded after its first blocks.** -/
theorem MappedObject.foldlM_range
    (h : MappedObject source storeOffset storeSizeBytes superblock mapping object)
    (count : ℕ) (hcount : count + 1 ≤ mapping.sizeBytes / superblock.blockSize) :
    (List.range (count + 1)).foldlM (mappedChecksumStep source storeOffset superblock
        (mapping.physicalBlock - superblock.xpDataBaseBlock)) ⟨0, (0, 0)⟩ =
      some ⟨u64At object 0,
        (littleEndianWords (slice object 8 ((count + 1) * superblock.blockSize - 8))).foldl
          (reducedStep fletcherModulus) (0, 0)⟩ := by
  obtain ⟨hlow, -, hfour⟩ := blockSize_of_admitted h.blockSize
  have hinside : ∀ ordinal, ordinal < mapping.sizeBytes / superblock.blockSize →
      ordinal * superblock.blockSize + superblock.blockSize ≤ object.length := by
    intro ordinal hordinal
    rw [h.length_eq, ← Nat.succ_mul]
    exact (Nat.mul_le_mul_right _ hordinal).trans (Nat.div_mul_le_self _ _)
  induction count with
  | zero =>
    have hblock := h.blocks 0 (by omega)
    have hlength := length_slice_of_le (hinside 0 (by omega))
    rw [Nat.zero_mul] at hblock hlength
    have hstored : u64At (slice object 0 superblock.blockSize) 0 = u64At object 0 := by
      have hle := hinside 0 (by omega)
      rw [u64At, u64At, readU64LE, readU64LE, readLE_slice_zero (by omega) (by omega)]
    have hwords : wordsFrom (slice object 0 superblock.blockSize) 8 =
        littleEndianWords (slice object 8 (superblock.blockSize - 8)) := by
      rw [wordsFrom_eq (by omega) (by omega), slice, slice, List.drop_zero, List.drop_take]
    have hstep : mappedChecksumStep source storeOffset superblock
        (mapping.physicalBlock - superblock.xpDataBaseBlock) ⟨0, (0, 0)⟩ 0 =
          some ⟨u64At object 0, (littleEndianWords (slice object 8 (superblock.blockSize - 8))).foldl
            (reducedStep fletcherModulus) (0, 0)⟩ := by
      rw [mappedChecksumStep, hblock, Option.bind_some, if_pos rfl, hstored, hwords,
        if_neg (not_or.mpr h.stored)]
    rw [Nat.zero_add, Nat.one_mul]
    show (mappedChecksumStep source storeOffset superblock
        (mapping.physicalBlock - superblock.xpDataBaseBlock) ⟨0, (0, 0)⟩ 0).bind
          (fun state => some state) = _
    rw [hstep, Option.bind_some]
  | succ count ih =>
    have hblock := h.blocks (count + 1) (by omega)
    have hlength := length_slice_of_le (hinside (count + 1) (by omega))
    have hwords : wordsFrom (slice object ((count + 1) * superblock.blockSize)
        superblock.blockSize) 0 = littleEndianWords (slice object
          ((count + 1) * superblock.blockSize) superblock.blockSize) := by
      rw [wordsFrom_eq (by omega) (by omega), List.drop_zero]
    -- the blocks read so far and the next one are one slice of the object
    have hjoin : slice object 8 ((count + 1 + 1) * superblock.blockSize - 8) =
        slice object 8 ((count + 1) * superblock.blockSize - 8) ++
          slice object ((count + 1) * superblock.blockSize) superblock.blockSize := by
      have hmul : superblock.blockSize ≤ (count + 1) * superblock.blockSize :=
        Nat.le_mul_of_pos_left _ (by omega)
      have hnext : (count + 1 + 1) * superblock.blockSize =
          (count + 1) * superblock.blockSize + superblock.blockSize := Nat.succ_mul _ _
      have happend := slice_append_slice object 8 ((count + 1) * superblock.blockSize - 8)
        superblock.blockSize
      rw [show 8 + ((count + 1) * superblock.blockSize - 8) =
        (count + 1) * superblock.blockSize by omega] at happend
      rw [happend, hnext]
      congr 1
      omega
    have hfront : (slice object 8 ((count + 1) * superblock.blockSize - 8)).length % 4 = 0 := by
      have hmul : superblock.blockSize ≤ (count + 1) * superblock.blockSize :=
        Nat.le_mul_of_pos_left _ (by omega)
      have hend := hinside count (by omega)
      rw [← Nat.succ_mul] at hend
      rw [length_slice_of_le (by simp only [Nat.succ_eq_add_one] at hend; omega)]
      have : (count + 1) * superblock.blockSize % 4 = 0 := by
        rw [Nat.mul_mod, hfour, Nat.mul_zero, Nat.zero_mod]
      omega
    rw [List.range_succ, List.foldlM_append, ih (by omega), hjoin,
      littleEndianWords_append hfront, List.foldl_append]
    show (mappedChecksumStep source storeOffset superblock
        (mapping.physicalBlock - superblock.xpDataBaseBlock) _ (count + 1)).bind
          (fun state => some state) = _
    rw [mappedChecksumStep, hblock, Option.bind_some, if_neg (by omega), hwords]
    rfl

/-- The loop over a whole object folds all its words behind the checksum field. -/
theorem MappedObject.mappedChecksumLoop_eq
    (h : MappedObject source storeOffset storeSizeBytes superblock mapping object) :
    mappedChecksumLoop source storeOffset superblock
        (mapping.physicalBlock - superblock.xpDataBaseBlock)
        (mapping.sizeBytes / superblock.blockSize) =
      some ⟨u64At object 0, (littleEndianWords (slice object 8 (object.length - 8))).foldl
        (reducedStep fletcherModulus) (0, 0)⟩ := by
  have hpos : 0 < mapping.sizeBytes / superblock.blockSize := by
    have hmod := Nat.div_add_mod mapping.sizeBytes superblock.blockSize
    rw [h.aligned, Nat.add_zero] at hmod
    by_contra hzero
    rw [Nat.eq_zero_of_not_pos hzero, Nat.mul_zero] at hmod
    exact h.size_ne hmod.symm
  have hlast := h.foldlM_range (mapping.sizeBytes / superblock.blockSize - 1) (by omega)
  rw [Nat.sub_add_cancel hpos, Nat.div_mul_cancel (Nat.dvd_of_mod_eq_zero h.aligned),
    ← h.length_eq] at hlast
  rw [mappedChecksumLoop, ← h.length_eq, hlast]

/-- The loader's answer on such an object is the answer of the checksum alone. -/
theorem MappedObject.validateMappedObject_eq
    (h : MappedObject source storeOffset storeSizeBytes superblock mapping object) :
    validateMappedObject source storeOffset storeSizeBytes superblock mapping =
      (foldedChecksum ((littleEndianWords (slice object 8 (object.length - 8))).foldl
        (reducedStep fletcherModulus) (0, 0)) == u64At object 0) := by
  obtain ⟨hlow, -, -⟩ := blockSize_of_admitted h.blockSize
  have hcount := h.relative_lt
  have hblocks : mapping.sizeBytes / superblock.blockSize ≠ 0 := by
    have hmod := Nat.div_add_mod mapping.sizeBytes superblock.blockSize
    intro hzero
    rw [h.aligned, hzero] at hmod
    exact h.size_ne (by omega)
  have hsize : 4096 ≤ object.length := by
    rw [h.length_eq]
    exact hlow.trans (Nat.le_of_dvd (Nat.pos_of_ne_zero h.size_ne)
      (Nat.dvd_of_mod_eq_zero h.aligned))
  have hstore := h.store_lt
  have hwithin := h.within
  have hoffset : tryBlockOffset storeOffset mapping.physicalBlock superblock.blockSize =
      some (storeOffset + mapping.physicalBlock * superblock.blockSize) := by
    unfold tryBlockOffset
    refine if_neg (not_or.mpr ⟨by omega, not_lt.mpr ?_⟩)
    rw [Nat.le_div_iff_mul_le (by omega)]
    omega
  have hremaining : superblock.blockSize ≤ (storeSizeBytes + 2 ^ 64 - (storeOffset +
      mapping.physicalBlock * superblock.blockSize - storeOffset)) % 2 ^ 64 := by
    rw [Nat.add_sub_cancel_left]
    omega
  have hfield64 : ∀ offset, offset + 8 ≤ 32 → u64At (slice object 0 32) offset =
      u64At object offset := by
    intro offset hle
    rw [u64At, u64At, readU64LE, readU64LE, readLE_slice_zero hle (by omega)]
  have hfield32 : ∀ offset, offset + 4 ≤ 32 → u32At (slice object 0 32) offset =
      u32At object offset := by
    intro offset hle
    rw [u32At, u32At, readU32LE, readU32LE, readLE_slice_zero hle (by omega)]
  obtain ⟨hoid, hxid, htype, hsubtype⟩ := h.identity
  have hheader : ¬(u64At (slice object 0 32) 0x08 ≠ mapping.objectId ∨
      u64At (slice object 0 32) 0x10 ≠ superblock.xid ∨
      u32At (slice object 0 32) 0x18 ≠ mapping.type ∨
      u32At (slice object 0 32) 0x1C ≠ mapping.subtype) := by
    rw [hfield64 _ (by omega), hfield64 _ (by omega), hfield32 _ (by omega),
      hfield32 _ (by omega), hoid, hxid, htype, hsubtype]
    simp
  unfold validateMappedObject
  rw [if_neg (not_or.mpr ⟨not_not.mpr h.aligned, by omega⟩)]
  simp only
  rw [if_neg (by simp only [not_or, not_lt]; exact ⟨hblocks, h.blocks_le, h.base_le⟩),
    if_neg (by simp only [not_or, not_le, h.ring]; exact ⟨hcount, by decide⟩)]
  simp only [hoffset]
  rw [if_neg (by simp only [not_or, not_lt]; exact ⟨by omega, hremaining⟩),
    if_neg (not_not.mpr h.headed)]
  simp only [h.header]
  rw [if_neg hheader, verifyMappedObjectChecksum, h.mappedChecksumLoop_eq]

end Loop

/-! ## When the two implementations agree -/

/-- The two checksum implementations agree on an object of the data ring: the value the writer
computes is the value the loader folds, and an object the writer finalized is accepted. -/
def ChecksumsAgree (source : RandomAccessSource) (storeOffset storeSizeBytes : ℕ)
    (superblock : NxSuperblock) (mapping : CheckpointMapping) (object : Bytes) : Prop :=
  fletcher64 (slice object 8 (object.length - 8)) =
      (mappedChecksumLoop source storeOffset superblock
        (mapping.physicalBlock - superblock.xpDataBaseBlock)
        (mapping.sizeBytes / superblock.blockSize)).map (fun state => foldedChecksum state.sums) ∧
    ∀ raw, finalizeAppleObjectChecksum raw = .ok object →
      validateMappedObject source storeOffset storeSizeBytes superblock mapping = true

/-- A checksum that verifies is the one stored in front. -/
theorem fletcher64_of_verifyObjectChecksum {object : Bytes}
    (h : verifyObjectChecksum object object.length = true) :
    fletcher64 (slice object 8 (object.length - 8)) = some (u64At object 0) := by
  unfold verifyObjectChecksum at h
  split at h
  · cases h
  · simp only at h
    split at h
    · cases h
    · exact beq_iff_eq.mp h

/-- **The two implementations agree on an object exactly when the weighted sum of its words
fits in 64 bits.** -/
theorem checksums_agree_iff_weightedSum_lt (source : RandomAccessSource)
    (storeOffset storeSizeBytes : ℕ) (superblock : NxSuperblock) (mapping : CheckpointMapping)
    (object : Bytes)
    (h : MappedObject source storeOffset storeSizeBytes superblock mapping object) :
    ChecksumsAgree source storeOffset storeSizeBytes superblock mapping object ↔
      weightedSum (littleEndianWords (slice object 8 (object.length - 8))) < 2 ^ 64 := by
  obtain ⟨hlow, -, hfour⟩ := blockSize_of_admitted h.blockSize
  have hsize : 4096 ≤ object.length := by
    rw [h.length_eq]
    exact hlow.trans (Nat.le_of_dvd (Nat.pos_of_ne_zero h.size_ne)
      (Nat.dvd_of_mod_eq_zero h.aligned))
  have hwords : object.length % 4 = 0 := by
    rw [h.length_eq]
    exact Nat.mod_eq_zero_of_dvd ((Nat.dvd_of_mod_eq_zero hfour).trans
      (Nat.dvd_of_mod_eq_zero h.aligned))
  have hlt : object.length < 2 ^ 32 := h.length_eq ▸ h.size_lt
  have hlength : (slice object 8 (object.length - 8)).length = object.length - 8 :=
    length_slice_of_le (by omega)
  have hvalues := fletcher64_eq_foldedChecksum_iff
    (slice object 8 (object.length - 8)) (by omega) (by omega) (by omega)
  rw [← hvalues, ChecksumsAgree, h.mappedChecksumLoop_eq, Option.map_some]
  refine and_iff_left_of_imp fun hagree raw hfinal => ?_
  obtain ⟨hraw, hverify, -⟩ := finalizeAppleObjectChecksum_spec hfinal
  rw [← hraw] at hverify
  have hvalue := fletcher64_of_verifyObjectChecksum hverify
  rw [hagree] at hvalue
  rw [h.validateMappedObject_eq, Option.some.inj hvalue]
  exact beq_self_eq_true _

/-! ## Two objects in an image -/

/-- An image is a source of its own bytes. -/
def imageSource (image : Bytes) (h : image.length < 2 ^ 64) : RandomAccessSource where
  sizeBytes := image.length
  sizeBytes_lt := h
  read offset size :=
    if offset + size ≤ image.length then some (slice image offset size) else none
  length_of_read := by
    intro offset size bytes hread
    split at hread
    · rename_i hle
      obtain rfl := Option.some.inj hread
      exact length_slice_of_le hle
    · cases hread
  le_of_read := by
    intro offset size bytes hread
    split at hread
    · assumption
    · cases hread

/-- The header of a space manager object of checkpoint 7, behind its checksum. -/
def sampleHeader : Bytes :=
  leBytes 8 1024 ++ leBytes 8 7 ++ leBytes 4 0x80000005 ++ leBytes 4 0

/-- The bytes of an object of the given number of pages behind its checksum: the header and
one repeated byte. -/
def sampleBody (pages : ℕ) (fill : UInt8) : Bytes :=
  sampleHeader ++ List.replicate (pages * 4096 - 32) fill

/-- The object with a checksum in front. -/
def sampleObject (checksum pages : ℕ) (fill : UInt8) : Bytes :=
  leBytes 8 checksum ++ sampleBody pages fill

/-- The superblock of checkpoint 7: a data ring of 128 pages from block one on. -/
def sampleSuperblock (pages : ℕ) : NxSuperblock :=
  { superblockFields [] with
    xid := 7, blockSize := 4096, blockCount := 129, xpDataBaseBlock := 1,
    xpDataBlockCount := 128, xpDataIndex := 0, xpDataLen := pages, xpDataNext := pages % 128 }

/-- The entry of the checkpoint map. -/
def sampleMapping (pages : ℕ) : CheckpointMapping :=
  ⟨0x80000005, 0, pages * 4096, 0, 1024, 1⟩

/-- The image: block zero, the object from block one on, and the rest of the ring. -/
def sampleImage (checksum pages : ℕ) (fill : UInt8) : Bytes :=
  List.replicate 4096 0 ++ sampleObject checksum pages fill ++
    List.replicate ((128 - pages) * 4096) 0

theorem length_sampleBody (pages : ℕ) (fill : UInt8) (h : 0 < pages) :
    (sampleBody pages fill).length = pages * 4096 - 8 := by
  rw [sampleBody, List.length_append, List.length_replicate, show sampleHeader.length = 24 from rfl]
  omega

theorem length_sampleObject {pages : ℕ} (checksum : ℕ) (fill : UInt8) (h : 0 < pages) :
    (sampleObject checksum pages fill).length = pages * 4096 := by
  rw [sampleObject, List.length_append, length_leBytes, length_sampleBody pages fill h]
  omega

theorem length_sampleImage {pages : ℕ} (checksum : ℕ) (fill : UInt8) (h : 0 < pages)
    (hle : pages ≤ 128) : (sampleImage checksum pages fill).length = 129 * 4096 := by
  rw [sampleImage, List.length_append, List.length_append, List.length_replicate,
    List.length_replicate, length_sampleObject checksum fill h]
  omega

/-- The object is read back from its image. -/
theorem slice_sampleImage {pages : ℕ} (off len checksum : ℕ) (fill : UInt8) (h : 0 < pages)
    (hle : off + len ≤ pages * 4096) :
    slice (sampleImage checksum pages fill) (4096 + off) len =
      slice (sampleObject checksum pages fill) off len := by
  have hlength := length_sampleObject checksum fill h
  unfold slice
  rw [sampleImage, List.append_assoc, ← List.drop_drop,
    List.drop_left' (List.length_replicate), List.drop_append_of_le_length (by omega),
    List.take_append_of_le_length (by rw [List.length_drop]; omega)]

/-- The sample object stands in the ring, whatever its fill and its number of pages. -/
theorem mappedObject_sampleObject (checksum pages : ℕ) (fill : UInt8) (hpos : 0 < pages)
    (hle : pages ≤ 128) (hring : ringContainsRange 0 pages 128 0 pages = true)
    (hchecksum : checksum < 2 ^ 64) (hzero : checksum ≠ 0) (hones : checksum ≠ 2 ^ 64 - 1) :
    MappedObject (imageSource (sampleImage checksum pages fill)
        (by rw [length_sampleImage checksum fill hpos hle]; norm_num))
      0 (129 * 4096) (sampleSuperblock pages) (sampleMapping pages)
      (sampleObject checksum pages fill) where
  blockSize := show blockSizeAdmitted 4096 = true by decide
  size_lt := by
    simp only [sampleMapping]
    omega
  size_ne := by
    simp only [sampleMapping]
    omega
  length_eq := length_sampleObject checksum fill hpos
  aligned := by
    simp only [sampleMapping, sampleSuperblock]
    exact Nat.mul_mod_left _ _
  blocks_le := by
    simp only [sampleMapping, sampleSuperblock]
    omega
  base_le := le_refl 1
  relative_lt := show 1 - 1 < 128 by decide
  ring := by
    simp only [sampleMapping, sampleSuperblock]
    rwa [Nat.mul_div_cancel _ (by norm_num)]
  store_lt := by norm_num
  within := by
    simp only [sampleMapping, sampleSuperblock]
    norm_num
  headed := show 0x80000005 &&& objectNoHeader = 0 by decide
  header := by
    have hslice := slice_sampleImage 0 32 checksum fill hpos (by omega)
    simp only [imageSource, sampleMapping, sampleSuperblock]
    rw [length_sampleImage checksum fill hpos hle, if_pos (by omega), ← hslice]
  identity := by
    have hfields : ∀ width offset, 8 ≤ offset → offset + width ≤ 32 →
        readLE width (sampleObject checksum pages fill) offset =
          readLE width sampleHeader (offset - 8) := by
      intro width offset hlow hhigh
      have hlength := length_sampleObject checksum fill hpos
      have hheader : sampleHeader.length = 24 := rfl
      rw [readLE, readLE, if_pos (by omega), if_pos (by omega)]
      congr 2
      obtain ⟨inner, rfl⟩ := Nat.exists_eq_add_of_le hlow
      unfold slice
      rw [sampleObject, sampleBody, ← List.drop_drop, List.drop_left' (length_leBytes 8 checksum),
        List.drop_append_of_le_length (by omega),
        List.take_append_of_le_length (by rw [List.length_drop]; omega), Nat.add_sub_cancel_left]
    refine ⟨?_, ?_, ?_, ?_⟩
    · rw [u64At, readU64LE, hfields 8 0x08 (by norm_num) (by norm_num)]
      show _ = 1024
      decide
    · rw [u64At, readU64LE, hfields 8 0x10 (by norm_num) (by norm_num)]
      show _ = 7
      decide
    · rw [u32At, readU32LE, hfields 4 0x18 (by norm_num) (by norm_num)]
      show _ = 0x80000005
      decide
    · rw [u32At, readU32LE, hfields 4 0x1C (by norm_num) (by norm_num)]
      show _ = 0
      decide
  blocks := by
    intro ordinal hordinal
    simp only [sampleMapping, sampleSuperblock, Nat.sub_self] at hordinal ⊢
    rw [Nat.mul_div_cancel _ (by norm_num)] at hordinal
    have hblock : dataRingBlock (sampleSuperblock pages) 0 ordinal = 1 + ordinal := by
      simp only [dataRingBlock, sampleSuperblock]
      omega
    have hoffset : tryBlockOffset 0 (1 + ordinal) 4096 = some (4096 + ordinal * 4096) := by
      rw [tryBlockOffset, if_neg (by omega)]
      congr 1
      omega
    show (tryBlockOffset 0 (dataRingBlock (sampleSuperblock pages) 0 ordinal) 4096).bind _ = _
    rw [hblock, hoffset, Option.bind_some]
    simp only [imageSource]
    rw [length_sampleImage checksum fill hpos hle, if_pos (by omega)]
    exact congrArg some (slice_sampleImage (ordinal * 4096) 4096 checksum fill hpos (by omega))
  stored := by
    have hread : u64At (sampleObject checksum pages fill) 0 = checksum := by
      have happend : readLE 8 ([] ++ (leBytes 8 checksum ++ sampleBody pages fill))
          ([] : Bytes).length = some checksum := readLE_append [] (sampleBody pages fill) hchecksum
      rw [u64At, readU64LE, sampleObject]
      exact congrArg (Option.getD · 0) happend
    rw [hread]
    exact ⟨hzero, hones⟩

/-- The words of the sample object behind its checksum. -/
theorem littleEndianWords_sampleBody (pages : ℕ) (fill : UInt8) :
    littleEndianWords (sampleBody pages fill) =
      [1024, 0, 7, 0, 0x80000005, 0] ++
        List.replicate ((pages * 4096 - 32) / 4) (leValue [fill, fill, fill, fill]) := by
  have hreplicate : ∀ count, littleEndianWords (List.replicate (4 * count) fill) =
      List.replicate count (leValue [fill, fill, fill, fill]) := by
    intro count
    induction count with
    | zero => rfl
    | succ count ih =>
      show littleEndianWords (fill :: fill :: fill :: fill :: List.replicate (4 * count) fill) = _
      rw [littleEndianWords, ih, List.replicate_succ]
  have hheader : littleEndianWords sampleHeader = [1024, 0, 7, 0, 0x80000005, 0] := by decide
  rw [sampleBody, littleEndianWords_append (by decide), hheader, ← hreplicate]
  congr 3
  omega

/-- A body with its checksum in front is what the writer finalizes. -/
theorem finalizeAppleObjectChecksum_replicate {body : Bytes} {checksum : ℕ}
    (hsize : 4 ≤ body.length) (hwords : body.length % 4 = 0)
    (hfletcher : fletcher64 body = some checksum) (hlt : checksum < 2 ^ 64) (hzero : checksum ≠ 0)
    (hones : checksum ≠ 2 ^ 64 - 1) :
    finalizeAppleObjectChecksum (List.replicate 8 0 ++ body) =
      .ok (leBytes 8 checksum ++ body) := by
  have hcleared : splice (List.replicate 8 (0 : UInt8) ++ body) 0 (List.replicate 8 0) =
      List.replicate 8 0 ++ body := by
    simp [splice]
  have hput : putU64 (List.replicate 8 0 ++ body) 0 checksum = leBytes 8 checksum ++ body := by
    rw [putU64, putLE, splice, length_leBytes]
    simp
  have hbody : ∀ front : Bytes, front.length = 8 →
      slice (front ++ body) 8 ((front ++ body).length - 8) = body := by
    intro front hfront
    rw [slice, List.drop_left' hfront, List.length_append, hfront, Nat.add_sub_cancel_left,
      List.take_length]
  have hread : readU64LE (leBytes 8 checksum ++ body) 0 = some checksum :=
    readLE_append [] body hlt
  have hverify : verifyObjectChecksum (leBytes 8 checksum ++ body)
      (leBytes 8 checksum ++ body).length = true := by
    rw [verifyObjectChecksum, if_neg (by rw [List.length_append, length_leBytes]; omega), hread]
    simp only [Option.getD_some]
    rw [if_neg (not_or.mpr ⟨hzero, hones⟩), hbody _ (length_leBytes 8 checksum), hfletcher]
    exact beq_self_eq_true _
  rw [finalizeAppleObjectChecksum, if_neg (by rw [List.length_append, List.length_replicate]; omega)]
  simp only [hcleared]
  rw [hbody _ List.length_replicate, hfletcher]
  simp only [hput, hverify, if_true]

/-- One page: the writer's object is accepted. -/
theorem checksums_agree_one_page :
    MappedObject (imageSource (sampleImage 4549519269155376 1 0)
        (by rw [length_sampleImage 4549519269155376 0 (by norm_num) (by norm_num)]; norm_num))
      0 (129 * 4096) (sampleSuperblock 1) (sampleMapping 1) (sampleObject 4549519269155376 1 0) ∧
    ChecksumsAgree (imageSource (sampleImage 4549519269155376 1 0)
        (by rw [length_sampleImage 4549519269155376 0 (by norm_num) (by norm_num)]; norm_num))
      0 (129 * 4096) (sampleSuperblock 1) (sampleMapping 1)
      (sampleObject 4549519269155376 1 0) := by
  have hmapped := mappedObject_sampleObject 4549519269155376 1 0
    (by norm_num) (by norm_num) (by decide) (by norm_num) (by norm_num) (by norm_num)
  refine ⟨hmapped, (checksums_agree_iff_weightedSum_lt _ _ _ _ _ _ hmapped).mpr ?_⟩
  have hbody : slice (sampleObject 4549519269155376 1 0) 8
      ((sampleObject 4549519269155376 1 0).length - 8) = sampleBody 1 0 := by
    rw [slice, length_sampleObject _ _ (by norm_num), sampleObject,
      List.drop_left' (length_leBytes _ _)]
    exact List.take_of_length_le (length_sampleBody 1 0 (by norm_num)).le
  have hweight := two_mul_weightedSum_replicate 1016 (leValue [0, 0, 0, 0])
  rw [hbody, littleEndianWords_sampleBody, weightedSum_append, List.length_replicate]
  norm_num at hweight ⊢
  omega

/-- **Ninety-two pages of set bits.**  The writer finalizes the object, its map entry and its
place in the ring are in order, and the loader refuses it. -/
theorem large_object_refused :
    finalizeAppleObjectChecksum (List.replicate 8 0 ++ sampleBody 92 0xFF) =
        .ok (sampleObject 419379858874698801 92 0xFF) ∧
      MappedObject (imageSource (sampleImage 419379858874698801 92 0xFF)
          (by rw [length_sampleImage 419379858874698801 0xFF (by norm_num) (by norm_num)]; norm_num))
        0 (129 * 4096) (sampleSuperblock 92) (sampleMapping 92)
        (sampleObject 419379858874698801 92 0xFF) ∧
      ¬ChecksumsAgree (imageSource (sampleImage 419379858874698801 92 0xFF)
          (by rw [length_sampleImage 419379858874698801 0xFF (by norm_num) (by norm_num)]; norm_num))
        0 (129 * 4096) (sampleSuperblock 92) (sampleMapping 92)
        (sampleObject 419379858874698801 92 0xFF) := by
  have hlength := length_sampleBody 92 0xFF (by norm_num)
  have hwords := littleEndianWords_sampleBody 92 0xFF
  have hfill : leValue [0xFF, 0xFF, 0xFF, 0xFF] = 4294967295 := by decide
  have hreplicate := two_mul_weightedSum_replicate 94200 4294967295
  have hweight : weightedSum (littleEndianWords (sampleBody 92 0xFF)) = 19056805972180374462 := by
    rw [hwords, hfill, weightedSum_append, List.length_replicate]
    norm_num at hreplicate ⊢
    omega
  have hsum : (littleEndianWords (sampleBody 92 0xFF)).sum = 404588066673684 := by
    -- for any number of words: with the number in place the kernel adds them up one by one
    have hreplicate : ∀ count word : ℕ, (List.replicate count word).sum = count * word := by
      intro count word
      rw [List.sum_replicate, smul_eq_mul]
    rw [hwords, hfill, List.sum_append, hreplicate]
    norm_num
  have hfletcher : fletcher64 (sampleBody 92 0xFF) = some 419379858874698801 := by
    rw [fletcher64_eq (by omega) (by omega) (by rw [hsum]; norm_num), hsum, hweight]
    rfl
  have hmapped := mappedObject_sampleObject 419379858874698801 92 0xFF
    (by norm_num) (by norm_num) (by decide) (by norm_num) (by norm_num)
    (by norm_num)
  have hfinal := finalizeAppleObjectChecksum_replicate (by omega) (by omega) hfletcher
    (by norm_num) (by norm_num) (by norm_num)
  refine ⟨hfinal, hmapped, fun hagree => ?_⟩
  have hbody : slice (sampleObject 419379858874698801 92 0xFF) 8
      ((sampleObject 419379858874698801 92 0xFF).length - 8) = sampleBody 92 0xFF := by
    rw [slice, length_sampleObject _ _ (by norm_num), sampleObject,
      List.drop_left' (length_leBytes _ _)]
    exact List.take_of_length_le hlength.le
  have hvalues := hagree.1
  rw [hmapped.mappedChecksumLoop_eq, hbody, Option.map_some] at hvalues
  simp only at hvalues
  have hiff := fletcher64_eq_foldedChecksum_iff (sampleBody 92 0xFF) (by omega) (by omega)
    (by omega)
  rw [hweight] at hiff
  exact absurd (hiff.mp hvalues) (by norm_num)

end Checkpoint
end ApfsAccess
