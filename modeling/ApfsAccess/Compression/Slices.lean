import ApfsAccess.Compression.Resource

/-!
# The blocks of a part of a file

The blocks of a part are among the blocks of the whole file, and they are fetched with budgets that are
at least as large.

* `FetchRun.mono` : blocks that were fetched are fetched with more to spend.
* `decodeBlocks_slice` : a part of the file is decoded to that part of what the whole is decoded to.
-/

namespace ApfsAccess
namespace Compression

open ByteBuffer Format

/-- One pair of budgets is at least another. -/
structure Budgets.AtLeast (more less : Budgets) : Prop where
  reads : less.reads ≤ more.reads
  work : more.work.AtLeast less.work

theorem Budgets.AtLeast.refl (budgets : Budgets) : budgets.AtLeast budgets :=
  ⟨le_rfl, Work.AtLeast.refl _⟩

theorem Budgets.AtLeast.trans {first second third : Budgets} (h : first.AtLeast second)
    (h' : second.AtLeast third) : first.AtLeast third :=
  ⟨h'.reads.trans h.reads, h.work.trans h'.work⟩

section Runs

variable {codecs : BlockCodecs} {limits : ApfsCompressionLimits} {resource : ResourceReader}
  {table : BlockTable} {size offset wanted : ℕ}

/-- With more to spend a block is fetched all the same. -/
theorem Budgets.AtLeast.fetchBlock {i : ℕ} {less more left : Budgets} {decoded : Bytes}
    (hmore : more.AtLeast less)
    (h : fetchBlock codecs limits resource table size i less = .ok (decoded, left)) :
    ∃ left', Compression.fetchBlock codecs limits resource table size i more = .ok (decoded, left') ∧
      left'.AtLeast left := by
  obtain ⟨start, count, encoded, hlocate, hread, hdecode⟩ := fetchBlock_cases h
  obtain ⟨-, hcount, hleft, hagain⟩ := forkRead_cases hread
  obtain ⟨work, hwork, hatLeast⟩ := hmore.work.decode hdecode
  refine ⟨⟨more.reads - count, work⟩, ?_, ?_, hatLeast⟩
  · refine checked_bind_eq_ok_iff.mpr ⟨(start, count), hlocate, ?_⟩
    refine checked_bind_eq_ok_iff.mpr ⟨(encoded, more.reads - count), hagain _ ?_, ?_⟩
    · exact hcount.trans hmore.reads
    · exact checked_bind_eq_ok_iff.mpr ⟨(decoded, work), hwork, rfl⟩
  · rw [hleft]
    exact Nat.sub_le_sub_right hmore.reads count

/-- A block does not add to what there is to spend. -/
theorem atLeast_of_fetchBlock {i : ℕ} {budgets left : Budgets} {decoded : Bytes}
    (h : fetchBlock codecs limits resource table size i budgets = .ok (decoded, left)) :
    budgets.AtLeast left := by
  obtain ⟨start, count, encoded, -, hread, hdecode⟩ := fetchBlock_cases h
  obtain ⟨-, -, hleft, -⟩ := forkRead_cases hread
  exact ⟨hleft.trans_le (Nat.sub_le _ _), Coding.atLeast_of_decode hdecode⟩

/-- The blocks of the indices are fetched one after another. -/
def FetchRun (codecs : BlockCodecs) (limits : ApfsCompressionLimits) (resource : ResourceReader)
    (table : BlockTable) (size : ℕ) (blocks : ℕ → Bytes) : List ℕ → Budgets → Budgets → Prop
  | [], budgets, left => budgets = left
  | i :: rest, budgets, left =>
    ∃ middle, fetchBlock codecs limits resource table size i budgets = .ok (blocks i, middle) ∧
      FetchRun codecs limits resource table size blocks rest middle left

variable {blocks : ℕ → Bytes}

theorem FetchRun.append {front back : List ℕ} {budgets left : Budgets}
    (h : FetchRun codecs limits resource table size blocks (front ++ back) budgets left) :
    ∃ middle, FetchRun codecs limits resource table size blocks front budgets middle ∧
      FetchRun codecs limits resource table size blocks back middle left := by
  induction front generalizing budgets with
  | nil => exact ⟨budgets, rfl, h⟩
  | cons i rest ih =>
    obtain ⟨first, hfetch, hrest⟩ := h
    obtain ⟨middle, hfront, hback⟩ := ih hrest
    exact ⟨middle, ⟨first, hfetch, hfront⟩, hback⟩

/-- **Blocks that were fetched are fetched with more to spend.** -/
theorem FetchRun.mono {indices : List ℕ} {less more left : Budgets} (hmore : more.AtLeast less)
    (h : FetchRun codecs limits resource table size blocks indices less left) :
    ∃ left', FetchRun codecs limits resource table size blocks indices more left' := by
  induction indices generalizing less more with
  | nil => exact ⟨more, rfl⟩
  | cons i rest ih =>
    obtain ⟨middle, hfetch, hrest⟩ := h
    obtain ⟨middle', hfetch', hatLeast⟩ := hmore.fetchBlock hfetch
    obtain ⟨left', hrun⟩ := ih hatLeast hrest
    exact ⟨left', middle', hfetch', hrun⟩

theorem FetchRun.atLeast {indices : List ℕ} {budgets left : Budgets}
    (h : FetchRun codecs limits resource table size blocks indices budgets left) :
    budgets.AtLeast left := by
  induction indices generalizing budgets with
  | nil => exact h ▸ Budgets.AtLeast.refl budgets
  | cons i rest ih =>
    obtain ⟨middle, hfetch, hrest⟩ := h
    exact (atLeast_of_fetchBlock hfetch).trans (ih hrest)

theorem FetchRun.congr {other : ℕ → Bytes} {indices : List ℕ} {budgets left : Budgets}
    (hsame : ∀ i ∈ indices, blocks i = other i)
    (h : FetchRun codecs limits resource table size blocks indices budgets left) :
    FetchRun codecs limits resource table size other indices budgets left := by
  induction indices generalizing budgets with
  | nil => exact h
  | cons i rest ih =>
    obtain ⟨middle, hfetch, hrest⟩ := h
    obtain ⟨hfirst, hothers⟩ := List.forall_mem_cons.mp hsame
    exact ⟨middle, hfirst ▸ hfetch, ih hothers hrest⟩

/-- A part in the middle is fetched from the start of the budgets. -/
theorem FetchRun.part {front part back : List ℕ} {budgets left : Budgets}
    (h : FetchRun codecs limits resource table size blocks (front ++ (part ++ back)) budgets left) :
    ∃ left', FetchRun codecs limits resource table size blocks part budgets left' := by
  obtain ⟨middle, hfront, hrest⟩ := h.append
  obtain ⟨last, hpart, -⟩ := hrest.append
  exact hpart.mono hfront.atLeast

theorem FetchRun.length {indices : List ℕ} {budgets left : Budgets}
    (h : FetchRun codecs limits resource table size blocks indices budgets left) :
    ∀ i ∈ indices, (blocks i).length = expectedSize size i := by
  induction indices generalizing budgets with
  | nil => exact nofun
  | cons i rest ih =>
    obtain ⟨middle, hfetch, hrest⟩ := h
    exact List.forall_mem_cons.mpr ⟨length_of_fetchBlock hfetch, ih hrest⟩

/-- A loop that goes through fetches its blocks. -/
theorem exists_fetchRun {indices : List ℕ} {budgets : Budgets} {result out : Bytes}
    (hnodup : indices.Nodup)
    (h : decodeLoop codecs limits resource table size offset wanted indices budgets result =
      .ok out) :
    ∃ blocks left, FetchRun codecs limits resource table size blocks indices budgets left := by
  induction indices generalizing budgets result with
  | nil => exact ⟨fun _ => [], budgets, rfl⟩
  | cons i rest ih =>
    obtain ⟨⟨decoded, middle⟩, hfetch, h⟩ := checked_bind_eq_ok_iff.mp h
    obtain ⟨after, -, h⟩ := checked_bind_eq_ok_iff.mp h
    obtain ⟨hfresh, hnodup⟩ := List.nodup_cons.mp hnodup
    obtain ⟨blocks, left, hrun⟩ := ih hnodup h
    refine ⟨Function.update blocks i decoded, left, middle, ?_, hrun.congr fun j hj => ?_⟩
    · rw [Function.update_self]
      exact hfetch
    · rw [Function.update_of_ne]
      rintro rfl
      exact hfresh hj

/-! ## What the result holds -/

/-- The result holds the range up to the start of block `i`. -/
def FilledUpTo (whole : Bytes) (offset wanted i : ℕ) (result : Bytes) : Prop :=
  result.length = wanted ∧
    ∀ k < wanted, offset + k < i * kBlockBytes → result[k]? = whole[offset + k]?

/-- **One copy**: the result holds the range up to the end of the block. -/
theorem FilledUpTo.copyBlock {whole decoded result : Bytes} {i : ℕ} (h : Meets size offset wanted i)
    (hdecoded : decoded = slice whole (i * kBlockBytes) (expectedSize size i))
    (hwhole : whole.length = size) (hfilled : FilledUpTo whole offset wanted i result) :
    ∃ after, Compression.copyBlock size offset wanted i decoded result = .ok after ∧
      FilledUpTo whole offset wanted (i + 1) after := by
  have hexpected : expectedSize size i = min kBlockBytes (size - i * kBlockBytes) := rfl
  have hfits := h.fits
  have hstarts := h.starts
  have hends := h.ends
  have hdecodedLength : decoded.length = expectedSize size i := by
    rw [hdecoded, length_slice_of_le]
    omega
  obtain ⟨hlength, hbytes⟩ := hfilled
  refine ⟨_, copyBlock_eq h hdecodedLength hlength, ?_⟩
  have hstart : copyStart offset i = max offset (i * kBlockBytes) := rfl
  have hstop : copyStop size offset wanted i =
      min (offset + wanted) (i * kBlockBytes + expectedSize size i) := rfl
  have hpart : slice decoded (copyStart offset i - i * kBlockBytes)
        (copyStop size offset wanted i - copyStart offset i) =
      slice whole (copyStart offset i) (copyStop size offset wanted i - copyStart offset i) := by
    rw [hdecoded, slice_slice (by unfold kBlockBytes at *; omega)]
    congr 1
    omega
  have hpartLength : (slice whole (copyStart offset i)
      (copyStop size offset wanted i - copyStart offset i)).length =
        copyStop size offset wanted i - copyStart offset i := by
    rw [length_slice_of_le]
    unfold kBlockBytes at *
    omega
  have hfit : copyStart offset i - offset + (slice whole (copyStart offset i)
      (copyStop size offset wanted i - copyStart offset i)).length ≤ result.length := by
    rw [hpartLength, hlength]
    unfold kBlockBytes at *
    omega
  rw [hpart]
  refine ⟨(length_splice hfit).trans hlength, fun k hk hbelow => ?_⟩
  rw [getElem?_splice hfit, hpartLength]
  split_ifs with hbefore hinside
  · exact hbytes k hk (by omega)
  · rw [getElem?_slice, if_pos (by omega)]
    congr 1
    omega
  · exfalso
    unfold kBlockBytes at *
    omega

/-- **The loop**: blocks that are fetched fill the result. -/
theorem decodeLoop_of_fetchRun {whole result : Bytes} {i n : ℕ} {budgets left : Budgets}
    (hwhole : whole.length = size)
    (hblocks : ∀ j ∈ List.range' i n,
      blocks j = slice whole (j * kBlockBytes) (expectedSize size j))
    (hmeets : ∀ j ∈ List.range' i n, Meets size offset wanted j)
    (hfilled : FilledUpTo whole offset wanted i result)
    (h : FetchRun codecs limits resource table size blocks (List.range' i n) budgets left) :
    ∃ out, decodeLoop codecs limits resource table size offset wanted (List.range' i n) budgets
        result = .ok out ∧ FilledUpTo whole offset wanted (i + n) out := by
  induction n generalizing i result budgets with
  | zero => exact ⟨result, rfl, hfilled⟩
  | succ n ih =>
    rw [List.range'_succ] at h hblocks hmeets ⊢
    obtain ⟨middle, hfetch, hrest⟩ := h
    obtain ⟨hblock, hothers⟩ := List.forall_mem_cons.mp hblocks
    obtain ⟨hmeet, hmeets⟩ := List.forall_mem_cons.mp hmeets
    obtain ⟨after, hcopy, hafter⟩ := hfilled.copyBlock hmeet hblock hwhole
    obtain ⟨out, hloop, hout⟩ := ih hothers hmeets hafter hrest
    refine ⟨out, ?_, ?_⟩
    · refine checked_bind_eq_ok_iff.mpr ⟨(blocks i, middle), hfetch, ?_⟩
      exact checked_bind_eq_ok_iff.mpr ⟨after, hcopy, hloop⟩
    · rw [← Nat.add_assoc, Nat.add_right_comm]
      exact hout

/-- A result that is filled to its end is the part of the whole. -/
theorem FilledUpTo.eq_slice {whole result : Bytes} {i : ℕ}
    (h : FilledUpTo whole offset wanted i result) (hend : offset + wanted ≤ i * kBlockBytes) :
    result = slice whole offset wanted := by
  obtain ⟨hlength, hbytes⟩ := h
  apply List.ext_getElem?
  intro k
  rw [getElem?_slice]
  split_ifs with hk
  · exact hbytes k hk (by omega)
  · exact List.getElem?_eq_none (by omega)

end Runs

/-! ## The blocks of the whole file -/

section Whole

variable {size : ℕ} {blocks : ℕ → Bytes}

/-- The blocks one after another. -/
def concatBlocks (blocks : ℕ → Bytes) (count : ℕ) : Bytes := (List.range count).flatMap blocks

theorem length_concatBlocks_of_lt {count : ℕ} (hcount : count < blockCount size)
    (hlength : ∀ i < count, (blocks i).length = expectedSize size i) :
    (concatBlocks blocks count).length = count * kBlockBytes := by
  induction count with
  | zero => rw [Nat.zero_mul]; rfl
  | succ count ih =>
    have hlast := hlength count count.lt_succ_self
    have hfull : expectedSize size count = kBlockBytes := by
      have hbelow := lt_blockCount_iff.mp hcount
      unfold expectedSize kBlockBytes at *
      omega
    unfold concatBlocks at ih ⊢
    rw [List.range_succ, List.flatMap_append, List.length_append,
      ih (by omega) fun i hi => hlength i (by omega), List.flatMap_singleton, hlast, hfull,
      Nat.succ_mul]

/-- All blocks together have the size of the file. -/
theorem length_concatBlocks
    (hlength : ∀ i < blockCount size, (blocks i).length = expectedSize size i) :
    (concatBlocks blocks (blockCount size)).length = size := by
  match hcount : blockCount size with
  | 0 =>
    have hsize : ¬0 * kBlockBytes < size := fun h => by
      have hlt := lt_blockCount_iff.mpr h
      omega
    have hnil : (concatBlocks blocks 0).length = 0 := rfl
    omega
  | count + 1 =>
    have hlt : count < blockCount size := by omega
    have hfront := length_concatBlocks_of_lt hlt fun i hi => hlength i (by omega)
    have hlast := hlength count hlt
    have hbelow := lt_blockCount_iff.mp hlt
    have habove : ¬(count + 1) * kBlockBytes < size := fun h => by
      have hcontra := lt_blockCount_iff.mpr h
      omega
    unfold concatBlocks at hfront ⊢
    rw [List.range_succ, List.flatMap_append, List.length_append, hfront, List.flatMap_singleton,
      hlast]
    unfold expectedSize kBlockBytes at *
    omega

/-- Each block is a slice of all of them. -/
theorem slice_concatBlocks {i : ℕ} (hi : i < blockCount size)
    (hlength : ∀ i < blockCount size, (blocks i).length = expectedSize size i) :
    slice (concatBlocks blocks (blockCount size)) (i * kBlockBytes) (expectedSize size i) =
      blocks i := by
  have hfront := length_concatBlocks_of_lt hi fun j hj => hlength j (hj.trans hi)
  obtain ⟨rest, hrest⟩ : ∃ rest, blockCount size = i + (rest + 1) :=
    ⟨blockCount size - i - 1, by omega⟩
  have hsplit : concatBlocks blocks (blockCount size) =
      concatBlocks blocks i ++ (blocks i ++ (List.range' (i + 1) rest).flatMap blocks) := by
    unfold concatBlocks
    rw [hrest, List.range_eq_range', ← List.range'_append_1, List.flatMap_append, Nat.zero_add,
      List.range'_succ, List.flatMap_cons, List.range_eq_range']
  rw [hsplit, slice, List.drop_left' hfront, List.take_left' (hlength i hi)]

end Whole

section Parts

variable {codecs : BlockCodecs} {limits : ApfsCompressionLimits} {resource : ResourceReader}
  {table : BlockTable} {size offset wanted reads : ℕ} {whole : Bytes}

/-- What there is to spend before the first block. -/
def initialBudgets (limits : ApfsCompressionLimits) (reads : ℕ) : Budgets where
  reads := reads
  work := ⟨limits.maxLzfseWorkUnits, limits.maxLzbitmapWorkUnits⟩

/-- **The whole file** is decoded to its blocks one after another. -/
theorem decodeBlocks_whole (hsize : size ≠ 0)
    (h : decodeBlocks codecs limits resource table size 0 size reads = .ok whole) :
    ∃ blocks left, FetchRun codecs limits resource table size blocks
        (List.range' 0 (blockCount size)) (initialBudgets limits reads) left ∧
      (∀ i < blockCount size, (blocks i).length = expectedSize size i) ∧
      whole = concatBlocks blocks (blockCount size) ∧ size ≤ limits.maxDecodedBytes := by
  have hindices : (0 + size - 1) / kBlockBytes + 1 - 0 / kBlockBytes = blockCount size := by
    unfold blockCount kBlockBytes
    split_ifs <;> omega
  have hlast : (0 + size - 1) / kBlockBytes = blockCount size - 1 := by
    unfold blockCount kBlockBytes
    split_ifs <;> omega
  rw [decodeBlocks, if_neg hsize] at h
  dsimp only at h
  rw [failIf_bind_eq_ok_iff, if_pos hlast, hindices, Nat.zero_div, Nat.zero_mul, Nat.sub_zero] at h
  obtain ⟨hlimit, hloop⟩ := h
  obtain ⟨blocks, left, hrun⟩ := exists_fetchRun List.nodup_range' hloop
  have hlength : ∀ i < blockCount size, (blocks i).length = expectedSize size i := fun i hi =>
    hrun.length i (List.mem_range'_1.mpr ⟨Nat.zero_le i, by omega⟩)
  have hmeets : ∀ i ∈ List.range' 0 (blockCount size), Meets size 0 size i := fun i hi =>
    meets_of_mem (by omega) hsize (by rw [hindices, Nat.zero_div]; exact hi)
  obtain ⟨out, hout, hfilled⟩ := decodeLoop_of_fetchRun (length_concatBlocks hlength)
    (fun j hj => (slice_concatBlocks (hmeets j hj).lt_blockCount hlength).symm) hmeets
    ⟨List.length_replicate, fun k _ hk => by omega⟩ hrun
  refine ⟨blocks, left, hrun, hlength, ?_, not_lt.mp hlimit⟩
  rw [hloop] at hout
  obtain rfl := Except.ok.inj hout
  have hend : 0 + size ≤ (0 + blockCount size) * kBlockBytes := by
    have hnot : ¬blockCount size * kBlockBytes < size := fun hlt =>
      lt_irrefl _ (lt_blockCount_iff.mpr hlt)
    rw [Nat.zero_add, Nat.zero_add]
    exact not_lt.mp hnot
  rw [hfilled.eq_slice hend]
  unfold slice
  rw [List.drop_zero, List.take_of_length_le (length_concatBlocks hlength).le]

theorem length_of_decodeBlocks
    (h : decodeBlocks codecs limits resource table size 0 size reads = .ok whole) :
    whole.length = size := by
  by_cases hsize : size = 0
  · rw [decodeBlocks, if_pos hsize] at h
    obtain rfl := Except.ok.inj h
    exact hsize.symm
  · obtain ⟨blocks, left, -, hlength, rfl, -⟩ := decodeBlocks_whole hsize h
    exact length_concatBlocks hlength

/-- **A part of the file** is decoded to that part of what the whole is decoded to. -/
theorem decodeBlocks_slice
    (h : decodeBlocks codecs limits resource table size 0 size reads = .ok whole)
    (hpart : wanted ≠ 0 → offset + wanted ≤ size) :
    decodeBlocks codecs limits resource table size offset wanted reads =
      .ok (slice whole offset wanted) := by
  by_cases hwanted : wanted = 0
  · rw [decodeBlocks, if_pos hwanted, hwanted, slice_zero]
  have hfits := hpart hwanted
  obtain ⟨blocks, left, hrun, hlength, rfl, hlimit⟩ := decodeBlocks_whole (by omega) h
  have hmeets : ∀ i ∈ List.range' (offset / kBlockBytes)
      ((offset + wanted - 1) / kBlockBytes + 1 - offset / kBlockBytes),
      Meets size offset wanted i := fun i hi => meets_of_mem hfits hwanted hi
  have hbound : (offset + wanted - 1) / kBlockBytes < blockCount size := by
    rw [lt_blockCount_iff]
    unfold kBlockBytes
    omega
  have hle : offset / kBlockBytes ≤ (offset + wanted - 1) / kBlockBytes :=
    Nat.div_le_div_right (by omega)
  -- the blocks of the part stand among all blocks, so they are fetched from the same budgets
  obtain ⟨back, hback⟩ : ∃ back, blockCount size = offset / kBlockBytes +
      ((offset + wanted - 1) / kBlockBytes + 1 - offset / kBlockBytes + back) :=
    ⟨blockCount size - ((offset + wanted - 1) / kBlockBytes + 1), by omega⟩
  rw [hback, ← List.range'_append_1, ← List.range'_append_1, Nat.zero_add] at hrun
  obtain ⟨left', hpartRun⟩ := hrun.part
  obtain ⟨out, hout, hfilled⟩ := decodeLoop_of_fetchRun (length_concatBlocks hlength)
    (fun j hj => (slice_concatBlocks (hmeets j hj).lt_blockCount hlength).symm) hmeets
    ⟨List.length_replicate, fun k _ hk => by unfold kBlockBytes at hk; omega⟩ hpartRun
  rw [decodeBlocks, if_neg hwanted]
  dsimp only
  rw [failIf_bind_eq_ok_iff]
  refine ⟨not_lt.mpr (le_trans ?_ hlimit), ?_⟩
  · split_ifs with hend
    · omega
    · have hlt : (offset + wanted - 1) / kBlockBytes + 1 < blockCount size :=
        Nat.lt_of_le_of_ne hbound fun hlast => hend (Nat.eq_sub_of_add_eq hlast)
      have hbelow := lt_blockCount_iff.mp hlt
      unfold kBlockBytes at hbelow ⊢
      omega
  · refine hout.trans (congrArg Except.ok (hfilled.eq_slice ?_))
    unfold kBlockBytes
    omega

end Parts

end Compression
end ApfsAccess
