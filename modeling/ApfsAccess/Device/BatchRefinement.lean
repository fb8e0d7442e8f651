import ApfsAccess.Device.WriteBatch

/-!
# A batch is its spans, written one after another

Every path of `WriteBatch` makes the same change to the disk as storing the spans one
after another in the caller's order, if it succeeds, and no path ever leaves the range
a raw writer was admitted to.

* `storeAll_of_isChain`, `viewBytes_of_contiguousView` : a run of adjacent spans is one store,
  and may be taken from the caller's memory when it is one stretch there.
* `writeSequential_spec` : the sequential path, by induction over what is still pending.
* `buildChunks_spec`, `runWindows_spec` : the asynchronous path, in which the writes of a
  window land in any order.
* `writeBatch_refines_plain_writes` : the whole batch.
-/

namespace ApfsAccess
namespace Device

open Format ByteBuffer Storage Sorting

variable {memory : ℕ → UInt8}

/-! ## Views and runs -/

@[simp] theorem length_viewBytes (memory : ℕ → UInt8) (data sizeBytes : ℕ) :
    (viewBytes memory data sizeBytes).length = sizeBytes := by
  rw [viewBytes, List.length_map, List.length_range]

theorem viewBytes_add (memory : ℕ → UInt8) (data first second : ℕ) :
    viewBytes memory data (first + second) =
      viewBytes memory data first ++ viewBytes memory (data + first) second := by
  unfold viewBytes
  rw [List.range_add, List.map_append, List.map_map]
  congr 1
  refine List.map_congr_left fun i _ => ?_
  rw [Function.comp_apply, Nat.add_assoc]

/-- A pending write as a store. -/
def PendingWrite.store (memory : ℕ → UInt8) (write : PendingWrite) : ℕ × Bytes :=
  (write.absoluteOffset, write.bytes memory)

@[simp] theorem length_bytes (write : PendingWrite) :
    (write.bytes memory).length = write.sizeBytes :=
  length_viewBytes _ _ _

theorem bytes_ne_nil {write : PendingWrite} (h : write.sizeBytes ≠ 0) :
    write.bytes memory ≠ [] := by
  intro hnil
  have hlength := @length_bytes memory write
  rw [hnil, List.length_nil] at hlength
  exact h hlength.symm

/-- The disk after the pending writes were stored one after another. -/
def storePending (memory : ℕ → UInt8) (pending : List PendingWrite) (disk : Disk UInt8) :
    Disk UInt8 :=
  disk.storeAll (pending.map (PendingWrite.store memory))

@[simp] theorem storePending_nil (disk : Disk UInt8) : storePending memory [] disk = disk := rfl

theorem storePending_cons (write : PendingWrite) (pending : List PendingWrite)
    (disk : Disk UInt8) :
    storePending memory (write :: pending) disk =
      storePending memory pending (disk.store write.absoluteOffset (write.bytes memory)) := rfl

theorem storePending_append (front back : List PendingWrite) (disk : Disk UInt8) :
    storePending memory (front ++ back) disk =
      storePending memory back (storePending memory front disk) := by
  rw [storePending, List.map_append, Disk.storeAll_append]
  rfl

/-- One write follows another without a gap. -/
def Follows (first second : PendingWrite) : Prop := second.absoluteOffset = first.endOffset

/-- A run that was taken follows its start without gaps. -/
theorem isChain_takeAdjacent {limit start : ℕ} {first : PendingWrite} {rest : List PendingWrite} :
    (first :: (takeAdjacent limit start first.endOffset rest).1).IsChain Follows := by
  induction rest generalizing first with
  | nil => exact List.IsChain.singleton first
  | cons next rest ih =>
    rw [takeAdjacent]
    split
    · exact List.IsChain.singleton first
    split
    · exact List.IsChain.singleton first
    · rename_i hnext _
      simp only [not_or, not_not] at hnext
      have hend : first.endOffset + next.sizeBytes = next.endOffset := by
        rw [PendingWrite.endOffset, PendingWrite.endOffset] at *
        omega
      rw [hend]
      exact List.IsChain.cons_cons hnext.1 ih

@[simp] theorem joinedBytes_cons (write : PendingWrite) (writes : List PendingWrite) :
    joinedBytes memory (write :: writes) = write.bytes memory ++ joinedBytes memory writes := by
  rw [joinedBytes, List.flatMap_cons, joinedBytes]

@[simp] theorem totalSize_cons (write : PendingWrite) (writes : List PendingWrite) :
    totalSize (write :: writes) = write.sizeBytes + totalSize writes := by
  rw [totalSize, List.map_cons, List.sum_cons, totalSize]

theorem length_joinedBytes (writes : List PendingWrite) :
    (joinedBytes memory writes).length = totalSize writes := by
  induction writes with
  | nil => rfl
  | cons write writes ih => rw [joinedBytes_cons, List.length_append, ih, length_bytes,
      totalSize_cons]

/-- Every byte of the stretch that a run makes up lies in one of its writes. -/
theorem exists_mem_of_isChain {first : PendingWrite} {rest : List PendingWrite} {x : ℕ}
    (h : (first :: rest).IsChain Follows) (hlow : first.absoluteOffset ≤ x)
    (hhigh : x < first.absoluteOffset + totalSize (first :: rest)) :
    ∃ write ∈ first :: rest, write.absoluteOffset ≤ x ∧ x < write.endOffset := by
  induction rest generalizing first with
  | nil =>
    refine ⟨first, by simp, hlow, ?_⟩
    simpa [totalSize, PendingWrite.endOffset] using hhigh
  | cons next rest ih =>
    obtain ⟨hnext, hrest⟩ := List.isChain_cons_cons.mp h
    by_cases hfirst : x < first.endOffset
    · exact ⟨first, by simp, hlow, hfirst⟩
    · unfold Follows at hnext
      rw [totalSize_cons, ← Nat.add_assoc, ← PendingWrite.endOffset, ← hnext] at hhigh
      obtain ⟨write, hwrite, hinside⟩ := ih hrest (by omega) hhigh
      exact ⟨write, List.mem_cons_of_mem _ hwrite, hinside⟩

/-- **A run of adjacent writes is one store.** -/
theorem storePending_of_isChain {first : PendingWrite} {rest : List PendingWrite}
    (h : (first :: rest).IsChain Follows) (disk : Disk UInt8) :
    storePending memory (first :: rest) disk =
      disk.store first.absoluteOffset (joinedBytes memory (first :: rest)) := by
  induction rest generalizing first disk with
  | nil => simp [storePending_cons, joinedBytes]
  | cons next rest ih =>
    obtain ⟨hnext, hrest⟩ := List.isChain_cons_cons.mp h
    have hoffset : next.absoluteOffset = first.absoluteOffset + (first.bytes memory).length := by
      rw [length_bytes]
      exact hnext
    rw [storePending_cons, ih hrest, hoffset, Disk.store_append, ← joinedBytes_cons]

/-- A stretch of memory that the writes of a run show one after another. -/
theorem viewBytes_of_isChain {base start : ℕ} {first : PendingWrite} {rest : List PendingWrite}
    (hchain : (first :: rest).IsChain Follows) (hstart : start ≤ first.absoluteOffset)
    (hdata : ∀ write ∈ first :: rest, write.data = base + (write.absoluteOffset - start)) :
    joinedBytes memory (first :: rest) =
      viewBytes memory (base + (first.absoluteOffset - start)) (totalSize (first :: rest)) := by
  induction rest generalizing first with
  | nil =>
    rw [← hdata first (by simp)]
    simp [joinedBytes, totalSize, PendingWrite.bytes]
  | cons next rest ih =>
    obtain ⟨hnext, hrest⟩ := List.isChain_cons_cons.mp hchain
    unfold Follows PendingWrite.endOffset at hnext
    rw [joinedBytes_cons, totalSize_cons, viewBytes_add,
      ih hrest (by omega) fun write hmem => hdata write (List.mem_cons_of_mem _ hmem)]
    congr 1
    · rw [PendingWrite.bytes, hdata first (by simp)]
    · congr 1
      omega

/-- **A contiguous view holds the bytes of the run.** -/
theorem viewBytes_of_contiguousView {first : PendingWrite} {others : List PendingWrite}
    (hview : contiguousView first others = true)
    (hchain : (first :: others).IsChain Follows) :
    viewBytes memory first.data (totalSize (first :: others)) =
      joinedBytes memory (first :: others) := by
  have hdata : ∀ write ∈ first :: others,
      write.data = first.data + (write.absoluteOffset - first.absoluteOffset) := by
    intro write hmem
    rcases List.mem_cons.mp hmem with rfl | hother
    · omega
    · simp only [contiguousView, Bool.and_eq_true, List.all_eq_true, beq_iff_eq] at hview
      exact (hview.2 write hother).2
  rw [viewBytes_of_isChain hchain (le_refl _) hdata, Nat.sub_self, Nat.add_zero]

/-! ## The scratch area -/

theorem le_length_ensureMergedBatchScratch (scratch : Bytes) (bytes preserveBytes : ℕ) :
    bytes ≤ (ensureMergedBatchScratch scratch bytes preserveBytes).length := by
  unfold ensureMergedBatchScratch
  split
  · omega
  split
  · assumption
  · simp only [List.length_append, List.length_replicate, List.length_take]
    omega

/-- Growing the scratch area keeps what was to be preserved. -/
theorem slice_ensureMergedBatchScratch {scratch : Bytes} {bytes preserveBytes off len : ℕ}
    (hpreserve : preserveBytes ≤ scratch.length) (h : off + len ≤ preserveBytes) :
    slice (ensureMergedBatchScratch scratch bytes preserveBytes) off len =
      slice scratch off len := by
  unfold ensureMergedBatchScratch
  split
  · rfl
  split
  · rfl
  · have hkept : min preserveBytes (min bytes scratch.length) = preserveBytes := by omega
    simp only [hkept]
    apply List.ext_getElem?
    intro i
    rw [getElem?_slice, getElem?_slice]
    split
    · rw [List.getElem?_append_left (by rw [List.length_take]; omega), List.getElem?_take,
        if_pos (by omega)]
    · rfl

/-- The bytes put into the scratch area are read back from it. -/
theorem slice_filledScratch {scratch : Bytes} {offset : ℕ} (writes : List PendingWrite)
    (h : offset + totalSize writes ≤ scratch.length) :
    slice (splice scratch offset (joinedBytes memory writes)) offset (totalSize writes) =
      joinedBytes memory writes := by
  have hself := @slice_splice_self _ scratch (joinedBytes memory writes) offset
    (by rwa [length_joinedBytes])
  rwa [length_joinedBytes] at hself

/-- The scratch area grown by a run and filled with it: the run is read back, and what was in
use before is kept. -/
theorem filledScratch_spec {scratch : Bytes} {offset : ℕ} (writes : List PendingWrite)
    (h : offset ≤ scratch.length) :
    let filled := splice (ensureMergedBatchScratch scratch (offset + totalSize writes) offset)
      offset (joinedBytes memory writes)
    slice filled offset (totalSize writes) = joinedBytes memory writes ∧
      (∀ off len, off + len ≤ offset → slice filled off len = slice scratch off len) ∧
      offset + totalSize writes ≤ filled.length := by
  intro filled
  have hgrown := le_length_ensureMergedBatchScratch scratch (offset + totalSize writes) offset
  have hfits : offset + (joinedBytes memory writes).length ≤
      (ensureMergedBatchScratch scratch (offset + totalSize writes) offset).length := by
    rwa [length_joinedBytes]
  refine ⟨slice_filledScratch writes hgrown, fun off len hoff => ?_, ?_⟩
  · rw [slice_splice_of_disjoint hfits (.inl hoff), slice_ensureMergedBatchScratch h hoff]
  · rwa [length_splice hfits]

/-! ## The sequential path -/

/-- What a path has to do with the pending writes it is given: it stays in the admitted range,
and if it succeeds then the disk is the one with the writes stored one after another. -/
structure Carries (config : Config) (memory : ℕ → UInt8) (pending : List PendingWrite) (io : Io)
    (result : Bool × Io) : Prop where
  stored : result.1 = true → result.2.disk = storePending memory pending io.disk
  confined : Confined config io result.2

section Sequential

variable {config : Config} {os : Os} {io : Io}

namespace Carries

variable {front back pending : List PendingWrite} {first second : Bool × Io}

/-- A path that gives up has only to stay in the admitted range. -/
theorem failed {after : Io} (h : Confined config io after) :
    Carries config memory pending io (false, after) :=
  ⟨fun htrue => absurd htrue Bool.false_ne_true, h⟩

/-- One path after another, with the second left out when the first failed. -/
theorem sequence (h : Carries config memory front io first)
    (h' : Carries config memory back first.2 second) :
    Carries config memory (front ++ back) io
      (if first.1 = false then (false, first.2) else second) := by
  split
  · exact failed h.confined
  · rename_i hfirst
    rw [Bool.not_eq_false] at hfirst
    refine ⟨fun hsecond => ?_, h.confined.trans h'.confined⟩
    rw [h'.stored hsecond, h.stored hfirst, storePending_append]

end Carries

/-- One write through `WriteLocked`. -/
theorem writeLocked_carries (write : PendingWrite) :
    Carries config memory [write] io
      (writeLocked config os none write.absoluteOffset (write.bytes memory) io) :=
  ⟨fun htrue => writeLocked_eq_true htrue, writeLocked_confined⟩

/-- A run of adjacent writes as one write through `WriteLocked`. -/
theorem writeLocked_carries_run {first : PendingWrite} {others : List PendingWrite}
    (hchain : (first :: others).IsChain Follows) {bytes : Bytes}
    (hbytes : bytes = joinedBytes memory (first :: others)) :
    Carries config memory (first :: others) io
      (writeLocked config os none first.absoluteOffset bytes io) := by
  refine ⟨fun htrue => ?_, writeLocked_confined⟩
  rw [writeLocked_eq_true htrue, storePending_of_isChain hchain, hbytes]

theorem writeMergedChunk_carries {first : PendingWrite} {others : List PendingWrite}
    (hchain : (first :: others).IsChain Follows) :
    Carries config memory (first :: others) io
      (writeMergedChunk config os memory first others io) := by
  unfold writeMergedChunk
  split
  · rename_i hview
    exact writeLocked_carries_run hchain (viewBytes_of_contiguousView hview hchain)
  · have hroom := le_length_ensureMergedBatchScratch io.mergedBatchScratch
      (totalSize (first :: others)) 0
    have hslice := @slice_filledScratch memory _ 0 (first :: others)
      (by rw [Nat.zero_add]; exact hroom)
    -- the scratch area is not on the disk
    obtain ⟨hstored, hconfined⟩ := @writeLocked_carries_run memory config os
      { io with mergedBatchScratch := splice (ensureMergedBatchScratch io.mergedBatchScratch
          (totalSize (first :: others)) 0) 0 (joinedBytes memory (first :: others)) }
      first others hchain _ hslice
    exact ⟨hstored, (Confined.of_same rfl rfl).trans hconfined⟩

/-- **The chunks of a run.** -/
theorem writeChunks_carries (run : List PendingWrite) (hchain : run.IsChain Follows) :
    Carries config memory run io (writeChunks config os memory run io) := by
  induction hlength : run.length using Nat.strong_induction_on generalizing run io with
  | _ length ih =>
    subst hlength
    cases run with
    | nil =>
      rw [writeChunks]
      exact ⟨fun _ => rfl, Confined.refl config io⟩
    | cons first rest =>
      have happend := chunkAfter_append first rest
      have hsplit : first :: rest =
          (first :: (chunkAfter first rest).1) ++ (chunkAfter first rest).2 := by
        rw [List.cons_append, happend]
      rw [hsplit] at hchain
      obtain ⟨hfront, hback, -⟩ := List.isChain_append.mp hchain
      have hshorter := length_chunkAfter_le first rest
      rw [writeChunks]
      nth_rewrite 1 [hsplit]
      refine Carries.sequence ?_ (ih _ (by simp only [List.length_cons]; omega) _ hback rfl)
      split
      · rename_i hnone
        rw [hnone]
        exact writeLocked_carries first
      · exact writeMergedChunk_carries hfront

/-! ### Groups -/

/-- The window filled from the spans of a group holds each of them. -/
theorem fillRmwWindow_eq_some {groupStart : ℕ} {window filled : Bytes}
    {group : List PendingWrite} (hgroup : ∀ write ∈ group, write.sizeBytes ≠ 0)
    (h : fillRmwWindow memory groupStart window group = some filled) :
    filled = Disk.patch groupStart window (group.map (PendingWrite.store memory)) ∧
      Disk.PartsOf groupStart window.length (group.map (PendingWrite.store memory)) := by
  induction group generalizing window with
  | nil =>
    simp only [fillRmwWindow, Option.some.injEq] at h
    exact ⟨h.symm, by simp [Disk.PartsOf]⟩
  | cons write rest ih =>
    obtain ⟨hwrite, hrest⟩ := List.forall_mem_cons.mp hgroup
    rw [fillRmwWindow] at h
    split at h
    · cases h
    · rename_i hinside
      simp only [not_or, not_lt] at hinside
      have hlength : (splice window (write.absoluteOffset - groupStart)
          (write.bytes memory)).length = window.length :=
        length_splice (by rw [length_bytes]; omega)
      obtain ⟨hfilled, hparts⟩ := ih hrest h
      refine ⟨hfilled, List.forall_mem_cons.mpr ⟨⟨hinside.1, ?_, bytes_ne_nil hwrite⟩, ?_⟩⟩
      · show write.absoluteOffset + (write.bytes memory).length ≤ groupStart + window.length
        rw [length_bytes]
        omega
      · rwa [hlength] at hparts

/-- **A group written back with its window is its spans, in caller order.** -/
theorem writeRmwGroup_carries {window : RmwWindow} {group : List PendingWrite}
    (hgroup : ∀ write ∈ group, write.sizeBytes ≠ 0) :
    Carries config memory group io (writeRmwGroup config os memory window group io) := by
  unfold writeRmwGroup
  split
  · rename_i after hread
    refine Carries.failed ?_
    have hafter := @readAt_confined config os io window.groupStart
      (window.groupEnd - window.groupStart)
    rwa [hread] at hafter
  · rename_i bytes after hread
    have hafter := @readAt_confined config os io window.groupStart
      (window.groupEnd - window.groupStart)
    rw [hread] at hafter
    obtain ⟨hsize, hbytes⟩ := readAt_eq_some (show (readAt os window.groupStart
      (window.groupEnd - window.groupStart) io).1 = some bytes by rw [hread])
    have hdisk : after.disk = io.disk := by
      have hsnd := congrArg (fun result => result.2.disk) hread
      exact hsnd.symm
    split
    · exact Carries.failed hafter
    · rename_i filled hfill
      obtain ⟨hfilled, hparts⟩ := fillRmwWindow_eq_some hgroup hfill
      refine ⟨fun htrue => ?_, hafter.trans ((Confined.of_same rfl rfl).trans writeAt_confined)⟩
      have hwritten := writeAt_eq_true htrue
      simp only at hwritten ⊢
      rw [hwritten, hdisk, hfilled, hbytes]
      rw [hbytes, Disk.length_contents] at hparts
      exact Disk.store_patch hsize hparts

/-- **The sequential path.** -/
theorem writeSequential_carries (pending : List PendingWrite)
    (hpending : ∀ write ∈ pending, write.sizeBytes ≠ 0) :
    Carries config memory pending io (writeSequential config os memory pending io) := by
  induction hlength : pending.length using Nat.strong_induction_on generalizing pending io with
  | _ length ih =>
    subst hlength
    cases pending with
    | nil =>
      rw [writeSequential]
      exact ⟨fun _ => rfl, Confined.refl config io⟩
    | cons first rest =>
      rw [writeSequential]
      split
      · rename_i window group left hgroup
        obtain ⟨happend, -⟩ := rmwGroup_append hgroup
        have hshorter := length_rmwGroup_lt hgroup
        rw [← happend] at hpending ⊢
        obtain ⟨hfront, hback⟩ := List.forall_mem_append.mp hpending
        exact Carries.sequence (writeRmwGroup_carries hfront) (ih _ hshorter _ hback rfl)
      · split
        · exact Carries.failed (Confined.refl config io)
        · have happend := takeAdjacent_append dwordMax first.absoluteOffset first.endOffset rest
          have hshorter := length_takeAdjacent_le dwordMax first.absoluteOffset first.endOffset rest
          have hsplit : first :: rest =
              (first :: (takeAdjacent dwordMax first.absoluteOffset first.endOffset rest).1) ++
                (takeAdjacent dwordMax first.absoluteOffset first.endOffset rest).2 := by
            rw [List.cons_append, happend]
          rw [hsplit] at hpending
          have hback := (List.forall_mem_append.mp hpending).2
          nth_rewrite 1 [hsplit]
          exact Carries.sequence (writeChunks_carries _ isChain_takeAdjacent)
            (ih _ (by simp only [List.length_cons]; omega) _ hback rfl)

end Sequential

/-! ## Chunks -/

/-- The pieces of a large write, as stores. -/
def directStore (memory : ℕ → UInt8) (write : PendingWrite) (index : ℕ) : ℕ × Bytes :=
  (write.absoluteOffset + index * maxDirectAsyncChunkBytes,
    viewBytes memory (write.data + index * maxDirectAsyncChunkBytes)
      (min maxDirectAsyncChunkBytes (write.sizeBytes - index * maxDirectAsyncChunkBytes)))

/-- The first pieces of a large write follow one another and hold the first bytes of it. -/
theorem adjacent_directStores (write : PendingWrite) (count : ℕ)
    (h : ∀ index < count, index * maxDirectAsyncChunkBytes < write.sizeBytes) :
    Disk.Adjacent write.absoluteOffset ((List.range count).map (directStore memory write)) ∧
      ((List.range count).map (directStore memory write)).flatMap Prod.snd =
        viewBytes memory write.data (min (count * maxDirectAsyncChunkBytes) write.sizeBytes) := by
  induction count with
  | zero => exact ⟨trivial, by rw [Nat.zero_mul, Nat.zero_min]; rfl⟩
  | succ count ih =>
    obtain ⟨hadjacent, hbytes⟩ := ih fun index hindex => h index (by omega)
    have hcount := h count (by omega)
    rw [Nat.min_eq_left (by omega)] at hbytes
    rw [List.range_succ, List.map_append, List.map_singleton]
    refine ⟨Disk.adjacent_append hadjacent ?_, ?_⟩
    · rw [hbytes, length_viewBytes]
      exact ⟨rfl, trivial⟩
    · have hlast : min ((count + 1) * maxDirectAsyncChunkBytes) write.sizeBytes =
          count * maxDirectAsyncChunkBytes +
            min maxDirectAsyncChunkBytes
              (write.sizeBytes - count * maxDirectAsyncChunkBytes) := by
        rw [Nat.add_mul, Nat.one_mul]
        omega
      rw [List.flatMap_append, hbytes, hlast, viewBytes_add]
      simp [directStore]

/-- A chunk list that stands for a run of writes. -/
structure Covers (memory : ℕ → UInt8) (first : PendingWrite) (others : List PendingWrite)
    (stores : List (ℕ × Bytes)) : Prop where
  adjacent : Disk.Adjacent first.absoluteOffset stores
  bytes : stores.flatMap Prod.snd = joinedBytes memory (first :: others)

theorem covers_directChunks (scratch : Bytes) (write : PendingWrite) :
    Covers memory write [] ((directChunks write).map (AsyncChunk.store memory scratch)) := by
  have hpos : 0 < maxDirectAsyncChunkBytes := by decide
  have hmap : (directChunks write).map (AsyncChunk.store memory scratch) =
      (List.range ((write.sizeBytes + maxDirectAsyncChunkBytes - 1) /
        maxDirectAsyncChunkBytes)).map (directStore memory write) := by
    rw [directChunks, List.map_map]
    rfl
  obtain ⟨hadjacent, hbytes⟩ := @adjacent_directStores memory write
    ((write.sizeBytes + maxDirectAsyncChunkBytes - 1) / maxDirectAsyncChunkBytes) (by
      intro index hindex
      have hmul := (Nat.le_div_iff_mul_le hpos).mp (Nat.succ_le_of_lt hindex)
      rw [Nat.succ_mul] at hmul
      omega)
  rw [hmap]
  refine ⟨hadjacent, ?_⟩
  -- the pieces reach the end of the write
  have hreach := Nat.lt_div_mul_add hpos (a := write.sizeBytes + maxDirectAsyncChunkBytes - 1)
  rw [hbytes, Nat.min_eq_right (by omega)]
  simp [joinedBytes, PendingWrite.bytes]

theorem covers_chunks (scratch : Bytes) {first : PendingWrite} {others : List PendingWrite}
    (hchain : (first :: others).IsChain Follows) :
    Covers memory first others
      (((first :: others).map PendingWrite.chunk).map (AsyncChunk.store memory scratch)) := by
  have hmap : ((first :: others).map PendingWrite.chunk).map (AsyncChunk.store memory scratch) =
      (first :: others).map (PendingWrite.store memory) := by
    rw [List.map_map]
    rfl
  rw [hmap]
  refine ⟨?_, by rw [List.flatMap_map]; rfl⟩
  induction others generalizing first with
  | nil => exact ⟨rfl, trivial⟩
  | cons next rest ih =>
    obtain ⟨hnext, hrest⟩ := List.isChain_cons_cons.mp hchain
    have hend : first.absoluteOffset + (first.bytes memory).length = next.absoluteOffset := by
      rw [length_bytes]
      exact hnext.symm
    refine ⟨rfl, ?_⟩
    show Disk.Adjacent (first.absoluteOffset + (first.bytes memory).length) _
    rw [hend]
    exact ih hrest (by rw [List.map_map]; rfl)

/-! ### Order -/

/-- What the order test says of the first write. -/
theorem orderedFrom_cons {previous : ℕ} {write : PendingWrite} {rest : List PendingWrite}
    (h : orderedFrom (some previous) (write :: rest) = true) :
    previous ≤ write.absoluteOffset ∧ orderedFrom (some write.endOffset) rest = true := by
  rw [orderedFrom] at h
  split at h
  · cases h
  split at h
  · cases h
  · rename_i hprevious
    simp only [Option.any_some, decide_eq_true_eq, not_lt] at hprevious
    exact ⟨hprevious, h⟩

/-- Writes in order without a predecessor are in order after zero. -/
theorem orderedFrom_zero {pending : List PendingWrite} (h : orderedFrom none pending = true) :
    orderedFrom (some 0) pending = true := by
  cases pending with
  | nil => rfl
  | cons write rest =>
    rw [orderedFrom] at h ⊢
    simpa using h

/-- Behind a run, the writes are in order after the end of the run. -/
theorem orderedFrom_of_isChain {previous : ℕ} {first : PendingWrite}
    {others back : List PendingWrite} (hchain : (first :: others).IsChain Follows)
    (h : orderedFrom (some previous) (first :: others ++ back) = true) :
    orderedFrom (some (first.absoluteOffset + totalSize (first :: others))) back = true := by
  induction others generalizing first previous with
  | nil => exact (orderedFrom_cons h).2
  | cons next rest ih =>
    obtain ⟨hnext, hrest⟩ := List.isChain_cons_cons.mp hchain
    have hback := ih hrest (orderedFrom_cons h).2
    rwa [hnext, PendingWrite.endOffset, Nat.add_assoc, ← totalSize_cons] at hback

/-- Writes in order end before the next one starts. -/
theorem pairwise_of_orderedFrom {previous : ℕ} {pending : List PendingWrite}
    (h : orderedFrom (some previous) pending = true) :
    (pending.map (PendingWrite.store memory)).Pairwise Disk.Precedes ∧
      ∀ write ∈ pending, previous ≤ write.absoluteOffset := by
  induction pending generalizing previous with
  | nil => exact ⟨List.Pairwise.nil, by simp⟩
  | cons write rest ih =>
    obtain ⟨hwrite, hrest⟩ := orderedFrom_cons h
    obtain ⟨hpairwise, hafter⟩ := ih hrest
    refine ⟨List.pairwise_cons.mpr ⟨fun entry hmem => ?_, hpairwise⟩,
      List.forall_mem_cons.mpr ⟨hwrite, fun other hmem => ?_⟩⟩
    · obtain ⟨other, hother, rfl⟩ := List.mem_map.mp hmem
      show write.absoluteOffset + (write.bytes memory).length ≤ other.absoluteOffset
      rw [length_bytes]
      exact hafter other hother
    · have hend : write.absoluteOffset ≤ write.endOffset := Nat.le_add_right _ _
      exact hwrite.trans (hend.trans (hafter other hmem))

/-! ### `buildChunks` -/

/-- What the chunks built from the pending writes are: with the filled scratch area they store
the same, they lie one behind the other from an offset on, and the part of the scratch area
that was in use before is kept. -/
structure ChunksFor (memory : ℕ → UInt8) (pending : List PendingWrite) (low : ℕ)
    (scratch : Bytes) (mergedStorageBytes : ℕ) (built : List AsyncChunk × Bytes) : Prop where
  stored : ∀ disk : Disk UInt8, disk.storeAll (built.1.map (AsyncChunk.store memory built.2)) =
    storePending memory pending disk
  pairwise : (built.1.map (AsyncChunk.store memory built.2)).Pairwise Disk.Precedes
  low_le : ∀ entry ∈ built.1.map (AsyncChunk.store memory built.2), low ≤ entry.1
  inside : ∀ entry ∈ built.1.map (AsyncChunk.store memory built.2), ∀ x, entry.1 ≤ x →
    x < entry.1 + entry.2.length → ∃ write ∈ pending, write.absoluteOffset ≤ x ∧ x < write.endOffset
  kept : ∀ off len, off + len ≤ mergedStorageBytes → slice built.2 off len = slice scratch off len

/-- Chunks that stand for a run go before the chunks of what follows it. -/
theorem ChunksFor.prepend {first : PendingWrite} {others back : List PendingWrite} {low : ℕ}
    {scratch : Bytes} {mergedStorageBytes : ℕ} {chunks : List AsyncChunk}
    {built : List AsyncChunk × Bytes} (hchain : (first :: others).IsChain Follows)
    (hlow : low ≤ first.absoluteOffset)
    (hcovers : Covers memory first others (chunks.map (AsyncChunk.store memory built.2)))
    (h : ChunksFor memory back (first.absoluteOffset + totalSize (first :: others)) scratch
      mergedStorageBytes built) :
    ChunksFor memory (first :: others ++ back) low scratch mergedStorageBytes
      (chunks ++ built.1, built.2) := by
  obtain ⟨hadjacent, hbytes⟩ := hcovers
  have hend : ∀ entry ∈ chunks.map (AsyncChunk.store memory built.2),
      first.absoluteOffset ≤ entry.1 ∧
        entry.1 + entry.2.length ≤ first.absoluteOffset + totalSize (first :: others) := by
    intro entry hmem
    have hentry := hadjacent.mem hmem
    rwa [hbytes, length_joinedBytes] at hentry
  constructor
  · intro disk
    show disk.storeAll ((chunks ++ built.1).map (AsyncChunk.store memory built.2)) = _
    rw [List.map_append, Disk.storeAll_append, Disk.storeAll_of_adjacent hadjacent, hbytes,
      h.stored, storePending_append, storePending_of_isChain hchain]
  · show ((chunks ++ built.1).map (AsyncChunk.store memory built.2)).Pairwise Disk.Precedes
    rw [List.map_append]
    refine List.pairwise_append.mpr ⟨hadjacent.pairwise, h.pairwise, fun entry hmem other hother => ?_⟩
    exact (hend entry hmem).2.trans (h.low_le other hother)
  · intro entry hmem
    have hmem' : entry ∈ (chunks ++ built.1).map (AsyncChunk.store memory built.2) := hmem
    rw [List.map_append] at hmem'
    rcases List.mem_append.mp hmem' with hfront | hback
    · exact hlow.trans (hend entry hfront).1
    · have hbehind := h.low_le entry hback
      omega
  · intro entry hmem x hx hx'
    have hmem' : entry ∈ (chunks ++ built.1).map (AsyncChunk.store memory built.2) := hmem
    rw [List.map_append] at hmem'
    rcases List.mem_append.mp hmem' with hfront | hback
    · obtain ⟨write, hwrite, hinside⟩ := exists_mem_of_isChain hchain
        ((hend entry hfront).1.trans hx) (hx'.trans_le (hend entry hfront).2)
      exact ⟨write, List.mem_append_left _ hwrite, hinside⟩
    · obtain ⟨write, hwrite, hinside⟩ := h.inside entry hback x hx hx'
      exact ⟨write, List.mem_append_right _ hwrite, hinside⟩
  · exact h.kept

/-- A run in one chunk. -/
theorem ChunksFor.prepend_one {first : PendingWrite} {others back : List PendingWrite} {low : ℕ}
    {scratch : Bytes} {mergedStorageBytes : ℕ} {chunk : AsyncChunk}
    {built : List AsyncChunk × Bytes} (hchain : (first :: others).IsChain Follows)
    (hlow : low ≤ first.absoluteOffset)
    (hchunk : chunk.store memory built.2 =
      (first.absoluteOffset, joinedBytes memory (first :: others)))
    (h : ChunksFor memory back (first.absoluteOffset + totalSize (first :: others)) scratch
      mergedStorageBytes built) :
    ChunksFor memory (first :: others ++ back) low scratch mergedStorageBytes
      (chunk :: built.1, built.2) := by
  have hcovers : Covers memory first others ([chunk].map (AsyncChunk.store memory built.2)) := by
    rw [List.map_singleton, hchunk]
    exact ⟨⟨rfl, trivial⟩, by rw [List.flatMap_cons, List.flatMap_nil, List.append_nil]⟩
  exact ChunksFor.prepend hchain hlow hcovers h

/-- **The chunks store what the pending writes store.** -/
theorem buildChunks_spec (pending : List PendingWrite) {low : ℕ} {scratch : Bytes}
    {mergedStorageBytes : ℕ} (hordered : orderedFrom (some low) pending = true)
    (hroom : mergedStorageBytes ≤ scratch.length) :
    ChunksFor memory pending low scratch mergedStorageBytes
      (buildChunks memory pending scratch mergedStorageBytes) := by
  induction hlength : pending.length using Nat.strong_induction_on
    generalizing pending low scratch mergedStorageBytes with
  | _ length ih =>
    subst hlength
    cases pending with
    | nil =>
      rw [buildChunks]
      exact ⟨fun _ => rfl, List.Pairwise.nil, by simp, by simp, fun _ _ _ => rfl⟩
    | cons first rest =>
      rw [buildChunks]
      have hlow := (orderedFrom_cons hordered).1
      split
      · have hchain : ([first] : List PendingWrite).IsChain Follows := List.IsChain.singleton first
        refine ChunksFor.prepend hchain hlow (covers_directChunks _ first)
          (ih rest.length (by simp) rest ?_ hroom rfl)
        exact orderedFrom_of_isChain hchain hordered
      · -- the run of adjacent writes, and what is left behind it
        have happend := takeAdjacent_append maxMergedBatchBytes first.absoluteOffset
          first.endOffset rest
        have hshorter := length_takeAdjacent_le maxMergedBatchBytes first.absoluteOffset
          first.endOffset rest
        have hchain := @isChain_takeAdjacent maxMergedBatchBytes first.absoluteOffset first rest
        generalize takeAdjacent maxMergedBatchBytes first.absoluteOffset first.endOffset rest =
          run at happend hshorter hchain ⊢
        subst happend
        have hback := orderedFrom_of_isChain hchain hordered
        have hless : run.2.length < (first :: (run.1 ++ run.2)).length := by
          simp only [List.length_cons]
          omega
        simp only
        split
        · rename_i hnone
          rw [hnone] at hchain hback ⊢
          refine ChunksFor.prepend_one hchain hlow ?_ (ih _ hless _ hback hroom rfl)
          simp [PendingWrite.chunk, AsyncChunk.store, joinedBytes, PendingWrite.bytes]
        split
        · exact ChunksFor.prepend hchain hlow (covers_chunks _ hchain)
            (ih _ hless _ hback hroom rfl)
        split
        · rename_i hview
          refine ChunksFor.prepend_one hchain hlow ?_ (ih _ hless _ hback hroom rfl)
          rw [AsyncChunk.store, viewBytes_of_contiguousView hview hchain]
        · obtain ⟨hfilled, hkept, hgrown⟩ := @filledScratch_spec memory scratch
            mergedStorageBytes (first :: run.1) hroom
          have hbuilt := ih _ hless _ hback hgrown rfl
          refine ChunksFor.prepend_one hchain hlow ?_
            ⟨hbuilt.stored, hbuilt.pairwise, hbuilt.low_le, hbuilt.inside,
              fun off len hoff => ?_⟩
          · rw [AsyncChunk.store, hbuilt.kept mergedStorageBytes _ (le_refl _), hfilled]
          · rw [hbuilt.kept off len (by omega), hkept off len hoff]

/-! ## Windows -/

section Windows

variable {config : Config} {os : Os}

/-- The store a landing was issued for. -/
def Landing.store (landing : Landing) : ℕ × Bytes := (landing.offset, landing.bytes)

/-- What issuing a window gives: the disk is as before, the landings belong to admitted chunks,
and they are all the chunks of the window if none was left out. -/
structure Issued (config : Config) (chunks : List (ℕ × Bytes)) (io : Io)
    (issued : Bool × List Landing × ℕ × Io) : Prop where
  disk : issued.2.2.2.disk = io.disk
  trace : issued.2.2.2.trace = io.trace
  confined : Confined config io issued.2.2.2
  mem : ∀ landing ∈ issued.2.1, landing.store ∈ chunks
  allowed : ∀ landing ∈ issued.2.1,
    rawWriteSpanAllowed config landing.offset landing.bytes.length = true
  all : issued.1 = true → issued.2.1.map Landing.store = chunks

/-- A window that is not issued. -/
theorem issued_failed {chunks : List (ℕ × Bytes)} {io after : Io} (totalIssued : ℕ)
    (hdisk : after.disk = io.disk) (htrace : after.trace = io.trace)
    (h : Confined config io after) :
    Issued config chunks io (false, [], totalIssued, after) :=
  ⟨hdisk, htrace, h, by simp, by simp, fun htrue => absurd htrue Bool.false_ne_true⟩

/-- A call that stores nothing leaves the disk. -/
theorem callSystem_same {io after : Io} {answer : Bool} (h : callSystem os io = (answer, after)) :
    after.disk = io.disk ∧ after.trace = io.trace ∧ Confined config io after := by
  have hafter : after = (callSystem os io).2 := by rw [h]
  rw [hafter]
  exact ⟨callSystem_disk, rfl, callSystem_confined⟩

theorem issueWrite_confined {offset : ℕ} {bytes : Bytes} {io : Io}
    (h : rawWriteSpanAllowed config offset bytes.length = true) :
    Confined config io (issueWrite os offset bytes io).2 := by
  intro haccepted
  refine ⟨fun range hmem => ?_, fun _ _ => rfl⟩
  rcases List.mem_cons.mp hmem with rfl | hold
  · exact .inr (within_of_rawWriteSpanAllowed h haccepted)
  · exact .inl hold

theorem issueWindow_issued (chunks : List (ℕ × Bytes)) (totalIssued : ℕ) (io : Io) :
    Issued config chunks io (issueWindow config os chunks totalIssued io) := by
  induction chunks generalizing totalIssued io with
  | nil =>
    exact ⟨rfl, rfl, Confined.refl config io, by simp [issueWindow], by simp [issueWindow],
      fun _ => rfl⟩
  | cons chunk rest ih =>
    rw [issueWindow]
    split
    · exact issued_failed _ rfl rfl (Confined.refl config io)
    split
    · exact issued_failed _ rfl rfl (Confined.refl config io)
    split
    · rename_i after hcall
      obtain ⟨hdisk, htrace, hopened⟩ := @callSystem_same config os io _ _ hcall
      exact issued_failed _ hdisk htrace hopened
    · rename_i after hcall
      obtain ⟨hdisk, htrace, hopened⟩ := @callSystem_same config os io _ _ hcall
      split
      · exact issued_failed _ hdisk htrace hopened
      · rename_i hallowed
        rw [Bool.not_eq_false] at hallowed
        have hissue := hopened.trans (@issueWrite_confined config os chunk.1 chunk.2 after hallowed)
        split
        · rename_i issued hissued
          rw [hissued] at hissue
          have hsame : issued.disk = after.disk ∧ issued.trace = after.trace := by
            rw [show issued = (issueWrite os chunk.1 chunk.2 after).2 by rw [hissued]]
            exact ⟨rfl, rfl⟩
          exact issued_failed _ (hsame.1.trans hdisk) (hsame.2.trans htrace) hissue
        · rename_i landing issued hrefused hissued
          rw [hissued] at hissue
          have hsame : issued.disk = after.disk ∧ issued.trace = after.trace := by
            rw [show issued = (issueWrite os chunk.1 chunk.2 after).2 by rw [hissued]]
            exact ⟨rfl, rfl⟩
          have hstore : landing.store = chunk := by
            rw [← congrArg (fun result => result.1.store) hissued]
            rfl
          obtain ⟨hdisk', htrace', hconfined', hmem', hallowed', hall⟩ :=
            ih (totalIssued + 1) issued
          refine ⟨hdisk'.trans (hsame.1.trans hdisk), htrace'.trans (hsame.2.trans htrace),
            hissue.trans hconfined', List.forall_mem_cons.mpr ⟨?_, fun other hother => ?_⟩,
            List.forall_mem_cons.mpr ⟨?_, hallowed'⟩, fun htrue => ?_⟩
          · rw [hstore]
            exact List.mem_cons_self
          · exact List.mem_cons_of_mem _ (hmem' other hother)
          · rw [← hstore] at hallowed
            exact hallowed
          · show landing.store :: _ = chunk :: rest
            rw [hstore, hall htrue]

/-- Landings that all completed are the stores they were issued for. -/
theorem foldl_land_of_ok {landings : List Landing} (h : ∀ landing ∈ landings, landing.ok = true)
    (disk : Disk UInt8) :
    landings.foldl Landing.land disk = disk.storeAll (landings.map Landing.store) := by
  induction landings generalizing disk with
  | nil => rfl
  | cons landing rest ih =>
    obtain ⟨hlanding, hrest⟩ := List.forall_mem_cons.mp h
    have hland : landing.land disk = disk.store landing.offset landing.bytes := by
      unfold Landing.ok at hlanding
      unfold Landing.land
      split at hlanding
      · rename_i houtcome
        rw [houtcome]
      · cases hlanding
    rw [List.foldl_cons, ih hrest, hland]
    rfl

/-- Landings of admitted chunks change nothing outside the admitted range. -/
theorem byte_foldl_land {landings : List Landing}
    (h : ∀ landing ∈ landings,
      rawWriteSpanAllowed config landing.offset landing.bytes.length = true)
    (haccepted : config.rawWriterAccepted = true) {x : ℕ}
    (hx : x < config.baseOffsetBytes ∨ config.baseOffsetBytes + config.rawWriteLimitBytes ≤ x)
    (disk : Disk UInt8) : (landings.foldl Landing.land disk).byte x = disk.byte x := by
  induction landings generalizing disk with
  | nil => rfl
  | cons landing rest ih =>
    obtain ⟨hlanding, hrest⟩ := List.forall_mem_cons.mp h
    have hwithin := within_of_rawWriteSpanAllowed hlanding haccepted
    rw [List.foldl_cons, ih hrest, byte_land_of_apart (by omega)]

theorem landWindow_confined {landings : List Landing}
    (h : ∀ landing ∈ landings,
      rawWriteSpanAllowed config landing.offset landing.bytes.length = true) (io : Io) :
    Confined config io (landWindow os landings io) := by
  intro haccepted
  refine ⟨fun range hmem => .inl hmem, fun x hx => ?_⟩
  refine byte_foldl_land (fun landing hmem => h landing ?_) haccepted hx io.disk
  exact (os.landingOrder_perm io.calls landings).mem_iff.mp hmem

/-- **Writes in flight together land as if one after another**, because they do not meet. -/
theorem landWindow_disk {landings : List Landing} (hok : landings.all Landing.ok = true)
    (hapart : (landings.map Landing.store).Pairwise Disk.StoresApart) (io : Io) :
    (landWindow os landings io).disk = io.disk.storeAll (landings.map Landing.store) := by
  have hperm := os.landingOrder_perm io.calls landings
  have hall : ∀ landing ∈ os.landingOrder io.calls landings, landing.ok = true :=
    fun landing hmem => List.all_eq_true.mp hok landing (hperm.mem_iff.mp hmem)
  show (os.landingOrder io.calls landings).foldl Landing.land io.disk = _
  rw [foldl_land_of_ok hall, Disk.storeAll_perm (hperm.symm.map Landing.store) hapart]

/-- **The loop over the windows.** -/
theorem runWindows_spec (chunks : List (ℕ × Bytes)) (totalIssued : ℕ) (io : Io)
    (hapart : chunks.Pairwise Disk.StoresApart) :
    ((runWindows config os chunks totalIssued io).1 = true →
      (runWindows config os chunks totalIssued io).2.disk = io.disk.storeAll chunks) ∧
      Confined config io (runWindows config os chunks totalIssued io).2 := by
  induction hlength : chunks.length using Nat.strong_induction_on
    generalizing chunks totalIssued io with
  | _ length ih =>
    subst hlength
    cases chunks with
    | nil =>
      rw [runWindows]
      exact ⟨fun _ => rfl, Confined.refl config io⟩
    | cons first rest =>
      rw [runWindows]
      have hissued := @issueWindow_issued config os
        ((first :: rest).take config.asyncQueueDepth) totalIssued io
      generalize issueWindow config os ((first :: rest).take config.asyncQueueDepth) totalIssued
        io = issued at hissued ⊢
      have hlanded : Confined config io (landWindow os issued.2.1 issued.2.2.2) :=
        hissued.confined.trans (landWindow_confined hissued.allowed _)
      split
      · rename_i hdone
        rw [Bool.and_eq_true] at hdone
        have hwindow := hissued.all hdone.1
        have hdrop : (first :: rest).take config.asyncQueueDepth ++
            (first :: rest).drop config.asyncQueueDepth = first :: rest := List.take_append_drop _ _
        rw [← hdrop] at hapart
        obtain ⟨hfront, hback, -⟩ := List.pairwise_append.mp hapart
        have hshorter : ((first :: rest).drop config.asyncQueueDepth).length <
            (first :: rest).length := by
          have := config.asyncQueueDepth_pos
          simp only [List.length_drop, List.length_cons]
          omega
        obtain ⟨hstored, hconfined⟩ := ih _ hshorter _ issued.2.2.1
          (landWindow os issued.2.1 issued.2.2.2) hback rfl
        refine ⟨fun htrue => ?_, hlanded.trans hconfined⟩
        rw [hstored htrue, landWindow_disk hdone.2 (hwindow ▸ hfront), hissued.disk, hwindow,
          ← Disk.storeAll_append, hdrop]
      · exact ⟨fun htrue => absurd htrue Bool.false_ne_true, hlanded⟩

end Windows

/-! ## The whole batch -/

section Batch

variable {config : Config} {os : Os} {io : Io}

/-- **The asynchronous path**, when it applies. -/
theorem tryAsyncBatch_carries {pending : List PendingWrite} {result : Bool} {after : Io}
    (h : tryAsyncBatch config os memory pending io = (some result, after)) :
    Carries config memory pending io (result, after) := by
  unfold tryAsyncBatch at h
  split at h
  · simp at h
  split at h
  · simp at h
  rename_i haligned
  simp only [asyncAligned, Bool.not_eq_false, Bool.and_eq_true] at haligned
  have hchunks := @buildChunks_spec memory pending 0 io.mergedBatchScratch 0
    (orderedFrom_zero haligned.2) (Nat.zero_le _)
  generalize buildChunks memory pending io.mergedBatchScratch 0 = built at h hchunks
  simp only at h
  split at h
  · simp at h
  split at h
  · rename_i opened hcall
    simp only [Prod.mk.injEq, Option.some.injEq] at h
    obtain ⟨rfl, rfl⟩ := h
    obtain ⟨-, -, hopened⟩ := @callSystem_same config os _ _ _ hcall
    exact Carries.failed ((Confined.of_same rfl rfl).trans hopened)
  · rename_i opened hcall
    simp only [Prod.mk.injEq, Option.some.injEq] at h
    obtain ⟨rfl, rfl⟩ := h
    obtain ⟨hdisk, -, hopened⟩ := @callSystem_same config os _ _ _ hcall
    obtain ⟨hstored, hconfined⟩ := @runWindows_spec config os
      (built.1.map (AsyncChunk.store memory built.2)) 0 opened
      (hchunks.pairwise.imp Disk.Precedes.storesApart)
    refine ⟨fun htrue => ?_, (Confined.of_same rfl rfl).trans (hopened.trans hconfined)⟩
    rw [hstored htrue, hdisk, hchunks.stored]

/-- The asynchronous path, when it does not apply. -/
theorem tryAsyncBatch_none {pending : List PendingWrite} {after : Io}
    (h : tryAsyncBatch config os memory pending io = (none, after)) :
    after.disk = io.disk ∧ after.stores = io.stores ∧ after.trace = io.trace := by
  unfold tryAsyncBatch at h
  split at h
  · simp only [Prod.mk.injEq, true_and] at h
    rw [← h]
    exact ⟨rfl, rfl, rfl⟩
  split at h
  · simp only [Prod.mk.injEq, true_and] at h
    rw [← h]
    exact ⟨rfl, rfl, rfl⟩
  simp only at h
  split at h
  · simp only [Prod.mk.injEq, true_and] at h
    rw [← h]
    exact ⟨rfl, rfl, rfl⟩
  split at h
  · simp at h
  · simp at h

theorem writePending_carries {pending : List PendingWrite}
    (hpending : ∀ write ∈ pending, write.sizeBytes ≠ 0) :
    Carries config memory pending io (writePending config os memory pending io) := by
  unfold writePending
  split
  · rename_i hasync
    exact tryAsyncBatch_carries hasync
  · rename_i after hasync
    obtain ⟨hdisk, hstores, -⟩ := tryAsyncBatch_none hasync
    obtain ⟨hstored, hconfined⟩ := @writeSequential_carries memory config os after pending hpending
    rw [hdisk] at hstored
    exact ⟨hstored, (Confined.of_same hdisk hstores).trans hconfined⟩

/-- **Sorting the writes changes nothing**: it is only done when they do not overlap. -/
theorem storePending_orderPending (pending : List PendingWrite) (disk : Disk UInt8) :
    storePending memory (orderPending pending) disk = storePending memory pending disk := by
  unfold orderPending
  split
  · rfl
  simp only
  split
  · rename_i hordered
    obtain ⟨hpairwise, -⟩ := @pairwise_of_orderedFrom memory 0 _ (orderedFrom_zero hordered)
    exact Disk.storeAll_perm ((sortBy_perm pending _).map (PendingWrite.store memory))
      (hpairwise.imp Disk.Precedes.storesApart) disk
  · rfl

theorem mem_orderPending {pending : List PendingWrite} {write : PendingWrite}
    (h : write ∈ orderPending pending) : write ∈ pending := by
  unfold orderPending at h
  split at h
  · exact h
  simp only at h
  split at h
  · exact (sortBy_perm pending _).mem_iff.mp h
  · exact h

/-- A span as a store. -/
def WriteSpan.store (config : Config) (memory : ℕ → UInt8) (write : WriteSpan) : ℕ × Bytes :=
  (write.offsetBytes + config.baseOffsetBytes, viewBytes memory write.data write.sizeBytes)

/-- Spans of no bytes store nothing. -/
theorem storeAll_filter (writes : List WriteSpan) (disk : Disk UInt8) :
    disk.storeAll ((writes.filter fun write => write.sizeBytes != 0).map
      (WriteSpan.store config memory)) = disk.storeAll (writes.map (WriteSpan.store config memory)) := by
  induction writes generalizing disk with
  | nil => rfl
  | cons write rest ih =>
    rw [List.filter_cons]
    split
    · rw [List.map_cons, Disk.storeAll_cons, ih, List.map_cons, Disk.storeAll_cons]
    · rename_i hzero
      simp only [bne_iff_ne, ne_eq, not_not] at hzero
      have hempty : (write.store config memory).2 = [] := by
        show viewBytes memory write.data write.sizeBytes = []
        rw [hzero]
        rfl
      rw [ih, List.map_cons, Disk.storeAll_cons, hempty, Disk.store_nil]

/-- The pending writes of the spans store what the spans store. -/
theorem storePending_map (writes : List WriteSpan) (disk : Disk UInt8) :
    storePending memory (writes.map (WriteSpan.pending config)) disk =
      disk.storeAll (writes.map (WriteSpan.store config memory)) := by
  rw [storePending, List.map_map]
  rfl

/-- A byte that no store of a list covers keeps its value. -/
theorem byte_storeAll_of_apart {stores : List (ℕ × Bytes)} {x : ℕ}
    (h : ∀ entry ∈ stores, x < entry.1 ∨ entry.1 + entry.2.length ≤ x) (disk : Disk UInt8) :
    (disk.storeAll stores).byte x = disk.byte x := by
  induction stores generalizing disk with
  | nil => rfl
  | cons entry rest ih =>
    obtain ⟨hentry, hrest⟩ := List.forall_mem_cons.mp h
    rw [Disk.storeAll_cons, ih hrest, Disk.byte_store_of_apart hentry]

theorem openForWrite_same {answer : Bool} {after : Io} (h : openForWrite os io = (answer, after)) :
    after.disk = io.disk ∧ after.trace = io.trace ∧ Confined config io after := by
  unfold openForWrite at h
  split at h
  · rename_i opened hcall
    simp only [Prod.mk.injEq] at h
    rw [← h.2]
    exact callSystem_same hcall
  · rename_i opened hcall
    obtain ⟨hdisk, htrace, hconfined⟩ := @callSystem_same config os io _ _ hcall
    obtain ⟨hdisk', htrace', hconfined'⟩ := @callSystem_same config os opened _ _ h
    exact ⟨hdisk'.trans hdisk, htrace'.trans htrace, hconfined.trans hconfined'⟩

theorem writeOne_confined {write : WriteSpan} :
    Confined config io (writeOne config os memory write io).2 := by
  unfold writeOne
  split
  · rename_i hopen
    exact (openForWrite_same hopen).2.2
  · rename_i hopen
    exact (openForWrite_same hopen).2.2.trans writeLocked_confined

theorem writeEach_confined (writes : List WriteSpan) :
    Confined config io (writeEach config os memory writes io).2 := by
  induction writes generalizing io with
  | nil => exact Confined.refl config io
  | cons write rest ih =>
    have hone := @writeOne_confined memory config os io write
    rw [writeEach]
    split
    · rename_i hwrite
      rwa [hwrite] at hone
    · rename_i hwrite
      rw [hwrite] at hone
      exact hone.trans ih

/-- In a fault mode a batch with something to write fails. -/
theorem writeEach_fault {writes : List WriteSpan} (hfault : config.faultMode.isSome = true)
    (hne : writes ≠ []) (hwrites : ∀ write ∈ writes, write.sizeBytes ≠ 0) :
    (writeEach config os memory writes io).1 = false := by
  obtain ⟨mode, hmode⟩ := Option.isSome_iff_exists.mp hfault
  cases writes with
  | nil => exact absurd rfl hne
  | cons write rest =>
    have hone : (writeOne config os memory write io).1 = false := by
      unfold writeOne
      split
      · rfl
      · rw [hmode]
        exact writeLocked_fault_fst (bytes_ne_nil (hwrites write (by simp)))
    rw [writeEach]
    split
    · rfl
    · rename_i hwrite
      rw [hwrite] at hone
      cases hone

/-- The paths of a batch, for the spans that have bytes. -/
theorem writeBatch_carries (writes : List WriteSpan) :
    Carries config memory
      ((writes.filter fun write => write.sizeBytes != 0).map (WriteSpan.pending config)) io
      (writeBatch config os memory writes io) := by
  have hsizes : ∀ write ∈ writes.filter (fun write => write.sizeBytes != 0),
      write.sizeBytes ≠ 0 := by
    intro write hmem
    simpa using (List.mem_filter.mp hmem).2
  unfold writeBatch
  generalize writes.filter (fun write => write.sizeBytes != 0) = nonEmpty at hsizes ⊢
  have hpending : ∀ write ∈ nonEmpty.map (WriteSpan.pending config), write.sizeBytes ≠ 0 := by
    intro write hmem
    obtain ⟨span, hspan, rfl⟩ := List.mem_map.mp hmem
    exact hsizes span hspan
  simp only
  split
  · exact Carries.failed (Confined.refl config io)
  split
  · exact Carries.failed (Confined.refl config io)
  split
  · rename_i hempty
    rw [hempty]
    exact ⟨fun _ => rfl, Confined.refl config io⟩
  rename_i hne
  split
  · rename_i hfault
    refine ⟨fun htrue => ?_, writeEach_confined nonEmpty⟩
    rw [writeEach_fault hfault hne hsizes] at htrue
    cases htrue
  split
  · rename_i hopen
    exact Carries.failed (openForWrite_same hopen).2.2
  · rename_i after hopen
    obtain ⟨hdisk, -, hopened⟩ := @openForWrite_same config os io _ _ hopen
    -- what is left starts from the open device, whose disk is the one before
    have hlift : ∀ {result : Bool × Io} {pending : List PendingWrite},
        Carries config memory pending after result → Carries config memory pending io result :=
      fun h => ⟨fun htrue => by rw [h.stored htrue, hdisk], hopened.trans h.confined⟩
    split
    · split
      · exact hlift (writePending_carries hpending)
      · exact hlift (writeLocked_carries _)
    · refine hlift ?_
      obtain ⟨hstored, hconfined⟩ := @writePending_carries memory config os after
        (orderPending (nonEmpty.map (WriteSpan.pending config)))
        fun write hmem => hpending write (mem_orderPending hmem)
      rw [storePending_orderPending] at hstored
      exact ⟨hstored, hconfined⟩

end Batch

/-- **A batch that succeeded is its spans, written one after another in caller order**; bytes
outside the spans are unchanged, and, succeed or fail, a raw writer stays in the range it was
admitted to. -/
theorem writeBatch_refines_plain_writes (config : Config) (os : Os) (memory : ℕ → UInt8)
    (writes : List WriteSpan) (io : Io) :
    ((writeBatch config os memory writes io).1 = true →
      (writeBatch config os memory writes io).2.disk =
          io.disk.storeAll (writes.map (WriteSpan.store config memory)) ∧
        ∀ x, (∀ write ∈ writes, x < write.offsetBytes + config.baseOffsetBytes ∨
            write.offsetBytes + config.baseOffsetBytes + write.sizeBytes ≤ x) →
          (writeBatch config os memory writes io).2.disk.byte x = io.disk.byte x) ∧
      Confined config io (writeBatch config os memory writes io).2 := by
  obtain ⟨hstored, hconfined⟩ := @writeBatch_carries memory config os io writes
  refine ⟨fun htrue => ?_, hconfined⟩
  have hdisk := hstored htrue
  rw [storePending_map, storeAll_filter] at hdisk
  refine ⟨hdisk, fun x hx => ?_⟩
  rw [hdisk]
  refine byte_storeAll_of_apart (fun entry hmem => ?_) io.disk
  obtain ⟨write, hwrite, rfl⟩ := List.mem_map.mp hmem
  have hlength : (write.store config memory).2.length = write.sizeBytes := length_viewBytes _ _ _
  rw [hlength]
  exact hx write hwrite

/-- A raw writer admitted to eight kilobytes from the first four on. -/
def sampleConfig : Config where
  baseOffsetBytes := 4096
  rawWriterAccepted := true
  rawWriteLimitBytes := 8192
  logicalBlockSize := 512
  stableReadOnlyImage := false
  asyncBlockIoEnabled := true
  asyncQueueDepth := 4
  failAfterIssues := none
  faultMode := none
  logicalBlockSize_ge := by decide
  asyncQueueDepth_pos := by decide
  asyncQueueDepth_le := by decide

/-- A system on which every call completes and writes land as issued. -/
def completingOs : Os where
  outcome _ := .completed
  landingOrder _ landings := landings
  landingOrder_perm _ _ := List.Perm.refl _

/-- Two overlapping spans inside one block, which are written as one group. -/
def overlappingSpans : List WriteSpan := [⟨0, 100, 3, 0⟩, ⟨2, 200, 3, 0⟩]

/-- A disk of sixteen kilobytes of zeros. -/
def zeroIo : Io := ⟨⟨16384, fun _ => 0⟩, 0, [], [], []⟩

/-- Memory in which every byte is its own address. -/
def countingMemory (address : ℕ) : UInt8 := UInt8.ofNat address

/-- The two spans, pending. -/
def overlappingPending : List PendingWrite := [⟨4096, 100, 3, 0⟩, ⟨4098, 200, 3, 0⟩]

/-- The window of the two spans. -/
def overlappingWindow : RmwWindow := ⟨4096, 4608, 4096, 4101, 4101, true⟩

theorem writeRmwGroup_overlapping :
    (writeRmwGroup sampleConfig completingOs countingMemory overlappingWindow overlappingPending
      { zeroIo with calls := 2 }).1 = true := by
  decide +kernel

theorem writeSequential_overlapping :
    (writeSequential sampleConfig completingOs countingMemory overlappingPending
      { zeroIo with calls := 2 }).1 = true := by
  have hgroup : rmwGroup sampleConfig.logicalBlockSize overlappingPending =
      some (overlappingWindow, overlappingPending, []) := by decide
  unfold overlappingPending at hgroup ⊢
  rw [writeSequential]
  split
  · rename_i window group left hfound
    rw [hgroup] at hfound
    simp only [Option.some.injEq, Prod.mk.injEq] at hfound
    obtain ⟨rfl, rfl, rfl⟩ := hfound
    simp only
    split
    · rename_i hfalse
      exact absurd (hfalse.symm.trans writeRmwGroup_overlapping) Bool.false_ne_true
    · rw [writeSequential]
  · rename_i hnone
    rw [hgroup] at hnone
    cases hnone

/-- The overlapping spans are written, and the second wins where they meet. -/
theorem writeBatch_overlappingSpans :
    (writeBatch sampleConfig completingOs countingMemory overlappingSpans zeroIo).1 = true ∧
      (writeBatch sampleConfig completingOs countingMemory overlappingSpans zeroIo).2.disk =
        zeroIo.disk.storeAll (overlappingSpans.map (WriteSpan.store sampleConfig countingMemory)) ∧
      Confined sampleConfig zeroIo
        (writeBatch sampleConfig completingOs countingMemory overlappingSpans zeroIo).2 := by
  have hpending : orderPending (overlappingSpans.map (WriteSpan.pending sampleConfig)) =
      overlappingPending := by decide
  have hasync : tryAsyncBatch sampleConfig completingOs countingMemory overlappingPending
      { zeroIo with calls := 2 } = (none, { zeroIo with calls := 2 }) := by rfl
  have htrue : (writeBatch sampleConfig completingOs countingMemory overlappingSpans zeroIo).1 =
      true := by
    show (writePending sampleConfig completingOs countingMemory
      (orderPending (overlappingSpans.map (WriteSpan.pending sampleConfig)))
      { zeroIo with calls := 2 }).1 = true
    rw [hpending, writePending, hasync]
    exact writeSequential_overlapping
  obtain ⟨hstored, hconfined⟩ := writeBatch_refines_plain_writes sampleConfig completingOs
    countingMemory overlappingSpans zeroIo
  exact ⟨htrue, (hstored htrue).1, hconfined⟩

end Device
end ApfsAccess
