import ApfsAccess.Device.BlockIo
import ApfsAccess.Library.Sorting

/-!
# Batched writes

`WriteBatch` takes a list of spans and may sort them, merge adjacent ones, hand chunks to
the system several at a time, or put a group of nearby spans into one window that is read,
changed and written back.  This module embeds all of these paths; the spans are views of
the caller's memory, so that a run of spans that is one stretch of memory can be written
from there.

The decisions (`takeAdjacent`, `contiguousView`, `buildChunks`, `rmwGroup`, `takeChunk`)
look at the spans alone; `writeLocked`, `issueWindow` and `writeRmwGroup` touch the disk.
-/

namespace ApfsAccess
namespace Device

open Format ByteBuffer Storage Sorting

/-- `kMaxMergedBatchBytes`. -/
def maxMergedBatchBytes : ℕ := 1024 * 1024

/-- `kMaxDirectAsyncChunkBytes`. -/
def maxDirectAsyncChunkBytes : ℕ := 2 * 1024 * 1024

/-- `kMinAsyncSingleWriteBytes`. -/
def minAsyncSingleWriteBytes : ℕ := 4 * 1024 * 1024

/-- `kMinAsyncDirectAdjacentSpanBytes`. -/
def minAsyncDirectAdjacentSpanBytes : ℕ := 64 * 1024

/-- `kMaxRmwGroupBytes`. -/
def maxRmwGroupBytes : ℕ := 64 * 1024

/-- `kMaxRmwGroupGapBytes`. -/
def maxRmwGroupGapBytes : ℕ := 16 * 1024

/-- `kMaxRmwGroupWrites`. -/
def maxRmwGroupWrites : ℕ := 8

/-- `WriteSpan`: the buffer is a view of memory, and a null pointer or token is zero. -/
structure WriteSpan where
  offsetBytes : ℕ
  data : ℕ
  sizeBytes : ℕ
  mergeToken : ℕ
  deriving DecidableEq, Repr

/-- `PendingWrite`. -/
structure PendingWrite where
  absoluteOffset : ℕ
  data : ℕ
  sizeBytes : ℕ
  mergeToken : ℕ
  deriving DecidableEq, Repr

/-- The bytes of a view of memory. -/
def viewBytes (memory : ℕ → UInt8) (data sizeBytes : ℕ) : Bytes :=
  (List.range sizeBytes).map fun i => memory (data + i)

/-- The bytes of a pending write. -/
def PendingWrite.bytes (memory : ℕ → UInt8) (write : PendingWrite) : Bytes :=
  viewBytes memory write.data write.sizeBytes

/-- The end of a pending write. -/
def PendingWrite.endOffset (write : PendingWrite) : ℕ := write.absoluteOffset + write.sizeBytes

/-! ## Order and overlap -/

/-- The loop that tests whether the writes are ordered and do not overlap; `previousEnd` is the
end of the write before. -/
def orderedFrom : Option ℕ → List PendingWrite → Bool
  | _, [] => true
  | previousEnd, write :: rest =>
    if uint64Max - write.sizeBytes < write.absoluteOffset then false
    else if previousEnd.any (fun previous => write.absoluteOffset < previous) then false
    else orderedFrom (some write.endOffset) rest

/-- The writes in the order in which they are made: sorted by offset when they are out of order
and the sorted ones do not overlap. -/
def orderPending (pending : List PendingWrite) : List PendingWrite :=
  if pending.length ≤ 1 ∨ orderedFrom none pending = true then pending
  else
    let sortedPending := sortBy pending fun left right => left.absoluteOffset ≤ right.absoluteOffset
    if orderedFrom none sortedPending = true then sortedPending else pending

/-! ## Runs of adjacent writes -/

/-- The writes that follow one another without a gap, up to a limit on the whole run. -/
def takeAdjacent (limit start physicalEnd : ℕ) :
    List PendingWrite → List PendingWrite × List PendingWrite
  | [] => ([], [])
  | next :: rest =>
    if next.absoluteOffset ≠ physicalEnd ∨ uint64Max - physicalEnd < next.sizeBytes then
      ([], next :: rest)
    else if limit < physicalEnd + next.sizeBytes - start then ([], next :: rest)
    else
      let taken := takeAdjacent limit start (physicalEnd + next.sizeBytes) rest
      (next :: taken.1, taken.2)

theorem takeAdjacent_append (limit start physicalEnd : ℕ) (writes : List PendingWrite) :
    (takeAdjacent limit start physicalEnd writes).1 ++
      (takeAdjacent limit start physicalEnd writes).2 = writes := by
  induction writes generalizing physicalEnd with
  | nil => rfl
  | cons next rest ih =>
    rw [takeAdjacent]
    split
    · rfl
    split
    · rfl
    · exact congrArg (next :: ·) (ih (physicalEnd + next.sizeBytes))

theorem length_takeAdjacent_le (limit start physicalEnd : ℕ) (writes : List PendingWrite) :
    (takeAdjacent limit start physicalEnd writes).2.length ≤ writes.length := by
  have happend := congrArg List.length (takeAdjacent_append limit start physicalEnd writes)
  rw [List.length_append] at happend
  omega

/-- Whether a run of writes is one stretch of the caller's memory. -/
def contiguousView (first : PendingWrite) (others : List PendingWrite) : Bool :=
  first.mergeToken != 0 && first.data != 0 && others.all fun write =>
    write.mergeToken == first.mergeToken &&
      write.absoluteOffset - first.absoluteOffset ≤ 2 ^ 63 - 1 &&
      write.data == first.data + (write.absoluteOffset - first.absoluteOffset)

/-- The number of bytes of a list of writes. -/
def totalSize (writes : List PendingWrite) : ℕ := (writes.map PendingWrite.sizeBytes).sum

/-- The bytes of a list of writes, one after the other. -/
def joinedBytes (memory : ℕ → UInt8) (writes : List PendingWrite) : Bytes :=
  writes.flatMap (PendingWrite.bytes memory)

/-- `EnsureMergedBatchScratch`: the scratch area afterwards. -/
def ensureMergedBatchScratch (scratch : Bytes) (bytes preserveBytes : ℕ) : Bytes :=
  if bytes = 0 then scratch
  else if bytes ≤ scratch.length then scratch
  else
    let kept := scratch.take (min preserveBytes (min bytes scratch.length))
    kept ++ List.replicate (bytes - kept.length) 0

/-! ## The asynchronous path -/

/-- `AsyncChunk`: a view of the caller's memory, or a part of the scratch area. -/
inductive AsyncChunk where
  | view (absoluteOffset data sizeBytes : ℕ)
  | merged (absoluteOffset storageOffset storageBytes : ℕ)
  deriving DecidableEq, Repr

/-- The chunk of a whole write. -/
def PendingWrite.chunk (write : PendingWrite) : AsyncChunk :=
  .view write.absoluteOffset write.data write.sizeBytes

/-- The pieces a large write is split into. -/
def directChunks (write : PendingWrite) : List AsyncChunk :=
  (List.range ((write.sizeBytes + maxDirectAsyncChunkBytes - 1) / maxDirectAsyncChunkBytes)).map
    fun index =>
      .view (write.absoluteOffset + index * maxDirectAsyncChunkBytes)
        (write.data + index * maxDirectAsyncChunkBytes)
        (min maxDirectAsyncChunkBytes (write.sizeBytes - index * maxDirectAsyncChunkBytes))

/-- The loop that turns the pending writes into chunks, with the scratch area as it is filled. -/
def buildChunks (memory : ℕ → UInt8) (pending : List PendingWrite) (scratch : Bytes)
    (mergedStorageBytes : ℕ) : List AsyncChunk × Bytes :=
  match pending with
  | [] => ([], scratch)
  | first :: rest =>
    if maxMergedBatchBytes < first.sizeBytes then
      let built := buildChunks memory rest scratch mergedStorageBytes
      (directChunks first ++ built.1, built.2)
    else
      let run := takeAdjacent maxMergedBatchBytes first.absoluteOffset first.endOffset rest
      if run.1 = [] then
        let built := buildChunks memory run.2 scratch mergedStorageBytes
        (first.chunk :: built.1, built.2)
      else if (first :: run.1).all
          (fun write => minAsyncDirectAdjacentSpanBytes ≤ write.sizeBytes) then
        let built := buildChunks memory run.2 scratch mergedStorageBytes
        ((first :: run.1).map PendingWrite.chunk ++ built.1, built.2)
      else if contiguousView first run.1 then
        let built := buildChunks memory run.2 scratch mergedStorageBytes
        (.view first.absoluteOffset first.data (totalSize (first :: run.1)) :: built.1, built.2)
      else
        let mergedBytes := totalSize (first :: run.1)
        let grown := ensureMergedBatchScratch scratch (mergedStorageBytes + mergedBytes)
          mergedStorageBytes
        let filled := splice grown mergedStorageBytes (joinedBytes memory (first :: run.1))
        let built := buildChunks memory run.2 filled (mergedStorageBytes + mergedBytes)
        (.merged first.absoluteOffset mergedStorageBytes mergedBytes :: built.1, built.2)
termination_by pending.length
decreasing_by
  · simp only [List.length_cons]
    omega
  all_goals
    have := length_takeAdjacent_le maxMergedBatchBytes first.absoluteOffset first.endOffset rest
    simp only [List.length_cons]
    omega

/-- A chunk as a store: its offset and the bytes handed to the system. -/
def AsyncChunk.store (memory : ℕ → UInt8) (scratch : Bytes) : AsyncChunk → ℕ × Bytes
  | .view absoluteOffset data sizeBytes => (absoluteOffset, viewBytes memory data sizeBytes)
  | .merged absoluteOffset storageOffset storageBytes =>
    (absoluteOffset, slice scratch storageOffset storageBytes)

/-- The issue of a window of chunks, up to the first that cannot be issued: whether all were,
the ones that were, and how many have been issued in all. -/
def issueWindow (config : Config) (os : Os) : List (ℕ × Bytes) → ℕ → Io →
    Bool × List Landing × ℕ × Io
  | [], totalIssued, io => (true, [], totalIssued, io)
  | chunk :: rest, totalIssued, io =>
    if config.failAfterIssues.any (fun limit => limit ≤ totalIssued) then
      (false, [], totalIssued, io)
    else if dwordMax < chunk.2.length then (false, [], totalIssued, io)
    else
      match callSystem os io with
      | (false, io) => (false, [], totalIssued, io)
      | (true, io) =>
        if rawWriteSpanAllowed config chunk.1 chunk.2.length = false then
          (false, [], totalIssued, io)
        else
          match issueWrite os chunk.1 chunk.2 io with
          | (⟨_, _, .refused⟩, io) => (false, [], totalIssued, io)
          | (landing, io) =>
            let issued := issueWindow config os rest (totalIssued + 1) io
            (issued.1, landing :: issued.2.1, issued.2.2)

/-- Whether a landing completed. -/
def Landing.ok (landing : Landing) : Bool :=
  match landing.outcome with
  | .completed => true
  | _ => false

/-- What others see of landings, one after another. -/
def landingEvents : Disk UInt8 → List Landing → List DeviceEvent
  | _, [] => []
  | disk, landing :: rest =>
    .landed landing.offset landing.bytes.length (landing.land disk) ::
      landingEvents (landing.land disk) rest

/-- The writes of a window land, in the order of the system. -/
def landWindow (os : Os) (landings : List Landing) (io : Io) : Io :=
  { io with
    disk := (os.landingOrder io.calls landings).foldl Landing.land io.disk
    calls := io.calls + 1
    trace := io.trace ++ landingEvents io.disk (os.landingOrder io.calls landings) }

/-- The loop over the windows of chunks. -/
def runWindows (config : Config) (os : Os) (chunks : List (ℕ × Bytes)) (totalIssued : ℕ)
    (io : Io) : Bool × Io :=
  match chunks with
  | [] => (true, io)
  | first :: rest =>
    let issued := issueWindow config os ((first :: rest).take config.asyncQueueDepth) totalIssued io
    let landed := landWindow os issued.2.1 issued.2.2.2
    if issued.1 && issued.2.1.all Landing.ok then
      runWindows config os ((first :: rest).drop config.asyncQueueDepth) issued.2.2.1 landed
    else (false, landed)
termination_by chunks.length
decreasing_by
  have := config.asyncQueueDepth_pos
  simp only [List.length_drop, List.length_cons]
  omega

/-- The test at the start of the asynchronous path: whole blocks, in order, without overlap. -/
def asyncAligned (blockSize : ℕ) (pending : List PendingWrite) : Bool :=
  pending.all (fun write => write.sizeBytes != 0 && write.absoluteOffset % blockSize == 0 &&
    write.sizeBytes % blockSize == 0) && orderedFrom none pending

/-- `try_async_batch`: nothing when the path does not apply. -/
def tryAsyncBatch (config : Config) (os : Os) (memory : ℕ → UInt8) (pending : List PendingWrite)
    (io : Io) : Option Bool × Io :=
  if config.asyncBlockIoEnabled = false ∨ (pending.length < 2 ∧
      ¬(pending.length = 1 ∧ ∀ write ∈ pending, minAsyncSingleWriteBytes ≤ write.sizeBytes)) then
    (none, io)
  else if asyncAligned config.logicalBlockSize pending = false then (none, io)
  else
    let built := buildChunks memory pending io.mergedBatchScratch 0
    let io := { io with mergedBatchScratch := built.2 }
    if built.1.length < 2 then (none, io)
    else
      match callSystem os io with
      | (false, io) => (some false, io)
      | (true, io) =>
        let written := runWindows config os (built.1.map (AsyncChunk.store memory built.2)) 0 io
        (some written.1, written.2)

/-! ## Grouped read-modify-write -/

/-- The window of a group as it grows. -/
structure RmwWindow where
  groupStart : ℕ
  groupEnd : ℕ
  actualStart : ℕ
  actualEnd : ℕ
  previousWriteEnd : ℕ
  hasNonContiguousSpan : Bool
  deriving DecidableEq, Repr

/-- The gap between a candidate and the spans of a group. -/
def rmwGap (window : RmwWindow) (candidate : PendingWrite) : ℕ :=
  if window.actualEnd ≤ candidate.absoluteOffset then
    candidate.absoluteOffset - window.actualEnd
  else if candidate.endOffset ≤ window.actualStart then window.actualStart - candidate.endOffset
  else 0

/-- The window with a candidate taken in. -/
def RmwWindow.extend (blockSize : ℕ) (window : RmwWindow) (candidate : PendingWrite) :
    RmwWindow where
  groupStart := alignDown (min window.actualStart candidate.absoluteOffset) blockSize
  groupEnd := alignUp (max window.actualEnd candidate.endOffset) blockSize
  actualStart := min window.actualStart candidate.absoluteOffset
  actualEnd := max window.actualEnd candidate.endOffset
  previousWriteEnd := candidate.endOffset
  hasNonContiguousSpan := window.hasNonContiguousSpan ||
    candidate.absoluteOffset != window.previousWriteEnd

/-- A window that cannot be used. -/
def RmwWindow.tooLarge (window : RmwWindow) : Bool :=
  window.groupEnd == 0 || window.groupEnd < window.groupStart ||
    maxRmwGroupBytes < window.groupEnd - window.groupStart

/-- The loop that collects a group: the window, the candidates taken in, and those left. -/
def collectRmwGroup (blockSize : ℕ) : ℕ → RmwWindow → List PendingWrite →
    Option (RmwWindow × List PendingWrite × List PendingWrite)
  | 0, window, rest => some (window, [], rest)
  | _ + 1, window, [] => some (window, [], [])
  | room + 1, window, candidate :: rest =>
    if candidate.sizeBytes = 0 ∨
        uint64Max - candidate.sizeBytes < candidate.absoluteOffset then none
    else if maxRmwGroupGapBytes < rmwGap window candidate then some (window, [], candidate :: rest)
    else if (window.extend blockSize candidate).tooLarge then some (window, [], candidate :: rest)
    else
      (collectRmwGroup blockSize room (window.extend blockSize candidate) rest).map
        fun collected => (collected.1, candidate :: collected.2.1, collected.2.2)

/-- The first part of `try_rmw_group`: the group that starts at the front, when there is one. -/
def rmwGroup (blockSize : ℕ) (pending : List PendingWrite) :
    Option (RmwWindow × List PendingWrite × List PendingWrite) :=
  match pending with
  | [] => none
  | first :: rest =>
    if first.sizeBytes = 0 ∨ uint64Max - first.sizeBytes < first.absoluteOffset then none
    else if first.absoluteOffset % blockSize = 0 ∧ first.sizeBytes % blockSize = 0 then none
    else
      let window : RmwWindow :=
        { groupStart := alignDown first.absoluteOffset blockSize
          groupEnd := alignUp first.endOffset blockSize
          actualStart := first.absoluteOffset
          actualEnd := first.endOffset
          previousWriteEnd := first.endOffset
          hasNonContiguousSpan := false }
      if window.tooLarge then none
      else
        match collectRmwGroup blockSize (maxRmwGroupWrites - 1) window rest with
        | none => none
        | some (grown, taken, left) =>
          if taken = [] ∨ grown.hasNonContiguousSpan = false then none
          else some (grown, first :: taken, left)

/-- Putting the spans of a group into its window, in caller order; nothing when a span does not
lie inside. -/
def fillRmwWindow (memory : ℕ → UInt8) (groupStart : ℕ) :
    Bytes → List PendingWrite → Option Bytes
  | window, [] => some window
  | window, write :: rest =>
    if write.absoluteOffset < groupStart ∨ window.length < write.absoluteOffset - groupStart ∨
        window.length - (write.absoluteOffset - groupStart) < write.sizeBytes then none
    else fillRmwWindow memory groupStart
      (splice window (write.absoluteOffset - groupStart) (write.bytes memory)) rest

/-- The second part of `try_rmw_group`: the window is read, changed and written back. -/
def writeRmwGroup (config : Config) (os : Os) (memory : ℕ → UInt8) (window : RmwWindow)
    (group : List PendingWrite) (io : Io) : Bool × Io :=
  match readAt os window.groupStart (window.groupEnd - window.groupStart) io with
  | (none, io) => (false, io)
  | (some bytes, io) =>
    match fillRmwWindow memory window.groupStart bytes group with
    | none => (false, io)
    | some filled =>
      -- the gaps between the spans are rewritten too
      let invalidated := DeviceEvent.invalidated window.groupStart
        (window.groupEnd - window.groupStart)
      writeAt config os window.groupStart filled { io with trace := io.trace ++ [invalidated] }

/-! ## The sequential path -/

/-- The writes of the next chunk of a run: up to one megabyte, or one larger write alone. -/
def takeChunk : ℕ → List PendingWrite → List PendingWrite × List PendingWrite
  | _, [] => ([], [])
  | chunkBytes, write :: rest =>
    if maxMergedBatchBytes < write.sizeBytes then ([], write :: rest)
    else if maxMergedBatchBytes - write.sizeBytes < chunkBytes then ([], write :: rest)
    else
      let taken := takeChunk (chunkBytes + write.sizeBytes) rest
      (write :: taken.1, taken.2)

theorem takeChunk_append (chunkBytes : ℕ) (writes : List PendingWrite) :
    (takeChunk chunkBytes writes).1 ++ (takeChunk chunkBytes writes).2 = writes := by
  induction writes generalizing chunkBytes with
  | nil => rfl
  | cons write rest ih =>
    rw [takeChunk]
    split
    · rfl
    split
    · rfl
    · exact congrArg (write :: ·) (ih (chunkBytes + write.sizeBytes))

/-- A chunk of several writes: from the caller's memory when it is one stretch there, and from
the scratch area otherwise. -/
def writeMergedChunk (config : Config) (os : Os) (memory : ℕ → UInt8) (first : PendingWrite)
    (others : List PendingWrite) (io : Io) : Bool × Io :=
  if contiguousView first others then
    writeLocked config os none first.absoluteOffset
      (viewBytes memory first.data (totalSize (first :: others))) io
  else
    let grown := ensureMergedBatchScratch io.mergedBatchScratch (totalSize (first :: others)) 0
    let filled := splice grown 0 (joinedBytes memory (first :: others))
    writeLocked config os none first.absoluteOffset
      (slice filled 0 (totalSize (first :: others))) { io with mergedBatchScratch := filled }

/-- The other writes of the chunk that starts with a write; one above the limit is a chunk of
its own. -/
def chunkAfter (first : PendingWrite) (rest : List PendingWrite) :
    List PendingWrite × List PendingWrite :=
  if maxMergedBatchBytes < first.sizeBytes then ([], rest) else takeChunk first.sizeBytes rest

theorem chunkAfter_append (first : PendingWrite) (rest : List PendingWrite) :
    (chunkAfter first rest).1 ++ (chunkAfter first rest).2 = rest := by
  unfold chunkAfter
  split
  · rfl
  · exact takeChunk_append _ _

theorem length_chunkAfter_le (first : PendingWrite) (rest : List PendingWrite) :
    (chunkAfter first rest).2.length ≤ rest.length := by
  have happend := congrArg List.length (chunkAfter_append first rest)
  rw [List.length_append] at happend
  omega

/-- The loop over the chunks of a run of adjacent writes. -/
def writeChunks (config : Config) (os : Os) (memory : ℕ → UInt8) (run : List PendingWrite)
    (io : Io) : Bool × Io :=
  match run with
  | [] => (true, io)
  | first :: rest =>
    let chunk := chunkAfter first rest
    let written := if chunk.1 = [] then
        writeLocked config os none first.absoluteOffset (first.bytes memory) io
      else writeMergedChunk config os memory first chunk.1 io
    if written.1 = false then (false, written.2)
    else writeChunks config os memory chunk.2 written.2
termination_by run.length
decreasing_by
  have := length_chunkAfter_le first rest
  simp only [List.length_cons]
  omega

/-- The candidates taken in and those left are the candidates. -/
theorem collectRmwGroup_append {blockSize room : ℕ} {window grown : RmwWindow}
    {rest taken left : List PendingWrite}
    (h : collectRmwGroup blockSize room window rest = some (grown, taken, left)) :
    taken ++ left = rest := by
  induction room generalizing window rest taken with
  | zero =>
    simp only [collectRmwGroup, Option.some.injEq, Prod.mk.injEq] at h
    rw [← h.2.1, ← h.2.2, List.nil_append]
  | succ room ih =>
    cases rest with
    | nil =>
      simp only [collectRmwGroup, Option.some.injEq, Prod.mk.injEq] at h
      rw [← h.2.1, ← h.2.2, List.nil_append]
    | cons candidate rest =>
      rw [collectRmwGroup] at h
      split at h
      · cases h
      split at h
      · simp only [Option.some.injEq, Prod.mk.injEq] at h
        rw [← h.2.1, ← h.2.2, List.nil_append]
      split at h
      · simp only [Option.some.injEq, Prod.mk.injEq] at h
        rw [← h.2.1, ← h.2.2, List.nil_append]
      · obtain ⟨⟨grown', taken', left'⟩, hcollected, heq⟩ := Option.map_eq_some_iff.mp h
        simp only [Prod.mk.injEq] at heq
        obtain ⟨rfl, rfl, rfl⟩ := heq
        rw [List.cons_append, ih hcollected]

/-- A group is not empty, and with the writes left it is the pending writes. -/
theorem rmwGroup_append {blockSize : ℕ} {pending group left : List PendingWrite}
    {window : RmwWindow} (h : rmwGroup blockSize pending = some (window, group, left)) :
    group ++ left = pending ∧ group ≠ [] := by
  unfold rmwGroup at h
  split at h
  · cases h
  split at h
  · cases h
  split at h
  · cases h
  simp only at h
  split at h
  · cases h
  split at h
  · cases h
  · rename_i hcollected
    split at h
    · cases h
    · simp only [Option.some.injEq, Prod.mk.injEq] at h
      obtain ⟨-, rfl, rfl⟩ := h
      exact ⟨by rw [List.cons_append, collectRmwGroup_append hcollected], List.cons_ne_nil _ _⟩

theorem length_rmwGroup_lt {blockSize : ℕ} {pending group left : List PendingWrite}
    {window : RmwWindow} (h : rmwGroup blockSize pending = some (window, group, left)) :
    left.length < pending.length := by
  obtain ⟨happend, hne⟩ := rmwGroup_append h
  have hlength := congrArg List.length happend
  have hpos := List.length_pos_of_ne_nil hne
  rw [List.length_append] at hlength
  omega

/-- The main loop of `WriteBatch`. -/
def writeSequential (config : Config) (os : Os) (memory : ℕ → UInt8)
    (pending : List PendingWrite) (io : Io) : Bool × Io :=
  match pending with
  | [] => (true, io)
  | first :: rest =>
    match hgroup : rmwGroup config.logicalBlockSize (first :: rest) with
    | some (window, group, left) =>
      let written := writeRmwGroup config os memory window group io
      if written.1 = false then (false, written.2)
      else writeSequential config os memory left written.2
    | none =>
      if uint64Max - first.sizeBytes < first.absoluteOffset then (false, io)
      else
        let run := takeAdjacent dwordMax first.absoluteOffset first.endOffset rest
        let written := writeChunks config os memory (first :: run.1) io
        if written.1 = false then (false, written.2)
        else writeSequential config os memory run.2 written.2
termination_by pending.length
decreasing_by
  · exact length_rmwGroup_lt hgroup
  · have := length_takeAdjacent_le dwordMax first.absoluteOffset first.endOffset rest
    simp only [List.length_cons]
    omega

/-! ## `WriteBatch` -/

/-- A span that `WriteBatch` refuses before anything else. -/
def WriteSpan.refused (config : Config) (write : WriteSpan) : Bool :=
  dwordMax < write.sizeBytes || uint64Max - config.baseOffsetBytes < write.offsetBytes

/-- The pending write of a span. -/
def WriteSpan.pending (config : Config) (write : WriteSpan) : PendingWrite :=
  ⟨write.offsetBytes + config.baseOffsetBytes, write.data, write.sizeBytes, write.mergeToken⟩

/-- Probing the device and opening its handle for writing. -/
def openForWrite (os : Os) (io : Io) : Bool × Io :=
  match callSystem os io with
  | (false, io) => (false, io)
  | (true, io) => callSystem os io

/-- `Write`, as the fault switch calls it. -/
def writeOne (config : Config) (os : Os) (memory : ℕ → UInt8) (write : WriteSpan) (io : Io) :
    Bool × Io :=
  match openForWrite os io with
  | (false, io) => (false, io)
  | (true, io) => writeLocked config os config.faultMode (write.pending config).absoluteOffset
      ((write.pending config).bytes memory) io

/-- The loop of `WriteBatch` in a fault mode. -/
def writeEach (config : Config) (os : Os) (memory : ℕ → UInt8) : List WriteSpan → Io → Bool × Io
  | [], io => (true, io)
  | write :: rest, io =>
    match writeOne config os memory write io with
    | (false, io) => (false, io)
    | (true, io) => writeEach config os memory rest io

/-- `WriteBatch` once the spans are pending, in order, and the device is open. -/
def writePending (config : Config) (os : Os) (memory : ℕ → UInt8) (pending : List PendingWrite)
    (io : Io) : Bool × Io :=
  match tryAsyncBatch config os memory pending io with
  | (some result, io) => (result, io)
  | (none, io) => writeSequential config os memory pending io

/-- `WriteBatch`. -/
def writeBatch (config : Config) (os : Os) (memory : ℕ → UInt8) (writes : List WriteSpan)
    (io : Io) : Bool × Io :=
  let nonEmpty := writes.filter fun write => write.sizeBytes != 0
  if config.stableReadOnlyImage then (false, io)
  else if nonEmpty.any (WriteSpan.refused config) then (false, io)
  else if nonEmpty = [] then (true, io)
  else if config.faultMode.isSome then writeEach config os memory nonEmpty io
  else
    match openForWrite os io with
    | (false, io) => (false, io)
    | (true, io) =>
      match nonEmpty with
      | [single] =>
        if minAsyncSingleWriteBytes ≤ single.sizeBytes ∧ config.asyncBlockIoEnabled = true then
          writePending config os memory [single.pending config] io
        else
          writeLocked config os none (single.pending config).absoluteOffset
            ((single.pending config).bytes memory) io
      | _ => writePending config os memory (orderPending (nonEmpty.map (WriteSpan.pending config))) io

end Device
end ApfsAccess
