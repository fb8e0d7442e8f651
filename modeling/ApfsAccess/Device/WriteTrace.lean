import ApfsAccess.Device.BatchRefinement

/-!
# What others can see of a write while it runs

A reader may look at the disk between any two writes of a batch.  The cache is told of the
blocks a batch touches before the batch starts, and of the window of a group before the group
is written back.  Here it is shown that this is enough: every write that lands lies in bytes
that were invalidated before it.

* `Guarded` : the events of a write, with that property.
* `InBlocks` : the bytes of the logical blocks a span touches.
* `writeOne_shows`, `writeBatch_shows` : what `Write` and `WriteBatch` show.
-/

namespace ApfsAccess
namespace Device

open Format ByteBuffer Storage Sorting

/-! ## Events -/

/-- The events that lead from one disk to another, where every write lands in bytes that are
covered: at the start, or by an invalidation on the way. -/
def Guarded : (ℕ → Prop) → Disk UInt8 → List DeviceEvent → Disk UInt8 → Prop
  | _, disk, [], after => after = disk
  | covered, disk, .invalidated offset size :: rest, after =>
    Guarded (fun x => covered x ∨ offset ≤ x ∧ x < offset + size) disk rest after
  | covered, disk, .landed offset size disk' :: rest, after =>
    (∀ x, offset ≤ x → x < offset + size → covered x) ∧
      (∀ x, x < offset ∨ offset + size ≤ x → disk'.byte x = disk.byte x) ∧
      Guarded covered disk' rest after

namespace Guarded

variable {covered covered' : ℕ → Prop} {first second third : Disk UInt8}
  {events events' : List DeviceEvent}

theorem mono (h : Guarded covered first events second) (hcovered : ∀ x, covered x → covered' x) :
    Guarded covered' first events second := by
  induction events generalizing covered covered' first with
  | nil => exact h
  | cons event rest ih =>
    cases event with
    | invalidated offset size => exact ih h fun x hx => hx.imp_left (hcovered x)
    | landed offset size disk =>
      exact ⟨fun x hlow hhigh => hcovered x (h.1 x hlow hhigh), h.2.1, ih h.2.2 hcovered⟩

theorem append (h : Guarded covered first events second)
    (h' : Guarded covered second events' third) :
    Guarded covered first (events ++ events') third := by
  induction events generalizing covered first with
  | nil =>
    have hsame : second = first := h
    rw [List.nil_append, ← hsame]
    exact h'
  | cons event rest ih =>
    cases event with
    | invalidated offset size => exact ih h (h'.mono fun _ hx => .inl hx)
    | landed offset size disk => exact ⟨h.1, h.2.1, ih h.2.2 h'⟩

end Guarded

/-- From one state to the next, others see guarded events. -/
def Shows (covered : ℕ → Prop) (before after : Io) : Prop :=
  ∃ events, after.trace = before.trace ++ events ∧
    Guarded covered before.disk events after.disk

namespace Shows

variable {covered : ℕ → Prop} {first second third : Io}

theorem of_same (hdisk : second.disk = first.disk) (htrace : second.trace = first.trace) :
    Shows covered first second :=
  ⟨[], by rw [htrace, List.append_nil], hdisk⟩

theorem refl (covered : ℕ → Prop) (io : Io) : Shows covered io io := of_same rfl rfl

theorem trans (h : Shows covered first second) (h' : Shows covered second third) :
    Shows covered first third := by
  obtain ⟨events, htrace, hguarded⟩ := h
  obtain ⟨events', htrace', hguarded'⟩ := h'
  exact ⟨events ++ events', by rw [htrace', htrace, List.append_assoc],
    hguarded.append hguarded'⟩

/-- One path after another, with the second left out when the first failed. -/
theorem sequence {result result' : Bool × Io} (h : Shows covered first result.2)
    (h' : Shows covered result.2 result'.2) :
    Shows covered first (if result.1 = false then (false, result.2) else result').2 := by
  split
  · exact h
  · exact h.trans h'

end Shows

/-! ## Blocks -/

/-- The bytes of the logical blocks that a range touches. -/
def InBlocks (blockSize offset size x : ℕ) : Prop :=
  ∃ y, offset ≤ y ∧ y < offset + size ∧ y / blockSize = x / blockSize

theorem inBlocks_of_mem {blockSize offset size x : ℕ} (hlow : offset ≤ x)
    (hhigh : x < offset + size) : InBlocks blockSize offset size x :=
  ⟨x, hlow, hhigh, rfl⟩

theorem alignDown_eq {value alignment : ℕ} (h : 0 < alignment) :
    alignDown value alignment = value / alignment * alignment := by
  rw [alignDown, if_neg (by omega), Nat.div_mul_self_eq_mod_sub_self]

/-- An alignment that fits is the next block boundary. -/
theorem alignUp_eq {value alignment : ℕ} (halignment : 0 < alignment)
    (h : alignUp value alignment ≠ 0) :
    alignUp value alignment = ((value - 1) / alignment + 1) * alignment := by
  unfold alignUp at *
  rw [if_neg (by omega)] at h ⊢
  split at h
  · exact absurd rfl h
  split at h
  · exact absurd rfl h
  · rw [if_neg ‹_›, if_neg ‹_›, alignDown_eq halignment,
      show value + alignment - 1 = value - 1 + alignment by omega,
      Nat.add_div_right _ halignment]

/-- The window that `WriteLocked` writes lies in the blocks of its span. -/
theorem inBlocks_of_window {blockSize offset size x : ℕ} (hblock : 0 < blockSize)
    (hsize : 0 < size)
    (halign : alignUp (offset - alignDown offset blockSize + size) blockSize ≠ 0)
    (hlow : alignDown offset blockSize ≤ x)
    (hhigh : x < alignDown offset blockSize +
      alignUp (offset - alignDown offset blockSize + size) blockSize) :
    InBlocks blockSize offset size x := by
  have hup := alignUp_eq hblock halign
  have hdown := @alignDown_eq offset blockSize hblock
  have hmod := Nat.div_add_mod offset blockSize
  have hprefix : offset - alignDown offset blockSize = offset % blockSize := by
    rw [hdown, Nat.mul_comm]
    omega
  rw [hup, hprefix, hdown, ← Nat.add_mul] at hhigh
  have hblockHigh : x / blockSize < offset / blockSize + ((offset % blockSize + size - 1) /
      blockSize + 1) := (Nat.div_lt_iff_lt_mul hblock).mpr hhigh
  rw [hdown] at hlow
  have hblockLow : offset / blockSize ≤ x / blockSize := (Nat.le_div_iff_mul_le hblock).mpr hlow
  -- the last byte of the span, counted from the start of its first block
  have hlast : (offset + size - 1) / blockSize =
      offset / blockSize + (offset % blockSize + size - 1) / blockSize := by
    rw [show offset + size - 1 = offset % blockSize + size - 1 + blockSize * (offset / blockSize) by
      omega, Nat.add_mul_div_left _ _ hblock, Nat.add_comm]
  by_cases hbefore : x < offset
  · refine ⟨offset, le_refl _, by omega, ?_⟩
    have := Nat.div_le_div_right (c := blockSize) hbefore.le
    omega
  by_cases hinside : x < offset + size
  · exact ⟨x, by omega, hinside, rfl⟩
  · refine ⟨offset + size - 1, by omega, by omega, ?_⟩
    have := Nat.div_le_div_right (c := blockSize) (show offset + size - 1 ≤ x by omega)
    omega

/-- The blocks of a span lie in its block-aligned range. -/
theorem InBlocks.aligned {blockSize offset size x : ℕ} (hblock : 0 < blockSize)
    (halign : alignUp (offset + size) blockSize ≠ 0) (h : InBlocks blockSize offset size x) :
    alignDown offset blockSize ≤ x ∧ x < alignUp (offset + size) blockSize := by
  obtain ⟨y, hlow, hhigh, hsame⟩ := h
  rw [alignDown_eq hblock, alignUp_eq hblock halign]
  have hfirst := Nat.div_le_div_right (c := blockSize) hlow
  have hlast := Nat.div_le_div_right (c := blockSize) (show y ≤ offset + size - 1 by omega)
  refine ⟨(Nat.le_div_iff_mul_le hblock).mp (hsame ▸ hfirst), ?_⟩
  exact (Nat.div_lt_iff_lt_mul hblock).mp (by omega)

/-! ## The paths of a batch -/

section Paths

variable {memory : ℕ → UInt8} {config : Config} {os : Os} {io : Io} {covered : ℕ → Prop}

/-- The bytes that pending writes may change are covered. -/
def BlocksCovered (config : Config) (covered : ℕ → Prop) (pending : List PendingWrite) : Prop :=
  ∀ write ∈ pending, ∀ x,
    InBlocks config.logicalBlockSize write.absoluteOffset write.sizeBytes x → covered x

theorem logicalBlockSize_pos (config : Config) : 0 < config.logicalBlockSize := by
  have := config.logicalBlockSize_ge
  omega

theorem writeAt_shows {offset : ℕ} {bytes : Bytes}
    (h : ∀ x, offset ≤ x → x < offset + bytes.length → covered x) :
    Shows covered io (writeAt config os offset bytes io).2 := by
  unfold writeAt
  split
  · exact Shows.refl covered io
  · exact ⟨_, rfl, h, fun x hx => byte_land_of_apart hx, rfl⟩

theorem length_faultyBytes_le (mode : FaultMode) (blockSize : ℕ) {bytes : Bytes}
    (h : bytes ≠ []) : (faultyBytes mode blockSize bytes).length ≤ bytes.length := by
  have hpos := List.length_pos_of_ne_nil h
  cases mode with
  | fail => exact Nat.zero_le _
  | zeroBytes => exact Nat.zero_le _
  | firstSector => exact List.length_take_le' _ _
  | firstHalf => exact List.length_take_le' _ _
  | allExceptLastSector =>
    show (if bytes.length ≤ blockSize then [] else bytes.take (bytes.length - blockSize)).length ≤
      bytes.length
    split
    · exact Nat.zero_le _
    · exact List.length_take_le' _ _
  | corruptOneByte =>
    cases bytes with
    | nil => exact absurd rfl h
    | cons first rest => exact le_refl _
  | other => exact Nat.zero_le _

theorem writeFaulty_shows {mode : FaultMode} {offset : ℕ} {bytes : Bytes} (hbytes : bytes ≠ [])
    (h : ∀ x, offset ≤ x → x < offset + bytes.length → covered x) :
    Shows covered io (writeFaulty config os mode offset bytes io).2 := by
  have hlength := length_faultyBytes_le mode config.logicalBlockSize hbytes
  unfold writeFaulty
  simp only
  split
  · exact Shows.refl covered io
  · exact writeAt_shows fun x hlow hhigh => h x hlow (by omega)

/-- Reading a window shows nothing. -/
theorem readWindow_trace {alignedOffset prefixBytes alignedSize : ℕ} {buffer : Bytes}
    {window : Option Bytes} {after : Io}
    (h : readWindow os alignedOffset prefixBytes alignedSize buffer io = (window, after)) :
    after.trace = io.trace := by
  have hafter : after = (readWindow os alignedOffset prefixBytes alignedSize buffer io).2 := by
    rw [h]
  rw [hafter]
  rfl

/-- **`WriteLocked` writes in the blocks of its span.** -/
theorem writeLocked_shows {faultMode : Option FaultMode} {offset : ℕ} {buffer : Bytes}
    (h : ∀ x, InBlocks config.logicalBlockSize offset buffer.length x → covered x) :
    Shows covered io (writeLocked config os faultMode offset buffer io).2 := by
  have hdown := alignDown_le offset config.logicalBlockSize
  unfold writeLocked
  split
  · exact Shows.refl covered io
  rename_i hempty
  have hpos := List.length_pos_of_ne_nil hempty
  split
  · exact Shows.refl covered io
  split
  · exact Shows.refl covered io
  simp only
  split
  · exact Shows.refl covered io
  rename_i hsize
  have hcover := le_alignUp (not_or.mp hsize).1
  have hwindow : ∀ x, alignDown offset config.logicalBlockSize ≤ x →
      x < alignDown offset config.logicalBlockSize +
        alignUp (offset - alignDown offset config.logicalBlockSize + buffer.length)
          config.logicalBlockSize → covered x := fun x hlow hhigh =>
    h x (inBlocks_of_window (logicalBlockSize_pos config) hpos (not_or.mp hsize).1 hlow hhigh)
  split
  · exact Shows.refl covered io
  split
  · rename_i haligned
    have hbuffer : ∀ x, alignDown offset config.logicalBlockSize ≤ x →
        x < alignDown offset config.logicalBlockSize + buffer.length → covered x :=
      fun x hlow hhigh => hwindow x hlow (by omega)
    split
    · exact writeAt_shows hbuffer
    · exact writeFaulty_shows hempty hbuffer
  split
  · exact Shows.refl covered io
  split
  · rename_i hread
    exact Shows.of_same (readWindow_spec hread).1 (readWindow_trace hread)
  · rename_i window after hread
    obtain ⟨hdisk, -, hbytes⟩ := readWindow_spec hread
    obtain ⟨-, hsplice⟩ := hbytes window rfl
    have hlength : window.length =
        alignUp (offset - alignDown offset config.logicalBlockSize + buffer.length)
          config.logicalBlockSize := by
      rw [hsplice, length_splice (by rw [Disk.length_contents]; omega), Disk.length_contents]
    have hne : window ≠ [] := by
      intro hnil
      rw [hnil, List.length_nil] at hlength
      exact (not_or.mp hsize).1 hlength.symm
    rw [← hlength] at hwindow
    have hsame : Shows covered io after := Shows.of_same hdisk (readWindow_trace hread)
    split
    · exact hsame.trans (writeAt_shows hwindow)
    · exact hsame.trans (writeFaulty_shows hne hwindow)

/-- A run of adjacent writes touches the blocks of its writes. -/
theorem covered_of_isChain {first : PendingWrite} {others : List PendingWrite}
    (hchain : (first :: others).IsChain Follows)
    (h : BlocksCovered config covered (first :: others)) {x : ℕ}
    (hx : InBlocks config.logicalBlockSize first.absoluteOffset (totalSize (first :: others)) x) :
    covered x := by
  obtain ⟨y, hlow, hhigh, hsame⟩ := hx
  obtain ⟨write, hwrite, hinside⟩ := exists_mem_of_isChain hchain hlow hhigh
  exact h write hwrite x ⟨y, hinside.1, hinside.2, hsame⟩

theorem writeMergedChunk_shows {first : PendingWrite} {others : List PendingWrite}
    (hchain : (first :: others).IsChain Follows)
    (h : BlocksCovered config covered (first :: others)) :
    Shows covered io (writeMergedChunk config os memory first others io).2 := by
  unfold writeMergedChunk
  split
  · refine writeLocked_shows fun x hx => covered_of_isChain hchain h ?_
    rwa [length_viewBytes] at hx
  · have hroom := le_length_ensureMergedBatchScratch io.mergedBatchScratch
      (totalSize (first :: others)) 0
    have hslice := @slice_filledScratch memory _ 0 (first :: others)
      (by rw [Nat.zero_add]; exact hroom)
    refine Shows.trans (Shows.of_same rfl rfl) (writeLocked_shows fun x hx => ?_)
    rw [hslice, length_joinedBytes] at hx
    exact covered_of_isChain hchain h hx

theorem writeChunks_shows (run : List PendingWrite) (hchain : run.IsChain Follows)
    (h : BlocksCovered config covered run) :
    Shows covered io (writeChunks config os memory run io).2 := by
  induction hlength : run.length using Nat.strong_induction_on generalizing run io with
  | _ length ih =>
    subst hlength
    cases run with
    | nil =>
      rw [writeChunks]
      exact Shows.refl covered io
    | cons first rest =>
      have happend := chunkAfter_append first rest
      have hshorter := length_chunkAfter_le first rest
      rw [writeChunks]
      generalize chunkAfter first rest = chunk at happend hshorter ⊢
      subst happend
      rw [← List.cons_append] at hchain h
      obtain ⟨hfront, hback, -⟩ := List.isChain_append.mp hchain
      obtain ⟨hcovered, hcovered'⟩ := List.forall_mem_append.mp h
      refine Shows.sequence ?_
        (ih chunk.2.length (by simp only [List.length_cons]; omega) chunk.2 hback hcovered' rfl)
      split
      · refine writeLocked_shows fun x hx => hcovered first (by simp) x ?_
        rwa [length_bytes] at hx
      · exact writeMergedChunk_shows hfront hcovered

/-- A group is written back to a window that was invalidated. -/
theorem writeRmwGroup_shows {window : RmwWindow} {group : List PendingWrite}
    (hgroup : ∀ write ∈ group, write.sizeBytes ≠ 0) :
    Shows covered io (writeRmwGroup config os memory window group io).2 := by
  unfold writeRmwGroup
  split
  · rename_i after hread
    rw [show after = (readAt os window.groupStart (window.groupEnd - window.groupStart) io).2 by
      rw [hread]]
    exact Shows.of_same rfl rfl
  · rename_i bytes after hread
    have hafter : after = (readAt os window.groupStart
        (window.groupEnd - window.groupStart) io).2 := by rw [hread]
    obtain ⟨hsize, hbytes⟩ := readAt_eq_some (show (readAt os window.groupStart
      (window.groupEnd - window.groupStart) io).1 = some bytes by rw [hread])
    have hsame : Shows covered io after := by
      rw [hafter]
      exact Shows.of_same rfl rfl
    split
    · exact hsame
    · rename_i filled hfill
      obtain ⟨hfilled, hparts⟩ := fillRmwWindow_eq_some hgroup hfill
      have hlength : filled.length = window.groupEnd - window.groupStart := by
        rw [hfilled, Disk.length_patch hparts, hbytes, Disk.length_contents]
      refine hsame.trans ?_
      -- the write is guarded by the invalidation before it
      obtain ⟨events, htrace, hguarded⟩ := @writeAt_shows config os
        { after with trace := after.trace ++
          [DeviceEvent.invalidated window.groupStart (window.groupEnd - window.groupStart)] }
        (fun x => covered x ∨ window.groupStart ≤ x ∧
          x < window.groupStart + (window.groupEnd - window.groupStart))
        window.groupStart filled fun x hlow hhigh => .inr ⟨hlow, hlength ▸ hhigh⟩
      refine ⟨.invalidated window.groupStart (window.groupEnd - window.groupStart) :: events,
        ?_, hguarded⟩
      rw [htrace, List.append_assoc]
      rfl

theorem writeSequential_shows (pending : List PendingWrite)
    (hpending : ∀ write ∈ pending, write.sizeBytes ≠ 0)
    (h : BlocksCovered config covered pending) :
    Shows covered io (writeSequential config os memory pending io).2 := by
  induction hlength : pending.length using Nat.strong_induction_on generalizing pending io with
  | _ length ih =>
    subst hlength
    cases pending with
    | nil =>
      rw [writeSequential]
      exact Shows.refl covered io
    | cons first rest =>
      rw [writeSequential]
      split
      · rename_i window group left hgroup
        obtain ⟨happend, -⟩ := rmwGroup_append hgroup
        have hshorter := length_rmwGroup_lt hgroup
        rw [← happend] at hpending h
        obtain ⟨hfront, hback⟩ := List.forall_mem_append.mp hpending
        have hleft := (List.forall_mem_append.mp h).2
        exact Shows.sequence (writeRmwGroup_shows hfront) (ih _ hshorter _ hback hleft rfl)
      · split
        · exact Shows.refl covered io
        · have happend := takeAdjacent_append dwordMax first.absoluteOffset first.endOffset rest
          have hshorter := length_takeAdjacent_le dwordMax first.absoluteOffset first.endOffset rest
          have hchain := @isChain_takeAdjacent dwordMax first.absoluteOffset first rest
          generalize takeAdjacent dwordMax first.absoluteOffset first.endOffset rest = run
            at happend hshorter hchain ⊢
          subst happend
          rw [← List.cons_append] at hpending h
          obtain ⟨-, hback⟩ := List.forall_mem_append.mp hpending
          obtain ⟨hcovered, hleft⟩ := List.forall_mem_append.mp h
          exact Shows.sequence (writeChunks_shows _ hchain hcovered)
            (ih run.2.length (by simp only [List.length_cons]; omega) run.2 hback hleft rfl)

/-- Landings in covered ranges. -/
theorem guarded_landingEvents {landings : List Landing}
    (h : ∀ landing ∈ landings, ∀ x, landing.offset ≤ x →
      x < landing.offset + landing.bytes.length → covered x) (disk : Disk UInt8) :
    Guarded covered disk (landingEvents disk landings) (landings.foldl Landing.land disk) := by
  induction landings generalizing disk with
  | nil => rfl
  | cons landing rest ih =>
    obtain ⟨hlanding, hrest⟩ := List.forall_mem_cons.mp h
    exact ⟨hlanding, fun x hx => byte_land_of_apart hx, ih hrest (landing.land disk)⟩

theorem landWindow_shows {landings : List Landing}
    (h : ∀ landing ∈ landings, ∀ x, landing.offset ≤ x →
      x < landing.offset + landing.bytes.length → covered x) :
    Shows covered io (landWindow os landings io) := by
  refine ⟨_, rfl, guarded_landingEvents (fun landing hmem => h landing ?_) io.disk⟩
  exact (os.landingOrder_perm io.calls landings).mem_iff.mp hmem

theorem runWindows_shows (chunks : List (ℕ × Bytes)) (totalIssued : ℕ) (io : Io)
    (h : ∀ chunk ∈ chunks, ∀ x, chunk.1 ≤ x → x < chunk.1 + chunk.2.length → covered x) :
    Shows covered io (runWindows config os chunks totalIssued io).2 := by
  induction hlength : chunks.length using Nat.strong_induction_on
    generalizing chunks totalIssued io with
  | _ length ih =>
    subst hlength
    cases chunks with
    | nil =>
      rw [runWindows]
      exact Shows.refl covered io
    | cons first rest =>
      rw [runWindows]
      have hissued := @issueWindow_issued config os
        ((first :: rest).take config.asyncQueueDepth) totalIssued io
      generalize issueWindow config os ((first :: rest).take config.asyncQueueDepth) totalIssued
        io = issued at hissued ⊢
      have hlanded : Shows covered io (landWindow os issued.2.1 issued.2.2.2) := by
        refine (Shows.of_same hissued.disk hissued.trace).trans (landWindow_shows ?_)
        intro landing hmem
        exact h landing.store (List.mem_of_mem_take (hissued.mem landing hmem))
      split
      · have hshorter : ((first :: rest).drop config.asyncQueueDepth).length <
            (first :: rest).length := by
          have := config.asyncQueueDepth_pos
          simp only [List.length_drop, List.length_cons]
          omega
        exact hlanded.trans (ih _ hshorter _ issued.2.2.1 _
          (fun chunk hmem => h chunk (List.mem_of_mem_drop hmem)) rfl)
      · exact hlanded

theorem tryAsyncBatch_shows {pending : List PendingWrite}
    (h : BlocksCovered config covered pending) :
    Shows covered io (tryAsyncBatch config os memory pending io).2 := by
  unfold tryAsyncBatch
  split
  · exact Shows.refl covered io
  split
  · exact Shows.refl covered io
  rename_i haligned
  simp only [asyncAligned, Bool.not_eq_false, Bool.and_eq_true] at haligned
  have hchunks := @buildChunks_spec memory pending 0 io.mergedBatchScratch 0
    (orderedFrom_zero haligned.2) (Nat.zero_le _)
  generalize buildChunks memory pending io.mergedBatchScratch 0 = built at hchunks ⊢
  simp only
  split
  · exact Shows.of_same rfl rfl
  split
  · rename_i opened hcall
    obtain ⟨hdisk, htrace, -⟩ := @callSystem_same config os _ _ _ hcall
    exact Shows.of_same hdisk htrace
  · rename_i opened hcall
    obtain ⟨hdisk, htrace, -⟩ := @callSystem_same config os _ _ _ hcall
    refine Shows.trans (Shows.of_same hdisk htrace) (runWindows_shows _ 0 opened ?_)
    intro chunk hmem x hlow hhigh
    obtain ⟨write, hwrite, hinside⟩ := hchunks.inside chunk hmem x hlow hhigh
    exact h write hwrite x (inBlocks_of_mem hinside.1 hinside.2)

theorem writePending_shows {pending : List PendingWrite}
    (hpending : ∀ write ∈ pending, write.sizeBytes ≠ 0)
    (h : BlocksCovered config covered pending) :
    Shows covered io (writePending config os memory pending io).2 := by
  have hasync := @tryAsyncBatch_shows memory config os io covered pending h
  unfold writePending
  split
  · rename_i htried
    rwa [htried] at hasync
  · rename_i htried
    rw [htried] at hasync
    exact hasync.trans (writeSequential_shows pending hpending h)

/-- **`Write` writes in the blocks of its span.** -/
theorem writeOne_shows {write : WriteSpan}
    (h : BlocksCovered config covered [write.pending config]) :
    Shows covered io (writeOne config os memory write io).2 := by
  unfold writeOne
  split
  · rename_i hopen
    obtain ⟨hdisk, htrace, -⟩ := @openForWrite_same config os _ _ _ hopen
    exact Shows.of_same hdisk htrace
  · rename_i after hopen
    obtain ⟨hdisk, htrace, -⟩ := @openForWrite_same config os _ _ _ hopen
    refine (Shows.of_same hdisk htrace).trans (writeLocked_shows fun x hx => ?_)
    rw [length_bytes] at hx
    exact h _ (by simp) x hx

theorem writeEach_shows (writes : List WriteSpan)
    (h : BlocksCovered config covered (writes.map (WriteSpan.pending config))) :
    Shows covered io (writeEach config os memory writes io).2 := by
  induction writes generalizing io with
  | nil => exact Shows.refl covered io
  | cons write rest ih =>
    obtain ⟨hwrite, hrest⟩ := List.forall_mem_cons.mp h
    have hone := @writeOne_shows memory config os io covered write
      (List.forall_mem_singleton.mpr hwrite)
    rw [writeEach]
    split
    · rename_i hresult
      rwa [hresult] at hone
    · rename_i hresult
      rw [hresult] at hone
      exact hone.trans (ih hrest)

/-- **`WriteBatch` writes in the blocks of its spans**, and in windows that were invalidated. -/
theorem writeBatch_shows (writes : List WriteSpan)
    (h : BlocksCovered config covered
      ((writes.filter fun write => write.sizeBytes != 0).map (WriteSpan.pending config))) :
    Shows covered io (writeBatch config os memory writes io).2 := by
  have hsizes : ∀ write ∈ writes.filter (fun write => write.sizeBytes != 0),
      write.sizeBytes ≠ 0 := by
    intro write hmem
    simpa using (List.mem_filter.mp hmem).2
  unfold writeBatch
  generalize writes.filter (fun write => write.sizeBytes != 0) = nonEmpty at hsizes h ⊢
  have hpending : ∀ write ∈ nonEmpty.map (WriteSpan.pending config), write.sizeBytes ≠ 0 := by
    intro write hmem
    obtain ⟨span, hspan, rfl⟩ := List.mem_map.mp hmem
    exact hsizes span hspan
  simp only
  split
  · exact Shows.refl covered io
  split
  · exact Shows.refl covered io
  split
  · exact Shows.refl covered io
  split
  · exact writeEach_shows nonEmpty h
  split
  · rename_i hopen
    obtain ⟨hdisk, htrace, -⟩ := @openForWrite_same config os _ _ _ hopen
    exact Shows.of_same hdisk htrace
  · rename_i after hopen
    obtain ⟨hdisk, htrace, -⟩ := @openForWrite_same config os _ _ _ hopen
    refine Shows.trans (Shows.of_same hdisk htrace) ?_
    split
    · split
      · exact writePending_shows hpending h
      · refine writeLocked_shows fun x hx => h _ List.mem_cons_self x ?_
        rwa [length_bytes] at hx
    · exact writePending_shows (fun write hmem => hpending write (mem_orderPending hmem))
        fun write hmem => h write (mem_orderPending hmem)

end Paths

end Device
end ApfsAccess
