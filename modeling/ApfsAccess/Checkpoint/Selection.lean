import ApfsAccess.Checkpoint.Loader
import ApfsAccess.Library.Selection

/-!
# Which generation is loaded

`LoadContainerCheckpointView` returns the complete generation with the largest transaction of the
descriptor ring.  A slot without a complete generation, one that was torn for example, keeps no older
generation from being found, so that a publication that was interrupted leaves the generation before
it or the one that it was to write.

* `RingRead` : what the loader reads before it looks at generations.
* `CompleteGeneration` : what every generation of the ring satisfies.
* `newest_generation_loaded`, `interrupted_publication_loads_old_or_new` : the results.
-/

namespace ApfsAccess
namespace Checkpoint

open ByteBuffer Format Selection

/-! ## The descriptor ring -/

/-- Block zero and the blocks of the descriptor ring. -/
structure Ring where
  anchor : NxSuperblock
  blockZero : Bytes
  descriptorBlocks : List Bytes
  deriving DecidableEq, Repr

/-- The container has a block zero that is admitted and a descriptor ring that can be read. -/
structure RingRead (source : RandomAccessSource) (storeOffsetBytes storeSizeBytes : ℕ)
    (ring : Ring) : Prop where
  probe : ∃ probe, source.read storeOffsetBytes 4096 = some probe ∧
    u32At probe 0x24 = ring.anchor.blockSize
  admitted : blockSizeAdmitted ring.anchor.blockSize = true
  blockZero : readBlockAt source storeOffsetBytes ring.anchor.blockSize = some ring.blockZero
  anchor : parseNxSuperblock ring.blockZero = some ring.anchor
  fits : ring.anchor.blockCount ≤ storeSizeBytes / ring.anchor.blockSize
  descContiguous : ring.anchor.xpDescNoncontiguous = false
  dataContiguous : ring.anchor.xpDataNoncontiguous = false
  nonempty : ring.anchor.xpDescBlockCount ≠ 0
  areas : ¬(maxCheckpointAreaBlocks < ring.anchor.xpDescBlockCount ∨
    maxCheckpointAreaBlocks < ring.anchor.xpDataBlockCount ∨
    areaFitsStore ring.anchor.xpDescBaseBlock ring.anchor.xpDescBlockCount ring.anchor
      storeSizeBytes = false ∨
    areaFitsStore ring.anchor.xpDataBaseBlock ring.anchor.xpDataBlockCount ring.anchor
      storeSizeBytes = false)
  descriptorBlocks : readDescriptorBlocks source storeOffsetBytes ring.anchor.blockSize
    ring.anchor = some ring.descriptorBlocks

/-- The complete generation whose superblock stands in a slot of the ring. -/
def Ring.generationAt (ring : Ring) (source : RandomAccessSource)
    (storeOffsetBytes storeSizeBytes index : ℕ) : Option ContainerCheckpointView :=
  buildCheckpointCandidate source storeOffsetBytes storeSizeBytes ring.anchor ring.descriptorBlocks
    index none

/-- The transaction of a generation. -/
def ContainerCheckpointView.xid (view : ContainerCheckpointView) : ℕ := view.superblock.xid

/-! ## Complete generations -/

/-- A generation all of whose maps and mapped objects are there. -/
structure CompleteGeneration (source : RandomAccessSource) (storeOffsetBytes storeSizeBytes : ℕ)
    (anchor : NxSuperblock) (view : ContainerCheckpointView) : Prop where
  superblock : parseNxSuperblock view.superblockBytes = some view.superblock
  geometry : sameCheckpointGeometry anchor view.superblock = true
  maps : view.checkpointMapBlocks.length = view.superblock.xpDescLen - 1
  distinct : (view.mappings.map CheckpointMapping.objectId).Nodup
  valid : ∀ mapping ∈ view.mappings, validateMappedObject source storeOffsetBytes storeSizeBytes
    view.superblock mapping = true
  spaceman : view.superblock.spacemanOid ≠ 0 →
    ∃ mapping ∈ view.mappings, mapping.objectId = view.superblock.spacemanOid
  reaper : view.superblock.reaperOid ≠ 0 →
    ∃ mapping ∈ view.mappings, mapping.objectId = view.superblock.reaperOid

section Complete

variable {source : RandomAccessSource} {storeOffsetBytes storeSizeBytes : ℕ}
  {anchor candidate : NxSuperblock}

/-- The mappings of a generation as far as they are read. -/
def MappingsRead (source : RandomAccessSource) (storeOffsetBytes storeSizeBytes : ℕ)
    (candidate : NxSuperblock) (mappings : List CheckpointMapping) : Prop :=
  (mappings.map CheckpointMapping.objectId).Nodup ∧ ∀ mapping ∈ mappings,
    validateMappedObject source storeOffsetBytes storeSizeBytes candidate mapping = true

/-- What every turn of a loop keeps. -/
theorem foldlM_some_of_step {α β : Type} {step : β → α → Option β} {holds : β → Prop}
    (hstep : ∀ current x next, holds current → step current x = some next → holds next)
    {xs : List α} {start last : β} (hstart : holds start) (h : xs.foldlM step start = some last) :
    holds last := by
  induction xs generalizing start with
  | nil =>
    cases h
    exact hstart
  | cons x xs ih =>
    rw [List.foldlM_cons] at h
    obtain ⟨next, hnext, hrest⟩ := Option.bind_eq_some_iff.mp h
    exact ih (hstep start x next hstart hnext) hrest

theorem MappingsRead.addMapping {current next : List CheckpointMapping} {mapping : CheckpointMapping}
    (h : MappingsRead source storeOffsetBytes storeSizeBytes candidate current)
    (hnext : addMapping source storeOffsetBytes storeSizeBytes candidate current mapping =
      some next) : MappingsRead source storeOffsetBytes storeSizeBytes candidate next := by
  rw [Checkpoint.addMapping] at hnext
  split at hnext
  · cases hnext
  · rename_i hfree
    rw [not_or, Bool.not_eq_true, List.any_eq_false, Bool.not_eq_false] at hfree
    obtain ⟨hfresh, hvalid⟩ := hfree
    obtain rfl := Option.some.inj hnext
    refine ⟨?_, fun other hother => ?_⟩
    · rw [List.map_append, List.map_singleton]
      refine List.nodup_append.mpr ⟨h.1, List.nodup_singleton _, ?_⟩
      intro objectId hobject other hother heq
      obtain ⟨earlier, hearlier, rfl⟩ := List.mem_map.mp hobject
      rw [List.mem_singleton.mp hother] at heq
      exact hfresh earlier hearlier (beq_iff_eq.mpr heq)
    · rcases List.mem_append.mp hother with hold | hnew
      · exact h.2 other hold
      · rw [List.mem_singleton.mp hnew]
        exact hvalid

theorem MappingsRead.addMapBlock {descriptorBlocks : List Bytes}
    {current next : List CheckpointMapping} {offset : ℕ}
    (h : MappingsRead source storeOffsetBytes storeSizeBytes candidate current)
    (hnext : addMapBlock source storeOffsetBytes storeSizeBytes candidate descriptorBlocks current
      offset = some next) :
    MappingsRead source storeOffsetBytes storeSizeBytes candidate next := by
  rw [Checkpoint.addMapBlock] at hnext
  split at hnext
  · cases hnext
  · split at hnext
    · cases hnext
    · exact foldlM_some_of_step (fun _ _ _ hcurrent => hcurrent.addMapping) h hnext

/-- **Every generation of the ring is complete.** -/
theorem completeGeneration_of_generationAt {ring : Ring} {index : ℕ} {view : ContainerCheckpointView}
    (h : ring.generationAt source storeOffsetBytes storeSizeBytes index = some view) :
    CompleteGeneration source storeOffsetBytes storeSizeBytes ring.anchor view := by
  rw [Ring.generationAt, buildCheckpointCandidate] at h
  split at h
  · cases h
  rename_i candidate hparse
  split at h
  · cases h
  rename_i hrefused
  rw [if_neg fun hexact => absurd hexact.1 Bool.false_ne_true] at h
  split at h
  · cases h
  rename_i mappings hmappings
  split at h
  · cases h
  rename_i hmissing
  obtain rfl := Option.some.inj h
  have hread : MappingsRead source storeOffsetBytes storeSizeBytes candidate mappings :=
    foldlM_some_of_step (fun _ _ _ hcurrent => hcurrent.addMapBlock)
      ⟨by simp, fun _ hmem => absurd hmem List.not_mem_nil⟩ hmappings
  rw [candidateRefused, not_or, Bool.not_eq_false] at hrefused
  rw [not_or, not_and, not_and] at hmissing
  push Not at hmissing
  exact ⟨hparse, hrefused.1, by rw [List.length_map, List.length_range], hread.1, hread.2,
    hmissing.1, hmissing.2⟩

/-- What a slot must hold for a generation. -/
theorem generationAt_eq_some {ring : Ring} {index : ℕ} {mappings : List CheckpointMapping}
    (hparse : parseNxSuperblock (ring.descriptorBlocks.getD index []) = some candidate)
    (hrefused : ¬candidateRefused ring.anchor candidate index)
    (hmappings : (List.range (candidate.xpDescLen - 1)).foldlM (addMapBlock source storeOffsetBytes
      storeSizeBytes candidate ring.descriptorBlocks) [] = some mappings)
    (hmissing : ¬((candidate.spacemanOid ≠ 0 ∧
        ∀ mapping ∈ mappings, mapping.objectId ≠ candidate.spacemanOid) ∨
      (candidate.reaperOid ≠ 0 ∧
        ∀ mapping ∈ mappings, mapping.objectId ≠ candidate.reaperOid))) :
    ring.generationAt source storeOffsetBytes storeSizeBytes index = some
      ⟨candidate, (candidate.xpDescBaseBlock + index) % 2 ^ 64,
        ring.descriptorBlocks.getD index [],
        (List.range (candidate.xpDescLen - 1)).map fun offset => (candidate.xpDescBaseBlock +
          (candidate.xpDescIndex + offset) % candidate.xpDescBlockCount) % 2 ^ 64, mappings⟩ := by
  rw [Ring.generationAt, buildCheckpointCandidate, hparse]
  dsimp only
  rw [if_neg hrefused, if_neg fun hexact => absurd hexact.1 Bool.false_ne_true, hmappings]
  exact if_neg hmissing

end Complete

/-! ## Choosing -/

section Choice

variable {source : RandomAccessSource} {storeOffsetBytes storeSizeBytes : ℕ} {ring : Ring}

/-- Behind a ring that can be read the loader only chooses. -/
theorem RingRead.load_eq (h : RingRead source storeOffsetBytes storeSizeBytes ring) :
    loadContainerCheckpointView source storeOffsetBytes storeSizeBytes none =
      chooseGeneration source storeOffsetBytes storeSizeBytes ring.anchor ring.blockZero
        ring.descriptorBlocks none := by
  obtain ⟨probe, hprobe, hsize⟩ := h.probe
  rw [loadContainerCheckpointView, if_neg (Option.some_ne_none 0).symm, hprobe]
  dsimp only
  rw [hsize, if_neg (by rw [h.admitted]; exact Bool.false_ne_true.symm), h.blockZero]
  dsimp only
  rw [h.anchor]
  dsimp only
  rw [loadWithAnchor, rejectIf_bind_of_not _ _ (not_or.mpr ⟨not_not.mpr rfl, not_lt.mpr h.fits⟩),
    rejectIf_bind_of_not _ _ (by rw [h.descContiguous]; exact Bool.false_ne_true),
    rejectIf_bind_of_not _ _ (by rw [h.dataContiguous]; exact Bool.false_ne_true),
    if_neg h.nonempty, rejectIf_bind_of_not _ _ h.areas, h.descriptorBlocks]

/-- Without a transaction, a turn of the loop keeps the better generation. -/
theorem selectCandidate_none (best next : Option ContainerCheckpointView) :
    selectCandidate none best next = .ok (keepBetter ContainerCheckpointView.xid best next) := by
  cases next with
  | none => rfl
  | some candidate =>
    unfold selectCandidate
    dsimp only
    rw [if_neg fun hexact => absurd hexact.1 Bool.false_ne_true]
    cases best with
    | none => rfl
    | some chosen =>
      rw [keepBetter]
      show (if chosen.xid < candidate.xid then _ else _) = _
      split <;> rfl

/-- The choice without a transaction. -/
theorem chooseGeneration_none (ring : Ring) (source : RandomAccessSource)
    (storeOffsetBytes storeSizeBytes : ℕ) :
    (chooseGeneration source storeOffsetBytes storeSizeBytes ring.anchor ring.blockZero
        ring.descriptorBlocks none =
          (if ring.anchor.spacemanOid = 0 then .ok ⟨ring.anchor, 0, ring.blockZero, [], []⟩
            else .error "CheckpointNoCompleteGeneration") ∧
        ∀ index < ring.anchor.xpDescBlockCount,
          ring.generationAt source storeOffsetBytes storeSizeBytes index = none) ∨
      ∃ index view, chooseGeneration source storeOffsetBytes storeSizeBytes ring.anchor
          ring.blockZero ring.descriptorBlocks none = .ok view ∧
        FirstGreatest ContainerCheckpointView.xid
          (ring.generationAt source storeOffsetBytes storeSizeBytes) ring.anchor.xpDescBlockCount
          index view := by
  have hloop := @List.foldlM_pure (Except String) _ _ _ _
    (fun best index => keepBetter ContainerCheckpointView.xid best
      (ring.generationAt source storeOffsetBytes storeSizeBytes index)) none
    (List.range ring.anchor.xpDescBlockCount)
  unfold chooseGeneration
  simp only [selectCandidate_none]
  rcases foldl_keepBetter ContainerCheckpointView.xid
    (ring.generationAt source storeOffsetBytes storeSizeBytes) ring.anchor.xpDescBlockCount with
    ⟨hnone, hempty⟩ | ⟨index, view, hsome, hfirst⟩
  · rw [hnone] at hloop
    refine .inl ⟨?_, hempty⟩
    exact (congrArg (· >>= _) hloop).trans rfl
  · rw [hsome] at hloop
    refine .inr ⟨index, view, ?_, hfirst⟩
    exact (congrArg (· >>= _) hloop).trans rfl

end Choice

/-! ## The results -/

section Results

variable {source : RandomAccessSource} {storeOffsetBytes storeSizeBytes : ℕ} {ring : Ring}

/-- **The newest complete generation is loaded**, and nothing where there is none. -/
theorem newest_generation_loaded (hring : RingRead source storeOffsetBytes storeSizeBytes ring)
    (hspaceman : ring.anchor.spacemanOid ≠ 0) :
    (∀ view, loadContainerCheckpointView source storeOffsetBytes storeSizeBytes none = .ok view ↔
      ∃ index, FirstGreatest ContainerCheckpointView.xid
        (ring.generationAt source storeOffsetBytes storeSizeBytes) ring.anchor.xpDescBlockCount
        index view) ∧
    (loadContainerCheckpointView source storeOffsetBytes storeSizeBytes none =
        .error "CheckpointNoCompleteGeneration" ↔ ∀ index < ring.anchor.xpDescBlockCount,
      ring.generationAt source storeOffsetBytes storeSizeBytes index = none) ∧
    ∀ index view, ring.generationAt source storeOffsetBytes storeSizeBytes index = some view →
      CompleteGeneration source storeOffsetBytes storeSizeBytes ring.anchor view := by
  rw [hring.load_eq]
  refine ⟨?_, ?_, fun index view => completeGeneration_of_generationAt⟩
  · intro view
    rcases chooseGeneration_none ring source storeOffsetBytes storeSizeBytes with
      ⟨hchoose, hempty⟩ | ⟨index, chosen, hchoose, hfirst⟩
    · rw [hchoose, if_neg hspaceman]
      refine iff_of_false (fun h => by cases h) ?_
      rintro ⟨index, hfirst⟩
      have hnone := hempty index hfirst.inside
      rw [hfirst.holds] at hnone
      cases hnone
    · rw [hchoose]
      constructor
      · intro heq
        rw [← Except.ok.inj heq]
        exact ⟨index, hfirst⟩
      · rintro ⟨place, hother⟩
        rw [hfirst.unique hother]
  · rcases chooseGeneration_none ring source storeOffsetBytes storeSizeBytes with
      ⟨hchoose, hempty⟩ | ⟨index, chosen, hchoose, hfirst⟩
    · rw [hchoose, if_neg hspaceman]
      exact iff_of_true rfl hempty
    · rw [hchoose]
      refine iff_of_false (fun h => by cases h) fun hempty => ?_
      have hnone := hempty index hfirst.inside
      rw [hfirst.holds] at hnone
      cases hnone

/-- **An interrupted publication** leaves the old generation or the new one: where every slot has
what it had, nothing complete or the new generation, and the old one is still there. -/
theorem interrupted_publication_loads_old_or_new {before after : RandomAccessSource}
    {ring' : Ring} {old new : ContainerCheckpointView}
    (hring : RingRead before storeOffsetBytes storeSizeBytes ring)
    (hring' : RingRead after storeOffsetBytes storeSizeBytes ring')
    (hspaceman : ring.anchor.spacemanOid ≠ 0)
    (hcount : ring'.anchor.xpDescBlockCount = ring.anchor.xpDescBlockCount)
    (hload : loadContainerCheckpointView before storeOffsetBytes storeSizeBytes none = .ok old)
    (hkept : ∀ index < ring.anchor.xpDescBlockCount,
      ring.generationAt before storeOffsetBytes storeSizeBytes index = some old →
      ring'.generationAt after storeOffsetBytes storeSizeBytes index = some old)
    (hslots : ∀ index < ring.anchor.xpDescBlockCount,
      ring'.generationAt after storeOffsetBytes storeSizeBytes index =
          ring.generationAt before storeOffsetBytes storeSizeBytes index ∨
        ring'.generationAt after storeOffsetBytes storeSizeBytes index = none ∨
        ring'.generationAt after storeOffsetBytes storeSizeBytes index = some new) :
    loadContainerCheckpointView after storeOffsetBytes storeSizeBytes none = .ok old ∨
      loadContainerCheckpointView after storeOffsetBytes storeSizeBytes none = .ok new := by
  rw [hring.load_eq] at hload
  rw [hring'.load_eq]
  rcases chooseGeneration_none ring before storeOffsetBytes storeSizeBytes with
    ⟨hchoose, -⟩ | ⟨index, chosen, hchoose, hfirst⟩
  · rw [hchoose, if_neg hspaceman] at hload
    cases hload
  obtain rfl : chosen = old := Except.ok.inj (hchoose.symm.trans hload)
  have hstill := hkept index hfirst.inside hfirst.holds
  rcases chooseGeneration_none ring' after storeOffsetBytes storeSizeBytes with
    ⟨-, hempty⟩ | ⟨place, view, hnow, hnewest⟩
  · have hnone := hempty index (hcount ▸ hfirst.inside)
    rw [hstill] at hnone
    cases hnone
  · rw [hcount] at hnewest
    rw [hnow]
    rcases hfirst.replaced hstill hslots hnewest with rfl | rfl
    · exact .inl rfl
    · exact .inr rfl

end Results

/-! ## A container of one generation -/

/-- The size of the source below is one that a source can have. -/
theorem size_lt : 2 ^ 64 - 1 < 2 ^ 64 := by norm_num

/-- A source that holds blocks of one page. -/
def pagesSource (pages : List Bytes) : RandomAccessSource where
  sizeBytes := 2 ^ 64 - 1
  sizeBytes_lt := size_lt
  read offset size := pages[offset / 4096]?.filter fun page =>
    offset % 4096 = 0 ∧ page.length = size ∧ offset + size ≤ 2 ^ 64 - 1
  length_of_read h := (of_decide_eq_true (Option.filter_eq_some_iff.mp h).2).2.1
  le_of_read h := (of_decide_eq_true (Option.filter_eq_some_iff.mp h).2).2.2

/-- A page of which only the front is not zero. -/
def pageOf (front : Bytes) : Bytes := front ++ List.replicate (4096 - front.length) 0

section Page

variable {front : Bytes} {width off : ℕ}

theorem length_pageOf (h : front.length ≤ 4096) : (pageOf front).length = 4096 := by
  rw [pageOf, List.length_append, List.length_replicate]
  omega

theorem slice_pageOf (h : off + width ≤ front.length) :
    slice (pageOf front) off width = slice front off width := by
  rw [slice, slice, pageOf, List.drop_append_of_le_length (by omega),
    List.take_append_of_le_length (by rw [List.length_drop]; omega)]

theorem slice_pageOf_behind (h : front.length ≤ off) :
    slice (pageOf front) off width = List.replicate (min width (4096 - off)) 0 := by
  rw [slice, pageOf, List.drop_append, List.drop_eq_nil_of_le h, List.nil_append,
    List.drop_replicate, List.take_replicate]
  congr 2
  omega

theorem leValue_zeros (count : ℕ) : leValue (List.replicate count 0) = 0 := by
  induction count with
  | zero => rfl
  | succ count ih =>
    rw [List.replicate_succ, leValue_cons, ih]
    rfl

/-- A page is read as its front, behind which a reader finds zero. -/
theorem readLE_pageOf (hfront : front.length ≤ 4096) (hwidth : 0 < width)
    (hoff : off + width ≤ front.length ∨ front.length ≤ off) :
    (readLE width (pageOf front) off).getD 0 = (readLE width front off).getD 0 := by
  rw [readLE, readLE, length_pageOf hfront]
  rcases hoff with hin | hbehind
  · rw [if_pos (by omega), if_pos hin, slice_pageOf hin]
  · rw [if_neg (by omega : ¬off + width ≤ front.length), slice_pageOf_behind hbehind, leValue_zeros]
    split <;> rfl

end Page

/-- The front of a superblock of transaction 7: a container of three pages with a ring of two.  The
one in block zero names a space manager, and the one in the ring, a generation without maps, does
not. -/
@[irreducible] def sampleFront (inRing : Bool) : Bytes :=
  leBytes 8 (if inRing then 18214830593959559078 else 18219167067818496934) ++ leBytes 8 1 ++
    leBytes 8 7 ++ leBytes 4 0x80000001 ++ leBytes 4 0 ++ [0x4E, 0x58, 0x53, 0x42] ++
    leBytes 4 4096 ++ leBytes 8 3 ++ List.replicate 24 0 ++ List.replicate 16 1 ++
    List.replicate 16 0 ++ leBytes 4 2 ++ leBytes 4 0 ++ leBytes 8 1 ++ leBytes 8 0 ++ leBytes 4 1 ++
    leBytes 8 0 ++ leBytes 4 1 ++ leBytes 8 0 ++ leBytes 8 (if inRing then 0 else 1024) ++
    leBytes 8 9 ++ List.replicate 12 0 ++ leBytes 4 1 ++ List.replicate 8 0

/-- The blocks of the ring.  The last one is empty, or a superblock was torn there. -/
def sampleDescriptors (torn : Bool) : List Bytes :=
  [pageOf (sampleFront true), List.replicate 4096 (if torn then 0xFF else 0)]

/-- The superblock as it is parsed. -/
def sampleFields (inRing : Bool) : NxSuperblock :=
  { superblockFields (sampleFront inRing) with fusionUuid := List.replicate 16 0 }

def sampleRing (torn : Bool) : Ring :=
  ⟨sampleFields false, pageOf (sampleFront false), sampleDescriptors torn⟩

def sampleContainer (torn : Bool) : RandomAccessSource :=
  pagesSource (pageOf (sampleFront false) :: sampleDescriptors torn)

/-- The generation of transaction 7. -/
def sampleGeneration : ContainerCheckpointView :=
  ⟨sampleFields true, 1, pageOf (sampleFront true), [], []⟩

section Sample

variable {inRing torn : Bool}

theorem length_sampleFront : (sampleFront inRing).length = 192 := by
  unfold sampleFront
  simp only [List.length_append, length_leBytes, List.length_replicate, List.length_cons,
    List.length_nil]

theorem length_samplePage : (pageOf (sampleFront inRing)).length = 4096 :=
  length_pageOf (by rw [length_sampleFront]; norm_num)

theorem readLE_sampleFront {width off : ℕ} (hwidth : 0 < width)
    (hoff : off + width ≤ 192 ∨ 192 ≤ off) :
    (readLE width (pageOf (sampleFront inRing)) off).getD 0 =
      (readLE width (sampleFront inRing) off).getD 0 :=
  readLE_pageOf (by rw [length_sampleFront]; norm_num) hwidth (by rwa [length_sampleFront])

theorem fsOidSlot_sampleFront :
    fsOidSlot (pageOf (sampleFront inRing)) = fsOidSlot (sampleFront inRing) := by
  funext slot
  exact readLE_sampleFront (by norm_num) (by omega)

theorem superblockFields_sampleFront :
    superblockFields (pageOf (sampleFront inRing)) = sampleFields inRing := by
  unfold sampleFields superblockFields
  simp (disch := omega) only [u64At, u32At, readU64LE, readU32LE, readLE_sampleFront,
    fsOidSlot_sampleFront]
  congr 1
  · exact slice_pageOf (by rw [length_sampleFront]; norm_num)
  · exact slice_pageOf_behind (by rw [length_sampleFront]; norm_num)

theorem parseNxSuperblock_sampleFront :
    parseNxSuperblock (pageOf (sampleFront inRing)) = some (sampleFields inRing) := by
  have hmagic : slice (pageOf (sampleFront inRing)) 0x20 4 = slice (sampleFront inRing) 0x20 4 :=
    slice_pageOf (by rw [length_sampleFront]; norm_num)
  have htype : u32At (pageOf (sampleFront inRing)) 0x18 = u32At (sampleFront inRing) 0x18 :=
    readLE_sampleFront (by norm_num) (by norm_num)
  have hslots : u32At (pageOf (sampleFront inRing)) 0xB4 = u32At (sampleFront inRing) 0xB4 :=
    readLE_sampleFront (by norm_num) (by norm_num)
  have hverify : verifyObjectChecksum (pageOf (sampleFront inRing)) 4096 = true ∧
      (sampleFields inRing).blockSize = 4096 := by cases inRing <;> decide +kernel
  rw [parseNxSuperblock, superblockFields_sampleFront]
  rw [hmagic, length_samplePage, hverify.2, hverify.1, fsOidSlot_sampleFront, htype, hslots]
  cases inRing <;> decide +kernel

/-- The last block is no superblock. -/
theorem parseNxSuperblock_last :
    parseNxSuperblock (List.replicate 4096 (if torn then 0xFF else 0)) = none := by
  rw [parseNxSuperblock]
  refine if_pos (.inr ?_)
  rw [slice, List.drop_replicate, List.take_replicate]
  cases torn <;> decide

/-- What the loader goes by. -/
theorem sampleFields_checks : (sampleFields false).blockSize = 4096 ∧
    (sampleFields false).xpDescBlockCount = 2 ∧ (sampleFields false).xpDescBaseBlock = 1 ∧
    (sampleFields false).spacemanOid ≠ 0 := by
  decide +kernel

theorem readBlockAt_pagesSource {pages : List Bytes} {index : ℕ} {page : Bytes}
    (h : pages[index]? = some page) (hpage : page.length = 4096)
    (hindex : index * 4096 + 4096 ≤ 2 ^ 64 - 1) :
    readBlockAt (pagesSource pages) (index * 4096) 4096 = some page :=
  Option.filter_eq_some_iff.mpr ⟨by rwa [Nat.mul_div_cancel _ (by norm_num)],
    decide_eq_true ⟨Nat.mul_mod_left _ _, hpage, hindex⟩⟩

theorem sampleRing_read (torn : Bool) :
    RingRead (sampleContainer torn) 0 12288 (sampleRing torn) := by
  obtain ⟨hsize, hcount, hbase, -⟩ := sampleFields_checks
  have hread : ∀ index page, index * 4096 + 4096 ≤ 2 ^ 64 - 1 →
      (pageOf (sampleFront false) :: sampleDescriptors torn)[index]? = some page →
      page.length = 4096 →
      readBlockAt (sampleContainer torn) (index * 4096) 4096 = some page :=
    fun index page hindex hpage hlength => readBlockAt_pagesSource hpage hlength hindex
  have hzero : readBlockAt (sampleContainer torn) 0 4096 = some (pageOf (sampleFront false)) :=
    hread 0 _ (by norm_num) rfl length_samplePage
  refine ⟨⟨_, hzero, congrArg NxSuperblock.blockSize superblockFields_sampleFront⟩, ?_, ?_,
    parseNxSuperblock_sampleFront, ?_, ?_, ?_, ?_, ?_, ?_⟩
  · show blockSizeAdmitted (sampleFields false).blockSize = true
    rw [hsize]
    decide
  · show readBlockAt _ 0 (sampleFields false).blockSize = _
    rw [hsize]
    exact hzero
  · cases torn <;> decide +kernel
  · cases torn <;> decide +kernel
  · cases torn <;> decide +kernel
  · cases torn <;> decide +kernel
  · cases torn <;> decide +kernel
  · show readDescriptorBlocks _ 0 (sampleFields false).blockSize (sampleFields false) =
      some (sampleDescriptors torn)
    have hfirst := hread 1 _ (by norm_num) rfl length_samplePage
    have hsecond := hread 2 _ (by norm_num) rfl List.length_replicate
    rw [readDescriptorBlocks, hcount, hbase, hsize, show List.range 2 = [0, 1] from rfl]
    simp only [List.mapM_cons, List.mapM_nil, tryBlockOffset]
    norm_num [hfirst, hsecond, sampleDescriptors]

/-- Only the first slot holds a generation, before and after. -/
theorem generationAt_sampleRing (torn : Bool) : ∀ index < 2,
    (sampleRing torn).generationAt (sampleContainer torn) 0 12288 index =
      if index = 0 then some sampleGeneration else none := by
  intro index hlt
  by_cases hfirst : index = 0
  · rw [if_pos hfirst, hfirst]
    refine (@generationAt_eq_some _ _ _ (sampleFields true) (sampleRing torn) 0 []
      parseNxSuperblock_sampleFront ?_ ?_ ?_).trans ?_
    · cases torn <;> decide +kernel
    · cases torn <;> decide +kernel
    · cases torn <;> decide +kernel
    · cases torn <;> decide +kernel
  · obtain rfl : index = 1 := by omega
    rw [if_neg hfirst, Ring.generationAt, buildCheckpointCandidate]
    have hlast : parseNxSuperblock ((sampleRing torn).descriptorBlocks.getD 1 []) = none :=
      parseNxSuperblock_last
    rw [hlast]

theorem firstGreatest_sampleRing (torn : Bool) : FirstGreatest ContainerCheckpointView.xid
    ((sampleRing torn).generationAt (sampleContainer torn) 0 12288) 2 0 sampleGeneration := by
  have hholds := generationAt_sampleRing torn
  refine ⟨by norm_num, hholds 0 (by norm_num), fun place hplace other hother => ?_,
    fun place hplace other hother => absurd hplace (Nat.not_lt_zero place)⟩
  rw [hholds place hplace] at hother
  split at hother
  · rw [← Option.some.inj hother]
  · cases hother

theorem sampleContainer_load :
    loadContainerCheckpointView (sampleContainer false) 0 12288 none = .ok sampleGeneration := by
  rw [(sampleRing_read false).load_eq]
  have hcount : (sampleRing false).anchor.xpDescBlockCount = 2 := sampleFields_checks.2.1
  have hfirst := firstGreatest_sampleRing false
  rcases chooseGeneration_none (sampleRing false) (sampleContainer false) 0 12288 with
    ⟨-, hempty⟩ | ⟨index, view, hchoose, hother⟩
  · have hnone := hempty 0 (by rw [hcount]; norm_num)
    rw [hfirst.holds] at hnone
    cases hnone
  · rw [hcount] at hother
    rw [hchoose, hfirst.unique hother]

theorem newest_generation_loaded_sample : ∃ index, FirstGreatest ContainerCheckpointView.xid
    ((sampleRing false).generationAt (sampleContainer false) 0 12288)
    (sampleRing false).anchor.xpDescBlockCount index sampleGeneration :=
  ((newest_generation_loaded (sampleRing_read false) sampleFields_checks.2.2.2).1 _).mp
    sampleContainer_load

theorem interrupted_publication_loads_old_or_new_torn :
    loadContainerCheckpointView (sampleContainer true) 0 12288 none = .ok sampleGeneration := by
  have hsame : ∀ index < 2,
      (sampleRing true).generationAt (sampleContainer true) 0 12288 index =
        (sampleRing false).generationAt (sampleContainer false) 0 12288 index := by
    intro index hindex
    rw [generationAt_sampleRing true index hindex, generationAt_sampleRing false index hindex]
  have hcount : (sampleRing false).anchor.xpDescBlockCount = 2 := sampleFields_checks.2.1
  refine (interrupted_publication_loads_old_or_new (sampleRing_read false) (sampleRing_read true)
    sampleFields_checks.2.2.2 rfl sampleContainer_load
    (fun index hindex hold => (hsame index (hcount ▸ hindex)).trans hold)
    fun index hindex => .inl (hsame index (hcount ▸ hindex))).elim id id

end Sample

end Checkpoint
end ApfsAccess
