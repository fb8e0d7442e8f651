import ApfsAccess.Extents.PayloadGraph

/-!
# Snapshot extent layers

A volume with snapshots keeps a chain of extent-reference layers.  Each layer holds
only what changed: ranges that are new, and updates of the reference counts of
ranges that an earlier view already had.  `ResolveSnapshotExtentLayer` applies a
layer to what the chain before it resolves to, `PlanAppleSnapshotExtentLayer`
computes the layer that leads to a complete set of references.

Both cut the blocks at every boundary of their inputs and decide each segment at
its first block.

* `rangeAt_eq_of_boundaries`, `historyAt_eq_of_boundaries` : nothing changes inside
  a segment.
* `sweepSegments_ok` : what the list built from the segments contains.
* `resolve_plan` : a planned layer leads to the complete references.
* `resolveSnapshotChain_append_plan` : **a chain extended by a planned layer resolves to the
  complete references, block by block.**
-/

namespace ApfsAccess
namespace Extents

open Format ByteBuffer Sorting

/-- `SnapshotRanges`. -/
abbrev SnapshotRanges := List ApplePhysicalExtentRecord

/-- The loop of `SnapshotRangesValid`. -/
def snapshotRangesValidFrom (containerBlocks : ℕ) (disjoint : Bool) :
    SnapshotRanges → ℕ → Except String Unit
  | [], _ => .ok ()
  | range :: rest, finish =>
    match encodeApplePhysicalExtentRecord range with
    | .error _ => .error "AppleSnapshotResolvedRangeInvalid"
    | .ok _ =>
      if range.kind ≠ physicalExtentKindNew ∨ containerBlocks ≤ range.physicalBlock ∨
          containerBlocks - range.physicalBlock < range.blockCount ∨
          (disjoint ∧ range.physicalBlock < finish) then
        .error "AppleSnapshotResolvedRangeInvalid"
      else
        snapshotRangesValidFrom containerBlocks disjoint rest range.extentEnd

/-- `SnapshotRangesValid`. -/
def snapshotRangesValid (ranges : SnapshotRanges) (containerBlocks : ℕ) (disjoint : Bool) :
    Except String Unit :=
  snapshotRangesValidFrom containerBlocks disjoint ranges 0

/-- `SnapshotRangeAt`: the last range that starts at or before the block, if it
reaches it. -/
def snapshotRangeAt (ranges : SnapshotRanges) (block : ℕ) : Option ApplePhysicalExtentRecord :=
  ((ranges.takeWhile fun range => decide (range.physicalBlock ≤ block)).getLast?).filter
    fun range => decide (block - range.physicalBlock < range.blockCount)

/-- `SnapshotHistoryUnion`. -/
def snapshotHistoryUnion (ranges : SnapshotRanges) : List (ℕ × ℕ) :=
  normalize (physicalRanges ranges)

/-- `SnapshotHistoryAt`.  No end is above `UINT64_MAX`, so the bound of the pair is
the bound of its start. -/
def snapshotHistoryAt (history : List (ℕ × ℕ)) (block : ℕ) : Bool :=
  ((history.takeWhile fun range => decide (range.1 ≤ block)).getLast?).any
    fun range => decide (block < range.2)

/-- `SnapshotBoundaries`. -/
def snapshotBoundaries (ranges : SnapshotRanges) : List ℕ :=
  ranges.flatMap fun range => [range.physicalBlock, range.extentEnd]

/-- `points`: the boundaries of two range lists and of the history, in order. -/
def snapshotPoints (ranges others : SnapshotRanges) (history : List (ℕ × ℕ)) : List ℕ :=
  (sortBy (snapshotBoundaries ranges ++ snapshotBoundaries others ++
    history.flatMap fun range => [range.1, range.2]) fun left right => decide (left ≤ right)).dedup

/-- `SnapshotAppend`. -/
def snapshotAppend (ranges : SnapshotRanges) (range : ApplePhysicalExtentRecord) :
    SnapshotRanges :=
  match ranges.getLast? with
  | none => [range]
  | some last =>
    if last.extentEnd = range.physicalBlock ∧ last.kind = range.kind ∧
        last.owningObjectId = range.owningObjectId ∧ last.referenceCount = range.referenceCount then
      ranges.dropLast ++ [{ last with blockCount := last.blockCount + range.blockCount }]
    else ranges ++ [range]

/-- The loop over the segments between neighbouring points. -/
def sweepSegments (segment : ℕ → ℕ → Except String (Option ApplePhysicalExtentRecord)) :
    List ℕ → SnapshotRanges → Except String SnapshotRanges
  | start :: finish :: rest, ranges =>
    match segment start finish with
    | .error reason => .error reason
    | .ok none => sweepSegments segment (finish :: rest) ranges
    | .ok (some range) => sweepSegments segment (finish :: rest) (snapshotAppend ranges range)
  | _, ranges => .ok ranges

/-- One segment: what the two range lists and the history say at its first block
decides it. -/
def segmentOf (value : Option ApplePhysicalExtentRecord → Option ApplePhysicalExtentRecord →
      Bool → Except String (Option ApplePhysicalExtentRecord))
    (ranges others : SnapshotRanges) (history : List (ℕ × ℕ)) (start finish : ℕ) :
    Except String (Option ApplePhysicalExtentRecord) :=
  (value (snapshotRangeAt ranges start) (snapshotRangeAt others start)
    (snapshotHistoryAt history start)).map fun result => result.map fun range =>
      { range with physicalBlock := start, blockCount := finish - start }

/-- `EncodeApplePhysicalExtentRecord` for each range. -/
def encodeRanges : SnapshotRanges → Except String (List BtreeRecord)
  | [] => .ok []
  | range :: rest =>
    match encodeApplePhysicalExtentRecord range with
    | .error reason => .error reason
    | .ok record =>
      match encodeRanges rest with
      | .error reason => .error reason
      | .ok records => .ok (record :: records)

/-! ## `ResolveSnapshotExtentLayer` -/

/-- The decoding loop over a layer. -/
def decodeLayer (containerBlocks : ℕ) : List BtreeRecord → Except String SnapshotRanges
  | [] => .ok []
  | record :: rest =>
    match decodeApplePhysicalExtentRecord record with
    | .error _ => .error "AppleSnapshotLayerRecordInvalid"
    | .ok range =>
      if containerBlocks ≤ range.physicalBlock ∨
          containerBlocks - range.physicalBlock < range.blockCount then
        .error "AppleSnapshotLayerRecordInvalid"
      else
        match decodeLayer containerBlocks rest with
        | .error reason => .error reason
        | .ok ranges => .ok (range :: ranges)

/-- The count of a block after a change. -/
def resolvedCount (before change : Option ApplePhysicalExtentRecord) (held : Bool) :
    Except String ℤ :=
  let count := (before.map (·.referenceCount)).getD 0
  match change with
  | none => .ok count
  | some change =>
    if change.kind = physicalExtentKindNew then
      if held || before.isSome then .error "AppleSnapshotNewOverlapsHistory"
      else .ok change.referenceCount
    else if !held then .error "AppleSnapshotUpdateWithoutHistory"
    else .ok (count + change.referenceCount)

/-- The body of the loop of `ResolveSnapshotExtentLayer`, apart from the bounds of the
segment. -/
def resolveValue (before change : Option ApplePhysicalExtentRecord) (held : Bool) :
    Except String (Option ApplePhysicalExtentRecord) :=
  if before.isSome && !held then
    .error "AppleSnapshotPriorOwnershipMissing"
  else
    match change.or before with
    | none => .ok none
    | some range =>
      match resolvedCount before change held with
      | .error reason => .error reason
      | .ok count =>
        if count < 0 ∨ 2 ^ 31 - 1 < count then .error "AppleSnapshotLayerRefcountOverflow"
        else if count = 0 then .ok none
        else .ok (some { range with kind := physicalExtentKindNew, referenceCount := count })

/-- `ResolveSnapshotExtentLayerWithAdmission`, without encryption. -/
def resolveSnapshotExtentLayerWithAdmission (prior historical : SnapshotRanges)
    (filesystem layer : List BtreeRecord) (blockSize containerBlocks : ℕ) (observational : Bool) :
    Except String SnapshotRanges :=
  match snapshotRangesValid prior containerBlocks true,
      snapshotRangesValid historical containerBlocks false with
  | .error reason, _ => .error reason
  | _, .error reason => .error reason
  | .ok (), .ok () =>
    match decodeLayer containerBlocks layer with
    | .error reason => .error reason
    | .ok decoded =>
      let changes := sortByBlock decoded
      if adjacentOverlap changes then .error "AppleSnapshotLayerOverlap"
      else
        let history := snapshotHistoryUnion historical
        match sweepSegments (segmentOf resolveValue prior changes history)
            (snapshotPoints prior changes history) [] with
        | .error reason => .error reason
        | .ok resolved =>
          match encodeRanges resolved with
          | .error reason => .error reason
          | .ok complete =>
            validateApplePayloadExtentGraphImpl filesystem complete blockSize containerBlocks
              observational

/-- `ResolveAppleSnapshotExtentLayer`. -/
def resolveAppleSnapshotExtentLayer (prior historical : SnapshotRanges)
    (filesystem layer : List BtreeRecord) (blockSize containerBlocks : ℕ) :
    Except String SnapshotRanges :=
  resolveSnapshotExtentLayerWithAdmission prior historical filesystem layer blockSize
    containerBlocks false

/-- `ResolveAppleReadOnlySnapshotExtentLayer`. -/
def resolveAppleReadOnlySnapshotExtentLayer (prior historical : SnapshotRanges)
    (filesystem layer : List BtreeRecord) (blockSize containerBlocks : ℕ) :
    Except String SnapshotRanges :=
  resolveSnapshotExtentLayerWithAdmission prior historical filesystem layer blockSize
    containerBlocks true

/-! ## `PlanAppleSnapshotExtentLayer` -/

/-- The body of the loop of `PlanAppleSnapshotExtentLayer`, apart from the bounds of the
segment. -/
def planValue (a b : Option ApplePhysicalExtentRecord) (held : Bool) :
    Except String (Option ApplePhysicalExtentRecord) :=
  match b.or a with
  | none => .ok none
  | some range =>
    if a.isSome && b.isSome && a.map (·.referenceCount) == b.map (·.referenceCount) &&
        a.map (·.owningObjectId) == b.map (·.owningObjectId) then
      .ok none
    else if held then
      .ok (some
        { range with
          kind := physicalExtentKindUpdate
          referenceCount :=
            (b.map (·.referenceCount)).getD 0 - (a.map (·.referenceCount)).getD 0 })
    else if a.isSome then
      .error "AppleSnapshotPriorOwnershipMissing"
    else
      .ok (some { range with kind := physicalExtentKindNew })

/-- `PlanAppleSnapshotExtentLayer`. -/
def planAppleSnapshotExtentLayer (prior historical : SnapshotRanges)
    (filesystem completeExtentrefs : List BtreeRecord) (blockSize containerBlocks : ℕ) :
    Except String (List BtreeRecord) :=
  match snapshotRangesValid prior containerBlocks true,
      snapshotRangesValid historical containerBlocks false with
  | .error reason, _ => .error reason
  | _, .error reason => .error reason
  | .ok (), .ok () =>
    match validateApplePayloadExtentGraph filesystem completeExtentrefs blockSize
        containerBlocks with
    | .error reason => .error reason
    | .ok after =>
      let history := snapshotHistoryUnion historical
      match sweepSegments (segmentOf planValue prior after history)
          (snapshotPoints prior after history) [] with
      | .error reason => .error reason
      | .ok changes =>
        match encodeRanges changes with
        | .error reason => .error reason
        | .ok result =>
          match resolveAppleSnapshotExtentLayer prior historical filesystem result blockSize
              containerBlocks with
          | .error reason => .error reason
          | .ok _ => .ok result

/-! ## Chains -/

/-- A layer of the chain, with what it is resolved against. -/
structure SnapshotLayer where
  historical : SnapshotRanges
  filesystem : List BtreeRecord
  records : List BtreeRecord

/-- What a chain of layers resolves to. -/
def resolveSnapshotChain (blockSize containerBlocks : ℕ) (chain : List SnapshotLayer) :
    Except String SnapshotRanges :=
  chain.foldlM (fun prior layer => resolveAppleSnapshotExtentLayer prior layer.historical
    layer.filesystem layer.records blockSize containerBlocks) []

/-- The owner and the reference count of a block. -/
def ownerAndReferences (ranges : SnapshotRanges) (block : ℕ) : Option (ℕ × ℤ) :=
  (ranges.find? fun range => decide (range.Covers block)).map fun range =>
    (range.owningObjectId, range.referenceCount)

/-! ## Reading a list of ranges -/

theorem mem_of_snapshotRangeAt {ranges : SnapshotRanges} {block : ℕ}
    {range : ApplePhysicalExtentRecord} (h : snapshotRangeAt ranges block = some range) :
    range ∈ ranges ∧ range.Covers block := by
  unfold snapshotRangeAt at h
  obtain ⟨hlast, hreaches⟩ := Option.filter_eq_some_iff.mp h
  have hmem := List.mem_of_getLast? hlast
  have hstart : range.physicalBlock ≤ block := by simpa using List.mem_takeWhile_imp hmem
  refine ⟨(List.takeWhile_sublist _).subset hmem, hstart, ?_⟩
  have hreaches : block - range.physicalBlock < range.blockCount := of_decide_eq_true hreaches
  unfold ApplePhysicalExtentRecord.extentEnd
  omega

/-- A sorted list of ranges is read where it covers the block. -/
theorem snapshotRangeAt_eq_some_iff {ranges : SnapshotRanges} (hsorted : BlockSorted ranges)
    {block : ℕ} {range : ApplePhysicalExtentRecord} :
    snapshotRangeAt ranges block = some range ↔ range ∈ ranges ∧ range.Covers block := by
  constructor
  · exact mem_of_snapshotRangeAt
  · rintro ⟨hmem, hcovers⟩
    obtain ⟨front, back, rfl⟩ := List.append_of_mem hmem
    obtain ⟨-, hback, hfront⟩ := List.pairwise_append.mp hsorted
    -- the ranges before it start before the block, the ranges after it past the block
    have htake : (front ++ range :: back).takeWhile
        (fun range => decide (range.physicalBlock ≤ block)) = front ++ [range] := by
      rw [List.takeWhile_append_of_pos, List.takeWhile_cons_of_pos (by simpa using hcovers.1)]
      · cases back with
        | nil => rfl
        | cons next rest =>
          have hnext := List.rel_of_pairwise_cons hback List.mem_cons_self
          have := hcovers.2
          rw [List.takeWhile_cons_of_neg (by simp only [decide_eq_true_eq]; omega)]
      · intro other hother
        have hbefore := hfront other hother range List.mem_cons_self
        have := hcovers.1
        unfold ApplePhysicalExtentRecord.extentEnd at hbefore
        simp only [decide_eq_true_eq]
        omega
    unfold snapshotRangeAt
    rw [htake, List.getLast?_concat, Option.filter_some, if_pos]
    obtain ⟨hfrom, hto⟩ := hcovers
    unfold ApplePhysicalExtentRecord.extentEnd at hto
    simp only [decide_eq_true_eq]
    omega

/-- Disjoint ranges are read where they cover the block, in any order. -/
theorem find?_covers_eq_some_iff {ranges : SnapshotRanges}
    (hdisjoint : ranges.Pairwise PhysicallyDisjoint) {block : ℕ}
    {range : ApplePhysicalExtentRecord} :
    ranges.find? (fun range => decide (range.Covers block)) = some range ↔
      range ∈ ranges ∧ range.Covers block := by
  constructor
  · intro h
    exact ⟨List.mem_of_find?_eq_some h, by simpa using List.find?_some h⟩
  · rintro ⟨hmem, hcovers⟩
    cases hfind : ranges.find? (fun range => decide (range.Covers block)) with
    | none =>
      have := List.find?_eq_none.mp hfind range hmem
      exact absurd (decide_eq_true hcovers) this
    | some other =>
      have hcovers' : other.Covers block := by simpa using List.find?_some hfind
      rw [eq_of_covers hdisjoint (List.mem_of_find?_eq_some hfind) hmem hcovers' hcovers]

theorem BlockSorted.disjoint {ranges : SnapshotRanges} (h : BlockSorted ranges) :
    ranges.Pairwise PhysicallyDisjoint :=
  h.imp fun hle => .inl hle

theorem ownerAndReferences_eq {ranges : SnapshotRanges} (hsorted : BlockSorted ranges) (block : ℕ) :
    ownerAndReferences ranges block = (snapshotRangeAt ranges block).map fun range =>
      (range.owningObjectId, range.referenceCount) := by
  unfold ownerAndReferences
  congr 1
  ext range
  rw [find?_covers_eq_some_iff hsorted.disjoint, snapshotRangeAt_eq_some_iff hsorted]

theorem ownerAndReferences_perm {ranges others : SnapshotRanges} (h : ranges.Perm others)
    (hdisjoint : ranges.Pairwise PhysicallyDisjoint) (block : ℕ) :
    ownerAndReferences ranges block = ownerAndReferences others block := by
  have hothers : others.Pairwise PhysicallyDisjoint :=
    (h.pairwise_iff fun {_ _} hleft => hleft.symm).mp hdisjoint
  unfold ownerAndReferences
  congr 1
  ext range
  rw [find?_covers_eq_some_iff hdisjoint, find?_covers_eq_some_iff hothers, h.mem_iff]

/-- What is stored of a range: its kind, its owner and its reference count. -/
def rangeData (range : ApplePhysicalExtentRecord) : ℕ × ℕ × ℤ :=
  (range.kind, range.owningObjectId, range.referenceCount)

/-- What a list of ranges says about a block. -/
def contentAt (ranges : SnapshotRanges) (block : ℕ) : Option (ℕ × ℕ × ℤ) :=
  (snapshotRangeAt ranges block).map rangeData

theorem contentAt_eq_some_iff {ranges : SnapshotRanges} (hsorted : BlockSorted ranges) {block : ℕ}
    {data : ℕ × ℕ × ℤ} :
    contentAt ranges block = some data ↔
      ∃ range ∈ ranges, range.Covers block ∧ rangeData range = data := by
  unfold contentAt
  rw [Option.map_eq_some_iff]
  simp only [snapshotRangeAt_eq_some_iff hsorted, and_assoc]

/-! ## Appending a range -/

theorem exists_mem_snapshotAppend {ranges : SnapshotRanges} {range : ApplePhysicalExtentRecord}
    {block : ℕ} {data : ℕ × ℕ × ℤ} :
    (∃ other ∈ snapshotAppend ranges range, other.Covers block ∧ rangeData other = data) ↔
      (range.Covers block ∧ rangeData range = data) ∨
        ∃ other ∈ ranges, other.Covers block ∧ rangeData other = data := by
  unfold snapshotAppend
  cases hlast : ranges.getLast? with
  | none =>
    rw [List.getLast?_eq_none_iff] at hlast
    subst hlast
    simp
  | some last =>
    obtain ⟨front, rfl⟩ := List.getLast?_eq_some_iff.mp hlast
    simp only [List.dropLast_concat]
    by_cases hjoin : last.extentEnd = range.physicalBlock ∧ last.kind = range.kind ∧
        last.owningObjectId = range.owningObjectId ∧ last.referenceCount = range.referenceCount
    · obtain ⟨htouch, hkind, howner, hreferences⟩ := hjoin
      rw [if_pos ⟨htouch, hkind, howner, hreferences⟩]
      have hdata : rangeData last = rangeData range := by
        unfold rangeData
        rw [hkind, howner, hreferences]
      have hcovers : ({ last with blockCount := last.blockCount + range.blockCount } :
          ApplePhysicalExtentRecord).Covers block ↔ last.Covers block ∨ range.Covers block := by
        simp only [ApplePhysicalExtentRecord.covers_iff]
        unfold ApplePhysicalExtentRecord.extentEnd at htouch
        omega
      simp only [List.mem_append, List.mem_singleton, or_and_right, exists_or, exists_eq_left,
        hcovers]
      have hdata' : rangeData { last with blockCount := last.blockCount + range.blockCount } =
          rangeData range := hdata
      rw [hdata', hdata, ← or_assoc, or_comm]
    · rw [if_neg hjoin]
      simp only [List.mem_append, List.mem_singleton, or_and_right, exists_or, exists_eq_left]
      exact or_comm

theorem blockSorted_snapshotAppend {ranges : SnapshotRanges} {range : ApplePhysicalExtentRecord}
    (hsorted : BlockSorted ranges)
    (hbound : ∀ other ∈ ranges, other.extentEnd ≤ range.physicalBlock) :
    BlockSorted (snapshotAppend ranges range) ∧
      ∀ other ∈ snapshotAppend ranges range, other.extentEnd ≤ range.extentEnd := by
  have hend : range.physicalBlock ≤ range.extentEnd := Nat.le_add_right _ _
  unfold snapshotAppend
  cases hlast : ranges.getLast? with
  | none => exact ⟨List.pairwise_singleton _ _, by simp⟩
  | some last =>
    obtain ⟨front, rfl⟩ := List.getLast?_eq_some_iff.mp hlast
    obtain ⟨hfront, -, hbefore⟩ := List.pairwise_append.mp hsorted
    simp only [List.dropLast_concat]
    split
    · rename_i hjoin
      refine ⟨List.pairwise_append.mpr ⟨hfront, List.pairwise_singleton _ _,
        fun other hother joined hjoined => ?_⟩, fun other hother => ?_⟩
      · rw [List.mem_singleton.mp hjoined]
        exact hbefore other hother last List.mem_cons_self
      · rcases List.mem_append.mp hother with hother | hother
        · exact (hbound other (List.mem_append_left _ hother)).trans hend
        · rw [List.mem_singleton.mp hother]
          have htouch := hjoin.1
          unfold ApplePhysicalExtentRecord.extentEnd at htouch ⊢
          simp only
          omega
    · refine ⟨List.pairwise_append.mpr ⟨hsorted, List.pairwise_singleton _ _,
        fun other hother next hnext => ?_⟩, fun other hother => ?_⟩
      · rw [List.mem_singleton.mp hnext]
        exact hbound other hother
      · rcases List.mem_append.mp hother with hother | hother
        · exact (hbound other hother).trans hend
        · rw [List.mem_singleton.mp hother]

/-- **An appended range is read at its own blocks, and everything else as before.** -/
theorem contentAt_snapshotAppend {ranges : SnapshotRanges} {range : ApplePhysicalExtentRecord}
    (hsorted : BlockSorted ranges)
    (hbound : ∀ other ∈ ranges, other.extentEnd ≤ range.physicalBlock) (block : ℕ) :
    contentAt (snapshotAppend ranges range) block =
      if range.Covers block then some (rangeData range) else contentAt ranges block := by
  ext data
  rw [contentAt_eq_some_iff (blockSorted_snapshotAppend hsorted hbound).1,
    exists_mem_snapshotAppend]
  by_cases hcovers : range.Covers block
  · have hnone : ¬ ∃ other ∈ ranges, other.Covers block ∧ rangeData other = data := by
      rintro ⟨other, hother, hcovers', -⟩
      have := hbound other hother
      have := hcovers.1
      have := hcovers'.2
      omega
    simp [hcovers, hnone]
  · rw [if_neg hcovers, contentAt_eq_some_iff hsorted]
    simp [hcovers]

/-! ## Segments -/

/-- A segment function that returns ranges over the whole segment. -/
def SegmentShaped (segment : ℕ → ℕ → Except String (Option ApplePhysicalExtentRecord)) : Prop :=
  ∀ start finish range, start < finish → segment start finish = .ok (some range) →
    range.physicalBlock = start ∧ range.extentEnd = finish

/-- **What the sweep over the segments builds**: at a block of a segment, what the
segment says; elsewhere, what was there before. -/
theorem sweepSegments_ok {segment : ℕ → ℕ → Except String (Option ApplePhysicalExtentRecord)}
    (hshape : SegmentShaped segment) {points : List ℕ}
    (hpoints : points.Pairwise fun left right => left < right) {ranges out : SnapshotRanges}
    (hsorted : BlockSorted ranges)
    (hbound : ∀ point ∈ points, ∀ range ∈ ranges, range.extentEnd ≤ point)
    (h : sweepSegments segment points ranges = .ok out) :
    BlockSorted out ∧ ∀ block,
      (∃ start finish result, start ∈ points ∧ start ≤ block ∧
        (∀ point ∈ points, point ≤ block → point ≤ start) ∧
        segment start finish = .ok result ∧ contentAt out block = result.map rangeData) ∨
      ((∀ point ∈ points, block < point) ∨ ∀ point ∈ points, point ≤ block) ∧
        contentAt out block = contentAt ranges block := by
  induction points generalizing ranges with
  | nil =>
    obtain rfl := Except.ok.inj h
    exact ⟨hsorted, fun block => .inr ⟨.inl (by simp), rfl⟩⟩
  | cons start rest ih =>
    cases rest with
    | nil =>
      obtain rfl := Except.ok.inj h
      refine ⟨hsorted, fun block => .inr ⟨?_, rfl⟩⟩
      rcases Nat.lt_or_ge block start with hlt | hge
      · exact .inl (by simpa using hlt)
      · exact .inr (by simpa using hge)
    | cons finish rest =>
      obtain ⟨hstart, hrest⟩ := List.pairwise_cons.mp hpoints
      have hlt := hstart finish List.mem_cons_self
      rw [sweepSegments] at h
      -- the ranges after this segment, and what they say
      obtain ⟨result, next, hsegment, hnext, hnextSorted, hnextBound, hcontent⟩ :
          ∃ result next, segment start finish = .ok result ∧
            sweepSegments segment (finish :: rest) next = .ok out ∧ BlockSorted next ∧
            (∀ range ∈ next, range.extentEnd ≤ finish) ∧
            ∀ block, contentAt next block =
              if start ≤ block ∧ block < finish then result.map rangeData
              else contentAt ranges block := by
        split at h
        · cases h
        · rename_i hsegment
          refine ⟨none, ranges, hsegment, h, hsorted,
            fun range hrange => hbound finish (by simp) range hrange, fun block => ?_⟩
          by_cases hin : start ≤ block ∧ block < finish
          · rw [if_pos hin]
            by_contra hsome
            obtain ⟨data, hdata⟩ := Option.ne_none_iff_exists'.mp hsome
            obtain ⟨range, hrange, hcovers, -⟩ := (contentAt_eq_some_iff hsorted).mp hdata
            have := hbound start List.mem_cons_self range hrange
            have := hcovers.2
            omega
          · rw [if_neg hin]
        · rename_i range hsegment
          obtain ⟨hblock, hend⟩ := hshape start finish range hlt hsegment
          have hbefore : ∀ other ∈ ranges, other.extentEnd ≤ range.physicalBlock :=
            fun other hother => hblock ▸ hbound start List.mem_cons_self other hother
          obtain ⟨hsorted', hbound'⟩ := blockSorted_snapshotAppend hsorted hbefore
          refine ⟨some range, snapshotAppend ranges range, hsegment, h, hsorted',
            fun other hother => hend ▸ hbound' other hother, fun block => ?_⟩
          rw [contentAt_snapshotAppend hsorted hbefore]
          refine if_congr ?_ rfl rfl
          unfold ApplePhysicalExtentRecord.Covers
          rw [hblock, hend]
      have hfinish : ∀ point ∈ finish :: rest, finish ≤ point := by
        intro point hpoint
        rcases List.mem_cons.mp hpoint with rfl | hpoint
        · exact le_refl _
        · exact (List.rel_of_pairwise_cons hrest hpoint).le
      obtain ⟨houtSorted, hout⟩ := ih hrest hnextSorted (fun point hpoint range hrange =>
        (hnextBound range hrange).trans (hfinish point hpoint)) hnext
      refine ⟨houtSorted, fun block => ?_⟩
      rcases hout block with ⟨start', finish', result', hmem, hle, hlast, hsegment', hdata⟩ |
        ⟨houtside, hdata⟩
      · refine .inl ⟨start', finish', result', List.mem_cons_of_mem start hmem, hle,
          fun point hpoint hpointLe => ?_, hsegment', hdata⟩
        rcases List.mem_cons.mp hpoint with rfl | hpoint
        · exact hlt.le.trans (hfinish start' hmem)
        · exact hlast point hpoint hpointLe
      · rw [hcontent] at hdata
        by_cases hin : start ≤ block ∧ block < finish
        · rw [if_pos hin] at hdata
          refine .inl ⟨start, finish, result, List.mem_cons_self, hin.1,
            fun point hpoint hpointLe => ?_, hsegment, hdata⟩
          rcases List.mem_cons.mp hpoint with rfl | hpoint
          · exact le_refl _
          · have := hfinish point hpoint
            omega
        · rw [if_neg hin] at hdata
          refine .inr ⟨?_, hdata⟩
          rcases houtside with hbefore | hafter
          · have := hbefore finish List.mem_cons_self
            refine .inl fun point hpoint => ?_
            rcases List.mem_cons.mp hpoint with rfl | hpoint
            · omega
            · exact hbefore point hpoint
          · have := hafter finish List.mem_cons_self
            refine .inr fun point hpoint => ?_
            rcases List.mem_cons.mp hpoint with rfl | hpoint
            · omega
            · exact hafter point hpoint

/-! ## Nothing changes inside a segment -/

theorem takeWhile_le_congr {α : Type*} {position : α → ℕ} {xs : List α} {start block : ℕ}
    (hle : start ≤ block) (h : ∀ x ∈ xs, position x ≤ block → position x ≤ start) :
    xs.takeWhile (fun x => decide (position x ≤ start)) =
      xs.takeWhile fun x => decide (position x ≤ block) := by
  induction xs with
  | nil => rfl
  | cons x xs ih =>
    have ih := ih fun y hy => h y (List.mem_cons_of_mem x hy)
    by_cases hx : position x ≤ start
    · rw [List.takeWhile_cons_of_pos (by simpa using hx),
        List.takeWhile_cons_of_pos (by simpa using hx.trans hle), ih]
    · rw [List.takeWhile_cons_of_neg (by simpa using hx), List.takeWhile_cons_of_neg]
      have := h x List.mem_cons_self
      simp only [decide_eq_true_eq]
      omega

theorem mem_snapshotBoundaries {ranges : SnapshotRanges} {point : ℕ} :
    point ∈ snapshotBoundaries ranges ↔
      ∃ range ∈ ranges, point = range.physicalBlock ∨ point = range.extentEnd := by
  unfold snapshotBoundaries
  simp

theorem rangeAt_eq_of_boundaries {ranges : SnapshotRanges} {start block : ℕ} (hle : start ≤ block)
    (h : ∀ point ∈ snapshotBoundaries ranges, point ≤ block → point ≤ start) :
    snapshotRangeAt ranges start = snapshotRangeAt ranges block := by
  unfold snapshotRangeAt
  rw [takeWhile_le_congr hle fun range hrange =>
    h _ (mem_snapshotBoundaries.mpr ⟨range, hrange, .inl rfl⟩)]
  cases hlast : (ranges.takeWhile fun range => decide (range.physicalBlock ≤ block)).getLast? with
  | none => rfl
  | some range =>
    have hmem := List.mem_of_getLast? hlast
    have hrange := (List.takeWhile_sublist _).subset hmem
    have hblock : range.physicalBlock ≤ block := by simpa using List.mem_takeWhile_imp hmem
    have hstart := h _ (mem_snapshotBoundaries.mpr ⟨range, hrange, .inl rfl⟩) hblock
    have hend := h _ (mem_snapshotBoundaries.mpr ⟨range, hrange, .inr rfl⟩)
    unfold ApplePhysicalExtentRecord.extentEnd at hend
    rw [Option.filter_some, Option.filter_some]
    refine if_congr ?_ rfl rfl
    simp only [decide_eq_true_eq]
    omega

theorem historyAt_eq_of_boundaries {history : List (ℕ × ℕ)} {start block : ℕ} (hle : start ≤ block)
    (h : ∀ range ∈ history, (range.1 ≤ block → range.1 ≤ start) ∧
      (range.2 ≤ block → range.2 ≤ start)) :
    snapshotHistoryAt history start = snapshotHistoryAt history block := by
  unfold snapshotHistoryAt
  rw [takeWhile_le_congr hle fun range hrange => (h range hrange).1]
  cases hlast : (history.takeWhile fun range => decide (range.1 ≤ block)).getLast? with
  | none => rfl
  | some range =>
    have hrange := (List.takeWhile_sublist _).subset (List.mem_of_getLast? hlast)
    have hend := (h range hrange).2
    rw [Option.any_some, Option.any_some, decide_eq_decide]
    omega

theorem pairwise_snapshotPoints (ranges others : SnapshotRanges) (history : List (ℕ × ℕ)) :
    (snapshotPoints ranges others history).Pairwise fun left right => left < right := by
  unfold snapshotPoints
  refine List.Pairwise.imp (R := fun left right => left ≤ right ∧ left ≠ right)
    (fun {_ _} h => lt_of_le_of_ne h.1 h.2) (List.Pairwise.and ?_ (List.nodup_dedup _))
  refine List.Pairwise.sublist (List.dedup_sublist _) ?_
  refine List.Pairwise.imp (fun {_ _} h => of_decide_eq_true h) (pairwise_sortBy ?_ ?_ _)
  · intro a b c hab hbc
    simp only [decide_eq_true_eq] at *
    omega
  · intro a b
    simp only [Bool.or_eq_true, decide_eq_true_eq]
    omega

theorem mem_snapshotPoints {ranges others : SnapshotRanges} {history : List (ℕ × ℕ)} {point : ℕ} :
    point ∈ snapshotPoints ranges others history ↔
      point ∈ snapshotBoundaries ranges ∨ point ∈ snapshotBoundaries others ∨
        ∃ range ∈ history, point = range.1 ∨ point = range.2 := by
  unfold snapshotPoints
  rw [List.mem_dedup, (sortBy_perm _ _).mem_iff, List.mem_append, List.mem_append, or_assoc]
  simp

theorem snapshotRangeAt_eq_none_of_outside {ranges : SnapshotRanges} {block : ℕ}
    (h : (∀ point ∈ snapshotBoundaries ranges, block < point) ∨
      ∀ point ∈ snapshotBoundaries ranges, point ≤ block) :
    snapshotRangeAt ranges block = none := by
  by_contra hsome
  obtain ⟨range, hrange⟩ := Option.ne_none_iff_exists'.mp hsome
  obtain ⟨hmem, hcovers⟩ := mem_of_snapshotRangeAt hrange
  rcases h with h | h
  · exact absurd hcovers.1 (not_le.mpr (h _ (mem_snapshotBoundaries.mpr ⟨range, hmem, .inl rfl⟩)))
  · exact absurd hcovers.2 (not_lt.mpr (h _ (mem_snapshotBoundaries.mpr ⟨range, hmem, .inr rfl⟩)))

theorem segmentShaped_segmentOf
    (value : Option ApplePhysicalExtentRecord → Option ApplePhysicalExtentRecord →
      Bool → Except String (Option ApplePhysicalExtentRecord))
    (ranges others : SnapshotRanges) (history : List (ℕ × ℕ)) :
    SegmentShaped (segmentOf value ranges others history) := by
  intro start finish range hlt h
  obtain ⟨result, -, hresult⟩ := map_eq_ok_iff.mp h
  obtain ⟨found, -, rfl⟩ := Option.map_eq_some_iff.mp hresult
  refine ⟨rfl, ?_⟩
  show start + (finish - start) = finish
  omega

/-- **The sweep decides every block by what its inputs say at that block.** -/
theorem sweep_segmentOf_ok
    {value : Option ApplePhysicalExtentRecord → Option ApplePhysicalExtentRecord →
      Bool → Except String (Option ApplePhysicalExtentRecord)}
    (hvalue : ∀ held, value none none held = .ok none) {ranges others : SnapshotRanges}
    {history : List (ℕ × ℕ)} {out : SnapshotRanges}
    (h : sweepSegments (segmentOf value ranges others history)
      (snapshotPoints ranges others history) [] = .ok out) :
    BlockSorted out ∧ ∀ block, ∃ result,
      value (snapshotRangeAt ranges block) (snapshotRangeAt others block)
        (snapshotHistoryAt history block) = .ok result ∧
      contentAt out block = result.map rangeData := by
  obtain ⟨hsorted, hblocks⟩ := sweepSegments_ok (segmentShaped_segmentOf value ranges others history)
    (pairwise_snapshotPoints ranges others history) List.Pairwise.nil (by simp) h
  refine ⟨hsorted, fun block => ?_⟩
  rcases hblocks block with ⟨start, finish, result, -, hle, hlast, hsegment, hcontent⟩ |
    ⟨houtside, hcontent⟩
  · obtain ⟨found, hfound, rfl⟩ := map_eq_ok_iff.mp hsegment
    refine ⟨found, ?_, ?_⟩
    · rw [← rangeAt_eq_of_boundaries hle fun point hpoint =>
          hlast point (mem_snapshotPoints.mpr (.inl hpoint)),
        ← rangeAt_eq_of_boundaries hle fun point hpoint =>
          hlast point (mem_snapshotPoints.mpr (.inr (.inl hpoint))),
        ← historyAt_eq_of_boundaries hle fun range hrange =>
          ⟨hlast _ (mem_snapshotPoints.mpr (.inr (.inr ⟨range, hrange, .inl rfl⟩))),
            hlast _ (mem_snapshotPoints.mpr (.inr (.inr ⟨range, hrange, .inr rfl⟩)))⟩]
      exact hfound
    · rw [hcontent, Option.map_map]
      rfl
  · refine ⟨none, ?_, hcontent⟩
    rw [snapshotRangeAt_eq_none_of_outside (houtside.imp
        (fun h point hpoint => h point (mem_snapshotPoints.mpr (.inl hpoint)))
        fun h point hpoint => h point (mem_snapshotPoints.mpr (.inl hpoint))),
      snapshotRangeAt_eq_none_of_outside (houtside.imp
        (fun h point hpoint => h point (mem_snapshotPoints.mpr (.inr (.inl hpoint))))
        fun h point hpoint => h point (mem_snapshotPoints.mpr (.inr (.inl hpoint))))]
    exact hvalue _

/-! ## Records of ranges -/

theorem encodeRanges_ok {ranges : SnapshotRanges} {records : List BtreeRecord}
    (h : encodeRanges ranges = .ok records) :
    (∀ range ∈ ranges, range.Valid) ∧
      ((∀ range ∈ ranges, IsInt32 range.referenceCount) → PhysicalExtentsDecode records ranges) := by
  induction ranges generalizing records with
  | nil =>
    obtain rfl := Except.ok.inj h
    exact ⟨by simp, fun _ => List.Forall₂.nil⟩
  | cons range rest ih =>
    rw [encodeRanges] at h
    split at h
    · cases h
    · rename_i record hrecord
      split at h
      · cases h
      · rename_i others hothers
        obtain rfl := Except.ok.inj h
        obtain ⟨hvalid, hdecode⟩ := ih hothers
        refine ⟨List.forall_mem_cons.mpr
          ⟨encodeApplePhysicalExtentRecord_eq_ok_iff.mp ⟨record, hrecord⟩, hvalid⟩, fun hint => ?_⟩
        obtain ⟨hfirst, hrest⟩ := List.forall_mem_cons.mp hint
        exact List.Forall₂.cons (decode_encodeApplePhysicalExtentRecord hrecord hfirst)
          (hdecode hrest)

theorem PhysicalExtentsDecode.unique {records : List BtreeRecord} {extents others : SnapshotRanges}
    (h : PhysicalExtentsDecode records extents) (h' : PhysicalExtentsDecode records others) :
    extents = others := by
  induction h generalizing others with
  | nil =>
    cases h'
    rfl
  | cons hextent _ ih =>
    cases h' with
    | cons hother hrest =>
      rw [Except.ok.inj (hextent.symm.trans hother), ih hrest]

theorem decodeLayer_ok {containerBlocks : ℕ} {layer : List BtreeRecord} {ranges : SnapshotRanges}
    (h : decodeLayer containerBlocks layer = .ok ranges) : PhysicalExtentsDecode layer ranges := by
  induction layer generalizing ranges with
  | nil =>
    obtain rfl := Except.ok.inj h
    exact List.Forall₂.nil
  | cons record rest ih =>
    rw [decodeLayer] at h
    split at h
    · cases h
    · rename_i range hrange
      split at h
      · cases h
      · split at h
        · cases h
        · rename_i others hothers
          obtain rfl := Except.ok.inj h
          exact List.Forall₂.cons hrange (ih hothers)

theorem sortByBlock_of_blockSorted {ranges : SnapshotRanges} (h : BlockSorted ranges) :
    sortByBlock ranges = ranges := by
  refine sortBy_of_pairwise (h.imp fun {left right} hle => ?_)
  unfold ApplePhysicalExtentRecord.extentEnd at hle
  simp only [decide_eq_true_eq]
  omega

/-- A list whose content has bounded counts is read back from its records. -/
theorem decode_of_contentAt {ranges : SnapshotRanges} {records : List BtreeRecord}
    (hsorted : BlockSorted ranges) (hencode : encodeRanges ranges = .ok records)
    (hcontent : ∀ block data, contentAt ranges block = some data → IsInt32 data.2.2) :
    PhysicalExtentsDecode records ranges := by
  obtain ⟨hvalid, hdecode⟩ := encodeRanges_ok hencode
  refine hdecode fun range hrange => ?_
  have hpos := (hvalid range hrange).count_pos
  have hcovers : range.Covers range.physicalBlock := by
    rw [ApplePhysicalExtentRecord.covers_iff]
    omega
  exact hcontent range.physicalBlock (rangeData range)
    ((contentAt_eq_some_iff hsorted).mpr ⟨range, hrange, hcovers, rfl⟩)

/-- What `SnapshotRangesValid` checks. -/
theorem snapshotRangesValidFrom_ok {containerBlocks : ℕ} {ranges : SnapshotRanges} {finish : ℕ}
    (h : snapshotRangesValidFrom containerBlocks true ranges finish = .ok ()) :
    BlockSorted ranges ∧ (∀ range ∈ ranges, finish ≤ range.physicalBlock) ∧
      ∀ range ∈ ranges, range.Valid ∧ range.kind = physicalExtentKindNew := by
  induction ranges generalizing finish with
  | nil => exact ⟨List.Pairwise.nil, by simp, by simp⟩
  | cons range rest ih =>
    rw [snapshotRangesValidFrom] at h
    split at h
    · cases h
    · rename_i record hrecord
      split at h
      · cases h
      · rename_i hguard
        simp only [not_or, not_not, true_and, not_lt] at hguard
        obtain ⟨hkind, -, -, hfinish⟩ := hguard
        obtain ⟨hsorted, hbound, hvalid⟩ := ih h
        have hend : range.physicalBlock ≤ range.extentEnd := Nat.le_add_right _ _
        refine ⟨List.pairwise_cons.mpr ⟨hbound, hsorted⟩, ?_, ?_⟩
        · exact List.forall_mem_cons.mpr
            ⟨hfinish, fun other hother => (hfinish.trans hend).trans (hbound other hother)⟩
        · exact List.forall_mem_cons.mpr
            ⟨⟨encodeApplePhysicalExtentRecord_eq_ok_iff.mp ⟨record, hrecord⟩, hkind⟩, hvalid⟩

/-! ## One block of a planned layer -/

theorem planValue_none (held : Bool) : planValue none none held = .ok none := rfl

theorem resolveValue_none (held : Bool) : resolveValue none none held = .ok none := rfl

/-- A range that holds references. -/
def Referenced (range : ApplePhysicalExtentRecord) : Prop :=
  0 < range.referenceCount ∧ IsInt32 range.referenceCount

/-- The counts of a planned change fit. -/
theorem planValue_int32 {a b result : Option ApplePhysicalExtentRecord} {held : Bool}
    (ha : ∀ range ∈ a, Referenced range) (hb : ∀ range ∈ b, Referenced range)
    (h : planValue a b held = .ok result) :
    ∀ range ∈ result, IsInt32 range.referenceCount := by
  unfold planValue at h
  split at h
  · obtain rfl := Except.ok.inj h
    simp
  · rename_i range hrange
    split at h
    · obtain rfl := Except.ok.inj h
      simp
    · split at h
      · obtain rfl := Except.ok.inj h
        simp only [Option.mem_some_iff, forall_eq']
        unfold Referenced IsInt32 at *
        cases a <;> cases b <;> simp_all <;> omega
      · split at h
        · cases h
        · rename_i hprior
          obtain rfl := Except.ok.inj h
          simp only [Option.mem_some_iff, forall_eq']
          cases a with
          | some range => simp at hprior
          | none =>
            rw [Option.or_none] at hrange
            exact (hb range hrange).2

theorem resolveValue_int32 {before change result : Option ApplePhysicalExtentRecord} {held : Bool}
    (h : resolveValue before change held = .ok result) :
    ∀ range ∈ result, IsInt32 range.referenceCount := by
  unfold resolveValue at h
  split at h
  · cases h
  · split at h
    · obtain rfl := Except.ok.inj h
      simp
    · split at h
      · cases h
      · split at h
        · cases h
        · rename_i hrange
          split at h
          · obtain rfl := Except.ok.inj h
            simp
          · obtain rfl := Except.ok.inj h
            simp only [Option.mem_some_iff, forall_eq']
            unfold IsInt32
            omega

/-- What resolving a block whose count comes out positive gives. -/
theorem resolveValue_some {before change resolved : Option ApplePhysicalExtentRecord}
    {range : ApplePhysicalExtentRecord} {held : Bool} {count : ℤ}
    (hrange : change.or before = some range) (hcount : resolvedCount before change held = .ok count)
    (h : resolveValue before change held = .ok resolved) :
    (resolved.map fun range => (range.owningObjectId, range.referenceCount)) =
      if count = 0 then none else some (range.owningObjectId, count) := by
  unfold resolveValue at h
  rw [hrange] at h
  simp only [hcount] at h
  split at h
  · cases h
  · split at h
    · cases h
    · split at h
      · rename_i hzero
        obtain rfl := Except.ok.inj h
        rw [if_pos hzero, Option.map_none]
      · rename_i hnonzero
        obtain rfl := Except.ok.inj h
        rw [if_neg hnonzero, Option.map_some]

theorem resolvedCount_update {before : Option ApplePhysicalExtentRecord}
    {change : ApplePhysicalExtentRecord} (hkind : change.kind = physicalExtentKindUpdate) :
    resolvedCount before (some change) true =
      .ok ((before.map (·.referenceCount)).getD 0 + change.referenceCount) := by
  unfold resolvedCount
  simp only [hkind]
  rfl

/-- **At one block, resolving a planned change gives what the plan aims at.** -/
theorem resolveValue_planValue {a b change planned resolved : Option ApplePhysicalExtentRecord}
    {held : Bool} (ha : ∀ range ∈ a, Referenced range) (hb : ∀ range ∈ b, Referenced range)
    (hplan : planValue a b held = .ok planned)
    (hchange : change.map rangeData = planned.map rangeData)
    (hresolve : resolveValue a change held = .ok resolved) :
    (resolved.map fun range => (range.owningObjectId, range.referenceCount)) =
      b.map fun range => (range.owningObjectId, range.referenceCount) := by
  unfold planValue at hplan
  split at hplan
  · -- the block has no references on either side
    rename_i hnone
    obtain ⟨rfl, rfl⟩ := Option.or_eq_none_iff.mp hnone
    obtain rfl := Except.ok.inj hplan
    obtain rfl := Option.map_eq_none_iff.mp hchange
    rw [resolveValue_none] at hresolve
    rw [← Except.ok.inj hresolve]
  · rename_i range hrange
    split at hplan
    · -- nothing changes
      rename_i hsame
      obtain rfl := Except.ok.inj hplan
      obtain rfl := Option.map_eq_none_iff.mp hchange
      simp only [Bool.and_eq_true, beq_iff_eq] at hsame
      obtain ⟨⟨⟨hasome, hbsome⟩, hreferences⟩, howners⟩ := hsame
      obtain ⟨before, rfl⟩ := Option.isSome_iff_exists.mp hasome
      obtain ⟨after, rfl⟩ := Option.isSome_iff_exists.mp hbsome
      have hpositive := (ha before rfl).1
      rw [resolveValue_some (Option.none_or) rfl hresolve, Option.map_some, Option.getD_some,
        if_neg hpositive.ne', Option.map_some]
      simp only [Option.map_some, Option.some.injEq] at hreferences howners
      rw [howners, hreferences]
    · split at hplan
      · -- an update of a block the history holds
        rename_i hheld
        obtain rfl := Except.ok.inj hplan
        obtain ⟨update, rfl, hdata⟩ := Option.map_eq_some_iff.mp hchange
        simp only [rangeData, Prod.mk.injEq] at hdata
        obtain ⟨hkind, howner, hreferences⟩ := hdata
        rw [hheld] at hresolve
        rw [resolveValue_some Option.some_or (resolvedCount_update hkind) hresolve, hreferences,
          add_sub_cancel, howner]
        cases b with
        | none => rfl
        | some after =>
          obtain rfl : after = range := by simpa using hrange
          have hpositive := (hb after rfl).1
          simp only [Option.map_some, Option.getD_some, if_neg hpositive.ne']
      · split at hplan
        · cases hplan
        · -- a new block
          rename_i hheld hprior
          obtain rfl := Except.ok.inj hplan
          obtain ⟨fresh, rfl, hdata⟩ := Option.map_eq_some_iff.mp hchange
          simp only [rangeData, Prod.mk.injEq] at hdata
          obtain ⟨hkind, howner, hreferences⟩ := hdata
          obtain rfl : a = none := by simpa using hprior
          obtain rfl : b = some range := by simpa using hrange
          have hheld : held = false := by simpa using hheld
          have hpositive := (hb range rfl).1
          have hcount : resolvedCount none (some fresh) held = .ok fresh.referenceCount := by
            unfold resolvedCount
            simp [hkind, hheld]
          rw [resolveValue_some Option.some_or hcount hresolve, hreferences, howner,
            if_neg hpositive.ne', Option.map_some]

/-! ## Whole layers -/

/-- What resolving a layer goes through. -/
theorem resolveSnapshotExtentLayerWithAdmission_ok {prior historical out : SnapshotRanges}
    {filesystem layer : List BtreeRecord} {blockSize containerBlocks : ℕ} {observational : Bool}
    (h : resolveSnapshotExtentLayerWithAdmission prior historical filesystem layer blockSize
      containerBlocks observational = .ok out) :
    ∃ decoded resolved complete, PhysicalExtentsDecode layer decoded ∧
      sweepSegments (segmentOf resolveValue prior (sortByBlock decoded)
          (snapshotHistoryUnion historical))
        (snapshotPoints prior (sortByBlock decoded) (snapshotHistoryUnion historical)) [] =
        .ok resolved ∧
      encodeRanges resolved = .ok complete ∧
      validateApplePayloadExtentGraphImpl filesystem complete blockSize containerBlocks
        observational = .ok out := by
  unfold resolveSnapshotExtentLayerWithAdmission at h
  split at h
  · cases h
  · cases h
  · split at h
    · cases h
    · rename_i decoded hdecoded
      simp only at h
      split at h
      · cases h
      · split at h
        · cases h
        · rename_i resolved hresolved
          split at h
          · cases h
          · rename_i complete hcomplete
            exact ⟨decoded, resolved, complete, decodeLayer_ok hdecoded, hresolved, hcomplete, h⟩

/-- A resolved layer is what the sweep built: sorted, and with counts that fit. -/
theorem resolved_eq {filesystem complete : List BtreeRecord} {blockSize containerBlocks : ℕ}
    {observational : Bool} {resolved out : SnapshotRanges}
    (hsorted : BlockSorted resolved) (hencode : encodeRanges resolved = .ok complete)
    (hcontent : ∀ block data, contentAt resolved block = some data → IsInt32 data.2.2)
    (h : validateApplePayloadExtentGraphImpl filesystem complete blockSize containerBlocks
      observational = .ok out) : out = resolved := by
  obtain ⟨-, -, uses, extents, -, hmatches, rfl⟩ := validateApplePayloadExtentGraphImpl_eq_ok_iff.mp h
  rw [hmatches.physicalExtents.unique (decode_of_contentAt hsorted hencode hcontent),
    sortByBlock_of_blockSorted hsorted]

/-- The counts of a validated graph are positive and fit. -/
theorem referenced_of_validate {filesystem extentrefs : List BtreeRecord}
    {blockSize containerBlocks : ℕ} {observational : Bool} {out : SnapshotRanges}
    (h : validateApplePayloadExtentGraphImpl filesystem extentrefs blockSize containerBlocks
      observational = .ok out) :
    BlockSorted out ∧ ∀ range ∈ out, Referenced range := by
  obtain ⟨-, -, uses, extents, hkind, hmatches, rfl⟩ :=
    validateApplePayloadExtentGraphImpl_eq_ok_iff.mp h
  have hvalid := hmatches.physicalExtents.valid
  refine ⟨(blockSorted_sortByBlock_iff fun range hrange => (hvalid range hrange).1.count_pos).mpr
    hmatches.disjoint, fun range hrange => ?_⟩
  have hrange := (sortByBlock_perm extents).mem_iff.mp hrange
  exact ⟨(hvalid range hrange).1.referenced (hkind range hrange), (hvalid range hrange).2⟩

/-- **A planned layer leads from its prior ranges to the complete references.** -/
theorem resolve_plan {prior historical : SnapshotRanges} {filesystem complete layer : List BtreeRecord}
    {blockSize containerBlocks : ℕ} (hprior : ∀ range ∈ prior, IsInt32 range.referenceCount)
    (h : planAppleSnapshotExtentLayer prior historical filesystem complete blockSize
      containerBlocks = .ok layer) :
    ∃ resolved extents,
      resolveAppleSnapshotExtentLayer prior historical filesystem layer blockSize
        containerBlocks = .ok resolved ∧
      PhysicalExtentsDecode complete extents ∧
      ∀ block, ownerAndReferences resolved block = ownerAndReferences extents block := by
  unfold planAppleSnapshotExtentLayer at h
  split at h
  · cases h
  · cases h
  · rename_i hvalid _
    obtain ⟨-, -, hpriorValid⟩ := snapshotRangesValidFrom_ok hvalid
    split at h
    · cases h
    · rename_i after hafter
      simp only at h
      split at h
      · cases h
      · rename_i changes hchanges
        split at h
        · cases h
        · rename_i records hrecords
          split at h
          · cases h
          · rename_i verified hverified
            obtain rfl := Except.ok.inj h
            obtain ⟨hafterSorted, hafterReferenced⟩ := referenced_of_validate hafter
            -- the two inputs hold references wherever they are read
            have hpriorAt : ∀ block, ∀ range ∈ snapshotRangeAt prior block, Referenced range := by
              intro block range hrange
              obtain ⟨hmem, -⟩ := mem_of_snapshotRangeAt hrange
              obtain ⟨hrangeValid, hkind⟩ := hpriorValid range hmem
              exact ⟨hrangeValid.referenced hkind, hprior range hmem⟩
            have hafterAt : ∀ block, ∀ range ∈ snapshotRangeAt after block, Referenced range :=
              fun block range hrange => hafterReferenced range (mem_of_snapshotRangeAt hrange).1
            obtain ⟨hchangesSorted, hchangesAt⟩ := sweep_segmentOf_ok planValue_none hchanges
            have hchangesInt : ∀ block data, contentAt changes block = some data →
                IsInt32 data.2.2 := by
              intro block data hdata
              obtain ⟨result, hresult, hcontent⟩ := hchangesAt block
              rw [hcontent] at hdata
              obtain ⟨range, rfl, rfl⟩ := Option.map_eq_some_iff.mp hdata
              exact planValue_int32 (hpriorAt block) (hafterAt block) hresult range rfl
            -- the layer is read back as the planned changes
            obtain ⟨decoded, resolved, encoded, hdecoded, hresolved, hencoded, hvalidate⟩ :=
              resolveSnapshotExtentLayerWithAdmission_ok hverified
            obtain rfl : decoded = changes :=
              hdecoded.unique (decode_of_contentAt hchangesSorted hrecords hchangesInt)
            rw [sortByBlock_of_blockSorted hchangesSorted] at hresolved
            obtain ⟨hresolvedSorted, hresolvedAt⟩ := sweep_segmentOf_ok resolveValue_none hresolved
            obtain rfl : verified = resolved :=
              resolved_eq hresolvedSorted hencoded (fun block data hdata => by
                obtain ⟨result, hresult, hcontent⟩ := hresolvedAt block
                rw [hcontent] at hdata
                obtain ⟨range, rfl, rfl⟩ := Option.map_eq_some_iff.mp hdata
                exact resolveValue_int32 hresult range rfl) hvalidate
            unfold validateApplePayloadExtentGraph at hafter
            obtain ⟨-, -, uses, extents, -, hmatches, rfl⟩ :=
              validateApplePayloadExtentGraphImpl_eq_ok_iff.mp hafter
            refine ⟨verified, extents, hverified, hmatches.physicalExtents, fun block => ?_⟩
            obtain ⟨planned, hplanned, hplannedContent⟩ := hchangesAt block
            obtain ⟨result, hresult, hresultContent⟩ := hresolvedAt block
            have hblock := resolveValue_planValue (hpriorAt block) (hafterAt block) hplanned
              hplannedContent hresult
            rw [← ownerAndReferences_perm (sortByBlock_perm extents) hafterSorted.disjoint,
              ownerAndReferences_eq hafterSorted, ownerAndReferences_eq hresolvedSorted, ← hblock]
            -- the data of a range determine its owner and its count
            have hproject := congrArg
              (Option.map fun data : ℕ × ℕ × ℤ => (data.2.1, data.2.2)) hresultContent
            simpa [contentAt, rangeData, Option.map_map, Function.comp_def] using hproject

theorem resolveSnapshotChain_concat {blockSize containerBlocks : ℕ} {chain : List SnapshotLayer}
    {layer : SnapshotLayer} {out : SnapshotRanges} :
    resolveSnapshotChain blockSize containerBlocks (chain ++ [layer]) = .ok out ↔
      ∃ prior, resolveSnapshotChain blockSize containerBlocks chain = .ok prior ∧
        resolveAppleSnapshotExtentLayer prior layer.historical layer.filesystem layer.records
          blockSize containerBlocks = .ok out := by
  unfold resolveSnapshotChain
  rw [List.foldlM_append]
  cases List.foldlM (fun prior (layer : SnapshotLayer) => resolveAppleSnapshotExtentLayer prior
      layer.historical layer.filesystem layer.records blockSize containerBlocks) [] chain with
  | error reason => simp [bind, Except.bind]
  | ok prior =>
    simp only [bind, Except.bind, List.foldlM_cons, List.foldlM_nil, Except.ok.injEq,
      exists_eq_left']
    cases resolveAppleSnapshotExtentLayer prior layer.historical layer.filesystem layer.records
      blockSize containerBlocks <;> simp [pure, Except.pure]

/-- A chain resolves to ranges whose counts fit. -/
theorem resolveSnapshotChain_int32 {blockSize containerBlocks : ℕ} {chain : List SnapshotLayer}
    {resolved : SnapshotRanges} (h : resolveSnapshotChain blockSize containerBlocks chain =
      .ok resolved) : ∀ range ∈ resolved, IsInt32 range.referenceCount := by
  induction chain using List.reverseRecOn with
  | nil =>
    obtain rfl : [] = resolved := Except.ok.inj h
    simp
  | append_singleton chain layer _ =>
    -- the last layer was validated before it was returned
    obtain ⟨prior, -, hlayer⟩ := resolveSnapshotChain_concat.mp h
    obtain ⟨decoded, swept, complete, -, -, -, hvalidate⟩ :=
      resolveSnapshotExtentLayerWithAdmission_ok hlayer
    exact fun range hrange => ((referenced_of_validate hvalidate).2 range hrange).2

/-- **A chain extended by a planned layer resolves to the complete references.** -/
theorem resolveSnapshotChain_append_plan {blockSize containerBlocks : ℕ}
    {chain : List SnapshotLayer} {prior historical : SnapshotRanges}
    {filesystem complete layer : List BtreeRecord}
    (hchain : resolveSnapshotChain blockSize containerBlocks chain = .ok prior)
    (hplan : planAppleSnapshotExtentLayer prior historical filesystem complete blockSize
      containerBlocks = .ok layer) :
    ∃ resolved extents,
      resolveSnapshotChain blockSize containerBlocks (chain ++ [⟨historical, filesystem, layer⟩]) =
        .ok resolved ∧
      PhysicalExtentsDecode complete extents ∧
      ∀ block, ownerAndReferences resolved block = ownerAndReferences extents block := by
  obtain ⟨resolved, extents, hresolve, hdecode, hblocks⟩ :=
    resolve_plan (resolveSnapshotChain_int32 hchain) hplan
  exact ⟨resolved, extents, resolveSnapshotChain_concat.mpr ⟨prior, hchain, hresolve⟩, hdecode,
    hblocks⟩

/-- After a snapshot in which stream 16 holds blocks 5 and 6, stream 17 shares them and
stream 18 takes block 9: the layer has an update and a new range. -/
theorem resolveSnapshotChain_append_plan_sample :
    ∃ resolved extents,
      resolveSnapshotChain 4096 100
          ([⟨[], [sampleMapping 16 5 2], [sampleReference 5 2 16 1]⟩] ++
            [⟨[⟨5, 2, 1, 16, 1⟩],
              [sampleMapping 16 5 2, sampleMapping 17 5 2, sampleMapping 18 9 1],
              [⟨leBytes 8 (2 * 2 ^ 60 + 5),
                  leBytes 8 (2 * 2 ^ 60 + 2) ++ leBytes 8 16 ++ leBytes 4 1⟩,
                sampleReference 9 1 18 1]⟩]) = .ok resolved ∧
      PhysicalExtentsDecode [sampleReference 5 2 16 2, sampleReference 9 1 18 1] extents ∧
      ∀ block, ownerAndReferences resolved block = ownerAndReferences extents block := by
  have hchain : resolveSnapshotChain 4096 100
      [⟨[], [sampleMapping 16 5 2], [sampleReference 5 2 16 1]⟩] = .ok [⟨5, 2, 1, 16, 1⟩] := by
    decide +kernel
  have hplan : planAppleSnapshotExtentLayer [⟨5, 2, 1, 16, 1⟩] [⟨5, 2, 1, 16, 1⟩]
      [sampleMapping 16 5 2, sampleMapping 17 5 2, sampleMapping 18 9 1]
      [sampleReference 5 2 16 2, sampleReference 9 1 18 1] 4096 100 =
        .ok [⟨leBytes 8 (2 * 2 ^ 60 + 5),
            leBytes 8 (2 * 2 ^ 60 + 2) ++ leBytes 8 16 ++ leBytes 4 1⟩,
          sampleReference 9 1 18 1] := by
    decide +kernel
  exact resolveSnapshotChain_append_plan hchain hplan

end Extents
end ApfsAccess
