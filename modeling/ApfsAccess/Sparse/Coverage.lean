import ApfsAccess.Format.Object
import ApfsAccess.Library.Loops
import ApfsAccess.Library.Sorting
import ApfsAccess.Library.Tiling
import ApfsAccess.Records.RoundTrip

/-!
# Explicit holes of a sparse file

`CompleteNativeSparseExtentCoverage` makes the holes of a file explicit.  It sorts the ranges that
the extents and the pending writes take, walks over them with a cursor, and adds a record for
everything between them, as many as the length field of a record needs.

* `fillHoles_spec` : the holes up to an offset tile what is left before it.
* `coverageLoop_spec` : the ranges and the holes between them tile the file.
* `completeNativeSparseExtentCoverage_spec` : the whole function, with the records on failure.
-/

namespace ApfsAccess
namespace Sparse

open Extents Format Intervals Loops Records Sorting

/-- `NativeSparseMaxRecords`. -/
def nativeSparseMaxRecords : ℕ := 4096

/-- `NativeSparseAllocatedRange`. -/
structure AllocatedRange where
  offset : ℕ
  length : ℕ
  deriving DecidableEq, Repr

/-- `Aligned`. -/
def aligned (size : ℕ) : ℕ := (size + 4095) / 4096 * 4096

/-- The longest hole of one record. -/
def maximumHoleBytes : ℕ := 0x00fffffffffff000

/-- A hole, as the arguments of its encoder. -/
def holeExtent (object offset length : ℕ) : AppleFileExtentRecord :=
  ⟨object, offset, length, 0, 0, 4096⟩

/-- `fill`: the holes up to an offset, behind those already there. -/
def fillHoles (object existing finish cursor : ℕ) (holes : List BtreeRecord) :
    Except String (List BtreeRecord) :=
  if cursor < finish then
    if nativeSparseMaxRecords ≤ existing + holes.length then .error "SparseMetadataQuota"
    else
      let length := min (finish - cursor) maximumHoleBytes
      match encodeAppleFileExtentRecord (holeExtent object cursor length) with
      | .error reason => .error reason
      | .ok record => fillHoles object existing finish (cursor + length) (holes ++ [record])
  else .ok holes
termination_by finish - cursor
decreasing_by
  have : 0 < maximumHoleBytes := by decide
  omega

/-- The loop over the sorted ranges, and the hole behind the last of them. -/
def coverageLoop (object existing finish : ℕ) :
    List AllocatedRange → ℕ → List BtreeRecord → Except String (List BtreeRecord)
  | [], cursor, holes => fillHoles object existing finish cursor holes
  | range :: rest, cursor, holes => do
    rejectIf (range.offset < cursor) "SparseLogicalCoverageOverlap"
    let holes ← fillHoles object existing range.offset cursor holes
    coverageLoop object existing finish rest (range.offset + range.length) holes

/-- A range is empty, is not made of whole blocks or leaves the file. -/
def AllocatedRange.IsInvalid (range : AllocatedRange) (finish : ℕ) : Prop :=
  range.length = 0 ∨ range.offset % 4096 ≠ 0 ∨ range.length % 4096 ≠ 0 ∨ finish < range.offset ∨
    finish - range.offset < range.length

instance (range : AllocatedRange) (finish : ℕ) : Decidable (range.IsInvalid finish) := by
  unfold AllocatedRange.IsInvalid
  infer_instance

/-- The range of a record. -/
def recordRange (object finish : ℕ) (record : BtreeRecord) : Except String AllocatedRange :=
  match decodeAppleFileExtentRecord record 4096 with
  | .error _ => .error "SparseLogicalCoverageInvalid"
  | .ok extent => do
    let range : AllocatedRange := ⟨extent.logicalAddress, extent.lengthBytes⟩
    rejectIf (extent.objectId ≠ object ∨ extent.cryptoId ≠ 0 ∨ range.IsInvalid finish)
      "SparseLogicalCoverageInvalid"
    .ok range

/-- A pending range. -/
def pendingRange (finish : ℕ) (range : AllocatedRange) : Except String AllocatedRange := do
  rejectIf (range.IsInvalid finish) "SparseLogicalCoverageInvalid"
  .ok range

/-- The holes of `CompleteNativeSparseExtentCoverage`. -/
def coverageHoles (object size : ℕ) (records : List BtreeRecord) (pending : List AllocatedRange) :
    Except String (List BtreeRecord) := do
  rejectIf (object = 0 ∨ fsObjectIdMask < object ∨ 2 ^ 63 - 1 - 4095 < size ∨
    nativeSparseMaxRecords < records.length ∨ nativeSparseMaxRecords < pending.length)
    "SparseLogicalCoverageInvalid"
  let taken ← records.mapM (recordRange object (aligned size))
  let waiting ← pending.mapM (pendingRange (aligned size))
  let ranges := sortBy (taken ++ waiting) fun left right => decide (left.offset ≤ right.offset)
  coverageLoop object records.length (aligned size) ranges 0 []

/-- `CompleteNativeSparseExtentCoverage`: the result, and the records after it. -/
def completeNativeSparseExtentCoverage (object size : ℕ) (records : List BtreeRecord)
    (pending : List AllocatedRange) : Except String Unit × List BtreeRecord :=
  match coverageHoles object size records pending with
  | .error reason => (.error reason, records)
  | .ok holes => (.ok (), records ++ holes)

/-! ## Ranges of offsets -/

/-- The offsets of an extent. -/
def extentSpan (extent : AppleFileExtentRecord) : ℕ × ℕ :=
  (extent.logicalAddress, extent.logicalAddress + extent.lengthBytes)

/-- The offsets of a range. -/
def rangeSpan (range : AllocatedRange) : ℕ × ℕ := (range.offset, range.offset + range.length)

/-- The records are the extents. -/
def Decodes (records : List BtreeRecord) (extents : List AppleFileExtentRecord) : Prop :=
  List.Forall₂ (fun record extent => decodeAppleFileExtentRecord record 4096 = .ok extent) records
    extents

/-- An extent of the object that has no blocks. -/
structure IsHole (object : ℕ) (extent : AppleFileExtentRecord) : Prop where
  objectId : extent.objectId = object
  physicalBlock : extent.physicalBlock = 0
  cryptoId : extent.cryptoId = 0
  length_lt : extent.lengthBytes < 2 ^ 56

/-- The records are holes of the object. -/
structure Holes (object : ℕ) (records : List BtreeRecord) (extents : List AppleFileExtentRecord) :
    Prop where
  decodes : Decodes records extents
  isHole : ∀ extent ∈ extents, IsHole object extent

/-- What is checked of the arguments before any range is looked at. -/
structure Admitted (object finish : ℕ) : Prop where
  object_pos : 0 < object
  object_le : object ≤ fsObjectIdMask
  finish_lt : finish < 2 ^ 63

section Walk

variable {object existing finish cursor : ℕ} {holes out more : List BtreeRecord}
  {extents others : List AppleFileExtentRecord}

theorem Holes.nil (object : ℕ) : Holes object [] [] :=
  ⟨List.Forall₂.nil, List.forall_mem_nil _⟩

theorem Holes.append (h : Holes object out extents) (hmore : Holes object more others) :
    Holes object (out ++ more) (extents ++ others) :=
  ⟨List.rel_append h.decodes hmore.decodes, List.forall_mem_append.mpr ⟨h.isHole, hmore.isHole⟩⟩

/-- The record of a hole is the hole. -/
theorem decode_holeExtent {length : ℕ} {record : BtreeRecord} (hadmitted : Admitted object finish)
    (hend : cursor + length ≤ finish)
    (h : encodeAppleFileExtentRecord (holeExtent object cursor length) = .ok record) :
    decodeAppleFileExtentRecord record 4096 = .ok (holeExtent object cursor length) := by
  have hobject := hadmitted.object_le
  have hfinish := hadmitted.finish_lt
  unfold fsObjectIdMask at hobject
  have hfits : FileExtentFits (holeExtent object cursor length) := by
    intro field hfield
    simp only [holeExtent, List.mem_cons, List.not_mem_nil, or_false] at hfield
    rcases hfield with rfl | rfl | rfl | rfl | rfl | rfl <;> dsimp only <;> omega
  refine (decode_encodeAppleFileExtentRecord hfits h).mpr ⟨?_, ?_⟩
  · show cursor + length < 2 ^ 64
    omega
  · show 0 + length / 4096 < 2 ^ 64
    omega

/-- **The holes up to an offset** tile what is left before it. -/
theorem fillHoles_spec (hadmitted : Admitted object finish)
    (h : fillHoles object existing finish cursor holes = .ok out) :
    ∃ more extents, out = holes ++ more ∧ Holes object more extents ∧
      Tiles (extents.map extentSpan) cursor finish := by
  induction hleft : finish - cursor using Nat.strong_induction_on generalizing cursor holes with
  | _ left ih =>
  rw [fillHoles] at h
  split_ifs at h with hmore hquota
  · have hpositive : 0 < maximumHoleBytes := by decide
    have hmaximum : maximumHoleBytes < 2 ^ 56 := by decide
    dsimp only at h
    generalize hlength : min (finish - cursor) maximumHoleBytes = length at h
    cases hencode : encodeAppleFileExtentRecord (holeExtent object cursor length) with
    | error reason =>
      rw [hencode] at h
      cases h
    | ok record =>
      rw [hencode] at h
      obtain ⟨more, extents, hout, hholes, htiles⟩ := ih _ (by omega) h rfl
      have hdecode := decode_holeExtent hadmitted (by omega) hencode
      refine ⟨record :: more, holeExtent object cursor length :: extents, ?_, ?_, ?_⟩
      · rw [hout, List.append_assoc, List.singleton_append]
      · refine ⟨List.Forall₂.cons hdecode hholes.decodes, ?_⟩
        refine List.forall_mem_cons.mpr ⟨⟨rfl, rfl, rfl, ?_⟩, hholes.isHole⟩
        show length < 2 ^ 56
        omega
      · exact (tiles_singleton cursor (cursor + length)).append htiles (Nat.le_add_right _ _)
          (by omega)
  · obtain rfl := Except.ok.inj h
    exact ⟨[], [], (List.append_nil _).symm, Holes.nil object, tiles_nil (not_lt.mp hmore)⟩

/-- **The walk**: the ranges and the holes between them tile the file. -/
theorem coverageLoop_spec {ranges : List AllocatedRange} (hadmitted : Admitted object finish)
    (hinside : ∀ range ∈ ranges, range.offset + range.length ≤ finish)
    (h : coverageLoop object existing finish ranges cursor holes = .ok out) :
    ∃ more extents, out = holes ++ more ∧ Holes object more extents ∧
      Tiles (ranges.map rangeSpan ++ extents.map extentSpan) cursor finish := by
  induction ranges generalizing cursor holes with
  | nil => exact fillHoles_spec hadmitted h
  | cons range rest ih =>
    rw [List.forall_mem_cons] at hinside
    rw [coverageLoop] at h
    obtain ⟨hbehind, h⟩ := rejectIf_bind_eq_ok_iff.mp h
    obtain ⟨filled, hfill, h⟩ := bind_eq_ok_iff.mp h
    rw [not_lt] at hbehind
    have hbefore : Admitted object range.offset :=
      ⟨hadmitted.object_pos, hadmitted.object_le,
        ((Nat.le_add_right _ _).trans hinside.1).trans_lt hadmitted.finish_lt⟩
    obtain ⟨first, firstExtents, rfl, hfirst, hfirstTiles⟩ := fillHoles_spec hbefore hfill
    obtain ⟨more, extents, rfl, hmore, htiles⟩ := ih hinside.2 h
    refine ⟨first ++ more, firstExtents ++ extents, List.append_assoc _ _ _, hfirst.append hmore, ?_⟩
    have hrange := (tiles_singleton range.offset (range.offset + range.length)).append htiles
      (Nat.le_add_right _ _) hinside.1
    have hall := hfirstTiles.append hrange hbehind ((Nat.le_add_right _ _).trans hinside.1)
    refine hall.perm ?_
    rw [List.map_append]
    -- The holes before the range move behind the ranges.
    refine (List.perm_append_comm).trans ?_
    rw [List.singleton_append, List.map_cons, List.cons_append, List.cons_append, List.append_assoc]
    exact (List.Perm.append_left _ List.perm_append_comm).cons _

/-- The holes up to an offset stay within the quota. -/
theorem fillHoles_quota (hquota : existing + holes.length ≤ nativeSparseMaxRecords)
    (h : fillHoles object existing finish cursor holes = .ok out) :
    existing + out.length ≤ nativeSparseMaxRecords := by
  induction hleft : finish - cursor using Nat.strong_induction_on generalizing cursor holes with
  | _ left ih =>
  rw [fillHoles] at h
  split_ifs at h with hmore hroom
  · have hpositive : 0 < maximumHoleBytes := by decide
    dsimp only at h
    split at h
    · cases h
    · refine ih _ (by omega) ?_ h rfl
      rw [List.length_append, List.length_singleton]
      omega
  · obtain rfl := Except.ok.inj h
    exact hquota

theorem coverageLoop_quota {ranges : List AllocatedRange}
    (hquota : existing + holes.length ≤ nativeSparseMaxRecords)
    (h : coverageLoop object existing finish ranges cursor holes = .ok out) :
    existing + out.length ≤ nativeSparseMaxRecords := by
  induction ranges generalizing cursor holes with
  | nil => exact fillHoles_quota hquota h
  | cons range rest ih =>
    rw [coverageLoop] at h
    obtain ⟨-, h⟩ := rejectIf_bind_eq_ok_iff.mp h
    obtain ⟨filled, hfill, h⟩ := bind_eq_ok_iff.mp h
    exact ih (fillHoles_quota hquota hfill) h

end Walk

/-! ## The whole function -/

section Completion

variable {object size finish : ℕ} {records : List BtreeRecord} {pending : List AllocatedRange}

/-- A range that is checked lies in the file. -/
theorem end_le_of_not_isInvalid {range : AllocatedRange} (h : ¬range.IsInvalid finish) :
    0 < range.length ∧ range.offset + range.length ≤ finish := by
  unfold AllocatedRange.IsInvalid at h
  omega

theorem recordRange_eq_ok {record : BtreeRecord} {range : AllocatedRange}
    (h : recordRange object finish record = .ok range) :
    ∃ extent, decodeAppleFileExtentRecord record 4096 = .ok extent ∧ extent.objectId = object ∧
      rangeSpan range = extentSpan extent ∧ 0 < range.length ∧
        range.offset + range.length ≤ finish := by
  rw [recordRange] at h
  split at h
  · cases h
  · rename_i extent hdecode
    dsimp only at h
    obtain ⟨hvalid, h⟩ := rejectIf_bind_eq_ok_iff.mp h
    obtain rfl := Except.ok.inj h
    rw [not_or, not_or, not_not] at hvalid
    exact ⟨extent, hdecode, hvalid.1, rfl, end_le_of_not_isInvalid hvalid.2.2⟩

theorem pendingRange_eq_ok {range checked : AllocatedRange}
    (h : pendingRange finish range = .ok checked) :
    checked = range ∧ 0 < range.length ∧ range.offset + range.length ≤ finish := by
  obtain ⟨hvalid, h⟩ := rejectIf_bind_eq_ok_iff.mp h
  exact ⟨(Except.ok.inj h).symm, end_le_of_not_isInvalid hvalid⟩

/-- The ranges of the records are those of their extents. -/
theorem takenRanges_spec {taken : List AllocatedRange}
    (h : List.Forall₂ (fun record range => recordRange object finish record = .ok range) records
      taken) :
    ∃ extents, Decodes records extents ∧ (∀ extent ∈ extents, extent.objectId = object) ∧
      taken.map rangeSpan = extents.map extentSpan ∧
        ∀ range ∈ taken, 0 < range.length ∧ range.offset + range.length ≤ finish := by
  induction h with
  | nil => exact ⟨[], List.Forall₂.nil, List.forall_mem_nil _, rfl, List.forall_mem_nil _⟩
  | cons hfirst _ ih =>
    obtain ⟨extents, hdecodes, hobject, hspans, hinside⟩ := ih
    obtain ⟨extent, hdecode, howner, hspan, hrange⟩ := recordRange_eq_ok hfirst
    exact ⟨extent :: extents, List.Forall₂.cons hdecode hdecodes,
      List.forall_mem_cons.mpr ⟨howner, hobject⟩, by rw [List.map_cons, List.map_cons, hspan, hspans],
      List.forall_mem_cons.mpr ⟨hrange, hinside⟩⟩

/-- The pending ranges are taken as they are. -/
theorem waitingRanges_spec {waiting : List AllocatedRange}
    (h : List.Forall₂ (fun range checked => pendingRange finish range = .ok checked) pending
      waiting) :
    waiting = pending ∧
      ∀ range ∈ pending, 0 < range.length ∧ range.offset + range.length ≤ finish := by
  induction h with
  | nil => exact ⟨rfl, List.forall_mem_nil _⟩
  | cons hfirst _ ih =>
    obtain ⟨rfl, hrange⟩ := pendingRange_eq_ok hfirst
    exact ⟨congrArg _ ih.1, List.forall_mem_cons.mpr ⟨hrange, ih.2⟩⟩

theorem aligned_lt (h : ¬2 ^ 63 - 1 - 4095 < size) : aligned size < 2 ^ 63 := by
  unfold aligned
  omega

/-- **The holes of a file**: with the records and the pending ranges they tile it. -/
theorem coverageHoles_spec {holes : List BtreeRecord}
    (h : coverageHoles object size records pending = .ok holes) :
    ∃ extents holeExtents, Decodes records extents ∧
      (∀ extent ∈ extents, extent.objectId = object) ∧ Holes object holes holeExtents ∧
      (∀ span ∈ extents.map extentSpan ++ pending.map rangeSpan,
        span.1 < span.2 ∧ span.2 ≤ aligned size) ∧
      Tiles (extents.map extentSpan ++ pending.map rangeSpan ++ holeExtents.map extentSpan) 0
        (aligned size) ∧
      records.length + holes.length ≤ nativeSparseMaxRecords := by
  rw [coverageHoles] at h
  obtain ⟨hguard, h⟩ := rejectIf_bind_eq_ok_iff.mp h
  obtain ⟨taken, htaken, h⟩ := bind_eq_ok_iff.mp h
  obtain ⟨waiting, hwaiting, hloop⟩ := bind_eq_ok_iff.mp h
  dsimp only at hloop
  simp only [not_or, not_lt] at hguard
  obtain ⟨hobject, hmask, hsize, hrecords, -⟩ := hguard
  have hadmitted : Admitted object (aligned size) :=
    ⟨Nat.pos_of_ne_zero hobject, hmask, aligned_lt (not_lt.mpr hsize)⟩
  obtain ⟨extents, hdecodes, howner, hspans, htakenInside⟩ :=
    takenRanges_spec (mapM_eq_ok_iff.mp htaken)
  obtain ⟨rfl, hwaitingInside⟩ := waitingRanges_spec (mapM_eq_ok_iff.mp hwaiting)
  have hperm := sortBy_perm (taken ++ waiting) fun left right =>
    decide (left.offset ≤ right.offset)
  have hinside : ∀ range ∈ taken ++ waiting,
      0 < range.length ∧ range.offset + range.length ≤ aligned size :=
    List.forall_mem_append.mpr ⟨htakenInside, hwaitingInside⟩
  obtain ⟨more, holeExtents, rfl, hholes, htiles⟩ := coverageLoop_spec hadmitted
    (fun range hrange => (hinside range (hperm.mem_iff.mp hrange)).2) hloop
  have hmap : extents.map extentSpan ++ waiting.map rangeSpan = (taken ++ waiting).map rangeSpan := by
    rw [List.map_append, hspans]
  refine ⟨extents, holeExtents, hdecodes, howner, hholes, ?_⟩
  rw [hmap]
  refine ⟨fun span hspan => ?_, htiles.perm ((hperm.map rangeSpan).append_right _),
    coverageLoop_quota ?_ hloop⟩
  · obtain ⟨range, hrange, rfl⟩ := List.mem_map.mp hspan
    exact ⟨Nat.lt_add_of_pos_right (hinside range hrange).1, (hinside range hrange).2⟩
  · rwa [List.length_nil, Nat.add_zero]

/-- **The completion is exact and atomic.**  It leaves the records alone when it fails.  When it
succeeds, the records and the pending ranges are disjoint and lie in the file, the holes are added
behind the records, and together they tile the file. -/
theorem completeNativeSparseExtentCoverage_spec (object size : ℕ) (records : List BtreeRecord)
    (pending : List AllocatedRange) :
    (∀ reason after, completeNativeSparseExtentCoverage object size records pending =
      (.error reason, after) → after = records) ∧
    ∀ after, completeNativeSparseExtentCoverage object size records pending = (.ok (), after) →
      ∃ extents holes holeExtents, after = records ++ holes ∧ Decodes records extents ∧
        (∀ extent ∈ extents, extent.objectId = object) ∧ Holes object holes holeExtents ∧
        (extents.map extentSpan ++ pending.map rangeSpan).Pairwise Disjoint ∧
        (∀ span ∈ extents.map extentSpan ++ pending.map rangeSpan,
          span.1 < span.2 ∧ span.2 ≤ aligned size) ∧
        Tiles (extents.map extentSpan ++ pending.map rangeSpan ++ holeExtents.map extentSpan) 0
          (aligned size) ∧
        after.length ≤ nativeSparseMaxRecords := by
  unfold completeNativeSparseExtentCoverage
  cases hholes : coverageHoles object size records pending with
  | error reason =>
    exact ⟨fun _ after h => (congrArg Prod.snd h).symm,
      fun after h => absurd (congrArg Prod.fst h) nofun⟩
  | ok holes =>
    refine ⟨fun _ after h => absurd (congrArg Prod.fst h) nofun, fun after h => ?_⟩
    obtain ⟨extents, holeExtents, hdecodes, howner, hadded, hinside, htiles, hquota⟩ :=
      coverageHoles_spec hholes
    obtain rfl : records ++ holes = after := congrArg Prod.snd h
    exact ⟨extents, holes, holeExtents, rfl, hdecodes, howner, hadded,
      (List.pairwise_append.mp htiles.disjoint).1, hinside, htiles,
      (List.length_append).trans_le hquota⟩

/-- A file of two blocks, the second of which is pending, gets one hole. -/
theorem completeNativeSparseExtentCoverage_sample :
    ∃ holes holeExtents, completeNativeSparseExtentCoverage 20 8192 [] [⟨4096, 4096⟩] =
        (.ok (), holes) ∧ Decodes holes holeExtents ∧
      Tiles ([(4096, 8192)] ++ holeExtents.map extentSpan) 0 8192 := by
  have hrun : completeNativeSparseExtentCoverage 20 8192 [] [⟨4096, 4096⟩] = (.ok (), _) :=
    Prod.ext (by decide +kernel) rfl
  obtain ⟨extents, holes, holeExtents, hafter, hdecodes, -, hholes, -, -, htiles, -⟩ :=
    (completeNativeSparseExtentCoverage_spec 20 8192 [] [⟨4096, 4096⟩]).2 _ hrun
  obtain rfl := List.forall₂_nil_left_iff.mp hdecodes
  refine ⟨holes, holeExtents, hrun.trans (Prod.ext rfl hafter), hholes.decodes, htiles⟩

end Completion

end Sparse
end ApfsAccess
