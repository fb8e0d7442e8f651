import ApfsAccess.Extents.Coverage

/-!
# What the payload extent graph check decides

`PayloadGraphMatches` says block by block what it means that the file extents of a
volume and its reference tree describe the same storage.
`validateApplePayloadExtentGraph_isOk_iff` says that the check accepts exactly the
graphs that match in this sense, among those whose attributes, inodes and extent
kinds are admitted at all.  The accepted extents come back in block order.
-/

namespace ApfsAccess
namespace Extents

open Format ByteBuffer Sorting Sweep Intervals

/-- The file extents of the records decode to the uses, one by one. -/
def FileExtentsDecode (records : List BtreeRecord) (blockSize : ℕ) (uses : List FileExtentUse) :
    Prop :=
  List.Forall₂ (fun record use => decodeAppleFileExtentRecord record blockSize = .ok use.extent ∧
    use.record = some record ∧ use.physicalOwnerId = streamOwner records use.extent.objectId)
    (records.filter isFileExtentRecord) uses

/-- The mappings and the reference ranges describe the same storage. -/
structure PayloadGraphMatches (filesystemRecords extentrefRecords : List BtreeRecord)
    (blockSize containerBlocks : ℕ) (uses : List FileExtentUse)
    (extents : List ApplePhysicalExtentRecord) : Prop where
  fileExtents : FileExtentsDecode filesystemRecords blockSize uses
  logical : uses.Pairwise LogicallyDisjoint
  physicalExtents : PhysicalExtentsDecode extentrefRecords extents
  inside : ∀ extent ∈ extents, extent.extentEnd ≤ containerBlocks
  disjoint : extents.Pairwise PhysicallyDisjoint
  counted : ∀ extent ∈ extents, ∀ block, extent.Covers block →
    ((uses.countP fun use => use.Maps block : ℕ) : ℤ) = extent.referenceCount
  covered : ∀ use ∈ uses, ∀ block, use.Maps block → ∃ extent ∈ extents, extent.Covers block
  owned : ∀ extent ∈ extents, extent.referenceCount = 1 → ∀ use ∈ uses, ∀ block,
    extent.Covers block → use.Maps block → use.physicalOwnerId = extent.owningObjectId

theorem decodeFileExtentUses_eq_some_iff {records : List BtreeRecord} {blockSize : ℕ}
    {owners : ExternalStreamOwners} {uses : List FileExtentUse} :
    decodeFileExtentUses records blockSize owners = some uses ↔
      List.Forall₂ (fun record use => decodeFileExtentUse record blockSize owners = some use)
        (records.filter isFileExtentRecord) uses := by
  induction records generalizing uses with
  | nil =>
    rw [decodeFileExtentUses_nil, List.filter_nil, List.forall₂_nil_left_iff, Option.some.injEq,
      eq_comm]
  | cons record rest ih =>
    rw [decodeFileExtentUses_cons]
    by_cases hfile : isFileExtentRecord record
    · rw [if_pos hfile, List.filter_cons_of_pos hfile, List.forall₂_cons_left_iff,
        Option.bind_eq_some_iff]
      constructor
      · rintro ⟨use, huse, hrest⟩
        obtain ⟨others, hothers, rfl⟩ := Option.map_eq_some_iff.mp hrest
        exact ⟨use, others, huse, ih.mp hothers, rfl⟩
      · rintro ⟨use, others, huse, hothers, rfl⟩
        exact ⟨use, huse, by rw [ih.mpr hothers]; rfl⟩
    · rw [if_neg hfile, List.filter_cons_of_neg hfile]
      exact ih

/-- With the owners collected, decoding the uses is decoding the records. -/
theorem fileExtentsDecode_iff {records : List BtreeRecord} {blockSize : ℕ}
    {owners : ExternalStreamOwners} (howners : collectExternalStreamOwners records = .ok owners)
    {uses : List FileExtentUse} :
    decodeFileExtentUses records blockSize owners = some uses ↔
      FileExtentsDecode records blockSize uses := by
  rw [decodeFileExtentUses_eq_some_iff]
  unfold FileExtentsDecode
  simp only [decodeFileExtentUse_eq_some_iff, physicalStreamOwner_eq howners]

theorem exists_of_mem_right {α β : Type*} {R : α → β → Prop} {xs : List α} {ys : List β}
    (h : List.Forall₂ R xs ys) : ∀ y ∈ ys, ∃ x ∈ xs, R x y := by
  induction h with
  | nil => exact fun y hy => absurd hy List.not_mem_nil
  | @cons x y xs ys hxy _ ih =>
    intro z hz
    rcases List.mem_cons.mp hz with rfl | hz
    · exact ⟨x, List.mem_cons_self, hxy⟩
    · obtain ⟨w, hw, hwz⟩ := ih z hz
      exact ⟨w, List.mem_cons_of_mem x hw, hwz⟩

theorem FileExtentsDecode.blocks_pos {records : List BtreeRecord} {blockSize : ℕ}
    {uses : List FileExtentUse} (h : FileExtentsDecode records blockSize uses) :
    ∀ use ∈ uses, 0 < use.blocks := by
  intro use huse
  obtain ⟨record, -, hdecode⟩ := exists_of_mem_right h use huse
  have hvalid := decodeAppleFileExtentRecord_valid hdecode.1
  unfold FileExtentUse.blocks
  rw [hvalid.blockSize_eq]
  exact Nat.div_pos (Nat.le_of_dvd hvalid.length_pos hvalid.length_aligned) hvalid.blockSize_pos

/-! ## The unions of the two sides -/

theorem pairwise_sortBy_pairLE (ranges : List (ℕ × ℕ)) :
    (sortBy ranges pairLE).Pairwise fun left right => left.1 ≤ right.1 := by
  have h : (sortBy ranges pairLE).Pairwise fun left right => extentKeyLE left right = true := by
    apply pairwise_sortBy
    · intro a b c
      exact extentKeyLE_trans
    · intro a b
      exact extentKeyLE_total a b
  refine h.imp fun {left right} hle => ?_
  have := extentKeyLE_iff.mp hle
  omega

theorem normalize_eq_iff {ranges others : List (ℕ × ℕ)} (hranges : ∀ range ∈ ranges, range.1 < range.2)
    (hothers : ∀ range ∈ others, range.1 < range.2) :
    normalize ranges = normalize others ↔ ∀ block, Covered ranges block ↔ Covered others block := by
  unfold normalize
  rw [unionSorted_eq_iff (pairwise_sortBy_pairLE ranges) (pairwise_sortBy_pairLE others)
    (fun range hrange => hranges range ((sortBy_perm _ _).mem_iff.mp hrange))
    fun range hrange => hothers range ((sortBy_perm _ _).mem_iff.mp hrange)]
  simp only [covered_perm (sortBy_perm _ _)]

theorem covered_fileRanges {uses : List FileExtentUse} {block : ℕ} :
    Covered (fileRanges uses) block ↔ ∃ use ∈ uses, use.Maps block := by
  unfold Covered fileRanges
  simp only [List.mem_map, List.mem_filter]
  constructor
  · rintro ⟨range, ⟨use, ⟨huse, hzero⟩, rfl⟩, hcontains⟩
    exact ⟨use, huse, by simpa using hzero, hcontains⟩
  · rintro ⟨use, huse, hzero, hcontains⟩
    exact ⟨_, ⟨use, ⟨huse, by simpa using hzero⟩, rfl⟩, hcontains⟩

theorem covered_physicalRanges {extents : List ApplePhysicalExtentRecord} {block : ℕ} :
    Covered (physicalRanges extents) block ↔ ∃ extent ∈ extents, extent.Covers block := by
  unfold Covered physicalRanges
  simp only [List.mem_map]
  constructor
  · rintro ⟨range, ⟨extent, hextent, rfl⟩, hcontains⟩
    exact ⟨extent, hextent, hcontains⟩
  · rintro ⟨extent, hextent, hcontains⟩
    exact ⟨_, ⟨extent, hextent, rfl⟩, hcontains⟩

/-- The two unions are equal exactly when the mapped blocks are the covered ones. -/
theorem normalize_ranges_eq_iff {uses : List FileExtentUse}
    {extents : List ApplePhysicalExtentRecord} (hblocks : ∀ use ∈ uses, 0 < use.blocks)
    (hpos : ∀ extent ∈ extents, 0 < extent.blockCount) :
    normalize (fileRanges uses) = normalize (physicalRanges extents) ↔
      ∀ block, (∃ use ∈ uses, use.Maps block) ↔ ∃ extent ∈ extents, extent.Covers block := by
  rw [normalize_eq_iff]
  · simp only [covered_fileRanges, covered_physicalRanges]
  · intro range hrange
    obtain ⟨use, huse, rfl⟩ := List.mem_map.mp hrange
    have := hblocks use (List.mem_of_mem_filter huse)
    show use.extent.physicalBlock < use.extent.physicalBlock + use.blocks
    omega
  · intro range hrange
    obtain ⟨extent, hextent, rfl⟩ := List.mem_map.mp hrange
    have := hpos extent hextent
    show extent.physicalBlock < extent.physicalBlock + extent.blockCount
    omega

/-! ## The logical check a second time -/

theorem adjacentLogicalOverlap_cons (use : FileExtentUse) (rest : List FileExtentUse) :
    adjacentLogicalOverlap (use :: rest) =
      logicalOverlap rest use.extent.objectId use.logicalEnd := by
  induction rest generalizing use with
  | nil => rfl
  | cons next rest ih =>
    rw [adjacentLogicalOverlap, logicalOverlap, ih]
    congr 2
    exact Bool.beq_comm

/-- The uses have passed the overlap check already, so its second version in key
order never fires. -/
theorem adjacentLogicalOverlap_sortBy {uses : List FileExtentUse}
    (hpos : ∀ use ∈ uses, 0 < use.extent.lengthBytes) (h : uses.Pairwise LogicallyDisjoint) :
    adjacentLogicalOverlap (sortBy uses fun left right => extentKeyLE left.key right.key) =
      false := by
  have hperm := sortBy_perm uses fun left right => extentKeyLE left.key right.key
  have hsorted : KeySorted (sortBy uses fun left right => extentKeyLE left.key right.key) := by
    apply pairwise_sortBy
    · intro a b c
      exact extentKeyLE_trans
    · intro a b
      exact extentKeyLE_total a.key b.key
  have hbefore := (pairwise_before_iff hsorted fun use huse => hpos use (hperm.mem_iff.mp huse)).mpr
    ((hperm.pairwise_iff fun h => h.symm).mpr h)
  cases hlist : sortBy uses fun left right => extentKeyLE left.key right.key with
  | nil => rfl
  | cons use rest =>
    rw [hlist] at hsorted hbefore
    rw [adjacentLogicalOverlap_cons, logicalOverlap_eq_false_iff hsorted.of_cons]
    refine ⟨hbefore.of_cons, fun next hnext hobject => ?_⟩
    exact List.rel_of_pairwise_cons hbefore (List.mem_of_mem_head? hnext) hobject.symm

/-! ## The agreement -/

/-- **What the check accepts.** -/
theorem validateApplePayloadExtentGraphImpl_eq_ok_iff
    {filesystemRecords extentrefRecords : List BtreeRecord} {blockSize containerBlocks : ℕ}
    {observational : Bool} {out : List ApplePhysicalExtentRecord} :
    validateApplePayloadExtentGraphImpl filesystemRecords extentrefRecords blockSize
        containerBlocks observational = .ok out ↔
      AttributesAdmitted filesystemRecords ∧ InodesAdmitted filesystemRecords observational ∧
        ∃ uses extents, (∀ extent ∈ extents, extent.kind = physicalExtentKindNew) ∧
          PayloadGraphMatches filesystemRecords extentrefRecords blockSize containerBlocks uses
            extents ∧ out = sortByBlock extents := by
  unfold validateApplePayloadExtentGraphImpl
  constructor
  · intro h
    split at h
    · cases h
    · rename_i uses removed hcollect
      obtain ⟨owners, -, profile, parts, howners, -, huses, hlogical, hprofile, -⟩ :=
        collectFileExtentChanges_eq_ok_iff.mp hcollect
      split at h
      · cases h
      · rename_i physical hphysical
        obtain ⟨extents, hdecode, hadmitted, hdisjoint, rfl⟩ :=
          decodePhysicalExtentTree_eq_ok_iff.mp hphysical
        have hmem := fun extent => (sortByBlock_perm extents).mem_iff (a := extent)
        have hvalid : ∀ extent ∈ sortByBlock extents, extent.Valid := fun extent hextent =>
          (hdecode.valid extent ((hmem extent).mp hextent)).1
        have hpos : ∀ extent ∈ sortByBlock extents, 0 < extent.blockCount :=
          fun extent hextent => (hvalid extent hextent).count_pos
        have hsorted : BlockSorted (sortByBlock extents) :=
          (blockSorted_sortByBlock_iff fun extent hextent =>
            hpos extent ((hmem extent).mpr hextent)).mpr hdisjoint
        have hfile := (fileExtentsDecode_iff howners).mp huses
        split at h
        · cases h
        · rename_i hcoverage
          obtain ⟨hcovered, hswept⟩ := validatePhysicalExtentCoverage_ok hsorted hvalid
            (fun extent hextent => (hadmitted extent ((hmem extent).mp hextent)).kind) hcoverage
          simp only at h
          split at h
          · cases h
          · split at h
            · cases h
            · split at h
              · cases h
              · rename_i hnormalize
                obtain rfl := Except.ok.inj h
                have hperm := sortBy_perm uses fun left right =>
                  extentKeyLE left.key right.key
                have hunion := (normalize_ranges_eq_iff
                  (fun use huse => hfile.blocks_pos use (hperm.mem_iff.mp huse)) hpos).mp
                  (not_not.mp hnormalize)
                refine ⟨(collectExternalStreamOwners_ok howners).1,
                  (streamProfile_isOk_iff howners uses observational).mp ⟨profile, hprofile⟩,
                  uses, extents, fun extent hextent => (hadmitted extent hextent).kind, ?_, rfl⟩
                refine
                  { fileExtents := hfile
                    logical := hlogical
                    physicalExtents := hdecode
                    inside := fun extent hextent => (hadmitted extent hextent).inside
                    disjoint := hdisjoint
                    counted := fun extent hextent block hcovers => ?_
                    covered := fun use huse block hmaps => ?_
                    owned := fun extent hextent hone use huse block hcovers hmaps => ?_ }
                · rcases hswept extent ((hmem extent).mpr hextent) with hcount | hzero
                  · exact hcount block hcovers
                  · -- some mapping lies over the block, so the level is not zero
                    obtain ⟨use, huse, hmaps⟩ :=
                      (hunion block).mpr ⟨extent, (hmem extent).mpr hextent, hcovers⟩
                    have := List.countP_eq_zero.mp (hzero block hcovers) use
                      (hperm.mem_iff.mp huse)
                    exact absurd hmaps (by simpa using this)
                · obtain ⟨extent, hextent, hcovers, -⟩ := hcovered use huse block hmaps
                  exact ⟨extent, (hmem extent).mp hextent, hcovers⟩
                · obtain ⟨other, hother, hcovers', hown⟩ := hcovered use huse block hmaps
                  obtain rfl : other = extent :=
                    eq_of_covers hdisjoint ((hmem other).mp hother) hextent hcovers' hcovers
                  exact (hown hone).symm
  · rintro ⟨hattributes, hinodes, uses, extents, hkind, hmatches, rfl⟩
    obtain ⟨owners, howners⟩ := collectExternalStreamOwners_eq_ok_iff.mpr hattributes
    have huses := (fileExtentsDecode_iff howners).mpr hmatches.fileExtents
    obtain ⟨profile, hprofile⟩ := (streamProfile_isOk_iff howners uses observational).mpr hinodes
    have hcollect := collectFileExtentChanges_self howners huses hmatches.logical hprofile
    have hadmitted : ∀ extent ∈ extents, Admitted containerBlocks extent := fun extent hextent =>
      ⟨hkind extent hextent, hmatches.inside extent hextent⟩
    have hphysical := decodePhysicalExtentTree_eq_ok_iff.mpr
      ⟨extents, hmatches.physicalExtents, hadmitted, hmatches.disjoint, rfl⟩
    have hmem := fun extent => (sortByBlock_perm extents).mem_iff (a := extent)
    have hvalid : ∀ extent ∈ sortByBlock extents, extent.Valid := fun extent hextent =>
      (hmatches.physicalExtents.valid extent ((hmem extent).mp hextent)).1
    have hpos : ∀ extent ∈ sortByBlock extents, 0 < extent.blockCount :=
      fun extent hextent => (hvalid extent hextent).count_pos
    have hsorted : BlockSorted (sortByBlock extents) :=
      (blockSorted_sortByBlock_iff fun extent hextent =>
        hpos extent ((hmem extent).mpr hextent)).mpr hmatches.disjoint
    have hblocks := hmatches.fileExtents.blocks_pos
    have hcoverage := validatePhysicalExtentCoverage_of hsorted hvalid
      (fun extent hextent => hadmitted extent ((hmem extent).mp hextent)) hblocks
      (fun use huse block hmaps => by
        obtain ⟨extent, hextent, hcovers⟩ := hmatches.covered use huse block hmaps
        exact ⟨extent, (hmem extent).mpr hextent, hcovers, fun hone =>
          (hmatches.owned extent hextent hone use huse block hcovers hmaps).symm⟩)
      fun extent hextent => hmatches.counted extent ((hmem extent).mp hextent)
    have hoverlap := adjacentLogicalOverlap_sortBy
      (fun use huse => (decoded_of_mem huses use huse).valid.length_pos) hmatches.logical
    have hkinds : (sortByBlock extents).any (fun extent => extent.kind != physicalExtentKindNew) =
        false := by
      rw [List.any_eq_false]
      intro extent hextent
      simpa using hkind extent ((hmem extent).mp hextent)
    have hperm := sortBy_perm uses fun left right => extentKeyLE left.key right.key
    have hunion := (normalize_ranges_eq_iff
      (fun use huse => hblocks use (hperm.mem_iff.mp huse)) hpos).mpr fun block => by
        constructor
        · rintro ⟨use, huse, hmaps⟩
          obtain ⟨extent, hextent, hcovers⟩ :=
            hmatches.covered use (hperm.mem_iff.mp huse) block hmaps
          exact ⟨extent, (hmem extent).mpr hextent, hcovers⟩
        · rintro ⟨extent, hextent, hcovers⟩
          -- the reference count is positive, so some mapping is counted
          have hextent := (hmem extent).mp hextent
          have hcount := hmatches.counted extent hextent block hcovers
          have hreference := (hmatches.physicalExtents.valid extent hextent).1.referenced
            (hkind extent hextent)
          have hpositive : 0 < uses.countP fun use => use.Maps block := by omega
          obtain ⟨use, huse, hmaps⟩ := List.countP_pos_iff.mp hpositive
          exact ⟨use, hperm.mem_iff.mpr huse, of_decide_eq_true hmaps⟩
    simp only [hcollect, hphysical, hcoverage, hoverlap, hkinds, hunion, Bool.false_eq_true,
      if_false, ne_eq, not_true_eq_false]

/-- **`ValidateApplePayloadExtentGraph` accepts exactly the graphs that match.** -/
theorem validateApplePayloadExtentGraph_isOk_iff
    (filesystemRecords extentrefRecords : List BtreeRecord) (blockSize containerBlocks : ℕ) :
    (∃ out, validateApplePayloadExtentGraph filesystemRecords extentrefRecords blockSize
        containerBlocks = .ok out) ↔
      AttributesAdmitted filesystemRecords ∧ InodesAdmitted filesystemRecords false ∧
        ∃ uses extents, (∀ extent ∈ extents, extent.kind = physicalExtentKindNew) ∧
          PayloadGraphMatches filesystemRecords extentrefRecords blockSize containerBlocks uses
            extents := by
  unfold validateApplePayloadExtentGraph
  simp only [validateApplePayloadExtentGraphImpl_eq_ok_iff]
  constructor
  · rintro ⟨out, hattributes, hinodes, uses, extents, hkind, hmatches, -⟩
    exact ⟨hattributes, hinodes, uses, extents, hkind, hmatches⟩
  · rintro ⟨hattributes, hinodes, uses, extents, hkind, hmatches⟩
    exact ⟨sortByBlock extents, hattributes, hinodes, uses, extents, hkind, hmatches, rfl⟩

/-- The inode record of object 16, with an empty value. -/
def emptyInodeRecord : BtreeRecord := ⟨leBytes 8 (3 * 2 ^ 60 + 16), []⟩

/-- A volume with neither mappings nor reference ranges matches, yet an inode that
does not decode makes the check reject it. -/
theorem emptyInodeRecord_matches_rejected :
    (∃ uses extents, PayloadGraphMatches [emptyInodeRecord] [] 4096 100 uses extents) ∧
      ¬ ∃ out, validateApplePayloadExtentGraph [emptyInodeRecord] [] 4096 100 = .ok out := by
  have htype : recordType (keyHeader emptyInodeRecord) = 3 := by decide
  have hdecode : decodeInodeWithAdmission emptyInodeRecord false =
      .error "AppleInodeRecordSizeInvalid" := by decide
  constructor
  · have hfilter : [emptyInodeRecord].filter isFileExtentRecord = [] := by decide
    refine ⟨[], [], ?_, List.Pairwise.nil, List.Forall₂.nil, by simp, List.Pairwise.nil, by simp,
      by simp, by simp⟩
    unfold FileExtentsDecode
    rw [hfilter]
    exact List.Forall₂.nil
  · rintro ⟨out, hout⟩
    unfold validateApplePayloadExtentGraph at hout
    obtain ⟨-, hinodes, -⟩ := validateApplePayloadExtentGraphImpl_eq_ok_iff.mp hout
    obtain ⟨inode, hinode, -⟩ := hinodes emptyInodeRecord List.mem_cons_self htype
    rw [hdecode] at hinode
    cases hinode

/-- The record that maps the first blocks of a stream, with blocks of 4096 bytes. -/
def sampleMapping (object block count : ℕ) : BtreeRecord :=
  ⟨leBytes 8 (8 * 2 ^ 60 + object) ++ leBytes 8 0,
    leBytes 8 (count * 4096) ++ leBytes 8 block ++ leBytes 8 0⟩

/-- A reference record. -/
def sampleReference (block count owner references : ℕ) : BtreeRecord :=
  ⟨leBytes 8 (2 * 2 ^ 60 + block),
    leBytes 8 (1 * 2 ^ 60 + count) ++ leBytes 8 owner ++ leBytes 4 references⟩

end Extents
end ApfsAccess
