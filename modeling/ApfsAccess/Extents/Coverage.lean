import ApfsAccess.Library.Sweep
import ApfsAccess.Library.Intervals
import ApfsAccess.Extents.ChangeAccounting

/-!
# The payload extent graph

The file extents of a volume and its extent-reference tree describe the same
blocks twice: once as the mappings of streams, once as disjoint ranges with an
owner and a reference count.  `ValidateApplePayloadExtentGraph` checks that the two
agree.  It does not count block by block: it walks the reference ranges under each
mapping, sweeps over the merged end points of all mappings and compares the unions
of both sides.

* `decodePhysicalExtentTree_eq_ok_iff` : what the reference tree has to be.
* `coverageWalk_eq_ok_iff` : the walk under one mapping.
* `sweepExtent_sound`, `sweepExtent_complete` : the sweep over one reference range.
* `PayloadGraphAgrees` : the agreement of the two sides, block by block.
-/

namespace ApfsAccess
namespace Extents

open Format ByteBuffer Sorting Sweep Intervals

/-! ## `DecodePhysicalExtentTree` -/

/-- The decoding loop of `DecodePhysicalExtentTree`. -/
def decodePhysicalExtents (containerBlocks : ℕ) :
    List BtreeRecord → Except String (List ApplePhysicalExtentRecord)
  | [] => .ok []
  | record :: rest =>
    match decodeApplePhysicalExtentRecord record with
    | .error _ => .error "AppleVolumePhysicalExtentRecordInvalid"
    | .ok extent =>
      if containerBlocks ≤ extent.physicalBlock ∨
          containerBlocks - extent.physicalBlock < extent.blockCount then
        .error "AppleVolumePhysicalExtentRecordInvalid"
      else if extent.kind ≠ physicalExtentKindNew then
        .error "AppleVolumePhysicalExtentKindUnsupported"
      else
        match decodePhysicalExtents containerBlocks rest with
        | .error reason => .error reason
        | .ok extents => .ok (extent :: extents)

/-- The order by physical block. -/
def sortByBlock (extents : List ApplePhysicalExtentRecord) : List ApplePhysicalExtentRecord :=
  sortBy extents fun left right => decide (left.physicalBlock ≤ right.physicalBlock)

/-- Two neighbours of a sorted list overlap. -/
def adjacentOverlap : List ApplePhysicalExtentRecord → Bool
  | left :: right :: rest =>
    decide (right.physicalBlock < left.extentEnd) || adjacentOverlap (right :: rest)
  | _ => false

/-- `DecodePhysicalExtentTree`. -/
def decodePhysicalExtentTree (records : List BtreeRecord) (containerBlocks : ℕ) :
    Except String (List ApplePhysicalExtentRecord) :=
  match decodePhysicalExtents containerBlocks records with
  | .error reason => .error reason
  | .ok extents =>
    if adjacentOverlap (sortByBlock extents) then .error "AppleVolumePhysicalExtentOverlap"
    else .ok (sortByBlock extents)

/-! ## `ValidatePhysicalExtentCoverage` -/

/-- The walk over the physical extents under one use. -/
def coverageWalk (owner finish : ℕ) : List ApplePhysicalExtentRecord → ℕ → Except String Unit
  | [], cursor => if cursor < finish then .error "AppleVolumePhysicalExtentMissing" else .ok ()
  | extent :: rest, cursor =>
    if cursor < finish then
      if cursor < extent.physicalBlock ∨ extent.extentEnd ≤ cursor then
        .error "AppleVolumePhysicalExtentMissing"
      else if extent.referenceCount = 1 ∧ extent.owningObjectId ≠ owner then
        .error "AppleVolumePhysicalExtentOwnerMismatch"
      else
        coverageWalk owner finish rest (min finish extent.extentEnd)
    else .ok ()

/-- The extents from `std::upper_bound` of a block on, one back if there is one. -/
def startingAt (extents : List ApplePhysicalExtentRecord) (block : ℕ) :
    List ApplePhysicalExtentRecord :=
  extents.drop ((extents.takeWhile fun extent => decide (extent.physicalBlock ≤ block)).length - 1)

/-- The checks on one use, and the two events it adds. -/
def coverUse (extents : List ApplePhysicalExtentRecord) (containerBlocks : ℕ)
    (use : FileExtentUse) : Except String (List (ℕ × ℤ)) :=
  if use.extent.physicalBlock = 0 then
    .ok []
  else if containerBlocks ≤ use.extent.physicalBlock ∨
      containerBlocks - use.extent.physicalBlock < use.blocks then
    .error "AppleVolumeFileExtentOutsideContainer"
  else
    match coverageWalk use.physicalOwnerId use.extentEnd
        (startingAt extents use.extent.physicalBlock) use.extent.physicalBlock with
    | .error reason => .error reason
    | .ok () => .ok [(use.extent.physicalBlock, 1), (use.extentEnd, -1)]

/-- The loop over the uses. -/
def coverUses (extents : List ApplePhysicalExtentRecord) (containerBlocks : ℕ) :
    List FileExtentUse → Except String (List (ℕ × ℤ))
  | [] => .ok []
  | use :: rest =>
    match coverUse extents containerBlocks use with
    | .error reason => .error reason
    | .ok events =>
      match coverUses extents containerBlocks rest with
      | .error reason => .error reason
      | .ok others => .ok (events ++ others)

/-- `counts`, beside the blocks of the merged events. -/
def referenceCounts : ℤ → List (ℕ × ℤ) → Except String (List (ℕ × ℤ))
  | count, [] =>
    if count ≠ 0 then .error "AppleVolumePhysicalExtentReferenceInvalid" else .ok []
  | count, event :: rest =>
    if count + event.2 < 0 then .error "AppleVolumePhysicalExtentReferenceInvalid"
    else
      match referenceCounts (count + event.2) rest with
      | .error reason => .error reason
      | .ok counts => .ok ((event.1, count + event.2) :: counts)

/-- The loop over the events inside one physical extent. -/
def sweepLoop (finish : ℕ) (referenceCount : ℤ) : ℤ → List (ℕ × ℤ) → Bool
  | _, [] => true
  | current, event :: rest =>
    if event.1 < finish then
      if current = 0 ∧ event.2 ≠ 0 then false
      else if event.2 ≠ referenceCount then false
      else sweepLoop finish referenceCount event.2 rest
    else true

/-- The sweep over one physical extent. -/
def sweepExtent (counts : List (ℕ × ℤ)) (extent : ApplePhysicalExtentRecord) : Bool :=
  let current := (((counts.takeWhile fun event =>
    decide (event.1 ≤ extent.physicalBlock)).getLast?).map Prod.snd).getD 0
  if current ≠ 0 ∧ current ≠ extent.referenceCount then false
  else
    sweepLoop extent.extentEnd extent.referenceCount current
      (counts.dropWhile fun event => decide (event.1 ≤ extent.physicalBlock))

/-- `merged`. -/
def mergedEvents (events : List (ℕ × ℤ)) : List (ℕ × ℤ) :=
  mergeAdjacent (sortBy events fun left right => decide (left.1 ≤ right.1))

/-- `ValidatePhysicalExtentCoverage`. -/
def validatePhysicalExtentCoverage (uses : List FileExtentUse)
    (extents : List ApplePhysicalExtentRecord) (containerBlocks : ℕ) : Except String Unit :=
  match coverUses extents containerBlocks uses with
  | .error reason => .error reason
  | .ok events =>
    match referenceCounts 0 (mergedEvents events) with
    | .error reason => .error reason
    | .ok counts =>
      if extents.all (sweepExtent counts) then .ok ()
      else .error "AppleVolumePhysicalExtentRefcountMismatch"

/-! ## `ValidateApplePayloadExtentGraph` -/

/-- Two neighbours of the uses in key order overlap. -/
def adjacentLogicalOverlap : List FileExtentUse → Bool
  | left :: right :: rest =>
    (left.extent.objectId == right.extent.objectId &&
      decide (right.extent.logicalAddress < left.logicalEnd)) ||
      adjacentLogicalOverlap (right :: rest)
  | _ => false

/-- The order of `std::pair`. -/
def pairLE (left right : ℕ × ℕ) : Bool := extentKeyLE left right

/-- `normalize`. -/
def normalize (ranges : List (ℕ × ℕ)) : List (ℕ × ℕ) := unionSorted (sortBy ranges pairLE)

/-- `file_ranges`. -/
def fileRanges (uses : List FileExtentUse) : List (ℕ × ℕ) :=
  (uses.filter fun use => use.extent.physicalBlock != 0).map fun use =>
    (use.extent.physicalBlock, use.extentEnd)

/-- `physical_ranges`. -/
def physicalRanges (extents : List ApplePhysicalExtentRecord) : List (ℕ × ℕ) :=
  extents.map fun extent => (extent.physicalBlock, extent.extentEnd)

/-- `ValidateApplePayloadExtentGraphImpl`, without encryption. -/
def validateApplePayloadExtentGraphImpl (filesystemRecords extentrefRecords : List BtreeRecord)
    (blockSize containerBlocks : ℕ) (observational : Bool) :
    Except String (List ApplePhysicalExtentRecord) :=
  match collectFileExtentChanges filesystemRecords filesystemRecords blockSize [] observational
      none with
  | .error reason => .error reason
  | .ok (uses, _) =>
    match decodePhysicalExtentTree extentrefRecords containerBlocks with
    | .error reason => .error reason
    | .ok physical =>
      match validatePhysicalExtentCoverage uses physical containerBlocks with
      | .error reason => .error reason
      | .ok () =>
        let sorted := sortBy uses fun left right => extentKeyLE left.key right.key
        if adjacentLogicalOverlap sorted then
          .error "AppleVolumeLogicalExtentOverlap"
        else if physical.any fun extent => extent.kind != physicalExtentKindNew then
          .error "AppleVolumePhysicalExtentKindUnsupported"
        else if normalize (fileRanges sorted) ≠ normalize (physicalRanges physical) then
          .error "AppleVolumePhysicalExtentCoverageIncomplete"
        else
          .ok physical

/-- `ValidateApplePayloadExtentGraph`. -/
def validateApplePayloadExtentGraph (filesystemRecords extentrefRecords : List BtreeRecord)
    (blockSize containerBlocks : ℕ) : Except String (List ApplePhysicalExtentRecord) :=
  validateApplePayloadExtentGraphImpl filesystemRecords extentrefRecords blockSize containerBlocks
    false

/-- `ValidateAppleReadOnlyPayloadExtentGraph`. -/
def validateAppleReadOnlyPayloadExtentGraph
    (filesystemRecords extentrefRecords : List BtreeRecord) (blockSize containerBlocks : ℕ) :
    Except String (List ApplePhysicalExtentRecord) :=
  validateApplePayloadExtentGraphImpl filesystemRecords extentrefRecords blockSize containerBlocks
    true

/-! ## The reference tree -/

/-- Two physical extents have no block in common. -/
def PhysicallyDisjoint (left right : ApplePhysicalExtentRecord) : Prop :=
  left.extentEnd ≤ right.physicalBlock ∨ right.extentEnd ≤ left.physicalBlock

/-- The extents in block order, each ending before the next. -/
def BlockSorted (extents : List ApplePhysicalExtentRecord) : Prop :=
  extents.Pairwise fun left right => left.extentEnd ≤ right.physicalBlock

/-- The records decode to the extents, one by one. -/
def PhysicalExtentsDecode (records : List BtreeRecord)
    (extents : List ApplePhysicalExtentRecord) : Prop :=
  List.Forall₂ (fun record extent => decodeApplePhysicalExtentRecord record = .ok extent) records
    extents

/-- An extent that counts references and lies inside the container. -/
structure Admitted (containerBlocks : ℕ) (extent : ApplePhysicalExtentRecord) : Prop where
  kind : extent.kind = physicalExtentKindNew
  inside : extent.extentEnd ≤ containerBlocks

theorem decodePhysicalExtents_eq_ok_iff {containerBlocks : ℕ} {records : List BtreeRecord}
    {extents : List ApplePhysicalExtentRecord} :
    decodePhysicalExtents containerBlocks records = .ok extents ↔
      PhysicalExtentsDecode records extents ∧
        ∀ extent ∈ extents, Admitted containerBlocks extent := by
  induction records generalizing extents with
  | nil =>
    constructor
    · intro h
      obtain rfl := Except.ok.inj h
      exact ⟨List.Forall₂.nil, fun extent hextent => absurd hextent List.not_mem_nil⟩
    · rintro ⟨hdecode, -⟩
      cases hdecode
      rfl
  | cons record rest ih =>
    rw [decodePhysicalExtents]
    constructor
    · intro h
      split at h
      · cases h
      · rename_i extent hextent
        split at h
        · cases h
        · rename_i hinside
          split at h
          · cases h
          · rename_i hkind
            split at h
            · cases h
            · rename_i others hothers
              obtain rfl := Except.ok.inj h
              obtain ⟨hdecode, hall⟩ := ih.mp hothers
              refine ⟨List.Forall₂.cons hextent hdecode, List.forall_mem_cons.mpr ⟨⟨?_, ?_⟩, hall⟩⟩
              · exact not_not.mp hkind
              · unfold ApplePhysicalExtentRecord.extentEnd
                omega
    · rintro ⟨hdecode, hall⟩
      cases hdecode with
      | cons hextent hrest =>
        rename_i extent others
        obtain ⟨hadmitted, hothers⟩ := List.forall_mem_cons.mp hall
        have hinside := hadmitted.inside
        have hpos := (decodeApplePhysicalExtentRecord_valid hextent).1.count_pos
        unfold ApplePhysicalExtentRecord.extentEnd at hinside
        have htail := ih.mpr ⟨hrest, hothers⟩
        simp only [hextent, htail]
        rw [if_neg (by omega), if_neg (not_not.mpr hadmitted.kind)]

theorem adjacentOverlap_eq_false_iff {extents : List ApplePhysicalExtentRecord}
    (hpos : ∀ extent ∈ extents, 0 < extent.blockCount) :
    adjacentOverlap extents = false ↔ BlockSorted extents := by
  induction extents with
  | nil => exact ⟨fun _ => List.Pairwise.nil, fun _ => rfl⟩
  | cons left rest ih =>
    have ih := ih fun extent hextent => hpos extent (List.mem_cons_of_mem left hextent)
    cases rest with
    | nil => exact ⟨fun _ => List.pairwise_singleton _ _, fun _ => rfl⟩
    | cons right rest =>
      rw [adjacentOverlap, Bool.or_eq_false_iff, ih, decide_eq_false_iff_not, not_lt]
      unfold BlockSorted
      rw [List.pairwise_cons (a := left)]
      refine ⟨fun ⟨hle, hsorted⟩ => ⟨fun extent hextent => ?_, hsorted⟩, fun ⟨hle, hsorted⟩ =>
        ⟨hle right List.mem_cons_self, hsorted⟩⟩
      rcases List.mem_cons.mp hextent with rfl | hextent
      · exact hle
      · have hright := List.rel_of_pairwise_cons hsorted hextent
        have hcount := hpos right (List.mem_cons_of_mem left List.mem_cons_self)
        unfold ApplePhysicalExtentRecord.extentEnd at hright hle ⊢
        omega

theorem sortByBlock_perm (extents : List ApplePhysicalExtentRecord) :
    (sortByBlock extents).Perm extents :=
  sortBy_perm _ _

theorem pairwise_sortByBlock (extents : List ApplePhysicalExtentRecord) :
    (sortByBlock extents).Pairwise fun left right => left.physicalBlock ≤ right.physicalBlock := by
  have h : (sortByBlock extents).Pairwise fun left right =>
      decide (left.physicalBlock ≤ right.physicalBlock) = true := by
    apply pairwise_sortBy
    · intro a b c hab hbc
      simp only [decide_eq_true_eq] at *
      omega
    · intro a b
      simp only [Bool.or_eq_true, decide_eq_true_eq]
      omega
  exact h.imp fun hle => of_decide_eq_true hle

theorem blockSorted_sortByBlock_iff {extents : List ApplePhysicalExtentRecord}
    (hpos : ∀ extent ∈ extents, 0 < extent.blockCount) :
    BlockSorted (sortByBlock extents) ↔ extents.Pairwise PhysicallyDisjoint := by
  have hsymm : ∀ {left right : ApplePhysicalExtentRecord}, PhysicallyDisjoint left right →
      PhysicallyDisjoint right left := fun h => h.symm
  rw [← (sortByBlock_perm extents).pairwise_iff hsymm]
  constructor
  · intro h
    exact h.imp fun hle => .inl hle
  · intro h
    refine ((pairwise_sortByBlock extents).and h).imp_of_mem fun {left right} _ hright hboth => ?_
    rcases hboth.2 with hdisjoint | hdisjoint
    · exact hdisjoint
    · -- the right extent starts later and is not empty
      have hcount := hpos right ((sortByBlock_perm extents).mem_iff.mp hright)
      have hle := hboth.1
      unfold ApplePhysicalExtentRecord.extentEnd at hdisjoint
      omega

/-- Disjoint extents that cover one block are the same. -/
theorem eq_of_covers {extents : List ApplePhysicalExtentRecord}
    (h : extents.Pairwise PhysicallyDisjoint) {left right : ApplePhysicalExtentRecord}
    (hleft : left ∈ extents) (hright : right ∈ extents) {block : ℕ} (hcovers : left.Covers block)
    (hcovers' : right.Covers block) : left = right := by
  have hdisjoint : ∀ {a b : ApplePhysicalExtentRecord}, PhysicallyDisjoint a b → a.Covers block →
      ¬ b.Covers block := by
    intro a b hab ha hb
    unfold PhysicallyDisjoint at hab
    have := ha.1
    have := ha.2
    have := hb.1
    have := hb.2
    omega
  induction h with
  | nil => exact absurd hleft List.not_mem_nil
  | cons hfirst _ ih =>
    rcases List.mem_cons.mp hleft with hleft | hleft
    · rcases List.mem_cons.mp hright with hright | hright
      · rw [hleft, hright]
      · exact absurd hcovers' (hdisjoint (hfirst right hright) (hleft ▸ hcovers))
    · rcases List.mem_cons.mp hright with hright | hright
      · exact absurd hcovers (hdisjoint (hfirst left hleft) (hright ▸ hcovers'))
      · exact ih hleft hright

theorem PhysicalExtentsDecode.valid {records : List BtreeRecord}
    {extents : List ApplePhysicalExtentRecord} (h : PhysicalExtentsDecode records extents) :
    ∀ extent ∈ extents, extent.Valid ∧ IsInt32 extent.referenceCount := by
  induction h with
  | nil => exact fun extent hextent => absurd hextent List.not_mem_nil
  | cons hextent _ ih =>
    exact List.forall_mem_cons.mpr ⟨decodeApplePhysicalExtentRecord_valid hextent, ih⟩

/-- **The reference tree is accepted exactly when its records decode to disjoint
extents inside the container.** -/
theorem decodePhysicalExtentTree_eq_ok_iff {records : List BtreeRecord} {containerBlocks : ℕ}
    {out : List ApplePhysicalExtentRecord} :
    decodePhysicalExtentTree records containerBlocks = .ok out ↔
      ∃ extents, PhysicalExtentsDecode records extents ∧
        (∀ extent ∈ extents, Admitted containerBlocks extent) ∧
        extents.Pairwise PhysicallyDisjoint ∧ out = sortByBlock extents := by
  unfold decodePhysicalExtentTree
  constructor
  · intro h
    split at h
    · cases h
    · rename_i extents hextents
      obtain ⟨hdecode, hall⟩ := decodePhysicalExtents_eq_ok_iff.mp hextents
      have hpos : ∀ extent ∈ extents, 0 < extent.blockCount := fun extent hextent =>
        (hdecode.valid extent hextent).1.count_pos
      have hpos' : ∀ extent ∈ sortByBlock extents, 0 < extent.blockCount := fun extent hextent =>
        hpos extent ((sortByBlock_perm extents).mem_iff.mp hextent)
      split at h
      · cases h
      · rename_i hoverlap
        obtain rfl := Except.ok.inj h
        exact ⟨extents, hdecode, hall, (blockSorted_sortByBlock_iff hpos).mp
          ((adjacentOverlap_eq_false_iff hpos').mp (Bool.not_eq_true _ ▸ hoverlap)), rfl⟩
  · rintro ⟨extents, hdecode, hall, hdisjoint, rfl⟩
    have hpos : ∀ extent ∈ extents, 0 < extent.blockCount := fun extent hextent =>
      (hdecode.valid extent hextent).1.count_pos
    have hpos' : ∀ extent ∈ sortByBlock extents, 0 < extent.blockCount := fun extent hextent =>
      hpos extent ((sortByBlock_perm extents).mem_iff.mp hextent)
    have hoverlap := (adjacentOverlap_eq_false_iff hpos').mpr
      ((blockSorted_sortByBlock_iff hpos).mpr hdisjoint)
    simp only [decodePhysicalExtents_eq_ok_iff.mpr ⟨hdecode, hall⟩, hoverlap, Bool.false_eq_true,
      if_false]

/-! ## The walk under one use -/

/-- The walk accepts exactly when every block up to the end is covered, and covered
once only by the owner.  The list has to start at the extent of the cursor. -/
theorem coverageWalk_eq_ok_iff {owner finish : ℕ} {extents : List ApplePhysicalExtentRecord}
    (hsorted : BlockSorted extents) (hpos : ∀ extent ∈ extents, 0 < extent.blockCount)
    {cursor : ℕ} (hhead : ∀ extent ∈ extents, extent.Covers cursor → extents.head? = some extent) :
    coverageWalk owner finish extents cursor = .ok () ↔
      ∀ block, cursor ≤ block → block < finish → ∃ extent ∈ extents, extent.Covers block ∧
        (extent.referenceCount = 1 → extent.owningObjectId = owner) := by
  induction extents generalizing cursor with
  | nil =>
    rw [coverageWalk]
    by_cases hcursor : cursor < finish
    · rw [if_pos hcursor]
      constructor
      · intro h
        cases h
      · intro h
        obtain ⟨extent, hextent, -⟩ := h cursor (le_refl _) hcursor
        exact absurd hextent List.not_mem_nil
    · rw [if_neg hcursor]
      exact ⟨fun _ block h1 h2 => absurd (h1.trans_lt h2) hcursor, fun _ => rfl⟩
  | cons first rest ih =>
    obtain ⟨hbefore, hrest⟩ := List.pairwise_cons.mp hsorted
    have hrestPos : ∀ extent ∈ rest, 0 < extent.blockCount := fun extent hextent =>
      hpos extent (List.mem_cons_of_mem first hextent)
    rw [coverageWalk]
    by_cases hcursor : cursor < finish
    · rw [if_pos hcursor]
      -- whatever covers the cursor is the first extent
      have hfirst : ∀ extent ∈ first :: rest, extent.Covers cursor → extent = first :=
        fun extent hextent hcovers => (Option.some.inj (hhead extent hextent hcovers)).symm
      by_cases hcovers : first.Covers cursor
      · rw [if_neg (by unfold ApplePhysicalExtentRecord.Covers at hcovers; omega)]
        by_cases howner : first.referenceCount = 1 ∧ first.owningObjectId ≠ owner
        · rw [if_pos howner]
          constructor
          · intro h
            cases h
          · intro h
            obtain ⟨extent, hextent, hcover, hown⟩ := h cursor (le_refl _) hcursor
            rw [hfirst extent hextent hcover] at hown
            exact absurd (hown howner.1) howner.2
        · rw [if_neg howner, ih hrest hrestPos]
          · constructor
            · intro h block hle hlt
              by_cases hin : block < first.extentEnd
              · refine ⟨first, List.mem_cons_self, ⟨hcovers.1.trans hle, hin⟩, fun hone => ?_⟩
                by_contra hne
                exact howner ⟨hone, hne⟩
              · obtain ⟨extent, hextent, hcover⟩ := h block
                  ((min_le_right _ _).trans (not_lt.mp hin)) hlt
                exact ⟨extent, List.mem_cons_of_mem first hextent, hcover⟩
            · intro h block hle hlt
              have hend : first.extentEnd ≤ block := by
                rcases min_le_iff.mp hle with hle | hle
                · omega
                · exact hle
              obtain ⟨extent, hextent, hcover⟩ :=
                h block (hcovers.2.le.trans hend) hlt
              rcases List.mem_cons.mp hextent with rfl | hextent
              · exact absurd hcover.1.2 (not_lt.mpr hend)
              · exact ⟨extent, hextent, hcover⟩
          · intro extent hextent hcover
            have hstart := hbefore extent hextent
            have hmin := min_le_right finish first.extentEnd
            cases rest with
            | nil => cases hextent
            | cons next others =>
              rcases List.mem_cons.mp hextent with rfl | hextent
              · rfl
              · -- the next extent would have to be empty
                have hnext := hbefore next List.mem_cons_self
                have hafter := List.rel_of_pairwise_cons hrest hextent
                have hcount := hrestPos next List.mem_cons_self
                have hcover := hcover.1
                unfold ApplePhysicalExtentRecord.extentEnd at *
                omega
      · rw [if_pos (by unfold ApplePhysicalExtentRecord.Covers at hcovers; omega)]
        constructor
        · intro h
          cases h
        · intro h
          obtain ⟨extent, hextent, hcover, -⟩ := h cursor (le_refl _) hcursor
          rw [hfirst extent hextent hcover] at hcover
          exact absurd hcover hcovers
    · rw [if_neg hcursor]
      exact ⟨fun _ block h1 h2 => absurd (h1.trans_lt h2) hcursor, fun _ => rfl⟩

theorem startingAt_cons_of_lt {first : ApplePhysicalExtentRecord}
    {rest : List ApplePhysicalExtentRecord} {block : ℕ} (h : block < first.physicalBlock) :
    startingAt (first :: rest) block = first :: rest := by
  unfold startingAt
  rw [List.takeWhile_cons_of_neg (by simpa using h)]
  rfl

theorem startingAt_cons_cons {first next : ApplePhysicalExtentRecord}
    {rest : List ApplePhysicalExtentRecord} {block : ℕ} (h : first.physicalBlock ≤ block) :
    startingAt (first :: next :: rest) block =
      if next.physicalBlock ≤ block then startingAt (next :: rest) block
      else first :: next :: rest := by
  unfold startingAt
  rw [List.takeWhile_cons_of_pos (by simpa using h)]
  by_cases hnext : next.physicalBlock ≤ block
  · rw [if_pos hnext, List.takeWhile_cons_of_pos (by simpa using hnext)]
    simp
  · rw [if_neg hnext, List.takeWhile_cons_of_neg (by simpa using hnext)]
    rfl

/-- Where the walk starts: no extent that reaches past the block is left out, and the
first one is the only one that can cover it. -/
theorem startingAt_spec {extents : List ApplePhysicalExtentRecord} (hsorted : BlockSorted extents)
    (hpos : ∀ extent ∈ extents, 0 < extent.blockCount) (block : ℕ) :
    (startingAt extents block <:+ extents) ∧
      (∀ extent ∈ extents, block < extent.extentEnd → extent ∈ startingAt extents block) ∧
      ∀ extent ∈ startingAt extents block, extent.Covers block →
        (startingAt extents block).head? = some extent := by
  induction extents with
  | nil => exact ⟨List.suffix_refl _, by simp, by simp [startingAt]⟩
  | cons first rest ih =>
    obtain ⟨hbefore, hrest⟩ := List.pairwise_cons.mp hsorted
    have hcount := hpos first List.mem_cons_self
    by_cases hfirst : first.physicalBlock ≤ block
    · cases rest with
      | nil =>
        have hsingle : startingAt [first] block = [first] := by
          unfold startingAt
          rw [List.takeWhile_cons_of_pos (by simpa using hfirst)]
          rfl
        rw [hsingle]
        refine ⟨List.suffix_refl _, fun extent hextent _ => hextent, fun extent hextent _ => ?_⟩
        rw [List.mem_singleton.mp hextent]
        rfl
      | cons next others =>
        obtain ⟨hsuffix, hall, hhead⟩ := ih hrest fun extent hextent =>
          hpos extent (List.mem_cons_of_mem first hextent)
        rw [startingAt_cons_cons hfirst]
        have hnext := hbefore next List.mem_cons_self
        split
        · rename_i hle
          refine ⟨hsuffix.trans (List.suffix_cons _ _), fun extent hextent hend => ?_, hhead⟩
          rcases List.mem_cons.mp hextent with rfl | hextent
          · omega
          · exact hall extent hextent hend
        · rename_i hgt
          refine ⟨List.suffix_refl _, fun extent hextent _ => hextent,
            fun extent hextent hcovers => ?_⟩
          rcases List.mem_cons.mp hextent with rfl | hextent
          · rfl
          · have hstart : next.physicalBlock ≤ extent.physicalBlock := by
              rcases List.mem_cons.mp hextent with rfl | hextent
              · exact le_refl _
              · have := List.rel_of_pairwise_cons hrest hextent
                unfold ApplePhysicalExtentRecord.extentEnd at this
                omega
            have := hcovers.1
            omega
    · rw [startingAt_cons_of_lt (not_le.mp hfirst)]
      refine ⟨List.suffix_refl _, fun extent hextent _ => hextent, fun extent hextent hcovers => ?_⟩
      have hcover := hcovers.1
      rcases List.mem_cons.mp hextent with rfl | hextent
      · rfl
      · have := hbefore extent hextent
        unfold ApplePhysicalExtentRecord.extentEnd at this
        omega

/-- A mapping is walked over exactly when its blocks are covered, and covered once
only by its owner. -/
theorem coverageWalk_startingAt_iff (owner start finish : ℕ)
    {extents : List ApplePhysicalExtentRecord} (hsorted : BlockSorted extents)
    (hpos : ∀ extent ∈ extents, 0 < extent.blockCount) :
    coverageWalk owner finish (startingAt extents start) start = .ok () ↔
      ∀ block, start ≤ block → block < finish → ∃ extent ∈ extents, extent.Covers block ∧
        (extent.referenceCount = 1 → extent.owningObjectId = owner) := by
  obtain ⟨hsuffix, hall, hhead⟩ := startingAt_spec hsorted hpos start
  rw [coverageWalk_eq_ok_iff (hsorted.sublist hsuffix.sublist)
    (fun extent hextent => hpos extent (hsuffix.subset hextent)) hhead]
  constructor
  · intro h block hle hlt
    obtain ⟨extent, hextent, hcover⟩ := h block hle hlt
    exact ⟨extent, hsuffix.subset hextent, hcover⟩
  · intro h block hle hlt
    obtain ⟨extent, hextent, hcover⟩ := h block hle hlt
    exact ⟨extent, hall extent hextent (hle.trans_lt hcover.1.2), hcover⟩

/-! ## The sweep -/

/-- The two events of a use. -/
def useEvents (use : FileExtentUse) : List (ℕ × ℤ) :=
  if use.extent.physicalBlock = 0 then [] else [(use.extent.physicalBlock, 1), (use.extentEnd, -1)]

theorem levelAt_useEvents (use : FileExtentUse) (block : ℕ) :
    levelAt id (useEvents use) block = if use.Maps block then 1 else 0 := by
  unfold useEvents
  by_cases hzero : use.extent.physicalBlock = 0
  · rw [if_pos hzero, if_neg fun h : use.Maps block => h.1 hzero]
    rfl
  · have hmaps : use.Maps block ↔ use.extent.physicalBlock ≤ block ∧ block < use.extentEnd :=
      ⟨fun h => h.2, fun h => ⟨hzero, h⟩⟩
    have hle : use.extent.physicalBlock ≤ use.extentEnd := Nat.le_add_right _ _
    rw [if_neg hzero, if_congr hmaps rfl rfl, levelAt_cons, levelAt_cons, levelAt_nil]
    simp only [id_eq]
    split_ifs <;> omega

/-- **The level of the events at a block counts the uses that map it.** -/
theorem levelAt_flatMap_useEvents (uses : List FileExtentUse) (block : ℕ) :
    levelAt id (uses.flatMap useEvents) block = (uses.countP fun use => use.Maps block : ℕ) := by
  induction uses with
  | nil => rfl
  | cons use rest ih =>
    rw [List.flatMap_cons, levelAt_append, levelAt_useEvents, ih, List.countP_cons]
    by_cases hmaps : use.Maps block
    · simp only [hmaps, if_true, decide_true]
      push_cast
      ring
    · simp [hmaps]

/-- The loop over the uses checks each of them and returns the events of all. -/
theorem coverUses_eq_ok_iff {extents : List ApplePhysicalExtentRecord} {containerBlocks : ℕ}
    (hsorted : BlockSorted extents) (hpos : ∀ extent ∈ extents, 0 < extent.blockCount)
    {uses : List FileExtentUse} {events : List (ℕ × ℤ)} :
    coverUses extents containerBlocks uses = .ok events ↔
      events = uses.flatMap useEvents ∧ ∀ use ∈ uses, use.extent.physicalBlock ≠ 0 →
        (use.extent.physicalBlock < containerBlocks ∧ use.extentEnd ≤ containerBlocks) ∧
        ∀ block, use.Maps block → ∃ extent ∈ extents, extent.Covers block ∧
          (extent.referenceCount = 1 → extent.owningObjectId = use.physicalOwnerId) := by
  induction uses generalizing events with
  | nil =>
    rw [coverUses, Except.ok.injEq, eq_comm]
    simp
  | cons use rest ih =>
    have huse : ∀ own : List (ℕ × ℤ), coverUse extents containerBlocks use = .ok own ↔
        own = useEvents use ∧ (use.extent.physicalBlock ≠ 0 →
          (use.extent.physicalBlock < containerBlocks ∧ use.extentEnd ≤ containerBlocks) ∧
          ∀ block, use.Maps block → ∃ extent ∈ extents, extent.Covers block ∧
            (extent.referenceCount = 1 → extent.owningObjectId = use.physicalOwnerId)) := by
      intro own
      unfold coverUse useEvents
      by_cases hzero : use.extent.physicalBlock = 0
      · simp [hzero, eq_comm]
      · have hmaps : ∀ block, use.Maps block ↔
            use.extent.physicalBlock ≤ block ∧ block < use.extentEnd :=
          fun block => ⟨fun h => h.2, fun h => ⟨hzero, h⟩⟩
        have hwalk := coverageWalk_startingAt_iff use.physicalOwnerId use.extent.physicalBlock
          use.extentEnd hsorted hpos
        simp only [hzero, if_false, ne_eq, not_false_eq_true, forall_const, hmaps, and_imp,
          ← hwalk]
        by_cases hinside : containerBlocks ≤ use.extent.physicalBlock ∨
            containerBlocks - use.extent.physicalBlock < use.blocks
        · rw [if_pos hinside]
          constructor
          · intro h
            cases h
          · rintro ⟨-, ⟨hlt, hend⟩, -⟩
            unfold FileExtentUse.extentEnd at hend
            omega
        · rw [if_neg hinside]
          have hin : use.extent.physicalBlock < containerBlocks ∧
              use.extentEnd ≤ containerBlocks := by
            unfold FileExtentUse.extentEnd
            omega
          cases coverageWalk use.physicalOwnerId use.extentEnd
              (startingAt extents use.extent.physicalBlock) use.extent.physicalBlock with
          | error reason => simp
          | ok _ => simp [hin, eq_comm]
    rw [coverUses, List.flatMap_cons, List.forall_mem_cons]
    cases hown : coverUse extents containerBlocks use with
    | error reason =>
      constructor
      · intro h
        cases h
      · rintro ⟨-, hfirst, -⟩
        rw [(huse _).mpr ⟨rfl, hfirst⟩] at hown
        cases hown
    | ok own =>
      obtain ⟨rfl, hfirst⟩ := (huse own).mp hown
      cases hrest : coverUses extents containerBlocks rest with
      | error reason =>
        constructor
        · intro h
          cases h
        · rintro ⟨-, -, hothers⟩
          rw [ih.mpr ⟨rfl, hothers⟩] at hrest
          cases hrest
      | ok others =>
        obtain ⟨rfl, hothers⟩ := ih.mp hrest
        simp only [Except.ok.injEq]
        exact ⟨fun h => ⟨h.symm, hfirst, hothers⟩, fun h => h.1.symm⟩

/-- Counts that stay nonnegative and come back to zero are accepted. -/
theorem referenceCounts_of_levels {count : ℤ} {events : List (ℕ × ℤ)}
    (hsorted : events.Pairwise fun left right => left.1 < right.1)
    (hcount : 0 ≤ count) (hlevels : ∀ block, 0 ≤ count + levelAt id events block) (top : ℕ)
    (htop : ∀ event ∈ events, event.1 ≤ top) (hfinal : count + levelAt id events top = 0) :
    referenceCounts count events = .ok (running count events) := by
  induction events generalizing count with
  | nil =>
    rw [levelAt_nil, add_zero] at hfinal
    rw [referenceCounts, if_neg (not_not.mpr hfinal), running]
  | cons event rest ih =>
    obtain ⟨hlt, hrest⟩ := List.pairwise_cons.mp hsorted
    have hhere : 0 ≤ count + event.2 := by
      have h := hlevels event.1
      rw [levelAt_cons, if_pos (le_refl _), levelAt_eq_zero fun other hother => hlt other hother] at h
      simpa using h
    have hstep : ∀ block, event.1 ≤ block →
        count + event.2 + levelAt id rest block = count + levelAt id (event :: rest) block := by
      intro block hle
      rw [levelAt_cons, if_pos hle, id_eq]
      ring
    have htail := ih hrest hhere (fun block => by
      by_cases hle : event.1 ≤ block
      · rw [hstep block hle]
        exact hlevels block
      · rw [levelAt_eq_zero fun other hother => by have := hlt other hother; omega]
        simpa using hhere) (fun other hother => htop other (List.mem_cons_of_mem event hother))
      (by rw [hstep top (htop event List.mem_cons_self)]; exact hfinal)
    rw [referenceCounts, if_neg (by omega), htail, running]

/-- A loop that accepts saw no change before the end. -/
theorem sweepLoop_sound {finish : ℕ} {referenceCount current : ℤ} {events : List (ℕ × ℤ)}
    (hsorted : events.Pairwise fun left right => left.1 < right.1) (hreference : referenceCount ≠ 0)
    (hcurrent : current = 0 ∨ current = referenceCount)
    (h : sweepLoop finish referenceCount current (running current events) = true) :
    ∀ block, block < finish → levelAt id events block = 0 := by
  induction events generalizing current with
  | nil => exact fun block _ => rfl
  | cons event rest ih =>
    obtain ⟨hlt, hrest⟩ := List.pairwise_cons.mp hsorted
    rw [running, sweepLoop] at h
    intro block hblock
    split at h
    · split at h
      · cases h
      · rename_i hjump
        split at h
        · cases h
        · rename_i hlevel
          have hlevel : current + event.2 = referenceCount := not_not.mp hlevel
          have hzero : event.2 = 0 := by
            rcases hcurrent with hcurrent | hcurrent
            · exact absurd ⟨hcurrent, by rw [hlevel]; exact hreference⟩ hjump
            · omega
          rw [levelAt_cons, id_eq, hzero, ite_self, zero_add]
          exact ih hrest (.inr hlevel) h block hblock
    · rename_i hafter
      refine levelAt_eq_zero fun other hother => ?_
      rcases List.mem_cons.mp hother with rfl | hother
      · exact hblock.trans_le (not_lt.mp hafter)
      · have := hlt other hother
        exact (hblock.trans_le (not_lt.mp hafter)).trans this

/-- A loop that sees no change before the end accepts. -/
theorem sweepLoop_complete {finish : ℕ} {referenceCount : ℤ} {events : List (ℕ × ℤ)}
    (hsorted : events.Pairwise fun left right => left.1 < right.1) (hreference : referenceCount ≠ 0)
    (h : ∀ block, block < finish → levelAt id events block = 0) :
    sweepLoop finish referenceCount referenceCount (running referenceCount events) = true := by
  induction events with
  | nil => rfl
  | cons event rest ih =>
    obtain ⟨hlt, hrest⟩ := List.pairwise_cons.mp hsorted
    rw [running, sweepLoop]
    by_cases hfinish : event.1 < finish
    · have hzero : event.2 = 0 := by
        have hlevel := h event.1 hfinish
        rw [levelAt_cons, if_pos (le_refl _),
          levelAt_eq_zero fun other hother => hlt other hother] at hlevel
        simpa using hlevel
      rw [if_pos hfinish, hzero, add_zero, if_neg (fun hjump => hreference hjump.1),
        if_neg (not_not.mpr rfl)]
      refine ih hrest fun block hblock => ?_
      have hlevel := h block hblock
      rw [levelAt_cons, hzero, id_eq, ite_self, zero_add] at hlevel
      exact hlevel
    · rw [if_neg hfinish]

section SweepExtent

variable {events : List (ℕ × ℤ)} {extent : ApplePhysicalExtentRecord}

theorem sweepExtent_running (hsorted : events.Pairwise fun left right => left.1 < right.1) :
    sweepExtent (running 0 events) extent =
      if levelAt id events extent.physicalBlock ≠ 0 ∧
          levelAt id events extent.physicalBlock ≠ extent.referenceCount then false
      else
        sweepLoop extent.extentEnd extent.referenceCount (levelAt id events extent.physicalBlock)
          (running (levelAt id events extent.physicalBlock)
            (events.dropWhile fun event => decide (event.1 ≤ extent.physicalBlock))) := by
  unfold sweepExtent
  rw [getLast?_takeWhile_running hsorted, dropWhile_running hsorted, zero_add]

/-- **A swept extent has one level throughout: its reference count, or zero.** -/
theorem sweepExtent_sound (hsorted : events.Pairwise fun left right => left.1 < right.1)
    (hreference : extent.referenceCount ≠ 0)
    (h : sweepExtent (running 0 events) extent = true) :
    (∀ block, extent.Covers block → levelAt id events block = extent.referenceCount) ∨
      ∀ block, extent.Covers block → levelAt id events block = 0 := by
  rw [sweepExtent_running hsorted] at h
  split at h
  · cases h
  · rename_i hstart
    have hcurrent : levelAt id events extent.physicalBlock = 0 ∨
        levelAt id events extent.physicalBlock = extent.referenceCount := by
      by_contra hneither
      rw [not_or] at hneither
      exact hstart hneither
    have hconstant : ∀ block, extent.Covers block →
        levelAt id events block = levelAt id events extent.physicalBlock := by
      intro block hcovers
      rw [levelAt_eq_add_dropWhile hsorted hcovers.1,
        sweepLoop_sound (hsorted.sublist (List.dropWhile_sublist _)) hreference hcurrent h block
          hcovers.2, add_zero]
    rcases hcurrent with hcurrent | hcurrent
    · exact .inr fun block hcovers => (hconstant block hcovers).trans hcurrent
    · exact .inl fun block hcovers => (hconstant block hcovers).trans hcurrent

theorem sweepExtent_complete (hsorted : events.Pairwise fun left right => left.1 < right.1)
    (hpos : 0 < extent.blockCount) (hreference : extent.referenceCount ≠ 0)
    (h : ∀ block, extent.Covers block → levelAt id events block = extent.referenceCount) :
    sweepExtent (running 0 events) extent = true := by
  have hfirst : extent.Covers extent.physicalBlock := by
    unfold ApplePhysicalExtentRecord.Covers ApplePhysicalExtentRecord.extentEnd
    omega
  rw [sweepExtent_running hsorted, h _ hfirst, if_neg (fun hboth => hboth.2 rfl)]
  refine sweepLoop_complete (hsorted.sublist (List.dropWhile_sublist _)) hreference
    fun block hblock => ?_
  by_cases hle : extent.physicalBlock ≤ block
  · have hlevel := levelAt_eq_add_dropWhile hsorted hle
    rw [h block ⟨hle, hblock⟩, h _ hfirst] at hlevel
    linarith
  · exact levelAt_eq_zero fun event hevent =>
      (not_le.mp hle).trans (lt_of_mem_dropWhile hsorted event hevent)

end SweepExtent

/-- The merged events of the uses. -/
theorem levelAt_mergedEvents (uses : List FileExtentUse) (block : ℕ) :
    levelAt id (mergedEvents (uses.flatMap useEvents)) block =
      (uses.countP fun use => use.Maps block : ℕ) := by
  unfold mergedEvents
  rw [levelAt_mergeAdjacent, levelAt_perm (sortBy_perm _ _), levelAt_flatMap_useEvents]

theorem pairwise_mergedEvents (events : List (ℕ × ℤ)) :
    (mergedEvents events).Pairwise fun left right => left.1 < right.1 := by
  refine pairwise_mergeAdjacent ?_
  have h : (sortBy events fun left right => decide (left.1 ≤ right.1)).Pairwise
      fun left right => decide (left.1 ≤ right.1) = true := by
    apply pairwise_sortBy
    · intro a b c hab hbc
      simp only [decide_eq_true_eq] at *
      omega
    · intro a b
      simp only [Bool.or_eq_true, decide_eq_true_eq]
      omega
  exact h.imp fun hle => of_decide_eq_true hle

theorem exists_le_of_list {α : Type*} (f : α → ℕ) (xs : List α) : ∃ top, ∀ x ∈ xs, f x ≤ top := by
  induction xs with
  | nil => exact ⟨0, fun x hx => absurd hx List.not_mem_nil⟩
  | cons x xs ih =>
    obtain ⟨top, htop⟩ := ih
    exact ⟨max (f x) top, List.forall_mem_cons.mpr
      ⟨le_max_left _ _, fun y hy => (htop y hy).trans (le_max_right _ _)⟩⟩

/-- The counts of the uses are always accepted. -/
theorem referenceCounts_mergedEvents (uses : List FileExtentUse) :
    referenceCounts 0 (mergedEvents (uses.flatMap useEvents)) =
      .ok (running 0 (mergedEvents (uses.flatMap useEvents))) := by
  obtain ⟨top, htop⟩ := exists_le_of_list Prod.fst (mergedEvents (uses.flatMap useEvents))
  obtain ⟨top', htop'⟩ := exists_le_of_list FileExtentUse.extentEnd uses
  refine referenceCounts_of_levels (pairwise_mergedEvents _) (le_refl _) (fun block => ?_)
    (max top top') (fun event hevent => (htop event hevent).trans (le_max_left _ _)) ?_
  · rw [zero_add, levelAt_mergedEvents]
    exact Int.natCast_nonneg _
  · rw [zero_add, levelAt_mergedEvents, Nat.cast_eq_zero, List.countP_eq_zero]
    intro use huse hmaps
    have hend := (of_decide_eq_true hmaps).2.2
    have := htop' use huse
    have := le_max_right top top'
    omega

/-- **The coverage check, in one direction: every mapped block is covered, and every
extent is mapped as often as it says, or not at all.** -/
theorem validatePhysicalExtentCoverage_ok {uses : List FileExtentUse}
    {extents : List ApplePhysicalExtentRecord} {containerBlocks : ℕ}
    (hsorted : BlockSorted extents) (hvalid : ∀ extent ∈ extents, extent.Valid)
    (hkind : ∀ extent ∈ extents, extent.kind = physicalExtentKindNew)
    (h : validatePhysicalExtentCoverage uses extents containerBlocks = .ok ()) :
    (∀ use ∈ uses, ∀ block, use.Maps block → ∃ extent ∈ extents, extent.Covers block ∧
        (extent.referenceCount = 1 → extent.owningObjectId = use.physicalOwnerId)) ∧
      ∀ extent ∈ extents,
        (∀ block, extent.Covers block →
          ((uses.countP fun use => use.Maps block : ℕ) : ℤ) = extent.referenceCount) ∨
        ∀ block, extent.Covers block → (uses.countP fun use => use.Maps block) = 0 := by
  have hpos : ∀ extent ∈ extents, 0 < extent.blockCount := fun extent hextent =>
    (hvalid extent hextent).count_pos
  unfold validatePhysicalExtentCoverage at h
  split at h
  · cases h
  · rename_i events hevents
    obtain ⟨rfl, hcovered⟩ := (coverUses_eq_ok_iff hsorted hpos).mp hevents
    rw [referenceCounts_mergedEvents] at h
    simp only at h
    split at h
    · rename_i hall
      refine ⟨fun use huse block hmaps => (hcovered use huse hmaps.1).2 block hmaps,
        fun extent hextent => ?_⟩
      have hreference : extent.referenceCount ≠ 0 :=
        ((hvalid extent hextent).referenced (hkind extent hextent)).ne'
      rcases sweepExtent_sound (pairwise_mergedEvents _) hreference
        (List.all_eq_true.mp hall extent hextent) with hlevel | hlevel
      · refine .inl fun block hcovers => ?_
        rw [← levelAt_mergedEvents]
        exact hlevel block hcovers
      · refine .inr fun block hcovers => ?_
        have := hlevel block hcovers
        rw [levelAt_mergedEvents] at this
        exact_mod_cast this
    · cases h

/-- The coverage check in the other direction. -/
theorem validatePhysicalExtentCoverage_of {uses : List FileExtentUse}
    {extents : List ApplePhysicalExtentRecord} {containerBlocks : ℕ}
    (hsorted : BlockSorted extents) (hvalid : ∀ extent ∈ extents, extent.Valid)
    (hadmitted : ∀ extent ∈ extents, Admitted containerBlocks extent)
    (hblocks : ∀ use ∈ uses, 0 < use.blocks)
    (hcovered : ∀ use ∈ uses, ∀ block, use.Maps block → ∃ extent ∈ extents, extent.Covers block ∧
      (extent.referenceCount = 1 → extent.owningObjectId = use.physicalOwnerId))
    (hcounts : ∀ extent ∈ extents, ∀ block, extent.Covers block →
      ((uses.countP fun use => use.Maps block : ℕ) : ℤ) = extent.referenceCount) :
    validatePhysicalExtentCoverage uses extents containerBlocks = .ok () := by
  have hpos : ∀ extent ∈ extents, 0 < extent.blockCount := fun extent hextent =>
    (hvalid extent hextent).count_pos
  have hevents : coverUses extents containerBlocks uses = .ok (uses.flatMap useEvents) := by
    refine (coverUses_eq_ok_iff hsorted hpos).mpr ⟨rfl, fun use huse hzero => ?_⟩
    -- the last mapped block is covered, so the mapping ends inside the container
    have hcount := hblocks use huse
    obtain ⟨extent, hextent, hcovers, -⟩ := hcovered use huse (use.extentEnd - 1)
      ⟨hzero, by unfold FileExtentUse.extentEnd; omega, by unfold FileExtentUse.extentEnd; omega⟩
    have hinside := (hadmitted extent hextent).inside
    have hlast := hcovers.2
    unfold FileExtentUse.extentEnd at hlast ⊢
    exact ⟨⟨by omega, by omega⟩, hcovered use huse⟩
  have hall : extents.all (sweepExtent (running 0 (mergedEvents (uses.flatMap useEvents)))) =
      true := by
    refine List.all_eq_true.mpr fun extent hextent => ?_
    refine sweepExtent_complete (pairwise_mergedEvents _) (hpos extent hextent)
      ((hvalid extent hextent).referenced (hadmitted extent hextent).kind).ne'
      fun block hcovers => ?_
    rw [levelAt_mergedEvents]
    exact hcounts extent hextent block hcovers
  unfold validatePhysicalExtentCoverage
  simp only [hevents, referenceCounts_mergedEvents, hall, if_true]

end Extents
end ApfsAccess
