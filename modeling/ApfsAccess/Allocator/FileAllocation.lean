import ApfsAccess.Allocator.FileTiling

/-!
# The contract of `AllocateFileExtents`

The call works on the caller's free list and tail.  Here both are results, with the places where
the source copies them, restores them or leaves them alone.

* `allocateContiguousInPlace`, `allocateFileExtentsInPlace` : the calls with the list and the tail
  they leave.
* `allocateFileExtentsInPlace_eq` : what they leave on success is what the allocation records.
* `allocateFileExtentsInPlace_contract` : the file extents tile the file in blocks that can be
  used, the free list loses the blocks taken from it, and a refusal changes nothing.
-/

namespace ApfsAccess
namespace Allocator

/-- `ExtentAllocator::AllocateContiguous`: the address, the list and the tail. -/
def allocateContiguousInPlace (freeExtents : List Extent) (nextEphemeralExtent bytes : ℕ)
    (policy : AllocationPolicy) : Option ℕ × List Extent × ℕ :=
  match allocateContiguousFromFree freeExtents bytes policy with
  | some fromFree => (some fromFree.address, fromFree.freeExtents, nextEphemeralExtent)
  | none =>
    match tailAddress nextEphemeralExtent bytes policy with
    | none => (none, freeExtents, nextEphemeralExtent)
    | some current =>
      let previousFreeExtents := freeExtents
      match removeAllocatedExtent freeExtents ⟨current, bytes⟩ with
      | (false, _) => (none, previousFreeExtents, nextEphemeralExtent)
      | (true, left) => (some current, left, current + bytes)

/-- `ExtentAllocator::AllocateFileExtents`: the file extents, the list and the tail. -/
def allocateFileExtentsInPlace (freeExtents : List Extent)
    (nextEphemeralExtent logicalSize alignedTotal blockSize : ℕ) (policy : AllocationPolicy) :
    Option (List FileExtent) × List Extent × ℕ :=
  if logicalSize = 0 then (some [], freeExtents, nextEphemeralExtent)
  else if alignedTotal = 0 ∨ blockSize = 0 ∨ alignedTotal % blockSize ≠ 0 ∨
      alignedTotal < logicalSize then (none, freeExtents, nextEphemeralExtent)
  else if freeExtents.any (fun extent => extent.physicalAddress % blockSize ≠ 0 ∨
      extent.bytes % blockSize ≠ 0) then (none, freeExtents, nextEphemeralExtent)
  else
    match allocateContiguousFromFree freeExtents alignedTotal
        { policy with advancePastUnavailable := none } with
    | some contiguous =>
      (some [⟨0, contiguous.address, logicalSize⟩], contiguous.freeExtents, nextEphemeralExtent)
    | none =>
      match planFileExtents freeExtents logicalSize blockSize policy with
      | none => (none, freeExtents, nextEphemeralExtent)
      | some plan =>
        if plan.remainingLogical = 0 ∧ hasLogicalExtentCoverage plan.fileExtents logicalSize then
          -- the removal is made on a copy
          match removeAllocatedExtents freeExtents plan.allocatedPhysicalExtents with
          | (false, _) => (none, freeExtents, nextEphemeralExtent)
          | (true, remaining) => (some plan.fileExtents, remaining, nextEphemeralExtent)
        else
          let originalFreeExtents := freeExtents
          let originalNextEphemeralExtent := nextEphemeralExtent
          match allocateContiguousInPlace freeExtents nextEphemeralExtent alignedTotal policy with
          | (none, _, _) => (none, originalFreeExtents, originalNextEphemeralExtent)
          | (some fallback, afterFreeExtents, afterNextEphemeralExtent) =>
            if fallback % blockSize ≠ 0 ∨ !fitsContainer fallback alignedTotal policy ∨
                overlapsUnavailable fallback alignedTotal policy then
              (none, originalFreeExtents, originalNextEphemeralExtent)
            else (some [⟨0, fallback, logicalSize⟩], afterFreeExtents, afterNextEphemeralExtent)

theorem allocateContiguousInPlace_eq (freeExtents : List Extent) (nextEphemeralExtent bytes : ℕ)
    (policy : AllocationPolicy) :
    allocateContiguousInPlace freeExtents nextEphemeralExtent bytes policy =
      match allocateContiguous freeExtents nextEphemeralExtent bytes policy with
      | none => (none, freeExtents, nextEphemeralExtent)
      | some allocation =>
        (some allocation.address, allocation.freeExtents, allocation.nextEphemeralExtent) := by
  rw [allocateContiguousInPlace, allocateContiguous]
  cases allocateContiguousFromFree freeExtents bytes policy with
  | some fromFree => rfl
  | none =>
    cases tailAddress nextEphemeralExtent bytes policy with
    | none => rfl
    | some current =>
      dsimp only
      cases removeAllocatedExtent freeExtents ⟨current, bytes⟩ with
      | mk done left =>
        cases done with
        | false => rfl
        | true => rfl

/-- **The list and the tail after a call.**  A refusal gives both back as they were. -/
theorem allocateFileExtentsInPlace_eq (freeExtents : List Extent)
    (nextEphemeralExtent logicalSize alignedTotal blockSize : ℕ) (policy : AllocationPolicy) :
    allocateFileExtentsInPlace freeExtents nextEphemeralExtent logicalSize alignedTotal blockSize
        policy =
      match allocateFileExtents freeExtents nextEphemeralExtent logicalSize alignedTotal blockSize
        policy with
      | none => (none, freeExtents, nextEphemeralExtent)
      | some allocation =>
        (some allocation.fileExtents, allocation.freeExtents, allocation.nextEphemeralExtent) := by
  rw [allocateFileExtentsInPlace, allocateFileExtents]
  split
  · rfl
  split
  · rfl
  split
  · rfl
  cases allocateContiguousFromFree freeExtents alignedTotal
      { policy with advancePastUnavailable := none } with
  | some contiguous => rfl
  | none =>
    cases planFileExtents freeExtents logicalSize blockSize policy with
    | none => rfl
    | some plan =>
      dsimp only
      split
      · cases removeAllocatedExtents freeExtents plan.allocatedPhysicalExtents with
        | mk done remaining =>
          cases done with
          | false => rfl
          | true => rfl
      · rw [allocateContiguousInPlace_eq]
        cases allocateContiguous freeExtents nextEphemeralExtent alignedTotal policy with
        | none => rfl
        | some fallback =>
          dsimp only
          split
          · rfl
          · rfl

/-! ## What a call gives -/

/-- File extents that tile a file, in usable blocks that do not overlap. -/
structure Placed (blockSize logicalSize : ℕ) (policy : AllocationPolicy)
    (fileExtents : List FileExtent) : Prop where
  tiles : Tiles 0 fileExtents logicalSize
  usable : ∀ extent ∈ fileExtents, Usable blockSize policy (extent.rounded blockSize)
  disjoint : (fileExtents.map (FileExtent.rounded blockSize)).Pairwise
    fun left right => Disjoint left.range right.range

/-- One file extent at the beginning of a usable range. -/
theorem placed_singleton {address logicalSize alignedTotal blockSize : ℕ}
    {policy : AllocationPolicy} (hsize : 0 < logicalSize) (hle : logicalSize ≤ alignedTotal)
    (hdvd : blockSize ∣ alignedTotal) (hblock : 0 < blockSize)
    (husable : Usable blockSize policy ⟨address, alignedTotal⟩) :
    Placed blockSize logicalSize policy [⟨0, address, logicalSize⟩] := by
  have hbound : address + alignedTotal ≤ uint64Max := husable.valid.bound
  have haligned : alignBytes logicalSize blockSize ≠ 0 :=
    alignBytes_ne_zero hsize hblock hdvd hle (by omega)
  have hrounded : alignBytes logicalSize blockSize ≤ alignedTotal := alignBytes_le hdvd hle
  refine ⟨⟨rfl, hsize, Nat.zero_add _⟩, ?_, List.pairwise_singleton _ _⟩
  intro extent hextent
  rw [List.mem_singleton.mp hextent]
  refine husable.of_begins ⟨rfl, Nat.pos_of_ne_zero haligned, ?_⟩ (alignBytes_spec haligned).1
  show address + alignBytes logicalSize blockSize ≤ address + alignedTotal
  omega

/-- What the call takes from the start of one free extent. -/
def cleanPrefix (freeExtents : List Extent) (alignedTotal : ℕ) (policy : AllocationPolicy) :
    Option FreeAllocation :=
  allocateContiguousFromFree freeExtents alignedTotal { policy with advancePastUnavailable := none }

theorem cleanPrefix_spec {freeExtents : List Extent} {alignedTotal blockSize : ℕ}
    {policy : AllocationPolicy} {contiguous : FreeAllocation} (hsorted : SortedValid freeExtents)
    (hblocks : ∀ extent ∈ freeExtents,
      blockSize ∣ extent.physicalAddress ∧ blockSize ∣ extent.bytes)
    (hdvd : blockSize ∣ alignedTotal)
    (h : cleanPrefix freeExtents alignedTotal policy = some contiguous) :
    Usable blockSize policy ⟨contiguous.address, alignedTotal⟩ ∧
      (⟨contiguous.address, alignedTotal⟩ : Extent).range ⊆ bytesOf freeExtents ∧
      bytesOf contiguous.freeExtents =
        bytesOf freeExtents \ (⟨contiguous.address, alignedTotal⟩ : Extent).range := by
  obtain ⟨extent, hextent, hbytes, haddress, -, hleft⟩ := allocateContiguousFromFree_cut hsorted h
  obtain ⟨hstart, hend, hclean, -⟩ := addressIn_spec haddress
  -- without a way to advance the address is the start of the extent
  have hsame : contiguous.address = extent.physicalAddress ∧
      fitsContainer extent.physicalAddress alignedTotal policy = true := by
    rw [addressIn] at haddress
    split at haddress
    · cases haddress
    split at haddress
    · cases haddress
    split at haddress
    · cases haddress
    split at haddress
    · cases haddress
    rename_i hfits
    split at haddress
    · cases haddress
    · have hthere : fitsContainer extent.physicalAddress alignedTotal
          { policy with advancePastUnavailable := none } = true := by simpa using hfits
      exact ⟨(Option.some.inj haddress).symm, hthere⟩
  obtain ⟨hsame, hfits⟩ := hsame
  refine ⟨?_, ?_, ?_⟩
  · rw [hsame] at hclean ⊢
    exact usable_of_checks (hblocks extent hextent).1 hdvd hfits hclean
  · rintro byte ⟨hlow, hhigh⟩
    exact ⟨extent, hextent, le_trans hstart hlow, lt_of_lt_of_le hhigh hend⟩
  · rw [hleft, ← hsame]
    rfl

/-- The runs of a free list hold no more than the largest length. -/
theorem totalBytes_cleanRuns_le {freeExtents : List Extent} (blockSize : ℕ)
    (policy : AllocationPolicy) (hsorted : SortedValid freeExtents) :
    totalBytes (freeExtents.flatMap (cleanRuns blockSize policy)) ≤ uint64Max := by
  obtain ⟨hordered, hruns⟩ := flatMap_cleanRuns_spec blockSize policy hsorted
  have htotal := @totalBytes_le _ 0 hordered
    (fun run hrun => by
      obtain ⟨_, _, hvalid, _⟩ := hruns run hrun
      exact hvalid)
    (fun run _ => Nat.zero_le _) (Nat.zero_le _)
  rwa [Nat.zero_add] at htotal

/-- What the loops choose can be given to the file, and is free. -/
theorem planFileExtents_placed {freeExtents : List Extent} {logicalSize blockSize : ℕ}
    {policy : AllocationPolicy} {plan : FilePlan} (hsorted : SortedValid freeExtents)
    (hblocks : ∀ extent ∈ freeExtents,
      blockSize ∣ extent.physicalAddress ∧ blockSize ∣ extent.bytes)
    (h : planFileExtents freeExtents logicalSize blockSize policy = some plan)
    (hdone : plan.remainingLogical = 0) :
    Placed blockSize logicalSize policy plan.fileExtents ∧
      ∀ extent ∈ plan.fileExtents, (extent.rounded blockSize).range ⊆ bytesOf freeExtents := by
  obtain ⟨⟨htiles, hplaced, hpieces⟩, -⟩ := planFileExtents_sound hsorted hblocks h
  obtain ⟨hordered, hbegins⟩ := planFileExtents_begins hsorted h
  obtain ⟨-, -, hinside⟩ := planFileExtents_spec hsorted h
  rw [hpieces] at hordered hbegins hinside
  refine ⟨⟨?_, fun extent hextent => ?_, hordered.pairwise_disjoint⟩, fun extent hextent => ?_⟩
  · rwa [← hplaced, hdone, Nat.add_zero]
  · obtain ⟨run, hrun, hpiece⟩ := hbegins _ (List.mem_map_of_mem hextent)
    have hwhole := (alignBytes_spec (Nat.pos_iff_ne_zero.mp hpiece.bytes)).1
    exact (cleanRuns_flatMap_spec hsorted hblocks run hrun).of_begins hpiece hwhole
  · exact hinside _ (List.mem_map_of_mem hextent)

/-- What covers the file passes the last check. -/
theorem planFileExtents_covers {freeExtents : List Extent} {logicalSize blockSize : ℕ}
    {policy : AllocationPolicy} {plan : FilePlan} (hsorted : SortedValid freeExtents)
    (hblocks : ∀ extent ∈ freeExtents,
      blockSize ∣ extent.physicalAddress ∧ blockSize ∣ extent.bytes)
    (h : planFileExtents freeExtents logicalSize blockSize policy = some plan)
    (hdone : plan.remainingLogical = 0) (hsize : 0 < logicalSize) :
    hasLogicalExtentCoverage plan.fileExtents logicalSize = true := by
  obtain ⟨hplaced, -⟩ := planFileExtents_placed hsorted hblocks h hdone
  obtain ⟨-, hremaining⟩ := planFileExtents_sound hsorted hblocks h
  have htotal := totalBytes_cleanRuns_le blockSize policy hsorted
  refine hplaced.tiles.hasLogicalExtentCoverage hsize (by omega) fun extent hextent => ?_
  exact Nat.pos_iff_ne_zero.mp (hplaced.usable extent hextent).valid.address

/-- The free extents that the call accepts. -/
theorem blocks_of_any_eq_false {freeExtents : List Extent} {blockSize : ℕ}
    (h : ¬ freeExtents.any (fun extent => extent.physicalAddress % blockSize ≠ 0 ∨
      extent.bytes % blockSize ≠ 0) = true) :
    ∀ extent ∈ freeExtents, blockSize ∣ extent.physicalAddress ∧ blockSize ∣ extent.bytes := by
  intro extent hextent
  have hnot := List.any_eq_false.mp (Bool.eq_false_iff.mpr h) extent hextent
  simp only [decide_eq_true_eq, not_or, not_not] at hnot
  exact ⟨Nat.dvd_of_mod_eq_zero hnot.1, Nat.dvd_of_mod_eq_zero hnot.2⟩

/-- What a call that succeeds does to the free list, by where the space is. -/
structure Taken (freeExtents : List Extent)
    (nextEphemeralExtent logicalSize alignedTotal blockSize : ℕ) (policy : AllocationPolicy)
    (fileExtents : List FileExtent) (afterFreeExtents : List Extent)
    (afterNextEphemeralExtent : ℕ) : Prop where
  /-- At the start of one free extent, which gives up the whole total. -/
  cleanPrefix : ∀ contiguous, cleanPrefix freeExtents alignedTotal policy = some contiguous →
    fileExtents = [⟨0, contiguous.address, logicalSize⟩] ∧
      (⟨contiguous.address, alignedTotal⟩ : Extent).range ⊆ bytesOf freeExtents ∧
      bytesOf afterFreeExtents =
        bytesOf freeExtents \ (⟨contiguous.address, alignedTotal⟩ : Extent).range ∧
      afterNextEphemeralExtent = nextEphemeralExtent
  /-- In pieces of several free extents. -/
  fragmented : ∀ plan, Allocator.cleanPrefix freeExtents alignedTotal policy = none →
    planFileExtents freeExtents logicalSize blockSize policy = some plan →
    plan.remainingLogical = 0 →
    fileExtents = plan.fileExtents ∧
      (∀ extent ∈ fileExtents, (extent.rounded blockSize).range ⊆ bytesOf freeExtents) ∧
      bytesOf afterFreeExtents =
        bytesOf freeExtents \ bytesOf (fileExtents.map (FileExtent.rounded blockSize)) ∧
      afterNextEphemeralExtent = nextEphemeralExtent

theorem allocateFileExtents_spec {freeExtents : List Extent}
    {nextEphemeralExtent logicalSize alignedTotal blockSize : ℕ} {policy : AllocationPolicy}
    {allocation : FileAllocation} (hsorted : SortedValid freeExtents) (hsize : 0 < logicalSize)
    (h : allocateFileExtents freeExtents nextEphemeralExtent logicalSize alignedTotal blockSize
      policy = some allocation) :
    Placed blockSize logicalSize policy allocation.fileExtents ∧
      Taken freeExtents nextEphemeralExtent logicalSize alignedTotal blockSize policy
        allocation.fileExtents allocation.freeExtents allocation.nextEphemeralExtent := by
  rw [allocateFileExtents, if_neg (by omega)] at h
  split at h
  · cases h
  rename_i hchecks
  push Not at hchecks
  obtain ⟨htotal, hblock, hwhole, hle⟩ := hchecks
  have hdvd : blockSize ∣ alignedTotal := Nat.dvd_of_mod_eq_zero hwhole
  have hblockPos : 0 < blockSize := Nat.pos_of_ne_zero hblock
  split at h
  · cases h
  rename_i hany
  have hblocks := blocks_of_any_eq_false hany
  split at h
  · -- the start of one extent
    rename_i contiguous hcontiguous
    cases h
    obtain ⟨husable, hinside, hbytes⟩ := cleanPrefix_spec hsorted hblocks hdvd hcontiguous
    refine ⟨placed_singleton hsize hle hdvd hblockPos husable, ⟨?_, ?_⟩⟩
    · intro other hother
      obtain rfl : contiguous = other := Option.some.inj (hcontiguous.symm.trans hother)
      exact ⟨rfl, hinside, hbytes, rfl⟩
    · intro plan hnone
      rw [cleanPrefix, hcontiguous] at hnone
      cases hnone
  rename_i hnone
  have hno : ∀ contiguous, cleanPrefix freeExtents alignedTotal policy ≠ some contiguous := by
    intro contiguous hsome
    rw [cleanPrefix, hnone] at hsome
    cases hsome
  split at h
  · cases h
  rename_i plan hplan
  split at h
  · -- pieces of several extents
    rename_i hdone
    obtain ⟨hplaced, hinside⟩ := planFileExtents_placed hsorted hblocks hplan hdone.1
    obtain ⟨⟨-, -, hpieces⟩, -⟩ := planFileExtents_sound hsorted hblocks hplan
    obtain ⟨-, hvalid, -⟩ := planFileExtents_spec hsorted hplan
    obtain ⟨remaining, hremaining, -, hbytes⟩ := removeAllocatedExtents_spec hsorted hvalid
    rw [hremaining] at h
    cases h
    refine ⟨hplaced, ⟨fun contiguous hsome => absurd hsome (hno contiguous), ?_⟩⟩
    rintro other - hother hfinished
    obtain rfl : plan = other := Option.some.inj (hplan.symm.trans hother)
    exact ⟨rfl, hinside, by rw [hbytes, hpieces], rfl⟩
  · -- past the tail, or by advancing inside an extent
    rename_i hnotDone
    split at h
    · cases h
    rename_i fallback hfallback
    split at h
    · cases h
    rename_i hfinal
    cases h
    push Not at hfinal
    obtain ⟨haddress, hfits, hclean⟩ := hfinal
    have husable : Usable blockSize policy ⟨fallback.address, alignedTotal⟩ :=
      usable_of_checks (Nat.dvd_of_mod_eq_zero haddress) hdvd (by simpa using hfits)
        (by simpa using hclean)
    refine ⟨placed_singleton hsize hle hdvd hblockPos husable,
      ⟨fun contiguous hsome => absurd hsome (hno contiguous), ?_⟩⟩
    rintro other - hother hfinished
    obtain rfl : plan = other := Option.some.inj (hplan.symm.trans hother)
    exact absurd ⟨hfinished, planFileExtents_covers hsorted hblocks hplan hfinished hsize⟩ hnotDone

/-- **The contract of `AllocateFileExtents`.**  A refusal changes neither the list nor the tail.
Otherwise the file extents tile the file in usable blocks; the list loses the blocks taken from the
start of one free extent or in pieces of several, and an empty file takes nothing. -/
theorem allocateFileExtentsInPlace_contract (freeExtents : List Extent)
    (nextEphemeralExtent logicalSize alignedTotal blockSize : ℕ) (policy : AllocationPolicy)
    (hsorted : isSortedAndValid freeExtents = true) :
    match allocateFileExtentsInPlace freeExtents nextEphemeralExtent logicalSize alignedTotal
      blockSize policy with
    | (none, afterFreeExtents, afterNextEphemeralExtent) =>
      afterFreeExtents = freeExtents ∧ afterNextEphemeralExtent = nextEphemeralExtent
    | (some fileExtents, afterFreeExtents, afterNextEphemeralExtent) =>
      Placed blockSize logicalSize policy fileExtents ∧
      if logicalSize = 0 then
        fileExtents = [] ∧ afterFreeExtents = freeExtents ∧
          afterNextEphemeralExtent = nextEphemeralExtent
      else
        Taken freeExtents nextEphemeralExtent logicalSize alignedTotal blockSize policy fileExtents
          afterFreeExtents afterNextEphemeralExtent := by
  rw [allocateFileExtentsInPlace_eq]
  cases hcall : allocateFileExtents freeExtents nextEphemeralExtent logicalSize alignedTotal
    blockSize policy with
  | none => exact ⟨rfl, rfl⟩
  | some allocation =>
    dsimp only
    split
    · rename_i hzero
      rw [allocateFileExtents, if_pos hzero] at hcall
      cases hcall
      exact ⟨⟨hzero.symm, by simp, List.Pairwise.nil⟩, rfl, rfl, rfl⟩
    · rename_i hsize
      exact allocateFileExtents_spec (isSortedAndValid_iff.mp hsorted)
        (Nat.pos_of_ne_zero hsize) hcall

/-- A file in two pieces of a free list. -/
theorem allocateFileExtentsInPlace_contract_pieces :
    Placed 4096 10000 {} [⟨0, 4096, 4096⟩, ⟨4096, 16384, 5904⟩] ∧
      Taken [⟨4096, 4096⟩, ⟨16384, 8192⟩] 40960 10000 12288 4096 {}
        [⟨0, 4096, 4096⟩, ⟨4096, 16384, 5904⟩] [] 40960 := by
  have hcontract := allocateFileExtentsInPlace_contract [⟨4096, 4096⟩, ⟨16384, 8192⟩] 40960 10000
    12288 4096 {} (by decide)
  have hcall : allocateFileExtentsInPlace [⟨4096, 4096⟩, ⟨16384, 8192⟩] 40960 10000 12288 4096 {} =
      (some [⟨0, 4096, 4096⟩, ⟨4096, 16384, 5904⟩], [], 40960) := by decide +kernel
  rw [hcall] at hcontract
  exact hcontract

end Allocator
end ApfsAccess
