import ApfsAccess.Allocator.Contiguous

/-!
# Allocating the extents of a file

`AllocateFileExtents` tries one free extent, then pieces of several, then the tail.  The pieces
are the clean runs of the free extents: a whole extent, or the parts between what is unavailable,
found by asking the policy block by block and by a binary search for the end of a run.

* `cleanRuns_spec` : the clean runs of an extent are parts of it, in order.
* `planFileExtents_spec` : the pieces chosen are parts of different runs.
* `takes_allocateFileExtents` : the extents taken are disjoint, and the call is an allocation of
  their bytes.
-/

namespace ApfsAccess
namespace Allocator

/-- `ExtentAllocator::FileExtent`. -/
structure FileExtent where
  logicalOffset : ℕ
  physicalAddress : ℕ
  bytes : ℕ
  deriving DecidableEq, Repr

/-- `AlignBytes`. -/
def alignBytes (bytes blockSize : ℕ) : ℕ :=
  if bytes = 0 ∨ blockSize = 0 then 0
  else
    let aligned := max bytes blockSize
    let remainder := aligned % blockSize
    if remainder = 0 then aligned
    else if uint64Max - (blockSize - remainder) < aligned then 0
    else aligned + (blockSize - remainder)

/-- The loop of `HasLogicalExtentCoverage`. -/
def coversFrom (logicalSize : ℕ) : ℕ → List FileExtent → Bool
  | _, [] => false
  | coveredUntil, extent :: rest =>
    if extent.bytes = 0 ∨ extent.physicalAddress = 0 ∨ extent.logicalOffset ≠ coveredUntil ∨
        uint64Max - extent.bytes < extent.logicalOffset then false
    else if logicalSize ≤ extent.logicalOffset + extent.bytes then true
    else coversFrom logicalSize (extent.logicalOffset + extent.bytes) rest

/-- `HasLogicalExtentCoverage`. -/
def hasLogicalExtentCoverage (extents : List FileExtent) (logicalSize : ℕ) : Bool :=
  if logicalSize = 0 then extents.isEmpty else coversFrom logicalSize 0 extents

/-- `IsCleanWholeExtent`. -/
def isCleanWholeExtent (extent : Extent) (policy : AllocationPolicy) : Bool :=
  (rangeEnd extent.physicalAddress extent.bytes).isSome &&
    fitsContainer extent.physicalAddress extent.bytes policy &&
    !overlapsUnavailable extent.physicalAddress extent.bytes policy

/-! ## Clean runs -/

/-- The middle of the binary search, in whole blocks. -/
def middle (blockSize low high : ℕ) : ℕ :=
  (low / blockSize + (high / blockSize - low / blockSize) / 2) * blockSize

theorem low_lt_middle_add {blockSize : ℕ} (hblock : 0 < blockSize) (low high : ℕ) :
    low < middle blockSize low high + blockSize := by
  have hmod := Nat.div_add_mod low blockSize
  have hlt := Nat.mod_lt low hblock
  have hle : blockSize * (low / blockSize) ≤ middle blockSize low high := by
    unfold middle
    rw [Nat.mul_comm]
    exact Nat.mul_le_mul_right _ (Nat.le_add_right _ _)
  omega

theorem middle_le {blockSize low high : ℕ} (hle : low ≤ high) :
    middle blockSize low high ≤ high := by
  have hdiv : low / blockSize ≤ high / blockSize := Nat.div_le_div_right hle
  calc middle blockSize low high ≤ high / blockSize * blockSize := by
        unfold middle
        exact Nat.mul_le_mul_right _ (by omega)
    _ ≤ high := Nat.div_mul_le_self high blockSize

/-- The binary search for the length of a clean run at `curr`. -/
def cleanLength {blockSize : ℕ} (hblock : 0 < blockSize) (policy : AllocationPolicy) (curr : ℕ)
    (low high cleanLen : ℕ) : ℕ :=
  if _hle : low ≤ high then
    let mid := middle blockSize low high
    if !overlapsUnavailable curr mid policy then
      cleanLength hblock policy curr (mid + blockSize) high mid
    else if _hfirst : mid ≤ blockSize then cleanLen
    else cleanLength hblock policy curr low (mid - blockSize) cleanLen
  else cleanLen
termination_by high + 1 - low
decreasing_by
  · have := low_lt_middle_add hblock low high
    omega
  · have := @middle_le blockSize low high _hle
    omega

/-- A clean run has whole blocks, at least one, and stays in the room it was looked for in. -/
theorem cleanLength_spec {blockSize room : ℕ} (hblock : 0 < blockSize) (policy : AllocationPolicy)
    (curr low high cleanLen : ℕ) (hlow : blockSize ≤ low) (hhigh : high ≤ room)
    (hclean : blockSize ≤ cleanLen) (hroom : cleanLen ≤ room) (hdvd : blockSize ∣ cleanLen) :
    blockSize ≤ cleanLength hblock policy curr low high cleanLen ∧
      cleanLength hblock policy curr low high cleanLen ≤ room ∧
      blockSize ∣ cleanLength hblock policy curr low high cleanLen := by
  fun_induction cleanLength hblock policy curr low high cleanLen with
  | case1 low high cleanLen hle mid hfree ih =>
    have hmid : blockSize ≤ mid := by
      have hone : 1 ≤ low / blockSize := (Nat.one_le_div_iff hblock).mpr hlow
      calc blockSize = 1 * blockSize := (Nat.one_mul _).symm
        _ ≤ mid := Nat.mul_le_mul_right _ (by omega)
    exact ih (by omega) hhigh hmid (le_trans (middle_le hle) hhigh) (Nat.dvd_mul_left _ _)
  | case2 => exact ⟨hclean, hroom, hdvd⟩
  | case3 low high cleanLen hle mid hused hfirst ih =>
    have hmid : mid ≤ high := middle_le hle
    exact ih hlow (by omega) hclean hroom hdvd
  | case4 => exact ⟨hclean, hroom, hdvd⟩

/-- The block-by-block loop of `ExtractCleanSubExtents`. -/
def cleanRunsFrom {blockSize : ℕ} (hblock : 0 < blockSize) (policy : AllocationPolicy)
    (advance : ℕ → ℕ → Option ℕ) (extentEnd curr : ℕ) : List Extent :=
  if _hcurr : curr < extentEnd then
    if overlapsUnavailable curr blockSize policy then
      match advance curr blockSize with
      | none => []
      | some advanced =>
        if _hstop : advanced ≤ curr ∨ extentEnd ≤ advanced ∨ advanced % blockSize ≠ 0 then []
        else cleanRunsFrom hblock policy advance extentEnd advanced
    else if !overlapsUnavailable curr (extentEnd - curr) policy then [⟨curr, extentEnd - curr⟩]
    else
      let cleanLen := cleanLength hblock policy curr blockSize (extentEnd - curr) blockSize
      ⟨curr, cleanLen⟩ :: cleanRunsFrom hblock policy advance extentEnd (curr + cleanLen)
  else []
termination_by extentEnd - curr
decreasing_by
  · omega
  · have hlen := (@cleanLength_spec blockSize (max blockSize (extentEnd - curr)) hblock policy curr
      blockSize (extentEnd - curr) blockSize (le_refl _) (le_max_right _ _) (le_refl _)
      (le_max_left _ _) (dvd_refl _)).1
    omega

/-- `ExtractCleanSubExtents`. -/
def extractCleanSubExtents (extent : Extent) (blockSize : ℕ) (policy : AllocationPolicy) :
    List Extent :=
  if hblock : blockSize = 0 then []
  else if extent.physicalAddress % blockSize ≠ 0 ∨ extent.bytes % blockSize ≠ 0 then []
  else
    match rangeEnd extent.physicalAddress extent.bytes with
    | none => []
    | some extentEnd =>
      if !fitsContainer extent.physicalAddress extent.bytes policy then []
      else if !overlapsUnavailable extent.physicalAddress extent.bytes policy then [extent]
      else
        match policy.advancePastUnavailable with
        | none => []
        | some advance =>
          cleanRunsFrom (Nat.pos_of_ne_zero hblock) policy advance extentEnd extent.physicalAddress

/-- The runs that `AllocateFileExtents` takes from a free extent. -/
def cleanRuns (blockSize : ℕ) (policy : AllocationPolicy) (extent : Extent) : List Extent :=
  if isCleanWholeExtent extent policy then [extent]
  else if policy.advancePastUnavailable.isSome then extractCleanSubExtents extent blockSize policy
  else []

/-- Extents in order that may touch. -/
def InOrder (extents : List Extent) : Prop :=
  extents.Pairwise fun left right => left.finish ≤ right.physicalAddress

theorem cleanRunsFrom_spec {blockSize extentEnd curr : ℕ} (hblock : 0 < blockSize)
    (policy : AllocationPolicy) (advance : ℕ → ℕ → Option ℕ) (hpos : 0 < curr)
    (hbound : extentEnd ≤ uint64Max) (hcurr : blockSize ∣ curr) (hend : blockSize ∣ extentEnd) :
    InOrder (cleanRunsFrom hblock policy advance extentEnd curr) ∧
      ∀ run ∈ cleanRunsFrom hblock policy advance extentEnd curr,
        run.Valid ∧ curr ≤ run.physicalAddress ∧ run.finish ≤ extentEnd := by
  fun_induction cleanRunsFrom hblock policy advance extentEnd curr with
  | case1 => exact ⟨List.Pairwise.nil, by simp⟩
  | case2 => exact ⟨List.Pairwise.nil, by simp⟩
  | case3 curr hlt hused advanced hadvanced hstop ih =>
    push Not at hstop
    obtain ⟨hlater, hbefore, hwhole⟩ := hstop
    obtain ⟨hordered, hruns⟩ := ih (by omega) (Nat.dvd_of_mod_eq_zero hwhole)
    refine ⟨hordered, fun run hrun => ?_⟩
    obtain ⟨hvalid, hstart, hfin⟩ := hruns run hrun
    exact ⟨hvalid, by omega, hfin⟩
  | case4 curr hlt hused hclean =>
    have hfinish : (⟨curr, extentEnd - curr⟩ : Extent).finish = extentEnd := by
      unfold Extent.finish
      dsimp only
      omega
    refine ⟨List.pairwise_singleton _ _, fun run hrun => ?_⟩
    rw [List.mem_singleton.mp hrun]
    exact ⟨⟨hpos, by dsimp only; omega, by omega⟩, le_refl _, hfinish.le⟩
  | case5 curr hlt hused hclean cleanLen ih =>
    -- both ends are on a block, so that at least one block is left
    have hroom : blockSize ≤ extentEnd - curr :=
      Nat.le_of_dvd (by omega) (Nat.dvd_sub hend hcurr)
    obtain ⟨hlen, hinside, hdvd⟩ := @cleanLength_spec blockSize (extentEnd - curr) hblock policy
      curr blockSize (extentEnd - curr) blockSize (le_refl _) (le_refl _) (le_refl _) hroom
      (dvd_refl _)
    obtain ⟨hordered, hruns⟩ := ih (by omega) (Nat.dvd_add hcurr hdvd)
    refine ⟨List.pairwise_cons.mpr ⟨fun run hrun => (hruns run hrun).2.1, hordered⟩, ?_⟩
    refine List.forall_mem_cons.mpr ⟨⟨⟨hpos, ?_, ?_⟩, le_refl _, ?_⟩, fun run hrun => ?_⟩
    · dsimp only
      omega
    · unfold Extent.finish
      dsimp only
      omega
    · unfold Extent.finish
      dsimp only
      omega
    · obtain ⟨hvalid, hstart, hfin⟩ := hruns run hrun
      exact ⟨hvalid, by omega, hfin⟩
  | case6 => exact ⟨List.Pairwise.nil, by simp⟩

/-- **The clean runs of an extent are parts of it, in order.** -/
theorem cleanRuns_spec {blockSize : ℕ} {policy : AllocationPolicy} {extent : Extent}
    (hvalid : extent.Valid) :
    InOrder (cleanRuns blockSize policy extent) ∧
      ∀ run ∈ cleanRuns blockSize policy extent,
        run.Valid ∧ extent.physicalAddress ≤ run.physicalAddress ∧ run.finish ≤ extent.finish := by
  have hwhole : InOrder [extent] ∧ ∀ run ∈ [extent],
      run.Valid ∧ extent.physicalAddress ≤ run.physicalAddress ∧ run.finish ≤ extent.finish := by
    refine ⟨List.pairwise_singleton _ _, fun run hrun => ?_⟩
    rw [List.mem_singleton.mp hrun]
    exact ⟨hvalid, le_refl _, le_refl _⟩
  have hnone : InOrder [] ∧ ∀ run ∈ ([] : List Extent),
      run.Valid ∧ extent.physicalAddress ≤ run.physicalAddress ∧ run.finish ≤ extent.finish :=
    ⟨List.Pairwise.nil, by simp⟩
  unfold cleanRuns
  split
  · exact hwhole
  split
  · unfold extractCleanSubExtents
    split
    · exact hnone
    rename_i hblock
    split
    · exact hnone
    rename_i haligned
    push Not at haligned
    rw [hvalid.rangeEnd]
    dsimp only
    split
    · exact hnone
    split
    · exact hwhole
    split
    · exact hnone
    · exact cleanRunsFrom_spec _ policy _ hvalid.address hvalid.bound
        (Nat.dvd_of_mod_eq_zero haligned.1)
        (Nat.dvd_add (Nat.dvd_of_mod_eq_zero haligned.1) (Nat.dvd_of_mod_eq_zero haligned.2))
  · exact hnone

/-! ## Choosing the pieces -/

/-- The locals of `AllocateFileExtents` while it goes over the clean runs. -/
structure FilePlan where
  fileExtents : List FileExtent
  allocatedPhysicalExtents : List Extent
  logicalOffset : ℕ
  remainingLogical : ℕ
  deriving DecidableEq, Repr

/-- One clean run; `none` is the early return. -/
def takeRun (blockSize : ℕ) (plan : FilePlan) (run : Extent) : Option FilePlan :=
  -- with nothing left to place both loops end
  if plan.remainingLogical = 0 then some plan
  else
    let remainingAligned := alignBytes plan.remainingLogical blockSize
    if remainingAligned = 0 then none
    else
      let allocationBytes := min run.bytes remainingAligned
      let logicalBytes := min plan.remainingLogical allocationBytes
      if logicalBytes = 0 ∨ uint64Max - allocationBytes < run.physicalAddress then none
      else some {
        fileExtents := plan.fileExtents ++ [⟨plan.logicalOffset, run.physicalAddress, logicalBytes⟩]
        allocatedPhysicalExtents :=
          plan.allocatedPhysicalExtents ++ [⟨run.physicalAddress, allocationBytes⟩]
        logicalOffset := plan.logicalOffset + logicalBytes
        remainingLogical := plan.remainingLogical - logicalBytes }

/-- The loops of `AllocateFileExtents` over the free extents and their clean runs. -/
def planFileExtents (freeExtents : List Extent) (logicalSize blockSize : ℕ)
    (policy : AllocationPolicy) : Option FilePlan :=
  (freeExtents.flatMap (cleanRuns blockSize policy)).foldlM (takeRun blockSize)
    ⟨[], [], 0, logicalSize⟩

/-- What `AllocateFileExtents` leaves; `allocated` records the space that was taken. -/
structure FileAllocation where
  fileExtents : List FileExtent
  allocated : List Extent
  freeExtents : List Extent
  nextEphemeralExtent : ℕ
  deriving DecidableEq, Repr

/-- `ExtentAllocator::AllocateFileExtents`; on failure the list and the tail stay. -/
def allocateFileExtents (freeExtents : List Extent)
    (nextEphemeralExtent logicalSize alignedTotal blockSize : ℕ) (policy : AllocationPolicy) :
    Option FileAllocation :=
  if logicalSize = 0 then some ⟨[], [], freeExtents, nextEphemeralExtent⟩
  else if alignedTotal = 0 ∨ blockSize = 0 ∨ alignedTotal % blockSize ≠ 0 ∨
      alignedTotal < logicalSize then none
  else if freeExtents.any (fun extent => extent.physicalAddress % blockSize ≠ 0 ∨
      extent.bytes % blockSize ≠ 0) then none
  else
    match allocateContiguousFromFree freeExtents alignedTotal
        { policy with advancePastUnavailable := none } with
    | some contiguous => some ⟨[⟨0, contiguous.address, logicalSize⟩],
        [⟨contiguous.address, alignedTotal⟩], contiguous.freeExtents, nextEphemeralExtent⟩
    | none =>
      match planFileExtents freeExtents logicalSize blockSize policy with
      | none => none
      | some plan =>
        if plan.remainingLogical = 0 ∧ hasLogicalExtentCoverage plan.fileExtents logicalSize then
          match removeAllocatedExtents freeExtents plan.allocatedPhysicalExtents with
          | (false, _) => none
          | (true, remaining) => some ⟨plan.fileExtents, plan.allocatedPhysicalExtents, remaining,
              nextEphemeralExtent⟩
        else
          match allocateContiguous freeExtents nextEphemeralExtent alignedTotal policy with
          | none => none
          | some fallback =>
            if fallback.address % blockSize ≠ 0 ∨
                !fitsContainer fallback.address alignedTotal policy ∨
                overlapsUnavailable fallback.address alignedTotal policy then none
            else some ⟨[⟨0, fallback.address, logicalSize⟩], [⟨fallback.address, alignedTotal⟩],
              fallback.freeExtents, fallback.nextEphemeralExtent⟩

/-- An extent that is the beginning of another. -/
structure BeginsRun (piece run : Extent) : Prop where
  address : piece.physicalAddress = run.physicalAddress
  bytes : 0 < piece.bytes
  inside : piece.finish ≤ run.finish

theorem BeginsRun.valid {piece run : Extent} (h : BeginsRun piece run) (hrun : run.Valid) :
    piece.Valid :=
  ⟨h.address ▸ hrun.address, h.bytes, le_trans h.inside hrun.bound⟩

theorem takeRun_spec {blockSize : ℕ} {plan after : FilePlan} {run : Extent} (hrun : run.Valid)
    (h : takeRun blockSize plan run = some after) :
    after.allocatedPhysicalExtents = plan.allocatedPhysicalExtents ∨
      ∃ piece, BeginsRun piece run ∧
        after.allocatedPhysicalExtents = plan.allocatedPhysicalExtents ++ [piece] := by
  unfold takeRun at h
  split at h
  · cases h
    exact Or.inl rfl
  dsimp only at h
  split at h
  · cases h
  rename_i haligned
  split at h
  · cases h
  · rename_i hchecks
    cases h
    have hbytes := hrun.bytes
    refine Or.inr ⟨⟨run.physicalAddress,
      min run.bytes (alignBytes plan.remainingLogical blockSize)⟩, ⟨rfl, ?_, ?_⟩, rfl⟩
    · dsimp only
      omega
    · unfold Extent.finish
      dsimp only
      omega

/-- Every run of the loop begins at most one piece, and the pieces keep the order of the runs. -/
theorem foldlM_takeRun_spec {blockSize : ℕ} {runs : List Extent} {plan after : FilePlan}
    (hruns : ∀ run ∈ runs, run.Valid) (hordered : InOrder runs)
    (h : runs.foldlM (takeRun blockSize) plan = some after) :
    ∃ pieces, after.allocatedPhysicalExtents = plan.allocatedPhysicalExtents ++ pieces ∧
      InOrder pieces ∧ ∀ piece ∈ pieces, ∃ run ∈ runs, BeginsRun piece run := by
  induction runs generalizing plan with
  | nil =>
    cases h
    exact ⟨[], (List.append_nil _).symm, List.Pairwise.nil, by simp⟩
  | cons run rest ih =>
    obtain ⟨hrun, hrest⟩ := List.forall_mem_cons.mp hruns
    obtain ⟨hnext, hlater⟩ := List.pairwise_cons.mp hordered
    rw [List.foldlM_cons] at h
    obtain ⟨middle, hmiddle, hafter⟩ := Option.bind_eq_some_iff.mp h
    obtain ⟨pieces, hpieces, hpiecesOrdered, hbegin⟩ := ih hrest hlater hafter
    have hothers : ∀ piece ∈ pieces, ∃ other ∈ run :: rest, BeginsRun piece other := by
      intro piece hpiece
      obtain ⟨other, hother, hbegins⟩ := hbegin piece hpiece
      exact ⟨other, List.mem_cons_of_mem _ hother, hbegins⟩
    rcases takeRun_spec hrun hmiddle with hsame | ⟨first, hfirst, hadded⟩
    · exact ⟨pieces, by rw [hpieces, hsame], hpiecesOrdered, hothers⟩
    · refine ⟨first :: pieces, by rw [hpieces, hadded]; simp, ?_, ?_⟩
      · refine List.pairwise_cons.mpr ⟨fun piece hpiece => ?_, hpiecesOrdered⟩
        obtain ⟨other, hother, hbegins⟩ := hbegin piece hpiece
        rw [hbegins.address]
        exact le_trans hfirst.inside (hnext other hother)
      · exact List.forall_mem_cons.mpr ⟨⟨run, List.mem_cons_self, hfirst⟩, hothers⟩

/-- The runs that the loops go over: parts of free extents, in order. -/
theorem flatMap_cleanRuns_spec {freeExtents : List Extent} (blockSize : ℕ)
    (policy : AllocationPolicy) (hsorted : SortedValid freeExtents) :
    InOrder (freeExtents.flatMap (cleanRuns blockSize policy)) ∧
      ∀ run ∈ freeExtents.flatMap (cleanRuns blockSize policy),
        ∃ extent ∈ freeExtents, run.Valid ∧ extent.physicalAddress ≤ run.physicalAddress ∧
          run.finish ≤ extent.finish := by
  constructor
  · refine List.pairwise_flatMap.mpr ⟨fun extent hextent =>
      (cleanRuns_spec (hsorted.valid extent hextent)).1, ?_⟩
    refine hsorted.apart.imp_of_mem fun {left right} hleft hright hapart => ?_
    intro run hrun other hother
    have hfin := ((cleanRuns_spec (hsorted.valid left hleft)).2 run hrun).2.2
    have hstart := ((cleanRuns_spec (hsorted.valid right hright)).2 other hother).2.1
    omega
  · intro run hrun
    obtain ⟨extent, hextent, hmem⟩ := List.mem_flatMap.mp hrun
    exact ⟨extent, hextent, (cleanRuns_spec (hsorted.valid extent hextent)).2 run hmem⟩

/-- Every piece chosen begins a run, and the pieces are in order. -/
theorem planFileExtents_begins {freeExtents : List Extent} {logicalSize blockSize : ℕ}
    {policy : AllocationPolicy} {plan : FilePlan} (hsorted : SortedValid freeExtents)
    (h : planFileExtents freeExtents logicalSize blockSize policy = some plan) :
    InOrder plan.allocatedPhysicalExtents ∧ ∀ piece ∈ plan.allocatedPhysicalExtents,
      ∃ run ∈ freeExtents.flatMap (cleanRuns blockSize policy), BeginsRun piece run := by
  obtain ⟨hordered, hruns⟩ := flatMap_cleanRuns_spec blockSize policy hsorted
  obtain ⟨pieces, hpieces, hpiecesOrdered, hbegin⟩ := foldlM_takeRun_spec
    (fun run hrun => by
      obtain ⟨_, _, hvalid, _⟩ := hruns run hrun
      exact hvalid) hordered h
  rw [List.nil_append] at hpieces
  rw [hpieces]
  exact ⟨hpiecesOrdered, hbegin⟩

/-- **The pieces chosen are valid parts of the free list, in order.** -/
theorem planFileExtents_spec {freeExtents : List Extent} {logicalSize blockSize : ℕ}
    {policy : AllocationPolicy} {plan : FilePlan} (hsorted : SortedValid freeExtents)
    (h : planFileExtents freeExtents logicalSize blockSize policy = some plan) :
    InOrder plan.allocatedPhysicalExtents ∧
      (∀ piece ∈ plan.allocatedPhysicalExtents, piece.Valid) ∧
      ∀ piece ∈ plan.allocatedPhysicalExtents, piece.range ⊆ bytesOf freeExtents := by
  obtain ⟨-, hruns⟩ := flatMap_cleanRuns_spec blockSize policy hsorted
  obtain ⟨hordered, hbegin⟩ := planFileExtents_begins hsorted h
  refine ⟨hordered, fun piece hpiece => ?_, ?_⟩
  · obtain ⟨run, hrun, hbegins⟩ := hbegin piece hpiece
    obtain ⟨_, _, hvalid, _⟩ := hruns run hrun
    exact hbegins.valid hvalid
  · rintro piece hpiece byte ⟨hlow, hhigh⟩
    obtain ⟨run, hrun, hbegins⟩ := hbegin piece hpiece
    obtain ⟨extent, hextent, -, hstart, hfin⟩ := hruns run hrun
    refine ⟨extent, hextent, ?_, ?_⟩
    · rw [hbegins.address] at hlow
      omega
    · have := hbegins.inside
      omega

/-- Extents inside a set of bytes. -/
theorem bytesOf_subset {extents : List Extent} {bytes : Set ℕ}
    (h : ∀ extent ∈ extents, extent.range ⊆ bytes) : bytesOf extents ⊆ bytes := by
  rintro byte ⟨extent, hextent, hinside⟩
  exact h extent hextent hinside

theorem InOrder.pairwise_disjoint {extents : List Extent} (h : InOrder extents) :
    extents.Pairwise fun left right => Disjoint left.range right.range := by
  refine h.imp fun {left right} hle => ?_
  rw [Set.disjoint_left]
  intro byte hleft hright
  have hhigh := hleft.2
  have hlow := hright.1
  omega

theorem bytesOf_singleton (extent : Extent) : bytesOf [extent] = extent.range := by
  rw [bytesOf_cons, bytesOf_nil, Set.union_empty]

/-- **A file allocation takes the disjoint extents it records.** -/
theorem takes_allocateFileExtents {space : Space} {logicalSize alignedTotal blockSize : ℕ}
    {policy : AllocationPolicy} {allocation : FileAllocation}
    (h : allocateFileExtents space.freeExtents space.nextEphemeralExtent logicalSize alignedTotal
      blockSize policy = some allocation) :
    allocation.allocated.Pairwise (fun left right => Disjoint left.range right.range) ∧
      ∃ after : Space, after.freeExtents = allocation.freeExtents ∧
        after.nextEphemeralExtent = allocation.nextEphemeralExtent ∧
        Takes space (bytesOf allocation.allocated) after := by
  unfold allocateFileExtents at h
  split at h
  · cases h
    refine ⟨List.Pairwise.nil, space, rfl, rfl, ?_, ?_, le_refl _, ?_⟩
    · rw [bytesOf_nil, Set.sdiff_empty]
    · rw [bytesOf_nil]
      exact Set.empty_subset _
    · rw [bytesOf_nil]
      exact Set.empty_subset _
  split at h
  · cases h
  split at h
  · cases h
  split at h
  · rename_i contiguous hcontiguous
    cases h
    refine ⟨List.pairwise_singleton _ _, ?_⟩
    rw [bytesOf_singleton]
    -- the same call through `AllocateContiguous`
    exact @takes_allocateContiguous space alignedTotal { policy with advancePastUnavailable := none }
      { contiguous with nextEphemeralExtent := space.nextEphemeralExtent }
      (by rw [allocateContiguous, hcontiguous])
  · split at h
    · cases h
    rename_i plan hplan
    obtain ⟨hordered, hvalid, hpieces⟩ := planFileExtents_spec space.sorted hplan
    have hinside := bytesOf_subset hpieces
    split at h
    · obtain ⟨adjusted, hadjusted, hsorted, hbytes⟩ :=
        removeAllocatedExtents_spec space.sorted hvalid
      rw [hadjusted] at h
      cases h
      have hsubset : bytesOf adjusted ⊆ bytesOf space.freeExtents := by
        rw [hbytes]
        exact Set.sdiff_subset
      refine ⟨hordered.pairwise_disjoint, ⟨adjusted, space.nextEphemeralExtent, hsorted,
        space.below_of_subset hsorted.valid hsubset⟩, rfl, rfl, hbytes.le, ?_, le_refl _, ?_⟩
      · exact hinside.trans Set.subset_union_left
      · exact fun byte hbyte => space.bytesOf_lt (hinside hbyte)
    · split at h
      · cases h
      rename_i fallback hfallback
      split at h
      · cases h
      · cases h
        refine ⟨List.pairwise_singleton _ _, ?_⟩
        rw [bytesOf_singleton]
        exact takes_allocateContiguous hfallback

end Allocator
end ApfsAccess
