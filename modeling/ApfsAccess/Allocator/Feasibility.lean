import ApfsAccess.Allocator.FileAllocation

/-!
# Asking whether a file would fit

`CanAllocateFromFragmentedFreeExtents` counts the bytes of the clean runs and answers as soon as
there are enough.  An extent that is not on whole blocks makes it answer no, as it makes
`AllocateFileExtents` refuse, but the allocator looks at all the extents before it takes any.

* `canAllocateFromFragmentedFreeExtents_iff` : the runs before the first extent that is off the
  blocks are what is counted.
* `canAllocate_sound_iff` : a yes is kept exactly when every extent is on whole blocks, or those
  before the first that is not are too few.
-/

namespace ApfsAccess
namespace Allocator

/-- One more range that can be used; an error is an early return. -/
def addAvailable (alignedTotal available bytes : ℕ) : Except Bool ℕ :=
  if uint64Max - bytes < available then .error false
  else if alignedTotal ≤ available + bytes then .error true
  else .ok (available + bytes)

/-- The body of the loop of `CanAllocateFromFragmentedFreeExtents`. -/
def countExtent (alignedTotal blockSize : ℕ) (policy : AllocationPolicy) (available : ℕ)
    (extent : Extent) : Except Bool ℕ :=
  if extent.physicalAddress % blockSize ≠ 0 ∨ extent.bytes % blockSize ≠ 0 then .error false
  else if isCleanWholeExtent extent policy then addAvailable alignedTotal available extent.bytes
  else if policy.advancePastUnavailable.isSome then
    (extractCleanSubExtents extent blockSize policy).foldlM
      (fun available run => addAvailable alignedTotal available run.bytes) available
  else .ok available

/-- `ExtentAllocator::CanAllocateFromFragmentedFreeExtents`. -/
def canAllocateFromFragmentedFreeExtents (freeExtents : List Extent) (alignedTotal : ℕ)
    (policy : AllocationPolicy) (blockSize : ℕ) : Bool :=
  if alignedTotal = 0 ∨ blockSize = 0 ∨ alignedTotal % blockSize ≠ 0 then false
  else
    match freeExtents.foldlM (countExtent alignedTotal blockSize policy) 0 with
    | .error answer => answer
    | .ok _ => false

/-- An extent on whole blocks. -/
def Extent.onBlocks (blockSize : ℕ) (extent : Extent) : Bool :=
  extent.physicalAddress % blockSize = 0 ∧ extent.bytes % blockSize = 0

/-- The bytes of the clean runs of some extents. -/
def cleanBytes (blockSize : ℕ) (policy : AllocationPolicy) (extents : List Extent) : ℕ :=
  totalBytes (extents.flatMap (cleanRuns blockSize policy))

/-! ## Counting -/

/-- Counting clean runs that do not overflow: enough of them end the loop, otherwise they add up. -/
theorem foldlM_addAvailable {alignedTotal available : ℕ} {runs : List Extent}
    (hfew : available < alignedTotal) (hfits : available + totalBytes runs ≤ uint64Max) :
    runs.foldlM (fun available run => addAvailable alignedTotal available run.bytes) available =
      if alignedTotal ≤ available + totalBytes runs then .error true
      else .ok (available + totalBytes runs) := by
  induction runs generalizing available with
  | nil =>
    rw [totalBytes_nil, Nat.add_zero, if_neg (by omega)]
    rfl
  | cons run rest ih =>
    rw [totalBytes_cons] at hfits ⊢
    rw [List.foldlM_cons, addAvailable, if_neg (by omega)]
    by_cases henough : alignedTotal ≤ available + run.bytes
    · rw [if_pos henough, if_pos (by omega)]
      rfl
    · rw [if_neg henough]
      show rest.foldlM (fun available run => addAvailable alignedTotal available run.bytes)
        (available + run.bytes) = _
      rw [ih (by omega) (by omega), Nat.add_assoc]

/-- The body of the loop counts the runs that `AllocateFileExtents` would take. -/
theorem countExtent_of_onBlocks {alignedTotal blockSize available : ℕ} {policy : AllocationPolicy}
    {extent : Extent} (h : extent.onBlocks blockSize = true) (hfew : available < alignedTotal)
    (hfits : available + totalBytes (cleanRuns blockSize policy extent) ≤ uint64Max) :
    countExtent alignedTotal blockSize policy available extent =
      if alignedTotal ≤ available + totalBytes (cleanRuns blockSize policy extent) then .error true
      else .ok (available + totalBytes (cleanRuns blockSize policy extent)) := by
  have honBlocks := of_decide_eq_true h
  rw [← foldlM_addAvailable hfew hfits, countExtent, if_neg (by omega), cleanRuns]
  split
  · rw [List.foldlM_cons]
    cases addAvailable alignedTotal available extent.bytes with
    | error answer => rfl
    | ok sum => rfl
  split
  · rfl
  · rfl

theorem totalBytes_append (extents others : List Extent) :
    totalBytes (extents ++ others) = totalBytes extents + totalBytes others := by
  rw [totalBytes, List.map_append, List.sum_append]
  rfl

theorem cleanBytes_cons (blockSize : ℕ) (policy : AllocationPolicy) (extent : Extent)
    (extents : List Extent) :
    cleanBytes blockSize policy (extent :: extents) =
      totalBytes (cleanRuns blockSize policy extent) + cleanBytes blockSize policy extents := by
  rw [cleanBytes, List.flatMap_cons, totalBytes_append]
  rfl

/-- The extents after the first one off the blocks are never looked at. -/
theorem foldlM_countExtent {alignedTotal blockSize available : ℕ} {policy : AllocationPolicy}
    {freeExtents : List Extent} (hfew : available < alignedTotal)
    (hfits : available + cleanBytes blockSize policy freeExtents ≤ uint64Max) :
    freeExtents.foldlM (countExtent alignedTotal blockSize policy) available = .error true ↔
      alignedTotal ≤
        available + cleanBytes blockSize policy (freeExtents.takeWhile (·.onBlocks blockSize)) := by
  induction freeExtents generalizing available with
  | nil =>
    constructor
    · intro h
      cases h
    · intro hle
      have hempty : cleanBytes blockSize policy [] = 0 := rfl
      rw [List.takeWhile_nil, hempty] at hle
      omega
  | cons extent rest ih =>
    rw [cleanBytes_cons] at hfits
    rw [List.foldlM_cons]
    cases hblocks : extent.onBlocks blockSize with
    | false =>
      have hoff := of_decide_eq_false hblocks
      rw [countExtent, if_pos (by omega), List.takeWhile_cons_of_neg (by rw [hblocks]; simp)]
      constructor
      · intro h
        cases h
      · intro hle
        have hempty : cleanBytes blockSize policy [] = 0 := rfl
        omega
    | true =>
      rw [countExtent_of_onBlocks hblocks hfew (by omega), List.takeWhile_cons_of_pos hblocks,
        cleanBytes_cons, ← Nat.add_assoc]
      by_cases henough :
          alignedTotal ≤ available + totalBytes (cleanRuns blockSize policy extent)
      · rw [if_pos henough]
        exact iff_of_true rfl (by omega)
      · rw [if_neg henough]
        exact ih (by omega) (by omega)

/-- **What the question counts**: the clean runs before the first extent off the blocks. -/
theorem canAllocateFromFragmentedFreeExtents_iff {freeExtents : List Extent}
    {alignedTotal blockSize : ℕ} {policy : AllocationPolicy} (hsorted : SortedValid freeExtents)
    (htotal : 0 < alignedTotal) (haligned : alignedTotal % blockSize = 0) :
    canAllocateFromFragmentedFreeExtents freeExtents alignedTotal policy blockSize = true ↔
      alignedTotal ≤
        cleanBytes blockSize policy (freeExtents.takeWhile (·.onBlocks blockSize)) := by
  have hblock : blockSize ≠ 0 := by
    rintro rfl
    rw [Nat.mod_zero] at haligned
    omega
  have hfits := totalBytes_cleanRuns_le blockSize policy hsorted
  have hcount := @foldlM_countExtent alignedTotal blockSize 0 policy freeExtents htotal
    (by rw [Nat.zero_add]; exact hfits)
  rw [Nat.zero_add] at hcount
  rw [← hcount, canAllocateFromFragmentedFreeExtents, if_neg (by omega)]
  cases freeExtents.foldlM (countExtent alignedTotal blockSize policy) 0 with
  | ok sum => simp
  | error answer => simp

/-! ## Keeping a yes -/

/-- With every extent on whole blocks and enough clean bytes the allocation succeeds. -/
theorem allocateFileExtents_isSome {freeExtents : List Extent}
    {nextEphemeralExtent logicalSize alignedTotal blockSize : ℕ} {policy : AllocationPolicy}
    (hsorted : SortedValid freeExtents)
    (hblocks : ∀ extent ∈ freeExtents, extent.onBlocks blockSize = true)
    (haligned : alignedTotal % blockSize = 0) (hsize : 0 < logicalSize)
    (hle : logicalSize ≤ alignedTotal)
    (henough : alignedTotal ≤ cleanBytes blockSize policy freeExtents) :
    (allocateFileExtents freeExtents nextEphemeralExtent logicalSize alignedTotal blockSize
      policy).isSome := by
  have hblock : 0 < blockSize := by
    by_contra hzero
    obtain rfl : blockSize = 0 := by omega
    rw [Nat.mod_zero] at haligned
    omega
  have hdvd : ∀ extent ∈ freeExtents,
      blockSize ∣ extent.physicalAddress ∧ blockSize ∣ extent.bytes := by
    intro extent hextent
    obtain ⟨haddress, hbytes⟩ := of_decide_eq_true (hblocks extent hextent)
    exact ⟨Nat.dvd_of_mod_eq_zero haddress, Nat.dvd_of_mod_eq_zero hbytes⟩
  have hany : freeExtents.any (fun extent => extent.physicalAddress % blockSize ≠ 0 ∨
      extent.bytes % blockSize ≠ 0) = false := by
    refine List.any_eq_false.mpr fun extent hextent => ?_
    have honBlocks := of_decide_eq_true (hblocks extent hextent)
    simp only [decide_eq_true_eq]
    omega
  have hfits := totalBytes_cleanRuns_le blockSize policy hsorted
  have hcount : cleanBytes blockSize policy freeExtents =
      totalBytes (freeExtents.flatMap (cleanRuns blockSize policy)) := rfl
  rw [allocateFileExtents, if_neg (by omega), if_neg (by omega), hany, if_neg (by simp)]
  split
  · rfl
  obtain ⟨plan, hplan⟩ := @foldlM_takeRun_isSome blockSize logicalSize alignedTotal
    ⟨[], [], 0, logicalSize⟩ (freeExtents.flatMap (cleanRuns blockSize policy))
    (planSound_start blockSize logicalSize)
    (fun run hrun =>
      have husable := cleanRuns_flatMap_spec hsorted hdvd run hrun
      ⟨husable.valid, husable.bytes⟩)
    hblock (Nat.dvd_of_mod_eq_zero haligned) hle (by omega)
  have hchosen : planFileExtents freeExtents logicalSize blockSize policy = some plan := hplan
  obtain ⟨-, hremaining⟩ := planFileExtents_sound hsorted hdvd hchosen
  have hdone : plan.remainingLogical = 0 := by omega
  obtain ⟨-, hvalid, -⟩ := planFileExtents_spec hsorted hchosen
  obtain ⟨remaining, hremoved, -⟩ := removeAllocatedExtents_spec hsorted hvalid
  rw [hchosen]
  dsimp only
  rw [if_pos ⟨hdone, planFileExtents_covers hsorted hdvd hchosen hdone hsize⟩, hremoved]
  rfl

/-- An extent off the blocks makes the allocation refuse. -/
theorem allocateFileExtents_eq_none {freeExtents : List Extent}
    {nextEphemeralExtent logicalSize alignedTotal blockSize : ℕ} {policy : AllocationPolicy}
    (hsize : 0 < logicalSize)
    (hoff : ∃ extent ∈ freeExtents, extent.onBlocks blockSize = false) :
    allocateFileExtents freeExtents nextEphemeralExtent logicalSize alignedTotal blockSize
      policy = none := by
  obtain ⟨extent, hextent, hnot⟩ := hoff
  have hany : freeExtents.any (fun extent => extent.physicalAddress % blockSize ≠ 0 ∨
      extent.bytes % blockSize ≠ 0) = true := by
    refine List.any_eq_true.mpr ⟨extent, hextent, ?_⟩
    have honBlocks := of_decide_eq_false hnot
    rw [decide_eq_true_eq]
    omega
  rw [allocateFileExtents, if_neg (by omega), hany, if_pos rfl]
  split
  · rfl
  · rfl

/-- **When a yes is kept.** -/
theorem canAllocate_sound_iff (freeExtents : List Extent)
    (nextEphemeralExtent alignedTotal blockSize : ℕ) (policy : AllocationPolicy)
    (hsorted : isSortedAndValid freeExtents = true) (haligned : alignedTotal % blockSize = 0) :
    (canAllocateFromFragmentedFreeExtents freeExtents alignedTotal policy blockSize = true →
      ∀ logicalSize, 0 < logicalSize → logicalSize ≤ alignedTotal →
        (allocateFileExtents freeExtents nextEphemeralExtent logicalSize alignedTotal blockSize
          policy).isSome) ↔
    ((∀ extent ∈ freeExtents, extent.onBlocks blockSize = true) ∨ alignedTotal = 0 ∨
      cleanBytes blockSize policy (freeExtents.takeWhile (·.onBlocks blockSize)) <
        alignedTotal) := by
  have hin := isSortedAndValid_iff.mp hsorted
  constructor
  · intro hsound
    by_contra hfails
    push Not at hfails
    obtain ⟨⟨extent, hextent, hoff⟩, htotal, henough⟩ := hfails
    have hyes := (canAllocateFromFragmentedFreeExtents_iff hin (Nat.pos_of_ne_zero htotal)
      haligned).mpr henough
    have hsome := hsound hyes alignedTotal (Nat.pos_of_ne_zero htotal) (le_refl _)
    rw [allocateFileExtents_eq_none (Nat.pos_of_ne_zero htotal)
      ⟨extent, hextent, Bool.eq_false_iff.mpr hoff⟩] at hsome
    cases hsome
  · intro hcondition hyes logicalSize hsize hle
    have henough := (canAllocateFromFragmentedFreeExtents_iff hin (by omega) haligned).mp hyes
    rcases hcondition with hblocks | hzero | hfew
    · rw [List.takeWhile_eq_self_iff.mpr hblocks] at henough
      exact allocateFileExtents_isSome hin hblocks haligned hsize hle henough
    · omega
    · omega

/-- A list of whole blocks. -/
theorem canAllocate_sound_iff_blocks :
    (canAllocateFromFragmentedFreeExtents [⟨4096, 4096⟩, ⟨16384, 8192⟩] 12288 {} 4096 = true →
      ∀ logicalSize, 0 < logicalSize → logicalSize ≤ 12288 →
        (allocateFileExtents [⟨4096, 4096⟩, ⟨16384, 8192⟩] 40960 logicalSize 12288 4096 {}).isSome) ↔
    ((∀ extent ∈ [(⟨4096, 4096⟩ : Extent), ⟨16384, 8192⟩], extent.onBlocks 4096 = true) ∨
      12288 = 0 ∨
      cleanBytes 4096 {} ([(⟨4096, 4096⟩ : Extent), ⟨16384, 8192⟩].takeWhile (·.onBlocks 4096)) <
        12288) :=
  canAllocate_sound_iff [⟨4096, 4096⟩, ⟨16384, 8192⟩] 40960 12288 4096 {} (by decide) (by decide)

/-- The first extent is enough, and the second is off the blocks. -/
theorem canAllocate_unsound :
    let policy : AllocationPolicy := { overlapsUnavailable := some fun _ _ => false }
    isSortedAndValid [⟨4096, 4096⟩, ⟨16384, 100⟩] = true ∧
      (∀ address bytes address' bytes', address ≤ address' →
        address' + bytes' ≤ address + bytes →
        overlapsUnavailable address' bytes' policy = true →
        overlapsUnavailable address bytes policy = true) ∧
      canAllocateFromFragmentedFreeExtents [⟨4096, 4096⟩, ⟨16384, 100⟩] 4096 policy 4096 = true ∧
      allocateFileExtents [⟨4096, 4096⟩, ⟨16384, 100⟩] 40960 4096 4096 4096 policy = none := by
  refine ⟨by decide, ?_, by decide +kernel, by decide +kernel⟩
  intro address bytes address' bytes' hlow hhigh hreported
  exact hreported

end Allocator
end ApfsAccess
