import ApfsAccess.Allocator.FileExtents

/-!
# The clean runs of an extent, on words

`ExtractCleanSubExtents` asks the policy block by block and looks for the end of a run by a binary
search.  Here its loops run on words, with a bound on their rounds, and the policy's functions are
any functions of words.

* `cleanLength_maximal` : the binary search ends where one more block is unavailable.
* `Words.extractCleanSubExtents_refines` : on words no addition wraps, the loops end, and the runs
  are those of the natural numbers.
* `Words.extractCleanSubExtents_correct` : what the runs are.
-/

namespace ApfsAccess
namespace Allocator

/-! ## The end of a run -/

/-- The binary search is about whole blocks. -/
theorem middle_mul {blockSize : ℕ} (hblock : 0 < blockSize) (low high : ℕ) :
    middle blockSize (blockSize * low) (blockSize * high) =
      blockSize * (low + (high - low) / 2) := by
  rw [middle, Nat.mul_div_cancel_left _ hblock, Nat.mul_div_cancel_left _ hblock, Nat.mul_comm]

/-- **The binary search** ends at a length that is clean and with one more block is not.  Either the
search has not moved and `low` is the length itself, or the length is the block before `low`. -/
theorem cleanLength_maximal {blockSize : ℕ} (hblock : 0 < blockSize) (policy : AllocationPolicy)
    (curr low high cleanLen : ℕ) (hlow : blockSize ∣ low) (hhigh : blockSize ∣ high)
    (hfirst : blockSize ≤ cleanLen)
    (hclean : overlapsUnavailable curr cleanLen policy = false)
    (hat : low = cleanLen ∧ low ≤ high ∨ low = cleanLen + blockSize ∧ low ≤ high + blockSize)
    (hused : overlapsUnavailable curr (high + blockSize) policy = true ∨
      overlapsUnavailable curr high policy = true) :
    overlapsUnavailable curr (cleanLength hblock policy curr low high cleanLen) policy = false ∧
      overlapsUnavailable curr (cleanLength hblock policy curr low high cleanLen + blockSize)
        policy = true := by
  fun_induction cleanLength hblock policy curr low high cleanLen with
  | case1 low high cleanLen hle mid hfree ih =>
    obtain ⟨l, rfl⟩ := hlow
    obtain ⟨h, rfl⟩ := hhigh
    have hlh : l ≤ h := Nat.le_of_mul_le_mul_left hle hblock
    have hmid : mid = blockSize * (l + (h - l) / 2) := middle_mul hblock l h
    have hbelow : blockSize * l ≤ mid := hmid ▸ Nat.mul_le_mul_left _ (by omega)
    have habove : mid ≤ blockSize * h := middle_le hle
    have hdvd : blockSize ∣ mid := hmid ▸ Nat.dvd_mul_right ..
    rw [Bool.not_eq_true'] at hfree
    refine ih (Nat.dvd_add hdvd (dvd_refl _)) (Nat.dvd_mul_right ..) ?_ hfree
      (.inr ⟨rfl, by omega⟩) hused
    rcases hat with ⟨hsame, -⟩ | ⟨hnext, -⟩ <;> omega
  | case2 low high cleanLen hle mid hfree hstop =>
    -- the middle is the first block, which is clean
    have hlowmid : low ≤ mid := by
      obtain ⟨l, rfl⟩ := hlow
      obtain ⟨h, rfl⟩ := hhigh
      show blockSize * l ≤ middle blockSize (blockSize * l) (blockSize * h)
      rw [middle_mul hblock]
      exact Nat.mul_le_mul_left _ (by omega)
    rw [Bool.not_eq_true', Bool.not_eq_false] at hfree
    rcases hat with ⟨hsame, -⟩ | ⟨hnext, -⟩
    · have hmid : mid = cleanLen := by omega
      rw [hmid, hclean] at hfree
      exact absurd hfree Bool.false_ne_true
    · omega
  | case3 low high cleanLen hle mid hfree hstop ih =>
    obtain ⟨l, rfl⟩ := hlow
    obtain ⟨h, rfl⟩ := hhigh
    have hlh : l ≤ h := Nat.le_of_mul_le_mul_left hle hblock
    have hmid : mid = blockSize * (l + (h - l) / 2) := middle_mul hblock l h
    have hdvd : blockSize ∣ mid := hmid ▸ Nat.dvd_mul_right ..
    have hbelow : blockSize * l ≤ mid := hmid ▸ Nat.mul_le_mul_left _ (by omega)
    rw [Bool.not_eq_true', Bool.not_eq_false] at hfree
    have hback : mid - blockSize + blockSize = mid := by omega
    refine ih (Nat.dvd_mul_right ..) (Nat.dvd_sub hdvd (dvd_refl _)) hfirst hclean ?_
      (.inl (by rw [hback]; exact hfree))
    rcases hat with ⟨hsame, -⟩ | ⟨hnext, -⟩
    · -- the search has not moved: the middle is behind the first block
      refine .inl ⟨hsame, ?_⟩
      have hne : mid ≠ blockSize * l := by
        intro heq
        rw [heq, hsame, hclean] at hfree
        exact absurd hfree Bool.false_ne_true
      rw [hmid] at hne hbelow ⊢
      have hlt : l < l + (h - l) / 2 := by
        by_contra hge
        exact hne (by rw [show l + (h - l) / 2 = l by omega])
      calc blockSize * l ≤ blockSize * (l + (h - l) / 2 - 1) := Nat.mul_le_mul_left _ (by omega)
        _ = blockSize * (l + (h - l) / 2) - blockSize := by rw [Nat.mul_sub, Nat.mul_one]
    · exact .inr ⟨hnext, by omega⟩
  | case4 low high cleanLen hgt =>
    rcases hat with ⟨-, hle⟩ | ⟨hnext, hle⟩
    · exact absurd hle hgt
    · -- the two bounds are a block apart
      obtain ⟨l, rfl⟩ := hlow
      obtain ⟨h, rfl⟩ := hhigh
      have hlast : l = h + 1 := by
        have hlt : h < l := Nat.lt_of_mul_lt_mul_left (not_le.mp hgt)
        have hle' : blockSize * l ≤ blockSize * (h + 1) := by rwa [Nat.mul_add, Nat.mul_one]
        have := Nat.le_of_mul_le_mul_left hle' hblock
        omega
      have hlen : cleanLen = blockSize * h := by
        rw [hlast, Nat.mul_add, Nat.mul_one] at hnext
        omega
      refine ⟨hclean, ?_⟩
      rcases hused with hused | hused
      · rw [hlen]
        exact hused
      · rw [← hlen, hclean] at hused
        exact absurd hused Bool.false_ne_true

/-- **The runs** are whole blocks, clean, and end where the next block is unavailable. -/
theorem cleanRunsFrom_clean {blockSize extentEnd curr : ℕ} (hblock : 0 < blockSize)
    (policy : AllocationPolicy) (advance : ℕ → ℕ → Option ℕ) (hcurr : blockSize ∣ curr)
    (hend : blockSize ∣ extentEnd) :
    ∀ run ∈ cleanRunsFrom hblock policy advance extentEnd curr,
      blockSize ∣ run.physicalAddress ∧ blockSize ∣ run.bytes ∧
        overlapsUnavailable run.physicalAddress run.bytes policy = false ∧
        (run.finish + blockSize ≤ extentEnd →
          overlapsUnavailable run.physicalAddress (run.bytes + blockSize) policy = true) := by
  fun_induction cleanRunsFrom hblock policy advance extentEnd curr with
  | case1 => simp
  | case2 => simp
  | case3 curr hlt hused advanced hadvanced hstop ih =>
    push Not at hstop
    exact ih (Nat.dvd_of_mod_eq_zero hstop.2.2)
  | case4 curr hlt hused hclean =>
    intro run hrun
    rw [Bool.not_eq_true'] at hclean
    rw [List.mem_singleton.mp hrun]
    refine ⟨hcurr, Nat.dvd_sub hend hcurr, hclean, fun hfits => ?_⟩
    unfold Extent.finish at hfits
    dsimp only at hfits
    omega
  | case5 curr hlt hused hclean cleanLen ih =>
    have hroom : blockSize ≤ extentEnd - curr :=
      Nat.le_of_dvd (by omega) (Nat.dvd_sub hend hcurr)
    have hdvd := (@cleanLength_spec blockSize (extentEnd - curr) hblock policy
      curr blockSize (extentEnd - curr) blockSize (le_refl _) (le_refl _) (le_refl _) hroom
      (dvd_refl _)).2.2
    rw [Bool.not_eq_true', Bool.not_eq_false] at hclean
    obtain ⟨hfree, hnext⟩ := cleanLength_maximal hblock policy curr blockSize (extentEnd - curr)
      blockSize (dvd_refl _) (Nat.dvd_sub hend hcurr) (le_refl _) (Bool.not_eq_true _ ▸ hused)
      (.inl ⟨rfl, hroom⟩) (.inr hclean)
    refine List.forall_mem_cons.mpr ⟨⟨hcurr, hdvd, hfree, fun _ => hnext⟩, ?_⟩
    exact ih (Nat.dvd_add hcurr hdvd)
  | case6 => simp

/-! ## On words -/

namespace Words

/-- `ExtentAllocator::Extent`. -/
structure Extent where
  physicalAddress : UInt64
  bytes : UInt64
  deriving DecidableEq, Repr

/-- The extent as numbers. -/
def Extent.toNat (extent : Extent) : Allocator.Extent :=
  ⟨extent.physicalAddress.toNat, extent.bytes.toNat⟩

/-- `AllocationPolicy`. -/
structure AllocationPolicy where
  containerBytes : Option UInt64 := none
  overlapsUnavailable : Option (UInt64 → UInt64 → Bool) := none
  advancePastUnavailable : Option (UInt64 → UInt64 → Option UInt64) := none

/-- The policy as one of numbers. -/
def AllocationPolicy.toNat (policy : AllocationPolicy) : Allocator.AllocationPolicy where
  containerBytes := policy.containerBytes.map UInt64.toNat
  overlapsUnavailable := policy.overlapsUnavailable.map fun overlaps physicalAddress bytes =>
    overlaps (UInt64.ofNat physicalAddress) (UInt64.ofNat bytes)
  advancePastUnavailable := policy.advancePastUnavailable.map fun advance physicalAddress bytes =>
    (advance (UInt64.ofNat physicalAddress) (UInt64.ofNat bytes)).map UInt64.toNat

/-- `std::numeric_limits<std::uint64_t>::max()`. -/
def maxValue : UInt64 := UInt64.ofNat uint64Max

/-- `RangeEnd`. -/
def rangeEnd (physicalAddress bytes : UInt64) : Option UInt64 :=
  if physicalAddress = 0 ∨ bytes = 0 ∨ physicalAddress > maxValue - bytes then none
  else some (physicalAddress + bytes)

/-- `FitsContainer`. -/
def fitsContainer (physicalAddress bytes : UInt64) (policy : AllocationPolicy) : Bool :=
  match rangeEnd physicalAddress bytes with
  | none => false
  | some fin => policy.containerBytes.all (fin ≤ ·)

/-- `OverlapsUnavailable`. -/
def overlapsUnavailable (physicalAddress bytes : UInt64) (policy : AllocationPolicy) : Bool :=
  policy.overlapsUnavailable.any fun overlaps => overlaps physicalAddress bytes

/-- The binary search of `ExtractCleanSubExtents`; `none` when it has not ended in time. -/
def cleanLength (policy : AllocationPolicy) (blockSize curr : UInt64) :
    ℕ → UInt64 → UInt64 → UInt64 → Option UInt64
  | 0, _, _, _ => none
  | fuel + 1, low, high, cleanLen =>
    if low ≤ high then
      let lowBlocks := low / blockSize
      let highBlocks := high / blockSize
      let mid := (lowBlocks + (highBlocks - lowBlocks) / 2) * blockSize
      if !overlapsUnavailable curr mid policy then
        cleanLength policy blockSize curr fuel (mid + blockSize) high mid
      else if mid ≤ blockSize then some cleanLen
      else cleanLength policy blockSize curr fuel low (mid - blockSize) cleanLen
    else some cleanLen

/-- The outer loop of `ExtractCleanSubExtents`; `none` when it has not ended in time. -/
def cleanRunsFrom (policy : AllocationPolicy) (advance : UInt64 → UInt64 → Option UInt64)
    (blockSize extentEnd : UInt64) : ℕ → UInt64 → Option (List Extent)
  | 0, _ => none
  | fuel + 1, curr =>
    if curr < extentEnd then
      if overlapsUnavailable curr blockSize policy then
        match advance curr blockSize with
        | none => some []
        | some advanced =>
          if advanced ≤ curr ∨ advanced ≥ extentEnd ∨ advanced % blockSize ≠ 0 then some []
          else cleanRunsFrom policy advance blockSize extentEnd fuel advanced
      else if !overlapsUnavailable curr (extentEnd - curr) policy then
        some [⟨curr, extentEnd - curr⟩]
      else do
        let cleanLen ← cleanLength policy blockSize curr fuel blockSize (extentEnd - curr) blockSize
        let runs ← cleanRunsFrom policy advance blockSize extentEnd fuel (curr + cleanLen)
        some (⟨curr, cleanLen⟩ :: runs)
    else some []

/-- `ExtractCleanSubExtents`. -/
def extractCleanSubExtents (fuel : ℕ) (extent : Extent) (blockSize : UInt64)
    (policy : AllocationPolicy) : Option (List Extent) :=
  if blockSize = 0 then some []
  else if extent.physicalAddress % blockSize ≠ 0 ∨ extent.bytes % blockSize ≠ 0 then some []
  else
    match rangeEnd extent.physicalAddress extent.bytes with
    | none => some []
    | some extentEnd =>
      if !fitsContainer extent.physicalAddress extent.bytes policy then some []
      else if !overlapsUnavailable extent.physicalAddress extent.bytes policy then some [extent]
      else
        match policy.advancePastUnavailable with
        | none => some []
        | some advance =>
          cleanRunsFrom policy advance blockSize extentEnd fuel extent.physicalAddress

/-! ## The words as numbers -/

section Numbers

variable {policy : AllocationPolicy} {physicalAddress bytes blockSize curr extentEnd : UInt64}

theorem toNat_ne_zero {word : UInt64} : word ≠ 0 ↔ 0 < word.toNat := by
  rw [Nat.pos_iff_ne_zero, ne_eq, ne_eq, ← UInt64.toNat_inj]
  rfl

theorem toNat_lt_or_eq (word : UInt64) : word.toNat ≤ uint64Max :=
  Nat.le_sub_one_of_lt word.toNat_lt

theorem toNat_add_of_le (h : physicalAddress.toNat + bytes.toNat ≤ uint64Max) :
    (physicalAddress + bytes).toNat = physicalAddress.toNat + bytes.toNat := by
  rw [UInt64.toNat_add]
  exact Nat.mod_eq_of_lt (by unfold uint64Max at h; omega)

theorem rangeEnd_toNat :
    (rangeEnd physicalAddress bytes).map UInt64.toNat =
      Allocator.rangeEnd physicalAddress.toNat bytes.toNat := by
  have hmax : maxValue.toNat = uint64Max := rfl
  have hle : bytes ≤ maxValue := by
    rw [UInt64.le_iff_toNat_le, hmax]
    exact toNat_lt_or_eq bytes
  have hchecks : (physicalAddress = 0 ∨ bytes = 0 ∨ physicalAddress > maxValue - bytes) ↔
      (physicalAddress.toNat = 0 ∨ bytes.toNat = 0 ∨
        uint64Max - bytes.toNat < physicalAddress.toNat) := by
    rw [gt_iff_lt, UInt64.lt_iff_toNat_lt, UInt64.toNat_sub_of_le _ _ hle, hmax,
      ← UInt64.toNat_inj, ← UInt64.toNat_inj]
    rfl
  rw [rangeEnd, Allocator.rangeEnd]
  by_cases h : physicalAddress = 0 ∨ bytes = 0 ∨ physicalAddress > maxValue - bytes
  · rw [if_pos h, if_pos (hchecks.mp h), Option.map_none]
  · rw [if_neg h, if_neg (fun hnat => h (hchecks.mpr hnat)), Option.map_some]
    rw [hchecks] at h
    have hbytes := toNat_lt_or_eq bytes
    rw [toNat_add_of_le (by omega)]

theorem overlapsUnavailable_toNat :
    Allocator.overlapsUnavailable physicalAddress.toNat bytes.toNat policy.toNat =
      overlapsUnavailable physicalAddress bytes policy := by
  rw [Allocator.overlapsUnavailable, overlapsUnavailable, AllocationPolicy.toNat, Option.any_map]
  refine congrArg (Option.any · _) (funext fun overlaps => ?_)
  show overlaps (UInt64.ofNat physicalAddress.toNat) (UInt64.ofNat bytes.toNat) = _
  rw [UInt64.ofNat_toNat, UInt64.ofNat_toNat]

theorem fitsContainer_toNat :
    Allocator.fitsContainer physicalAddress.toNat bytes.toNat policy.toNat =
      fitsContainer physicalAddress bytes policy := by
  rw [Allocator.fitsContainer, fitsContainer, ← rangeEnd_toNat]
  cases rangeEnd physicalAddress bytes with
  | none => rfl
  | some fin =>
    show (policy.containerBytes.map UInt64.toNat).all _ = _
    rw [Option.all_map]
    refine congrArg (Option.all · _) (funext fun container => ?_)
    rw [decide_eq_decide, UInt64.le_iff_toNat_le]

/-- The middle of the search does not wrap. -/
theorem toNat_mid {low high : UInt64} (hle : low ≤ high) :
    ((low / blockSize + (high / blockSize - low / blockSize) / 2) * blockSize).toNat =
      middle blockSize.toNat low.toNat high.toNat := by
  have hdiv : low / blockSize ≤ high / blockSize := by
    rw [UInt64.le_iff_toNat_le, UInt64.toNat_div, UInt64.toNat_div]
    exact Nat.div_le_div_right (UInt64.le_iff_toNat_le.mp hle)
  have hhalf : ((high / blockSize - low / blockSize) / 2).toNat =
      (high.toNat / blockSize.toNat - low.toNat / blockSize.toNat) / 2 := by
    rw [UInt64.toNat_div, UInt64.toNat_sub_of_le _ _ hdiv, UInt64.toNat_div, UInt64.toNat_div]
    rfl
  have hdivNat : low.toNat / blockSize.toNat ≤ high.toNat / blockSize.toNat :=
    Nat.div_le_div_right (UInt64.le_iff_toNat_le.mp hle)
  have hhigh : high.toNat / blockSize.toNat ≤ uint64Max :=
    (Nat.div_le_self _ _).trans (toNat_lt_or_eq high)
  have hsum : (low / blockSize + (high / blockSize - low / blockSize) / 2).toNat =
      low.toNat / blockSize.toNat +
        (high.toNat / blockSize.toNat - low.toNat / blockSize.toNat) / 2 := by
    rw [toNat_add_of_le (by rw [hhalf, UInt64.toNat_div]; omega), hhalf, UInt64.toNat_div]
  have hmid := @middle_le blockSize.toNat _ _ (UInt64.le_iff_toNat_le.mp hle)
  rw [UInt64.toNat_mul, hsum]
  exact Nat.mod_eq_of_lt (lt_of_le_of_lt hmid high.toNat_lt)

/-- **The binary search on words** ends, and is the one on numbers. -/
theorem cleanLength_refines (hblock : 0 < blockSize.toNat) (fuel : ℕ) {low high cleanLen : UInt64}
    (hroom : high.toNat + blockSize.toNat ≤ uint64Max)
    (hfuel : high.toNat + 1 - low.toNat < fuel) :
    ∃ length, cleanLength policy blockSize curr fuel low high cleanLen = some length ∧
      length.toNat = Allocator.cleanLength hblock policy.toNat curr.toNat low.toNat high.toNat
        cleanLen.toNat := by
  induction fuel generalizing low high cleanLen with
  | zero => exact absurd hfuel (Nat.not_lt_zero _)
  | succ fuel ih =>
    rw [cleanLength, Allocator.cleanLength]
    by_cases hle : low ≤ high
    · have hleNat := UInt64.le_iff_toNat_le.mp hle
      have hmid := @toNat_mid blockSize low high hle
      have hmidHigh := @middle_le blockSize.toNat _ _ hleNat
      have hmidLow := low_lt_middle_add hblock low.toNat high.toNat
      rw [if_pos hle, dif_pos hleNat]
      dsimp only
      rw [← hmid] at hmidHigh hmidLow ⊢
      generalize (low / blockSize + (high / blockSize - low / blockSize) / 2) * blockSize = mid
        at hmidHigh hmidLow ⊢
      rw [overlapsUnavailable_toNat]
      by_cases hfree : (!overlapsUnavailable curr mid policy) = true
      · have hnext := @toNat_add_of_le mid blockSize (by omega)
        rw [if_pos hfree, if_pos hfree, ← hnext]
        exact ih hroom (by omega)
      · rw [if_neg hfree, if_neg hfree]
        by_cases hstop : mid ≤ blockSize
        · rw [if_pos hstop, dif_pos (UInt64.le_iff_toNat_le.mp hstop)]
          exact ⟨cleanLen, rfl, rfl⟩
        · have hstopNat : ¬ mid.toNat ≤ blockSize.toNat :=
            fun h => hstop (UInt64.le_iff_toNat_le.mpr h)
          have hback := UInt64.toNat_sub_of_le mid blockSize
            (UInt64.le_iff_toNat_le.mpr (by omega))
          rw [if_neg hstop, dif_neg hstopNat, ← hback]
          exact ih (by omega) (by omega)
    · rw [if_neg hle, dif_neg (fun h => hle (UInt64.le_iff_toNat_le.mpr h))]
      exact ⟨cleanLen, rfl, rfl⟩

theorem toNat_mod_ne_zero {word : UInt64} :
    word % blockSize ≠ 0 ↔ word.toNat % blockSize.toNat ≠ 0 := by
  rw [ne_eq, ne_eq, ← UInt64.toNat_inj, UInt64.toNat_mod]
  rfl

/-- **The outer loop on words** ends, and is the one on numbers. -/
theorem cleanRunsFrom_refines (hblock : 0 < blockSize.toNat)
    (advance : UInt64 → UInt64 → Option UInt64) (fuel : ℕ)
    (hcurr : blockSize.toNat ∣ curr.toNat) (hend : blockSize.toNat ∣ extentEnd.toNat)
    (hpos : 0 < curr.toNat) (hfuel : extentEnd.toNat - curr.toNat + 1 < fuel) :
    ∃ runs, cleanRunsFrom policy advance blockSize extentEnd fuel curr = some runs ∧
      runs.map Extent.toNat = Allocator.cleanRunsFrom hblock policy.toNat
        (fun physicalAddress bytes =>
          (advance (UInt64.ofNat physicalAddress) (UInt64.ofNat bytes)).map UInt64.toNat)
        extentEnd.toNat curr.toNat := by
  induction fuel generalizing curr with
  | zero => exact absurd hfuel (Nat.not_lt_zero _)
  | succ fuel ih =>
    rw [cleanRunsFrom, Allocator.cleanRunsFrom]
    by_cases hlt : curr < extentEnd
    swap
    · rw [if_neg hlt, dif_neg (fun h => hlt (UInt64.lt_iff_toNat_lt.mpr h))]
      exact ⟨[], rfl, rfl⟩
    have hltNat := UInt64.lt_iff_toNat_lt.mp hlt
    have hleft : (extentEnd - curr).toNat = extentEnd.toNat - curr.toNat :=
      UInt64.toNat_sub_of_le _ _ (UInt64.le_iff_toNat_le.mpr hltNat.le)
    rw [if_pos hlt, dif_pos hltNat, overlapsUnavailable_toNat]
    by_cases hused : overlapsUnavailable curr blockSize policy = true
    · rw [if_pos hused, if_pos hused, UInt64.ofNat_toNat, UInt64.ofNat_toNat]
      cases advance curr blockSize with
      | none => exact ⟨[], rfl, rfl⟩
      | some advanced =>
        have hstop : (advanced ≤ curr ∨ advanced ≥ extentEnd ∨ advanced % blockSize ≠ 0) ↔
            (advanced.toNat ≤ curr.toNat ∨ extentEnd.toNat ≤ advanced.toNat ∨
              advanced.toNat % blockSize.toNat ≠ 0) := by
          rw [ge_iff_le, UInt64.le_iff_toNat_le, UInt64.le_iff_toNat_le, toNat_mod_ne_zero]
        rw [Option.map_some]
        dsimp only
        by_cases h : advanced ≤ curr ∨ advanced ≥ extentEnd ∨ advanced % blockSize ≠ 0
        · rw [if_pos h, dif_pos (hstop.mp h)]
          exact ⟨[], rfl, rfl⟩
        · rw [if_neg h, dif_neg (fun hnat => h (hstop.mpr hnat))]
          rw [hstop] at h
          push Not at h
          exact ih (Nat.dvd_of_mod_eq_zero h.2.2) (by omega) (by omega)
    · rw [if_neg hused, if_neg hused, ← hleft, overlapsUnavailable_toNat]
      by_cases hclean : (!overlapsUnavailable curr (extentEnd - curr) policy) = true
      · rw [if_pos hclean, if_pos hclean]
        exact ⟨_, rfl, rfl⟩
      · rw [if_neg hclean, if_neg hclean]
        dsimp only
        -- the address is a block or more, so that a length and a block are in range
        have hcurrBlock : blockSize.toNat ≤ curr.toNat := Nat.le_of_dvd hpos hcurr
        have hroomBlock : blockSize.toNat ≤ (extentEnd - curr).toNat := by
          rw [hleft]
          exact Nat.le_of_dvd (by omega) (Nat.dvd_sub hend hcurr)
        have hmax := toNat_lt_or_eq extentEnd
        obtain ⟨length, hlength, hlengthNat⟩ := @cleanLength_refines policy blockSize curr hblock
          fuel blockSize (extentEnd - curr) blockSize (by omega) (by omega)
        have hspec := @cleanLength_spec blockSize.toNat (extentEnd - curr).toNat hblock policy.toNat
          curr.toNat blockSize.toNat (extentEnd - curr).toNat blockSize.toNat (le_refl _) (le_refl _)
          (le_refl _) hroomBlock (dvd_refl _)
        rw [← hlengthNat] at hspec ⊢
        have hnext := @toNat_add_of_le curr length (by omega)
        obtain ⟨runs, hruns, hrunsNat⟩ := @ih (curr + length)
          (by rw [hnext]; exact Nat.dvd_add hcurr hspec.2.2) (by omega) (by omega)
        rw [hlength, Option.bind_eq_bind, Option.bind_some, hruns, Option.bind_eq_bind,
          Option.bind_some]
        refine ⟨_, rfl, ?_⟩
        rw [List.map_cons, hrunsNat, hnext]
        rfl

/-- **On words nothing wraps and the loops end**: the runs are those of the numbers. -/
theorem extractCleanSubExtents_refines (policy : AllocationPolicy) (extent : Extent)
    (blockSize : UInt64) {fuel : ℕ} (hfuel : extent.bytes.toNat + 2 ≤ fuel) :
    ∃ runs, extractCleanSubExtents fuel extent blockSize policy = some runs ∧
      runs.map Extent.toNat =
        Allocator.extractCleanSubExtents extent.toNat blockSize.toNat policy.toNat := by
  rw [extractCleanSubExtents, Allocator.extractCleanSubExtents]
  by_cases hblock : blockSize = 0
  · rw [if_pos hblock, dif_pos (by rw [hblock]; rfl)]
    exact ⟨[], rfl, rfl⟩
  have hblockNat : 0 < blockSize.toNat := toNat_ne_zero.mp hblock
  rw [if_neg hblock, dif_neg hblockNat.ne']
  have haligned : (extent.physicalAddress % blockSize ≠ 0 ∨ extent.bytes % blockSize ≠ 0) ↔
      (extent.toNat.physicalAddress % blockSize.toNat ≠ 0 ∨
        extent.toNat.bytes % blockSize.toNat ≠ 0) :=
    or_congr toNat_mod_ne_zero toNat_mod_ne_zero
  by_cases hmod : extent.physicalAddress % blockSize ≠ 0 ∨ extent.bytes % blockSize ≠ 0
  · rw [if_pos hmod, if_pos (haligned.mp hmod)]
    exact ⟨[], rfl, rfl⟩
  rw [if_neg hmod, if_neg (fun h => hmod (haligned.mpr h))]
  rw [haligned] at hmod
  push Not at hmod
  have hrangeNat : Allocator.rangeEnd extent.toNat.physicalAddress extent.toNat.bytes =
      (rangeEnd extent.physicalAddress extent.bytes).map UInt64.toNat := rangeEnd_toNat.symm
  have hfitsNat : Allocator.fitsContainer extent.toNat.physicalAddress extent.toNat.bytes
      policy.toNat = fitsContainer extent.physicalAddress extent.bytes policy := fitsContainer_toNat
  have hcleanNat : Allocator.overlapsUnavailable extent.toNat.physicalAddress extent.toNat.bytes
      policy.toNat = overlapsUnavailable extent.physicalAddress extent.bytes policy :=
    overlapsUnavailable_toNat
  rw [hrangeNat, hfitsNat, hcleanNat]
  cases hrange : rangeEnd extent.physicalAddress extent.bytes with
  | none => exact ⟨[], rfl, rfl⟩
  | some extentEnd =>
    rw [hrange, Option.map_some] at hrangeNat
    obtain ⟨hvalid, hsum⟩ := rangeEnd_eq_some.mp hrangeNat
    rw [Option.map_some]
    dsimp only
    by_cases hfits : (!fitsContainer extent.physicalAddress extent.bytes policy) = true
    · rw [if_pos hfits, if_pos hfits]
      exact ⟨[], rfl, rfl⟩
    rw [if_neg hfits, if_neg hfits]
    by_cases hclean : (!overlapsUnavailable extent.physicalAddress extent.bytes policy) = true
    · rw [if_pos hclean, if_pos hclean]
      exact ⟨[extent], rfl, rfl⟩
    rw [if_neg hclean, if_neg hclean]
    cases hadvance : policy.advancePastUnavailable with
    | none =>
      have hnone : policy.toNat.advancePastUnavailable = none := by
        rw [AllocationPolicy.toNat, hadvance]
        rfl
      rw [hnone]
      exact ⟨[], rfl, rfl⟩
    | some advance =>
      have hsome : policy.toNat.advancePastUnavailable = some fun physicalAddress bytes =>
          (advance (UInt64.ofNat physicalAddress) (UInt64.ofNat bytes)).map UInt64.toNat := by
        rw [AllocationPolicy.toNat, hadvance]
        rfl
      rw [hsome]
      refine cleanRunsFrom_refines hblockNat advance fuel (Nat.dvd_of_mod_eq_zero hmod.1) ?_
        hvalid.address ?_
      swap
      · rw [hsum]
        dsimp only [Extent.toNat]
        omega
      rw [hsum]
      exact Nat.dvd_add (Nat.dvd_of_mod_eq_zero hmod.1) (Nat.dvd_of_mod_eq_zero hmod.2)

end Numbers

/-! ## What the runs are -/

/-- The overlap predicate is monotone: a range that overlaps unavailable space makes every range
around it overlap. -/
def MonotoneOverlap (policy : AllocationPolicy) : Prop :=
  ∀ physicalAddress bytes outerAddress outerBytes : UInt64,
    outerAddress.toNat ≤ physicalAddress.toNat →
    physicalAddress.toNat + bytes.toNat ≤ outerAddress.toNat + outerBytes.toNat →
    outerAddress.toNat + outerBytes.toNat ≤ uint64Max →
    overlapsUnavailable physicalAddress bytes policy = true →
      overlapsUnavailable outerAddress outerBytes policy = true

/-- The clean runs of an extent. -/
structure CleanRuns (policy : AllocationPolicy) (extent : Extent) (blockSize : UInt64)
    (runs : List Extent) : Prop where
  aligned : ∀ run ∈ runs,
    blockSize.toNat ∣ run.physicalAddress.toNat ∧ blockSize.toNat ∣ run.bytes.toNat
  notEmpty : ∀ run ∈ runs, 0 < run.bytes.toNat
  inOrder : runs.Pairwise fun left right =>
    left.physicalAddress.toNat + left.bytes.toNat ≤ right.physicalAddress.toNat
  inside : ∀ run ∈ runs, extent.physicalAddress.toNat ≤ run.physicalAddress.toNat ∧
    run.physicalAddress.toNat + run.bytes.toNat ≤
      extent.physicalAddress.toNat + extent.bytes.toNat
  free : ∀ run ∈ runs, ∀ physicalAddress bytes : UInt64,
    run.physicalAddress.toNat ≤ physicalAddress.toNat →
    physicalAddress.toNat + bytes.toNat ≤ run.physicalAddress.toNat + run.bytes.toNat →
      overlapsUnavailable physicalAddress bytes policy = false
  maximal : ∀ run ∈ runs,
    run.physicalAddress.toNat + run.bytes.toNat + blockSize.toNat ≤
      extent.physicalAddress.toNat + extent.bytes.toNat →
      overlapsUnavailable run.physicalAddress (run.bytes + blockSize) policy = true

section Runs

variable {policy : AllocationPolicy} {extent : Extent} {blockSize : UInt64} {runs : List Extent}

theorem cleanRuns_nil : CleanRuns policy extent blockSize [] where
  aligned := by simp
  notEmpty := by simp
  inOrder := List.Pairwise.nil
  inside := by simp
  free := by simp
  maximal := by simp

/-- What the runs of numbers say about the runs of words. -/
theorem cleanRuns_of_toNat (hmono : MonotoneOverlap policy) (hvalid : extent.toNat.Valid)
    (hordered : InOrder (runs.map Extent.toNat))
    (hinside : ∀ run ∈ runs.map Extent.toNat, run.Valid ∧
      extent.toNat.physicalAddress ≤ run.physicalAddress ∧ run.finish ≤ extent.toNat.finish)
    (hclean : ∀ run ∈ runs.map Extent.toNat,
      blockSize.toNat ∣ run.physicalAddress ∧ blockSize.toNat ∣ run.bytes ∧
        Allocator.overlapsUnavailable run.physicalAddress run.bytes policy.toNat = false ∧
        (run.finish + blockSize.toNat ≤ extent.toNat.finish →
          Allocator.overlapsUnavailable run.physicalAddress (run.bytes + blockSize.toNat)
            policy.toNat = true)) :
    CleanRuns policy extent blockSize runs := by
  have hmem : ∀ {run}, run ∈ runs → run.toNat ∈ runs.map Extent.toNat :=
    fun hrun => List.mem_map_of_mem hrun
  refine ⟨fun run hrun => ?_, fun run hrun => ?_, ?_, fun run hrun => ?_, ?_, ?_⟩
  · obtain ⟨haddress, hbytes, -⟩ := hclean _ (hmem hrun)
    exact ⟨haddress, hbytes⟩
  · exact (hinside _ (hmem hrun)).1.bytes
  · exact List.pairwise_map.mp hordered
  · exact (hinside _ (hmem hrun)).2
  · intro run hrun physicalAddress bytes hstart hfin
    have hfree : overlapsUnavailable run.physicalAddress run.bytes policy = false := by
      rw [← overlapsUnavailable_toNat]
      exact (hclean _ (hmem hrun)).2.2.1
    by_contra hused
    have hin := (hinside _ (hmem hrun)).1.bound
    rw [hmono _ _ _ _ hstart hfin hin ((Bool.not_eq_false _).mp hused)] at hfree
    exact absurd hfree.symm Bool.false_ne_true
  · intro run hrun hfits
    have hbound := hvalid.bound
    have hsum : (run.bytes + blockSize).toNat = run.bytes.toNat + blockSize.toNat := by
      refine toNat_add_of_le (le_trans ?_ (hfits.trans hbound))
      omega
    rw [← overlapsUnavailable_toNat, hsum]
    exact (hclean _ (hmem hrun)).2.2.2 hfits

/-- The runs of numbers are clean runs of words. -/
theorem exists_cleanRuns (policy : AllocationPolicy) (hmono : MonotoneOverlap policy)
    (extent : Extent) (blockSize : UInt64) :
    ∃ runs, CleanRuns policy extent blockSize runs ∧ runs.map Extent.toNat =
      Allocator.extractCleanSubExtents extent.toNat blockSize.toNat policy.toNat := by
  obtain ⟨runs, -, hrunsNat⟩ :=
    extractCleanSubExtents_refines policy extent blockSize (le_refl _)
  have hnil : Allocator.extractCleanSubExtents extent.toNat blockSize.toNat policy.toNat = [] →
      CleanRuns policy extent blockSize runs := by
    intro hempty
    rw [hempty, List.map_eq_nil_iff] at hrunsNat
    rw [hrunsNat]
    exact cleanRuns_nil
  refine ⟨runs, ?_, hrunsNat⟩
  unfold Allocator.extractCleanSubExtents at hrunsNat hnil
  split at hrunsNat
  · rename_i hblock
    exact hnil (by rw [dif_pos hblock])
  rename_i hblock
  rw [dif_neg hblock] at hnil
  split at hrunsNat
  · rename_i hmod
    exact hnil (by rw [if_pos hmod])
  rename_i hmod
  rw [if_neg hmod] at hnil
  push Not at hmod
  have haddress := Nat.dvd_of_mod_eq_zero hmod.1
  have hbytes := Nat.dvd_of_mod_eq_zero hmod.2
  cases hrange : Allocator.rangeEnd extent.toNat.physicalAddress extent.toNat.bytes with
  | none =>
    rw [hrange] at hnil
    exact hnil rfl
  | some extentEnd =>
    obtain ⟨hvalid, rfl⟩ := rangeEnd_eq_some.mp hrange
    rw [hrange] at hrunsNat hnil
    dsimp only at hrunsNat hnil
    by_cases hfits : (!Allocator.fitsContainer extent.toNat.physicalAddress extent.toNat.bytes
        policy.toNat) = true
    · exact hnil (by rw [if_pos hfits])
    rw [if_neg hfits] at hrunsNat hnil
    by_cases hclean : (!Allocator.overlapsUnavailable extent.toNat.physicalAddress
        extent.toNat.bytes policy.toNat) = true
    · rw [if_pos hclean] at hrunsNat
      rw [Bool.not_eq_true'] at hclean
      refine cleanRuns_of_toNat hmono hvalid ?_ ?_ ?_
      · rw [hrunsNat]
        exact List.pairwise_singleton _ _
      · rw [hrunsNat]
        exact List.forall_mem_singleton.mpr ⟨hvalid, le_refl _, le_refl _⟩
      · rw [hrunsNat]
        refine List.forall_mem_singleton.mpr ⟨haddress, hbytes, hclean, fun hroom => ?_⟩
        omega
    rw [if_neg hclean] at hrunsNat hnil
    cases hadvance : policy.toNat.advancePastUnavailable with
    | none =>
      rw [hadvance] at hnil
      exact hnil rfl
    | some advance =>
      rw [hadvance] at hrunsNat
      obtain ⟨hordered, hinside⟩ := cleanRunsFrom_spec (Nat.pos_of_ne_zero hblock) policy.toNat
        advance hvalid.address hvalid.bound haddress (Nat.dvd_add haddress hbytes)
      have hfree := cleanRunsFrom_clean (Nat.pos_of_ne_zero hblock) policy.toNat advance haddress
        (Nat.dvd_add haddress hbytes)
      exact cleanRuns_of_toNat hmono hvalid (hrunsNat ▸ hordered) (hrunsNat ▸ hinside)
        (hrunsNat ▸ hfree)

/-- **Clean sub-extents**: the loops end whatever the advance function answers, and the runs are
whole blocks, in order, disjoint, inside the extent, free, and none can be a block longer. -/
theorem extractCleanSubExtents_correct (policy : AllocationPolicy) (hmono : MonotoneOverlap policy)
    (extent : Extent) (blockSize : UInt64) :
    ∃ runs, CleanRuns policy extent blockSize runs ∧
      ∀ fuel, extent.bytes.toNat + 2 ≤ fuel →
        extractCleanSubExtents fuel extent blockSize policy = some runs := by
  obtain ⟨runs, hspec, hrunsNat⟩ :=
    exists_cleanRuns policy hmono extent blockSize
  refine ⟨runs, hspec, fun fuel hfuel => ?_⟩
  obtain ⟨found, hfound, hfoundNat⟩ :=
    extractCleanSubExtents_refines policy extent blockSize hfuel
  have hinj : Function.Injective Extent.toNat := by
    rintro ⟨address, bytes⟩ ⟨address', bytes'⟩ h
    obtain ⟨haddress, hbytes⟩ := Allocator.Extent.mk.inj h
    obtain rfl : address = address' := UInt64.toNat_inj.mp haddress
    obtain rfl : bytes = bytes' := UInt64.toNat_inj.mp hbytes
    rfl
  rw [hfound, List.map_injective_iff.mpr hinj (hfoundNat.trans hrunsNat.symm)]

end Runs

/-- The block at `8192` is unavailable. -/
def oneBlockPolicy : AllocationPolicy where
  overlapsUnavailable := some fun physicalAddress bytes =>
    decide (physicalAddress.toNat < 12288 ∧ 8192 < physicalAddress.toNat + bytes.toNat)
  advancePastUnavailable := some fun _ _ => some 12288

theorem extractCleanSubExtents_correct_oneBlock :
    MonotoneOverlap oneBlockPolicy ∧
      ∃ runs, CleanRuns oneBlockPolicy ⟨4096, 16384⟩ 4096 runs ∧
        ∀ fuel, 16384 + 2 ≤ fuel →
          extractCleanSubExtents fuel ⟨4096, 16384⟩ 4096 oneBlockPolicy = some runs := by
  have hmono : MonotoneOverlap oneBlockPolicy := by
    intro physicalAddress bytes outerAddress outerBytes hstart hfin _ hused
    have hin := of_decide_eq_true hused
    exact decide_eq_true ⟨by omega, by omega⟩
  exact ⟨hmono, extractCleanSubExtents_correct oneBlockPolicy hmono ⟨4096, 16384⟩ 4096⟩

/-- Around the block there are two runs. -/
example : extractCleanSubExtents 20 ⟨4096, 16384⟩ 4096 oneBlockPolicy =
    some [⟨4096, 4096⟩, ⟨12288, 8192⟩] := by
  decide +kernel

end Words

end Allocator
end ApfsAccess
