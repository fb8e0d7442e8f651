import ApfsAccess.Coordinator.LedgerSets

/-!
# The ledger on words

`ApplyExtentDelta` on 64-bit addresses and lengths.  The additions of the function are a parameter:
`wrapping` is the addition of the machine, `trapping` stops when a sum does not fit.  Both are
exact where the sum fits, and then the function is the one on natural numbers.

* `extentDelta_refines` : with any exact addition the function is the one on numbers.
* `applyExtentDelta_is_set_update` : the ledger has set semantics, and no addition wraps.
-/

namespace ApfsAccess
namespace Coordinator
namespace Words

open Sorting

/-! ## The function -/

/-- `ExtentRange`. -/
structure ExtentRange where
  address : UInt64
  bytes : UInt64
  deriving DecidableEq, Repr

/-- The range as numbers. -/
def ExtentRange.toNat (range : ExtentRange) : Coordinator.ExtentRange :=
  ⟨range.address.toNat, range.bytes.toNat⟩

/-- How the function stops before its end: with the text that it leaves in `out_error`, or, where
additions trap, at a sum that does not fit. -/
inductive Stop where
  | refused (error : String)
  | wrapped
  deriving DecidableEq, Repr

/-- An addition of two words. -/
abbrev Addition := UInt64 → UInt64 → Except Stop UInt64

/-- The addition of the machine. -/
def wrapping : Addition := fun left right => .ok (left + right)

/-- The addition that stops when the sum does not fit. -/
def trapping : Addition := fun left right =>
  if left.toNat + right.toNat ≤ uint64Max then .ok (left + right) else .error .wrapped

/-- `UINT64_MAX`. -/
def maxValue : UInt64 := UInt64.ofNat uint64Max

/-- `valid_range`. -/
def ExtentRange.valid (range : ExtentRange) : Bool :=
  range.bytes == 0 || decide (range.address ≤ maxValue - range.bytes)

section Function

variable (add : Addition)

/-- The loop of `normalize` over the sorted ranges, with the last range of `normalized` in front. -/
def mergeRanges : ExtentRange → List ExtentRange → Except Stop (List ExtentRange)
  | prior, [] => .ok [prior]
  | prior, range :: rest => do
    let priorEnd ← add prior.address prior.bytes
    if range.address < priorEnd then .error (.refused "AllocationOverlapDetected")
    else if range.address = priorEnd then do
      let bytes ← add prior.bytes range.bytes
      mergeRanges { prior with bytes } rest
    else do
      let normalized ← mergeRanges range rest
      .ok (prior :: normalized)

/-- `normalize`. -/
def normalizeRanges (ranges : List ExtentRange) : Except Stop (List ExtentRange) :=
  let kept := ranges.filter (·.bytes != 0)
  if kept.all (·.valid) then
    match sortBy kept fun left right => left.address ≤ right.address with
    | [] => .ok []
    | first :: rest => mergeRanges add first rest
  else .error (.refused "ExtentRangeOverflow")

/-- What is left of a range of the ledger when another one is released. -/
def releaseFrom (released : ExtentRange) (releasedEnd : UInt64) (existing : ExtentRange) :
    Except Stop (List ExtentRange) := do
  let existingEnd ← add existing.address existing.bytes
  if releasedEnd ≤ existing.address ∨ existingEnd ≤ released.address then .ok [existing]
  else
    .ok ((if existing.address < released.address then
        [⟨existing.address, released.address - existing.address⟩] else []) ++
      (if releasedEnd < existingEnd then [⟨releasedEnd, existingEnd - releasedEnd⟩] else []))

/-- The loop over `working` of one released range. -/
def releaseEach (released : ExtentRange) (releasedEnd : UInt64) :
    List ExtentRange → Except Stop (List ExtentRange)
  | [] => .ok []
  | existing :: rest => do
    let parts ← releaseFrom add released releasedEnd existing
    let retained ← releaseEach released releasedEnd rest
    .ok (parts ++ retained)

/-- The loop over the deallocations. -/
def releaseAll : List ExtentRange → List ExtentRange → Except Stop (List ExtentRange)
  | working, [] => .ok working
  | working, released :: rest =>
    if released.bytes = 0 then releaseAll working rest
    else if !released.valid then .error (.refused "ExtentRangeOverflow")
    else do
      let releasedEnd ← add released.address released.bytes
      let retained ← releaseEach add released releasedEnd working
      releaseAll retained rest

/-- `RangesOverlap`. -/
def rangesOverlap (left right : ExtentRange) : Except Stop Bool :=
  if left.bytes = 0 ∨ right.bytes = 0 then .ok false
  else if left.address > maxValue - left.bytes ∨ right.address > maxValue - right.bytes then .ok true
  else do
    let leftEnd ← add left.address left.bytes
    let rightEnd ← add right.address right.bytes
    .ok (decide (left.address < rightEnd ∧ right.address < leftEnd))

/-- The loop over `working` of one allocated range. -/
def overlapsAny (allocated : ExtentRange) : List ExtentRange → Except Stop Bool
  | [] => .ok false
  | existing :: rest => do
    let overlap ← rangesOverlap add allocated existing
    if overlap then .ok true else overlapsAny allocated rest

/-- The loop over the allocations. -/
def allocateAll : List ExtentRange → List ExtentRange → Except Stop (List ExtentRange)
  | working, [] => .ok working
  | working, allocated :: rest =>
    if allocated.bytes = 0 then allocateAll working rest
    else if !allocated.valid then .error (.refused "ExtentRangeOverflow")
    else do
      let overlap ← overlapsAny add allocated working
      if overlap then .error (.refused "AllocationOverlapDetected")
      else allocateAll (working ++ [allocated]) rest

/-- What `ApplyExtentDelta` makes of its copy of the ledger. -/
def extentDelta (ledger allocations deallocations : List ExtentRange) :
    Except Stop (List ExtentRange) := do
  let working ← normalizeRanges add ledger
  let released ← releaseAll add working deallocations
  let allocated ← allocateAll add released allocations
  normalizeRanges add allocated

/-- `ApplyExtentDelta`: the answer, and the ledger after the call. -/
def applyExtentDelta (ledger allocations deallocations : List ExtentRange) :
    Except Stop Unit × List ExtentRange :=
  match extentDelta add ledger allocations deallocations with
  | .ok working => (.ok (), working)
  | .error stop => (.error stop, ledger)

end Function

/-! ## The words as numbers -/

/-- The addition is exact where the sum fits. -/
def Exact (add : Addition) : Prop :=
  ∀ left right, left.toNat + right.toNat ≤ uint64Max → add left right = .ok (left + right)

theorem exact_wrapping : Exact wrapping := fun _ _ _ => rfl

theorem exact_trapping : Exact trapping := fun _ _ h => if_pos h

/-- The function on words answers like the one on numbers. -/
inductive Refines : Except Stop (List ExtentRange) →
    Except RecoveryReason (List Coordinator.ExtentRange) → Prop
  | ok (ranges : List ExtentRange) : Refines (.ok ranges) (.ok (ranges.map ExtentRange.toNat))
  | overflow : Refines (.error (.refused "ExtentRangeOverflow")) (.error .extentRangeOverflow)
  | overlap :
      Refines (.error (.refused "AllocationOverlapDetected")) (.error .allocationOverlapDetected)

theorem Refines.bind {found : Except Stop (List ExtentRange)}
    {foundNat : Except RecoveryReason (List Coordinator.ExtentRange)}
    {next : List ExtentRange → Except Stop (List ExtentRange)}
    {nextNat : List Coordinator.ExtentRange → Except RecoveryReason (List Coordinator.ExtentRange)}
    (h : Refines found foundNat)
    (hnext : ∀ ranges, foundNat = .ok (ranges.map ExtentRange.toNat) →
      Refines (next ranges) (nextNat (ranges.map ExtentRange.toNat))) :
    Refines (found >>= next) (foundNat >>= nextNat) := by
  cases h with
  | ok ranges => exact hnext ranges rfl
  | overflow => exact .overflow
  | overlap => exact .overlap

theorem toNat_injective : Function.Injective ExtentRange.toNat := by
  rintro ⟨address, bytes⟩ ⟨address', bytes'⟩ h
  obtain ⟨haddress, hbytes⟩ := Coordinator.ExtentRange.mk.inj h
  obtain rfl : address = address' := UInt64.toNat_inj.mp haddress
  obtain rfl : bytes = bytes' := UInt64.toNat_inj.mp hbytes
  rfl

/-- Numbers determine the words. -/
theorem Refines.unique {found other : Except Stop (List ExtentRange)}
    {foundNat : Except RecoveryReason (List Coordinator.ExtentRange)} (h : Refines found foundNat)
    (hother : Refines other foundNat) : found = other := by
  cases h with
  | ok ranges =>
    generalize hranges : (Except.ok (ranges.map ExtentRange.toNat) :
      Except RecoveryReason (List Coordinator.ExtentRange)) = answer at hother
    cases hother with
    | ok others => rw [toNat_injective.list_map (Except.ok.inj hranges)]
    | overflow => exact nomatch hranges
    | overlap => exact nomatch hranges
  | overflow => cases hother; rfl
  | overlap => cases hother; rfl

section Numbers

variable {add : Addition} {range : ExtentRange}

theorem bytes_le (range : ExtentRange) : range.toNat.bytes ≤ uint64Max :=
  Nat.le_sub_one_of_lt range.bytes.toNat_lt

theorem bytes_le_of_mem_map {ranges : List ExtentRange} :
    ∀ found ∈ ranges.map ExtentRange.toNat, found.bytes ≤ uint64Max := by
  intro found hfound
  obtain ⟨range, -, rfl⟩ := List.mem_map.mp hfound
  exact bytes_le range

theorem toNat_eq_zero {word : UInt64} : word = 0 ↔ word.toNat = 0 := by
  rw [← UInt64.toNat_inj]
  rfl

theorem bytes_eq_zero_iff : range.bytes = 0 ↔ range.toNat.bytes = 0 := toNat_eq_zero

theorem toNat_add_of_le {left right : UInt64} (h : left.toNat + right.toNat ≤ uint64Max) :
    (left + right).toNat = left.toNat + right.toNat := by
  rw [UInt64.toNat_add]
  exact Nat.mod_eq_of_lt (by unfold uint64Max at h; omega)

theorem toNat_max_sub (word : UInt64) : (maxValue - word).toNat = uint64Max - word.toNat := by
  have hmax : maxValue.toNat = uint64Max := rfl
  rw [UInt64.toNat_sub_of_le _ _ (UInt64.le_iff_toNat_le.mpr (by
    rw [hmax]; exact Nat.le_sub_one_of_lt word.toNat_lt)), hmax]

theorem valid_toNat : range.toNat.valid = range.valid := by
  rw [Coordinator.ExtentRange.valid, ExtentRange.valid]
  refine congrArg₂ or ?_ ?_
  · rw [Bool.eq_iff_iff, beq_iff_eq, beq_iff_eq, toNat_eq_zero]
    rfl
  · rw [decide_eq_decide, UInt64.le_iff_toNat_le, toNat_max_sub]
    rfl

/-- The end of a range that fits. -/
theorem add_end (hadd : Exact add) (hfits : range.toNat.finish ≤ uint64Max) :
    add range.address range.bytes = .ok (range.address + range.bytes) ∧
      (range.address + range.bytes).toNat = range.toNat.finish :=
  ⟨hadd _ _ hfits, toNat_add_of_le hfits⟩

theorem mergeRanges_refines (hadd : Exact add) {prior : ExtentRange} {rest : List ExtentRange}
    (hfits : ∀ range ∈ prior :: rest, range.toNat.finish ≤ uint64Max) :
    Refines (mergeRanges add prior rest)
      (Coordinator.mergeRanges ((prior :: rest).map ExtentRange.toNat)) := by
  induction rest generalizing prior with
  | nil =>
    rw [mergeRanges, List.map_cons, List.map_nil, Coordinator.mergeRanges]
    exact .ok [prior]
  | cons range rest ih =>
    obtain ⟨hprior, hrest⟩ := List.forall_mem_cons.mp hfits
    obtain ⟨hrange, hlater⟩ := List.forall_mem_cons.mp hrest
    obtain ⟨hend, hendNat⟩ := add_end hadd hprior
    rw [mergeRanges, hend, List.map_cons, List.map_cons, Coordinator.mergeRanges]
    show Refines (if range.address < prior.address + prior.bytes then _ else _) _
    have hlt : range.address < prior.address + prior.bytes ↔
        range.toNat.address < prior.toNat.address + prior.toNat.bytes := by
      rw [UInt64.lt_iff_toNat_lt, hendNat]
      rfl
    have heq : range.address = prior.address + prior.bytes ↔
        range.toNat.address = prior.toNat.address + prior.toNat.bytes := by
      rw [← UInt64.toNat_inj, hendNat]
      rfl
    by_cases hbefore : range.address < prior.address + prior.bytes
    · rw [if_pos hbefore, if_pos (hlt.mp hbefore)]
      exact .overlap
    rw [if_neg hbefore, if_neg (fun h => hbefore (hlt.mpr h))]
    by_cases htouch : range.address = prior.address + prior.bytes
    · rw [if_pos htouch, if_pos (heq.mp htouch)]
      have htouchNat := heq.mp htouch
      unfold Coordinator.ExtentRange.finish at hrange hprior
      have hsum : prior.toNat.bytes + range.toNat.bytes ≤ uint64Max := by omega
      have hjoin : (prior.bytes + range.bytes).toNat = prior.toNat.bytes + range.toNat.bytes :=
        toNat_add_of_le hsum
      rw [hadd _ _ hsum]
      have hjoined := @ih { prior with bytes := prior.bytes + range.bytes } (by
        refine List.forall_mem_cons.mpr ⟨?_, hlater⟩
        unfold Coordinator.ExtentRange.finish
        show prior.toNat.address + (prior.bytes + range.bytes).toNat ≤ uint64Max
        rw [hjoin]
        omega)
      rw [List.map_cons, show ({ prior with bytes := prior.bytes + range.bytes } :
        ExtentRange).toNat = { prior.toNat with bytes := prior.toNat.bytes + range.toNat.bytes } by
          rw [← hjoin]; rfl] at hjoined
      exact hjoined
    · rw [if_neg htouch, if_neg (fun h => htouch (heq.mpr h))]
      have hinner := ih hrest
      rw [List.map_cons] at hinner
      generalize mergeRanges add range rest = found at hinner ⊢
      generalize Coordinator.mergeRanges (range.toNat :: rest.map ExtentRange.toNat) = foundNat
        at hinner ⊢
      cases hinner with
      | ok ranges => exact .ok (prior :: ranges)
      | overflow => exact .overflow
      | overlap => exact .overlap

theorem filter_map_toNat (ranges : List ExtentRange) :
    (ranges.map ExtentRange.toNat).filter (·.bytes != 0) =
      (ranges.filter (·.bytes != 0)).map ExtentRange.toNat := by
  rw [List.filter_map]
  refine congrArg _ (List.filter_congr fun range _ => ?_)
  rw [Function.comp_apply, Bool.eq_iff_iff, bne_iff_ne, bne_iff_ne, ne_eq, ne_eq, toNat_eq_zero]
  rfl

theorem sortBy_map_toNat (ranges : List ExtentRange) :
    sortBy (ranges.map ExtentRange.toNat) (fun left right => left.address ≤ right.address) =
      (sortBy ranges fun left right => left.address ≤ right.address).map ExtentRange.toNat := by
  refine (List.map_insertionSort _ _ ExtentRange.toNat ranges fun left _ right _ => ?_).symm
  rw [decide_eq_true_eq, decide_eq_true_eq, UInt64.le_iff_toNat_le]
  rfl

theorem normalizeRanges_refines (hadd : Exact add) (ranges : List ExtentRange) :
    Refines (normalizeRanges add ranges)
      (Coordinator.normalizeRanges (ranges.map ExtentRange.toNat)) := by
  have hall : ((ranges.filter (·.bytes != 0)).map ExtentRange.toNat).all (·.valid) =
      (ranges.filter (·.bytes != 0)).all (·.valid) := by
    rw [List.all_map]
    exact congrArg _ (funext fun range => valid_toNat)
  rw [normalizeRanges, Coordinator.normalizeRanges, filter_map_toNat, hall, sortBy_map_toNat]
  by_cases hvalid : (ranges.filter (·.bytes != 0)).all (·.valid) = true
  · rw [if_pos hvalid, if_pos hvalid]
    have hfits : ∀ range ∈ sortBy (ranges.filter (·.bytes != 0))
        (fun left right => left.address ≤ right.address), range.toNat.finish ≤ uint64Max := by
      intro range hrange
      have hkept := (sortBy_perm _ _).subset hrange
      have hne := bne_iff_ne.mp (List.mem_filter.mp hkept).2
      have hrangeValid := List.all_eq_true.mp hvalid range hkept
      rw [← valid_toNat, valid_iff (bytes_le range)] at hrangeValid
      exact hrangeValid fun hzero => hne (toNat_eq_zero.mpr hzero)
    generalize sortBy (ranges.filter (·.bytes != 0))
      (fun left right => decide (left.address ≤ right.address)) = sorted at hfits ⊢
    cases sorted with
    | nil =>
      rw [List.map_nil, Coordinator.mergeRanges]
      exact .ok []
    | cons first rest => exact mergeRanges_refines hadd hfits
  · rw [if_neg hvalid, if_neg hvalid]
    exact .overflow

/-- A range of a ledger under work ends in range. -/
theorem finish_le {working : List ExtentRange} (h : Working (working.map ExtentRange.toNat)) :
    ∀ range ∈ working, range.toNat.finish ≤ uint64Max :=
  fun _ hrange => h.bounded _ (List.mem_map_of_mem hrange)

theorem releaseFrom_refines (hadd : Exact add) {released existing : ExtentRange}
    (hreleased : released.toNat.finish ≤ uint64Max)
    (hexisting : existing.toNat.finish ≤ uint64Max) :
    ∃ parts, releaseFrom add released (released.address + released.bytes) existing = .ok parts ∧
      parts.map ExtentRange.toNat =
        Coordinator.releaseFrom released.toNat existing.toNat := by
  obtain ⟨hend, hendNat⟩ := add_end hadd hexisting
  have hreleasedNat := (add_end hadd hreleased).2
  rw [releaseFrom, hend, Coordinator.releaseFrom]
  generalize released.address + released.bytes = releasedEnd at hreleasedNat ⊢
  generalize existing.address + existing.bytes = existingEnd at hendNat ⊢
  have hmiss : (releasedEnd ≤ existing.address ∨ existingEnd ≤ released.address) ↔
      (released.toNat.address + released.toNat.bytes ≤ existing.toNat.address ∨
        existing.toNat.address + existing.toNat.bytes ≤ released.toNat.address) := by
    rw [UInt64.le_iff_toNat_le, UInt64.le_iff_toNat_le, hreleasedNat, hendNat]
    rfl
  have hleft : existing.address < released.address ↔
      existing.toNat.address < released.toNat.address := UInt64.lt_iff_toNat_lt
  have hright : releasedEnd < existingEnd ↔
      released.toNat.address + released.toNat.bytes <
        existing.toNat.address + existing.toNat.bytes := by
    rw [UInt64.lt_iff_toNat_lt, hreleasedNat, hendNat]
    rfl
  show ∃ parts, (if releasedEnd ≤ existing.address ∨ existingEnd ≤ released.address then _ else _) =
    Except.ok parts ∧ _
  by_cases h : releasedEnd ≤ existing.address ∨ existingEnd ≤ released.address
  · rw [if_pos h, if_pos (hmiss.mp h)]
    exact ⟨_, rfl, rfl⟩
  · rw [if_neg h, if_neg (fun hnat => h (hmiss.mpr hnat))]
    refine ⟨_, rfl, ?_⟩
    rw [List.map_append]
    refine congrArg₂ (· ++ ·) ?_ ?_
    · by_cases hbefore : existing.address < released.address
      · rw [if_pos hbefore, if_pos (hleft.mp hbefore), List.map_singleton, ExtentRange.toNat,
          UInt64.toNat_sub_of_le _ _ (UInt64.le_of_lt hbefore)]
        rfl
      · rw [if_neg hbefore, if_neg (fun hnat => hbefore (hleft.mpr hnat)), List.map_nil]
    · by_cases hbehind : releasedEnd < existingEnd
      · rw [if_pos hbehind, if_pos (hright.mp hbehind), List.map_singleton, ExtentRange.toNat,
          UInt64.toNat_sub_of_le _ _ (UInt64.le_of_lt hbehind), hreleasedNat, hendNat]
        rfl
      · rw [if_neg hbehind, if_neg (fun hnat => hbehind (hright.mpr hnat)), List.map_nil]

theorem releaseEach_refines (hadd : Exact add) {released : ExtentRange}
    {working : List ExtentRange} (hreleased : released.toNat.finish ≤ uint64Max)
    (hworking : ∀ range ∈ working, range.toNat.finish ≤ uint64Max) :
    ∃ retained,
      releaseEach add released (released.address + released.bytes) working = .ok retained ∧
      retained.map ExtentRange.toNat =
        (working.map ExtentRange.toNat).flatMap (Coordinator.releaseFrom released.toNat) := by
  induction working with
  | nil => exact ⟨[], rfl, rfl⟩
  | cons existing rest ih =>
    obtain ⟨hexisting, hrest⟩ := List.forall_mem_cons.mp hworking
    obtain ⟨parts, hparts, hpartsNat⟩ := releaseFrom_refines hadd hreleased hexisting
    obtain ⟨retained, hretained, hretainedNat⟩ := ih hrest
    rw [releaseEach, hparts, hretained]
    refine ⟨parts ++ retained, rfl, ?_⟩
    rw [List.map_append, hpartsNat, hretainedNat, List.map_cons, List.flatMap_cons]

theorem releaseAll_refines (hadd : Exact add) {working : List ExtentRange}
    (deallocations : List ExtentRange) (hworking : Working (working.map ExtentRange.toNat)) :
    Refines (releaseAll add working deallocations)
      (Coordinator.releaseAll (working.map ExtentRange.toNat)
        (deallocations.map ExtentRange.toNat)) := by
  induction deallocations generalizing working with
  | nil => exact .ok working
  | cons released rest ih =>
    rw [List.map_cons, releaseAll, Coordinator.releaseAll, valid_toNat]
    by_cases hzero : released.bytes = 0
    · rw [if_pos hzero, if_pos (bytes_eq_zero_iff.mp hzero)]
      exact ih hworking
    rw [if_neg hzero, if_neg (fun h => hzero (bytes_eq_zero_iff.mpr h))]
    by_cases hvalid : (!released.valid) = true
    · rw [if_pos hvalid, if_pos hvalid]
      exact .overflow
    rw [if_neg hvalid, if_neg hvalid]
    have hfits : released.toNat.finish ≤ uint64Max := by
      rw [Bool.not_eq_true', Bool.not_eq_false, ← valid_toNat, valid_iff (bytes_le released)]
        at hvalid
      exact hvalid fun h => hzero (bytes_eq_zero_iff.mpr h)
    obtain ⟨retained, hretained, hretainedNat⟩ :=
      releaseEach_refines hadd hfits (finish_le hworking)
    rw [(add_end hadd hfits).1]
    show Refines (releaseEach add released (released.address + released.bytes) working >>=
      fun retained => releaseAll add retained rest) _
    rw [hretained, ← hretainedNat]
    refine ih ?_
    rw [hretainedNat]
    exact hworking.release released.toNat

theorem rangesOverlap_refines (hadd : Exact add) {left right : ExtentRange}
    (hleft : left.toNat.finish ≤ uint64Max) (hright : right.toNat.finish ≤ uint64Max) :
    rangesOverlap add left right = .ok (Coordinator.rangesOverlap left.toNat right.toNat) := by
  obtain ⟨hleftEnd, hleftNat⟩ := add_end hadd hleft
  obtain ⟨hrightEnd, hrightNat⟩ := add_end hadd hright
  have hzero : (left.bytes = 0 ∨ right.bytes = 0) ↔
      (left.toNat.bytes = 0 ∨ right.toNat.bytes = 0) := or_congr bytes_eq_zero_iff bytes_eq_zero_iff
  rw [rangesOverlap, Coordinator.rangesOverlap]
  by_cases h : left.bytes = 0 ∨ right.bytes = 0
  · rw [if_pos h, if_pos (hzero.mp h)]
  rw [if_neg h, if_neg (fun hnat => h (hzero.mpr hnat))]
  have hword : ∀ range : ExtentRange, range.toNat.finish ≤ uint64Max →
      ¬ range.address > maxValue - range.bytes := by
    intro range hrange
    rw [gt_iff_lt, UInt64.lt_iff_toNat_lt, toNat_max_sub, not_lt]
    exact Nat.le_sub_of_add_le hrange
  have hvalid : ¬ (!left.toNat.valid || !right.toNat.valid) = true := by
    rw [(valid_iff (bytes_le left)).mpr fun _ => hleft,
      (valid_iff (bytes_le right)).mpr fun _ => hright]
    exact Bool.false_ne_true
  rw [if_neg (not_or.mpr ⟨hword left hleft, hword right hright⟩), if_neg hvalid, hleftEnd, hrightEnd]
  refine congrArg Except.ok (decide_eq_decide.mpr ?_)
  rw [UInt64.lt_iff_toNat_lt, UInt64.lt_iff_toNat_lt, hleftNat, hrightNat]
  rfl

theorem overlapsAny_refines (hadd : Exact add) {allocated : ExtentRange}
    {working : List ExtentRange} (hallocated : allocated.toNat.finish ≤ uint64Max)
    (hworking : ∀ range ∈ working, range.toNat.finish ≤ uint64Max) :
    overlapsAny add allocated working =
      .ok ((working.map ExtentRange.toNat).any (Coordinator.rangesOverlap allocated.toNat)) := by
  induction working with
  | nil => rfl
  | cons existing rest ih =>
    obtain ⟨hexisting, hrest⟩ := List.forall_mem_cons.mp hworking
    rw [overlapsAny, rangesOverlap_refines hadd hallocated hexisting, List.map_cons, List.any_cons]
    show (if Coordinator.rangesOverlap allocated.toNat existing.toNat = true then _ else _) = _
    cases Coordinator.rangesOverlap allocated.toNat existing.toNat with
    | true => rfl
    | false => exact ih hrest

theorem allocateAll_refines (hadd : Exact add) {working : List ExtentRange}
    (allocations : List ExtentRange) (hworking : Working (working.map ExtentRange.toNat)) :
    Refines (allocateAll add working allocations)
      (Coordinator.allocateAll (working.map ExtentRange.toNat)
        (allocations.map ExtentRange.toNat)) := by
  induction allocations generalizing working with
  | nil => exact .ok working
  | cons allocated rest ih =>
    rw [List.map_cons, allocateAll, Coordinator.allocateAll, valid_toNat]
    by_cases hzero : allocated.bytes = 0
    · rw [if_pos hzero, if_pos (bytes_eq_zero_iff.mp hzero)]
      exact ih hworking
    rw [if_neg hzero, if_neg (fun h => hzero (bytes_eq_zero_iff.mpr h))]
    have hzeroNat : allocated.toNat.bytes ≠ 0 := fun h => hzero (bytes_eq_zero_iff.mpr h)
    by_cases hvalid : (!allocated.valid) = true
    · rw [if_pos hvalid, if_pos hvalid]
      exact .overflow
    rw [if_neg hvalid, if_neg hvalid]
    have hfits : allocated.toNat.Fits := by
      rwa [Bool.not_eq_true', Bool.not_eq_false, ← valid_toNat, valid_iff (bytes_le allocated)]
        at hvalid
    rw [overlapsAny_refines hadd (hfits hzeroNat) (finish_le hworking)]
    show Refines (if (working.map ExtentRange.toNat).any _ = true then _ else _) _
    by_cases hmeets : (working.map ExtentRange.toNat).any
        (Coordinator.rangesOverlap allocated.toNat) = true
    · rw [if_pos hmeets, if_pos hmeets]
      exact .overlap
    · rw [if_neg hmeets, if_neg hmeets]
      have hdisjoint : Disjoint allocated.toNat.span (spanOf (working.map ExtentRange.toNat)) := by
        refine disjoint_spanOf_iff.mpr fun other hother => ?_
        have hnot := List.any_eq_false.mp ((Bool.not_eq_true _).mp hmeets) other hother
        exact (rangesOverlap_eq_false_iff (bytes_le allocated) hfits (hworking.fits other hother)
          (hworking.word other hother)).mp ((Bool.not_eq_true _).mp hnot)
      have hnext := hworking.allocate hzeroNat hfits hdisjoint
      have happend : (working ++ [allocated]).map ExtentRange.toNat =
          working.map ExtentRange.toNat ++ [allocated.toNat] := List.map_append
      rw [← happend] at hnext ⊢
      exact ih hnext

/-- **With an addition that is exact** the function is the one on numbers. -/
theorem extentDelta_refines (hadd : Exact add)
    (ledger allocations deallocations : List ExtentRange) :
    Refines (extentDelta add ledger allocations deallocations)
      (Coordinator.applyExtentDelta (ledger.map ExtentRange.toNat)
        (allocations.map ExtentRange.toNat) (deallocations.map ExtentRange.toNat)) := by
  rw [extentDelta, Coordinator.applyExtentDelta]
  refine (normalizeRanges_refines hadd ledger).bind fun working hworking => ?_
  obtain ⟨hwork, -⟩ := working_of_normalizeRanges bytes_le_of_mem_map hworking
  refine (releaseAll_refines hadd deallocations hwork).bind fun released hreleased => ?_
  obtain ⟨hrelease, -⟩ := releaseAll_eq_ok hwork hreleased
  refine (allocateAll_refines hadd allocations hrelease).bind fun allocated _ => ?_
  exact normalizeRanges_refines hadd allocated

/-- No addition of the function wraps. -/
theorem extentDelta_trapping (ledger allocations deallocations : List ExtentRange) :
    extentDelta trapping ledger allocations deallocations =
      extentDelta wrapping ledger allocations deallocations :=
  (extentDelta_refines exact_trapping ledger allocations deallocations).unique
    (extentDelta_refines exact_wrapping ledger allocations deallocations)

end Numbers

/-! ## Set semantics -/

/-- The bytes of a list of ranges. -/
def spanOf (ranges : List ExtentRange) : Set ℕ := Coordinator.spanOf (ranges.map ExtentRange.toNat)

/-- The range is empty or ends in range. -/
def ExtentRange.Fits (range : ExtentRange) : Prop := range.toNat.Fits

/-- The ranges have no byte in common. -/
def Apart (ranges : List ExtentRange) : Prop := Coordinator.Apart (ranges.map ExtentRange.toNat)

/-- Sorted, without empty ranges, and with a gap after every range. -/
def Coalesced (ranges : List ExtentRange) : Prop :=
  Coordinator.Coalesced (ranges.map ExtentRange.toNat)

/-- What a delta needs to go through. -/
structure Applicable (ledger allocations deallocations : List ExtentRange) : Prop where
  ledgerFits : ∀ range ∈ ledger, range.Fits
  allocationsFit : ∀ range ∈ allocations, range.Fits
  deallocationsFit : ∀ range ∈ deallocations, range.Fits
  ledgerApart : Apart ledger
  allocationsApart : Apart allocations
  notHeld : Disjoint (spanOf allocations) (spanOf ledger \ spanOf deallocations)

section Sets

variable {ledger allocations deallocations : List ExtentRange}

theorem forall_fits_map {ranges : List ExtentRange} :
    (∀ range ∈ ranges.map ExtentRange.toNat, range.Fits) ↔ ∀ range ∈ ranges, range.Fits :=
  List.forall_mem_map

theorem Applicable.perm {ledger' allocations' deallocations' : List ExtentRange}
    (h : Applicable ledger allocations deallocations) (hledger : ledger'.Perm ledger)
    (hallocations : allocations'.Perm allocations)
    (hdeallocations : deallocations'.Perm deallocations) :
    Applicable ledger' allocations' deallocations' where
  ledgerFits range hrange := h.ledgerFits range (hledger.mem_iff.mp hrange)
  allocationsFit range hrange := h.allocationsFit range (hallocations.mem_iff.mp hrange)
  deallocationsFit range hrange := h.deallocationsFit range (hdeallocations.mem_iff.mp hrange)
  ledgerApart := (apart_perm (hledger.map _)).mpr h.ledgerApart
  allocationsApart := (apart_perm (hallocations.map _)).mpr h.allocationsApart
  notHeld := by
    rw [spanOf, spanOf, spanOf, spanOf_perm (hledger.map _), spanOf_perm (hallocations.map _),
      spanOf_perm (hdeallocations.map _)]
    exact h.notHeld

/-- The answer of the call, and what it leaves. -/
theorem applyExtentDelta_spec (ledger allocations deallocations : List ExtentRange) :
    (Applicable ledger allocations deallocations ∧
      ∃ after, applyExtentDelta wrapping ledger allocations deallocations = (.ok (), after) ∧
        Coalesced after ∧
        spanOf after = spanOf ledger \ spanOf deallocations ∪ spanOf allocations) ∨
    (¬ Applicable ledger allocations deallocations ∧
      ∃ stop, applyExtentDelta wrapping ledger allocations deallocations =
        (.error stop, ledger)) := by
  have hrefines := extentDelta_refines exact_wrapping ledger allocations deallocations
  have hiff := applyExtentDelta_ok_iff (@bytes_le_of_mem_map ledger)
    (@bytes_le_of_mem_map allocations) (@bytes_le_of_mem_map deallocations)
  have happlicable : Applicable ledger allocations deallocations ↔ ∃ after,
      Coordinator.applyExtentDelta (ledger.map ExtentRange.toNat)
        (allocations.map ExtentRange.toNat) (deallocations.map ExtentRange.toNat) = .ok after := by
    rw [hiff, forall_fits_map, forall_fits_map, forall_fits_map]
    constructor
    · exact fun h => ⟨⟨h.ledgerFits, h.allocationsFit, h.deallocationsFit⟩, h.ledgerApart,
        h.allocationsApart, h.notHeld⟩
    · exact fun h => ⟨h.1.1, h.1.2.1, h.1.2.2, h.2.1, h.2.2.1, h.2.2.2⟩
  rw [applyExtentDelta]
  cases hfound : extentDelta wrapping ledger allocations deallocations with
  | error stop =>
    rw [hfound] at hrefines
    refine .inr ⟨fun h => ?_, stop, rfl⟩
    obtain ⟨after, hafter⟩ := happlicable.mp h
    rw [hafter] at hrefines
    exact nomatch hrefines
  | ok after =>
    rw [hfound] at hrefines
    have hafter : Coordinator.applyExtentDelta (ledger.map ExtentRange.toNat)
        (allocations.map ExtentRange.toNat) (deallocations.map ExtentRange.toNat) =
          .ok (after.map ExtentRange.toNat) := by
      generalize Coordinator.applyExtentDelta _ _ _ = answer at hrefines
      cases hrefines
      rfl
    obtain ⟨hcoalesced, hspan⟩ :=
      applyExtentDelta_eq_ok bytes_le_of_mem_map bytes_le_of_mem_map hafter
    exact .inl ⟨happlicable.mpr ⟨_, hafter⟩, after, rfl, hcoalesced, hspan⟩

theorem Coalesced.eq_of_spanOf_eq {ranges others : List ExtentRange} (h : Coalesced ranges)
    (hother : Coalesced others) (hspan : spanOf ranges = spanOf others) : ranges = others :=
  toNat_injective.list_map (Coordinator.Coalesced.eq_of_spanOf_eq h hother hspan)

/-- **The ledger has set semantics.**  A delta goes through exactly when it is applicable; the ledger
is then the only coalesced list of its bytes, whatever the order of the lists; a delta that does
not go through leaves the ledger; and no addition wraps. -/
theorem applyExtentDelta_is_set_update (ledger allocations deallocations : List ExtentRange) :
    ((applyExtentDelta wrapping ledger allocations deallocations).1 = .ok () ↔
      Applicable ledger allocations deallocations) ∧
    ((applyExtentDelta wrapping ledger allocations deallocations).1 = .ok () →
      let after := (applyExtentDelta wrapping ledger allocations deallocations).2
      Coalesced after ∧
      spanOf after = spanOf ledger \ spanOf deallocations ∪ spanOf allocations ∧
      (∀ other, Coalesced other →
        spanOf other = spanOf ledger \ spanOf deallocations ∪ spanOf allocations → other = after) ∧
      ∀ ledger' allocations' deallocations', ledger'.Perm ledger → allocations'.Perm allocations →
        deallocations'.Perm deallocations →
          applyExtentDelta wrapping ledger' allocations' deallocations' = (.ok (), after)) ∧
    ((applyExtentDelta wrapping ledger allocations deallocations).1 ≠ .ok () →
      (applyExtentDelta wrapping ledger allocations deallocations).2 = ledger) ∧
    applyExtentDelta trapping ledger allocations deallocations =
      applyExtentDelta wrapping ledger allocations deallocations := by
  have htrapping : applyExtentDelta trapping ledger allocations deallocations =
      applyExtentDelta wrapping ledger allocations deallocations := by
    rw [applyExtentDelta, applyExtentDelta, extentDelta_trapping]
  rcases applyExtentDelta_spec ledger allocations deallocations with
    ⟨happlicable, after, hafter, hcoalesced, hspan⟩ | ⟨hnot, stop, hstop⟩
  · rw [hafter] at htrapping ⊢
    refine ⟨iff_of_true rfl happlicable, fun _ => ⟨hcoalesced, hspan, fun other hother hsame => ?_,
      fun ledger' allocations' deallocations' hledger hallocations hdeallocations => ?_⟩,
      fun hne => absurd rfl hne, htrapping⟩
    · exact hother.eq_of_spanOf_eq hcoalesced (hsame.trans hspan.symm)
    · rcases applyExtentDelta_spec ledger' allocations' deallocations' with
        ⟨-, after', hafter', hcoalesced', hspan'⟩ | ⟨hnot, -⟩
      · rw [hafter']
        have hsame : spanOf after' = spanOf after := by
          rw [hspan', hspan, spanOf, spanOf, spanOf, Coordinator.spanOf_perm (hledger.map _),
            Coordinator.spanOf_perm (hallocations.map _),
            Coordinator.spanOf_perm (hdeallocations.map _)]
          rfl
        rw [hcoalesced'.eq_of_spanOf_eq hcoalesced hsame]
      · exact absurd (happlicable.perm hledger hallocations hdeallocations) hnot
  · rw [hstop] at htrapping ⊢
    exact ⟨iff_of_false nofun hnot, fun h => absurd h nofun, fun _ => rfl, htrapping⟩

end Sets

/-- A release that cuts one range and spans another, and an allocation that joins what is left. -/
example : applyExtentDelta wrapping [⟨30, 10⟩, ⟨0, 10⟩, ⟨10, 5⟩] [⟨8, 2⟩, ⟨0, 0⟩] [⟨8, 30⟩] =
    (.ok (), [⟨0, 10⟩, ⟨38, 2⟩]) := by
  decide +kernel

end Words
end Coordinator
end ApfsAccess
