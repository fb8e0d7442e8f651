import ApfsAccess.Coordinator.Commit
import ApfsAccess.Library.Intervals

/-!
# The ledger as a set of bytes

`ApplyExtentDelta` keeps a list of ranges.  What it does to the list is set arithmetic on the bytes of
the ranges: the deallocations are taken out, the allocations are put in, and the list that it
leaves is the only sorted one without empty ranges and without ranges that touch.

* `mergeRanges_ok_iff`, `normalizeRanges_eq_ok` : the list that `normalize` makes.
* `releaseAll_eq_ok`, `allocateAll_eq_ok` : the two loops.
* `applyExtentDelta_ok_iff`, `applyExtentDelta_eq_ok` : the whole delta.
-/

namespace ApfsAccess
namespace Coordinator

open Sorting
open Intervals (Covered Separated)

/-! ## Bytes of ranges -/

/-- The end of a range. -/
def ExtentRange.finish (range : ExtentRange) : ℕ := range.address + range.bytes

/-- The bytes of a range. -/
def ExtentRange.span (range : ExtentRange) : Set ℕ := Set.Ico range.address range.finish

/-- The bytes of a list of ranges. -/
def spanOf (ranges : List ExtentRange) : Set ℕ := {byte | ∃ range ∈ ranges, byte ∈ range.span}

/-- The range does not end above the largest word, unless it is empty. -/
def ExtentRange.Fits (range : ExtentRange) : Prop := range.bytes ≠ 0 → range.finish ≤ uint64Max

/-- The ranges have no byte in common. -/
def Apart (ranges : List ExtentRange) : Prop :=
  ranges.Pairwise fun left right => Disjoint left.span right.span

/-- Sorted, without empty ranges, and with a gap after every range. -/
structure Coalesced (ranges : List ExtentRange) : Prop where
  notEmpty : ∀ range ∈ ranges, 0 < range.bytes
  gaps : ranges.Pairwise fun left right => left.finish < right.address

theorem mem_span {range : ExtentRange} {byte : ℕ} :
    byte ∈ range.span ↔ range.address ≤ byte ∧ byte < range.address + range.bytes := Iff.rfl

theorem span_of_bytes_eq_zero {range : ExtentRange} (h : range.bytes = 0) : range.span = ∅ := by
  rw [ExtentRange.span, ExtentRange.finish, h, Nat.add_zero, Set.Ico_self]

@[simp] theorem spanOf_nil : spanOf [] = ∅ := by
  ext byte
  simp [spanOf]

@[simp] theorem spanOf_cons (range : ExtentRange) (ranges : List ExtentRange) :
    spanOf (range :: ranges) = range.span ∪ spanOf ranges := by
  ext byte
  simp [spanOf]

@[simp] theorem spanOf_append (ranges others : List ExtentRange) :
    spanOf (ranges ++ others) = spanOf ranges ∪ spanOf others := by
  ext byte
  simp [spanOf, or_and_right, exists_or]

theorem spanOf_perm {ranges others : List ExtentRange} (h : ranges.Perm others) :
    spanOf ranges = spanOf others := by
  ext byte
  simp only [spanOf, Set.mem_ofPred_eq, h.mem_iff]

/-- Empty ranges have no bytes. -/
theorem spanOf_filter (ranges : List ExtentRange) :
    spanOf (ranges.filter (·.bytes != 0)) = spanOf ranges := by
  ext byte
  constructor
  · rintro ⟨range, hrange, hbyte⟩
    exact ⟨range, List.mem_of_mem_filter hrange, hbyte⟩
  · rintro ⟨range, hrange, hbyte⟩
    refine ⟨range, List.mem_filter.mpr ⟨hrange, bne_iff_ne.mpr fun hzero => ?_⟩, hbyte⟩
    rw [span_of_bytes_eq_zero hzero] at hbyte
    exact hbyte

theorem apart_perm {ranges others : List ExtentRange} (h : ranges.Perm others) :
    Apart ranges ↔ Apart others :=
  h.pairwise_iff fun hdisjoint => hdisjoint.symm

theorem apart_filter (ranges : List ExtentRange) :
    Apart (ranges.filter (·.bytes != 0)) ↔ Apart ranges := by
  unfold Apart
  rw [List.pairwise_filter]
  refine ⟨fun h => h.imp fun hdisjoint => ?_, fun h => h.imp fun hdisjoint _ _ => hdisjoint⟩
  rename_i left right
  by_cases hleft : left.bytes = 0
  · rw [span_of_bytes_eq_zero hleft]
    exact Set.empty_disjoint _
  by_cases hright : right.bytes = 0
  · rw [span_of_bytes_eq_zero hright]
    exact Set.disjoint_empty _
  exact hdisjoint (bne_iff_ne.mpr hleft) (bne_iff_ne.mpr hright)

/-- Two ranges have no byte in common when one ends before the other. -/
theorem disjoint_span_iff {left right : ExtentRange} (hleft : 0 < left.bytes)
    (hright : 0 < right.bytes) :
    Disjoint left.span right.span ↔
      left.finish ≤ right.address ∨ right.finish ≤ left.address := by
  unfold ExtentRange.finish
  constructor
  · intro h
    by_contra hmeet
    push Not at hmeet
    have hin : max left.address right.address ∈ left.span :=
      mem_span.mpr ⟨le_max_left .., by omega⟩
    have hother : max left.address right.address ∈ right.span :=
      mem_span.mpr ⟨le_max_right .., by omega⟩
    exact Set.disjoint_left.mp h hin hother
  · intro h
    refine Set.disjoint_left.mpr fun byte hin hother => ?_
    rw [mem_span] at hin hother
    omega

/-- Ranges in order with no byte in common follow each other. -/
theorem apart_iff_of_sorted {ranges : List ExtentRange} (hpos : ∀ range ∈ ranges, 0 < range.bytes)
    (hsorted : ranges.Pairwise fun left right => left.address ≤ right.address) :
    Apart ranges ↔ ranges.Pairwise fun left right => left.finish ≤ right.address := by
  unfold Apart
  induction ranges with
  | nil => simp
  | cons range rest ih =>
    obtain ⟨hrange, hrest⟩ := List.forall_mem_cons.mp hpos
    obtain ⟨hfirst, hlater⟩ := List.pairwise_cons.mp hsorted
    rw [List.pairwise_cons, List.pairwise_cons, ih hrest hlater]
    refine and_congr_left fun _ => forall₂_congr fun other hother => ?_
    have hpos' := hrest other hother
    have hle := hfirst other hother
    rw [disjoint_span_iff hrange hpos']
    refine ⟨fun h => h.resolve_right fun hback => ?_, Or.inl⟩
    unfold ExtentRange.finish at hback
    omega

/-! ## One list for every set -/

/-- A range as a half-open interval. -/
def ExtentRange.toInterval (range : ExtentRange) : ℕ × ℕ := (range.address, range.finish)

theorem toInterval_injective : Function.Injective ExtentRange.toInterval := by
  rintro ⟨address, bytes⟩ ⟨otherAddress, otherBytes⟩ h
  have haddress : address = otherAddress := congrArg Prod.fst h
  have hfinish : address + bytes = otherAddress + otherBytes := congrArg Prod.snd h
  rw [ExtentRange.mk.injEq]
  omega

theorem covered_map_toInterval {ranges : List ExtentRange} {byte : ℕ} :
    Covered (ranges.map ExtentRange.toInterval) byte ↔ byte ∈ spanOf ranges := by
  constructor
  · rintro ⟨interval, hinterval, hinside⟩
    obtain ⟨range, hrange, rfl⟩ := List.mem_map.mp hinterval
    exact ⟨range, hrange, hinside⟩
  · rintro ⟨range, hrange, hinside⟩
    exact ⟨range.toInterval, List.mem_map_of_mem hrange, hinside⟩

theorem Coalesced.separated {ranges : List ExtentRange} (h : Coalesced ranges) :
    Separated (ranges.map ExtentRange.toInterval) := by
  constructor
  · intro interval hinterval
    obtain ⟨range, hrange, rfl⟩ := List.mem_map.mp hinterval
    exact Nat.lt_add_of_pos_right (h.notEmpty range hrange)
  · exact List.pairwise_map.mpr h.gaps

/-- **A coalesced list is determined by its bytes.** -/
theorem Coalesced.eq_of_spanOf_eq {ranges others : List ExtentRange} (h : Coalesced ranges)
    (hother : Coalesced others) (hspan : spanOf ranges = spanOf others) : ranges = others := by
  have hintervals : ranges.map ExtentRange.toInterval = others.map ExtentRange.toInterval := by
    refine h.separated.eq_of_covered_iff hother.separated fun byte => ?_
    rw [covered_map_toInterval, covered_map_toInterval, hspan]
  exact toInterval_injective.list_map hintervals

/-! ## Normalizing -/

/-- Two ranges that touch have the bytes of the range that joins them. -/
theorem span_join {prior range : ExtentRange} (h : range.address = prior.address + prior.bytes) :
    ({ prior with bytes := prior.bytes + range.bytes } : ExtentRange).span =
      prior.span ∪ range.span := by
  ext byte
  rw [Set.mem_union, mem_span, mem_span, mem_span]
  dsimp only
  omega

/-- **The loop of `normalize`** goes through when every range follows the one before. -/
theorem mergeRanges_ok_iff {ranges : List ExtentRange} :
    (∃ merged, mergeRanges ranges = .ok merged) ↔
      ranges.Pairwise fun left right => left.finish ≤ right.address := by
  fun_induction mergeRanges ranges with
  | case1 => exact iff_of_true ⟨[], rfl⟩ List.Pairwise.nil
  | case2 range => exact iff_of_true ⟨[range], rfl⟩ (List.pairwise_singleton _ _)
  | case3 prior range rest hbefore =>
    refine iff_of_false (fun ⟨_, h⟩ => nomatch h) fun h => ?_
    have := List.rel_of_pairwise_cons h List.mem_cons_self
    unfold ExtentRange.finish at this
    omega
  | case4 prior range rest _ htouch ih =>
    rw [ih, List.pairwise_cons, List.pairwise_cons, List.pairwise_cons]
    unfold ExtentRange.finish
    dsimp only
    constructor
    · rintro ⟨hjoined, hrest⟩
      refine ⟨List.forall_mem_cons.mpr ⟨by omega, fun other hother => ?_⟩, fun other hother => ?_,
        hrest⟩
      · have := hjoined other hother
        omega
      · have := hjoined other hother
        omega
    · rintro ⟨-, hrange, hrest⟩
      refine ⟨fun other hother => ?_, hrest⟩
      have := hrange other hother
      omega
  | case5 prior range rest hbefore htouch error herror ih =>
    rw [herror] at ih
    refine iff_of_false (fun ⟨_, h⟩ => nomatch h) fun h => ?_
    obtain ⟨_, hmerged⟩ := ih.mpr h.of_cons
    exact nomatch hmerged
  | case6 prior range rest hbefore htouch merged hmerged ih =>
    have hrest := ih.mp ⟨merged, hmerged⟩
    refine iff_of_true ⟨_, rfl⟩ (List.pairwise_cons.mpr
      ⟨List.forall_mem_cons.mpr ⟨?_, fun other hother => ?_⟩, hrest⟩)
    · unfold ExtentRange.finish
      omega
    · have := List.rel_of_pairwise_cons hrest hother
      unfold ExtentRange.finish at this ⊢
      omega

/-- The list that the loop of `normalize` leaves starts where the first range starts. -/
theorem mergeRanges_eq_ok {ranges merged : List ExtentRange} (h : mergeRanges ranges = .ok merged)
    (hpos : ∀ range ∈ ranges, 0 < range.bytes) :
    Coalesced merged ∧ spanOf merged = spanOf ranges ∧
      ∀ range ∈ merged, ∃ first ∈ ranges.head?, first.address ≤ range.address := by
  fun_induction mergeRanges ranges generalizing merged with
  | case1 =>
    cases h
    exact ⟨⟨by simp, List.Pairwise.nil⟩, rfl, by simp⟩
  | case2 range =>
    cases h
    exact ⟨⟨hpos, List.pairwise_singleton _ _⟩, rfl,
      List.forall_mem_singleton.mpr ⟨range, rfl, le_refl _⟩⟩
  | case3 => exact nomatch h
  | case4 prior range rest _ htouch ih =>
    obtain ⟨hprior, hrest⟩ := List.forall_mem_cons.mp hpos
    obtain ⟨-, hlater⟩ := List.forall_mem_cons.mp hrest
    obtain ⟨hcoalesced, hspan, hfirst⟩ := ih h
      (List.forall_mem_cons.mpr ⟨Nat.add_pos_left hprior _, hlater⟩)
    refine ⟨hcoalesced, ?_, fun found hfound => ?_⟩
    · rw [hspan, spanOf_cons, span_join htouch, spanOf_cons, spanOf_cons, Set.union_assoc]
    · obtain ⟨first, hhead, hle⟩ := hfirst found hfound
      cases Option.some.inj hhead
      exact ⟨prior, rfl, hle⟩
  | case5 => exact nomatch h
  | case6 prior range rest hbefore htouch inner hinner ih =>
    cases h
    obtain ⟨hprior, hrest⟩ := List.forall_mem_cons.mp hpos
    obtain ⟨hcoalesced, hspan, hfirst⟩ := ih hinner hrest
    refine ⟨⟨List.forall_mem_cons.mpr ⟨hprior, hcoalesced.notEmpty⟩,
      List.pairwise_cons.mpr ⟨fun found hfound => ?_, hcoalesced.gaps⟩⟩, ?_,
      List.forall_mem_cons.mpr ⟨⟨prior, rfl, le_refl _⟩, fun found hfound => ?_⟩⟩
    · obtain ⟨first, hhead, hle⟩ := hfirst found hfound
      cases Option.some.inj hhead
      unfold ExtentRange.finish
      omega
    · rw [spanOf_cons, hspan, ← spanOf_cons]
    · obtain ⟨first, hhead, hle⟩ := hfirst found hfound
      cases Option.some.inj hhead
      exact ⟨prior, rfl, by omega⟩

section Normalize

variable {ranges : List ExtentRange}

theorem valid_iff {range : ExtentRange} (hword : range.bytes ≤ uint64Max) :
    range.valid = true ↔ range.Fits := by
  rw [ExtentRange.valid, Bool.or_eq_true, beq_iff_eq, decide_eq_true_eq, ExtentRange.Fits,
    ExtentRange.finish]
  omega

/-- The ranges that `normalize` sorts. -/
def sortedRanges (ranges : List ExtentRange) : List ExtentRange :=
  sortBy (ranges.filter (·.bytes != 0)) fun left right => left.address ≤ right.address

theorem sortedRanges_perm (ranges : List ExtentRange) :
    (sortedRanges ranges).Perm (ranges.filter (·.bytes != 0)) := sortBy_perm ..

theorem sortedRanges_pos {range : ExtentRange} (h : range ∈ sortedRanges ranges) :
    0 < range.bytes := by
  have hkept := (sortedRanges_perm ranges).subset h
  exact Nat.pos_of_ne_zero (bne_iff_ne.mp (List.mem_filter.mp hkept).2)

theorem sortedRanges_pairwise (ranges : List ExtentRange) :
    (sortedRanges ranges).Pairwise fun left right => left.address ≤ right.address :=
  pairwise_sortBy_of_rank ExtentRange.address fun _ _ _ _ => decide_eq_true_iff

theorem normalizeRanges_of_fits (hword : ∀ range ∈ ranges, range.bytes ≤ uint64Max)
    (hfits : ∀ range ∈ ranges, range.Fits) :
    normalizeRanges ranges = mergeRanges (sortedRanges ranges) := by
  rw [normalizeRanges, if_pos]
  · rfl
  · refine List.all_eq_true.mpr fun range hrange => ?_
    have hmem := List.mem_of_mem_filter hrange
    exact (valid_iff (hword range hmem)).mpr (hfits range hmem)

/-- **`normalize` goes through** when the ranges fit and have no byte in common. -/
theorem normalizeRanges_ok_iff (hword : ∀ range ∈ ranges, range.bytes ≤ uint64Max) :
    (∃ normalized, normalizeRanges ranges = .ok normalized) ↔
      (∀ range ∈ ranges, range.Fits) ∧ Apart ranges := by
  by_cases hfits : ∀ range ∈ ranges, range.Fits
  · rw [normalizeRanges_of_fits hword hfits, mergeRanges_ok_iff, and_iff_right hfits,
      ← apart_iff_of_sorted (fun _ h => sortedRanges_pos h) (sortedRanges_pairwise ranges),
      apart_perm (sortedRanges_perm ranges), apart_filter]
  · refine iff_of_false (fun ⟨normalized, h⟩ => hfits fun range hrange => ?_) fun h => hfits h.1
    by_cases hzero : range.bytes = 0
    · exact fun hne => absurd hzero hne
    · rw [normalizeRanges] at h
      split at h
      · rename_i hall
        have hkept : range ∈ ranges.filter (·.bytes != 0) :=
          List.mem_filter.mpr ⟨hrange, bne_iff_ne.mpr hzero⟩
        exact (valid_iff (hword range hrange)).mp (List.all_eq_true.mp hall range hkept)
      · exact nomatch h

/-- **The list that `normalize` makes.** -/
theorem normalizeRanges_eq_ok {normalized : List ExtentRange}
    (hword : ∀ range ∈ ranges, range.bytes ≤ uint64Max)
    (h : normalizeRanges ranges = .ok normalized) :
    Coalesced normalized ∧ spanOf normalized = spanOf ranges := by
  have hfits := ((normalizeRanges_ok_iff hword).mp ⟨normalized, h⟩).1
  rw [normalizeRanges_of_fits hword hfits] at h
  obtain ⟨hcoalesced, hspan, -⟩ := mergeRanges_eq_ok h fun _ hrange => sortedRanges_pos hrange
  rw [spanOf_perm (sortedRanges_perm ranges), spanOf_filter] at hspan
  exact ⟨hcoalesced, hspan⟩

end Normalize

/-! ## The two loops -/

/-- The ranges of a ledger under work: none is empty, all end in range, and none overlaps another. -/
structure Working (ranges : List ExtentRange) : Prop where
  notEmpty : ∀ range ∈ ranges, 0 < range.bytes
  bounded : ∀ range ∈ ranges, range.finish ≤ uint64Max
  apart : Apart ranges

section Loops

variable {working deallocations allocations : List ExtentRange}

theorem Working.word (h : Working working) : ∀ range ∈ working, range.bytes ≤ uint64Max :=
  fun range hrange => (Nat.le_add_left _ _).trans (h.bounded range hrange)

theorem Working.fits (h : Working working) : ∀ range ∈ working, range.Fits :=
  fun range hrange _ => h.bounded range hrange

/-- A coalesced list whose bytes are in range is a ledger under work. -/
theorem Coalesced.toWorking (h : Coalesced working)
    (hspan : ∀ byte ∈ spanOf working, byte < uint64Max) : Working working where
  notEmpty := h.notEmpty
  bounded range hrange := by
    have hpos := h.notEmpty range hrange
    have hlast := hspan (range.address + range.bytes - 1)
      ⟨range, hrange, mem_span.mpr ⟨by omega, by omega⟩⟩
    unfold ExtentRange.finish
    omega
  apart := h.gaps.imp_of_mem fun hleft hright hlt =>
    (disjoint_span_iff (h.notEmpty _ hleft) (h.notEmpty _ hright)).mpr (.inl hlt.le)

/-- **What is left of a range** when another one is released. -/
theorem spanOf_releaseFrom (released existing : ExtentRange) :
    spanOf (releaseFrom released existing) = existing.span \ released.span := by
  ext byte
  rw [releaseFrom]
  by_cases hmiss : released.address + released.bytes ≤ existing.address ∨
      existing.address + existing.bytes ≤ released.address
  · rw [if_pos hmiss, spanOf_cons, spanOf_nil, Set.union_empty, Set.mem_sdiff, mem_span, mem_span]
    omega
  · rw [if_neg hmiss, spanOf_append, Set.mem_union, Set.mem_sdiff, mem_span, mem_span]
    have hbefore : byte ∈ spanOf (if existing.address < released.address then
        [⟨existing.address, released.address - existing.address⟩] else []) ↔
        existing.address ≤ byte ∧ byte < released.address := by
      split
      · rw [spanOf_cons, spanOf_nil, Set.union_empty, mem_span]
        dsimp only
        omega
      · rw [spanOf_nil]
        exact iff_of_false (Set.notMem_empty _) (by omega)
    have hbehind : byte ∈ spanOf (if released.address + released.bytes <
          existing.address + existing.bytes then
        [⟨released.address + released.bytes,
          existing.address + existing.bytes - (released.address + released.bytes)⟩] else []) ↔
        released.address + released.bytes ≤ byte ∧ byte < existing.address + existing.bytes := by
      split
      · rw [spanOf_cons, spanOf_nil, Set.union_empty, mem_span]
        dsimp only
        omega
      · rw [spanOf_nil]
        exact iff_of_false (Set.notMem_empty _) (by omega)
    rw [hbefore, hbehind]
    omega

theorem working_releaseFrom (released : ExtentRange) {existing : ExtentRange}
    (hpos : 0 < existing.bytes) (hbound : existing.finish ≤ uint64Max) :
    Working (releaseFrom released existing) := by
  unfold ExtentRange.finish at hbound
  rw [releaseFrom]
  split
  · exact ⟨List.forall_mem_singleton.mpr hpos, List.forall_mem_singleton.mpr hbound,
      List.pairwise_singleton _ _⟩
  · split
    · split
      · refine ⟨?_, ?_, List.pairwise_pair.mpr ?_⟩
        · exact List.forall_mem_cons.mpr
            ⟨by dsimp only; omega, List.forall_mem_singleton.mpr (by dsimp only; omega)⟩
        · unfold ExtentRange.finish
          exact List.forall_mem_cons.mpr
            ⟨by dsimp only; omega, List.forall_mem_singleton.mpr (by dsimp only; omega)⟩
        · refine Set.disjoint_left.mpr fun byte hin hother => ?_
          rw [mem_span] at hin hother
          dsimp only at hin hother
          omega
      · refine ⟨List.forall_mem_singleton.mpr ?_, List.forall_mem_singleton.mpr ?_,
          List.pairwise_singleton _ _⟩
        · dsimp only
          omega
        · unfold ExtentRange.finish
          dsimp only
          omega
    · split
      · refine ⟨List.forall_mem_singleton.mpr ?_, List.forall_mem_singleton.mpr ?_,
          List.pairwise_singleton _ _⟩
        · dsimp only
          omega
        · unfold ExtentRange.finish
          dsimp only
          omega
      · exact ⟨by simp, by simp, List.Pairwise.nil⟩

theorem spanOf_flatMap_releaseFrom (released : ExtentRange) (ranges : List ExtentRange) :
    spanOf (ranges.flatMap (releaseFrom released)) = spanOf ranges \ released.span := by
  induction ranges with
  | nil => rw [List.flatMap_nil, spanOf_nil, Set.empty_sdiff]
  | cons range rest ih =>
    rw [List.flatMap_cons, spanOf_append, ih, spanOf_releaseFrom, spanOf_cons, Set.union_sdiff_distrib]

theorem span_subset_spanOf {range : ExtentRange} {ranges : List ExtentRange} (h : range ∈ ranges) :
    range.span ⊆ spanOf ranges := fun _ hbyte => ⟨range, h, hbyte⟩

/-- **Releasing one range** keeps the ledger under work in order. -/
theorem Working.release (h : Working working) (released : ExtentRange) :
    Working (working.flatMap (releaseFrom released)) := by
  have hpart : ∀ {existing}, existing ∈ working → Working (releaseFrom released existing) :=
    fun hexisting => working_releaseFrom released (h.notEmpty _ hexisting) (h.bounded _ hexisting)
  have hinside : ∀ {existing range}, range ∈ releaseFrom released existing →
      range.span ⊆ existing.span := by
    intro existing range hrange
    refine (span_subset_spanOf hrange).trans ?_
    rw [spanOf_releaseFrom]
    exact Set.sdiff_subset
  refine ⟨fun range hrange => ?_, fun range hrange => ?_, List.pairwise_flatMap.mpr ⟨?_, ?_⟩⟩
  · obtain ⟨existing, hexisting, hmem⟩ := List.mem_flatMap.mp hrange
    exact (hpart hexisting).notEmpty range hmem
  · obtain ⟨existing, hexisting, hmem⟩ := List.mem_flatMap.mp hrange
    exact (hpart hexisting).bounded range hmem
  · exact fun existing hexisting => (hpart hexisting).apart
  · refine h.apart.imp fun hdisjoint left hleft right hright => ?_
    exact hdisjoint.mono (hinside hleft) (hinside hright)

/-- **The deallocations** are all taken out, when they fit. -/
theorem releaseAll_ok_iff (hwords : ∀ range ∈ deallocations, range.bytes ≤ uint64Max) :
    (∃ released, releaseAll working deallocations = .ok released) ↔
      ∀ range ∈ deallocations, range.Fits := by
  induction deallocations generalizing working with
  | nil => exact iff_of_true ⟨working, rfl⟩ (by simp)
  | cons released rest ih =>
    obtain ⟨hword, hrest⟩ := List.forall_mem_cons.mp hwords
    rw [releaseAll, List.forall_mem_cons]
    by_cases hzero : released.bytes = 0
    · have hfits : released.Fits := fun hne => absurd hzero hne
      rw [if_pos hzero, ih hrest, and_iff_right hfits]
    · rw [if_neg hzero]
      by_cases hvalid : released.valid = true
      · rw [if_neg (by rw [hvalid]; exact nofun), ih hrest,
          and_iff_right ((valid_iff hword).mp hvalid)]
      · rw [if_pos (by rw [Bool.not_eq_true'] ; exact (Bool.not_eq_true _).mp hvalid)]
        exact iff_of_false (fun ⟨_, h⟩ => nomatch h)
          fun h => hvalid ((valid_iff hword).mpr h.1)

theorem releaseAll_eq_ok {released : List ExtentRange} (h : Working working)
    (hok : releaseAll working deallocations = .ok released) :
    Working released ∧ spanOf released = spanOf working \ spanOf deallocations := by
  induction deallocations generalizing working with
  | nil =>
    cases hok
    exact ⟨h, by rw [spanOf_nil, Set.sdiff_empty]⟩
  | cons range rest ih =>
    rw [releaseAll] at hok
    by_cases hzero : range.bytes = 0
    · rw [if_pos hzero] at hok
      rw [spanOf_cons, span_of_bytes_eq_zero hzero, Set.empty_union]
      exact ih h hok
    · rw [if_neg hzero] at hok
      split at hok
      · exact nomatch hok
      · obtain ⟨hworking, hspan⟩ := ih (h.release range) hok
        refine ⟨hworking, ?_⟩
        rw [hspan, spanOf_flatMap_releaseFrom, spanOf_cons, Set.sdiff_sdiff]

/-- `RangesOverlap` says whether two ranges have a byte in common. -/
theorem rangesOverlap_eq_false_iff {left right : ExtentRange} (hleftWord : left.bytes ≤ uint64Max)
    (hleft : left.Fits) (hright : right.Fits) (hrightWord : right.bytes ≤ uint64Max) :
    rangesOverlap left right = false ↔ Disjoint left.span right.span := by
  rw [rangesOverlap]
  by_cases hzero : left.bytes = 0 ∨ right.bytes = 0
  · rw [if_pos hzero]
    refine iff_of_true rfl ?_
    rcases hzero with hzero | hzero
    · rw [span_of_bytes_eq_zero hzero]
      exact Set.empty_disjoint _
    · rw [span_of_bytes_eq_zero hzero]
      exact Set.disjoint_empty _
  · have hvalid : ¬ (!left.valid || !right.valid) = true := by
      rw [(valid_iff hleftWord).mpr hleft, (valid_iff hrightWord).mpr hright]
      exact nofun
    push Not at hzero
    rw [if_neg (not_or.mpr hzero), if_neg hvalid, decide_eq_false_iff_not,
      disjoint_span_iff (Nat.pos_of_ne_zero hzero.1) (Nat.pos_of_ne_zero hzero.2)]
    unfold ExtentRange.finish
    omega

theorem disjoint_spanOf_iff {range : ExtentRange} {ranges : List ExtentRange} :
    Disjoint range.span (spanOf ranges) ↔ ∀ other ∈ ranges, Disjoint range.span other.span := by
  constructor
  · exact fun h other hother => h.mono_right (span_subset_spanOf hother)
  · intro h
    refine Set.disjoint_left.mpr fun byte hin hbyte => ?_
    obtain ⟨other, hother, hin'⟩ := hbyte
    exact Set.disjoint_left.mp (h other hother) hin hin'

/-- An allocation that meets nothing is put behind the ledger under work. -/
theorem Working.allocate (h : Working working) {allocated : ExtentRange}
    (hpos : allocated.bytes ≠ 0) (hfits : allocated.Fits)
    (hdisjoint : Disjoint allocated.span (spanOf working)) : Working (working ++ [allocated]) where
  notEmpty range hrange := by
    rcases List.mem_append.mp hrange with hrange | hrange
    · exact h.notEmpty range hrange
    · rw [List.mem_singleton.mp hrange]
      exact Nat.pos_of_ne_zero hpos
  bounded range hrange := by
    rcases List.mem_append.mp hrange with hrange | hrange
    · exact h.bounded range hrange
    · rw [List.mem_singleton.mp hrange]
      exact hfits hpos
  apart := by
    refine List.pairwise_append.mpr ⟨h.apart, List.pairwise_singleton _ _, ?_⟩
    intro range hrange other hother
    rw [List.mem_singleton.mp hother]
    exact (disjoint_spanOf_iff.mp hdisjoint range hrange).symm

/-- **The allocations** are all put in, when they fit and have no byte in common with each other or
with the ledger under work. -/
theorem allocateAll_ok_iff (h : Working working)
    (hwords : ∀ range ∈ allocations, range.bytes ≤ uint64Max) :
    (∃ allocated, allocateAll working allocations = .ok allocated) ↔
      (∀ range ∈ allocations, range.Fits) ∧ Apart allocations ∧
        Disjoint (spanOf allocations) (spanOf working) := by
  induction allocations generalizing working with
  | nil =>
    refine iff_of_true ⟨working, rfl⟩ ⟨by simp, List.Pairwise.nil, ?_⟩
    rw [spanOf_nil]
    exact Set.empty_disjoint _
  | cons range rest ih =>
    obtain ⟨hword, hrest⟩ := List.forall_mem_cons.mp hwords
    have hcons : Apart (range :: rest) ↔ Disjoint range.span (spanOf rest) ∧ Apart rest := by
      unfold Apart
      rw [List.pairwise_cons, disjoint_spanOf_iff]
    rw [allocateAll, List.forall_mem_cons, hcons, spanOf_cons, Set.disjoint_union_left]
    by_cases hzero : range.bytes = 0
    · rw [if_pos hzero, ih h hrest, span_of_bytes_eq_zero hzero]
      have hfits : range.Fits := fun hne => absurd hzero hne
      simp only [hfits, Set.empty_disjoint, true_and]
    rw [if_neg hzero]
    by_cases hvalid : range.valid = true
    swap
    · rw [if_pos (by rw [Bool.not_eq_true']; exact (Bool.not_eq_true _).mp hvalid)]
      exact iff_of_false (fun ⟨_, hok⟩ => nomatch hok)
        fun hall => hvalid ((valid_iff hword).mpr hall.1.1)
    have hfits := (valid_iff hword).mp hvalid
    rw [if_neg (by rw [hvalid]; exact nofun)]
    have hany : working.any (rangesOverlap range) = false ↔
        Disjoint range.span (spanOf working) := by
      rw [List.any_eq_false, disjoint_spanOf_iff]
      refine forall₂_congr fun other hother => ?_
      rw [Bool.not_eq_true, rangesOverlap_eq_false_iff hword hfits (h.fits other hother)
        (h.word other hother)]
    by_cases hmeets : working.any (rangesOverlap range) = true
    · rw [if_pos hmeets]
      refine iff_of_false (fun ⟨_, hok⟩ => nomatch hok) fun hall => ?_
      rw [hany.mpr hall.2.2.1] at hmeets
      exact nomatch hmeets
    · have hdisjoint := hany.mp ((Bool.not_eq_true _).mp hmeets)
      rw [if_neg hmeets, ih (h.allocate hzero hfits hdisjoint) hrest, spanOf_append, spanOf_cons,
        spanOf_nil, Set.union_empty, Set.disjoint_union_right]
      constructor
      · rintro ⟨hrestFits, hrestApart, hrestWorking, hrestRange⟩
        exact ⟨⟨hfits, hrestFits⟩, ⟨hrestRange.symm, hrestApart⟩, hdisjoint, hrestWorking⟩
      · rintro ⟨⟨-, hrestFits⟩, ⟨hrestRange, hrestApart⟩, -, hrestWorking⟩
        exact ⟨hrestFits, hrestApart, hrestWorking, hrestRange.symm⟩

theorem allocateAll_eq_ok {allocated : List ExtentRange} (h : Working working)
    (hwords : ∀ range ∈ allocations, range.bytes ≤ uint64Max)
    (hok : allocateAll working allocations = .ok allocated) :
    Working allocated ∧ spanOf allocated = spanOf working ∪ spanOf allocations := by
  induction allocations generalizing working with
  | nil =>
    cases hok
    exact ⟨h, by rw [spanOf_nil, Set.union_empty]⟩
  | cons range rest ih =>
    obtain ⟨hword, hrest⟩ := List.forall_mem_cons.mp hwords
    obtain ⟨hfits, hapart, hdisjoint⟩ := (allocateAll_ok_iff h hwords).mp ⟨allocated, hok⟩
    rw [allocateAll] at hok
    by_cases hzero : range.bytes = 0
    · rw [if_pos hzero] at hok
      rw [spanOf_cons, span_of_bytes_eq_zero hzero, Set.empty_union]
      exact ih h hrest hok
    · rw [if_neg hzero] at hok
      split at hok
      · exact nomatch hok
      split at hok
      · exact nomatch hok
      rw [spanOf_cons] at hdisjoint
      have hmiss := (Set.disjoint_union_left.mp hdisjoint).1
      obtain ⟨hworking, hspan⟩ :=
        ih (h.allocate hzero (hfits range List.mem_cons_self) hmiss) hrest hok
      refine ⟨hworking, ?_⟩
      rw [hspan, spanOf_append, spanOf_cons, spanOf_nil, Set.union_empty, spanOf_cons,
        Set.union_assoc]

end Loops

/-! ## The whole delta -/

section Delta

variable {ledger allocations deallocations : List ExtentRange}

theorem spanOf_lt_of_fits {ranges : List ExtentRange} (h : ∀ range ∈ ranges, range.Fits) :
    ∀ byte ∈ spanOf ranges, byte < uint64Max := by
  rintro byte ⟨range, hrange, hbyte⟩
  rw [mem_span] at hbyte
  have hfits := h range hrange (by omega)
  unfold ExtentRange.finish at hfits
  omega

/-- What `normalize` makes of a ledger is a ledger under work. -/
theorem working_of_normalizeRanges {normalized : List ExtentRange}
    (hword : ∀ range ∈ ledger, range.bytes ≤ uint64Max)
    (h : normalizeRanges ledger = .ok normalized) :
    Working normalized ∧ spanOf normalized = spanOf ledger := by
  obtain ⟨hcoalesced, hspan⟩ := normalizeRanges_eq_ok hword h
  have hfits := ((normalizeRanges_ok_iff hword).mp ⟨normalized, h⟩).1
  exact ⟨hcoalesced.toWorking fun byte hbyte => spanOf_lt_of_fits hfits byte (hspan ▸ hbyte), hspan⟩

/-- **The stages of a delta that goes through.** -/
theorem applyExtentDelta_stages {after : List ExtentRange}
    (h : applyExtentDelta ledger allocations deallocations = .ok after) :
    ∃ working released allocated, normalizeRanges ledger = .ok working ∧
      releaseAll working deallocations = .ok released ∧
      allocateAll released allocations = .ok allocated ∧ normalizeRanges allocated = .ok after := by
  rw [applyExtentDelta] at h
  cases hworking : normalizeRanges ledger with
  | error reason => rw [hworking] at h; exact nomatch h
  | ok working =>
    rw [hworking] at h
    cases hreleased : releaseAll working deallocations with
    | error reason =>
      replace h : (releaseAll working deallocations >>= fun released =>
        allocateAll released allocations >>= normalizeRanges) = .ok after := h
      rw [hreleased] at h
      exact nomatch h
    | ok released =>
      replace h : (releaseAll working deallocations >>= fun released =>
        allocateAll released allocations >>= normalizeRanges) = .ok after := h
      rw [hreleased] at h
      cases hallocated : allocateAll released allocations with
      | error reason =>
        replace h : (allocateAll released allocations >>= normalizeRanges) = .ok after := h
        rw [hallocated] at h
        exact nomatch h
      | ok allocated =>
        replace h : (allocateAll released allocations >>= normalizeRanges) = .ok after := h
        rw [hallocated] at h
        exact ⟨working, released, allocated, rfl, hreleased, hallocated, h⟩

/-- **A delta goes through** exactly when the ranges fit, the ledger's have no byte in common, and the
allocations have none with each other or with what the deallocations leave. -/
theorem applyExtentDelta_ok_iff (hledger : ∀ range ∈ ledger, range.bytes ≤ uint64Max)
    (hallocations : ∀ range ∈ allocations, range.bytes ≤ uint64Max)
    (hdeallocations : ∀ range ∈ deallocations, range.bytes ≤ uint64Max) :
    (∃ after, applyExtentDelta ledger allocations deallocations = .ok after) ↔
      ((∀ range ∈ ledger, range.Fits) ∧ (∀ range ∈ allocations, range.Fits) ∧
        ∀ range ∈ deallocations, range.Fits) ∧
      Apart ledger ∧ Apart allocations ∧
      Disjoint (spanOf allocations) (spanOf ledger \ spanOf deallocations) := by
  constructor
  · rintro ⟨after, h⟩
    obtain ⟨working, released, allocated, hworking, hreleased, hallocated, -⟩ :=
      applyExtentDelta_stages h
    obtain ⟨hfits, hapart⟩ := (normalizeRanges_ok_iff hledger).mp ⟨working, hworking⟩
    obtain ⟨hwork, hspan⟩ := working_of_normalizeRanges hledger hworking
    obtain ⟨hrelease, hreleaseSpan⟩ := releaseAll_eq_ok hwork hreleased
    obtain ⟨hallocFits, hallocApart, hdisjoint⟩ :=
      (allocateAll_ok_iff hrelease hallocations).mp ⟨allocated, hallocated⟩
    rw [hreleaseSpan, hspan] at hdisjoint
    exact ⟨⟨hfits, hallocFits, (releaseAll_ok_iff hdeallocations).mp ⟨released, hreleased⟩⟩,
      hapart, hallocApart, hdisjoint⟩
  · rintro ⟨⟨hfits, hallocFits, hdeallocFits⟩, hapart, hallocApart, hdisjoint⟩
    obtain ⟨working, hworking⟩ := (normalizeRanges_ok_iff hledger).mpr ⟨hfits, hapart⟩
    obtain ⟨hwork, hspan⟩ := working_of_normalizeRanges hledger hworking
    obtain ⟨released, hreleased⟩ := (@releaseAll_ok_iff working _ hdeallocations).mpr hdeallocFits
    obtain ⟨hrelease, hreleaseSpan⟩ := releaseAll_eq_ok hwork hreleased
    obtain ⟨allocated, hallocated⟩ := (allocateAll_ok_iff hrelease hallocations).mpr
      ⟨hallocFits, hallocApart, by rwa [hreleaseSpan, hspan]⟩
    obtain ⟨hfinal, -⟩ := allocateAll_eq_ok hrelease hallocations hallocated
    obtain ⟨after, hafter⟩ := (normalizeRanges_ok_iff hfinal.word).mpr ⟨hfinal.fits, hfinal.apart⟩
    refine ⟨after, ?_⟩
    rw [applyExtentDelta, hworking]
    show (releaseAll working deallocations >>= fun released =>
      allocateAll released allocations >>= normalizeRanges) = _
    rw [hreleased]
    show (allocateAll released allocations >>= normalizeRanges) = _
    rw [hallocated]
    exact hafter

/-- **The ledger after a delta.** -/
theorem applyExtentDelta_eq_ok {after : List ExtentRange}
    (hledger : ∀ range ∈ ledger, range.bytes ≤ uint64Max)
    (hallocations : ∀ range ∈ allocations, range.bytes ≤ uint64Max)
    (h : applyExtentDelta ledger allocations deallocations = .ok after) :
    Coalesced after ∧ spanOf after = spanOf ledger \ spanOf deallocations ∪ spanOf allocations := by
  obtain ⟨working, released, allocated, hworking, hreleased, hallocated, hafter⟩ :=
    applyExtentDelta_stages h
  obtain ⟨hwork, hspan⟩ := working_of_normalizeRanges hledger hworking
  obtain ⟨hrelease, hreleaseSpan⟩ := releaseAll_eq_ok hwork hreleased
  obtain ⟨hfinal, hfinalSpan⟩ := allocateAll_eq_ok hrelease hallocations hallocated
  obtain ⟨hcoalesced, hafterSpan⟩ := normalizeRanges_eq_ok hfinal.word hafter
  exact ⟨hcoalesced, by rw [hafterSpan, hfinalSpan, hreleaseSpan, hspan]⟩

end Delta

end Coordinator
end ApfsAccess
