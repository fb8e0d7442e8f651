import ApfsAccess.Allocator.Removal
import ApfsAccess.Library.Intervals

/-!
# One list for every set of bytes

A list in order is determined by the bytes it stands for.  Two operations that keep lists in order
therefore agree as soon as they agree on bytes, however differently they are written: the merging
insertion of `AddFreeExtent` with sorting and coalescing, the sweep of `RemoveAllocatedExtents`
with one `RemoveAllocatedExtent` after another, and any two orders of the same calls.

* `SortedValid.eq_of_bytesOf_eq` : lists in order with the same bytes are equal.
* `removeAllocatedExtent_spec` : taking out one extent.
* `addFreeExtent_eq_normalize`, `removeAllocatedExtents_eq_foldlM` : the comparisons.
-/

namespace ApfsAccess
namespace Allocator

open Intervals (Covered Separated)

/-! ## Lists in order as separated intervals -/

/-- An extent as a half-open interval. -/
def Extent.toInterval (extent : Extent) : ℕ × ℕ := (extent.physicalAddress, extent.finish)

theorem Extent.toInterval_injective : Function.Injective Extent.toInterval := by
  rintro ⟨address, bytes⟩ ⟨otherAddress, otherBytes⟩ h
  have haddress : address = otherAddress := congrArg Prod.fst h
  have hfinish : address + bytes = otherAddress + otherBytes := congrArg Prod.snd h
  rw [Extent.mk.injEq]
  omega

theorem covered_map_toInterval {extents : List Extent} {byte : ℕ} :
    Covered (extents.map Extent.toInterval) byte ↔ byte ∈ bytesOf extents := by
  constructor
  · rintro ⟨interval, hinterval, hinside⟩
    obtain ⟨extent, hextent, rfl⟩ := List.mem_map.mp hinterval
    exact ⟨extent, hextent, hinside⟩
  · rintro ⟨extent, hextent, hinside⟩
    exact ⟨extent.toInterval, List.mem_map_of_mem hextent, hinside⟩

theorem SortedValid.separated {extents : List Extent} (h : SortedValid extents) :
    Separated (extents.map Extent.toInterval) := by
  constructor
  · intro interval hinterval
    obtain ⟨extent, hextent, rfl⟩ := List.mem_map.mp hinterval
    have hbytes := (h.valid extent hextent).bytes
    show extent.physicalAddress < extent.physicalAddress + extent.bytes
    omega
  · exact List.pairwise_map.mpr h.apart

/-- **A list in order is determined by its bytes.** -/
theorem SortedValid.eq_of_bytesOf_eq {extents others : List Extent} (h : SortedValid extents)
    (hother : SortedValid others) (hbytes : bytesOf extents = bytesOf others) :
    extents = others := by
  have hintervals : extents.map Extent.toInterval = others.map Extent.toInterval := by
    refine h.separated.eq_of_covered_iff hother.separated fun byte => ?_
    rw [covered_map_toInterval, covered_map_toInterval, hbytes]
  exact Extent.toInterval_injective.list_map hintervals

/-! ## Giving extents back -/

/-- `AddFreeExtent` for one extent after another; `none` when a call answers false. -/
def addEach (freeExtents extents : List Extent) : Option (List Extent) :=
  extents.foldlM (fun current extent =>
    let result := addFreeExtent current extent
    if result.done then some result.freeExtents else none) freeExtents

theorem addEach_spec {freeExtents extents : List Extent} (hsorted : SortedValid freeExtents)
    (hvalid : ∀ extent ∈ extents, extent.Valid) :
    ∃ added, addEach freeExtents extents = some added ∧ SortedValid added ∧
      bytesOf added = bytesOf freeExtents ∪ bytesOf extents := by
  induction extents generalizing freeExtents with
  | nil => exact ⟨freeExtents, rfl, hsorted, by rw [bytesOf_nil, Set.union_empty]⟩
  | cons extent rest ih =>
    obtain ⟨hextent, hrest⟩ := List.forall_mem_cons.mp hvalid
    obtain ⟨next, undo, hnext, hnextSorted, hnextBytes, -⟩ := addFreeExtent_spec hsorted hextent
    obtain ⟨added, hadded, haddedSorted, haddedBytes⟩ := ih hnextSorted hrest
    refine ⟨added, ?_, haddedSorted, ?_⟩
    · rw [addEach, List.foldlM_cons, hnext]
      exact hadded
    · rw [haddedBytes, hnextBytes, bytesOf_cons, Set.union_assoc]

/-- **The merging insertion is sorting and coalescing.**  The order of several insertions does not
matter, and the undo record takes the insertion back. -/
theorem addFreeExtent_eq_normalize (freeExtents : List Extent) (extent : Extent)
    (hsorted : isSortedAndValid freeExtents = true)
    (hvalid : (rangeEnd extent.physicalAddress extent.bytes).isSome) :
    (∃ added undo, addFreeExtent freeExtents extent = ⟨true, added, undo⟩ ∧
      normalize (freeExtents ++ [extent]) = some added ∧
      isSortedAndValid added = true ∧ SortedValid added ∧
      bytesOf added = bytesOf freeExtents ∪ extent.range ∧
      rollbackAddFreeExtent added undo = (true, freeExtents)) ∧
    ∀ extents others : List Extent, extents.Perm others →
      (∀ other ∈ extents, (rangeEnd other.physicalAddress other.bytes).isSome) →
      ∃ added, addEach freeExtents extents = some added ∧
        addEach freeExtents others = some added := by
  have hvalidOf : ∀ {other : Extent}, (rangeEnd other.physicalAddress other.bytes).isSome →
      other.Valid := by
    intro other hsome
    obtain ⟨fin, hfin⟩ := Option.isSome_iff_exists.mp hsome
    exact (rangeEnd_eq_some.mp hfin).1
  have hin := isSortedAndValid_iff.mp hsorted
  constructor
  · obtain ⟨added, undo, hadded, haddedSorted, haddedBytes, hrollback⟩ :=
      addFreeExtent_spec hin (hvalidOf hvalid)
    have hall : ∀ other ∈ freeExtents ++ [extent], other.Valid :=
      List.forall_mem_append.mpr ⟨hin.valid, by simpa using hvalidOf hvalid⟩
    obtain ⟨merged, hmerged, hmergedSorted, hmergedBytes⟩ := normalize_spec hall
    have hsame : merged = added := by
      refine hmergedSorted.eq_of_bytesOf_eq haddedSorted ?_
      rw [hmergedBytes, haddedBytes, bytesOf_append, bytesOf_cons, bytesOf_nil, Set.union_empty]
    exact ⟨added, undo, hadded, hsame ▸ hmerged, isSortedAndValid_iff.mpr haddedSorted,
      haddedSorted, haddedBytes, hrollback⟩
  · intro extents others hperm hvalids
    obtain ⟨added, hadded, haddedSorted, haddedBytes⟩ :=
      addEach_spec hin fun other hother => hvalidOf (hvalids other hother)
    obtain ⟨added', hadded', haddedSorted', haddedBytes'⟩ :=
      addEach_spec hin fun other hother => hvalidOf (hvalids other (hperm.mem_iff.mpr hother))
    have hsame : added' = added := by
      refine haddedSorted'.eq_of_bytesOf_eq haddedSorted ?_
      rw [haddedBytes, haddedBytes', bytesOf_perm hperm]
    exact ⟨added, hadded, hsame ▸ hadded'⟩

/-- An extent that fills the gap between two others. -/
theorem addFreeExtent_eq_normalize_gap :
    (∃ added undo, addFreeExtent [⟨4096, 4096⟩, ⟨16384, 4096⟩] ⟨8192, 8192⟩ = ⟨true, added, undo⟩ ∧
      normalize ([⟨4096, 4096⟩, ⟨16384, 4096⟩] ++ [⟨8192, 8192⟩]) = some added ∧
      isSortedAndValid added = true ∧ SortedValid added ∧
      bytesOf added = bytesOf [⟨4096, 4096⟩, ⟨16384, 4096⟩] ∪ (⟨8192, 8192⟩ : Extent).range ∧
      rollbackAddFreeExtent added undo = (true, [⟨4096, 4096⟩, ⟨16384, 4096⟩])) ∧
    ∀ extents others : List Extent, extents.Perm others →
      (∀ other ∈ extents, (rangeEnd other.physicalAddress other.bytes).isSome) →
      ∃ added, addEach [⟨4096, 4096⟩, ⟨16384, 4096⟩] extents = some added ∧
        addEach [⟨4096, 4096⟩, ⟨16384, 4096⟩] others = some added :=
  addFreeExtent_eq_normalize [⟨4096, 4096⟩, ⟨16384, 4096⟩] ⟨8192, 8192⟩ (by decide) (by decide)

/-! ## Taking extents out -/

/-- What is left of a free extent lies in it and has lost the bytes taken. -/
theorem leftOf_spec {address extentEnd : ℕ} {free : Extent} (hvalid : free.Valid)
    (hrange : address < extentEnd) :
    SortedValid (leftOf address extentEnd free) ∧
      bytesOf (leftOf address extentEnd free) = free.range \ Set.Ico address extentEnd ∧
      ∀ piece ∈ leftOf address extentEnd free,
        free.physicalAddress ≤ piece.physicalAddress ∧ piece.finish ≤ free.finish := by
  have hpos := hvalid.address
  have hbound := hvalid.bound
  rw [leftOf]
  split
  · rename_i hapart
    refine ⟨sortedValid_cons.mpr ⟨hvalid, by simp, ⟨by simp, List.Pairwise.nil⟩⟩, ?_, ?_⟩
    · rw [bytesOf_cons, bytesOf_nil, Set.union_empty]
      ext byte
      show free.physicalAddress ≤ byte ∧ byte < free.finish ↔
        (free.physicalAddress ≤ byte ∧ byte < free.finish) ∧ ¬ (address ≤ byte ∧ byte < extentEnd)
      omega
    · intro piece hpiece
      rw [List.mem_singleton.mp hpiece]
      exact ⟨le_refl _, le_refl _⟩
  · rename_i hmeets
    show SortedValid (remainder free.physicalAddress address ++ remainder extentEnd free.finish) ∧
      bytesOf (remainder free.physicalAddress address ++ remainder extentEnd free.finish) = _ ∧
      ∀ piece ∈ remainder free.physicalAddress address ++ remainder extentEnd free.finish, _
    obtain ⟨hfirst, hfirstBytes, hfirstInside⟩ :=
      @remainder_spec free.physicalAddress address hpos (by omega)
    obtain ⟨hsecond, hsecondBytes, hsecondInside⟩ :=
      @remainder_spec extentEnd free.finish (by omega) hbound
    refine ⟨sortedValid_append.mpr ⟨hfirst, hsecond, fun piece hpiece other hother => ?_⟩, ?_, ?_⟩
    · have hhigh := (hfirstInside piece hpiece).2
      have hlow := (hsecondInside other hother).1
      omega
    · rw [bytesOf_append, hfirstBytes, hsecondBytes]
      ext byte
      show (free.physicalAddress ≤ byte ∧ byte < address) ∨ (extentEnd ≤ byte ∧ byte < free.finish) ↔
        (free.physicalAddress ≤ byte ∧ byte < free.finish) ∧ ¬ (address ≤ byte ∧ byte < extentEnd)
      omega
    · intro piece hpiece
      rcases List.mem_append.mp hpiece with hpiece | hpiece
      · have hinside := hfirstInside piece hpiece
        omega
      · have hinside := hsecondInside piece hpiece
        omega

theorem flatMap_leftOf_spec {address extentEnd : ℕ} {freeExtents : List Extent}
    (hsorted : SortedValid freeExtents) (hrange : address < extentEnd) :
    SortedValid (freeExtents.flatMap (leftOf address extentEnd)) ∧
      bytesOf (freeExtents.flatMap (leftOf address extentEnd)) =
        bytesOf freeExtents \ Set.Ico address extentEnd ∧
      ∀ fin, (∀ free ∈ freeExtents, fin < free.physicalAddress) →
        ∀ piece ∈ freeExtents.flatMap (leftOf address extentEnd), fin < piece.physicalAddress := by
  induction freeExtents with
  | nil => exact ⟨hsorted, by simp, by simp⟩
  | cons free rest ih =>
    obtain ⟨hvalid, hgap, hrest⟩ := sortedValid_cons.mp hsorted
    obtain ⟨hpieces, hpiecesBytes, hinside⟩ := leftOf_spec hvalid hrange
    obtain ⟨hothers, hothersBytes, hfrom⟩ := ih hrest
    rw [List.flatMap_cons]
    refine ⟨sortedValid_append.mpr ⟨hpieces, hothers, fun piece hpiece other hother => ?_⟩, ?_, ?_⟩
    · exact lt_of_le_of_lt (hinside piece hpiece).2 (hfrom free.finish hgap other hother)
    · rw [bytesOf_append, hpiecesBytes, hothersBytes, bytesOf_cons, Set.union_sdiff_distrib]
    · intro fin hbefore piece hpiece
      obtain ⟨hfirst, hlater⟩ := List.forall_mem_cons.mp hbefore
      rcases List.mem_append.mp hpiece with hpiece | hpiece
      · exact lt_of_lt_of_le hfirst (hinside piece hpiece).1
      · exact hfrom fin hlater piece hpiece

/-- **Taking out one extent takes out its bytes, and no others.** -/
theorem removeAllocatedExtent_spec {freeExtents : List Extent} {extent : Extent}
    (hsorted : SortedValid freeExtents) (hvalid : extent.Valid) :
    ∃ left, removeAllocatedExtent freeExtents extent = (true, left) ∧ SortedValid left ∧
      bytesOf left = bytesOf freeExtents \ extent.range := by
  have hbytes := hvalid.bytes
  have hrange : extent.physicalAddress < extent.finish := by
    show extent.physicalAddress < extent.physicalAddress + extent.bytes
    omega
  have hends : freeExtents.any
      (fun free => (rangeEnd free.physicalAddress free.bytes).isNone) = false := by
    refine List.any_eq_false.mpr fun free hfree => ?_
    rw [(hsorted.valid free hfree).rangeEnd]
    simp
  obtain ⟨hleft, hleftBytes, -⟩ := flatMap_leftOf_spec hsorted hrange
  refine ⟨_, ?_, hleft, hleftBytes⟩
  rw [removeAllocatedExtent, hvalid.rangeEnd]
  dsimp only
  rw [if_pos (isSortedAndValid_iff.mpr hsorted)]
  dsimp only
  rw [hends, if_neg (by simp)]

/-- `RemoveAllocatedExtent` for one extent after another; `none` when a call answers false. -/
def removeEach (freeExtents extents : List Extent) : Option (List Extent) :=
  extents.foldlM (fun current extent =>
    let result := removeAllocatedExtent current extent
    if result.1 then some result.2 else none) freeExtents

theorem removeEach_spec {freeExtents extents : List Extent} (hsorted : SortedValid freeExtents)
    (hvalid : ∀ extent ∈ extents, extent.Valid) :
    ∃ left, removeEach freeExtents extents = some left ∧ SortedValid left ∧
      bytesOf left = bytesOf freeExtents \ bytesOf extents := by
  induction extents generalizing freeExtents with
  | nil => exact ⟨freeExtents, rfl, hsorted, by rw [bytesOf_nil, Set.sdiff_empty]⟩
  | cons extent rest ih =>
    obtain ⟨hextent, hrest⟩ := List.forall_mem_cons.mp hvalid
    obtain ⟨next, hnext, hnextSorted, hnextBytes⟩ := removeAllocatedExtent_spec hsorted hextent
    obtain ⟨left, hleft, hleftSorted, hleftBytes⟩ := ih hnextSorted hrest
    refine ⟨left, ?_, hleftSorted, ?_⟩
    · rw [removeEach, List.foldlM_cons, hnext]
      exact hleft
    · rw [hleftBytes, hnextBytes, bytesOf_cons, Set.sdiff_sdiff]

/-- **Removing a list of extents in one sweep is removing them one after another.** -/
theorem removeAllocatedExtents_eq_foldlM (freeExtents extents : List Extent)
    (hsorted : isSortedAndValid freeExtents = true)
    (hvalid : ∀ extent ∈ extents, (rangeEnd extent.physicalAddress extent.bytes).isSome) :
    ∃ left, removeAllocatedExtents freeExtents extents = (true, left) ∧
      removeEach freeExtents extents = some left ∧
      isSortedAndValid left = true ∧ SortedValid left ∧
      bytesOf left = bytesOf freeExtents \ bytesOf extents := by
  have hvalids : ∀ extent ∈ extents, extent.Valid := by
    intro extent hextent
    obtain ⟨fin, hfin⟩ := Option.isSome_iff_exists.mp (hvalid extent hextent)
    exact (rangeEnd_eq_some.mp hfin).1
  have hin := isSortedAndValid_iff.mp hsorted
  obtain ⟨left, hleft, hleftSorted, hleftBytes⟩ := removeAllocatedExtents_spec hin hvalids
  obtain ⟨left', hleft', hleftSorted', hleftBytes'⟩ := removeEach_spec hin hvalids
  have hsame : left' = left :=
    hleftSorted'.eq_of_bytesOf_eq hleftSorted (by rw [hleftBytes, hleftBytes'])
  exact ⟨left, hleft, hsame ▸ hleft', isSortedAndValid_iff.mpr hleftSorted, hleftSorted, hleftBytes⟩

/-- Overlapping removals, out of order, over two free extents. -/
theorem removeAllocatedExtents_eq_foldlM_overlap :
    ∃ left, removeAllocatedExtents [⟨4096, 8192⟩, ⟨16384, 8192⟩]
        [⟨20480, 4096⟩, ⟨8192, 12288⟩, ⟨8192, 4096⟩] = (true, left) ∧
      removeEach [⟨4096, 8192⟩, ⟨16384, 8192⟩]
        [⟨20480, 4096⟩, ⟨8192, 12288⟩, ⟨8192, 4096⟩] = some left ∧
      isSortedAndValid left = true ∧ SortedValid left ∧
      bytesOf left = bytesOf [⟨4096, 8192⟩, ⟨16384, 8192⟩] \
        bytesOf [⟨20480, 4096⟩, ⟨8192, 12288⟩, ⟨8192, 4096⟩] :=
  removeAllocatedExtents_eq_foldlM [⟨4096, 8192⟩, ⟨16384, 8192⟩]
    [⟨20480, 4096⟩, ⟨8192, 12288⟩, ⟨8192, 4096⟩] (by decide) (by decide)

end Allocator
end ApfsAccess
